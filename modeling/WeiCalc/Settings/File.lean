import WeiCalc.Json.Reader
import WeiCalc.Settings

/-!
# Settings files

A settings file is a JSON object with some of four members. A member that is not one of them, or a
value of another kind than the member takes, is an error; unknown members are found first.
-/

namespace WeiCalc

/-- Why a settings file cannot be used. -/
inductive SettingsError where
  | malformed (e : JsonError)
  | notObject
  | unknownKeys (keys : List String)
  | notCount (key : String)
  | notText (key : String)
  | notFlag (key : String)
  deriving DecidableEq, Repr

namespace SettingsError

/-- An error in words, for a file at `path` with the given text. -/
def message (path text : String) : SettingsError → String
  | malformed e => e.message text
  | notObject => s!"{path}: expected a JSON object"
  | unknownKeys keys => s!"{path}: unknown config key(s): " ++ String.intercalate ", " keys
  | notCount key => s!"{path}: {key} must be a non-negative integer"
  | notText key => s!"{path}: {key} must be a string"
  | notFlag key => s!"{path}: {key} must be true or false"

end SettingsError

namespace Overrides

/-- The members of a settings file. -/
def keys : List String :=
  ["max_depth", "price_precision", "date_format", "full_words"]

/-- The value of a member, if the file has it, read by `read`. -/
def member {α : Type} (members : List (String × Json)) (key : String) (refused : SettingsError)
    (read : Json → Option α) : Except SettingsError (Option α) :=
  match Json.member? members key with
  | none => .ok none
  | some j =>
    match read j with
    | some a => .ok (some a)
    | none => .error refused

/-- A count; a truth value is one too. -/
def limit? : Json → Option Limit
  | .integer (.ofNat n) => some (.count n)
  | .bool b => some (.flag b)
  | _ => none

/-- A text. -/
def text? : Json → Option String
  | .text s => some s
  | _ => none

/-- A truth value. -/
def flag? : Json → Option Bool
  | .bool b => some b
  | _ => none

/-- The names of members that no settings file has, each once and in order. -/
def unknownKeys (members : List (String × Json)) : List String :=
  let names := (members.map Prod.fst).filter (!keys.contains ·)
  names.eraseDups.mergeSort fun a b => decide (a ≤ b)

/-- What a JSON value sets. -/
def ofJson (j : Json) : Except SettingsError Overrides := do
  let .object members := j | throw .notObject
  let unknown := unknownKeys members
  if !unknown.isEmpty then throw (.unknownKeys unknown)
  let maxDepth ← member members "max_depth" (.notCount "max_depth") limit?
  let pricePrecision ← member members "price_precision" (.notCount "price_precision") limit?
  let dateLayout ← member members "date_format" (.notText "date_format") text?
  let fullWords ← member members "full_words" (.notFlag "full_words") flag?
  return ⟨maxDepth, pricePrecision, dateLayout, fullWords⟩

/-- What the text of a settings file sets. -/
def ofText (text : String) : Except SettingsError Overrides :=
  match Json.ofText text with
  | .ok j => ofJson j
  | .error e => .error (.malformed e)

end Overrides

end WeiCalc

import WeiCalc.Json
import WeiCalc.Text.Digits
import WeiCalc.Text.Hex

/-!
# Reading JSON

The format is read strictly: no comments, no commas behind the last item, no control characters in
texts. Infinities and the value that is no number may be written as `Infinity`, `-Infinity` and
`NaN`, though. Integers of more than 4300 digits are refused. `Json.ofText` reads a whole text.

A reader holds the characters ahead. A failure leaves it in front of the place that the error
speaks of, so that the position can be told from what is left.
-/

namespace WeiCalc

/-- A computation on the characters that are still to be read. -/
abbrev JsonReader := EStateM JsonProblem (List Char)

namespace JsonReader

/-- Fails in front of `place`. -/
def refuse {α : Type} (problem : JsonProblem) (place : List Char) : JsonReader α := do
  set place
  throw problem

/-- The white space of the format. -/
def isSpace (c : Char) : Bool :=
  c == ' ' || c == '\t' || c == '\n' || c == '\r'

/-- Moves to the next character that is not white space, and answers what is ahead then. -/
def skipSpace : JsonReader (List Char) := do
  modify (·.dropWhile isSpace)
  get

/-- The number that four hexadecimal digits write. -/
def unit? (cs : List Char) : Option Nat :=
  if cs.length = 4 then (cs.mapM Hex.value?).map (Text.ofDigits 16) else none

/-- The characters that a backslash and one more character stand for. -/
def escapes : List (Char × Char) :=
  [
    ('"', '"'), ('\\', '\\'), ('/', '/'), ('b', '\x08'), ('f', '\x0c'), ('n', '\n'), ('r', '\r'),
    ('t', '\t')]

/--
The second half of a pair of units that together are one character, if `cs` starts with one. Its
digits are looked at only if a character follows them.
-/
def lowUnit? (cs : List Char) : JsonReader (Option Nat) :=
  match cs with
  | '\\' :: 'u' :: rest =>
    if rest.length ≤ 4 then return none
    else
      match unit? (rest.take 4) with
      | some low => return if 0xdc00 ≤ low ∧ low < 0xe000 then some low else none
      | none => refuse .unicodeEscape ('u' :: rest)
  | _ => return none

/-- The character that a unit stands for; half a pair stands for the replacement character. -/
def charOfUnit (n : Nat) : Char :=
  if 0xd800 ≤ n ∧ n < 0xe000 then '\ufffd' else Char.ofNat n

/-- Reads an escape of four digits, where `cs` is what stands behind its letter. -/
def unicodeEscape (cs : List Char) : JsonReader Char := do
  match unit? (cs.take 4) with
  | none => refuse .unicodeEscape ('u' :: cs)
  | some high =>
    let rest := cs.drop 4
    if rest.isEmpty then refuse .unicodeEscape ('u' :: cs)
    set rest
    if 0xd800 ≤ high ∧ high < 0xdc00 then
      match ← lowUnit? rest with
      | some low =>
        set (rest.drop 6)
        return Char.ofNat (0x10000 + 0x400 * (high - 0xd800) + (low - 0xdc00))
      | none => return charOfUnit high
    return charOfUnit high

/-- Reads one character of a text that begins at `start`; there is none at its end. -/
def character? (start : List Char) : JsonReader (Option Char) := do
  match ← get with
  | [] => refuse .openText start
  | '"' :: cs =>
    set cs
    return none
  | ['\\'] => refuse .openText start
  | '\\' :: 'u' :: cs => return some (← unicodeEscape cs)
  | '\\' :: c :: cs =>
    match escapes.lookup c with
    | some image =>
      set cs
      return some image
    | none => refuse .escape ('\\' :: c :: cs)
  | c :: cs =>
    if c.toNat < 0x20 then refuse .controlCharacter (c :: cs)
    set cs
    return some c

/-- Reads the rest of a text, at most `count` characters with its end. -/
def characters (start : List Char) : (count : Nat) → (read : List Char) → JsonReader String
  | 0, _ => refuse .openText start
  | count + 1, read => do
    match ← character? start with
    | none => return String.ofList read.reverse
    | some c => characters start count (c :: read)

/-- Reads a text, where its first quote is ahead. -/
def text : JsonReader String := do
  let start ← get
  set (start.drop 1)
  characters start start.length []

/-- The decimal digits in front. -/
def digits (cs : List Char) : List Char :=
  cs.takeWhile Char.isDigit

/-- The digits in front of the point: a zero alone, or digits that do not start with a zero. -/
def integerPart (cs : List Char) : List Char :=
  match cs with
  | '0' :: _ => ['0']
  | _ => digits cs

/-- The length of the fraction in front, with its point. -/
def fractionWidth (cs : List Char) : Nat :=
  match cs with
  | '.' :: rest => if (digits rest).isEmpty then 0 else (digits rest).length + 1
  | _ => 0

/-- The length of the exponent in front, with its letter. -/
def exponentWidth (cs : List Char) : Nat :=
  match cs with
  | c :: rest =>
    if c = 'e' ∨ c = 'E' then
      let sign := if rest.head? = some '-' ∨ rest.head? = some '+' then 1 else 0
      let ds := digits (rest.drop sign)
      if ds.isEmpty then 0 else ds.length + sign + 1
    else 0
  | [] => 0

/-- Reads a number. -/
def number : JsonReader Json := do
  let start ← get
  let negative := start.head? = some '-'
  let body := if negative then start.drop 1 else start
  let whole := integerPart body
  if whole.isEmpty then refuse .noValue start
  let behind := body.drop whole.length
  let fraction := fractionWidth behind
  let exponent := exponentWidth (behind.drop fraction)
  set (behind.drop (fraction + exponent))
  if 0 < fraction + exponent then return .real
  if Text.greatestDigits < whole.length then refuse (.longInteger whole.length) start
  let n : Int := Text.ofDecimal whole
  return .integer (if negative then -n else n)

/-- The values that are written as words. -/
def words : List (String × Json) :=
  [
    ("null", .null), ("true", .bool true), ("false", .bool false), ("NaN", .real),
    ("Infinity", .real), ("-Infinity", .real)]

/-- Reads a value that is neither a text nor an array nor an object. -/
def scalar : JsonReader Json := do
  let cs ← get
  match words.find? fun (word, _) => word.toList.isPrefixOf cs with
  | some (word, value) =>
    set (cs.drop word.length)
    return value
  | none => number

/-- Reads the items of an array from an item on, at most `count` of them. -/
def items (value : JsonReader Json) : (count : Nat) → (read : List Json) → JsonReader (List Json)
  | 0, _ => do refuse .noValue (← get)
  | count + 1, read => do
    let item ← value
    match ← skipSpace with
    | ']' :: cs =>
      set cs
      return (item :: read).reverse
    | ',' :: cs =>
      set cs
      let _ ← skipSpace
      items value count (item :: read)
    | cs => refuse .noComma cs

/-- Reads an array, where what stands behind its bracket is ahead. -/
def array (value : JsonReader Json) : JsonReader Json := do
  match ← skipSpace with
  | ']' :: cs =>
    set cs
    return .array []
  | cs => return .array (← items value (cs.length + 1) [])

/-- Reads a member of an object. -/
def member (value : JsonReader Json) : JsonReader (String × Json) := do
  let cs ← get
  if cs.head? ≠ some '"' then refuse .noName cs
  let name ← text
  match ← skipSpace with
  | ':' :: cs =>
    set cs
    let _ ← skipSpace
    return (name, ← value)
  | cs => refuse .noColon cs

/-- Reads the members of an object from a member on, at most `count` of them. -/
def members (value : JsonReader Json) :
    (count : Nat) → (read : List (String × Json)) → JsonReader (List (String × Json))
  | 0, _ => do refuse .noName (← get)
  | count + 1, read => do
    let m ← member value
    match ← skipSpace with
    | '}' :: cs =>
      set cs
      return (m :: read).reverse
    | ',' :: cs =>
      set cs
      let _ ← skipSpace
      members value count (m :: read)
    | cs => refuse .noComma cs

/-- Reads an object, where what stands behind its brace is ahead. -/
def object (value : JsonReader Json) : JsonReader Json := do
  match ← skipSpace with
  | '}' :: cs =>
    set cs
    return .object []
  | cs => return .object (← members value (cs.length + 1) [])

/-- Reads a value in which arrays and objects nest at most `levels` deep. -/
def value : (levels : Nat) → JsonReader Json
  | 0 => do refuse .noValue (← get)
  | levels + 1 => do
    match ← get with
    | '"' :: _ => return .text (← text)
    | '[' :: cs =>
      set cs
      array (value levels)
    | '{' :: cs =>
      set cs
      object (value levels)
    | _ => scalar

/-- Reads a whole text. A value cannot nest deeper than the text has characters. -/
def document : JsonReader Json := do
  let start ← get
  if start.head? = some '\ufeff' then refuse .byteOrderMark start
  let _ ← skipSpace
  let j ← value (start.length + 1)
  match ← skipSpace with
  | [] => return j
  | rest => refuse .extraData rest

end JsonReader

/-- The value that a text writes. -/
def Json.ofText (text : String) : Except JsonError Json :=
  let cs := text.toList
  match JsonReader.document cs with
  | .ok j _ => .ok j
  | .error problem rest => .error ⟨problem, cs.length - rest.length⟩

end WeiCalc

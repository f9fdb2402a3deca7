import WeiCalc.Text.Digits

/-!
# JSON values

The values of the JSON format, as far as settings need them: a number that is no integer is only
known to be one. `JsonError` says why a text is no JSON value, and where.
-/

namespace WeiCalc

/-- A JSON value. An object keeps its members in the order in which they were written. -/
inductive Json where
  | null
  | bool (b : Bool)
  | integer (n : Int)
  /-- A number with a fraction or an exponent, an infinity, or no number at all. -/
  | real
  | text (contents : String)
  | array (items : List Json)
  | object (members : List (String × Json))
  deriving Repr, Inhabited

namespace Json

/-- The member of a name; of several, the last one counts. -/
def member? (members : List (String × Json)) (name : String) : Option Json :=
  members.reverse.lookup name

end Json

/-- Why a text is no JSON value. -/
inductive JsonProblem where
  | byteOrderMark
  | noValue
  | noName
  | noColon
  | noComma
  | openText
  | controlCharacter
  | escape
  | unicodeEscape
  | extraData
  /-- An integer has too many digits. -/
  | longInteger (digits : Nat)
  deriving DecidableEq, Repr

/-- A problem and the number of characters in front of it. -/
structure JsonError where
  problem : JsonProblem
  position : Nat
  deriving DecidableEq, Repr

namespace JsonProblem

/-- A problem in words. -/
def message : JsonProblem → String
  | byteOrderMark => "Unexpected UTF-8 BOM (decode using utf-8-sig)"
  | noValue => "Expecting value"
  | noName => "Expecting property name enclosed in double quotes"
  | noColon => "Expecting ':' delimiter"
  | noComma => "Expecting ',' delimiter"
  | openText => "Unterminated string starting at"
  | controlCharacter => "Invalid control character at"
  | escape => "Invalid \\escape"
  | unicodeEscape => "Invalid \\uXXXX escape"
  | extraData => "Extra data"
  | longInteger digits =>
    s!"Exceeds the limit ({Text.greatestDigits} digits) for integer string conversion: " ++
      s!"value has {digits} digits; use sys.set_int_max_str_digits() to increase the limit"

end JsonProblem

namespace JsonError

/--
An error in words, with the line and the column of its place in the text. The digits of a long
integer say enough without.
-/
def message (e : JsonError) (text : String) : String :=
  let before := text.toList.take e.position
  let line := before.count '\n' + 1
  let column := (before.reverse.takeWhile (· != '\n')).length + 1
  match e.problem with
  | .longInteger _ => e.problem.message
  | problem => s!"{problem.message}: line {line} column {column} (char {e.position})"

end JsonError

end WeiCalc

import WeiCalc.Error
import WeiCalc.Text.Digits
import WeiCalc.Word

/-!
# Number literals

The value of a number as it is written. A hexadecimal or binary literal is an integer. A decimal
one is a rational number `m * 10 ^ e`; its word is the nearest integer, a half going up, and the
rational number itself is kept beside it when it is no integer, so that a unit can scale it without
loss.
-/

namespace WeiCalc

/-- A number literal: its word, its text, and its exact value if that is no integer. -/
structure NumberLiteral where
  value : Word
  raw : String
  exact : Option Rat
  deriving DecidableEq

namespace NumberLiteral

/-- The greatest length of a decimal literal. -/
def greatestLength : Nat := 1000

/-- The value of a digit of a base that is at most sixteen. -/
def digit? (base : Nat) (c : Char) : Option Nat :=
  (Hex.value? c).filter (· < base)

/-- The number that one or more digits of a base write. -/
def integer? (base : Nat) (cs : List Char) : Option Nat :=
  if cs.isEmpty then none else (cs.mapM (digit? base)).map (Text.ofDigits base)

/-- Digits without one base mark in front, where the letter of the mark is `letter`. -/
def withoutMark (letter : Char) : List Char → List Char
  | '0' :: c :: cs => if c.toLower = letter then cs else '0' :: c :: cs
  | cs => cs

/-- A literal that is an integer. -/
def ofNat (raw : String) (n : Nat) : Except LiteralCause NumberLiteral :=
  match Word.ofNat? n with
  | some w => .ok ⟨w, raw, none⟩
  | none => .error (.tooWide raw)

/--
Reads a literal with a base mark. Behind the mark the digits may carry the same mark once more.
-/
def readBased (base : Nat) (letter : Char) (malformed : String → LiteralCause) (raw : String) :
    Except LiteralCause NumberLiteral :=
  let ds := raw.toList.drop 2
  if ds.isEmpty then .error (.noDigits raw)
  else
    match integer? base (withoutMark letter ds) with
    | some n => ofNat raw n
    | none => .error (malformed raw)

/-- The parts of a decimal literal: a mantissa, which may have a point, and an exponent. -/
structure Decimal where
  mantissa : List Char
  exponent : Int

namespace Decimal

/-- Does the exponent start here? -/
def isExponentMark (c : Char) : Bool :=
  c == 'e' || c == 'E'

/-- The number that decimal digits write; other characters are passed over. -/
def natural (cs : List Char) : Nat :=
  Text.ofDecimal (cs.filter Char.isDigit)

/-- The integer that follows an exponent mark; no digits stand for zero. -/
def integer : List Char → Int
  | '-' :: cs => -(natural cs : Int)
  | cs => natural cs

/-- Splits a literal at its exponent mark. -/
def ofText (cs : List Char) : Decimal :=
  ⟨cs.takeWhile (!isExponentMark ·), integer ((cs.dropWhile (!isExponentMark ·)).drop 1)⟩

/-- The number of digits behind the point. -/
def places (d : Decimal) : Nat :=
  ((d.mantissa.dropWhile (· != '.')).drop 1).length

/-- The mantissa as an integer, the point left out. -/
def significand (d : Decimal) : Nat :=
  natural d.mantissa

/-- The rational number that a decimal writes. -/
def value (d : Decimal) : Rat :=
  (d.significand : Rat) * 10 ^ (d.exponent - d.places)

end Decimal

/-- The nearest integer to a rational number that is not negative; a half goes up. -/
def rounded (q : Rat) : Nat :=
  (q + 1 / 2).floor.toNat

/-- A literal of a rational value. -/
def ofRat (raw : String) (q : Rat) : Except LiteralCause NumberLiteral :=
  match Word.ofNat? (rounded q) with
  | some w => .ok ⟨w, raw, if q.den = 1 then none else some q⟩
  | none => .error (.tooWide raw)

/--
Reads a decimal literal. An exponent so far from the length of the mantissa that the value is
beyond every word, or far below one half, decides without the power of ten being computed.
-/
def readDecimal (raw : String) : Except LiteralCause NumberLiteral :=
  let cs := raw.toList
  let d := Decimal.ofText cs
  let width : Int := d.mantissa.length
  if greatestLength < cs.length then .error (.tooLong (String.ofList (cs.take 20)))
  else if d.significand = 0 then ofNat raw 0
  else if 80 < d.exponent - width then .error (.tooWide raw)
  else if d.exponent + width < -1 then ofNat raw 0
  else ofRat raw d.value

/-- Reads the number of a token of one of the three forms. -/
def ofToken (t : Token) : Except EvalError NumberLiteral :=
  let read :=
    match t.kind with
    | .hexNumber => readBased 16 'x' .notHex t.text
    | .binaryNumber => readBased 2 'b' .notBinary t.text
    | _ => readDecimal t.text
  read.mapError fun cause => ⟨.literal cause, some t.position⟩

end NumberLiteral

end WeiCalc

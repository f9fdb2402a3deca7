import WeiCalc.Text.Blank
import WeiCalc.Text.Digits

/-!
# Integers as options give them

A whole number may be signed and surrounded by white space other than the four information
separators, a single underscore may stand between two digits, and the decimal digits of every
script count. Texts of more than 4300 digits are not read.
-/

namespace WeiCalc.Text

/-- The zeros of the scripts that have decimal digits; the other nine follow each of them. -/
def zeros : List Nat :=
  [
    0x30, 0x660, 0x6f0, 0x7c0, 0x966, 0x9e6, 0xa66, 0xae6, 0xb66, 0xbe6, 0xc66, 0xce6, 0xd66,
    0xde6, 0xe50, 0xed0, 0xf20, 0x1040, 0x1090, 0x17e0, 0x1810, 0x1946, 0x19d0, 0x1a80, 0x1a90,
    0x1b50, 0x1bb0, 0x1c40, 0x1c50, 0xa620, 0xa8d0, 0xa900, 0xa9d0, 0xa9f0, 0xaa50, 0xabf0,
    0xff10, 0x104a0, 0x10d30, 0x11066, 0x110f0, 0x11136, 0x111d0, 0x112f0, 0x11450, 0x114d0,
    0x11650, 0x116c0, 0x11730, 0x118e0, 0x11950, 0x11c50, 0x11d50, 0x11da0, 0x16a60, 0x16ac0,
    0x16b50, 0x1d7ce, 0x1d7d8, 0x1d7e2, 0x1d7ec, 0x1d7f6, 0x1e140, 0x1e2f0, 0x1e950, 0x1fbf0]

/-- The value of a decimal digit of any script. -/
def digitValue? (c : Char) : Option Nat :=
  zeros.findSome? fun first =>
    if first ≤ c.toNat ∧ c.toNat < first + 10 then some (c.toNat - first) else none

/-- The values of one or more digits, between which single underscores may stand. -/
def digitValues? : List Char → Option (List Nat)
  | [] => none
  | c :: cs => do
    let d ← digitValue? c
    match cs with
    | [] => return [d]
    | '_' :: rest => return d :: (← digitValues? rest)
    | rest => return d :: (← digitValues? rest)

/-- The natural number that digits write. -/
def natural? (cs : List Char) : Option Nat := do
  let ds ← digitValues? cs
  if greatestDigits < ds.length then none else some (ofDigits 10 ds)

/-- The white space that may surround an integer. -/
def isMargin (c : Char) : Bool :=
  isBlank c && !(0x1c ≤ c.toNat && c.toNat ≤ 0x1f)

/-- A text without its margins. -/
def withoutMargins (cs : List Char) : List Char :=
  ((cs.dropWhile isMargin).reverse.dropWhile isMargin).reverse

/-- The integer that a text writes. -/
def integer? (s : String) : Option Int :=
  match withoutMargins s.toList with
  | '-' :: cs => (natural? cs).map fun n => -(n : Int)
  | '+' :: cs => (natural? cs).map fun n => (n : Int)
  | cs => (natural? cs).map fun n => (n : Int)

end WeiCalc.Text

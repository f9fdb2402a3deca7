import WeiCalc.Error
import WeiCalc.Word

/-!
# Values

What an expression can evaluate to. A number may carry a hint to be shown in hexadecimal with a
fixed number of bytes; a number with a hint of twenty bytes is an address. Decoded calldata is a
list of named fields.
-/

namespace WeiCalc

/-- A named field of decoded calldata, with the type it was decoded by. -/
structure Field (α : Type) where
  name : String
  abiType : String
  value : α
  deriving Repr

/-- What an expression evaluates to. -/
inductive Value where
  | uint (word : Word) (hexWidth : Option Nat)
  | text (contents : String)
  | bytes (contents : Bytes)
  | bool (b : Bool)
  | list (fields : List (Field Value))
  deriving Repr, Inhabited

namespace Value

/-- The number of bytes of an address. -/
def addressWidth : Nat := 20

/-- One more than the greatest address. -/
def addressLimit : Nat := Nat.pow 2 (8 * addressWidth)

/-- A number without a display hint. -/
def number (w : Word) : Value :=
  uint w none

/-- An address. -/
def address (w : Word) : Value :=
  uint w (some addressWidth)

/-- How an error message names the kind of a value. -/
def label : Value → String
  | uint _ (some 20) => "address"
  | uint _ _ => "uint256"
  | text _ => "string"
  | bytes _ => "bytes"
  | bool _ => "bool"
  | list _ => "list"

/-- A natural number as a value; one that is no word is a fault. -/
def ofNat (n : Nat) : Except Failure Value :=
  match Word.ofNat? n with
  | some w => .ok (number w)
  | none => .error (.fault .wordRange)

/-- The greatest length of texts and byte strings. -/
def greatestLength : Nat := 9223372036854775807

/-- A length as a value. -/
def ofLength (n : Nat) : Except Failure Value :=
  if n ≤ greatestLength then ofNat n else .error (.fault .longNumber)

/-- A signed result: text below zero, a number from zero on. -/
def ofInt (i : Int) : Except Failure Value :=
  match i with
  | .ofNat n => ofNat n
  | .negSucc _ => .ok (text (toString i))

end Value

end WeiCalc

import WeiCalc.Error
import WeiCalc.Operator
import WeiCalc.Word

/-!
# Arithmetic on words

Checked arithmetic answers an error when a result is no word; wrapping arithmetic answers the
result modulo `2 ^ 256`. Division by zero is an error in both. Shifts drop the bits that leave the
word in both.
-/

namespace WeiCalc

/-- What happens to a result that is no word. -/
inductive ArithmeticMode where
  | checked
  | wrapping
  deriving DecidableEq, Repr

namespace Arithmetic

/-- A power modulo `2 ^ 256`, by repeated squaring. -/
def powWrapping (base : Word) (exponent : Nat) : Word :=
  if exponent = 0 then 1
  else
    let half := powWrapping base (exponent / 2)
    if exponent % 2 = 0 then half * half else half * half * base
termination_by exponent
decreasing_by omega

/-- A sum. -/
def add (mode : ArithmeticMode) (a b : Word) : Except Cause Word :=
  if mode = .wrapping ∨ a.toNat + b.toNat < Word.capacity then .ok (a + b)
  else .error (.overflow (.operation .add a.toNat b.toNat))

/-- A difference. -/
def sub (mode : ArithmeticMode) (a b : Word) : Except Cause Word :=
  if mode = .wrapping ∨ b.toNat ≤ a.toNat then .ok (a - b)
  else .error (.underflow (.difference a.toNat b.toNat))

/-- A product. -/
def mul (mode : ArithmeticMode) (a b : Word) : Except Cause Word :=
  if mode = .wrapping ∨ a.toNat * b.toNat < Word.capacity then .ok (a * b)
  else .error (.overflow (.operation .mul a.toNat b.toNat))

/-- A quotient, rounded down. -/
def div (a b : Word) : Except Cause Word :=
  if b = 0 then .error (.divisionByZero (.operation .div a.toNat)) else .ok (a / b)

/-- A remainder. -/
def mod (a b : Word) : Except Cause Word :=
  if b = 0 then .error (.divisionByZero (.operation .mod a.toNat)) else .ok (a % b)

/--
A power that is a word, if there is one. A base of at least two with an exponent of 256 or more is
not computed: it is no word.
-/
def pow? (base exponent : Nat) : Option Word :=
  if exponent = 0 then some 1
  else if base ≤ 1 then Word.ofNat? base
  else if 256 ≤ exponent then none
  else Word.ofNat? (Nat.pow base exponent)

/-- A power. -/
def pow (mode : ArithmeticMode) (a b : Word) : Except Cause Word :=
  match mode with
  | .wrapping => .ok (powWrapping a b.toNat)
  | .checked =>
    match pow? a.toNat b.toNat with
    | some w => .ok w
    | none => .error (.overflow (.operation .pow a.toNat b.toNat))

/-- A shift to the left; shifts by the width of a word or more leave nothing. -/
def shiftLeft (a b : Word) : Word :=
  if 256 ≤ b.toNat then 0 else a <<< b.toNat

/-- A shift to the right; shifts by the width of a word or more leave nothing. -/
def shiftRight (a b : Word) : Word :=
  if 256 ≤ b.toNat then 0 else a >>> b.toNat

/-- A binary operation. -/
def apply (mode : ArithmeticMode) (op : BinaryOp) (a b : Word) : Except Cause Word :=
  match op with
  | .add => add mode a b
  | .sub => sub mode a b
  | .mul => mul mode a b
  | .div => div a b
  | .mod => mod a b
  | .pow => pow mode a b
  | .shiftLeft => .ok (shiftLeft a b)
  | .shiftRight => .ok (shiftRight a b)

/-- The negative of a word: only zero has one that is checked. -/
def negate (mode : ArithmeticMode) (a : Word) : Except Cause Word :=
  if mode = .wrapping ∨ a = 0 then .ok (-a) else .error (.underflow (.negation a.toNat))

end Arithmetic

end WeiCalc

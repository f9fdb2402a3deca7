/-!
# Rounding to significant binary digits

The nearest rational number with 53 significant binary digits; of two that are equally near, the
one whose last digit is even.
-/

namespace WeiCalc

namespace Rounding

/-- The number of significant binary digits. -/
def digits : Nat := 53

/-- The nearest integer to a quotient; of two that are equally near, the even one. -/
def toEven (num den : Nat) : Nat :=
  let q := num / den
  let twice := 2 * (num % den)
  if den < twice ∨ (twice = den ∧ q % 2 = 1) then q + 1 else q

/-- The least exponent with `num / den < 2 ^ exponent`, as an integer. -/
def exponent (num den : Nat) : Int :=
  let e : Int := (num.log2 : Int) - den.log2
  if num * Nat.pow 2 (-e).toNat < den * Nat.pow 2 e.toNat then e else e + 1

/-- The nearest number with 53 significant binary digits to a quotient that is not negative. -/
def nearest (num den : Nat) : Rat :=
  if num = 0 then 0
  else
    let shift : Int := digits - exponent num den
    let m := toEven (num * Nat.pow 2 shift.toNat) (den * Nat.pow 2 (-shift).toNat)
    (m : Rat) / (2 : Rat) ^ shift

end Rounding

end WeiCalc

import WeiCalc.Error

/-!
# Integer roots

The greatest integer whose power does not exceed a number. `iroot` starts Newton's iteration at a
power of two that is at least the root, and corrects the answer by single steps, down and up.
-/

namespace WeiCalc

namespace Root

/-- The greatest `r` with `r * r ≤ x`. -/
def isqrt (x : Nat) : Nat :=
  x.sqrt

/-- The number of binary digits of a number. -/
def bitLength (x : Nat) : Nat :=
  if x = 0 then 0 else x.log2 + 1

/-- One step of Newton's iteration for the root of degree `n`. -/
def newtonStep (x n guess : Nat) : Nat :=
  ((n - 1) * guess + x / Nat.pow guess (n - 1)) / n

/-- Newton's iteration, for as long as the guess decreases. -/
def newton (x n guess : Nat) : Nat :=
  if newtonStep x n guess < guess then newton x n (newtonStep x n guess) else guess
termination_by guess

/-- The first number from `guess` downward whose power does not exceed `x`. -/
def stepDown (x n : Nat) : (guess : Nat) → Nat
  | 0 => 0
  | guess + 1 => if x < Nat.pow (guess + 1) n then stepDown x n guess else guess + 1

/-- The last number at most `count` steps from `guess` upward whose power does not exceed `x`. -/
def stepUp (x n : Nat) : (count guess : Nat) → Nat
  | 0, guess => guess
  | count + 1, guess => if Nat.pow (guess + 1) n ≤ x then stepUp x n count (guess + 1) else guess

/-- A power of two that is at least the root of degree `n`. -/
def firstGuess (x n : Nat) : Nat :=
  Nat.pow 2 ((bitLength x + n - 1) / n)

/-- The greatest `r` with `r ^ n ≤ x`. -/
def iroot (x n : Nat) : Except Cause Nat :=
  if n = 0 then .error (.divisionByZero .rootDegree)
  else if x < 2 ∨ n = 1 then .ok x
  else if bitLength x ≤ n then .ok 1
  else .ok (stepUp x n x (stepDown x n (newton x n (firstGuess x n))))

end Root

end WeiCalc

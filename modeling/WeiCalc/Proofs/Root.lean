import Mathlib
import WeiCalc.Proofs.Run
import WeiCalc.Root

/-!
# Integer roots are bounded

The root of a number is no greater than the number, whatever guess Newton's iteration comes to: both
corrections stop at a guess whose power does not exceed the number.  The iteration never divides by
zero, since every guess is positive.

* `iroot_pow_le`: the power of a root does not exceed the number.
* `Guess.pos`: the guesses of Newton's iteration are positive.
-/

namespace WeiCalc

namespace Root

/-! ### The power of a root -/

theorem stepDown_pow_le {x n : Nat} (hn : n ≠ 0) (guess : Nat) : stepDown x n guess ^ n ≤ x := by
  induction guess with
  | zero =>
    rw [stepDown, zero_pow hn]
    exact Nat.zero_le x
  | succ guess ih =>
    rw [stepDown]
    by_cases h : x < Nat.pow (guess + 1) n
    · rw [if_pos h]
      exact ih
    · rw [if_neg h]
      exact Nat.le_of_not_lt h

theorem stepUp_pow_le {x n : Nat} (count : Nat) :
    ∀ {guess : Nat}, guess ^ n ≤ x → stepUp x n count guess ^ n ≤ x := by
  induction count with
  | zero =>
    intro guess h
    exact h
  | succ count ih =>
    intro guess h
    rw [stepUp]
    by_cases hp : Nat.pow (guess + 1) n ≤ x
    · rw [if_pos hp]
      exact ih hp
    · rw [if_neg hp]
      exact h

/-- **The power of a root does not exceed the number.** -/
theorem iroot_pow_le {x n r : Nat} (h : iroot x n = .ok r) : n ≠ 0 ∧ r ^ n ≤ x := by
  rw [iroot] at h
  split_ifs at h with hn hs hb
  · refine ⟨hn, ?_⟩
    cases h
    rcases hs with hs | rfl
    · have hx : x = 0 ∨ x = 1 := by omega
      rcases hx with rfl | rfl
      · rw [zero_pow hn]
      · rw [one_pow]
    · rw [pow_one]
  · refine ⟨hn, ?_⟩
    cases h
    rw [one_pow]
    omega
  · refine ⟨hn, ?_⟩
    cases h
    exact stepUp_pow_le x (stepDown_pow_le hn _)

theorem iroot_le {x n r : Nat} (h : iroot x n = .ok r) : r ≤ x := by
  obtain ⟨hn, hp⟩ := iroot_pow_le h
  exact le_trans (Nat.le_self_pow hn r) hp

theorem isqrt_le (x : Nat) : isqrt x ≤ x := Nat.sqrt_le_self x

/-! ### The guesses of Newton's iteration -/

/-- A guess that Newton's iteration for the root of degree `n` may come to. -/
inductive Guess (x n : Nat) : Nat → Prop
  | first : Guess x n (firstGuess x n)
  | next {guess : Nat} : Guess x n guess → Guess x n (newtonStep x n guess)

/-- A step from a positive guess: above one the old guess alone is enough, and at one the number. -/
theorem newtonStep_pos {x n guess : Nat} (hx : x ≠ 0) (hn : 2 ≤ n) (hg : 0 < guess) :
    0 < newtonStep x n guess := by
  rw [newtonStep]
  refine Nat.div_pos ?_ (by omega)
  by_cases h : guess = 1
  · subst h
    have hp : Nat.pow 1 (n - 1) = 1 := one_pow _
    rw [hp, Nat.div_one]
    omega
  · have hm : (n - 1) * 2 ≤ (n - 1) * guess := Nat.mul_le_mul_left _ (by omega)
    exact le_trans (by omega) (Nat.le_add_right _ _)

/-- **The guesses of Newton's iteration are positive**, and so are the numbers it divides by. -/
theorem Guess.pos {x n guess : Nat} (hx : x ≠ 0) (hn : 2 ≤ n) (h : Guess x n guess) :
    0 < guess := by
  induction h with
  | first => exact Nat.pow_pos (by decide)
  | next _ ih => exact newtonStep_pos hx hn ih

end Root

end WeiCalc

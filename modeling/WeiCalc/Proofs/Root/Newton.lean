import Mathlib
import WeiCalc.Proofs.Root

/-!
# Newton's iteration comes to the root

The iteration starts above the root.  A step from any guess ends at the root or above it, and it
ends below the guess exactly if the guess is above the root: so the guesses fall until they reach the
root, and stop there.  Neither of the corrections behind the iteration has anything to do.

* `newtonStep_lt_iff`, `nthRoot_le_newtonStep`: what a step does.
* `guesses`: the guesses that the iteration goes through.
* `newton_eq_nthRoot`: the iteration ends at the root.
* `iroot_eq_nthRoot`: so do the shortcuts for small numbers and great degrees.
* `iroot_newton`: **the root, and how the iteration comes to it.**
-/

namespace WeiCalc

namespace Root

variable {x n guess : Nat}

/-! ### One step -/

/-- **A step goes down exactly from guesses whose power exceeds the number.** -/
theorem newtonStep_lt_iff (hn : n ≠ 0) : newtonStep x n guess < guess ↔ x < guess ^ n := by
  obtain ⟨m, rfl⟩ := Nat.exists_eq_succ_of_ne_zero hn
  rcases Nat.eq_zero_or_pos guess with rfl | hg
  · simp
  have hpow : guess ^ (m + 1) = guess * guess ^ m := pow_succ' guess m
  have hmul : guess * (m + 1) = m * guess + guess := by ring
  calc newtonStep x (m + 1) guess < guess
      ↔ (m * guess + x / guess ^ m) / (m + 1) < guess := Iff.rfl
    _ ↔ m * guess + x / guess ^ m < m * guess + guess := by
        rw [Nat.div_lt_iff_lt_mul (Nat.succ_pos m), hmul]
    _ ↔ x / guess ^ m < guess := Nat.add_lt_add_iff_left
    _ ↔ x < guess ^ (m + 1) := by rw [Nat.div_lt_iff_lt_mul (Nat.pow_pos hg), hpow]

/-- **A step never goes below the root**, whatever the guess is. -/
theorem nthRoot_le_newtonStep (hn : n ≠ 0) (hg : guess ≠ 0) :
    Nat.nthRoot n x ≤ newtonStep x n guess := by
  obtain ⟨m, rfl⟩ := Nat.exists_eq_succ_of_ne_zero hn
  have hstep : newtonStep x (m + 1) guess = (x / guess ^ m + m * guess) / (m + 1) :=
    congrArg (· / (m + 1)) (Nat.add_comm _ _)
  have hlt : x < (newtonStep x (m + 1) guess + 1) ^ (m + 1) := by
    rw [hstep]
    exact Nat.nthRoot.lt_pow_go_succ_aux hg
  exact Nat.le_of_lt_succ ((Nat.nthRoot_lt_iff hn).mpr hlt)

/-! ### The first guess -/

theorem lt_two_pow_bitLength (x : Nat) : x < 2 ^ bitLength x := by
  rw [bitLength]
  split_ifs with h
  · rw [h]
    exact Nat.one_pos
  · exact Nat.lt_log2_self

/-- **The power of the first guess exceeds the number**: it has a digit more. -/
theorem lt_firstGuess_pow (hn : n ≠ 0) : x < firstGuess x n ^ n := by
  have hceil : bitLength x ≤ (bitLength x + n - 1) / n * n := by
    have hmod := Nat.mod_lt (bitLength x + n - 1) (Nat.pos_of_ne_zero hn)
    have hdiv := Nat.div_add_mod' (bitLength x + n - 1) n
    omega
  calc x < 2 ^ bitLength x := lt_two_pow_bitLength x
    _ ≤ 2 ^ ((bitLength x + n - 1) / n * n) := Nat.pow_le_pow_right (by decide) hceil
    _ = firstGuess x n ^ n := pow_mul ..

theorem nthRoot_le_firstGuess (hn : n ≠ 0) : Nat.nthRoot n x ≤ firstGuess x n :=
  ((Nat.nthRoot_lt_iff hn).mpr (lt_firstGuess_pow hn)).le

/-! ### The iteration -/

/-- The guesses that the iteration goes through, from `guess` on. -/
def guesses (x n guess : Nat) : List Nat :=
  guess :: if newtonStep x n guess < guess then guesses x n (newtonStep x n guess) else []
termination_by guess

theorem guesses_of_lt (h : newtonStep x n guess < guess) :
    guesses x n guess = guess :: guesses x n (newtonStep x n guess) := by
  rw [guesses, if_pos h]

theorem guesses_of_le (h : guess ≤ newtonStep x n guess) : guesses x n guess = [guess] := by
  rw [guesses, if_neg (Nat.not_lt.mpr h)]

/-- The iteration ends at the last of its guesses. -/
@[simp] theorem getLast?_guesses (x n guess : Nat) :
    (guesses x n guess).getLast? = some (newton x n guess) := by
  fun_induction newton x n guess with
  | case1 guess h ih =>
    rw [guesses_of_lt h, List.getLast?_cons, ih]
    rfl
  | case2 guess h =>
    rw [guesses_of_le (Nat.not_lt.mp h)]
    rfl

/-- The guesses fall: none behind the first one is as great as it. -/
theorem guesses_pairwise (x n guess : Nat) :
    (guesses x n guess).Pairwise (· > ·) ∧ ∀ g ∈ guesses x n guess, g ≤ guess := by
  fun_induction newton x n guess with
  | case1 guess h ih =>
    obtain ⟨hfall, hle⟩ := ih
    rw [guesses_of_lt h]
    refine ⟨List.pairwise_cons.mpr ⟨fun g hg => lt_of_le_of_lt (hle g hg) h, hfall⟩, ?_⟩
    intro g hg
    rcases List.mem_cons.mp hg with rfl | hg
    · exact le_rfl
    · exact (lt_of_le_of_lt (hle g hg) h).le
  | case2 guess h =>
    rw [guesses_of_le (Nat.not_lt.mp h)]
    refine ⟨List.pairwise_singleton _ _, fun g hg => ?_⟩
    exact (List.mem_singleton.mp hg).le

/-- No guess is below the root, if the first one is not. -/
theorem nthRoot_le_of_mem_guesses (hn : n ≠ 0) (hroot : Nat.nthRoot n x ≤ guess) :
    ∀ g ∈ guesses x n guess, Nat.nthRoot n x ≤ g := by
  fun_induction newton x n guess with
  | case1 guess h ih =>
    rw [guesses_of_lt h]
    intro g hg
    rcases List.mem_cons.mp hg with rfl | hg
    · exact hroot
    · exact ih (nthRoot_le_newtonStep hn (by omega)) g hg
  | case2 guess h =>
    rw [guesses_of_le (Nat.not_lt.mp h)]
    intro g hg
    rw [List.mem_singleton.mp hg]
    exact hroot

/-- **The iteration ends at the root** from every guess that is not below it. -/
theorem newton_eq_nthRoot (hn : n ≠ 0) (hroot : Nat.nthRoot n x ≤ guess) :
    newton x n guess = Nat.nthRoot n x := by
  fun_induction newton x n guess with
  | case1 guess h ih => exact ih (nthRoot_le_newtonStep hn (by omega))
  | case2 guess h =>
    -- A step that does not go down is one from a guess that is not above the root.
    rw [newtonStep_lt_iff hn, not_lt, ← Nat.le_nthRoot_iff hn] at h
    exact le_antisymm h hroot

/-! ### Corrections -/

theorem stepDown_of_le (h : guess ^ n ≤ x) : stepDown x n guess = guess := by
  cases guess with
  | zero => rfl
  | succ guess => exact if_neg (Nat.not_lt.mpr h)

theorem stepUp_of_lt (h : x < (guess + 1) ^ n) (count : Nat) : stepUp x n count guess = guess := by
  cases count with
  | zero => rfl
  | succ count => exact if_neg (Nat.not_le.mpr h)

/-! ### Roots -/

/-- **A root is the greatest number whose power does not exceed the number**, by a shortcut or by the
iteration. -/
theorem iroot_eq_nthRoot (x : Nat) (hn : n ≠ 0) : iroot x n = .ok (Nat.nthRoot n x) := by
  have hle : Nat.nthRoot n x ^ n ≤ x := Nat.pow_nthRoot_le (Or.inl hn)
  have hlt : x < (Nat.nthRoot n x + 1) ^ n := Nat.lt_pow_nthRoot_add_one hn x
  rw [iroot, if_neg hn]
  by_cases hsmall : x < 2 ∨ n = 1
  · rw [if_pos hsmall]
    rcases hsmall with hx | rfl
    · have hroot : Nat.nthRoot n x = x := by
        interval_cases x
        · exact Nat.nthRoot_zero_right hn
        · exact Nat.nthRoot_one_right
      rw [hroot]
    · rfl
  rw [if_neg hsmall]
  by_cases hwide : bitLength x ≤ n
  · have hx : x < (1 + 1) ^ n :=
      lt_of_lt_of_le (lt_two_pow_bitLength x) (Nat.pow_le_pow_right (by decide) hwide)
    have hone : 1 ^ n ≤ x := by
      rw [one_pow]
      omega
    rw [if_pos hwide, Nat.nthRoot_eq_of_le_of_lt hone hx]
  · rw [if_neg hwide, newton_eq_nthRoot hn (nthRoot_le_firstGuess hn), stepDown_of_le hle,
      stepUp_of_lt hlt]

theorem nthRoot_two (x : Nat) : Nat.nthRoot 2 x = isqrt x :=
  Nat.nthRoot_eq_of_le_of_lt (Nat.sqrt_le' x) (Nat.lt_succ_sqrt' x)

/-- **A root of any degree is the greatest number whose power does not exceed the number**, and
Newton's iteration comes to it: its guesses fall from the first to the last, none of them is below the
root, the last one is the root, and there is nothing left to correct, neither downward nor upward.
Square roots are the roots of degree two. -/
theorem iroot_newton (x : Nat) :
    (∀ n, 1 ≤ n → ∃ r, iroot x n = .ok r ∧ r ^ n ≤ x ∧ x < (r + 1) ^ n ∧
      (∀ g ∈ guesses x n (firstGuess x n), r ≤ g) ∧
      (guesses x n (firstGuess x n)).Pairwise (· > ·) ∧
      (guesses x n (firstGuess x n)).getLast? = some r ∧ newton x n (firstGuess x n) = r ∧
      stepDown x n r = r ∧ stepUp x n x r = r) ∧
    iroot x 2 = .ok (isqrt x) := by
  constructor
  · intro n hpos
    have hn : n ≠ 0 := Nat.one_le_iff_ne_zero.mp hpos
    have hle : Nat.nthRoot n x ^ n ≤ x := Nat.pow_nthRoot_le (Or.inl hn)
    have hlt : x < (Nat.nthRoot n x + 1) ^ n := Nat.lt_pow_nthRoot_add_one hn x
    have hend := newton_eq_nthRoot hn (nthRoot_le_firstGuess (x := x) hn)
    have hlast := getLast?_guesses x n (firstGuess x n)
    rw [hend] at hlast
    exact ⟨Nat.nthRoot n x, iroot_eq_nthRoot x hn, hle, hlt,
      nthRoot_le_of_mem_guesses hn (nthRoot_le_firstGuess hn), (guesses_pairwise x n _).1, hlast,
      hend, stepDown_of_le hle, stepUp_of_lt hlt x⟩
  · rw [iroot_eq_nthRoot x (by decide), nthRoot_two]

/-- The cube root of a thousand takes two steps. -/
theorem iroot_newton_thousand :
    1 ≤ 3 ∧ iroot 1000 3 = .ok 10 ∧ guesses 1000 3 (firstGuess 1000 3) = [16, 11, 10] ∧
    [16, 11, 10].Pairwise (· > ·) ∧ newton 1000 3 (firstGuess 1000 3) = 10 ∧
    iroot 1000 2 = .ok 31 := by
  have hpos : 1 ≤ 3 := by decide
  have htrace : guesses 1000 3 (firstGuess 1000 3) = [16, 11, 10] := by
    have hfirst : firstGuess 1000 3 = 16 := by decide
    have hnext : newtonStep 1000 3 16 = 11 := by decide
    have hlast : newtonStep 1000 3 11 = 10 := by decide
    have hstop : newtonStep 1000 3 10 = 10 := by decide
    rw [hfirst, guesses_of_lt (by omega), hnext, guesses_of_lt (by omega), hlast,
      guesses_of_le (by omega)]
  have hsqrt : isqrt 1000 = 31 := by
    rw [← nthRoot_two]
    exact Nat.nthRoot_eq_of_le_of_lt (by decide) (by decide)
  obtain ⟨hroots, hsquare⟩ := iroot_newton 1000
  obtain ⟨r, hr, -, -, -, hfall, hend, hnewton, -, -⟩ := hroots 3 hpos
  rw [htrace] at hfall hend
  obtain rfl : 10 = r := Option.some.inj hend
  rw [hsqrt] at hsquare
  exact ⟨hpos, hr, htrace, hfall, hnewton, hsquare⟩

end Root

end WeiCalc

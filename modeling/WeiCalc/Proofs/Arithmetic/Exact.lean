import Mathlib
import WeiCalc.Proofs.Arithmetic

/-!
# Words and integers agree

Every operation on words is measured by the same operation on integers.  The checked operation
answers the integer where it is a word, and else says on which side of the words it lies; the wrapping
one answers it modulo the capacity.  Only a zero divisor stops both.

* `FollowsIntegers`: what this means for an operation in both modes.
* `CheckedAnswer`, `FollowsIntegers.of_answers`: what has to be shown for it.
* `apply_checkedAnswer`, `apply_wrapping_of_not_zero`: the binary operations in either mode.
* `operations_followIntegers`: **all operations on words follow those on integers.**
-/

namespace WeiCalc

namespace Arithmetic

/-! ### Operations that follow the integers -/

/-- An operation on words in both modes, next to an operation on integers.  `zero` says that a divisor
is zero, `result` is what the checked operation is to answer, and `exact` is what the wrapping one is
to answer modulo the capacity. -/
structure FollowsIntegers (run : ArithmeticMode → Except Cause Word) (zero : Prop)
    (result exact : Int) : Prop where
  checked_word : ∀ w, run .checked = .ok w ↔ ¬zero ∧ (w.toNat : Int) = result
  checked_overflow : (∃ c, run .checked = .error (.overflow c)) ↔ Word.capacity ≤ result
  checked_underflow : (∃ c, run .checked = .error (.underflow c)) ↔ result < 0
  checked_zero : (∃ c, run .checked = .error (.divisionByZero c)) ↔ zero
  wrapping_word : ∀ w, run .wrapping = .ok w ↔ ¬zero ∧ (w.toNat : Int) = exact % Word.capacity
  wrapping_zero : (∃ c, run .wrapping = .error (.divisionByZero c)) ↔ zero
  wrapping_error : ∀ cause, run .wrapping = .error cause → ∃ c, cause = .divisionByZero c

/-- What a checked operation may answer. -/
inductive CheckedAnswer (zero : Prop) (result : Int) : Except Cause Word → Prop
  | word {w : Word} : ¬zero → (w.toNat : Int) = result → CheckedAnswer zero result (.ok w)
  | zeroDivisor (c : ZeroCause) :
      zero → 0 ≤ result → result < Word.capacity →
        CheckedAnswer zero result (.error (.divisionByZero c))
  | belowZero (c : UnderflowCause) :
      ¬zero → result < 0 → CheckedAnswer zero result (.error (.underflow c))
  | tooGreat (c : OverflowCause) :
      ¬zero → Word.capacity ≤ result → CheckedAnswer zero result (.error (.overflow c))

variable {zero : Prop} {result exact : Int} {answer : Except Cause Word}

theorem word_ext {w w' : Word} (h : (w.toNat : Int) = w'.toNat) : w = w' :=
  BitVec.eq_of_toNat_eq (by exact_mod_cast h)

theorem CheckedAnswer.eq_ok_iff (h : CheckedAnswer zero result answer) (w : Word) :
    answer = .ok w ↔ ¬zero ∧ (w.toNat : Int) = result := by
  have hw : (w.toNat : Int) < Word.capacity := by exact_mod_cast w.toNat_lt
  cases h with
  | word hz hr =>
    constructor
    · intro he
      cases he
      exact ⟨hz, hr⟩
    · rintro ⟨-, he⟩
      rw [word_ext (hr.trans he.symm)]
  | zeroDivisor c hz _ _ => exact ⟨nofun, fun he => absurd hz he.1⟩
  | belowZero c _ hlt => exact ⟨nofun, fun ⟨_, he⟩ => by omega⟩
  | tooGreat c _ hle => exact ⟨nofun, fun ⟨_, he⟩ => by omega⟩

theorem CheckedAnswer.overflow_iff (h : CheckedAnswer zero result answer) :
    (∃ c, answer = .error (.overflow c)) ↔ Word.capacity ≤ result := by
  cases h with
  | @word w _ hr =>
    have hw : (w.toNat : Int) < Word.capacity := by exact_mod_cast w.toNat_lt
    exact ⟨nofun, fun hle => by omega⟩
  | zeroDivisor c _ _ hlt => exact ⟨nofun, fun hle => by omega⟩
  | belowZero c _ hlt => exact ⟨nofun, fun hle => by omega⟩
  | tooGreat c _ hle => exact ⟨fun _ => hle, fun _ => ⟨c, rfl⟩⟩

theorem CheckedAnswer.underflow_iff (h : CheckedAnswer zero result answer) :
    (∃ c, answer = .error (.underflow c)) ↔ result < 0 := by
  cases h with
  | word _ hr => exact ⟨nofun, fun hlt => by omega⟩
  | zeroDivisor c _ hle _ => exact ⟨nofun, fun hlt => by omega⟩
  | belowZero c _ hlt => exact ⟨fun _ => hlt, fun _ => ⟨c, rfl⟩⟩
  | tooGreat c _ hle => exact ⟨nofun, fun hlt => by omega⟩

theorem CheckedAnswer.divisionByZero_iff (h : CheckedAnswer zero result answer) :
    (∃ c, answer = .error (.divisionByZero c)) ↔ zero := by
  cases h with
  | word hz _ => exact ⟨nofun, fun hzero => absurd hzero hz⟩
  | zeroDivisor c hz _ _ => exact ⟨fun _ => hz, fun _ => ⟨c, rfl⟩⟩
  | belowZero c hz _ => exact ⟨nofun, fun hzero => absurd hzero hz⟩
  | tooGreat c hz _ => exact ⟨nofun, fun hzero => absurd hzero hz⟩

/-- **An operation follows the integers** if its checked form does, and its wrapping form answers
wherever no divisor is zero. -/
theorem FollowsIntegers.of_answers {run : ArithmeticMode → Except Cause Word}
    (hchecked : CheckedAnswer zero result (run .checked))
    (hzero : zero → ∃ c, run .wrapping = .error (.divisionByZero c))
    (hwraps : ¬zero → ∃ w, run .wrapping = .ok w ∧ (w.toNat : Int) = exact % Word.capacity) :
    FollowsIntegers run zero result exact where
  checked_word := hchecked.eq_ok_iff
  checked_overflow := hchecked.overflow_iff
  checked_underflow := hchecked.underflow_iff
  checked_zero := hchecked.divisionByZero_iff
  wrapping_word w := by
    by_cases hz : zero
    · obtain ⟨c, hc⟩ := hzero hz
      rw [hc]
      exact ⟨nofun, fun he => absurd hz he.1⟩
    · obtain ⟨w', hw, hr⟩ := hwraps hz
      rw [hw]
      constructor
      · intro he
        cases he
        exact ⟨hz, hr⟩
      · rintro ⟨-, he⟩
        rw [word_ext (hr.trans he.symm)]
  wrapping_zero := by
    refine ⟨fun ⟨c, hc⟩ => ?_, hzero⟩
    by_contra hz
    obtain ⟨w, hw, -⟩ := hwraps hz
    rw [hw] at hc
    cases hc
  wrapping_error cause hcause := by
    by_cases hz : zero
    · obtain ⟨c, hc⟩ := hzero hz
      rw [hc] at hcause
      cases hcause
      exact ⟨c, rfl⟩
    · obtain ⟨w, hw, -⟩ := hwraps hz
      rw [hw] at hcause
      cases hcause

/-! ### Binary operations -/

variable {op : BinaryOp} {a b : Word}

/-- By zero, a quotient is zero and a remainder is the dividend on integers: either is a word. -/
theorem truncated_of_zero (hd : op.Divides) (hb : b.toNat = 0) :
    0 ≤ op.truncated a.toNat b.toNat ∧ op.truncated a.toNat b.toNat < Word.capacity := by
  have ha : (a.toNat : Int) < Word.capacity := by exact_mod_cast a.toNat_lt
  rw [hb]
  rcases hd with rfl | rfl
  · have hquotient : BinaryOp.div.truncated a.toNat (0 : Nat) = 0 := Int.fdiv_zero _
    rw [hquotient]
    decide
  · have hremainder : BinaryOp.mod.truncated a.toNat (0 : Nat) = a.toNat := Int.emod_zero _
    rw [hremainder]
    exact ⟨Int.natCast_nonneg _, ha⟩

/-- **What a checked operation answers.** -/
theorem apply_checkedAnswer (op : BinaryOp) (a b : Word) :
    CheckedAnswer (op.Divides ∧ b.toNat = 0) (op.truncated a.toNat b.toNat)
      (apply .checked op a b) := by
  cases hr : apply .checked op a b with
  | ok w =>
    obtain ⟨hw, hz⟩ := apply_checked_ok hr
    exact .word hz hw
  | error cause =>
    rcases apply_checked_error hr with ⟨rfl, hd, hb⟩ | ⟨rfl, rfl, hlt⟩ | ⟨rfl, hop, hle⟩
    · obtain ⟨h0, h1⟩ := truncated_of_zero (a := a) hd hb
      exact .zeroDivisor _ ⟨hd, hb⟩ h0 h1
    · exact .belowZero _ (by simp [BinaryOp.Divides]) hlt
    · refine .tooGreat _ (fun hz => ?_) hle
      rcases hz.1 with rfl | rfl <;> exact absurd hop (by decide)

/-- A zero divisor stops an operation in either mode. -/
theorem apply_of_zero (hd : op.Divides) (hb : b.toNat = 0) (mode : ArithmeticMode) :
    ∃ c, apply mode op a b = .error (.divisionByZero c) := by
  have hzero : b = 0 := BitVec.eq_of_toNat_eq hb
  rcases hd with rfl | rfl <;> exact ⟨_, if_pos hzero⟩

/-- An operation that is none of the ring does not look at the mode, and its result is a word. -/
theorem apply_of_not_isRing (hop : ¬op.IsRing) (hz : ¬(op.Divides ∧ b.toNat = 0)) :
    ∃ w, apply .wrapping op a b = .ok w ∧ (w.toNat : Int) = op.exact a.toNat b.toNat := by
  have hmode : apply .wrapping op a b = apply .checked op a b := by
    cases op <;> first | rfl | exact absurd (by decide) hop
  have hne : op ≠ .shiftLeft := fun h => hop (by rw [h]; decide)
  rw [hmode, ← BinaryOp.truncated_of_ne hne]
  cases hr : apply .checked op a b with
  | ok w => exact ⟨w, rfl, (apply_checked_ok hr).1⟩
  | error cause =>
    exfalso
    rcases apply_checked_error hr with ⟨-, hd, hb⟩ | ⟨-, rfl, -⟩ | ⟨-, hmem, -⟩
    · exact hz ⟨hd, hb⟩
    · exact hop (by decide)
    · have hring : ([.add, .mul, .pow] : List BinaryOp) ⊆ [.add, .sub, .mul, .pow, .shiftLeft] := by
        decide
      exact hop (hring hmem)

/-- **What a wrapping operation answers** if no divisor is zero. -/
theorem apply_wrapping_of_not_zero (hz : ¬(op.Divides ∧ b.toNat = 0)) :
    ∃ w, apply .wrapping op a b = .ok w ∧
      (w.toNat : Int) = op.exact a.toNat b.toNat % Word.capacity := by
  by_cases hop : op.IsRing
  · obtain ⟨w, hw⟩ := apply_wrapping_isOk hop a b
    have ha : apply .wrapping op ((a.toNat : Int) : Word) b = .ok w := by
      rw [Word.intCast_toNat]
      exact hw
    have hring := apply_ring hop (Word.intCast_toNat b).symm (fun _ => rfl) ha
    exact ⟨w, hw, by rw [hring, Word.toNat_intCast]⟩
  · obtain ⟨w, hw, hr⟩ := apply_of_not_isRing (a := a) hop hz
    have hlt : (w.toNat : Int) < Word.capacity := by exact_mod_cast w.toNat_lt
    refine ⟨w, hw, ?_⟩
    rw [← hr, Int.emod_eq_of_lt (Int.natCast_nonneg _) hlt]

theorem apply_followsIntegers (op : BinaryOp) (a b : Word) :
    FollowsIntegers (fun mode => apply mode op a b) (op.Divides ∧ b.toNat = 0)
      (op.truncated a.toNat b.toNat) (op.exact a.toNat b.toNat) :=
  .of_answers (apply_checkedAnswer op a b) (fun hz => apply_of_zero hz.1 hz.2 .wrapping)
    apply_wrapping_of_not_zero

/-! ### Negatives and long shifts -/

theorem negate_followsIntegers (a : Word) :
    FollowsIntegers (fun mode => negate mode a) False (-(a.toNat : Int)) (-(a.toNat : Int)) := by
  refine .of_answers ?_ False.elim fun _ => ⟨-a, rfl, ?_⟩
  · simp only [negate_checked]
    by_cases h0 : a = 0
    · rw [if_pos h0, h0]
      exact .word id (by decide)
    · have hpos : 0 < a.toNat := by
        rw [Nat.pos_iff_ne_zero]
        exact fun h => h0 (BitVec.eq_of_toNat_eq h)
      rw [if_neg h0]
      exact .belowZero _ id (by omega)
  · rw [← Word.toNat_intCast, Int.cast_neg, Word.intCast_toNat]

theorem apply_shift_of_le (hb : 256 ≤ b.toNat) (mode : ArithmeticMode) :
    apply mode .shiftLeft a b = .ok 0 ∧ apply mode .shiftRight a b = .ok 0 := by
  rw [apply, apply, shiftLeft, shiftRight, if_pos hb, if_pos hb]
  exact ⟨rfl, rfl⟩

/-- **All operations on words follow those on integers.**  A checked operation answers the result on
integers, where a shift to the left drops the bits that leave the word; it overflows exactly where that
is beyond the words, underflows exactly where it is below zero, and fails otherwise exactly where a
divisor is zero.  A wrapping operation fails there only, and else answers the result on integers
modulo the capacity.  So does the negative of a word.  Shifts by the width of a word or more leave
nothing. -/
theorem operations_followIntegers (a b : Word) :
    (∀ op, FollowsIntegers (fun mode => apply mode op a b) (op.Divides ∧ b.toNat = 0)
      (op.truncated a.toNat b.toNat) (op.exact a.toNat b.toNat)) ∧
    (256 ≤ b.toNat → ∀ mode,
      apply mode .shiftLeft a b = .ok 0 ∧ apply mode .shiftRight a b = .ok 0) ∧
    FollowsIntegers (fun mode => negate mode a) False (-(a.toNat : Int)) (-(a.toNat : Int)) :=
  ⟨fun op => apply_followsIntegers op a b, apply_shift_of_le, negate_followsIntegers a⟩

/-- The greatest power of three that is a word, the next one, and a shift by more than a word. -/
theorem operations_followIntegers_power :
    let three : Word := 3
    apply .checked .pow three 161 = .ok (BitVec.ofNat 256 (3 ^ 161)) ∧
    (∃ c, apply .checked .pow three 162 = .error (.overflow c)) ∧
    (∃ w : Word, apply .wrapping .pow three 162 = .ok w ∧
      (w.toNat : Int) = 3 ^ 162 % Word.capacity) ∧
    256 ≤ (300 : Word).toNat ∧ apply .wrapping .shiftLeft three 300 = .ok 0 := by
  intro three
  have hlong : 256 ≤ (300 : Word).toNat := by decide
  obtain ⟨powers, -, -⟩ := operations_followIntegers three 161
  obtain ⟨above, -, -⟩ := operations_followIntegers three 162
  obtain ⟨-, shifts, -⟩ := operations_followIntegers three 300
  have hz : ∀ b : Word, ¬(BinaryOp.pow.Divides ∧ b.toNat = 0) := fun b h => absurd h.1 (by decide)
  refine ⟨((powers .pow).checked_word _).mpr ⟨hz _, by decide +kernel⟩,
    (above .pow).checked_overflow.mpr (by decide +kernel), ?_, hlong, (shifts hlong .wrapping).1⟩
  have hwraps := ((above .pow).wrapping_word (BitVec.ofNat 256 (3 ^ 162))).mpr
    ⟨hz _, by decide +kernel⟩
  exact ⟨_, hwraps, by decide +kernel⟩

end Arithmetic

end WeiCalc

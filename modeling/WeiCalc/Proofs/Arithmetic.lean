import Mathlib
import WeiCalc.Arithmetic
import WeiCalc.Proofs.Run

/-!
# Operations on words and on integers

A checked operation answers what the same operation on integers comes to, or says that this is no
word.  A wrapping one answers it modulo the capacity of words.

* `BinaryOp.exact`, `BinaryOp.truncated`: the operations on integers.
* `Arithmetic.pow?_eq`: a power that is not computed is no word.
* `Arithmetic.apply_checked_ok`, `Arithmetic.apply_checked_error`: checked operations.
* `Arithmetic.powWrapping_eq`: repeated squaring is a power.
* `BinaryOp.IsRing`, `Arithmetic.apply_ring`: the operations that agree modulo the capacity.
-/

namespace WeiCalc

namespace BinaryOp

/-- What an operation on integers comes to.  Quotients are rounded down and remainders are not
negative; by zero they have no meaning. -/
def exact : BinaryOp → Int → Int → Int
  | add, a, b => a + b
  | sub, a, b => a - b
  | mul, a, b => a * b
  | div, a, b => Int.fdiv a b
  | mod, a, b => a % b
  | pow, a, b => a ^ b.toNat
  | shiftLeft, a, b => a * 2 ^ b.toNat
  | shiftRight, a, b => Int.fdiv a (2 ^ b.toNat)

/-- The same, but a shift to the left drops the bits that leave the word. -/
def truncated (op : BinaryOp) (a b : Int) : Int :=
  if op = shiftLeft then op.exact a b % Word.capacity else op.exact a b

theorem truncated_of_ne {op : BinaryOp} (h : op ≠ shiftLeft) (a b : Int) :
    op.truncated a b = op.exact a b := by
  rw [truncated, if_neg h]

/-- Does the operation divide its left operand by its right one? -/
def Divides (op : BinaryOp) : Prop := op = div ∨ op = mod

instance (op : BinaryOp) : Decidable op.Divides := inferInstanceAs (Decidable (_ ∨ _))

/-- Is it an operation of the ring of words? -/
def IsRing (op : BinaryOp) : Prop := op ∈ [add, sub, mul, pow, shiftLeft]

instance (op : BinaryOp) : Decidable op.IsRing := inferInstanceAs (Decidable (_ ∈ _))

end BinaryOp

theorem Word.toNat_lt (a : Word) : a.toNat < Word.capacity := a.isLt

@[simp high] theorem Word.toNat_ofNat_of_lt {n : Nat} (h : n < Word.capacity) :
    (BitVec.ofNat 256 n).toNat = n := by
  rw [BitVec.toNat_ofNat]
  exact Nat.mod_eq_of_lt h

theorem Word.capacity_le_two_pow {n : Nat} (h : 256 ≤ n) : Word.capacity ≤ 2 ^ n :=
  Nat.pow_le_pow_right (by decide) h

theorem Word.capacity_dvd_two_pow {n : Nat} (h : 256 ≤ n) : Word.capacity ∣ 2 ^ n :=
  Nat.pow_dvd_pow 2 h

namespace Arithmetic

/-! ### Checked operations -/

theorem add_checked (a b : Word) :
    add .checked a b = if a.toNat + b.toNat < Word.capacity then .ok (a + b)
      else .error (.overflow (.operation .add a.toNat b.toNat)) := by
  simp only [add, reduceCtorEq, false_or]

theorem sub_checked (a b : Word) :
    sub .checked a b = if b.toNat ≤ a.toNat then .ok (a - b)
      else .error (.underflow (.difference a.toNat b.toNat)) := by
  simp only [sub, reduceCtorEq, false_or]

theorem mul_checked (a b : Word) :
    mul .checked a b = if a.toNat * b.toNat < Word.capacity then .ok (a * b)
      else .error (.overflow (.operation .mul a.toNat b.toNat)) := by
  simp only [mul, reduceCtorEq, false_or]

theorem negate_checked (a : Word) :
    negate .checked a = if a = 0 then .ok (-a) else .error (.underflow (.negation a.toNat)) := by
  simp only [negate, reduceCtorEq, false_or]

/-- **A power that is not computed is no word.**  Its base is at least two and its exponent at least
the width of words. -/
theorem pow?_eq (base exponent : Nat) : pow? base exponent = Word.ofNat? (base ^ exponent) := by
  rw [pow?]
  by_cases h0 : exponent = 0
  · rw [if_pos h0, h0, pow_zero]
    rfl
  rw [if_neg h0]
  by_cases h1 : base ≤ 1
  · rw [if_pos h1]
    interval_cases base
    · rw [zero_pow h0]
    · rw [one_pow]
  rw [if_neg h1]
  by_cases h2 : 256 ≤ exponent
  · have hc : Word.capacity ≤ base ^ exponent :=
      (Word.capacity_le_two_pow h2).trans (Nat.pow_le_pow_left (by omega) exponent)
    rw [if_pos h2, Word.ofNat?, if_neg (Nat.not_lt.mpr hc)]
  · rw [if_neg h2]
    rfl

theorem pow_checked (a b : Word) :
    pow .checked a b = if a.toNat ^ b.toNat < Word.capacity
      then .ok (BitVec.ofNat 256 (a.toNat ^ b.toNat))
      else .error (.overflow (.operation .pow a.toNat b.toNat)) := by
  simp only [pow, pow?_eq, Word.ofNat?]
  by_cases h : a.toNat ^ b.toNat < Word.capacity
  · rw [if_pos h, if_pos h]
  · rw [if_neg h, if_neg h]

theorem toNat_shiftLeft (a b : Word) :
    (shiftLeft a b).toNat = a.toNat * 2 ^ b.toNat % Word.capacity := by
  rw [shiftLeft]
  by_cases h : 256 ≤ b.toNat
  · rw [if_pos h, Nat.mod_eq_zero_of_dvd (Dvd.dvd.mul_left (Word.capacity_dvd_two_pow h) _)]
    rfl
  · rw [if_neg h, BitVec.toNat_shiftLeft, Nat.shiftLeft_eq]

@[simp] theorem toNat_shiftRight (a b : Word) : (shiftRight a b).toNat = a.toNat / 2 ^ b.toNat := by
  rw [shiftRight]
  by_cases h : 256 ≤ b.toNat
  · rw [if_pos h, Nat.div_eq_of_lt (lt_of_lt_of_le a.toNat_lt (Word.capacity_le_two_pow h))]
    rfl
  · rw [if_neg h, BitVec.toNat_ushiftRight, Nat.shiftRight_eq_div_pow]

/-- **A checked operation that answers has the result of the operation on integers**, and does not
divide by zero. -/
theorem apply_checked_ok {op : BinaryOp} {a b w : Word} (h : apply .checked op a b = .ok w) :
    (w.toNat : Int) = op.truncated a.toNat b.toNat ∧ ¬(op.Divides ∧ b.toNat = 0) := by
  have ha := a.toNat_lt
  cases op with
  | add =>
    rw [apply, add_checked] at h
    obtain ⟨hlt, h⟩ := ite_eq_ok.mp h
    cases h
    refine ⟨?_, by simp [BinaryOp.Divides]⟩
    rw [BinaryOp.truncated_of_ne (by decide), BitVec.toNat_add, Nat.mod_eq_of_lt hlt]
    rfl
  | sub =>
    rw [apply, sub_checked] at h
    obtain ⟨hle, h⟩ := ite_eq_ok.mp h
    cases h
    refine ⟨?_, by simp [BinaryOp.Divides]⟩
    rw [BinaryOp.truncated_of_ne (by decide), BitVec.toNat_sub_of_le hle, Nat.cast_sub hle]
    rfl
  | mul =>
    rw [apply, mul_checked] at h
    obtain ⟨hlt, h⟩ := ite_eq_ok.mp h
    cases h
    refine ⟨?_, by simp [BinaryOp.Divides]⟩
    rw [BinaryOp.truncated_of_ne (by decide), BitVec.toNat_mul, Nat.mod_eq_of_lt hlt, Nat.cast_mul]
    rfl
  | div =>
    rw [apply, div] at h
    split_ifs at h with hz
    cases h
    refine ⟨?_, fun hd => hz (BitVec.eq_of_toNat_eq hd.2)⟩
    rw [BinaryOp.truncated_of_ne (by decide), BitVec.toNat_udiv, BinaryOp.exact,
      Int.fdiv_eq_ediv_of_nonneg _ (Int.natCast_nonneg _), Int.natCast_ediv]
  | mod =>
    rw [apply, mod] at h
    split_ifs at h with hz
    cases h
    refine ⟨?_, fun hd => hz (BitVec.eq_of_toNat_eq hd.2)⟩
    rw [BinaryOp.truncated_of_ne (by decide), BitVec.toNat_umod, BinaryOp.exact, Int.natCast_emod]
  | pow =>
    rw [apply, pow_checked] at h
    obtain ⟨hlt, h⟩ := ite_eq_ok.mp h
    cases h
    refine ⟨?_, by simp [BinaryOp.Divides]⟩
    rw [BinaryOp.truncated_of_ne (by decide), Word.toNat_ofNat_of_lt hlt, BinaryOp.exact,
      Int.toNat_natCast, Nat.cast_pow]
  | shiftLeft =>
    cases h
    refine ⟨?_, by simp [BinaryOp.Divides]⟩
    rw [toNat_shiftLeft, BinaryOp.truncated, if_pos rfl, BinaryOp.exact, Int.toNat_natCast,
      Int.natCast_emod, Nat.cast_mul, Nat.cast_pow]
    rfl
  | shiftRight =>
    cases h
    refine ⟨?_, by simp [BinaryOp.Divides]⟩
    rw [toNat_shiftRight, BinaryOp.truncated_of_ne (by decide), BinaryOp.exact, Int.toNat_natCast,
      Int.fdiv_eq_ediv_of_nonneg _ (by positivity), Int.natCast_ediv, Nat.cast_pow]
    rfl

/-- **A checked operation that stops has divided by zero, or the result of the operation on integers
is below zero or beyond the words.** -/
theorem apply_checked_error {op : BinaryOp} {a b : Word} {cause : Cause}
    (h : apply .checked op a b = .error cause) :
    (cause = .divisionByZero (.operation op a.toNat) ∧ op.Divides ∧ b.toNat = 0) ∨
    (cause = .underflow (.difference a.toNat b.toNat) ∧ op = .sub ∧ op.truncated a.toNat b.toNat < 0) ∨
    (cause = .overflow (.operation op a.toNat b.toNat) ∧ op ∈ [.add, .mul, .pow] ∧
      Word.capacity ≤ op.truncated a.toNat b.toNat) := by
  cases op with
  | add =>
    rw [apply, add_checked] at h
    split_ifs at h with hlt
    cases h
    refine Or.inr (Or.inr ⟨rfl, by decide, ?_⟩)
    rw [BinaryOp.truncated_of_ne (by decide), BinaryOp.exact]
    exact_mod_cast Nat.not_lt.mp hlt
  | sub =>
    rw [apply, sub_checked] at h
    split_ifs at h with hle
    cases h
    refine Or.inr (Or.inl ⟨rfl, rfl, ?_⟩)
    rw [BinaryOp.truncated_of_ne (by decide), BinaryOp.exact]
    omega
  | mul =>
    rw [apply, mul_checked] at h
    split_ifs at h with hlt
    cases h
    refine Or.inr (Or.inr ⟨rfl, by decide, ?_⟩)
    rw [BinaryOp.truncated_of_ne (by decide), BinaryOp.exact]
    exact_mod_cast Nat.not_lt.mp hlt
  | div =>
    rw [apply, div] at h
    split_ifs at h with hz
    cases h
    exact Or.inl ⟨rfl, Or.inl rfl, by rw [hz]; rfl⟩
  | mod =>
    rw [apply, mod] at h
    split_ifs at h with hz
    cases h
    exact Or.inl ⟨rfl, Or.inr rfl, by rw [hz]; rfl⟩
  | pow =>
    rw [apply, pow_checked] at h
    split_ifs at h with hlt
    cases h
    refine Or.inr (Or.inr ⟨rfl, by decide, ?_⟩)
    rw [BinaryOp.truncated_of_ne (by decide), BinaryOp.exact, Int.toNat_natCast]
    exact_mod_cast Nat.not_lt.mp hlt
  | shiftLeft => cases h
  | shiftRight => cases h

/-! ### Wrapping operations -/

/-- **Repeated squaring is a power.** -/
@[simp] theorem powWrapping_eq (a : Word) (n : Nat) : powWrapping a n = a ^ n := by
  induction n using Nat.strong_induction_on with
  | _ n ih =>
    rw [powWrapping]
    by_cases h0 : n = 0
    · rw [if_pos h0, h0, pow_zero]
    rw [if_neg h0]
    have hhalf : powWrapping a (n / 2) = a ^ (n / 2) := ih (n / 2) (by omega)
    by_cases he : n % 2 = 0
    · have hn : n = n / 2 + n / 2 := by omega
      conv_rhs => rw [hn, pow_add]
      simp only [if_pos he, hhalf]
    · have hn : n = n / 2 + n / 2 + 1 := by omega
      conv_rhs => rw [hn, pow_succ, pow_add]
      simp only [if_neg he, hhalf]

theorem natCast_toNat (a : Word) : ((a.toNat : Nat) : Word) = a := by
  rw [BitVec.natCast_eq_ofNat, BitVec.ofNat_toNat, BitVec.setWidth_eq]

theorem pow_eq_ok {mode : ArithmeticMode} {a b w : Word} (h : pow mode a b = .ok w) :
    w = a ^ b.toNat := by
  cases mode with
  | checked =>
    rw [pow_checked] at h
    obtain ⟨_, h⟩ := ite_eq_ok.mp h
    cases h
    rw [← BitVec.natCast_eq_ofNat, Nat.cast_pow, natCast_toNat]
  | wrapping =>
    cases h
    exact powWrapping_eq a b.toNat

theorem shiftLeft_eq (a b : Word) : shiftLeft a b = a * 2 ^ b.toNat := by
  have h : shiftLeft a b = ((a.toNat * 2 ^ b.toNat : Nat) : Word) := by
    apply BitVec.eq_of_toNat_eq
    rw [toNat_shiftLeft, BitVec.natCast_eq_ofNat, BitVec.toNat_ofNat]
  rw [h, Nat.cast_mul, natCast_toNat, Nat.cast_pow, Nat.cast_ofNat]

/-- **The operations of the ring of words**: in either mode an operation that answers has the image
of the result of the operation on integers.  Exponents and shifts have to be the integers themselves. -/
theorem apply_ring {mode : ArithmeticMode} {op : BinaryOp} {x y : Int} {b w : Word}
    (hop : op.IsRing) (hb : b = (y : Word))
    (hy : op = .pow ∨ op = .shiftLeft → y = b.toNat) (h : apply mode op (x : Word) b = .ok w) :
    w = ((op.exact x y : Int) : Word) := by
  cases op with
  | add =>
    obtain ⟨_, h⟩ := ite_eq_ok.mp h
    cases h
    rw [hb, BinaryOp.exact, Int.cast_add]
  | sub =>
    obtain ⟨_, h⟩ := ite_eq_ok.mp h
    cases h
    rw [hb, BinaryOp.exact, Int.cast_sub]
  | mul =>
    obtain ⟨_, h⟩ := ite_eq_ok.mp h
    cases h
    rw [hb, BinaryOp.exact, Int.cast_mul]
  | pow =>
    rw [pow_eq_ok h, hy (Or.inl rfl), BinaryOp.exact, Int.toNat_natCast, Int.cast_pow]
  | shiftLeft =>
    cases h
    rw [shiftLeft_eq, hy (Or.inr rfl), BinaryOp.exact, Int.toNat_natCast, Int.cast_mul, Int.cast_pow,
      Int.cast_ofNat]
  | div => exact absurd hop (by decide)
  | mod => exact absurd hop (by decide)
  | shiftRight => exact absurd hop (by decide)

/-- The operations of the ring of words answer in wrapping mode. -/
theorem apply_wrapping_isOk {op : BinaryOp} (hop : op.IsRing)
    (a b : Word) : ∃ w, apply .wrapping op a b = .ok w := by
  cases op with
  | add => exact ⟨a + b, rfl⟩
  | sub => exact ⟨a - b, rfl⟩
  | mul => exact ⟨a * b, rfl⟩
  | pow => exact ⟨powWrapping a b.toNat, rfl⟩
  | shiftLeft => exact ⟨shiftLeft a b, rfl⟩
  | div => exact absurd hop (by decide)
  | mod => exact absurd hop (by decide)
  | shiftRight => exact absurd hop (by decide)

end Arithmetic

/-! ### Words of integers -/

theorem Word.toNat_intCast (z : Int) : ((z : Word).toNat : Int) = z % capacity := by
  change ((BitVec.ofInt 256 z).toNat : Int) = _
  rw [BitVec.toNat_ofInt]
  exact Int.toNat_of_nonneg (Int.emod_nonneg _ (by decide))

theorem Word.intCast_toNat (w : Word) : ((w.toNat : Int) : Word) = w := by
  rw [Int.cast_natCast, Arithmetic.natCast_toNat]

end WeiCalc

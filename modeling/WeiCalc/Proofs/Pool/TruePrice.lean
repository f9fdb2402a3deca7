import Mathlib
import WeiCalc.Proofs.Pool.Tick
import WeiCalc.Proofs.Pool.Apart

/-!
# Computed prices and true ones

The root price at a tick is computed from stored factors, rounded after each of them, inverted for ticks
above zero, and at last rounded up, so that the result is not below the true root price.  How far the
factors are from the powers they stand for decides whether it is: the errors of most are so small that
the distance of the true root prices from the integers below them makes up for them, and the factors of
the digits 17 and 19 are too small, which makes the inverse too large.  But the factor of the digit 18
is too large, by more than the others make good.

* `Near`: factors are the powers of a number, but for bounded errors.
* `digitProduct_le`, `le_digitProduct`: what follows for their products.
* `le_roundUp_of_clear`: what rounding up makes good.
* `le_sqrtPrice_neg`, `le_sqrtPrice_small`, `le_sqrtPrice_large`: **the computed price is not below the
  true one** below zero, and above it unless 18 is the greatest digit of the tick.
* `notBelow_iff`: what that means for whole numbers.
* `sqrtPriceAt_notBelow`: all ticks together, and how far below the computed price can be at the others.
-/

namespace WeiCalc

namespace Pool

/-! ### Factors and powers -/

/-- One, with 132 fraction bits. -/
def q132 : Nat := Nat.pow 2 132

theorem cast_q128 : (q128 : ℝ) = 2 ^ 128 := by norm_num [q128]

theorem cast_q132 : (q132 : ℝ) = 2 ^ 132 := by norm_num [q132]

/-- The factors are `y`, its square, the square of that and so on, with 128 fraction bits: less than one
below them, and not above their products with the bounds, which have 132 fraction bits. -/
inductive Near : ℝ → List Nat → List Nat → Prop
  | nil (y : ℝ) : Near y [] []
  | cons {y : ℝ} {bound factor : Nat} {bounds factors : List Nat}
      (below : y ≤ (factor + 1) / 2 ^ 128) (above : factor / 2 ^ 128 ≤ y * (bound / q132))
      (rest : Near (y ^ 2) bounds factors) : Near y (bound :: bounds) (factor :: factors)

/-- Are the factors near the powers of the root of `a / b`? -/
def nearFactors : (bounds factors : List Nat) → (a b : Nat) → Bool
  | [], [], _, _ => true
  | bound :: bounds, factor :: factors, a, b =>
    decide (a * (2 ^ 128) ^ 2 ≤ (factor + 1) ^ 2 * b) &&
    decide ((factor * 2 ^ 132) ^ 2 * b ≤ a * (2 ^ 128 * bound) ^ 2) &&
    nearFactors bounds factors (a * a) (b * b)
  | _, _, _, _ => false

theorem near_of_nearFactors {bounds factors : List Nat} {a b : Nat} {y : ℝ} (h : RootOf a b y)
    (hnear : nearFactors bounds factors a b = true) : Near y bounds factors := by
  fun_induction nearFactors bounds factors a b generalizing y with
  | case1 => exact .nil y
  | case2 bound bounds factor factors a b ih =>
    rw [Bool.and_eq_true, Bool.and_eq_true, decide_eq_true_eq, decide_eq_true_eq] at hnear
    obtain ⟨⟨hbelow, habove⟩, hrest⟩ := hnear
    refine .cons ?_ ?_ (ih h.square hrest)
    · rw [le_div_iff₀ (by positivity)]
      exact_mod_cast h.mul_le_iff.mpr hbelow
    · have hle := h.le_mul_iff.mpr habove
      push_cast at hle
      rw [div_le_iff₀ (by positivity), cast_q132]
      linarith
  | case3 => exact absurd hnear Bool.false_ne_true

/-- The product of the bounds of the binary digits of `n`. -/
noncomputable def boundProduct : (bounds : List Nat) → (n : Nat) → ℝ
  | [], _ => 1
  | bound :: bounds, n =>
    (if n % 2 = 1 then (bound : ℝ) / q132 else 1) * boundProduct bounds (n / 2)

theorem boundProduct_nonneg (bounds : List Nat) (n : Nat) : 0 ≤ boundProduct bounds n := by
  fun_induction boundProduct bounds n with
  | case1 => exact zero_le_one
  | case2 bound bounds n ih =>
    refine mul_nonneg ?_ ih
    split_ifs
    · positivity
    · exact zero_le_one

@[simp] theorem boundProduct_zero (bounds : List Nat) : boundProduct bounds 0 = 1 := by
  induction bounds with
  | nil => rfl
  | cons bound bounds ih => rw [boundProduct, if_neg (by decide), one_mul, ih]

theorem boundProduct_append (low high : List Nat) : ∀ n,
    boundProduct (low ++ high) n = boundProduct low n * boundProduct high (n / 2 ^ low.length) := by
  induction low with
  | nil =>
    intro n
    rw [List.nil_append, boundProduct, one_mul, List.length_nil, pow_zero, Nat.div_one]
  | cons bound low ih =>
    intro n
    rw [List.cons_append, boundProduct, boundProduct, ih, Nat.div_div_eq_div_mul, List.length_cons,
      pow_succ' 2 low.length, mul_assoc]

/-- Bounds that are not below one have the greatest product if all digits are set. -/
theorem boundProduct_le_prod {bounds : List Nat} (h : ∀ bound ∈ bounds, q132 ≤ bound) : ∀ n,
    boundProduct bounds n ≤ (bounds.map fun bound : Nat => (bound : ℝ) / q132).prod := by
  induction bounds with
  | nil => exact fun _ => le_refl 1
  | cons bound bounds ih =>
    intro n
    have hone : (1 : ℝ) ≤ bound / q132 := by
      rw [one_le_div (by rw [cast_q132]; positivity)]
      exact_mod_cast h bound (List.mem_cons_self ..)
    rw [boundProduct, List.map_cons, List.prod_cons]
    refine mul_le_mul ?_ (ih (fun b hm => h b (List.mem_cons_of_mem _ hm)) _)
      (boundProduct_nonneg ..) (by positivity)
    split_ifs
    · exact le_refl _
    · exact hone

/-- A power by the last binary digit of its exponent. -/
theorem pow_digit (y : ℝ) (n : Nat) :
    y ^ n = (if n % 2 = 1 then y else 1) * (y ^ 2) ^ (n / 2) := by
  rw [← pow_mul]
  split_ifs with h
  · rw [← pow_succ', (by omega : 2 * (n / 2) + 1 = n)]
  · rw [one_mul, (by omega : 2 * (n / 2) = n)]

/-- **The product of factors is not above the power**, but for the product of their bounds. -/
theorem digitProduct_le {y : ℝ} {bounds factors : List Nat} (h : Near y bounds factors) :
    0 < y → ∀ {n}, n < 2 ^ factors.length →
      (digitProduct factors n : ℝ) ≤ y ^ n * boundProduct bounds n := by
  induction h with
  | nil y =>
    intro _ n hn
    obtain rfl : n = 0 := by simpa using hn
    simp [digitProduct, boundProduct]
  | @cons y bound factor bounds factors below above rest ih =>
    intro hy n hn
    rw [List.length_cons, pow_succ] at hn
    have hrest := ih (by positivity) (n := n / 2) (by omega)
    have hnonneg : (0 : ℝ) ≤ digitProduct factors (n / 2) := by
      exact_mod_cast digitProduct_nonneg factors (n / 2)
    rw [digitProduct, boundProduct, pow_digit]
    split_ifs with hd
    · push_cast
      rw [cast_q128]
      calc (factor : ℝ) / 2 ^ 128 * digitProduct factors (n / 2)
          ≤ y * (bound / q132) * digitProduct factors (n / 2) :=
            mul_le_mul_of_nonneg_right above hnonneg
        _ ≤ y * (bound / q132) * ((y ^ 2) ^ (n / 2) * boundProduct bounds (n / 2)) :=
            mul_le_mul_of_nonneg_left hrest (by positivity)
        _ = y * (y ^ 2) ^ (n / 2) * (bound / q132 * boundProduct bounds (n / 2)) := by ring
    · simpa only [one_mul] using hrest

/-- **Nor is it far below the power**: less than one, with 128 fraction bits, for each of the factors. -/
theorem le_digitProduct {y : ℝ} {bounds factors : List Nat} (h : Near y bounds factors) :
    0 < y → y ≤ 1 → (∀ f ∈ factors, f ≤ q128) → ∀ {n}, n < 2 ^ factors.length →
      y ^ n ≤ digitProduct factors n + factors.length / 2 ^ 128 := by
  induction h with
  | nil y =>
    intro _ _ _ n hn
    obtain rfl : n = 0 := by simpa using hn
    simp [digitProduct]
  | @cons y bound factor bounds factors below above rest ih =>
    intro hy hone hle n hn
    rw [List.length_cons, pow_succ] at hn
    have hrest := ih (by positivity) (pow_le_one₀ hy.le hone)
      (fun f hm => hle f (List.mem_cons_of_mem _ hm)) (n := n / 2) (by omega)
    have hpow : (y ^ 2) ^ (n / 2) ≤ 1 := pow_le_one₀ (by positivity) (pow_le_one₀ hy.le hone)
    have hfactor : (factor : ℝ) / 2 ^ 128 ≤ 1 := by
      rw [div_le_one (by positivity), ← cast_q128]
      exact_mod_cast hle factor (List.mem_cons_self ..)
    rw [digitProduct, pow_digit, List.length_cons]
    split_ifs with hd
    · push_cast
      rw [cast_q128]
      calc y * (y ^ 2) ^ (n / 2)
          ≤ (factor + 1) / 2 ^ 128 * (y ^ 2) ^ (n / 2) :=
            mul_le_mul_of_nonneg_right below (by positivity)
        _ = factor / 2 ^ 128 * (y ^ 2) ^ (n / 2) + (y ^ 2) ^ (n / 2) / 2 ^ 128 := by ring
        _ ≤ factor / 2 ^ 128 * (digitProduct factors (n / 2) + factors.length / 2 ^ 128)
              + 1 / 2 ^ 128 :=
            add_le_add (mul_le_mul_of_nonneg_left hrest (by positivity))
              (div_le_div_of_nonneg_right hpow (by positivity))
        _ = factor / 2 ^ 128 * digitProduct factors (n / 2)
              + factor / 2 ^ 128 * (factors.length / 2 ^ 128) + 1 / 2 ^ 128 := by ring
        _ ≤ factor / 2 ^ 128 * digitProduct factors (n / 2)
              + 1 * (factors.length / 2 ^ 128) + 1 / 2 ^ 128 := by
            have hlength := mul_le_mul_of_nonneg_right hfactor
              (by positivity : (0 : ℝ) ≤ factors.length / 2 ^ 128)
            linarith
        _ = factor / 2 ^ 128 * digitProduct factors (n / 2)
              + (factors.length + 1) / 2 ^ 128 := by ring
    · push_cast
      rw [one_mul, one_mul, add_div]
      have hbit : (0 : ℝ) ≤ 1 / 2 ^ 128 := by positivity
      linarith

/-! ### The stored factors -/

/-- Bounds for the factors of the digits below 17, which differ little from the powers. -/
def lowBounds : List Nat :=
  [0, 5, 7, 1, 6, 8, 7, 1, 3, 1, 4, 8, 0, 1, 9, 39, 4].map (q132 + ·)

/-- Bounds for those of the digits 17, 18 and 19.  The factor of 18 is above the power. -/
def highBounds : List Nat :=
  [q132 - 3400, q132 + 2237000, q132 - 900000000000]

theorem boundProduct_lowBounds (n : Nat) : boundProduct lowBounds n ≤ 1 + 105 / 2 ^ 132 := by
  refine (boundProduct_le_prod (by decide) n).trans ?_
  norm_num [lowBounds, q132]

/-- The digits from 17 on of a number of ticks, if the greatest is not 18. -/
theorem boundProduct_highBounds_le {m : Nat} (hpos : 0 < m) (hm : m ≤ 6) (h : m ≠ 2 ∧ m ≠ 3) :
    boundProduct highBounds m ≤ 1 - 3400 / 2 ^ 132 := by
  obtain ⟨h2, h3⟩ := h
  interval_cases m <;> first | contradiction | norm_num [boundProduct, highBounds, q132]

/-- The same if the greatest is 18. -/
theorem boundProduct_highBounds_gap {m : Nat} (h : m = 2 ∨ m = 3) :
    boundProduct highBounds m ≤ 1 + 2237000 / 2 ^ 132 := by
  rcases h with rfl | rfl <;> norm_num [boundProduct, highBounds, q132]

section

variable {x : ℝ} {n : Nat}

theorem near_digitFactors (h : RootOf 10000 10001 x) :
    Near x (lowBounds ++ highBounds) digitFactors :=
  near_of_nearFactors h (by decide +kernel)

theorem exactRatio_le (h : RootOf 10000 10001 x) (hn : n < 2 ^ 20) :
    (exactRatio n : ℝ) ≤
      x ^ n * ((1 + 105 / 2 ^ 132) * boundProduct highBounds (n / 2 ^ 17)) := by
  have hpos := h.pos
  have hle := digitProduct_le (near_digitFactors h) h.pos hn
  rw [boundProduct_append] at hle
  refine hle.trans (mul_le_mul_of_nonneg_left ?_ (by positivity))
  exact mul_le_mul_of_nonneg_right (boundProduct_lowBounds n) (boundProduct_nonneg ..)

theorem le_exactRatio (h : RootOf 10000 10001 x) (hn : n < 2 ^ 20) :
    x ^ n ≤ exactRatio n + 20 / 2 ^ 128 := by
  have hle := le_digitProduct (near_digitFactors h) h.pos (h.le_one (by decide)) digitFactors_le hn
  exact_mod_cast hle

/-- The inverse of a computed ratio is not far below the power. -/
theorem le_inverse {g : ℝ} (hx : 0 < x) (h : (exactRatio n : ℝ) ≤ x ^ n * g) :
    2 ^ 128 * x⁻¹ ^ n ≤ (((Word.capacity - 1) / ratioBelow n : Nat) + 1 : ℝ) * g := by
  have hratio : (ratioBelow n : ℝ) ≤ 2 ^ 128 * exactRatio n := by
    rw [← cast_q128]
    exact_mod_cast (ratioBelow_near n).1
  have hdiv : Word.capacity ≤ ((Word.capacity - 1) / ratioBelow n + 1) * ratioBelow n := by
    have hlt : Word.capacity - 1 < ((Word.capacity - 1) / ratioBelow n + 1) * ratioBelow n :=
      Nat.lt_mul_of_div_lt (Nat.lt_succ_self _) (ratioBelow_pos n)
    omega
  have hcapacity : (2 : ℝ) ^ 256 ≤
      (((Word.capacity - 1) / ratioBelow n : Nat) + 1) * ratioBelow n := by
    exact_mod_cast hdiv
  have hpower : (0 : ℝ) < 2 ^ 128 * x ^ n := by positivity
  refine le_of_mul_le_mul_right ?_ hpower
  calc 2 ^ 128 * x⁻¹ ^ n * (2 ^ 128 * x ^ n)
      = 2 ^ 256 * (x⁻¹ * x) ^ n := by rw [mul_pow]; ring
    _ = 2 ^ 256 := by rw [inv_mul_cancel₀ hx.ne', one_pow, mul_one]
    _ ≤ (((Word.capacity - 1) / ratioBelow n : Nat) + 1) * ratioBelow n := hcapacity
    _ ≤ (((Word.capacity - 1) / ratioBelow n : Nat) + 1) * (2 ^ 128 * (x ^ n * g)) := by
        refine mul_le_mul_of_nonneg_left ?_ (by positivity)
        linarith
    _ = (((Word.capacity - 1) / ratioBelow n : Nat) + 1) * g * (2 ^ 128 * x ^ n) := by ring

/-! ### Root prices -/

theorem le_roundUp (ratio : Nat) : (ratio : ℝ) ≤ 2 ^ 32 * roundUp ratio := by
  have hnat : ratio ≤ 2 ^ 32 * roundUp ratio := by
    have hq : q32 = 2 ^ 32 := rfl
    rw [roundUp, hq]
    split_ifs <;> omega
  exact_mod_cast hnat

/-- **Rounding up makes good what is missing** of a number that is clear of the integer below it. -/
theorem le_roundUp_of_clear {ratio : Nat} (h : Clear x n) (hnear : 2 ^ 128 * x ^ n ≤ ratio + 5997) :
    2 ^ 96 * x ^ n ≤ roundUp ratio := by
  obtain ⟨m, hle, hlt⟩ := h
  have hup := le_roundUp ratio
  have hm : (m : ℝ) < roundUp ratio := by linarith
  have hsucc : (m : ℝ) + 1 ≤ roundUp ratio := by exact_mod_cast hm
  linarith

/-- **Below zero** the computed price is not below the true one. -/
theorem le_sqrtPrice_neg (h : RootOf 10000 10001 x) (hn : 0 < n)
    (hn' : n ≤ 887272) : 2 ^ 96 * x ^ n ≤ sqrtPrice (-(n : Int)) := by
  rw [sqrtPrice_neg]
  -- Every factor and every rounding is short by less than one, which makes 40 at most.
  refine le_roundUp_of_clear (clear_below h hn (by omega)) ?_
  have hlow := le_exactRatio h (n := n) (by omega)
  have hratio : 2 ^ 128 * (exactRatio n : ℝ) ≤ ratioBelow n + 20 := by
    rw [← cast_q128]
    exact_mod_cast (ratioBelow_near n).2
  linarith

/-- **Just above zero**, below the digit 17, it is not, since the powers are clear of integers. -/
theorem le_sqrtPrice_small (h : RootOf 10000 10001 x) (hn : 0 < n)
    (hn' : n < 2 ^ 17) : 2 ^ 96 * x⁻¹ ^ n ≤ sqrtPrice n := by
  have hinv : RootOf 10001 10000 x⁻¹ := h.inv (by decide)
  have hupper : (exactRatio n : ℝ) ≤ x ^ n * (1 + 105 / 2 ^ 132) := by
    have hle := exactRatio_le h (n := n) (by omega)
    rwa [Nat.div_eq_of_lt hn', boundProduct_zero, mul_one] at hle
  have hquotient := le_inverse h.pos hupper
  have hpow := (moderate_above hinv).le n (by omega)
  rw [sqrtPrice_natCast]
  -- The inverse is short by 105 / 16 of the root price, which is less than 900 here.
  refine le_roundUp_of_clear (clear_above hinv hn (by omega)) ?_
  linarith

/-- The true root prices above zero are not below one. -/
theorem one_le_inv_pow (h : RootOf 10000 10001 x) (n : Nat) : 1 ≤ x⁻¹ ^ n :=
  one_le_pow₀ ((h.inv (by decide)).one_le (by decide))

/-- **Further above zero** it is not, since the inverse is too large, unless the greatest digit is 18. -/
theorem le_sqrtPrice_large (h : RootOf 10000 10001 x) (hn : 2 ^ 17 ≤ n)
    (hn' : n ≤ 887272) (hgap : ¬(2 ^ 18 ≤ n ∧ n < 2 ^ 19)) :
    2 ^ 96 * x⁻¹ ^ n ≤ sqrtPrice n := by
  have hupper : (exactRatio n : ℝ) ≤ x ^ n * (1 - 3000 / 2 ^ 132) := by
    refine (exactRatio_le h (by omega)).trans (mul_le_mul_of_nonneg_left ?_ (pow_pos h.pos n).le)
    have hhigh := boundProduct_highBounds_le (m := n / 2 ^ 17) (by omega) (by omega) (by omega)
    linarith
  have hquotient := le_inverse h.pos hupper
  have hone := one_le_inv_pow h n
  have hup := le_roundUp ((Word.capacity - 1) / ratioBelow n)
  rw [sqrtPrice_natCast]
  linarith

/-- If it is, the computed price is still not far below the true one. -/
theorem le_sqrtPrice_gap (h : RootOf 10000 10001 x) (hn : 2 ^ 18 ≤ n)
    (hn' : n < 2 ^ 19) : (2 ^ 110 - 1) * (2 ^ 96 * x⁻¹ ^ n) ≤ 2 ^ 110 * sqrtPrice n := by
  have hupper : (exactRatio n : ℝ) ≤ x ^ n * (1 + 2238000 / 2 ^ 132) := by
    refine (exactRatio_le h (by omega)).trans (mul_le_mul_of_nonneg_left ?_ (pow_pos h.pos n).le)
    have hhigh := boundProduct_highBounds_gap (m := n / 2 ^ 17) (by omega)
    linarith
  have hquotient := le_inverse h.pos hupper
  have hone := one_le_inv_pow h n
  have hup := le_roundUp ((Word.capacity - 1) / ratioBelow n)
  rw [sqrtPrice_natCast]
  linarith

end

/-! ### True prices -/

/-- A root price is not below the true one at a tick, that is, its square is not below the price, which is
`1.0001 ^ tick`: both sides with 192 fraction bits and as whole numbers. -/
def NotBelow (tick : Int) (root : Nat) : Prop :=
  (0 ≤ tick → 10001 ^ tick.toNat * 2 ^ 192 ≤ root ^ 2 * 10000 ^ tick.toNat) ∧
    (tick < 0 → 10000 ^ (-tick).toNat * 2 ^ 192 ≤ root ^ 2 * 10001 ^ (-tick).toNat)

/-- This is what it says of the root itself, with 96 fraction bits. -/
theorem notBelow_iff {tick : Int} {root : Nat} :
    NotBelow tick root ↔ √((10001 / 10000 : ℝ) ^ tick) * (2 ^ 96 : Nat) ≤ root := by
  have hpos : (0 : ℝ) < (10001 / 10000) ^ tick := by positivity
  rw [NotBelow, (by decide : 2 ^ 192 = (2 ^ 96) ^ 2)]
  rcases lt_or_ge tick 0 with hneg | hnonneg
  · obtain ⟨n, hn⟩ := Int.eq_ofNat_of_zero_le (by omega : 0 ≤ -tick)
    obtain rfl : tick = -(n : Int) := by omega
    have hroot : RootOf (10000 ^ n) (10001 ^ n) √((10001 / 10000 : ℝ) ^ (-(n : Int))) := by
      refine .of_sqrt hpos (Nat.pow_pos (by decide)) ?_
      rw [zpow_neg, zpow_natCast, div_pow]
      push_cast
      field_simp
    rw [hroot.mul_le_iff, neg_neg, Int.toNat_natCast]
    exact ⟨fun h => h.2 hneg, fun h => ⟨fun hle => absurd hle (not_le.mpr hneg), fun _ => h⟩⟩
  · obtain ⟨n, rfl⟩ := Int.eq_ofNat_of_zero_le hnonneg
    have hroot : RootOf (10001 ^ n) (10000 ^ n) √((10001 / 10000 : ℝ) ^ (n : Int)) := by
      refine .of_sqrt hpos (Nat.pow_pos (by decide)) ?_
      rw [zpow_natCast, div_pow]
      push_cast
      field_simp
    rw [hroot.mul_le_iff, Int.toNat_natCast]
    exact ⟨fun h => h.1 hnonneg, fun h => ⟨fun _ => h, fun hlt => absurd hlt (not_lt.mpr hnonneg)⟩⟩

section

variable {x : ℝ} {n : Nat}

theorem notBelow_neg (h : RootOf 10000 10001 x) (hn : 0 < n) (hn' : n ≤ 887272) :
    NotBelow (-(n : Int)) (sqrtPrice (-(n : Int))) := by
  refine ⟨fun hnonneg => absurd hnonneg (by omega), fun _ => ?_⟩
  have hle : x ^ n * (2 ^ 96 : Nat) ≤ sqrtPrice (-(n : Int)) := by
    rw [Nat.cast_pow, Nat.cast_ofNat, mul_comm]
    exact le_sqrtPrice_neg h hn hn'
  have hsq := (h.pow n).mul_le_iff.mp hle
  rwa [neg_neg, Int.toNat_natCast, (by decide : 2 ^ 192 = (2 ^ 96) ^ 2)]

theorem notBelow_natCast (h : RootOf 10000 10001 x) (hn : n ≤ 887272)
    (hgap : ¬(2 ^ 18 ≤ n ∧ n < 2 ^ 19)) : NotBelow n (sqrtPrice n) := by
  refine ⟨fun _ => ?_, fun hneg => absurd hneg (by omega)⟩
  have hle : x⁻¹ ^ n * (2 ^ 96 : Nat) ≤ sqrtPrice n := by
    rw [Nat.cast_pow, Nat.cast_ofNat, mul_comm]
    rcases n.eq_zero_or_pos with rfl | hpos
    · have hzero : sqrtPrice ((0 : Nat) : Int) = 2 ^ 96 := by decide
      rw [hzero]
      norm_num
    · by_cases hsmall : n < 2 ^ 17
      · exact le_sqrtPrice_small h hpos hsmall
      · exact le_sqrtPrice_large h (by omega) hn hgap
  have hsq := ((h.inv (by decide)).pow n).mul_le_iff.mp hle
  rwa [Int.toNat_natCast, (by decide : 2 ^ 192 = (2 ^ 96) ^ 2)]

/-- How far below a computed price can be, as an inequality of whole numbers. -/
theorem near_of_gap (h : RootOf 10000 10001 x) (hn : 2 ^ 18 ≤ n) (hn' : n < 2 ^ 19) :
    (2 ^ 110 - 1) ^ 2 * (10001 ^ n * 2 ^ 192) ≤ (2 ^ 110) ^ 2 * (sqrtPrice n ^ 2 * 10000 ^ n) := by
  have hle : x⁻¹ ^ n * ((2 ^ 110 - 1) * 2 ^ 96 : Nat) ≤ (2 ^ 110 * sqrtPrice n : Nat) := by
    push_cast
    linarith [le_sqrtPrice_gap h hn hn']
  have hsq := ((h.inv (by decide)).pow n).mul_le_iff.mp hle
  calc (2 ^ 110 - 1) ^ 2 * (10001 ^ n * 2 ^ 192)
      = 10001 ^ n * ((2 ^ 110 - 1) * 2 ^ 96) ^ 2 := by ring
    _ ≤ (2 ^ 110 * sqrtPrice n) ^ 2 * 10000 ^ n := hsq
    _ = (2 ^ 110) ^ 2 * (sqrtPrice n ^ 2 * 10000 ^ n) := by ring

end

/-- **The computed root price at a tick is not below the true one** at any tick from the least to the
greatest, unless the greatest binary digit of the tick is 18; at those ticks what is missing is less than
a part in `2 ^ 110`. -/
theorem sqrtPriceAt_notBelow {tick : Int} (hl : leastTick ≤ tick) (hg : tick ≤ greatestTick) :
    ∃ root, sqrtPriceAt tick = .ok root ∧
      (¬(2 ^ 18 ≤ tick ∧ tick < 2 ^ 19) → NotBelow tick root) ∧
      (2 ^ 18 ≤ tick → tick < 2 ^ 19 →
        (2 ^ 110 - 1) ^ 2 * (10001 ^ tick.toNat * 2 ^ 192) ≤
          (2 ^ 110) ^ 2 * (root ^ 2 * 10000 ^ tick.toNat)) := by
  have hlow : leastTick = -887272 := rfl
  have hhigh : greatestTick = 887272 := rfl
  obtain ⟨x, h⟩ := exists_rootOf
  refine ⟨sqrtPrice tick, sqrtPriceAt_of_mem hl hg, ?_⟩
  rcases lt_or_ge tick 0 with hneg | hnonneg
  · obtain ⟨n, hn⟩ := Int.eq_ofNat_of_zero_le (by omega : 0 ≤ -tick)
    obtain rfl : tick = -(n : Int) := by omega
    refine ⟨fun _ => notBelow_neg h (by omega) (by omega), fun hgap => ?_⟩
    omega
  · obtain ⟨n, rfl⟩ := Int.eq_ofNat_of_zero_le hnonneg
    refine ⟨fun hgap => notBelow_natCast h (by omega) (by omega), fun hgap hgap' => ?_⟩
    rw [Int.toNat_natCast]
    exact near_of_gap h (by omega) (by omega)

/-- The root price one tick above zero. -/
theorem sqrtPriceAt_notBelow_one :
    sqrtPriceAt 1 = .ok 79232123823359799118286999568 ∧
      NotBelow 1 79232123823359799118286999568 := by
  obtain ⟨root, hroot, hnot, -⟩ := @sqrtPriceAt_notBelow 1 (by decide) (by decide)
  have he : sqrtPriceAt 1 = .ok 79232123823359799118286999568 := by decide
  rw [he] at hroot
  cases hroot
  exact ⟨he, hnot (by decide)⟩

/-- At the first tick whose greatest digit is 18 the computed price is below the true one. -/
theorem sqrtPriceAt_below :
    sqrtPriceAt 262144 = .ok 38992368544603139932233054999993536 ∧
      ¬NotBelow 262144 38992368544603139932233054999993536 := by
  refine ⟨by decide, fun h => ?_⟩
  exact absurd (h.1 (by decide)) (by decide +kernel)

end Pool

end WeiCalc

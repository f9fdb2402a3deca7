import Mathlib
import WeiCalc.Proofs.Pool.Liquidity

/-!
# The quantities of a position as single quotients

An amount of token 0 is rounded down twice and a liquidity is checked twice, for a word and for its
128 bits.  Neither shows in what is answered: two roundings one behind the other are that of the
exact quotient, and where prices have 160 bits only the last check can fail.

* `amount0Between`, `amount1Between`: the amounts for a liquidity between two prices.
* `amount0FromLiquidity_eq_ok`, `amount1FromLiquidity_eq_ok`: a position that answers holds these.
* `AnswersLiquidity.mulDiv`: two checks are one.
* `quantities_of_lt`: **what positions of 160-bit prices answer**, and when they fail.
-/

namespace WeiCalc

namespace Pool

/-! ### Amounts between two prices -/

/-- The amount of token 0 for a liquidity between two prices; none if nothing lies between them. -/
def amount0Between (low high liquidity : Nat) : Nat :=
  liquidity * q96 * (high - low) / (low * high)

/-- The amount of token 1 for a liquidity between two prices; none if nothing lies between them. -/
def amount1Between (low high liquidity : Nat) : Nat :=
  liquidity * (high - low) / q96

theorem amount0Between_of_le {low high : Nat} (h : high ≤ low) (liquidity : Nat) :
    amount0Between low high liquidity = 0 := by
  rw [amount0Between, Nat.sub_eq_zero_of_le h, Nat.mul_zero, Nat.zero_div]

theorem amount1Between_of_le {low high : Nat} (h : high ≤ low) (liquidity : Nat) :
    amount1Between low high liquidity = 0 := by
  rw [amount1Between, Nat.sub_eq_zero_of_le h, Nat.mul_zero, Nat.zero_div]

/-- The two roundings of token 0 are one. -/
theorem amount0ForLiquidity_eq_ok {a b liquidity n : Nat} (hab : a < b)
    (h : amount0ForLiquidity a b liquidity = .ok n) : n = amount0Between a b liquidity := by
  simp only [amount0ForLiquidity, min_eq_left hab.le, max_eq_right hab.le] at h
  obtain ⟨scaled, hs, h⟩ := except_bind_eq_ok h
  obtain ⟨-, -, rfl⟩ := mulDiv_eq_ok_iff.mp (mapError_eq_ok.mp hs)
  by_cases ha : a = 0
  · rw [if_pos ha] at h
    cases h
  · rw [if_neg ha] at h
    cases h
    rw [amount0Between, Nat.div_div_eq_div_mul, Nat.mul_comm a b]

theorem amount1ForLiquidity_eq_ok {a b liquidity n : Nat} (hab : a < b)
    (h : amount1ForLiquidity a b liquidity = .ok n) : n = amount1Between a b liquidity := by
  rw [amount1ForLiquidity, min_eq_left hab.le, max_eq_right hab.le] at h
  exact (mulDiv_eq_ok_iff.mp h).2.2.symm

/-- **A position that answers holds the amount of token 0 between its active prices.** -/
theorem amount0FromLiquidity_eq_ok {price pa pb liquidity n : Nat}
    (h : amount0FromLiquidity price pa pb liquidity = .ok n) :
    n = amount0Between (max price (min pa pb)) (max pa pb) liquidity := by
  obtain ⟨range, hr, -⟩ := except_bind_eq_ok h
  have hr := mapError_eq_ok.mp hr
  obtain ⟨⟨-, -, hne⟩, rfl⟩ := positionRange_eq_ok_iff.mp hr
  rw [amount0FromLiquidity_of_range hr] at h
  by_cases hp : max pa pb ≤ price
  · rw [if_pos hp] at h
    cases h
    exact (amount0Between_of_le (le_max_of_le_left hp) liquidity).symm
  · rw [if_neg hp] at h
    exact amount0ForLiquidity_eq_ok (by omega) h

/-- **So it does of token 1.** -/
theorem amount1FromLiquidity_eq_ok {price pa pb liquidity n : Nat}
    (h : amount1FromLiquidity price pa pb liquidity = .ok n) :
    n = amount1Between (min pa pb) (min price (max pa pb)) liquidity := by
  obtain ⟨range, hr, -⟩ := except_bind_eq_ok h
  obtain ⟨⟨-, -, hne⟩, rfl⟩ := positionRange_eq_ok_iff.mp hr
  rw [amount1FromLiquidity_of_range hr] at h
  by_cases hp : price ≤ min pa pb
  · rw [if_pos hp] at h
    cases h
    exact (amount1Between_of_le (min_le_of_left_le hp) liquidity).symm
  · rw [if_neg hp] at h
    exact amount1ForLiquidity_eq_ok (by omega) h

/-! ### The checks of a liquidity -/

/-- An answer is the liquidity `n` if that is one, and an overflow exactly if it is none. -/
structure AnswersLiquidity (answer : Except Cause Nat) (n : Nat) : Prop where
  ok : n < liquidityLimit → answer = .ok n
  overflow : (∃ cause, answer = .error (.overflow cause)) ↔ liquidityLimit ≤ n

theorem liquidityLimit_le_capacity : liquidityLimit ≤ Word.capacity := by decide

theorem AnswersLiquidity.zero : AnswersLiquidity (.ok 0) 0 where
  ok _ := rfl
  overflow := by
    constructor
    · rintro ⟨cause, h⟩
      cases h
    · intro h
      exact absurd h (by decide)

/-- **A quotient that has to be a word and a liquidity** fails only because it is no liquidity. -/
theorem AnswersLiquidity.mulDiv {a b divisor : Nat} (hd : divisor ≠ 0) :
    AnswersLiquidity (Pool.mulDiv a b divisor >>= asLiquidity) (a * b / divisor) := by
  rw [Pool.mulDiv, if_neg hd]
  by_cases hc : a * b / divisor < Word.capacity
  · rw [if_pos hc, except_ok_bind, asLiquidity]
    by_cases hl : a * b / divisor < liquidityLimit
    · rw [if_pos hl]
      refine ⟨fun _ => rfl, ⟨?_, fun h => absurd hl (not_lt.mpr h)⟩⟩
      rintro ⟨cause, h⟩
      cases h
    · rw [if_neg hl]
      exact ⟨fun h => absurd h hl, ⟨fun _ => not_lt.mp hl, fun _ => ⟨_, rfl⟩⟩⟩
  · have hl : liquidityLimit ≤ a * b / divisor := le_trans liquidityLimit_le_capacity (not_lt.mp hc)
    rw [if_neg hc]
    exact ⟨fun h => absurd h (not_lt.mpr hl), ⟨fun _ => hl, fun _ => ⟨_, rfl⟩⟩⟩

/-- The product of two prices of 160 bits, without the fraction bits of one of them, is a word. -/
theorem product_lt_capacity {a b : Nat} (ha : a < 2 ^ 160) (hb : b < 2 ^ 160) :
    a * b / q96 < Word.capacity := by
  have hq : q96 = 2 ^ 96 := rfl
  have hc : Word.capacity = 2 ^ 256 := rfl
  have hproduct : a * b < 2 ^ 160 * 2 ^ 160 := Nat.mul_lt_mul'' ha hb
  rw [hq, hc]
  omega

theorem liquidityForAmount0_answers {a b : Nat} (hab : a < b) (hb : b < 2 ^ 160) (amount : Nat) :
    AnswersLiquidity (liquidityForAmount0 a b amount) (amount * (a * b / q96) / (b - a)) := by
  have hproduct : mulDiv a b q96 = .ok (a * b / q96) :=
    mulDiv_eq_ok_iff.mpr ⟨q96_pos.ne', product_lt_capacity (lt_trans hab hb) hb, rfl⟩
  simp only [liquidityForAmount0, min_eq_left hab.le, max_eq_right hab.le, hproduct]
  exact .mulDiv (by omega)

theorem liquidityForAmount1_answers {a b : Nat} (hab : a < b) (amount : Nat) :
    AnswersLiquidity (liquidityForAmount1 a b amount) (amount * q96 / (b - a)) := by
  rw [liquidityForAmount1, min_eq_left hab.le, max_eq_right hab.le]
  exact .mulDiv (by omega)

/-! ### Positions -/

/-- The liquidity of token 1 times prices of 160 bits is a word without its fraction bits. -/
theorem amount1_lt_capacity {a b liquidity : Nat} (hb : b < 2 ^ 160) (hl : liquidity < 2 ^ 128) :
    liquidity * (b - a) / q96 < Word.capacity := by
  have hq : q96 = 2 ^ 96 := rfl
  have hc : Word.capacity = 2 ^ 256 := rfl
  have hproduct : liquidity * (b - a) < 2 ^ 128 * 2 ^ 160 := Nat.mul_lt_mul'' hl (by omega)
  rw [hq, hc]
  omega

variable {price pa pb liquidity : Nat}

/-- Token 0 of a position: the amount for a liquidity and the liquidity of an amount. -/
theorem quantities0_of_lt (hr : positionRange price pa pb = .ok (min pa pb, max pa pb))
    (ha : pa < 2 ^ 160) (hb : pb < 2 ^ 160) (hl : liquidity < 2 ^ 128) (amount : Nat) {low high : Nat}
    (h : active0 price pa pb = (low, high)) :
    amount0FromLiquidity price pa pb liquidity =
        .ok (if low < high then liquidity * q96 * (high - low) / (low * high) else 0) ∧
      AnswersLiquidity (liquidityFromAmount0 price pa pb amount)
        (if low < high then amount * (low * high / q96) / (high - low) else 0) := by
  cases h
  obtain ⟨⟨hprice, -, hne⟩, -⟩ := positionRange_eq_ok_iff.mp hr
  rw [amount0FromLiquidity_of_range hr, liquidityFromAmount0_of_range hr]
  by_cases hp : max pa pb ≤ price
  · rw [if_pos hp, if_pos hp, if_neg (by omega), if_neg (by omega)]
    exact ⟨rfl, .zero⟩
  · have hab : max price (min pa pb) < max pa pb := by omega
    rw [if_neg hp, if_neg hp, if_pos hab, if_pos hab]
    refine ⟨?_, liquidityForAmount0_answers hab (max_lt ha hb) amount⟩
    rw [amount0ForLiquidity_of_lt (by omega) hab hl, Nat.div_div_eq_div_mul,
      Nat.mul_comm (max pa pb)]

/-- Token 1 of a position likewise. -/
theorem quantities1_of_lt (hr : positionRange price pa pb = .ok (min pa pb, max pa pb))
    (ha : pa < 2 ^ 160) (hb : pb < 2 ^ 160) (hl : liquidity < 2 ^ 128) (amount : Nat) {low high : Nat}
    (h : active1 price pa pb = (low, high)) :
    amount1FromLiquidity price pa pb liquidity =
        .ok (if low < high then liquidity * (high - low) / q96 else 0) ∧
      AnswersLiquidity (liquidityFromAmount1 price pa pb amount)
        (if low < high then amount * q96 / (high - low) else 0) := by
  cases h
  obtain ⟨⟨-, -, hne⟩, -⟩ := positionRange_eq_ok_iff.mp hr
  rw [amount1FromLiquidity_of_range hr, liquidityFromAmount1_of_range hr]
  by_cases hp : price ≤ min pa pb
  · rw [if_pos hp, if_pos hp, if_neg (by omega), if_neg (by omega)]
    exact ⟨rfl, .zero⟩
  · have hab : min pa pb < min price (max pa pb) := by omega
    rw [if_neg hp, if_neg hp, if_pos hab, if_pos hab]
    have hhigh : min price (max pa pb) < 2 ^ 160 := min_lt_of_right_lt (max_lt ha hb)
    exact ⟨amount1ForLiquidity_of_lt hab (amount1_lt_capacity hhigh hl),
      liquidityForAmount1_answers hab amount⟩

/-- **Positions between prices of 160 bits** answer the exact quotient over their active prices,
rounded down once, or nothing where no price is active.  Amounts for a liquidity never fail; the
liquidity of an amount overflows exactly if the quotient has more than 128 bits. -/
theorem quantities_of_lt (hprice : 0 < price) (hpa : 0 < pa) (hpb : 0 < pb) (hne : pa ≠ pb)
    (ha : pa < 2 ^ 160) (hb : pb < 2 ^ 160) (hl : liquidity < 2 ^ 128) (amount : Nat) :
    (∀ low high, active0 price pa pb = (low, high) →
      amount0FromLiquidity price pa pb liquidity =
          .ok (if low < high then liquidity * q96 * (high - low) / (low * high) else 0) ∧
        AnswersLiquidity (liquidityFromAmount0 price pa pb amount)
          (if low < high then amount * (low * high / q96) / (high - low) else 0)) ∧
    ∀ low high, active1 price pa pb = (low, high) →
      amount1FromLiquidity price pa pb liquidity =
          .ok (if low < high then liquidity * (high - low) / q96 else 0) ∧
        AnswersLiquidity (liquidityFromAmount1 price pa pb amount)
          (if low < high then amount * q96 / (high - low) else 0) := by
  have hr : positionRange price pa pb = .ok (min pa pb, max pa pb) :=
    positionRange_eq_ok_iff.mpr ⟨⟨by omega, by omega, hne⟩, rfl⟩
  exact ⟨fun _ _ h => quantities0_of_lt hr ha hb hl amount h,
    fun _ _ h => quantities1_of_lt hr ha hb hl amount h⟩

/-- The widest range with the greatest liquidity, at a price of one: a thousand units of either token
provide a thousand units of liquidity, and an amount of 200 bits is too much. -/
theorem quantities_of_lt_widest :
    (amount0FromLiquidity q96 1 (2 ^ 160 - 1) (2 ^ 128 - 1) =
        .ok 340282366920938463444927863358058659839 ∧
      liquidityFromAmount0 q96 1 (2 ^ 160 - 1) 1000 = .ok 1000 ∧
      ∃ cause, liquidityFromAmount0 q96 1 (2 ^ 160 - 1) (2 ^ 200) = .error (.overflow cause)) ∧
    amount1FromLiquidity q96 1 (2 ^ 160 - 1) (2 ^ 128 - 1) =
        .ok 340282366920938463463374607427473244159 ∧
      liquidityFromAmount1 q96 1 (2 ^ 160 - 1) 1000 = .ok 1000 ∧
      ∃ cause, liquidityFromAmount1 q96 1 (2 ^ 160 - 1) (2 ^ 200) = .error (.overflow cause) := by
  have answers := @quantities_of_lt q96 1 (2 ^ 160 - 1) (2 ^ 128 - 1) q96_pos (by decide) (by decide)
    (by decide) (by decide) (by decide) (by decide)
  obtain ⟨few0, few1⟩ := answers 1000
  obtain ⟨many0, many1⟩ := answers (2 ^ 200)
  have range0 : active0 q96 1 (2 ^ 160 - 1) = (q96, 2 ^ 160 - 1) := by decide
  have range1 : active1 q96 1 (2 ^ 160 - 1) = (1, q96) := by decide
  constructor
  · obtain ⟨amount, few⟩ := few0 _ _ range0
    obtain ⟨-, many⟩ := many0 _ _ range0
    exact ⟨amount, few.ok (by decide), many.overflow.mpr (by decide)⟩
  · obtain ⟨amount, few⟩ := few1 _ _ range1
    obtain ⟨-, many⟩ := many1 _ _ range1
    exact ⟨amount, few.ok (by decide), many.overflow.mpr (by decide)⟩

end Pool

end WeiCalc

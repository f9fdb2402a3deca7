import Mathlib
import WeiCalc.Proofs.Pool

/-!
# Amounts and liquidities, there and back

An amount of a token gives a liquidity, and that liquidity needs an amount again.  All quotients are
rounded down, so what comes back is not more than what went in; and it is less by one unit at most
beyond what the roundings of the liquidity and of the product of the two prices are worth.

* `active0`, `active1`: the prices between which a position holds a token.
* `amount0ForLiquidity_of_lt`: the amount for a liquidity is always a word for token 0.
* `roundTrip0_le`, `roundTrip1_le`: nothing is gained.
* `roundTrip0_loss`, `roundTrip1_loss`: how much is lost.
* `amount_of_liquidity`: **an amount turned into liquidity comes back, up to a bounded loss.**
-/

namespace WeiCalc

namespace Pool

/-! ### Rounding down twice -/

/-- The liquidity between `a` and `b` that an amount of token 0 gives never needs more of it. -/
theorem roundTrip0_le (amount a b d q : Nat) :
    amount * (a * b / q) / d * q * d / b / a ≤ amount := by
  have hliquidity : amount * (a * b / q) / d * d ≤ amount * (a * b / q) := Nat.div_mul_le_self _ _
  have hproduct : a * b / q * q ≤ a * b := Nat.div_mul_le_self _ _
  rw [Nat.div_div_eq_div_mul]
  apply Nat.div_le_of_le_mul
  calc amount * (a * b / q) / d * q * d
      = amount * (a * b / q) / d * d * q := Nat.mul_right_comm ..
    _ ≤ amount * (a * b / q) * q := Nat.mul_le_mul_right q hliquidity
    _ = amount * (a * b / q * q) := Nat.mul_assoc ..
    _ ≤ amount * (a * b) := Nat.mul_le_mul_left amount hproduct
    _ = b * a * amount := by rw [Nat.mul_comm a b, Nat.mul_comm]

/-- What is lost of token 0: less than a unit, than a part of the product of the prices for each
unit of the amount, and than a unit of liquidity, all put together. -/
theorem roundTrip0_loss (amount : Nat) {a b d q : Nat} (ha : 0 < a) (hb : 0 < b) (hd : 0 < d)
    (hq : 0 < q) :
    amount * (a * b) < (amount * (a * b / q) / d * q * d / b / a + 1) * (a * b) +
      (amount * (q - 1) + q * (d - 1)) := by
  obtain ⟨q, rfl⟩ : ∃ k, q = k + 1 := ⟨q - 1, by omega⟩
  obtain ⟨d, rfl⟩ : ∃ k, d = k + 1 := ⟨d - 1, by omega⟩
  rw [Nat.div_div_eq_div_mul, Nat.mul_comm b a, Nat.succ_mul]
  have hproduct : a * b < a * b / (q + 1) * (q + 1) + (q + 1) := Nat.lt_div_mul_add hq
  have hliquidity : amount * (a * b / (q + 1)) <
      amount * (a * b / (q + 1)) / (d + 1) * (d + 1) + (d + 1) := Nat.lt_div_mul_add hd
  have hback := Nat.lt_div_mul_add (a := amount * (a * b / (q + 1)) / (d + 1) * (q + 1) * (d + 1))
    (Nat.mul_pos ha hb)
  generalize a * b / (q + 1) = product at *
  generalize amount * product / (d + 1) = liquidity at *
  have hscaled : amount * (a * b) ≤ amount * (product * (q + 1) + q) :=
    Nat.mul_le_mul_left amount (by omega)
  have hpriced : amount * product * (q + 1) ≤ (liquidity * (d + 1) + d) * (q + 1) :=
    Nat.mul_le_mul_right (q + 1) (by omega)
  simp only [Nat.add_sub_cancel]
  calc amount * (a * b)
      ≤ amount * product * (q + 1) + amount * q := by
        rw [Nat.mul_assoc, ← Nat.mul_add]
        exact hscaled
    _ ≤ (liquidity * (d + 1) + d) * (q + 1) + amount * q := Nat.add_le_add_right hpriced _
    _ = liquidity * (q + 1) * (d + 1) + (amount * q + (q + 1) * d) := by ring
    _ < _ := Nat.add_lt_add_right hback _

/-- The liquidity that an amount of token 1 gives never needs more of it. -/
theorem roundTrip1_le (amount d q : Nat) : amount * q / d * d / q ≤ amount := by
  apply Nat.div_le_of_le_mul
  rw [Nat.mul_comm q]
  exact Nat.div_mul_le_self _ _

/-- What is lost of token 1: less than a unit and a unit of liquidity. -/
theorem roundTrip1_loss (amount : Nat) {d q : Nat} (hd : 0 < d) (hq : 0 < q) :
    amount * q < (amount * q / d * d / q + 1) * q + (d - 1) := by
  have hliquidity : amount * q < amount * q / d * d + d := Nat.lt_div_mul_add hd
  have hback : amount * q / d * d < amount * q / d * d / q * q + q := Nat.lt_div_mul_add hq
  rw [Nat.succ_mul]
  omega

theorem q96_pos : 0 < q96 := by decide

/-- A loss in units, from one that is a multiple of `m`. -/
theorem sub_lt_of_mul_lt {amount back m rest : Nat} (hm : 0 < m)
    (h : amount * m < (back + 1) * m + rest) : (amount : Rat) - back < 1 + rest / m := by
  have hm' : (0 : Rat) < m := by exact_mod_cast hm
  have h' : (amount : Rat) * m < (back + 1) * m + rest := by exact_mod_cast h
  have hdiv : (amount : Rat) - (back + 1) < rest / m := by
    rw [lt_div_iff₀ hm', sub_mul]
    linarith
  linarith

theorem natCast_sub_sub_one {a b : Nat} (h : a < b) : ((b - a - 1 : Nat) : Rat) = b - a - 1 := by
  rw [Nat.cast_pred (by omega), Nat.cast_sub h.le]

theorem lost0_lt (amount : Nat) {a b : Nat} (ha : 0 < a) (hab : a < b) :
    (amount : Rat) - (amount * (a * b / q96) / (b - a) * q96 * (b - a) / b / a : Nat) <
      1 + (amount * (q96 - 1) + q96 * ((b - a : Rat) - 1)) / (a * b) := by
  have hb : 0 < b := lt_trans ha hab
  have hlost := sub_lt_of_mul_lt (Nat.mul_pos ha hb)
    (roundTrip0_loss amount ha hb (Nat.sub_pos_of_lt hab) q96_pos)
  rwa [Nat.cast_add, Nat.cast_mul, Nat.cast_mul, Nat.cast_mul, Nat.cast_pred q96_pos,
    natCast_sub_sub_one hab] at hlost

theorem lost1_lt (amount : Nat) {a b : Nat} (hab : a < b) :
    (amount : Rat) - (amount * q96 / (b - a) * (b - a) / q96 : Nat) <
      1 + ((b - a : Rat) - 1) / q96 := by
  have hlost := sub_lt_of_mul_lt q96_pos (roundTrip1_loss amount (Nat.sub_pos_of_lt hab) q96_pos)
  rwa [natCast_sub_sub_one hab] at hlost

/-! ### Between two prices -/

theorem mulDiv_eq_ok_iff {a b divisor n : Nat} :
    mulDiv a b divisor = .ok n ↔
      divisor ≠ 0 ∧ a * b / divisor < Word.capacity ∧ a * b / divisor = n := by
  rw [mulDiv]
  split_ifs with hz hlt
  · simp [hz]
  · simp [hz, hlt]
  · simp [hlt]

theorem asLiquidity_eq_ok {m n : Nat} (h : asLiquidity m = .ok n) : n < liquidityLimit ∧ m = n := by
  obtain ⟨hlt, hn⟩ := ite_eq_ok.mp h
  cases hn
  exact ⟨hlt, rfl⟩

theorem liquidityForAmount0_eq_ok {a b amount n : Nat} (hab : a < b)
    (h : liquidityForAmount0 a b amount = .ok n) :
    n < liquidityLimit ∧ amount * (a * b / q96) / (b - a) = n := by
  simp only [liquidityForAmount0, min_eq_left hab.le, max_eq_right hab.le] at h
  obtain ⟨product, hp, h⟩ := except_bind_eq_ok h
  obtain ⟨m, hm, h⟩ := except_bind_eq_ok h
  obtain ⟨-, -, rfl⟩ := mulDiv_eq_ok_iff.mp hp
  obtain ⟨-, -, rfl⟩ := mulDiv_eq_ok_iff.mp hm
  exact asLiquidity_eq_ok h

theorem liquidityForAmount1_eq_ok {a b amount n : Nat} (hab : a < b)
    (h : liquidityForAmount1 a b amount = .ok n) : amount * q96 / (b - a) = n := by
  simp only [liquidityForAmount1, min_eq_left hab.le, max_eq_right hab.le] at h
  obtain ⟨m, hm, h⟩ := except_bind_eq_ok h
  obtain ⟨-, -, rfl⟩ := mulDiv_eq_ok_iff.mp hm
  exact (asLiquidity_eq_ok h).2

/-- The amount of token 0 for a liquidity is a word, whatever the prices: it is not more than the
liquidity with 96 bits behind it. -/
theorem amount0ForLiquidity_of_lt {a b liquidity : Nat} (ha : 0 < a) (hab : a < b)
    (hl : liquidity < liquidityLimit) :
    amount0ForLiquidity a b liquidity = .ok (liquidity * q96 * (b - a) / b / a) := by
  have hc : liquidityLimit * q96 < Word.capacity := by decide
  have hlt : liquidity * q96 * (b - a) / b < Word.capacity := by
    calc liquidity * q96 * (b - a) / b
        ≤ liquidity * q96 := Nat.div_le_of_le_mul (by
          rw [Nat.mul_comm b]
          exact Nat.mul_le_mul_left _ (Nat.sub_le b a))
      _ < liquidityLimit * q96 := Nat.mul_lt_mul_of_pos_right hl q96_pos
      _ < Word.capacity := hc
  have hscaled : mulDiv (liquidity * q96) (b - a) b = .ok (liquidity * q96 * (b - a) / b) :=
    mulDiv_eq_ok_iff.mpr ⟨by omega, hlt, rfl⟩
  simp only [amount0ForLiquidity, min_eq_left hab.le, max_eq_right hab.le, hscaled]
  exact if_neg (by omega)

theorem amount1ForLiquidity_of_lt {a b liquidity : Nat} (hab : a < b)
    (hlt : liquidity * (b - a) / q96 < Word.capacity) :
    amount1ForLiquidity a b liquidity = .ok (liquidity * (b - a) / q96) := by
  rw [amount1ForLiquidity, min_eq_left hab.le, max_eq_right hab.le]
  exact mulDiv_eq_ok_iff.mpr ⟨q96_pos.ne', hlt, rfl⟩

/-! ### Positions -/

/-- The prices between which a position holds token 0: its range, from the present price up. -/
def active0 (price pa pb : Nat) : Nat × Nat := (max price (min pa pb), max pa pb)

/-- The prices between which a position holds token 1: its range, up to the present price. -/
def active1 (price pa pb : Nat) : Nat × Nat := (min pa pb, min price (max pa pb))

theorem positionRange_eq_ok_iff {price pa pb : Nat} {range : Nat × Nat} :
    positionRange price pa pb = .ok range ↔
      (price ≠ 0 ∧ min pa pb ≠ 0 ∧ pa ≠ pb) ∧ range = (min pa pb, max pa pb) := by
  rw [positionRange]
  split_ifs with hp hb hab
  · simp [hp]
  · simp [hb]
  · simp [hab]
  · simp [hp, hb, hab, eq_comm]

theorem liquidityFromAmount0_of_range {price pa pb amount : Nat}
    (h : positionRange price pa pb = .ok (min pa pb, max pa pb)) :
    liquidityFromAmount0 price pa pb amount =
      if max pa pb ≤ price then .ok 0
      else liquidityForAmount0 (max price (min pa pb)) (max pa pb) amount := by
  rw [liquidityFromAmount0, h]
  rfl

theorem liquidityFromAmount1_of_range {price pa pb amount : Nat}
    (h : positionRange price pa pb = .ok (min pa pb, max pa pb)) :
    liquidityFromAmount1 price pa pb amount =
      if price ≤ min pa pb then .ok 0
      else liquidityForAmount1 (min pa pb) (min price (max pa pb)) amount := by
  rw [liquidityFromAmount1, h]
  rfl

/-- A liquidity of token 0 is that of the active prices, or none where there are none. -/
theorem liquidityFromAmount0_eq_ok {price pa pb amount n : Nat}
    (h : liquidityFromAmount0 price pa pb amount = .ok n) :
    positionRange price pa pb = .ok (min pa pb, max pa pb) ∧
      if max pa pb ≤ price then n = 0
      else liquidityForAmount0 (max price (min pa pb)) (max pa pb) amount = .ok n := by
  obtain ⟨range, hr, -⟩ := except_bind_eq_ok h
  obtain ⟨-, rfl⟩ := positionRange_eq_ok_iff.mp hr
  rw [liquidityFromAmount0_of_range hr] at h
  refine ⟨hr, ?_⟩
  by_cases hp : max pa pb ≤ price
  · rw [if_pos hp] at h ⊢
    cases h
    rfl
  · rw [if_neg hp] at h ⊢
    exact h

theorem liquidityFromAmount1_eq_ok {price pa pb amount n : Nat}
    (h : liquidityFromAmount1 price pa pb amount = .ok n) :
    positionRange price pa pb = .ok (min pa pb, max pa pb) ∧
      if price ≤ min pa pb then n = 0
      else liquidityForAmount1 (min pa pb) (min price (max pa pb)) amount = .ok n := by
  obtain ⟨range, hr, -⟩ := except_bind_eq_ok h
  obtain ⟨-, rfl⟩ := positionRange_eq_ok_iff.mp hr
  rw [liquidityFromAmount1_of_range hr] at h
  refine ⟨hr, ?_⟩
  by_cases hp : price ≤ min pa pb
  · rw [if_pos hp] at h ⊢
    cases h
    rfl
  · rw [if_neg hp] at h ⊢
    exact h

theorem amount0FromLiquidity_of_range {price pa pb liquidity : Nat}
    (h : positionRange price pa pb = .ok (min pa pb, max pa pb)) :
    amount0FromLiquidity price pa pb liquidity =
      if max pa pb ≤ price then .ok 0
      else amount0ForLiquidity (max price (min pa pb)) (max pa pb) liquidity := by
  rw [amount0FromLiquidity, h]
  rfl

theorem amount1FromLiquidity_of_range {price pa pb liquidity : Nat}
    (h : positionRange price pa pb = .ok (min pa pb, max pa pb)) :
    amount1FromLiquidity price pa pb liquidity =
      if price ≤ min pa pb then .ok 0
      else amount1ForLiquidity (min pa pb) (min price (max pa pb)) liquidity := by
  rw [amount1FromLiquidity, h]
  rfl

theorem amount0_of_liquidity {price pa pb amount n : Nat}
    (h : liquidityFromAmount0 price pa pb amount = .ok n) :
    ∃ back, amount0FromLiquidity price pa pb n = .ok back ∧ back ≤ amount ∧
      ∀ a b, active0 price pa pb = (a, b) → a < b →
        (amount : Rat) - back < 1 + (amount * (q96 - 1) + q96 * ((b - a : Rat) - 1)) / (a * b) := by
  obtain ⟨hr, h⟩ := liquidityFromAmount0_eq_ok h
  obtain ⟨⟨hprice, hlow, hne⟩, -⟩ := positionRange_eq_ok_iff.mp hr
  rw [amount0FromLiquidity_of_range hr]
  by_cases hp : max pa pb ≤ price
  · rw [if_pos hp]
    refine ⟨0, rfl, Nat.zero_le _, fun a b hab hlt => ?_⟩
    cases hab
    omega
  · rw [if_neg hp] at h ⊢
    have hab : max price (min pa pb) < max pa pb := by omega
    have ha : 0 < max price (min pa pb) := by omega
    obtain ⟨hl, rfl⟩ := liquidityForAmount0_eq_ok hab h
    refine ⟨_, amount0ForLiquidity_of_lt ha hab hl, roundTrip0_le .., fun a b he _ => ?_⟩
    cases he
    exact lost0_lt amount ha hab

theorem amount1_of_liquidity {price pa pb amount n : Nat} (hx : amount < Word.capacity)
    (h : liquidityFromAmount1 price pa pb amount = .ok n) :
    ∃ back, amount1FromLiquidity price pa pb n = .ok back ∧ back ≤ amount ∧
      ∀ a b, active1 price pa pb = (a, b) → a < b →
        (amount : Rat) - back < 1 + ((b - a : Rat) - 1) / q96 := by
  obtain ⟨hr, h⟩ := liquidityFromAmount1_eq_ok h
  obtain ⟨⟨hprice, hlow, hne⟩, -⟩ := positionRange_eq_ok_iff.mp hr
  rw [amount1FromLiquidity_of_range hr]
  by_cases hp : price ≤ min pa pb
  · rw [if_pos hp]
    refine ⟨0, rfl, Nat.zero_le _, fun a b hab hlt => ?_⟩
    cases hab
    omega
  · rw [if_neg hp] at h ⊢
    have hab : min pa pb < min price (max pa pb) := by omega
    obtain rfl := liquidityForAmount1_eq_ok hab h
    have hle := roundTrip1_le amount (min price (max pa pb) - min pa pb) q96
    refine ⟨_, amount1ForLiquidity_of_lt hab (lt_of_le_of_lt hle hx), hle, fun a b he _ => ?_⟩
    cases he
    exact lost1_lt amount hab

/-- **An amount of a token that is turned into liquidity comes back**, never with a gain.  Where the
position holds some of the token, between the prices `a` and `b`, what is lost is less than a unit
and what the two roundings, of the liquidity and for token 0 of the product of the prices, are worth
there. -/
theorem amount_of_liquidity {amount : Nat} (price pa pb : Nat) (hx : amount < Word.capacity) :
    (∀ n, liquidityFromAmount0 price pa pb amount = .ok n →
      ∃ back, amount0FromLiquidity price pa pb n = .ok back ∧ back ≤ amount ∧
        ∀ a b, active0 price pa pb = (a, b) → a < b →
          (amount : Rat) - back <
            1 + (amount * (q96 - 1) + q96 * ((b - a : Rat) - 1)) / (a * b)) ∧
    ∀ n, liquidityFromAmount1 price pa pb amount = .ok n →
      ∃ back, amount1FromLiquidity price pa pb n = .ok back ∧ back ≤ amount ∧
        ∀ a b, active1 price pa pb = (a, b) → a < b →
          (amount : Rat) - back < 1 + ((b - a : Rat) - 1) / q96 :=
  ⟨fun _ h => amount0_of_liquidity h, fun _ h => amount1_of_liquidity hx h⟩

/-- A thousand units of either token at a price of one, in a range around it. -/
theorem amount_of_liquidity_thousand :
    (∃ back, amount0FromLiquidity q96 100000000000000000000000000000 70000000000000000000000000000
        4814 = .ok back ∧ back ≤ 1000 ∧
      (1000 : Rat) - back < 1 + (1000 * (q96 - 1) +
        q96 * ((100000000000000000000000000000 - q96 : Rat) - 1)) /
          (q96 * 100000000000000000000000000000)) ∧
    ∃ back, amount1FromLiquidity q96 100000000000000000000000000000 70000000000000000000000000000
        8585 = .ok back ∧ back ≤ 1000 ∧
      (1000 : Rat) - back < 1 + ((q96 - 70000000000000000000000000000 : Rat) - 1) / q96 := by
  obtain ⟨h0, h1⟩ := amount_of_liquidity q96 100000000000000000000000000000
    70000000000000000000000000000 (by decide : 1000 < Word.capacity)
  constructor
  · obtain ⟨back, hb, hle, hloss⟩ := h0 4814 (by decide)
    exact ⟨back, hb, hle, hloss q96 100000000000000000000000000000 (by decide) (by decide)⟩
  · obtain ⟨back, hb, hle, hloss⟩ := h1 8585 (by decide)
    exact ⟨back, hb, hle, hloss 70000000000000000000000000000 q96 (by decide) (by decide)⟩

end Pool

end WeiCalc

import Mathlib
import WeiCalc.Proofs.Pool.Exact

/-!
# Positions at a higher price

With a rising price a position turns token 0 into token 1, and more of a quantity is worth more of
the other.  Every quantity is a quotient that is rounded down, whose numerator and denominator may
both move; they move apart, so that rounding does not turn the quotients around.

* `liquidity0Between`, `liquidity1Between`: the liquidities of an amount between two prices.
* `liquidityFromAmount0_eq_between`, `liquidityFromAmount1_eq_between`: a position that answers has
  these.
* `amount0Between_mono`, `amount1Between_mono`, `liquidity0Between_mono`, `liquidity1Between_mono`:
  how the quantities move with the prices and with one another.
* `quantities_monotone`: **the quantities of a position are monotone.**
-/

namespace WeiCalc

namespace Pool

/-! ### Liquidities between two prices -/

/-- The liquidity of an amount of token 0 between two prices; none if nothing lies between them. -/
def liquidity0Between (low high amount : Nat) : Nat :=
  amount * (low * high / q96) / (high - low)

/-- The liquidity of an amount of token 1 between two prices; none if nothing lies between them. -/
def liquidity1Between (low high amount : Nat) : Nat :=
  amount * q96 / (high - low)

theorem liquidity0Between_of_le {low high : Nat} (h : high ≤ low) (amount : Nat) :
    liquidity0Between low high amount = 0 := by
  rw [liquidity0Between, Nat.sub_eq_zero_of_le h, Nat.div_zero]

theorem liquidity1Between_of_le {low high : Nat} (h : high ≤ low) (amount : Nat) :
    liquidity1Between low high amount = 0 := by
  rw [liquidity1Between, Nat.sub_eq_zero_of_le h, Nat.div_zero]

/-- **A position that answers has the liquidity between its active prices.** -/
theorem liquidityFromAmount0_eq_between {price pa pb amount n : Nat}
    (h : liquidityFromAmount0 price pa pb amount = .ok n) :
    n = liquidity0Between (max price (min pa pb)) (max pa pb) amount := by
  obtain ⟨hr, h⟩ := liquidityFromAmount0_eq_ok h
  obtain ⟨⟨-, -, hne⟩, -⟩ := positionRange_eq_ok_iff.mp hr
  by_cases hp : max pa pb ≤ price
  · rw [if_pos hp] at h
    rw [h, liquidity0Between_of_le (le_max_of_le_left hp)]
  · rw [if_neg hp] at h
    exact (liquidityForAmount0_eq_ok (by omega) h).2.symm

theorem liquidityFromAmount1_eq_between {price pa pb amount n : Nat}
    (h : liquidityFromAmount1 price pa pb amount = .ok n) :
    n = liquidity1Between (min pa pb) (min price (max pa pb)) amount := by
  obtain ⟨hr, h⟩ := liquidityFromAmount1_eq_ok h
  obtain ⟨⟨-, -, hne⟩, -⟩ := positionRange_eq_ok_iff.mp hr
  by_cases hp : price ≤ min pa pb
  · rw [if_pos hp] at h
    rw [h, liquidity1Between_of_le (min_le_of_left_le hp)]
  · rw [if_neg hp] at h
    exact (liquidityForAmount1_eq_ok (by omega) h).symm

/-! ### Quantities between two prices -/

variable {low low' high high' quantity quantity' : Nat}

/-- Less of token 0 is needed where the range begins higher: the range becomes shorter, and the
product of its prices greater. -/
theorem amount0Between_mono (hpos : 0 < low * high) (hlow : low ≤ low')
    (hquantity : quantity ≤ quantity') :
    amount0Between low' high quantity ≤ amount0Between low high quantity' := by
  have hnumerator : quantity * q96 * (high - low') ≤ quantity' * q96 * (high - low) :=
    Nat.mul_le_mul (Nat.mul_le_mul_right q96 hquantity) (Nat.sub_le_sub_left hlow high)
  have hdenominator : low * high ≤ low' * high := Nat.mul_le_mul_right high hlow
  exact Nat.div_le_div hnumerator hdenominator hpos.ne'

/-- More of token 1 is needed where the range ends higher. -/
theorem amount1Between_mono (hhigh : high ≤ high') (hquantity : quantity ≤ quantity') :
    amount1Between low high quantity ≤ amount1Between low high' quantity' := by
  have hlength : high - low ≤ high' - low := Nat.sub_le_sub_right hhigh low
  exact Nat.div_le_div_right (Nat.mul_le_mul hquantity hlength)

/-- An amount of token 0 goes further where the range begins higher, as long as there is one. -/
theorem liquidity0Between_mono (hlow : low ≤ low') (hlt : low' < high)
    (hquantity : quantity ≤ quantity') :
    liquidity0Between low high quantity ≤ liquidity0Between low' high quantity' := by
  -- The product is rounded before the division, and still does not become less.
  have hproduct : low * high / q96 ≤ low' * high / q96 :=
    Nat.div_le_div_right (Nat.mul_le_mul_right high hlow)
  have hlength : high - low' ≤ high - low := Nat.sub_le_sub_left hlow high
  exact Nat.div_le_div (Nat.mul_le_mul hquantity hproduct) hlength (Nat.sub_ne_zero_of_lt hlt)

/-- An amount of token 1 goes less far where the range ends higher. -/
theorem liquidity1Between_mono (hhigh : high ≤ high') (hlt : low < high)
    (hquantity : quantity ≤ quantity') :
    liquidity1Between low high' quantity ≤ liquidity1Between low high quantity' := by
  have hlength : high - low ≤ high' - low := Nat.sub_le_sub_right hhigh low
  exact Nat.div_le_div (Nat.mul_le_mul_right q96 hquantity) hlength (Nat.sub_ne_zero_of_lt hlt)

/-- More of a token is more liquidity, also where there is no range and both are none. -/
theorem liquidity0Between_mono_amount (low high : Nat) (hquantity : quantity ≤ quantity') :
    liquidity0Between low high quantity ≤ liquidity0Between low high quantity' :=
  Nat.div_le_div_right (Nat.mul_le_mul_right _ hquantity)

theorem liquidity1Between_mono_amount (low high : Nat) (hquantity : quantity ≤ quantity') :
    liquidity1Between low high quantity ≤ liquidity1Between low high quantity' :=
  Nat.div_le_div_right (Nat.mul_le_mul_right q96 hquantity)

/-! ### Positions -/

/-- Where both calls answer, the first answer is not greater than the second one. -/
def AtMost {ε : Type} (x y : Except ε Nat) : Prop :=
  ∀ m n, x = .ok m → y = .ok n → m ≤ n

/-- What is divided by for token 0 is positive in a position that answers. -/
theorem pos_of_amount0FromLiquidity {price pa pb liquidity n : Nat}
    (h : amount0FromLiquidity price pa pb liquidity = .ok n) :
    0 < max price (min pa pb) * max pa pb := by
  obtain ⟨range, hr, -⟩ := except_bind_eq_ok h
  obtain ⟨⟨hprice, hlow, -⟩, -⟩ := positionRange_eq_ok_iff.mp (mapError_eq_ok.mp hr)
  exact Nat.mul_pos (by omega) (by omega)

variable {price price' : Nat} (pa pb : Nat)

/-- Token 0 at a lower price with no more liquidity, and at a higher price with no less. -/
theorem amount0FromLiquidity_atMost (hp : price ≤ price') (hquantity : quantity ≤ quantity') :
    AtMost (amount0FromLiquidity price' pa pb quantity)
      (amount0FromLiquidity price pa pb quantity') := by
  intro m n hm hn
  rw [amount0FromLiquidity_eq_ok hm, amount0FromLiquidity_eq_ok hn]
  exact amount0Between_mono (pos_of_amount0FromLiquidity hn) (max_le_max_right _ hp) hquantity

theorem amount1FromLiquidity_atMost (hp : price ≤ price') (hquantity : quantity ≤ quantity') :
    AtMost (amount1FromLiquidity price pa pb quantity)
      (amount1FromLiquidity price' pa pb quantity') := by
  intro m n hm hn
  rw [amount1FromLiquidity_eq_ok hm, amount1FromLiquidity_eq_ok hn]
  exact amount1Between_mono (min_le_min_right _ hp) hquantity

theorem liquidityFromAmount0_atMost (hp : price ≤ price') (hlt : price' < max pa pb)
    (quantity : Nat) :
    AtMost (liquidityFromAmount0 price pa pb quantity)
      (liquidityFromAmount0 price' pa pb quantity) := by
  intro m n hm hn
  obtain ⟨⟨-, -, hne⟩, -⟩ := positionRange_eq_ok_iff.mp (liquidityFromAmount0_eq_ok hm).1
  rw [liquidityFromAmount0_eq_between hm, liquidityFromAmount0_eq_between hn]
  exact liquidity0Between_mono (max_le_max_right _ hp) (max_lt hlt (by omega)) le_rfl

theorem liquidityFromAmount1_atMost (hp : price ≤ price') (hlt : min pa pb < price)
    (quantity : Nat) :
    AtMost (liquidityFromAmount1 price' pa pb quantity)
      (liquidityFromAmount1 price pa pb quantity) := by
  intro m n hm hn
  obtain ⟨⟨-, -, hne⟩, -⟩ := positionRange_eq_ok_iff.mp (liquidityFromAmount1_eq_ok hm).1
  rw [liquidityFromAmount1_eq_between hm, liquidityFromAmount1_eq_between hn]
  exact liquidity1Between_mono (min_le_min_right _ hp) (lt_min hlt (by omega)) le_rfl

/-- More of an amount never gives less liquidity, at any price. -/
theorem liquidity_atMost (price : Nat) (hquantity : quantity ≤ quantity') :
    AtMost (liquidityFromAmount0 price pa pb quantity)
      (liquidityFromAmount0 price pa pb quantity') ∧
    AtMost (liquidityFromAmount1 price pa pb quantity)
      (liquidityFromAmount1 price pa pb quantity') := by
  constructor
  · intro m n hm hn
    rw [liquidityFromAmount0_eq_between hm, liquidityFromAmount0_eq_between hn]
    exact liquidity0Between_mono_amount _ _ hquantity
  · intro m n hm hn
    rw [liquidityFromAmount1_eq_between hm, liquidityFromAmount1_eq_between hn]
    exact liquidity1Between_mono_amount _ _ hquantity

/-- **The quantities of a position are monotone.**  From a price to one that is not lower, a liquidity
needs no more of token 0 and no less of token 1.  At one price more of any quantity gives no less of
what it is turned into.  Below the upper bound an amount of token 0 gives no less liquidity at the
higher price, and above the lower bound one of token 1 gives no more.  Bounds and prices without a
range between them never answer. -/
theorem quantities_monotone (hp : price ≤ price') :
    (∀ liquidity, AtMost (amount0FromLiquidity price' pa pb liquidity)
      (amount0FromLiquidity price pa pb liquidity)) ∧
    (∀ liquidity, AtMost (amount1FromLiquidity price pa pb liquidity)
      (amount1FromLiquidity price' pa pb liquidity)) ∧
    (∀ quantity quantity', quantity ≤ quantity' →
      AtMost (amount0FromLiquidity price pa pb quantity)
        (amount0FromLiquidity price pa pb quantity') ∧
      AtMost (amount1FromLiquidity price pa pb quantity)
        (amount1FromLiquidity price pa pb quantity') ∧
      AtMost (liquidityFromAmount0 price pa pb quantity)
        (liquidityFromAmount0 price pa pb quantity') ∧
      AtMost (liquidityFromAmount1 price pa pb quantity)
        (liquidityFromAmount1 price pa pb quantity')) ∧
    (price' < max pa pb → ∀ amount, AtMost (liquidityFromAmount0 price pa pb amount)
      (liquidityFromAmount0 price' pa pb amount)) ∧
    (min pa pb < price → ∀ amount, AtMost (liquidityFromAmount1 price' pa pb amount)
      (liquidityFromAmount1 price pa pb amount)) := by
  refine ⟨fun liquidity => ?_, fun liquidity => ?_, fun quantity quantity' hquantity => ?_,
    fun hlt amount => ?_, fun hlt amount => ?_⟩
  · exact amount0FromLiquidity_atMost pa pb hp le_rfl
  · exact amount1FromLiquidity_atMost pa pb hp le_rfl
  · obtain ⟨hliquidity0, hliquidity1⟩ := liquidity_atMost pa pb price hquantity
    exact ⟨amount0FromLiquidity_atMost pa pb le_rfl hquantity,
      amount1FromLiquidity_atMost pa pb le_rfl hquantity, hliquidity0, hliquidity1⟩
  · exact liquidityFromAmount0_atMost pa pb hp hlt amount
  · exact liquidityFromAmount1_atMost pa pb hp hlt amount

/-- Bounds of one and sixteen, and prices of two and a quarter and of four, all as square roots. -/
theorem quantities_monotone_inside :
    q96 + 2 ^ 95 ≤ 2 * q96 ∧ 2 * q96 < max q96 (4 * q96) ∧ min q96 (4 * q96) < q96 + 2 ^ 95 ∧
    (amount0FromLiquidity (2 * q96) q96 (4 * q96) 1000 = .ok 250 ∧
      amount0FromLiquidity (q96 + 2 ^ 95) q96 (4 * q96) 1000 = .ok 416 ∧ 250 ≤ 416) ∧
    (amount1FromLiquidity (q96 + 2 ^ 95) q96 (4 * q96) 1000 = .ok 500 ∧
      amount1FromLiquidity (2 * q96) q96 (4 * q96) 1000 = .ok 1000 ∧ 500 ≤ 1000) ∧
    (amount0FromLiquidity (q96 + 2 ^ 95) q96 (4 * q96) 2000 = .ok 833 ∧ 416 ≤ 833) ∧
    (liquidityFromAmount0 (q96 + 2 ^ 95) q96 (4 * q96) 1000 = .ok 2400 ∧
      liquidityFromAmount0 (2 * q96) q96 (4 * q96) 1000 = .ok 4000 ∧ 2400 ≤ 4000) ∧
    liquidityFromAmount1 (2 * q96) q96 (4 * q96) 1000 = .ok 1000 ∧
      liquidityFromAmount1 (q96 + 2 ^ 95) q96 (4 * q96) 1000 = .ok 2000 ∧ 1000 ≤ 2000 := by
  have hp : q96 + 2 ^ 95 ≤ 2 * q96 := by decide
  have hupper : 2 * q96 < max q96 (4 * q96) := by decide
  have hlower : min q96 (4 * q96) < q96 + 2 ^ 95 := by decide
  obtain ⟨falls0, rises1, more, rises0, falls1⟩ := quantities_monotone q96 (4 * q96) hp
  obtain ⟨more0, -⟩ := more 1000 2000 (by decide)
  have amount0 : amount0FromLiquidity (q96 + 2 ^ 95) q96 (4 * q96) 1000 = .ok 416 := by decide
  have amount0' : amount0FromLiquidity (2 * q96) q96 (4 * q96) 1000 = .ok 250 := by decide
  have amount1 : amount1FromLiquidity (q96 + 2 ^ 95) q96 (4 * q96) 1000 = .ok 500 := by decide
  have amount1' : amount1FromLiquidity (2 * q96) q96 (4 * q96) 1000 = .ok 1000 := by decide
  have double0 : amount0FromLiquidity (q96 + 2 ^ 95) q96 (4 * q96) 2000 = .ok 833 := by decide
  have liquidity0 : liquidityFromAmount0 (q96 + 2 ^ 95) q96 (4 * q96) 1000 = .ok 2400 := by decide
  have liquidity0' : liquidityFromAmount0 (2 * q96) q96 (4 * q96) 1000 = .ok 4000 := by decide
  have liquidity1 : liquidityFromAmount1 (q96 + 2 ^ 95) q96 (4 * q96) 1000 = .ok 2000 := by decide
  have liquidity1' : liquidityFromAmount1 (2 * q96) q96 (4 * q96) 1000 = .ok 1000 := by decide
  exact ⟨hp, hupper, hlower, ⟨amount0', amount0, falls0 1000 _ _ amount0' amount0⟩,
    ⟨amount1, amount1', rises1 1000 _ _ amount1 amount1'⟩, ⟨double0, more0 _ _ amount0 double0⟩,
    ⟨liquidity0, liquidity0', rises0 hupper 1000 _ _ liquidity0 liquidity0'⟩,
    liquidity1', liquidity1, falls1 hlower 1000 _ _ liquidity1' liquidity1⟩

end Pool

end WeiCalc

import Mathlib
import WeiCalc.Pool.Liquidity
import WeiCalc.Proofs.Orderly
import WeiCalc.Proofs.Run

/-!
# Prices and liquidities are bounded

The square root of a price is a word at every tick, the tick of a price is in range, and the
quantities of a position are words.  No ratio that is divided by is zero.

* `ratioBelow_pos`: the ratio at a tick in range is positive.
* `sqrtPrice_lt`: the square root of a price is a word.
* `search_mem`: a search ends in the interval that it started with.
* `amount0FromLiquidity_orderly`: the lower price of a position that is divided by is never zero.
-/

namespace WeiCalc

namespace Pool

/-! ### Ratios -/

/-- The product of a ratio with all factors, whatever the digits. -/
def scaleByAll : (factors : List Nat) → (ratio : Nat) → Nat
  | [], ratio => ratio
  | factor :: factors, ratio => scaleByAll factors (ratio * factor / q128)

theorem scale_le {ratio factor : Nat} (h : factor ≤ q128) : ratio * factor / q128 ≤ ratio :=
  Nat.div_le_of_le_mul (by rw [Nat.mul_comm q128]; exact Nat.mul_le_mul_left ratio h)

theorem scale_mono {ratio ratio' : Nat} (factor : Nat) (h : ratio ≤ ratio') :
    ratio * factor / q128 ≤ ratio' * factor / q128 :=
  Nat.div_le_div_right (Nat.mul_le_mul_right factor h)

/-- Scaling makes a ratio smaller, but no smaller than scaling by all factors does. -/
theorem scaleByDigits_bounds {factors : List Nat} :
    ∀ {n ratio least : Nat}, (∀ f ∈ factors, f ≤ q128) → least ≤ ratio →
      scaleByAll factors least ≤ scaleByDigits factors n ratio ∧
        scaleByDigits factors n ratio ≤ ratio := by
  induction factors with
  | nil =>
    intro n ratio least _ h
    exact ⟨h, le_refl ratio⟩
  | cons factor factors ih =>
    intro n ratio least hf h
    have hfactor := hf factor (List.mem_cons_self ..)
    have hrest := fun f hm => hf f (List.mem_cons_of_mem _ hm)
    rw [scaleByAll, scaleByDigits]
    by_cases hd : n % 2 = 1
    · rw [if_pos hd]
      obtain ⟨hl, hu⟩ := ih (n := n / 2) hrest (scale_mono factor h)
      exact ⟨hl, le_trans hu (scale_le hfactor)⟩
    · rw [if_neg hd]
      exact ih hrest (le_trans (scale_le hfactor) h)

theorem digitFactors_le : ∀ f ∈ digitFactors, f ≤ q128 := by
  decide

theorem ratioBelow_le (n : Nat) : ratioBelow n ≤ q128 :=
  (scaleByDigits_bounds digitFactors_le (le_refl q128)).2

/-- **The ratio at a tick is positive**: so it is even if all factors are taken. -/
theorem ratioBelow_pos (n : Nat) : 0 < ratioBelow n := by
  have hp : 0 < scaleByAll digitFactors q128 := by decide
  exact lt_of_lt_of_le hp (scaleByDigits_bounds digitFactors_le (le_refl q128)).1

theorem roundUp_lt {ratio : Nat} (h : ratio < Word.capacity) : roundUp ratio < Word.capacity := by
  have hc : Word.capacity = 2 ^ 256 := rfl
  have hq : q32 = 2 ^ 32 := rfl
  rw [roundUp, hq]
  split_ifs <;> omega

theorem roundUp_pos {ratio : Nat} (h : 0 < ratio) : 0 < roundUp ratio := by
  have hq : q32 = 2 ^ 32 := rfl
  rw [roundUp, hq]
  split_ifs <;> omega

/-- **The square root of a price is a word.** -/
theorem sqrtPrice_lt (tick : Int) : sqrtPrice tick < Word.capacity := by
  have hq : q128 < Word.capacity := by decide
  have hc : Word.capacity - 1 < Word.capacity := by decide
  rw [sqrtPrice]
  apply roundUp_lt
  split_ifs
  · exact lt_of_le_of_lt (Nat.div_le_self _ _) hc
  · exact lt_of_le_of_lt (ratioBelow_le _) hq

theorem sqrtPriceAt_lt {tick : Int} {n : Nat} (h : sqrtPriceAt tick = .ok n) :
    n < Word.capacity := by
  obtain ⟨_, hn⟩ := ite_eq_ok.mp h
  cases hn
  exact sqrtPrice_lt tick

/-- The square root of a price is positive, and so is the price. -/
theorem sqrtPrice_pos (tick : Int) : 0 < sqrtPrice tick := by
  have hq : q128 < Word.capacity := by decide
  have hr := ratioBelow_pos tick.natAbs
  have hu := ratioBelow_le tick.natAbs
  rw [sqrtPrice]
  apply roundUp_pos
  split_ifs
  · exact Nat.div_pos (by omega) hr
  · exact hr

/-! ### Ticks -/

/-- **A search ends in the interval that it started with.** -/
theorem search_mem (price : Nat) {low high : Int} (h : low ≤ high) :
    low ≤ search price low high ∧ search price low high ≤ high := by
  fun_induction search price low high with
  | case1 low high hlt middle hm ih =>
    obtain ⟨hl, hu⟩ := ih (by omega)
    exact ⟨le_trans (by omega) hl, hu⟩
  | case2 low high hlt middle hm ih =>
    obtain ⟨hl, hu⟩ := ih (by omega)
    exact ⟨hl, le_trans hu (by omega)⟩
  | case3 low high hlt => exact ⟨le_refl low, h⟩

theorem tickAt_mem {price : Nat} {tick : Int} (h : tickAt price = .ok tick) :
    leastTick ≤ tick ∧ tick ≤ greatestTick := by
  obtain ⟨_, ht⟩ := ite_eq_ok.mp h
  cases ht
  exact search_mem price (by decide)

/-! ### Positions -/

theorem mulDiv_lt {a b divisor n : Nat} (h : mulDiv a b divisor = .ok n) : n < Word.capacity := by
  rw [mulDiv] at h
  split_ifs at h with _ hlt
  · cases h
    exact hlt

theorem asLiquidity_lt {m n : Nat} (h : asLiquidity m = .ok n) : n < Word.capacity := by
  obtain ⟨hlt, hn⟩ := ite_eq_ok.mp h
  cases hn
  exact lt_trans hlt (by decide)

theorem positionRange_eq_ok {price a b low high : Nat}
    (h : positionRange price a b = .ok (low, high)) : price ≠ 0 ∧ low ≠ 0 ∧ low ≤ high := by
  rw [positionRange] at h
  split_ifs at h with hp hb hab
  · cases h
    exact ⟨hp, hb, min_le_max⟩

/-- A quantity of a position is zero on one side of its range and computed on the other. -/
theorem quantity_lt {price a b n : Nat} (beside : Nat → Nat → Prop)
    [∀ low high, Decidable (beside low high)] (compute : Nat → Nat → Except Cause Nat)
    (hq : ∀ {low high n}, compute low high = .ok n → n < Word.capacity)
    (h : (do
      let (low, high) ← positionRange price a b
      if beside low high then return 0
      compute low high) = .ok n) : n < Word.capacity := by
  obtain ⟨⟨low, high⟩, _, h⟩ := except_bind_eq_ok h
  by_cases hp : beside low high
  · simp only [if_pos hp] at h
    cases h
    decide
  · simp only [if_neg hp] at h
    exact hq h

theorem liquidityFromAmount0_lt {price a b amount n : Nat}
    (h : liquidityFromAmount0 price a b amount = .ok n) : n < Word.capacity := by
  refine quantity_lt (fun _ high => high ≤ price)
    (fun low high => liquidityForAmount0 (max price low) high amount) (fun hn => ?_) h
  obtain ⟨_, _, hn⟩ := except_bind_eq_ok hn
  obtain ⟨_, _, hn⟩ := except_bind_eq_ok hn
  exact asLiquidity_lt hn

theorem liquidityFromAmount1_lt {price a b amount n : Nat}
    (h : liquidityFromAmount1 price a b amount = .ok n) : n < Word.capacity := by
  refine quantity_lt (fun low _ => price ≤ low)
    (fun low high => liquidityForAmount1 low (min price high) amount) (fun hn => ?_) h
  obtain ⟨_, _, hn⟩ := except_bind_eq_ok hn
  exact asLiquidity_lt hn

theorem amount1FromLiquidity_lt {price a b liquidity n : Nat}
    (h : amount1FromLiquidity price a b liquidity = .ok n) : n < Word.capacity :=
  quantity_lt (fun low _ => price ≤ low)
    (fun low high => amount1ForLiquidity low (min price high) liquidity) mulDiv_lt h

/-- An amount of token 0 above a lower price that is not zero. -/
theorem amount0ForLiquidity_orderly {a b : Nat} (ha : a ≠ 0) (hb : b ≠ 0) (liquidity : Nat) :
    Orderly (· < Word.capacity) (amount0ForLiquidity a b liquidity) := by
  have hlow : min a b ≠ 0 := by omega
  rw [amount0ForLiquidity]
  refine (Orderly.mapError fun _ => mulDiv_lt).bind fun scaled hs => ?_
  simp only [if_neg hlow]
  exact .pure (lt_of_le_of_lt (Nat.div_le_self _ _) hs)

/-- **The lower price of a position is never zero** once its bounds have been found to be sound. -/
theorem amount0FromLiquidity_orderly (price a b liquidity : Nat) :
    Orderly (· < Word.capacity) (amount0FromLiquidity price a b liquidity) := by
  rw [amount0FromLiquidity]
  refine (Orderly.mapError fun _ h => h).bind fun range hr => ?_
  obtain ⟨low, high⟩ := range
  obtain ⟨hp, hlow, hle⟩ := positionRange_eq_ok hr
  by_cases h : high ≤ price
  · simp only [if_pos h]
    exact .pure (by decide)
  · simp only [if_neg h]
    exact amount0ForLiquidity_orderly (by omega) (by omega) liquidity

end Pool

end WeiCalc

import Mathlib
import WeiCalc.Proofs.Pool.Exact

/-!
# Splitting a position

A position is split at a price between its bounds, so that one part has the lower prices and the
other one the higher ones.  The exact amounts of the parts add up to that of the whole, and each of
the three is rounded down: the parts hold the same together or one unit less.

* `amount0Between_split`, `amount1Between_split`: the amounts between three prices.
* `amount_split`: **splitting a position creates nothing and loses one unit of a token at most.**
-/

namespace WeiCalc

namespace Pool

/-- Two numbers hold what a third one holds, or one unit less. -/
def UpToOne (x y whole : Nat) : Prop := x + y = whole ∨ x + y + 1 = whole

/-! ### Between three prices -/

/-- The quotients of two numbers and of their sum. -/
theorem upToOne_div (m n : Nat) {divisor : Nat} (hd : 0 < divisor) :
    UpToOne (m / divisor) (n / divisor) ((m + n) / divisor) := by
  rw [UpToOne, Nat.add_div hd]
  split_ifs
  · exact Or.inr rfl
  · exact Or.inl rfl

/-- On the common denominator of the three prices, the exact amounts of token 0 add up. -/
theorem amount0Between_split {a m b : Nat} (ha : 0 < a) (ham : a ≤ m) (hmb : m ≤ b)
    (liquidity : Nat) :
    UpToOne (amount0Between a m liquidity) (amount0Between m b liquidity)
      (amount0Between a b liquidity) := by
  -- The prices as sums of the lowest one and the steps between them, so that nothing is subtracted.
  obtain ⟨d, rfl⟩ := Nat.exists_eq_add_of_le ham
  obtain ⟨e, rfl⟩ := Nat.exists_eq_add_of_le hmb
  have hm : 0 < a + d := by omega
  have hb : 0 < a + d + e := by omega
  have hlower : amount0Between a (a + d) liquidity =
      liquidity * q96 * d * (a + d + e) / (a * (a + d) * (a + d + e)) := by
    rw [amount0Between, Nat.mul_div_mul_right _ _ hb, Nat.add_sub_cancel_left]
  have hupper : amount0Between (a + d) (a + d + e) liquidity =
      liquidity * q96 * e * a / (a * (a + d) * (a + d + e)) := by
    rw [amount0Between, Nat.add_sub_cancel_left, Nat.mul_assoc a, Nat.mul_comm a (_ * _),
      Nat.mul_div_mul_right _ _ ha]
  have hwhole : amount0Between a (a + d + e) liquidity =
      liquidity * q96 * (d + e) * (a + d) / (a * (a + d) * (a + d + e)) := by
    rw [amount0Between, Nat.add_assoc a d e, Nat.add_sub_cancel_left, Nat.mul_right_comm a,
      Nat.mul_div_mul_right _ _ hm]
  have hsum : liquidity * q96 * (d + e) * (a + d) =
      liquidity * q96 * d * (a + d + e) + liquidity * q96 * e * a := by
    ring
  rw [hlower, hupper, hwhole, hsum]
  exact upToOne_div _ _ (Nat.mul_pos (Nat.mul_pos ha hm) hb)

theorem amount1Between_split {a m b : Nat} (ham : a ≤ m) (hmb : m ≤ b) (liquidity : Nat) :
    UpToOne (amount1Between a m liquidity) (amount1Between m b liquidity)
      (amount1Between a b liquidity) := by
  have hsum : liquidity * (b - a) = liquidity * (m - a) + liquidity * (b - m) := by
    rw [← Nat.mul_add]
    congr 1
    omega
  rw [amount1Between, amount1Between, amount1Between, hsum]
  exact upToOne_div _ _ q96_pos

/-! ### Positions -/

variable {price a m b : Nat}

theorem amount0FromLiquidity_eq_ok_of_lt {liquidity n : Nat} (hab : a < b)
    (h : amount0FromLiquidity price a b liquidity = .ok n) :
    n = amount0Between (max price a) b liquidity := by
  have hn := amount0FromLiquidity_eq_ok h
  rwa [min_eq_left hab.le, max_eq_right hab.le] at hn

theorem amount1FromLiquidity_eq_ok_of_lt {liquidity n : Nat} (hab : a < b)
    (h : amount1FromLiquidity price a b liquidity = .ok n) :
    n = amount1Between a (min price b) liquidity := by
  have hn := amount1FromLiquidity_eq_ok h
  rwa [min_eq_left hab.le, max_eq_right hab.le] at hn

/-- Token 0 is held from the present price up.  Below the inner bound the lower part begins at that
price; above it the lower part holds nothing, and the upper part is the whole. -/
theorem active0_split (hp : 0 < price) (ham : a < m) (hmb : m < b) (liquidity : Nat) :
    UpToOne (amount0Between (max price a) m liquidity) (amount0Between (max price m) b liquidity)
      (amount0Between (max price a) b liquidity) := by
  rcases le_total price m with h | h
  · rw [max_eq_right h]
    exact amount0Between_split (lt_max_of_lt_left hp) (max_le h ham.le) hmb.le liquidity
  · rw [max_eq_left h, max_eq_left (le_trans ham.le h), amount0Between_of_le h, UpToOne]
    exact Or.inl (Nat.zero_add _)

/-- Token 1 is held up to the present price, so that it is the upper part that may hold nothing. -/
theorem active1_split (price : Nat) (ham : a < m) (hmb : m < b) (liquidity : Nat) :
    UpToOne (amount1Between a (min price m) liquidity) (amount1Between m (min price b) liquidity)
      (amount1Between a (min price b) liquidity) := by
  rcases le_total m price with h | h
  · rw [min_eq_right h]
    exact amount1Between_split ham.le (le_min h hmb.le) liquidity
  · rw [min_eq_left h, min_eq_left (le_trans h hmb.le), amount1Between_of_le h, UpToOne]
    exact Or.inl (Nat.add_zero _)

/-- **Splitting a position at a price between its bounds** leaves what it holds of either token as it
is, or takes one unit away; nothing is ever gained. -/
theorem amount_split (hp : 0 < price) (ham : a < m) (hmb : m < b) (liquidity : Nat) :
    (∀ x y whole, amount0FromLiquidity price a m liquidity = .ok x →
      amount0FromLiquidity price m b liquidity = .ok y →
      amount0FromLiquidity price a b liquidity = .ok whole → UpToOne x y whole) ∧
    ∀ x y whole, amount1FromLiquidity price a m liquidity = .ok x →
      amount1FromLiquidity price m b liquidity = .ok y →
      amount1FromLiquidity price a b liquidity = .ok whole → UpToOne x y whole := by
  constructor
  · intro x y whole hx hy hwhole
    rw [amount0FromLiquidity_eq_ok_of_lt ham hx, amount0FromLiquidity_eq_ok_of_lt hmb hy,
      amount0FromLiquidity_eq_ok_of_lt (lt_trans ham hmb) hwhole]
    exact active0_split hp ham hmb liquidity
  · intro x y whole hx hy hwhole
    rw [amount1FromLiquidity_eq_ok_of_lt ham hx, amount1FromLiquidity_eq_ok_of_lt hmb hy,
      amount1FromLiquidity_eq_ok_of_lt (lt_trans ham hmb) hwhole]
    exact active1_split price ham hmb liquidity

/-- Bounds of one and four, an inner bound of two and a price of one and a half, all as square roots:
a unit of token 0 is lost, and none of token 1. -/
theorem amount_split_lossy :
    (amount0FromLiquidity (q96 + 2 ^ 95) q96 (2 * q96) 5 = .ok 0 ∧
      amount0FromLiquidity (q96 + 2 ^ 95) (2 * q96) (4 * q96) 5 = .ok 1 ∧
      amount0FromLiquidity (q96 + 2 ^ 95) q96 (4 * q96) 5 = .ok 2 ∧ UpToOne 0 1 2) ∧
    amount1FromLiquidity (q96 + 2 ^ 95) q96 (2 * q96) 5 = .ok 2 ∧
      amount1FromLiquidity (q96 + 2 ^ 95) (2 * q96) (4 * q96) 5 = .ok 0 ∧
      amount1FromLiquidity (q96 + 2 ^ 95) q96 (4 * q96) 5 = .ok 2 ∧ UpToOne 2 0 2 := by
  obtain ⟨split0, split1⟩ := @amount_split (q96 + 2 ^ 95) q96 (2 * q96) (4 * q96) (by decide)
    (by decide) (by decide) 5
  have lower0 : amount0FromLiquidity (q96 + 2 ^ 95) q96 (2 * q96) 5 = .ok 0 := by decide
  have upper0 : amount0FromLiquidity (q96 + 2 ^ 95) (2 * q96) (4 * q96) 5 = .ok 1 := by decide
  have whole0 : amount0FromLiquidity (q96 + 2 ^ 95) q96 (4 * q96) 5 = .ok 2 := by decide
  have lower1 : amount1FromLiquidity (q96 + 2 ^ 95) q96 (2 * q96) 5 = .ok 2 := by decide
  have upper1 : amount1FromLiquidity (q96 + 2 ^ 95) (2 * q96) (4 * q96) 5 = .ok 0 := by decide
  have whole1 : amount1FromLiquidity (q96 + 2 ^ 95) q96 (4 * q96) 5 = .ok 2 := by decide
  exact ⟨⟨lower0, upper0, whole0, split0 _ _ _ lower0 upper0 whole0⟩,
    lower1, upper1, whole1, split1 _ _ _ lower1 upper1 whole1⟩

end Pool

end WeiCalc

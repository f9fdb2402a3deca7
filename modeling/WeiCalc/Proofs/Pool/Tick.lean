import Mathlib
import WeiCalc.Proofs.Pool

/-!
# Prices rise with ticks

The price at a tick is computed from a product of factors that is rounded down after each of them.
One tick further the exact product is smaller by a 25000th at least, whatever digits carry, and all
the rounding together is smaller than that.  So prices rise strictly from the least tick to the
greatest one, and halving finds the greatest tick whose price is not above a given one.

* `digitProduct_succ`: the exact products at neighbouring ticks.
* `ratioBelow_succ`: the rounded ones.
* `sqrtPrice_strictMono`: **prices rise strictly.**
* `search_greatest`: what a search by halving finds.
* `tickAt_greatest`: **the tick of a price, and the tick of the price at a tick.**
-/

namespace WeiCalc

namespace Pool

/-! ### Exact products -/

/-- The product of the factors of the binary digits of `n`, without any rounding. -/
def digitProduct : (factors : List Nat) → (n : Nat) → Rat
  | [], _ => 1
  | factor :: factors, n =>
    (if n % 2 = 1 then (factor : Rat) / q128 else 1) * digitProduct factors (n / 2)

/-- Each factor is smaller, by the ratio `c` at least, than the product of `a` and all factors in
front of it. -/
def Descends (c : Rat) : (a : Rat) → (factors : List Nat) → Prop
  | _, [] => True
  | a, factor :: factors => c * (factor / q128) ≤ a ∧ Descends c (a * (factor / q128)) factors

theorem q128_pos : (0 : Rat) < q128 := by
  have h : 0 < q128 := by decide
  exact_mod_cast h

theorem digitProduct_nonneg (factors : List Nat) : ∀ n, 0 ≤ digitProduct factors n := by
  induction factors with
  | nil => exact fun _ => zero_le_one
  | cons factor factors ih =>
    intro n
    have hf : (0 : Rat) ≤ factor / q128 := div_nonneg (Nat.cast_nonneg _) q128_pos.le
    rw [digitProduct]
    refine mul_nonneg ?_ (ih (n / 2))
    split_ifs
    · exact hf
    · exact zero_le_one

theorem digitProduct_le_one {factors : List Nat} (h : ∀ f ∈ factors, f ≤ q128) :
    ∀ n, digitProduct factors n ≤ 1 := by
  induction factors with
  | nil => exact fun _ => le_refl 1
  | cons factor factors ih =>
    intro n
    have hf : (factor : Rat) / q128 ≤ 1 := by
      rw [div_le_one q128_pos]
      exact_mod_cast h factor (List.mem_cons_self ..)
    have hrest := ih (fun f hm => h f (List.mem_cons_of_mem _ hm)) (n / 2)
    rw [digitProduct]
    refine mul_le_one₀ ?_ (digitProduct_nonneg factors _) hrest
    split_ifs
    · exact hf
    · exact le_refl 1

/-- **The product at the next number is smaller.**  Adding one clears the digits at the end that are
set, up to the first one that is not; `a` is the product of the factors of those cleared so far. -/
theorem digitProduct_succ {c : Rat} {factors : List Nat} :
    ∀ {a : Rat} {n : Nat}, Descends c a factors → n + 1 < 2 ^ factors.length →
      c * digitProduct factors (n + 1) ≤ a * digitProduct factors n := by
  induction factors with
  | nil =>
    intro a n _ hn
    exact absurd hn (by simp)
  | cons factor factors ih =>
    intro a n ⟨hfirst, hrest⟩ hn
    rw [List.length_cons, pow_succ] at hn
    rw [digitProduct, digitProduct]
    by_cases hd : n % 2 = 1
    · have hcarry := ih hrest (n := n / 2) (by omega)
      rw [if_neg (by omega), if_pos hd, (by omega : (n + 1) / 2 = n / 2 + 1), one_mul]
      calc c * digitProduct factors (n / 2 + 1)
          ≤ a * (factor / q128) * digitProduct factors (n / 2) := hcarry
        _ = a * (factor / q128 * digitProduct factors (n / 2)) := mul_assoc ..
    · rw [if_pos (by omega), if_neg hd, (by omega : (n + 1) / 2 = n / 2), one_mul, ← mul_assoc]
      exact mul_le_mul_of_nonneg_right hfirst (digitProduct_nonneg factors _)

/-- Rounding down after each factor loses less than one for each of them. -/
theorem scaleByDigits_near {factors : List Nat} (h : ∀ f ∈ factors, f ≤ q128) :
    ∀ n ratio, (scaleByDigits factors n ratio : Rat) ≤ ratio * digitProduct factors n ∧
      ratio * digitProduct factors n ≤ scaleByDigits factors n ratio + factors.length := by
  induction factors with
  | nil =>
    intro n ratio
    simp [scaleByDigits, digitProduct]
  | cons factor factors ih =>
    intro n ratio
    have hrest := fun f hm => h f (List.mem_cons_of_mem _ hm)
    have hnonneg := digitProduct_nonneg factors (n / 2)
    have hone := digitProduct_le_one hrest (n / 2)
    rw [scaleByDigits, digitProduct, List.length_cons, Nat.cast_succ]
    by_cases hd : n % 2 = 1
    · obtain ⟨hl, hu⟩ := ih hrest (n / 2) (ratio * factor / q128)
      have hdown : ((ratio * factor / q128 : Nat) : Rat) ≤ ratio * (factor / q128) := by
        have h := Nat.cast_div_le (α := Rat) (m := ratio * factor) (n := q128)
        rwa [Nat.cast_mul, mul_div_assoc] at h
      have hup : (ratio : Rat) * (factor / q128) ≤ (ratio * factor / q128 : Nat) + 1 := by
        have h : ratio * factor < (ratio * factor / q128 + 1) * q128 :=
          Nat.lt_mul_of_div_lt (Nat.lt_succ_self _) (by decide)
        rw [← mul_div_assoc, div_le_iff₀ q128_pos]
        exact_mod_cast h.le
      rw [if_pos hd, if_pos hd, ← mul_assoc]
      refine ⟨le_trans hl (mul_le_mul_of_nonneg_right hdown hnonneg), ?_⟩
      have hstep := mul_le_mul_of_nonneg_right hup hnonneg
      linarith
    · obtain ⟨hl, hu⟩ := ih hrest (n / 2) ratio
      rw [if_neg hd, if_neg hd, one_mul]
      exact ⟨hl, by linarith⟩

/-! ### Ratios -/

/-- The ratio at a tick below zero without any rounding, as a number between zero and one. -/
def exactRatio (n : Nat) : Rat :=
  digitProduct digitFactors n

theorem digitFactors_descend : Descends (25001 / 25000) 1 digitFactors := by
  norm_num [Descends, digitFactors, q128]

theorem exactRatio_succ {n : Nat} (h : n + 1 < 2 ^ 20) :
    25001 / 25000 * exactRatio (n + 1) ≤ exactRatio n := by
  have hs := digitProduct_succ digitFactors_descend h
  rwa [one_mul] at hs

theorem exactRatio_anti {n m : Nat} (h : n ≤ m) (hm : m < 2 ^ 20) :
    exactRatio m ≤ exactRatio n := by
  induction m, h using Nat.le_induction with
  | base => exact le_refl _
  | succ m hn ih =>
    have hs := exactRatio_succ hm
    have hp : 0 ≤ exactRatio (m + 1) := digitProduct_nonneg digitFactors _
    have hi := ih (by omega)
    linarith

theorem ratioBelow_near (n : Nat) :
    (ratioBelow n : Rat) ≤ q128 * exactRatio n ∧ q128 * exactRatio n ≤ ratioBelow n + 20 :=
  scaleByDigits_near digitFactors_le n q128

/-- The greatest number of ticks below zero, and above it. -/
def tickCount : Nat := greatestTick.toNat

/-- The ratio at a tick in range has more than 64 binary digits, but for the rounding. -/
theorem le_ratioBelow {n : Nat} (h : n ≤ tickCount) : 2 ^ 64 ≤ ratioBelow n + 20 := by
  have hleast : 2 ^ 64 ≤ ratioBelow tickCount := by decide
  have hanti := exactRatio_anti h (by decide)
  have hcast : ((2 ^ 64 : Nat) : Rat) ≤ (ratioBelow n + 20 : Nat) := by
    calc ((2 ^ 64 : Nat) : Rat)
        ≤ ratioBelow tickCount := by exact_mod_cast hleast
      _ ≤ q128 * exactRatio tickCount := (ratioBelow_near tickCount).1
      _ ≤ q128 * exactRatio n := mul_le_mul_of_nonneg_left hanti q128_pos.le
      _ ≤ (ratioBelow n + 20 : Nat) := by push_cast; exact (ratioBelow_near n).2
  exact_mod_cast hcast

/-- **Ratios fall from tick to tick**, rounding included. -/
theorem ratioBelow_succ {n : Nat} (h : n < tickCount) :
    100003 * ratioBelow (n + 1) ≤ 100000 * ratioBelow n := by
  have hlarge := le_ratioBelow h.le
  have hn : n + 1 < 2 ^ 20 := lt_of_le_of_lt h (by decide)
  have hs := mul_le_mul_of_nonneg_left (exactRatio_succ hn) q128_pos.le
  have hl := (ratioBelow_near (n + 1)).1
  have hu := (ratioBelow_near n).2
  have hcast : ((25001 * ratioBelow (n + 1) : Nat) : Rat) ≤ (25000 * (ratioBelow n + 20) : Nat) := by
    push_cast
    linarith
  have hnat : 25001 * ratioBelow (n + 1) ≤ 25000 * (ratioBelow n + 20) := by exact_mod_cast hcast
  omega

/-! ### Prices -/

/-- Numbers that differ by one with 96 fraction bits differ when they are rounded up to them. -/
theorem roundUp_lt_roundUp {m n : Nat} (h : m + q32 ≤ n) : roundUp m < roundUp n := by
  have hq : q32 = 2 ^ 32 := rfl
  rw [hq] at h
  rw [roundUp, roundUp, hq]
  split_ifs <;> omega

theorem sqrtPrice_neg (n : Nat) : sqrtPrice (-(n : Int)) = roundUp (ratioBelow n) := by
  rw [sqrtPrice, if_neg (by omega), Int.natAbs_neg, Int.natAbs_natCast]

/-- At tick zero, too, the price is computed as those above it are. -/
theorem sqrtPrice_natCast (n : Nat) :
    sqrtPrice n = roundUp ((Word.capacity - 1) / ratioBelow n) := by
  cases n with
  | zero => decide
  | succ n => rw [sqrtPrice, if_pos (by omega), Int.natAbs_natCast]

theorem sqrtPrice_neg_succ_lt {n : Nat} (h : n < tickCount) :
    sqrtPrice (-((n + 1 : Nat) : Int)) < sqrtPrice (-(n : Int)) := by
  have hs := ratioBelow_succ h
  have hlarge := le_ratioBelow h.le
  have hq : q32 = 2 ^ 32 := rfl
  rw [sqrtPrice_neg, sqrtPrice_neg]
  apply roundUp_lt_roundUp
  omega

theorem sqrtPrice_lt_natCast_succ {n : Nat} (h : n < tickCount) :
    sqrtPrice n < sqrtPrice ((n + 1 : Nat) : Int) := by
  have hs := ratioBelow_succ h
  have hle := ratioBelow_le (n + 1)
  have hq : q32 = 2 ^ 32 := rfl
  have hq' : q128 = 2 ^ 128 := rfl
  have hc : Word.capacity - 1 = 2 ^ 256 - 1 := rfl
  rw [sqrtPrice_natCast, sqrtPrice_natCast]
  apply roundUp_lt_roundUp
  rw [Nat.le_div_iff_mul_le (ratioBelow_pos _), add_mul]
  -- The quotient times the smaller ratio leaves more than a 50000th of the dividend, which is far more.
  have hquot : (Word.capacity - 1) / ratioBelow n * ratioBelow n ≤ Word.capacity - 1 :=
    Nat.div_mul_le_self ..
  have hscaled : 100003 * ((Word.capacity - 1) / ratioBelow n * ratioBelow (n + 1)) ≤
      100000 * (Word.capacity - 1) := by
    calc 100003 * ((Word.capacity - 1) / ratioBelow n * ratioBelow (n + 1))
        = (Word.capacity - 1) / ratioBelow n * (100003 * ratioBelow (n + 1)) := by ring
      _ ≤ (Word.capacity - 1) / ratioBelow n * (100000 * ratioBelow n) :=
        Nat.mul_le_mul_left _ hs
      _ = 100000 * ((Word.capacity - 1) / ratioBelow n * ratioBelow n) := by ring
      _ ≤ 100000 * (Word.capacity - 1) := Nat.mul_le_mul_left _ hquot
  generalize (Word.capacity - 1) / ratioBelow n * ratioBelow (n + 1) = product at hscaled ⊢
  rw [hc] at hscaled ⊢
  rw [hq'] at hle
  rw [hq]
  omega

theorem sqrtPrice_succ {tick : Int} (hl : leastTick ≤ tick) (hg : tick < greatestTick) :
    sqrtPrice tick < sqrtPrice (tick + 1) := by
  have hlow : leastTick = -887272 := rfl
  have hhigh : greatestTick = 887272 := rfl
  have hcount : tickCount = 887272 := rfl
  by_cases h : 0 ≤ tick
  · obtain ⟨n, rfl⟩ := Int.eq_ofNat_of_zero_le h
    exact sqrtPrice_lt_natCast_succ (by omega)
  · obtain ⟨n, hn⟩ := Int.eq_ofNat_of_zero_le (by omega : 0 ≤ -(tick + 1))
    obtain rfl : tick = -((n + 1 : Nat) : Int) := by omega
    have hnext : -((n + 1 : Nat) : Int) + 1 = -(n : Int) := by omega
    rw [hnext]
    exact sqrtPrice_neg_succ_lt (by omega)

/-- **Prices rise strictly** from the least tick to the greatest one. -/
theorem sqrtPrice_strictMono {tick above : Int} (hl : leastTick ≤ tick) (h : tick < above)
    (hg : above ≤ greatestTick) : sqrtPrice tick < sqrtPrice above := by
  induction above, Int.add_one_le_of_lt h using Int.leInduction with
  | base => exact sqrtPrice_succ hl (by omega)
  | succ above hab ih =>
    exact lt_trans (ih (by omega) (by omega)) (sqrtPrice_succ (by omega) (by omega))

theorem sqrtPrice_mono {tick above : Int} (hl : leastTick ≤ tick) (h : tick ≤ above)
    (hg : above ≤ greatestTick) : sqrtPrice tick ≤ sqrtPrice above := by
  rcases h.eq_or_lt with rfl | h
  · exact le_refl _
  · exact (sqrtPrice_strictMono hl h hg).le

theorem sqrtPrice_leastTick : sqrtPrice leastTick = leastSqrtPrice := by decide

theorem sqrtPrice_greatestTick : sqrtPrice greatestTick = greatestSqrtPrice := by decide

theorem sqrtPriceAt_of_mem {tick : Int} (hl : leastTick ≤ tick) (hg : tick ≤ greatestTick) :
    sqrtPriceAt tick = .ok (sqrtPrice tick) := by
  have hlow : leastTick = -887272 := rfl
  have hhigh : greatestTick = 887272 := rfl
  exact if_pos (by omega)

/-! ### Searching -/

/-- **A search by halving finds the greatest tick whose price is not above the given one**: this is so
at the lower end of every interval on the way, and all ticks above the upper end are too dear. -/
theorem search_greatest {price : Nat} {low high : Int} (h : low ≤ high) (hl : leastTick ≤ low)
    (hg : high ≤ greatestTick) (hlow : sqrtPrice low ≤ price)
    (hhigh : ∀ tick, high < tick → tick ≤ greatestTick → price < sqrtPrice tick) :
    sqrtPrice (search price low high) ≤ price ∧
      ∀ tick, search price low high < tick → tick ≤ greatestTick → price < sqrtPrice tick := by
  fun_induction search price low high with
  | case1 low high hlt middle hm ih => exact ih (by omega) (by omega) hg hm hhigh
  | case2 low high hlt middle hm ih =>
    refine ih (by omega) hl (by omega) hlow fun tick ht htg => ?_
    exact lt_of_lt_of_le (not_le.mp hm) (sqrtPrice_mono (by omega) (by omega) htg)
  | case3 low high hlt =>
    obtain rfl : low = high := by omega
    exact ⟨hlow, hhigh⟩

theorem tickAt_of_mem {price : Nat} (hl : leastSqrtPrice ≤ price) (hg : price ≤ greatestSqrtPrice) :
    ∃ tick, tickAt price = .ok tick ∧ leastTick ≤ tick ∧ tick ≤ greatestTick ∧
      sqrtPrice tick ≤ price ∧
      ∀ above, tick < above → above ≤ greatestTick → price < sqrtPrice above := by
  have hmem := search_mem price (by decide : leastTick ≤ greatestTick)
  have hlow : sqrtPrice leastTick ≤ price := by rwa [sqrtPrice_leastTick]
  have hs := search_greatest (by decide : leastTick ≤ greatestTick) (le_refl _) (le_refl _) hlow
    fun tick ht htg => absurd ht (not_lt.mpr htg)
  exact ⟨search price leastTick greatestTick, if_pos ⟨hl, hg⟩, hmem.1, hmem.2, hs.1, hs.2⟩

/-- **The tick of a price is the greatest one whose price is not above it**, for every price in range;
and the price at every tick in range is in range, and its tick is the same again. -/
theorem tickAt_greatest :
    (∀ price, leastSqrtPrice ≤ price → price ≤ greatestSqrtPrice →
      ∃ tick root, tickAt price = .ok tick ∧ sqrtPriceAt tick = .ok root ∧ root ≤ price ∧
        ∀ above, tick < above → above ≤ greatestTick →
          ∃ dearer, sqrtPriceAt above = .ok dearer ∧ price < dearer) ∧
    ∀ tick, leastTick ≤ tick → tick ≤ greatestTick →
      ∃ root, sqrtPriceAt tick = .ok root ∧ leastSqrtPrice ≤ root ∧ root ≤ greatestSqrtPrice ∧
        tickAt root = .ok tick := by
  constructor
  · intro price hl hg
    obtain ⟨tick, ht, htl, htg, hle, hgt⟩ := tickAt_of_mem hl hg
    refine ⟨tick, sqrtPrice tick, ht, sqrtPriceAt_of_mem htl htg, hle, fun above ha hag => ?_⟩
    exact ⟨sqrtPrice above, sqrtPriceAt_of_mem (by omega) hag, hgt above ha hag⟩
  · intro tick hl hg
    have hroot : leastSqrtPrice ≤ sqrtPrice tick := by
      rw [← sqrtPrice_leastTick]
      exact sqrtPrice_mono (le_refl _) hl hg
    have hroot' : sqrtPrice tick ≤ greatestSqrtPrice := by
      rw [← sqrtPrice_greatestTick]
      exact sqrtPrice_mono hl hg (le_refl _)
    refine ⟨sqrtPrice tick, sqrtPriceAt_of_mem hl hg, hroot, hroot', ?_⟩
    obtain ⟨found, hf, hfl, hfg, hle, hgt⟩ := tickAt_of_mem hroot hroot'
    obtain rfl : found = tick := by
      rcases lt_trichotomy found tick with h | h | h
      · exact absurd (hgt tick h hg) (lt_irrefl _)
      · exact h
      · exact absurd (sqrtPrice_strictMono hl h hfg) (not_lt.mpr hle)
    exact hf

/-- The price one tick below one, and a price between it and the next one. -/
theorem tickAt_greatest_below_one :
    (∃ tick root, tickAt 79224201403219477170569942575 = .ok tick ∧ sqrtPriceAt tick = .ok root ∧
      root ≤ 79224201403219477170569942575 ∧
      ∀ above, tick < above → above ≤ greatestTick →
        ∃ dearer, sqrtPriceAt above = .ok dearer ∧ 79224201403219477170569942575 < dearer) ∧
    tickAt 79224201403219477170569942574 = .ok (-1) := by
  obtain ⟨hprice, htick⟩ := tickAt_greatest
  refine ⟨hprice _ (by decide) (by decide), ?_⟩
  obtain ⟨root, hr, -, -, ht⟩ := htick (-1) (by decide) (by decide)
  have he : sqrtPriceAt (-1) = .ok 79224201403219477170569942574 := by decide
  rw [he] at hr
  cases hr
  exact ht

end Pool

end WeiCalc

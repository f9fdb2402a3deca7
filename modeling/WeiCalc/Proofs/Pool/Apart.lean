import Mathlib

/-!
# Powers that stay away from integers

How close the multiples `2 ^ 96 * x ^ n` come to an integer from above, for all exponents `n` up to a
bound.  Many powers are looked at in one step: approximations of them are packed into the lanes of one
large number, a multiplication turns them into the powers that are some hundred exponents further, and
the fractions in all lanes are compared with the margin by one addition.

* `pack_mul`, `pack_add`, `pack_and`: operations on packed numbers are those on all lanes.
* `le_mod_of_apart`: **what the comparison of all lanes says about each of them.**
* `Above k p y`: `p` is the number `y`, rounded up, with a small relative error for each of `k` steps.
* `clear_of_allApart`: **the multiples of all powers are clear of the integers below them.**
* `RootOf a b x`: `x` is the square root of a ratio.
* `clear_below`, `clear_above`: the powers that the prices at ticks are made of.
-/

namespace WeiCalc

namespace Pool

/-! ### Packed numbers -/

/-- The number of bits of a lane. -/
def laneWidth : Nat := 544

/-- Numbers packed into the lanes of one number. -/
def pack : List Nat → Nat
  | [] => 0
  | x :: xs => x + 2 ^ laneWidth * pack xs

theorem pack_mul (xs : List Nat) (q : Nat) : pack xs * q = pack (xs.map (· * q)) := by
  induction xs with
  | nil => exact Nat.zero_mul q
  | cons x xs ih =>
    rw [List.map_cons, pack, pack, ← ih]
    ring

theorem pack_add (xs : List Nat) (f : Nat → Nat) (c : Nat) :
    pack (xs.map f) + pack (xs.map fun _ => c) = pack (xs.map fun x => f x + c) := by
  induction xs with
  | nil => rfl
  | cons x xs ih =>
    simp only [List.map_cons, pack, ← ih]
    ring

/-- The conjunction of two numbers is the one of their lowest lanes and of those above. -/
theorem and_add_mul {x y a b : Nat} (hx : x < 2 ^ laneWidth) (hy : y < 2 ^ laneWidth) :
    (x + 2 ^ laneWidth * a) &&& (y + 2 ^ laneWidth * b) =
      (x &&& y) + 2 ^ laneWidth * (a &&& b) := by
  have hxy : x &&& y < 2 ^ laneWidth := lt_of_le_of_lt Nat.and_le_left hx
  refine Nat.eq_of_testBit_eq fun i => ?_
  rw [Nat.testBit_and, add_comm x, add_comm y, add_comm (x &&& y), Nat.testBit_two_pow_mul_add a hx,
    Nat.testBit_two_pow_mul_add b hy, Nat.testBit_two_pow_mul_add _ hxy]
  split_ifs
  · rw [Nat.testBit_and]
  · rw [Nat.testBit_and]

theorem pack_and {xs : List Nat} {f : Nat → Nat} {c : Nat} (hf : ∀ x ∈ xs, f x < 2 ^ laneWidth)
    (hc : c < 2 ^ laneWidth) :
    pack (xs.map f) &&& pack (xs.map fun _ => c) = pack (xs.map fun x => f x &&& c) := by
  induction xs with
  | nil => exact Nat.zero_and 0
  | cons x xs ih =>
    simp only [List.map_cons, pack]
    rw [and_add_mul (hf x (List.mem_cons_self ..)) hc,
      ih fun y hy => hf y (List.mem_cons_of_mem _ hy)]

/-- Packed numbers are equal only if they are in every lane. -/
theorem eq_of_pack_eq {xs : List Nat} {f g : Nat → Nat} (hf : ∀ x ∈ xs, f x < 2 ^ laneWidth)
    (hg : ∀ x ∈ xs, g x < 2 ^ laneWidth) (h : pack (xs.map f) = pack (xs.map g)) :
    ∀ x ∈ xs, f x = g x := by
  induction xs with
  | nil => exact fun x hx => absurd hx List.not_mem_nil
  | cons x xs ih =>
    simp only [List.map_cons, pack] at h
    have hfx := hf x (List.mem_cons_self ..)
    have hgx := hg x (List.mem_cons_self ..)
    have hlow : f x = g x := by
      have hm := congrArg (· % 2 ^ laneWidth) h
      simpa only [Nat.add_mul_mod_self_left, Nat.mod_eq_of_lt hfx, Nat.mod_eq_of_lt hgx] using hm
    have hhigh : pack (xs.map f) = pack (xs.map g) := by
      rw [hlow] at h
      exact Nat.eq_of_mul_eq_mul_left (Nat.two_pow_pos _) (Nat.add_left_cancel h)
    intro y hy
    rcases List.mem_cons.mp hy with rfl | hy
    · exact hlow
    · exact ih (fun z hz => hf z (List.mem_cons_of_mem _ hz))
        (fun z hz => hg z (List.mem_cons_of_mem _ hz)) hhigh y hy

/-! ### The fractions in all lanes -/

/-- The number of fraction bits of a lane. -/
def laneFraction : Nat := 416

/-- What fractions are compared with. -/
def margin : Nat := 6000 * 2 ^ 384

/-- Packed powers and, for their comparison, what takes the fractions out of the lanes, what lifts those
that are not below the margin to one, and one. -/
structure Lanes where
  powers : Nat
  fractions : Nat
  lift : Nat
  ones : Nat

/-- The lanes of powers. -/
def Lanes.of (xs : List Nat) : Lanes :=
  ⟨pack xs, pack (xs.map fun _ => 2 ^ laneFraction - 1),
    pack (xs.map fun _ => 2 ^ laneFraction - margin), pack (xs.map fun _ => 2 ^ laneFraction)⟩

/-- Are the fractions of all powers times `q` not below the margin? -/
def Lanes.apart (t : Lanes) (q : Nat) : Bool :=
  ((t.powers * q &&& t.fractions) + t.lift) &&& t.ones == t.ones

/-- The same for `count` numbers in place of `q`, each of them `step` times the one before. -/
def Lanes.allApart (t : Lanes) (step : Nat) : (count : Nat) → (q : Nat) → Bool
  | 0, _ => true
  | count + 1, q => t.apart q && t.allApart step count (q * step / 2 ^ 256 + 1)

/-- **If the comparison of all lanes succeeds, it would for each of them**: a fraction that is lifted to
one is not below the margin. -/
theorem le_mod_of_apart {xs : List Nat} {q : Nat} (hx : ∀ x ∈ xs, x * q < 2 ^ laneWidth)
    (h : (Lanes.of xs).apart q = true) : ∀ x ∈ xs, margin ≤ x * q % 2 ^ laneFraction := by
  have hw : laneWidth = 544 := rfl
  have hd : laneFraction = 416 := rfl
  have hm : margin = 6000 * 2 ^ 384 := rfl
  have hmod : ∀ n, n % 2 ^ laneFraction < 2 ^ laneFraction := fun n =>
    Nat.mod_lt n (Nat.two_pow_pos _)
  have hlift : ∀ x ∈ xs,
      x * q % 2 ^ laneFraction + (2 ^ laneFraction - margin) < 2 ^ laneWidth := by
    intro x _
    have hlt := hmod (x * q)
    rw [hd, hm] at *
    rw [hw]
    omega
  have hones : ∀ x ∈ xs, 2 ^ laneFraction < 2 ^ laneWidth := fun _ _ => by decide +kernel
  rw [Lanes.apart, beq_iff_eq, Lanes.of] at h
  simp only at h
  rw [pack_mul, pack_and hx (by decide +kernel)] at h
  simp only [Nat.and_two_pow_sub_one_eq_mod] at h
  rw [pack_add, pack_and hlift (by decide +kernel)] at h
  intro x hmem
  have hlane := eq_of_pack_eq (fun y hy => lt_of_le_of_lt Nat.and_le_right (hones y hy)) hones h x hmem
  have hbit := congrArg (·.testBit laneFraction) hlane
  simp only [Nat.testBit_and, Nat.testBit_two_pow_self, Bool.and_true] at hbit
  have hge := Nat.ge_two_pow_of_testBit hbit
  have hlt := hmod (x * q)
  rw [hd, hm] at *
  omega

/-! ### Powers that are rounded up -/

/-- A small number in a sum with one, to a power, is not far from its multiple. -/
theorem one_add_pow_mul_le {d : ℝ} (hd : 0 ≤ d) (h : d ≤ 1) (k : ℕ) :
    (1 + d) ^ k * (1 - k * d) ≤ 1 := by
  have hb : 1 - k * d ≤ (1 - d) ^ k := by
    have hk := one_add_mul_le_pow (a := -d) (by linarith) k
    rwa [mul_neg, ← sub_eq_add_neg, ← sub_eq_add_neg] at hk
  calc (1 + d) ^ k * (1 - k * d)
      ≤ (1 + d) ^ k * (1 - d) ^ k := mul_le_mul_of_nonneg_left hb (by positivity)
    _ = (1 - d ^ 2) ^ k := by rw [← mul_pow]; ring
    _ ≤ 1 := pow_le_one₀ (by nlinarith) (by nlinarith)

/-- A number rounded up in at most `k` steps, each of them with a relative error of `1 / 2 ^ 160` at
most. -/
structure Above (k p : ℕ) (y : ℝ) : Prop where
  le : y ≤ p
  ge : p ≤ y * (1 + 1 / 2 ^ 160) ^ k

namespace Above

variable {k m p q : ℕ} {y z : ℝ}

theorem mono (hy : 0 ≤ y) (h : Above k p y) (hk : k ≤ m) : Above m p y :=
  ⟨h.le, h.ge.trans (mul_le_mul_of_nonneg_left (pow_le_pow_right₀ (by norm_num) hk) hy)⟩

/-- The product of two approximations. -/
theorem mul (hy : 0 ≤ y) (hz : 0 ≤ z) (h : Above k p y) (h' : Above m q z) :
    Above (k + m) (p * q) (y * z) := by
  refine ⟨?_, ?_⟩
  · push_cast
    exact mul_le_mul h.le h'.le hz (le_trans hy h.le)
  · push_cast
    calc (p : ℝ) * q
        ≤ y * (1 + 1 / 2 ^ 160) ^ k * (z * (1 + 1 / 2 ^ 160) ^ m) :=
          mul_le_mul h.ge h'.ge (Nat.cast_nonneg _) (by positivity)
      _ = y * z * (1 + 1 / 2 ^ 160) ^ (k + m) := by rw [pow_add]; ring

/-- Rounding up with 256 bits less is one step, if there are 160 bits left. -/
theorem shift (h : Above k p (2 ^ 256 * y)) (hy : 2 ^ 160 ≤ y) :
    Above (k + 1) (p / 2 ^ 256 + 1) y := by
  have hle : y ≤ p / 2 ^ 256 := by
    rw [le_div_iff₀ (by positivity), mul_comm]
    exact h.le
  have hdown : ((p / 2 ^ 256 : ℕ) : ℝ) ≤ p / 2 ^ 256 := by
    have hc := Nat.cast_div_le (α := ℝ) (m := p) (n := 2 ^ 256)
    rwa [Nat.cast_pow, Nat.cast_ofNat] at hc
  have hup : (p : ℝ) / 2 ^ 256 ≤ (p / 2 ^ 256 : ℕ) + 1 := by
    have hlt : p < (p / 2 ^ 256 + 1) * 2 ^ 256 :=
      Nat.lt_mul_of_div_lt (Nat.lt_succ_self _) (Nat.two_pow_pos _)
    rw [div_le_iff₀ (by positivity)]
    exact_mod_cast hlt.le
  have hge : (p : ℝ) / 2 ^ 256 ≤ y * (1 + 1 / 2 ^ 160) ^ k := by
    rw [div_le_iff₀ (by positivity)]
    linarith [h.ge]
  refine ⟨?_, ?_⟩
  · push_cast
    linarith
  · push_cast
    calc ((p / 2 ^ 256 : ℕ) : ℝ) + 1
        ≤ p / 2 ^ 256 * (1 + 1 / 2 ^ 160) := by
          have hone : (1 : ℝ) ≤ p / 2 ^ 256 * (1 / 2 ^ 160) := by
            rw [mul_one_div, one_le_div (by positivity)]
            linarith
          linarith
      _ ≤ y * (1 + 1 / 2 ^ 160) ^ k * (1 + 1 / 2 ^ 160) :=
          mul_le_mul_of_nonneg_right hge (by positivity)
      _ = y * (1 + 1 / 2 ^ 160) ^ (k + 1) := by rw [pow_succ]; ring

/-- After a few million steps the relative error is still small. -/
theorem near (hy : 0 ≤ y) (h : Above k p y) (hk : k ≤ 2 ^ 22) : p ≤ y * (1 + 1 / 2 ^ 137) := by
  have hd : (k : ℝ) * (1 / 2 ^ 160) ≤ 1 / 2 ^ 138 := by
    have hc : (k : ℝ) ≤ 2 ^ 22 := by exact_mod_cast hk
    calc (k : ℝ) * (1 / 2 ^ 160)
        ≤ 2 ^ 22 * (1 / 2 ^ 160) := mul_le_mul_of_nonneg_right hc (by positivity)
      _ = 1 / 2 ^ 138 := by norm_num
  have hpow : (1 + 1 / 2 ^ 160 : ℝ) ^ k ≤ 1 + 1 / 2 ^ 137 := by
    have hb := one_add_pow_mul_le (d := 1 / 2 ^ 160) (by positivity) (by norm_num) k
    have hsmall : (1 : ℝ) ≤ (1 + 1 / 2 ^ 137) * (1 - 1 / 2 ^ 138) := by norm_num
    have hpos : (0 : ℝ) < (1 + 1 / 2 ^ 160) ^ k := by positivity
    have hrest : (0 : ℝ) < 1 - 1 / 2 ^ 138 := by norm_num
    refine le_of_mul_le_mul_right ?_ hrest
    calc (1 + 1 / 2 ^ 160 : ℝ) ^ k * (1 - 1 / 2 ^ 138)
        ≤ (1 + 1 / 2 ^ 160) ^ k * (1 - k * (1 / 2 ^ 160)) :=
          mul_le_mul_of_nonneg_left (by linarith) hpos.le
      _ ≤ 1 := hb
      _ ≤ (1 + 1 / 2 ^ 137) * (1 - 1 / 2 ^ 138) := hsmall
  exact h.ge.trans (mul_le_mul_of_nonneg_left hpow hy)

end Above

/-- The powers of a number with 256 fraction bits, `count` of them from `p` on, rounded up. -/
def powersAbove (s : Nat) : (count : Nat) → (p : Nat) → List Nat
  | 0, _ => []
  | count + 1, p => p :: powersAbove s count (p * s / 2 ^ 256 + 1)

/-- A positive number whose powers, up to a bound for the exponent, are of moderate size. -/
structure Moderate (x : ℝ) (bound : ℕ) : Prop where
  pos : 0 < x
  ge : ∀ n ≤ bound, 1 / 2 ^ 96 ≤ x ^ n
  le : ∀ n ≤ bound, x ^ n ≤ 900

/-- The multiple of a power is clear of the integer below it. -/
def Clear (x : ℝ) (n : ℕ) : Prop :=
  ∃ m : ℕ, m + 5998 / 2 ^ 32 ≤ 2 ^ 96 * x ^ n ∧ 2 ^ 96 * x ^ n < m + 1

section

variable {x : ℝ} {bound s : ℕ}

/-- One step further in the powers. -/
theorem above_step {k m i j p q : ℕ} (hx : Moderate x bound) (hb : i + j ≤ bound)
    (h : Above k p (2 ^ 256 * x ^ i)) (h' : Above m q (2 ^ 256 * x ^ j)) :
    Above (k + m + 1) (p * q / 2 ^ 256 + 1) (2 ^ 256 * x ^ (i + j)) := by
  have hpos := hx.pos
  refine Above.shift ?_ ?_
  · have hm := h.mul (by positivity) (by positivity) h'
    have he : 2 ^ 256 * x ^ i * (2 ^ 256 * x ^ j) = 2 ^ 256 * (2 ^ 256 * x ^ (i + j)) := by
      rw [pow_add]
      ring
    rwa [he] at hm
  · have hge := hx.ge (i + j) hb
    calc (2 : ℝ) ^ 160 = 2 ^ 256 * (1 / 2 ^ 96) := by norm_num
      _ ≤ 2 ^ 256 * x ^ (i + j) := mul_le_mul_of_nonneg_left hge (by positivity)

/-- **The powers in a table are approximations**, by induction on their number. -/
theorem above_powersAbove (hx : Moderate x bound) (hs : Above 1 s (2 ^ 256 * x)) {count : ℕ} :
    ∀ {k p i : ℕ}, k + count ≤ bound + 1 → Above (2 * k) p (2 ^ 256 * x ^ k) → i < count →
      ∃ a, (powersAbove s count p)[i]? = some a ∧
        Above (2 * (k + i)) a (2 ^ 256 * x ^ (k + i)) := by
  induction count with
  | zero =>
    intro k p i _ _ hi
    exact absurd hi (Nat.not_lt_zero i)
  | succ count ih =>
    intro k p i hb hp hi
    cases i with
    | zero => exact ⟨p, rfl, hp⟩
    | succ i =>
      rw [← pow_one x] at hs
      have hnext := above_step hx (by omega) hp hs
      obtain ⟨a, ha, hab⟩ := ih (k := k + 1) (by omega) hnext (Nat.lt_of_succ_lt_succ hi)
      refine ⟨a, ha, ?_⟩
      rwa [Nat.add_assoc, Nat.add_comm 1 i] at hab

/-- The product of approximations of powers is in units of the margin, which is 2 ^ 384 times as small as
the numbers in a lane. -/
theorem above_product {k m i j p q : ℕ} (hx : Moderate x bound) (hb : i + j ≤ bound)
    (hk : k + m ≤ 2 ^ 22) (h : Above k p (2 ^ 256 * x ^ i)) (h' : Above m q (2 ^ 256 * x ^ j)) :
    2 ^ 384 * (2 ^ 128 * x ^ (i + j)) ≤ (p * q : ℕ) ∧
      ((p * q : ℕ) : ℝ) ≤ 2 ^ 384 * (2 ^ 128 * x ^ (i + j) + 2) := by
  have hpos := hx.pos
  have hprod := h.mul (by positivity) (by positivity) h'
  have he : 2 ^ 256 * x ^ i * (2 ^ 256 * x ^ j) = 2 ^ 384 * (2 ^ 128 * x ^ (i + j)) := by
    have hsq : (2 : ℝ) ^ 256 * 2 ^ 256 = 2 ^ 384 * 2 ^ 128 := by rw [← pow_add, ← pow_add]
    calc 2 ^ 256 * x ^ i * (2 ^ 256 * x ^ j)
        = 2 ^ 256 * 2 ^ 256 * (x ^ i * x ^ j) := by ring
      _ = 2 ^ 384 * (2 ^ 128 * x ^ (i + j)) := by rw [hsq, pow_add, mul_assoc]
  rw [he] at hprod
  refine ⟨hprod.le, ?_⟩
  have hle := hx.le (i + j) hb
  have herror : 2 ^ 128 * x ^ (i + j) * (1 + 1 / 2 ^ 137) ≤ 2 ^ 128 * x ^ (i + j) + 2 := by
    linarith
  calc ((p * q : ℕ) : ℝ)
      ≤ 2 ^ 384 * (2 ^ 128 * x ^ (i + j)) * (1 + 1 / 2 ^ 137) := hprod.near (by positivity) hk
    _ = 2 ^ 384 * (2 ^ 128 * x ^ (i + j) * (1 + 1 / 2 ^ 137)) := mul_assoc ..
    _ ≤ 2 ^ 384 * (2 ^ 128 * x ^ (i + j) + 2) :=
        mul_le_mul_of_nonneg_left herror (by positivity)

/-- Approximations of powers that add up to an exponent, in a lane whose fraction is not below the margin,
have the power clear of the integer below it. -/
theorem clear_of_le_mod {k m i j p q : ℕ} (hx : Moderate x bound) (hb : i + j ≤ bound)
    (hk : k + m ≤ 2 ^ 22) (h : Above k p (2 ^ 256 * x ^ i)) (h' : Above m q (2 ^ 256 * x ^ j))
    (hmod : margin ≤ p * q % 2 ^ laneFraction) : Clear x (i + j) := by
  obtain ⟨hlower, hupper⟩ := above_product hx hb hk h h'
  have hfraction : (2 : ℝ) ^ 416 = 2 ^ 384 * 2 ^ 32 := by rw [← pow_add]
  have hunit : (0 : ℝ) < 2 ^ 384 := pow_pos zero_lt_two _
  refine ⟨p * q / 2 ^ 416, ?_, ?_⟩
  · have hlow : p * q / 2 ^ 416 * 2 ^ 416 + 6000 * 2 ^ 384 ≤ p * q := by
      have hdiv := Nat.div_add_mod' (p * q) (2 ^ 416)
      have hm : margin = 6000 * 2 ^ 384 := rfl
      have hd : laneFraction = 416 := rfl
      rw [hm, hd] at hmod
      omega
    have hcast : ((p * q / 2 ^ 416 : ℕ) : ℝ) * 2 ^ 416 + 6000 * 2 ^ 384 ≤ (p * q : ℕ) := by
      exact_mod_cast hlow
    rw [hfraction] at hcast
    have hcleared : ((p * q / 2 ^ 416 : ℕ) : ℝ) * 2 ^ 32 + 6000 ≤ 2 ^ 128 * x ^ (i + j) + 2 := by
      generalize (2 : ℝ) ^ 384 = unit at hunit hcast hupper
      refine le_of_mul_le_mul_left ?_ hunit
      linarith only [hcast, hupper]
    linarith only [hcleared]
  · have hlt : p * q < (p * q / 2 ^ 416 + 1) * 2 ^ 416 :=
      Nat.lt_mul_of_div_lt (Nat.lt_succ_self _) (pow_pos zero_lt_two _)
    have hcast : ((p * q : ℕ) : ℝ) < ((p * q / 2 ^ 416 : ℕ) + 1) * 2 ^ 416 := by
      exact_mod_cast hlt
    rw [hfraction] at hcast
    have hbelow : 2 ^ 128 * x ^ (i + j) < (((p * q / 2 ^ 416 : ℕ) : ℝ) + 1) * 2 ^ 32 := by
      generalize (2 : ℝ) ^ 384 = unit at hunit hcast hlower
      refine lt_of_mul_lt_mul_left ?_ hunit.le
      linarith only [hcast, hlower]
    linarith only [hbelow]

/-- Approximations of powers that add up to an exponent fit into a lane. -/
theorem lane_lt {k m i j p q : ℕ} (hx : Moderate x bound) (hb : i + j ≤ bound)
    (hk : k + m ≤ 2 ^ 22) (h : Above k p (2 ^ 256 * x ^ i)) (h' : Above m q (2 ^ 256 * x ^ j)) :
    p * q < 2 ^ laneWidth := by
  have hupper := (above_product hx hb hk h h').2
  have hle := hx.le (i + j) hb
  have hwidth : (2 : ℝ) ^ laneWidth = 2 ^ 384 * 2 ^ 160 := by rw [laneWidth, ← pow_add]
  have hcast : ((p * q : ℕ) : ℝ) < (2 ^ laneWidth : ℕ) := by
    rw [Nat.cast_pow, Nat.cast_ofNat, hwidth]
    refine lt_of_le_of_lt hupper (mul_lt_mul_of_pos_left ?_ (by positivity))
    linarith only [hle]
  exact Nat.cast_lt.mp hcast

@[simp] theorem length_powersAbove (s count p : ℕ) : (powersAbove s count p).length = count := by
  induction count generalizing p with
  | zero => rfl
  | succ count ih => rw [powersAbove, List.length_cons, ih]

/-- The number of powers in a table. -/
def laneCount : Nat := 256

/-- The powers of a number with 256 fraction bits, from the first one on. -/
def laneTable (s : Nat) : List Nat :=
  powersAbove s laneCount s

/-- The greatest power in the table. -/
def laneStep (s : Nat) : Nat :=
  (laneTable s)[255]?.getD 0

/-- Are `count` tables one after the other clear of integers? -/
def allClear (s count : Nat) : Bool :=
  (Lanes.of (laneTable s)).allApart (laneStep s) count (2 ^ 256)

/-- **The multiples of all powers are clear of the integers below them**, by induction on the number of
tables; `h` tables have been looked at before. -/
theorem clear_of_allApart (hx : Moderate x bound) (hs : Above 1 s (2 ^ 256 * x))
    (hsmall : bound ≤ 2 ^ 20) {count : ℕ} :
    ∀ {h q : ℕ}, 256 * (h + count) ≤ bound → Above (513 * h) q (2 ^ 256 * x ^ (256 * h)) →
      (Lanes.of (laneTable s)).allApart (laneStep s) count q = true →
      ∀ n, 256 * h < n → n ≤ 256 * (h + count) → Clear x n := by
  have hpos := hx.pos
  have hfirst : Above (2 * 1) s (2 ^ 256 * x ^ 1) := by
    rw [pow_one]
    exact hs.mono (by positivity) (by omega)
  have hlane : 256 ≤ bound → ∀ i < 256, ∃ a, (laneTable s)[i]? = some a ∧
      Above (2 * (1 + i)) a (2 ^ 256 * x ^ (1 + i)) :=
    fun hb i hi => above_powersAbove hx hs
      (by rw [laneCount]; omega) hfirst hi
  induction count with
  | zero =>
    intro h q _ _ _ n hn hn'
    omega
  | succ count ih =>
    intro h q hb hq hall n hn hn'
    rw [Lanes.allApart, Bool.and_eq_true] at hall
    have hfit : ∀ a ∈ laneTable s, a * q < 2 ^ laneWidth := by
      intro a ha
      obtain ⟨i, hi⟩ := List.getElem?_of_mem ha
      have hlt : i < 256 := by
        have hl := (List.getElem?_eq_some_iff.mp hi).1
        rwa [laneTable, length_powersAbove] at hl
      obtain ⟨a', ha', habove⟩ := hlane (by omega) i hlt
      rw [hi] at ha'
      cases ha'
      exact lane_lt hx (by omega) (by omega) habove hq
    by_cases hblock : n ≤ 256 * (h + 1)
    · obtain ⟨a, ha, habove⟩ := hlane (by omega) (n - 256 * h - 1) (by omega)
      have hmod := le_mod_of_apart hfit hall.1 a (List.mem_of_getElem? ha)
      have hc := clear_of_le_mod hx (by omega) (by omega) habove hq hmod
      have he : 1 + (n - 256 * h - 1) + 256 * h = n := by omega
      rwa [he] at hc
    · obtain ⟨a, ha, habove⟩ := hlane (by omega) 255 (by omega)
      have hstep : laneStep s = a := by rw [laneStep, ha]; rfl
      have hnext := above_step hx (by omega) hq habove
      have he : 256 * h + (1 + 255) = 256 * (h + 1) := by ring
      have hk : 513 * h + 2 * (1 + 255) + 1 = 513 * (h + 1) := by ring
      rw [he, hk, ← hstep] at hnext
      exact ih (by omega) hnext hall.2 n (by omega) (by omega)

/-- The multiples of the first powers are clear of the integers below them, if their comparison says so. -/
theorem clear_of_allClear (hx : Moderate x bound) (hs : Above 1 s (2 ^ 256 * x))
    (hsmall : bound ≤ 2 ^ 20) {count n : ℕ} (hb : 256 * count ≤ bound) (h : allClear s count = true)
    (hn : 0 < n) (hn' : n ≤ 256 * count) : Clear x n := by
  have hone : Above (513 * 0) (2 ^ 256) (2 ^ 256 * x ^ (256 * 0)) := by
    rw [Nat.mul_zero, pow_zero, mul_one]
    refine ⟨?_, ?_⟩
    · rw [Nat.cast_pow, Nat.cast_ofNat]
    · rw [Nat.cast_pow, Nat.cast_ofNat, pow_zero, mul_one]
  exact clear_of_allApart hx hs hsmall (h := 0) (by omega) hone h n (by omega) (by omega)

end

/-! ### Roots of ratios -/

/-- A positive number whose square is the ratio `a / b`. -/
structure RootOf (a b : ℕ) (x : ℝ) : Prop where
  pos : 0 < x
  below : 0 < b
  sq : x ^ 2 * b = a

namespace RootOf

variable {x : ℝ} {a b k : ℕ}

/-- A multiple of a root is not above a number if and only if its square is not. -/
theorem mul_le_iff {c d : ℕ} (h : RootOf a b x) : x * c ≤ d ↔ a * c ^ 2 ≤ d ^ 2 * b := by
  have hpos := h.pos
  have hb : (0 : ℝ) < b := Nat.cast_pos.mpr h.below
  calc x * c ≤ d
      ↔ (x * c) ^ 2 ≤ (d : ℝ) ^ 2 :=
        (pow_le_pow_iff_left₀ (by positivity) (by positivity) two_ne_zero).symm
    _ ↔ (x * c) ^ 2 * b ≤ (d : ℝ) ^ 2 * b := (mul_le_mul_iff_left₀ hb).symm
    _ ↔ (a : ℝ) * c ^ 2 ≤ (d : ℝ) ^ 2 * b := by rw [← h.sq, mul_pow, mul_right_comm]
    _ ↔ a * c ^ 2 ≤ d ^ 2 * b := by norm_cast

/-- It is not below a number if and only if its square is not. -/
theorem le_mul_iff {c d : ℕ} (h : RootOf a b x) : d ≤ x * c ↔ d ^ 2 * b ≤ a * c ^ 2 := by
  have hpos := h.pos
  have hb : (0 : ℝ) < b := Nat.cast_pos.mpr h.below
  calc d ≤ x * c
      ↔ (d : ℝ) ^ 2 ≤ (x * c) ^ 2 :=
        (pow_le_pow_iff_left₀ (by positivity) (by positivity) two_ne_zero).symm
    _ ↔ (d : ℝ) ^ 2 * b ≤ (x * c) ^ 2 * b := (mul_le_mul_iff_left₀ hb).symm
    _ ↔ (d : ℝ) ^ 2 * b ≤ (a : ℝ) * c ^ 2 := by rw [← h.sq, mul_pow, mul_right_comm]
    _ ↔ d ^ 2 * b ≤ a * c ^ 2 := by norm_cast

theorem le_one (h : RootOf a b x) (hab : a ≤ b) : x ≤ 1 := by
  have hle := (h.mul_le_iff (c := 1) (d := 1)).mpr (by omega)
  rwa [Nat.cast_one, mul_one] at hle

theorem one_le (h : RootOf a b x) (hab : b ≤ a) : 1 ≤ x := by
  have hle := (h.le_mul_iff (c := 1) (d := 1)).mpr (by omega)
  rwa [Nat.cast_one, mul_one] at hle

theorem inv (h : RootOf a b x) (ha : 0 < a) : RootOf b a x⁻¹ := by
  have hpos := h.pos
  refine ⟨inv_pos.mpr hpos, ha, ?_⟩
  rw [← h.sq]
  field_simp

theorem pow (h : RootOf a b x) (n : ℕ) : RootOf (a ^ n) (b ^ n) (x ^ n) := by
  refine ⟨pow_pos h.pos n, Nat.pow_pos h.below, ?_⟩
  rw [Nat.cast_pow, Nat.cast_pow, ← h.sq, mul_pow, ← pow_mul, ← pow_mul, mul_comm n 2]

/-- The square of a root is the root of the squares. -/
theorem square (h : RootOf a b x) : RootOf (a * a) (b * b) (x ^ 2) := by
  have hp := h.pow 2
  rwa [pow_two a, pow_two b] at hp

theorem of_sqrt {p : ℝ} (hp : 0 < p) (hb : 0 < b) (h : p * b = a) : RootOf a b √p :=
  ⟨Real.sqrt_pos.mpr hp, hb, by rw [Real.sq_sqrt hp.le, h]⟩

/-- A root, rounded up, as its square says. -/
theorem above {s : ℕ} (h : RootOf a b x) (hle : a * (2 ^ 256) ^ 2 ≤ s ^ 2 * b)
    (hge : (s * 2 ^ 160) ^ 2 * b ≤ a * (2 ^ 256 * (2 ^ 160 + 1)) ^ 2) :
    Above 1 s (2 ^ 256 * x) := by
  have hlower := h.mul_le_iff.mpr hle
  have hupper := h.le_mul_iff.mpr hge
  rw [Nat.cast_pow, Nat.cast_ofNat, mul_comm] at hlower
  refine ⟨hlower, ?_⟩
  refine le_of_mul_le_mul_right ?_ (by positivity : (0 : ℝ) < 2 ^ 160)
  calc (s : ℝ) * 2 ^ 160 ≤ x * (2 ^ 256 * (2 ^ 160 + 1)) := by exact_mod_cast hupper
    _ = 2 ^ 256 * x * (1 + 1 / 2 ^ 160) ^ 1 * 2 ^ 160 := by ring

/-- The root of a ratio that is not above one: the powers fall. -/
theorem moderate_of_le (h : RootOf a b x) (hab : a ≤ b) (hk : b ^ k ≤ a ^ k * 2 ^ 96) :
    Moderate x (2 * k) := by
  have hone := h.le_one hab
  have hpos := pow_pos h.pos (2 * k)
  refine ⟨h.pos, fun n hn => ?_, fun n _ => (pow_le_one₀ h.pos.le hone).trans (by norm_num)⟩
  refine le_trans ?_ (pow_le_pow_of_le_one h.pos.le hone hn)
  have hsq := (h.pow k).sq
  have hden : (0 : ℝ) < (b ^ k : ℕ) := Nat.cast_pos.mpr (h.pow k).below
  have hcast : ((b ^ k : ℕ) : ℝ) ≤ (a ^ k : ℕ) * 2 ^ 96 := by exact_mod_cast hk
  rw [← hsq, mul_right_comm, ← pow_mul, mul_comm k 2] at hcast
  rw [div_le_iff₀ (by positivity)]
  exact le_of_mul_le_mul_right (by rwa [one_mul]) hden

/-- The root of a ratio that is not below one: the powers rise. -/
theorem moderate_of_ge (h : RootOf a b x) (hab : b ≤ a) (hk : a ^ k ≤ b ^ k * 900) :
    Moderate x (2 * k) := by
  have hone := h.one_le hab
  refine ⟨h.pos, fun n _ => le_trans (by norm_num) (one_le_pow₀ hone), fun n hn => ?_⟩
  refine (pow_le_pow_right₀ hone hn).trans ?_
  have hsq := (h.pow k).sq
  have hden : (0 : ℝ) < (b ^ k : ℕ) := Nat.cast_pos.mpr (h.pow k).below
  have hcast : ((a ^ k : ℕ) : ℝ) ≤ (b ^ k : ℕ) * 900 := by exact_mod_cast hk
  rw [← hsq, mul_comm, ← pow_mul, mul_comm k 2] at hcast
  exact le_of_mul_le_mul_left hcast hden

end RootOf

/-! ### The roots of the price of a tick -/

theorem exists_rootOf : ∃ x, RootOf 10000 10001 x :=
  ⟨√(10000 / 10001), .of_sqrt (by positivity) (by decide) (by norm_num)⟩

/-- The square root of 10000 / 10001 with 256 fraction bits, rounded up. -/
def rootBelow : Nat :=
  115786300067038482391753887093657767501085101240603024788297167791289352648769

/-- The square root of 10001 / 10000 with 256 fraction bits, rounded up. -/
def rootAbove : Nat :=
  115797878697045186239993062482367133277835209750727085090775997508068481584034

theorem allClear_rootBelow : allClear rootBelow 3466 = true := by decide +kernel

theorem allClear_rootAbove : allClear rootAbove 512 = true := by decide +kernel

section

variable {x : ℝ} {n : ℕ}

theorem above_rootBelow (h : RootOf 10000 10001 x) : Above 1 rootBelow (2 ^ 256 * x) :=
  h.above (by decide +kernel) (by decide +kernel)

theorem above_rootAbove (h : RootOf 10001 10000 x) : Above 1 rootAbove (2 ^ 256 * x) :=
  h.above (by decide +kernel) (by decide +kernel)

theorem moderate_below (h : RootOf 10000 10001 x) : Moderate x (2 * 443648) :=
  h.moderate_of_le (by decide) (by decide +kernel)

theorem moderate_above (h : RootOf 10001 10000 x) : Moderate x (2 * 65536) :=
  h.moderate_of_ge (by decide) (by decide +kernel)

/-- **The root prices at all ticks below zero are clear of the integers below them.** -/
theorem clear_below (h : RootOf 10000 10001 x) (hn : 0 < n) (hn' : n ≤ 887296) : Clear x n :=
  clear_of_allClear (moderate_below h) (above_rootBelow h) (by decide) (by decide)
    allClear_rootBelow hn hn'

/-- **So are those at the ticks above zero**, up to the digit 17. -/
theorem clear_above (h : RootOf 10001 10000 x) (hn : 0 < n) (hn' : n ≤ 131072) : Clear x n :=
  clear_of_allClear (moderate_above h) (above_rootAbove h) (by decide) (by decide)
    allClear_rootAbove hn hn'

end

end Pool

end WeiCalc

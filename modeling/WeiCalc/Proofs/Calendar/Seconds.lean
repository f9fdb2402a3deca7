import Mathlib
import WeiCalc.Call.Result
import WeiCalc.Proofs.Abi.Word
import WeiCalc.Proofs.Arithmetic
import WeiCalc.Proofs.Calendar

/-!
# Moments in whole seconds

A moment is an exact number of seconds before or after the start of 1970, with at most six digits
behind the point.  Its timestamp is this number, rounded to 53 binary digits and then cut off toward
zero.  Rounding leaves the integer part alone unless the number is so close below an integer that it
merges with it, and cutting off makes zero of the last second before 1970.

* `Rounding.exponent_of_le`: the binary digits of the integer part of a quotient.
* `Rounding.floor_nearest`: the integer part of a rounded quotient.
* `Rounding.Merges`: a number so close below an integer that it is rounded to it.
* `Rounding.floor_nearest_micros`: the integer part of a rounded number of microseconds.
* `Moment.seconds_of_nonneg`, `Moment.seconds_of_neg`, `Moment.seconds_lt_zero`: the seconds of a
  moment.
* `Call.result_unix_text`: **the timestamp of a text that writes a moment.**
-/

namespace WeiCalc

/-! ### Rounding -/

namespace Rounding

variable {num den : Nat}

theorem log2_le {n k : Nat} (h : n < 2 ^ (k + 1)) : n.log2 ≤ k := by
  rcases Nat.eq_zero_or_pos n with rfl | hpos
  · exact Nat.zero_le k
  · exact Nat.le_of_lt_succ ((Nat.log2_lt hpos.ne').mpr h)

/-- A quotient of one or more has one binary digit more than the logarithm of its integer part. -/
theorem exponent_of_le (hd : 0 < den) (h : den ≤ num) :
    exponent num den = (num / den).log2 + 1 := by
  have hn : num ≠ 0 := by omega
  have hf : num / den ≠ 0 := (Nat.div_pos h hd).ne'
  have hnum := Nat.log2_self_le hn
  have hden := Nat.log2_self_le hd.ne'
  obtain ⟨k, hk⟩ := Nat.exists_eq_add_of_le ((Nat.le_log2 hn).mpr (hden.trans h))
  have he : (num.log2 : Int) - den.log2 = k := by omega
  have hz : (-(k : Int)).toNat = 0 := by omega
  rw [exponent]
  simp only [he, hz, Int.toNat_natCast, Nat.pow_eq, Nat.pow_zero, Nat.mul_one]
  split_ifs with hlt
  · -- The integer part is below `2 ^ k`, and not below half of it.
    have hfk : num / den < 2 ^ k := by
      rw [Nat.div_lt_iff_lt_mul hd, Nat.mul_comm]
      exact hlt
    obtain ⟨j, rfl⟩ : ∃ j, k = j + 1 := by
      refine Nat.exists_eq_add_of_le' (Nat.pos_of_ne_zero ?_)
      rintro rfl
      omega
    have hj : 2 ^ j ≤ num / den := by
      rw [Nat.le_div_iff_mul_le hd]
      calc 2 ^ j * den ≤ 2 ^ j * 2 ^ (den.log2 + 1) :=
            Nat.mul_le_mul_left _ Nat.lt_log2_self.le
        _ = 2 ^ num.log2 := by
            rw [← Nat.pow_add, hk]
            congr 1
            omega
        _ ≤ num := hnum
    rw [(Nat.log2_eq_iff hf).mpr ⟨hj, hfk⟩]
    push_cast
    rfl
  · have hk1 : num / den < 2 ^ (k + 1) := by
      rw [Nat.div_lt_iff_lt_mul hd]
      calc num < 2 ^ (num.log2 + 1) := Nat.lt_log2_self
        _ = 2 ^ (k + 1) * 2 ^ den.log2 := by
            rw [← Nat.pow_add, hk]
            congr 1
            omega
        _ ≤ 2 ^ (k + 1) * den := Nat.mul_le_mul_left _ hden
    have hk0 : 2 ^ k ≤ num / den := by
      rw [Nat.le_div_iff_mul_le hd, Nat.mul_comm]
      exact not_lt.mp hlt
    rw [(Nat.log2_eq_iff hf).mpr ⟨hk0, hk1⟩]

/-- A quotient below one has none. -/
theorem exponent_of_lt (hn : num ≠ 0) (h : num < den) : exponent num den ≤ 0 := by
  have hl : num.log2 ≤ den.log2 :=
    (Nat.le_log2 (by omega)).mpr ((Nat.log2_self_le hn).trans h.le)
  rw [exponent]
  split_ifs with hlt
  · omega
  · have hne : num.log2 ≠ den.log2 := by
      intro he
      refine hlt ?_
      simpa [he] using h
    omega

/-- An even multiple of the divisor stays apart from the rounding. -/
theorem toEven_add_mul (hd : 0 < den) {a : Nat} (ha : a % 2 = 0) (x : Nat) :
    toEven (x + a * den) den = toEven x den + a := by
  rw [toEven, toEven, Nat.add_mul_div_right _ _ hd, Nat.add_mul_mod_self_right]
  split_ifs <;> omega

/-- A quotient below an even number is rounded up to it if it is no farther than a half from it. -/
theorem toEven_of_lt {c x : Nat} (hc : c % 2 = 0) (hx : x < c * den) :
    toEven x den = c ∧ 2 * (c * den - x) ≤ den ∨ toEven x den < c ∧ den < 2 * (c * den - x) := by
  have hd : 0 < den := Nat.pos_of_ne_zero fun h => by simp [h] at hx
  have hq : x / den < c := (Nat.div_lt_iff_lt_mul hd).mpr hx
  have hr := Nat.mod_lt x hd
  have hsplit := Nat.div_add_mod x den
  obtain ⟨d, hcd⟩ := Nat.exists_eq_add_of_lt hq
  have hmul : c * den = den * (x / den) + d * den + den := by
    rw [hcd]
    ring
  rw [toEven]
  rcases Nat.eq_zero_or_pos d with rfl | hpos
  · rw [Nat.zero_mul] at hmul
    split_ifs <;> omega
  · have hle : den ≤ d * den := Nat.le_mul_of_pos_left den hpos
    split_ifs <;> omega

/-- **The integer part of a rounded quotient** with `k` binary digits behind the point. -/
theorem floor_nearest (hd : 0 < den) (hn : num ≠ 0) {k : Nat} (hk : 1 ≤ k)
    (he : exponent num den = digits - (k : Int)) :
    (nearest num den).floor =
      ((num / den + if 2 * (2 ^ k * (den - num % den)) ≤ den then 1 else 0 : Nat) : Int) := by
  have hshift : (digits : Int) - exponent num den = k := by omega
  have hz : (-(k : Int)).toNat = 0 := by omega
  have hpow : 0 < 2 ^ k := Nat.two_pow_pos k
  have heven : 2 ^ k % 2 = 0 := Nat.mod_eq_zero_of_dvd (dvd_pow_self 2 (by omega))
  have hfeven : num / den * 2 ^ k % 2 = 0 := by rw [Nat.mul_mod, heven, Nat.mul_zero, Nat.zero_mod]
  have hr := Nat.mod_lt num hd
  have hnum : num * 2 ^ k = num % den * 2 ^ k + num / den * 2 ^ k * den := by
    conv_lhs => rw [← Nat.mod_add_div num den]
    ring
  have hx : num % den * 2 ^ k < 2 ^ k * den := by
    rw [Nat.mul_comm]
    exact Nat.mul_lt_mul_of_pos_left hr hpow
  have hdist : 2 ^ k * den - num % den * 2 ^ k = 2 ^ k * (den - num % den) := by
    rw [Nat.mul_comm (num % den), ← Nat.mul_sub]
  have hround := toEven_of_lt heven hx
  rw [hdist] at hround
  rw [nearest, if_neg hn]
  simp only [hshift, hz, Int.toNat_natCast, Nat.pow_eq, Nat.pow_zero, Nat.mul_one, zpow_natCast]
  have hfloor : ∀ m : Nat, ((m : Rat) / 2 ^ k).floor = ((m / 2 ^ k : Nat) : Int) := by
    intro m
    have h := Rat.floor_intCast_div_natCast (m : Int) (2 ^ k)
    push_cast at h ⊢
    exact h
  rw [hfloor, hnum, toEven_add_mul hd hfeven, Nat.add_mul_div_right _ _ hpow, Nat.add_comm]
  rcases hround with ⟨ht, hle⟩ | ⟨ht, hlt⟩
  · rw [ht, Nat.div_self hpow, if_pos hle]
  · rw [Nat.div_eq_of_lt ht, if_neg (by omega)]

/-- A number so close below an integer that it is rounded to it: they are no farther apart than half
a unit of the last of 53 binary digits. -/
def Merges (q : Rat) : Prop :=
  2 ^ 53 * ((⌊q⌋ : Rat) + 1 - q) ≤ 2 ^ ⌊q⌋.toNat.log2

instance (q : Rat) : Decidable (Merges q) :=
  inferInstanceAs (Decidable (_ ≤ _))

theorem floor_micros (n : Nat) : ⌊(n : Rat) / 1000000⌋ = ((n / 1000000 : Nat) : Int) := by
  have h := Rat.floor_intCast_div_natCast (n : Int) 1000000
  push_cast at h ⊢
  exact h

theorem merges_micros {n : Nat} :
    Merges ((n : Rat) / 1000000) ↔
      2 ^ 53 * (1000000 - n % 1000000) ≤ 1000000 * 2 ^ (n / 1000000).log2 := by
  have hr := Nat.mod_lt n (by decide : 0 < 1000000)
  have hsplit : (n : Rat) = 1000000 * (n / 1000000 : Nat) + (n % 1000000 : Nat) := by
    exact_mod_cast (Nat.div_add_mod n 1000000).symm
  have hrest : ((1000000 - n % 1000000 : Nat) : Rat) = 1000000 - (n % 1000000 : Nat) := by
    rw [Nat.cast_sub hr.le]
    norm_num
  have hdist : ((n / 1000000 : Nat) : Rat) + 1 - n / 1000000 =
      ((1000000 - n % 1000000 : Nat) : Rat) / 1000000 := by
    rw [hrest, hsplit]
    field_simp
    ring
  rw [Merges, floor_micros, Int.toNat_natCast, Int.cast_natCast, hdist, ← mul_div_assoc,
    div_le_iff₀ (by norm_num), mul_comm ((2 : Rat) ^ (n / 1000000).log2)]
  exact_mod_cast Iff.rfl

/-- A number below one is not near enough to it: 53 binary digits tell millionths apart. -/
theorem floor_nearest_micros_of_lt {n : Nat} (hn : n ≠ 0) (h : n < 1000000) :
    (nearest n 1000000).floor = 0 := by
  have he := exponent_of_lt hn h
  have hdigits : digits = 53 := rfl
  obtain ⟨k, hk⟩ : ∃ k : Nat, exponent n 1000000 = digits - (k : Int) :=
    ⟨((digits : Int) - exponent n 1000000).toNat, by omega⟩
  have hpow : 2 ^ 53 ≤ 2 ^ k := Nat.pow_le_pow_right (by decide) (by omega)
  have hfar : ¬ 2 * (2 ^ k * (1000000 - n % 1000000)) ≤ 1000000 := by
    rw [Nat.mod_eq_of_lt h, not_le]
    have hone : 2 ^ k * 1 ≤ 2 ^ k * (1000000 - n) := Nat.mul_le_mul_left _ (by omega)
    omega
  rw [floor_nearest (by decide) hn (by omega) hk, if_neg hfar, Nat.div_eq_of_lt h]
  rfl

/-- **The integer part of a rounded number of microseconds** is that of the number, unless it merges
with the next one. -/
theorem floor_nearest_micros {n : Nat} (h : n < 10 ^ 18) :
    (nearest n 1000000).floor =
      ⌊(n : Rat) / 1000000⌋ + if Merges ((n : Rat) / 1000000) then 1 else 0 := by
  have hr := Nat.mod_lt n (by decide : 0 < 1000000)
  rw [floor_micros, ite_cond_congr (propext merges_micros)]
  rcases Nat.eq_zero_or_pos n with rfl | hn
  · rw [nearest, if_pos rfl, if_neg (by decide)]
    rfl
  rcases Nat.lt_or_ge n 1000000 with hlt | hge
  · have hfar : ¬ 2 ^ 53 * (1000000 - n % 1000000) ≤ 1000000 * 2 ^ (n / 1000000).log2 := by
      rw [Nat.div_eq_of_lt hlt, Nat.log2_zero]
      omega
    rw [floor_nearest_micros_of_lt hn.ne' hlt, if_neg hfar, Nat.div_eq_of_lt hlt]
    rfl
  · -- The integer part takes up to 40 binary digits, so that at least 13 stand behind the point.
    have hl : (n / 1000000).log2 ≤ 39 := log2_le (by omega)
    have hk : exponent n 1000000 = digits - ((52 - (n / 1000000).log2 : Nat) : Int) := by
      rw [exponent_of_le (by decide) hge, digits]
      omega
    have hscale : 2 * 2 ^ (52 - (n / 1000000).log2) * 2 ^ (n / 1000000).log2 = 2 ^ 53 := by
      rw [Nat.mul_assoc, ← Nat.pow_add, ← Nat.pow_succ']
      congr 1
      omega
    have hiff : 2 * (2 ^ (52 - (n / 1000000).log2) * (1000000 - n % 1000000)) ≤ 1000000 ↔
        2 ^ 53 * (1000000 - n % 1000000) ≤ 1000000 * 2 ^ (n / 1000000).log2 := by
      have hcomm : 2 * (2 ^ (52 - (n / 1000000).log2) * (1000000 - n % 1000000)) *
          2 ^ (n / 1000000).log2 = 2 * 2 ^ (52 - (n / 1000000).log2) *
          2 ^ (n / 1000000).log2 * (1000000 - n % 1000000) := by ring
      rw [← hscale, ← Nat.mul_le_mul_right_iff (Nat.two_pow_pos (n / 1000000).log2), hcomm]
    rw [floor_nearest (by decide) hn.ne' (by omega) hk, ite_cond_congr (propext hiff)]
    push_cast
    rfl

/-- Fewer than `2 ^ 34` seconds do not merge with the next full one. -/
theorem not_merges_of_lt {n : Nat} (h : n < 2 ^ 34 * 1000000) : ¬Merges ((n : Rat) / 1000000) := by
  have hr := Nat.mod_lt n (by decide : 0 < 1000000)
  have hf : n / 1000000 < 2 ^ 34 := by omega
  have hpow : 2 ^ (n / 1000000).log2 ≤ 2 ^ 33 := Nat.pow_le_pow_right (by decide) (log2_le hf)
  rw [merges_micros]
  omega

/-- An integer does not merge with the next one. -/
theorem not_merges_natCast {n : Nat} (h : n < 2 ^ 53) : ¬Merges n := by
  have hpow : (2 : Rat) ^ n.log2 ≤ 2 ^ 52 := pow_le_pow_right₀ (by norm_num) (log2_le h)
  rw [Merges, Int.floor_natCast, Int.toNat_natCast, Int.cast_natCast, add_sub_cancel_left, mul_one,
    not_le]
  exact hpow.trans_lt (by norm_num)

end Rounding

/-! ### Seconds of moments -/

namespace Moment

open Rounding

variable {m : Moment}

/-- The exact number of seconds since the start of 1970. -/
def exactSeconds (m : Moment) : Rat :=
  m.micros / 1000000

theorem natAbs_of_nonneg (h : 0 ≤ m.micros) :
    (m.micros.natAbs : Rat) / 1000000 = m.exactSeconds := by
  rw [exactSeconds, Nat.cast_natAbs, abs_of_nonneg h]

theorem exactSeconds_neg_iff : m.exactSeconds < 0 ↔ m.micros < 0 := by
  rw [exactSeconds, div_lt_iff₀ (by norm_num), zero_mul]
  exact_mod_cast Iff.rfl

theorem exactSeconds_le_iff : m.exactSeconds ≤ -1 ↔ m.micros ≤ -1000000 := by
  rw [exactSeconds, div_le_iff₀ (by norm_num), neg_one_mul]
  exact_mod_cast Iff.rfl

/-- **The seconds of a moment from 1970 on** are the integer part of its exact seconds, unless these
merge with the next integer. -/
theorem seconds_of_nonneg (h : m.Proper) (hq : 0 ≤ m.exactSeconds) :
    m.seconds = ⌊m.exactSeconds⌋ + if Merges m.exactSeconds then 1 else 0 := by
  have hmicros : 0 ≤ m.micros := not_lt.mp (mt exactSeconds_neg_iff.mpr (not_lt.mpr hq))
  rw [seconds, floor_nearest_micros (micros_natAbs_lt h), natAbs_of_nonneg hmicros]
  exact if_neg (not_lt.mpr hmicros)

/-- A moment of the last second before 1970 is cut off to zero. -/
theorem seconds_of_neg (hlt : -1 < m.exactSeconds) (hneg : m.exactSeconds < 0) :
    m.seconds = 0 := by
  have hmicros := exactSeconds_neg_iff.mp hneg
  have hsecond := mt exactSeconds_le_iff.mpr (not_le.mpr hlt)
  rw [seconds, floor_nearest_micros_of_lt (by omega) (by omega)]
  exact ite_self 0

/-- Every moment a whole second or more before 1970 has seconds below zero. -/
theorem seconds_lt_zero (h : m.Proper) (hq : m.exactSeconds ≤ -1) : m.seconds < 0 := by
  have hmicros := exactSeconds_le_iff.mp hq
  have hfloor := floor_nearest_micros (micros_natAbs_lt h)
  have hone : 1 ≤ m.micros.natAbs / 1000000 := by omega
  rw [floor_micros] at hfloor
  have hcarry : 0 ≤ (if Merges ((m.micros.natAbs : Rat) / 1000000) then 1 else 0 : Int) := by
    split_ifs <;> decide
  rw [seconds, if_pos (by omega)]
  omega

/-- The timestamp of a moment that is not refused: zero in the last second before 1970, and from then
on the integer part of the exact seconds, or the next integer if they merge with it. -/
def nominal (m : Moment) : Int :=
  if m.exactSeconds < 0 then 0
  else ⌊m.exactSeconds⌋ + if Merges m.exactSeconds then 1 else 0

theorem nominal_eq_floor (hq : 0 ≤ m.exactSeconds) (hlt : m.exactSeconds < 2 ^ 34) :
    m.nominal = ⌊m.exactSeconds⌋ := by
  have hmicros : 0 ≤ m.micros := not_lt.mp (mt exactSeconds_neg_iff.mpr (not_lt.mpr hq))
  have hbound : m.micros < 2 ^ 34 * 1000000 := by
    rw [exactSeconds, div_lt_iff₀ (by norm_num)] at hlt
    exact_mod_cast hlt
  have hno : ¬Merges m.exactSeconds := by
    rw [← natAbs_of_nonneg hmicros]
    exact not_merges_of_lt (by omega)
  rw [nominal, if_neg (not_lt.mpr hq), if_neg hno, add_zero]

/-- A moment a whole second or more before 1970 is refused. -/
theorem timestamp_of_le (h : m.Proper) (hq : m.exactSeconds ≤ -1) :
    m.timestamp = .error (.range (.beforeEpoch m.text)) :=
  if_pos (seconds_lt_zero h hq)

/-- Every later one has a timestamp. -/
theorem timestamp_of_lt (h : m.Proper) (hq : -1 < m.exactSeconds) :
    ∃ n : Nat, m.timestamp = .ok n ∧ (n : Int) = m.nominal := by
  have hseconds : m.seconds = m.nominal := by
    rw [nominal]
    split_ifs with hneg hmerges
    · exact seconds_of_neg hq hneg
    · rw [seconds_of_nonneg h (not_lt.mp hneg), if_pos hmerges]
    · rw [seconds_of_nonneg h (not_lt.mp hneg), if_neg hmerges]
  have hpos : 0 ≤ m.nominal := by
    rw [nominal]
    split_ifs with hneg hmerges
    · exact le_refl 0
    · exact add_nonneg (Int.floor_nonneg.mpr (not_lt.mp hneg)) zero_le_one
    · exact add_nonneg (Int.floor_nonneg.mpr (not_lt.mp hneg)) (le_refl 0)
  refine ⟨m.seconds.toNat, if_neg (not_lt.mpr (hseconds ▸ hpos)), ?_⟩
  rw [hseconds, Int.toNat_of_nonneg hpos]

/-- A timestamp is a value. -/
theorem value_timestamp {n : Nat} (h : m.Proper) (hn : m.timestamp = .ok n) :
    (liftM m.timestamp >>= Value.ofNat : Except Failure Value) =
      .ok (.number (BitVec.ofNat 256 n)) := by
  rw [hn]
  exact Abi.value_ofNat_of_lt (timestamp_lt h hn)

end Moment

/-! ### Calls -/

namespace Call

variable {text : String} {m : Moment} {n : Nat}

/-- The function answers the timestamp of the moment that its text writes. -/
theorem result_unix_text_eq (env : Environment) (text : String) (ds : Diagnostics) :
    result env ⟨.unix, [.value (.text text)]⟩ ds =
      (liftM ((liftM (Iso.ofText text) >>= fun m => liftM m.timestamp >>= Value.ofNat :
        Except Failure Value)) : Eval Value) ds := rfl

theorem result_unix_of_timestamp (env : Environment) (h : Iso.ofText text = .ok m)
    (hn : m.timestamp = .ok n) (ds : Diagnostics) :
    result env ⟨.unix, [.value (.text text)]⟩ ds = .ok (.number (BitVec.ofNat 256 n)) ds := by
  rw [result_unix_text_eq, h]
  change (liftM (liftM m.timestamp >>= Value.ofNat : Except Failure Value) : Eval Value) ds = _
  rw [Moment.value_timestamp (Iso.proper_of_ofText h) hn]
  rfl

theorem result_unix_of_refused (env : Environment) {cause : Cause} (h : Iso.ofText text = .ok m)
    (hn : m.timestamp = .error cause) (ds : Diagnostics) :
    result env ⟨.unix, [.value (.text text)]⟩ ds = .error (.error ⟨cause, none⟩) ds := by
  rw [result_unix_text_eq, h]
  change (liftM (liftM m.timestamp >>= Value.ofNat : Except Failure Value) : Eval Value) ds = _
  rw [hn]
  rfl

/-- **The timestamp of a text that writes a moment.**  Moments a whole second or more before 1970
are refused, as out of range, and all others have a timestamp.  It is the integer part of the exact
seconds if there are none below zero and fewer than `2 ^ 34` of them. -/
theorem result_unix_text (env : Environment) (h : Iso.ofText text = .ok m) (ds : Diagnostics) :
    (m.exactSeconds ≤ -1 → result env ⟨.unix, [.value (.text text)]⟩ ds =
      .error (.error ⟨.range (.beforeEpoch m.text), none⟩) ds) ∧
    (-1 < m.exactSeconds → ∃ w : Word,
      result env ⟨.unix, [.value (.text text)]⟩ ds = .ok (.number w) ds ∧
        (w.toNat : Int) = m.nominal) ∧
    (0 ≤ m.exactSeconds → m.exactSeconds < 2 ^ 34 → ∃ w : Word,
      result env ⟨.unix, [.value (.text text)]⟩ ds = .ok (.number w) ds ∧
        (w.toNat : Int) = ⌊m.exactSeconds⌋) := by
  have hproper := Iso.proper_of_ofText h
  have hanswer : -1 < m.exactSeconds → ∃ w : Word,
      result env ⟨.unix, [.value (.text text)]⟩ ds = .ok (.number w) ds ∧
        (w.toNat : Int) = m.nominal := by
    intro hq
    obtain ⟨n, hn, hnominal⟩ := Moment.timestamp_of_lt hproper hq
    refine ⟨_, result_unix_of_timestamp env h hn ds, ?_⟩
    rw [Word.toNat_ofNat_of_lt (Moment.timestamp_lt hproper hn), hnominal]
  refine ⟨fun hq => ?_, hanswer, fun hq hlt => ?_⟩
  · exact result_unix_of_refused env h (Moment.timestamp_of_le hproper hq) ds
  · rw [← Moment.nominal_eq_floor hq hlt]
    exact hanswer (by linarith)

/-- A leap day, with a fraction and a clock that is ahead. -/
theorem result_unix_text_leap :
    let env : Environment := ⟨.standard 0, fun _ => Vector.replicate 32 0⟩
    let m : Moment := ⟨⟨2024, 2, 29⟩, ⟨12, 30, 0, 250000⟩, 19800000000⟩
    Iso.ofText "2024-02-29T12:30:00.25+05:30" = .ok m ∧ m.exactSeconds = 1709190000 + 1 / 4 ∧
      ∃ w : Word,
        result env ⟨.unix, [.value (.text "2024-02-29T12:30:00.25+05:30")]⟩ #[] =
          .ok (.number w) #[] ∧
          (w.toNat : Int) = ⌊m.exactSeconds⌋ := by
  intro env m
  have htext : Iso.ofText "2024-02-29T12:30:00.25+05:30" = .ok m := by decide +kernel
  have hmicros : m.micros = 1709190000250000 := by decide +kernel
  have hq : m.exactSeconds = 1709190000 + 1 / 4 := by
    rw [Moment.exactSeconds, hmicros]
    norm_num
  refine ⟨htext, hq, (result_unix_text env htext #[]).2.2 ?_ ?_⟩ <;> rw [hq] <;> norm_num

/-- Half a second before 1970 is the timestamp zero, and a millionth of a second before a full one in
the year 3000 is the timestamp of the full one. -/
theorem result_unix_text_cut :
    (∃ m, Iso.ofText "1969-12-31T23:59:59.5Z" = .ok m ∧ m.exactSeconds = -1 / 2 ∧
      ∀ env ds, result env ⟨.unix, [.value (.text "1969-12-31T23:59:59.5Z")]⟩ ds =
        .ok (.number 0) ds) ∧
    ∃ m, Iso.ofText "3000-01-01T00:00:00.999999Z" = .ok m ∧ ⌊m.exactSeconds⌋ = 32503680000 ∧
      ∀ env ds, result env ⟨.unix, [.value (.text "3000-01-01T00:00:00.999999Z")]⟩ ds =
        .ok (.number 32503680001) ds := by
  constructor
  · have htext : Iso.ofText "1969-12-31T23:59:59.5Z" =
        .ok ⟨⟨1969, 12, 31⟩, ⟨23, 59, 59, 500000⟩, 0⟩ := by decide +kernel
    have hmicros : Moment.micros ⟨⟨1969, 12, 31⟩, ⟨23, 59, 59, 500000⟩, 0⟩ = -500000 := by
      decide +kernel
    refine ⟨_, htext, ?_, fun env ds => ?_⟩
    · rw [Moment.exactSeconds, hmicros]
      norm_num
    · exact result_unix_of_timestamp env htext (by decide +kernel) ds
  · have htext : Iso.ofText "3000-01-01T00:00:00.999999Z" =
        .ok ⟨⟨3000, 1, 1⟩, ⟨0, 0, 0, 999999⟩, 0⟩ := by decide +kernel
    have hmicros : Moment.micros ⟨⟨3000, 1, 1⟩, ⟨0, 0, 0, 999999⟩, 0⟩ = 32503680000999999 := by
      decide +kernel
    refine ⟨_, htext, ?_, fun env ds => ?_⟩
    · rw [Moment.exactSeconds, hmicros, Int.floor_eq_iff]
      norm_num
    · exact result_unix_of_timestamp env htext (by decide +kernel) ds

end Call

end WeiCalc

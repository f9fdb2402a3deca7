import Mathlib
import WeiCalc.Calendar.Iso
import WeiCalc.Proofs.Run

/-!
# Timestamps are words

A date and a time that the calendar has, and an offset of less than a day, make a number of
microseconds far below any word.  The rounding of timestamps to 53 digits at most doubles a number, so
that a timestamp is a word in any case.

* `Rounding.nearest_le`: rounding at most doubles a quotient.
* `Moment.timestamp_lt`: a timestamp of a proper moment is a word.
* `Moment.proper_of_ofFields`, `Iso.proper_of_ofText`: the moments that are read are proper.
-/

namespace WeiCalc

/-! ### Days -/

namespace Date

theorem daysBeforeYear_le (year : Nat) : daysBeforeYear year ≤ 366 * year := by
  rw [daysBeforeYear]
  omega

theorem monthLengths_le (year : Nat) : ∀ n ∈ monthLengths year, n ≤ 31 := by
  rw [monthLengths]
  by_cases h : isLeap year <;> simp [h]

theorem monthLengths_sum_le (year : Nat) : (monthLengths year).sum ≤ 366 := by
  rw [monthLengths]
  by_cases h : isLeap year <;> simp [h]

theorem monthLength_le (year month : Nat) : monthLength year month ≤ 31 := by
  rw [monthLength]
  cases h : (monthLengths year)[month - 1]? with
  | none => exact Nat.zero_le 31
  | some n => exact monthLengths_le year n (List.mem_of_getElem? h)

/-- The days before a month are some of the days of the year. -/
theorem daysBeforeMonth_le (year month : Nat) : daysBeforeMonth year month ≤ 366 := by
  rw [daysBeforeMonth, ← List.sum_eq_foldl]
  have h := List.sum_take_add_sum_drop (monthLengths year) (month - 1)
  have hs := monthLengths_sum_le year
  omega

theorem number_lt {d : Date} (h : d.isValid) : d.number < 4000000 := by
  simp only [isValid, Bool.and_eq_true, decide_eq_true_eq] at h
  have hg : greatestYear = 9999 := rfl
  have hy := daysBeforeYear_le d.year
  have hm := daysBeforeMonth_le d.year d.month
  have hd := monthLength_le d.year d.month
  rw [number, dayOfYear]
  omega

end Date

theorem TimeOfDay.micros_lt {t : TimeOfDay} (h : t.isValid) : t.micros < 86400000000 := by
  simp only [isValid, Bool.and_eq_true, decide_eq_true_eq] at h
  rw [micros]
  omega

/-! ### Rounding -/

namespace Rounding

theorem toEven_le (num den : Nat) : toEven num den ≤ num / den + 1 := by
  rw [toEven]
  split_ifs <;> omega

theorem exponent_le (num den : Nat) : exponent num den ≤ num.log2 + 1 := by
  rw [exponent]
  split_ifs <;> omega

/-- A quotient scaled up and rounded is at most doubled. -/
theorem toEven_mul_le {num : Nat} (hn : 0 < num) (den k : Nat) :
    toEven (num * 2 ^ k) den ≤ 2 * num * 2 ^ k := by
  have hq : num * 2 ^ k / den ≤ num * 2 ^ k := Nat.div_le_self _ _
  have hp : 0 < num * 2 ^ k := Nat.mul_pos hn (Nat.two_pow_pos k)
  have hr := toEven_le (num * 2 ^ k) den
  rw [Nat.mul_assoc]
  omega

/-- So is one that is scaled down, if the unit it is rounded to is no greater than the number. -/
theorem toEven_mul_pow_le {num den k : Nat} (hk : 2 ^ k ≤ num) :
    toEven num (den * 2 ^ k) * 2 ^ k ≤ 2 * num := by
  have hq : num / (den * 2 ^ k) * 2 ^ k ≤ num := by
    rw [Nat.mul_comm den, ← Nat.div_div_eq_div_mul]
    exact le_trans (Nat.mul_le_mul_right _ (Nat.div_le_self _ _)) (Nat.div_mul_le_self num _)
  calc toEven num (den * 2 ^ k) * 2 ^ k
      ≤ (num / (den * 2 ^ k) + 1) * 2 ^ k := Nat.mul_le_mul_right _ (toEven_le _ _)
    _ = num / (den * 2 ^ k) * 2 ^ k + 2 ^ k := by rw [Nat.add_mul, Nat.one_mul]
    _ ≤ 2 * num := by omega

/-- **Rounding at most doubles a quotient.** -/
theorem nearest_le (num den : Nat) : nearest num den ≤ 2 * num := by
  rw [nearest]
  by_cases hn : num = 0
  · rw [if_pos hn, hn, Nat.cast_zero, mul_zero]
  rw [if_neg hn]
  have he := exponent_le num den
  obtain ⟨k, hk⟩ := Int.eq_nat_or_neg ((digits : Int) - exponent num den)
  rcases hk with hk | hk
  · have hz : (-(k : Int)).toNat = 0 := by omega
    simp only [hk, Int.toNat_natCast, hz, Nat.pow_eq, Nat.pow_zero, Nat.mul_one, zpow_natCast]
    rw [div_le_iff₀ (by positivity)]
    exact_mod_cast toEven_mul_le (Nat.pos_of_ne_zero hn) den k
  · have hz : (-(k : Int)).toNat = 0 := by omega
    have hl : k ≤ num.log2 := by
      have hd : digits = 53 := rfl
      omega
    have hp : 2 ^ k ≤ num := le_trans (Nat.pow_le_pow_right (by decide) hl) (Nat.log2_self_le hn)
    simp only [hk, neg_neg, Int.toNat_natCast, hz, Nat.pow_eq, Nat.pow_zero, Nat.mul_one, zpow_neg,
      zpow_natCast, div_inv_eq_mul]
    exact_mod_cast toEven_mul_pow_le hp

theorem nearest_nonneg (num den : Nat) : 0 ≤ nearest num den := by
  rw [nearest]
  split_ifs
  · exact le_refl 0
  · positivity

theorem floor_nearest_bounds (num den : Nat) :
    0 ≤ (nearest num den).floor ∧ (nearest num den).floor ≤ 2 * (num : Int) := by
  constructor
  · rw [Rat.le_floor_iff]
    exact_mod_cast nearest_nonneg num den
  · have h := le_trans (Rat.floor_le _) (nearest_le num den)
    exact_mod_cast h

end Rounding

/-! ### Moments -/

namespace Moment

/-- The day and the time exist, and the clock is less than a day ahead or behind. -/
structure Proper (m : Moment) : Prop where
  date : m.date.isValid
  time : m.time.isValid
  offset : m.offset.natAbs < 86400000000

theorem micros_natAbs_lt {m : Moment} (h : m.Proper) : m.micros.natAbs < 10 ^ 18 := by
  have hd := Date.number_lt h.date
  have ht := TimeOfDay.micros_lt h.time
  have ho := h.offset
  have he : epochDay = 719162 := rfl
  have hs : daySeconds = 86400 := rfl
  rw [micros, he, hs]
  omega

theorem seconds_le (m : Moment) : m.seconds ≤ 2 * m.micros.natAbs := by
  obtain ⟨hl, hu⟩ := Rounding.floor_nearest_bounds m.micros.natAbs 1000000
  rw [seconds]
  split_ifs <;> omega

/-- **A timestamp of a proper moment is a word.** -/
theorem timestamp_lt {m : Moment} (h : m.Proper) {n : Nat} (hn : m.timestamp = .ok n) :
    n < Word.capacity := by
  have hc : Word.capacity = 2 ^ 256 := rfl
  have hm := micros_natAbs_lt h
  have hs := seconds_le m
  rw [timestamp] at hn
  split_ifs at hn with h0
  cases hn
  omega

theorem proper_of_ofFields {year month day hour minute second : Nat} {m : Moment}
    (h : ofFields year month day hour minute second = .ok m) : m.Proper := by
  rw [ofFields] at h
  cases hr : refusal? year month day hour minute second with
  | some reason => simp [hr] at h
  | none =>
    rw [hr] at h
    cases h
    rw [refusal?] at hr
    cases hf : List.find? (greatestPart < ·) [year, month, day, hour, minute, second] with
    | some n => simp [hf] at hr
    | none =>
      rw [hf] at hr
      dsimp only at hr
      split_ifs at hr with hyear hmonth hday hhour hminute hsecond
      refine ⟨?_, ?_, by simp⟩
      · simp only [Date.isValid, Bool.and_eq_true, decide_eq_true_eq]
        omega
      · simp only [TimeOfDay.isValid, Bool.and_eq_true, decide_eq_true_eq]
        omega

end Moment

/-! ### Texts -/

namespace Iso

theorem offset_natAbs_lt {mark : Char} {cs : List Char} {offset : Int}
    (h : offset? mark cs = some offset) : offset.natAbs < 86400000000 := by
  rw [offset?] at h
  by_cases hz : mark = 'Z'
  · simp only [if_pos hz] at h
    by_cases he : cs.isEmpty
    · rw [if_pos he] at h
      cases h
      decide
    · rw [if_neg he] at h
      cases h
  · simp only [if_neg hz] at h
    obtain ⟨⟨t, complete⟩, _, h⟩ := Option.bind_eq_some_iff.mp h
    split_ifs at h with hw hc hm hc hm <;> cases h <;> omega

theorem timeAndOffset_natAbs_lt {cs : List Char} {t : TimeOfDay} {offset : Int}
    (h : timeAndOffset? cs = some (t, offset)) : offset.natAbs < 86400000000 := by
  rw [timeAndOffset?] at h
  obtain ⟨⟨_, complete⟩, _, h⟩ := Option.bind_eq_some_iff.mp h
  cases hd : cs.dropWhile (!isOffsetMark ·) with
  | nil =>
    simp only [hd] at h
    split_ifs at h
    cases h
    decide
  | cons mark rest =>
    simp only [hd] at h
    obtain ⟨o, ho, h⟩ := Option.bind_eq_some_iff.mp h
    cases h
    exact offset_natAbs_lt ho

theorem proper_of_moment {cs : List Char} {m : Moment} (h : moment? cs = some m) : m.Proper := by
  rw [moment?] at h
  obtain ⟨width, _, h⟩ := Option.bind_eq_some_iff.mp h
  obtain ⟨date, _, h⟩ := Option.bind_eq_some_iff.mp h
  cases hd : cs.drop width with
  | nil =>
    simp only [hd] at h
    obtain ⟨⟨time, offset⟩, ho, h⟩ := Option.bind_eq_some_iff.mp h
    cases ho
    dsimp only at h
    split_ifs at h with hv
    cases h
    exact ⟨hv.1, hv.2, Nat.zero_lt_succ _⟩
  | cons c rest =>
    simp only [hd] at h
    obtain ⟨⟨time, offset⟩, ho, h⟩ := Option.bind_eq_some_iff.mp h
    dsimp only at h
    split_ifs at h with hv
    cases h
    exact ⟨hv.1, hv.2, timeAndOffset_natAbs_lt ho⟩

theorem proper_of_ofText {text : String} {m : Moment} (h : ofText text = .ok m) : m.Proper := by
  rw [ofText] at h
  split at h
  · cases h
    exact proper_of_moment ‹_›
  · exact absurd h (by simp)

end Iso

end WeiCalc

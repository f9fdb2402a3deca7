import Mathlib
import WeiCalc.Proofs.Calendar

/-!
# Days and their numbers

The day with a number is found by taking off whole spans of 400, 100, 4 and 1 years, and then whole
months.  What is left over at each step counts the days of a shorter span, so that putting the spans
together again gives the number.

* `Date.daysBeforeYear_succ`: a year is followed by the next one after 365 or 366 days.
* `Date.daysBeforeYear_spans`: the days before a year put together from spans.
* `Date.monthAndDay_spec`: the month and the day of a day of the year.
* `Date.ofNumber_year`, `Date.lt_daysBeforeYear_succ`: the year of a day, and the day of the year.
* `Date.number_ofNumber`: **the day with a number has that number.**
* `Date.isValid_ofNumber`: up to the end of the last year it is a day of the calendar.
-/

namespace WeiCalc

namespace Date

/-! ### Years -/

/-- The number of days of a year. -/
def yearLength (year : Nat) : Nat :=
  if isLeap year then 366 else 365

theorem isLeap_iff {year : Nat} :
    isLeap year = true ↔ year % 4 = 0 ∧ (year % 100 ≠ 0 ∨ year % 400 = 0) := by
  simp only [isLeap, Bool.and_eq_true, Bool.or_eq_true, beq_iff_eq, bne_iff_ne]

@[simp] theorem sum_monthLengths (year : Nat) : (monthLengths year).sum = yearLength year := by
  rw [monthLengths, yearLength]
  split <;> rfl

/-- A year is followed by the next one after 365 or 366 days. -/
theorem daysBeforeYear_succ {year : Nat} (h : 1 ≤ year) :
    daysBeforeYear (year + 1) = daysBeforeYear year + yearLength year := by
  obtain ⟨y, rfl⟩ := Nat.exists_eq_add_of_le' h
  have hleap := @isLeap_iff (y + 1)
  -- Each of the three quotients goes up where its divisor divides the year.
  have h4 := Nat.succ_div (a := y) (b := 4)
  have h100 := Nat.succ_div (a := y) (b := 100)
  have h400 := Nat.succ_div (a := y) (b := 400)
  rw [daysBeforeYear, daysBeforeYear, yearLength, Nat.add_sub_cancel, Nat.add_sub_cancel]
  simp only [Nat.dvd_iff_mod_eq_zero] at h4 h100 h400
  by_cases hl : isLeap (y + 1) = true
  · obtain ⟨hfour, hhundred⟩ := hleap.mp hl
    rw [if_pos hl]
    split_ifs at h4 h100 h400 <;> omega
  · have hno := mt hleap.mpr hl
    rw [if_neg hl]
    split_ifs at h4 h100 h400 <;> omega

section

variable {a c b r : Nat}

/-- The days before a year that is put together from spans of 400, 100, 4 and 1 years. -/
theorem daysBeforeYear_spans (hc : c ≤ 3) (hb : b ≤ 24) (hr : r ≤ 3) :
    daysBeforeYear (400 * a + 100 * c + 4 * b + r + 1) =
      146097 * a + 36524 * c + 1461 * b + 365 * r := by
  have h4 : (400 * a + 100 * c + 4 * b + r) / 4 = 100 * a + 25 * c + b := by omega
  have h100 : (400 * a + 100 * c + 4 * b + r) / 100 = 4 * a + c := by omega
  have h400 : (400 * a + 100 * c + 4 * b + r) / 400 = a := by omega
  rw [daysBeforeYear, Nat.add_sub_cancel, h4, h100, h400]
  omega

/-- The last of four years is a leap year, unless it is the last of a hundred; the last of four
hundred is one. -/
theorem isLeap_spans (hc : c ≤ 3) (hb : b ≤ 24) (hr : r ≤ 3) :
    isLeap (400 * a + 100 * c + 4 * b + r + 1) = true ↔ r = 3 ∧ (b ≠ 24 ∨ c = 3) := by
  rw [isLeap_iff]
  omega

end

/-! ### Months -/

/-- The days of a year are those of the months before a day and those of its month up to it. -/
theorem monthAndDay_spec {lengths : List Nat} (month : Nat) {day : Nat} (h : day < lengths.sum) :
    ∃ k d, monthAndDay month lengths day = (month + k, d + 1) ∧
      day = (lengths.take k).sum + d ∧ ∃ length, lengths[k]? = some length ∧ d < length := by
  induction lengths generalizing month day with
  | nil => exact absurd h (Nat.not_lt_zero day)
  | cons length lengths ih =>
    rw [monthAndDay]
    by_cases hd : day < length
    · rw [if_pos hd]
      exact ⟨0, day, rfl, (Nat.zero_add day).symm, length, rfl, hd⟩
    · rw [List.sum_cons] at h
      have hrest : day - length < lengths.sum := by omega
      obtain ⟨k, d, hpair, hsum, hlength⟩ := ih (month + 1) hrest
      refine ⟨k + 1, d, ?_, ?_, ?_⟩
      · rw [if_neg hd, hpair, Nat.add_assoc, Nat.add_comm 1]
      · rw [List.take_succ_cons, List.sum_cons]
        omega
      · rw [List.getElem?_cons_succ]
        exact hlength

/-! ### Days -/

variable {n : Nat}

/-- The year of the day with a number begins less than its length before the day. -/
theorem ofNumber_year (n : Nat) :
    ∃ day, n = daysBeforeYear (ofNumber n).year + day ∧ day < yearLength (ofNumber n).year ∧
      ((ofNumber n).month, (ofNumber n).day) =
        monthAndDay 1 (monthLengths (ofNumber n).year) day := by
  rw [ofNumber]
  dsimp only
  -- The four divisions, each with its remainder.
  generalize hs : n % 146097 = inSpan
  generalize hc : min (inSpan / 36524) 3 = centuries
  generalize ht : inSpan - 36524 * centuries = inCentury
  generalize hb : inCentury / 1461 = fours
  generalize hu : inCentury % 1461 = inFour
  generalize hr : min (inFour / 365) 3 = years
  have hc3 : centuries ≤ 3 := by omega
  have hb24 : fours ≤ 24 := by omega
  have hr3 : years ≤ 3 := by omega
  refine ⟨inFour - 365 * years, ?_, ?_, rfl⟩
  · rw [daysBeforeYear_spans hc3 hb24 hr3]
    omega
  · have hleap := isLeap_spans (a := n / 146097) hc3 hb24 hr3
    rw [yearLength]
    split_ifs with hl
    · omega
    · have hno := mt hleap.mpr hl
      omega

theorem one_le_year (n : Nat) : 1 ≤ (ofNumber n).year := by
  rw [ofNumber]
  exact Nat.succ_pos _

/-- **The day with a number has that number.** -/
@[simp] theorem number_ofNumber (n : Nat) : (ofNumber n).number = n := by
  obtain ⟨day, hn, hlt, hpair⟩ := ofNumber_year n
  rw [← sum_monthLengths] at hlt
  obtain ⟨k, d, hmonth, hsum, -⟩ := monthAndDay_spec 1 hlt
  rw [hmonth] at hpair
  obtain ⟨hm, hd⟩ := Prod.mk.inj hpair
  rw [number, dayOfYear, daysBeforeMonth, hm, hd, Nat.add_sub_cancel_left, Nat.add_sub_cancel,
    ← List.sum_eq_foldl, ← hsum, ← hn]

/-- The number of days of all years of the calendar. -/
def count : Nat := daysBeforeYear (greatestYear + 1)

/-- The days of a year come after all days of the years before it. -/
theorem lt_daysBeforeYear_succ (n : Nat) : n < daysBeforeYear ((ofNumber n).year + 1) := by
  obtain ⟨day, hn, hlt, -⟩ := ofNumber_year n
  rw [daysBeforeYear_succ (one_le_year n)]
  omega

theorem year_le_of_lt (h : n < count) : (ofNumber n).year ≤ greatestYear := by
  obtain ⟨day, hn, -⟩ := ofNumber_year n
  have hcount : count = 3652059 := by decide
  have hgreatest : greatestYear = 9999 := rfl
  rw [daysBeforeYear] at hn
  omega

/-- The day with a number is a day of the calendar, up to the end of its last year. -/
theorem isValid_ofNumber (h : n < count) : (ofNumber n).isValid = true := by
  have hyear := year_le_of_lt h
  obtain ⟨day, hn, hlt, hpair⟩ := ofNumber_year n
  rw [← sum_monthLengths] at hlt
  obtain ⟨k, d, hmonth, -, length, hlength, hd⟩ := monthAndDay_spec 1 hlt
  rw [hmonth] at hpair
  obtain ⟨hm, hday⟩ := Prod.mk.inj hpair
  have hk : k < 12 := (List.getElem?_eq_some_iff.mp hlength).1
  have hpos := one_le_year n
  have hlen : monthLength (ofNumber n).year (ofNumber n).month = length := by
    rw [monthLength, hm, Nat.add_sub_cancel_left, hlength, Option.getD_some]
  simp only [isValid, Bool.and_eq_true, decide_eq_true_eq, hlen]
  omega

end Date

end WeiCalc

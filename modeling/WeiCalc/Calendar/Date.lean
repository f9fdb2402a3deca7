/-!
# Dates

The Gregorian calendar, carried back to the year 1. Days are numbered from 1 January of the year 1,
which has the number zero and is a Monday.
-/

namespace WeiCalc

/-- A day of the calendar. -/
structure Date where
  year : Nat
  month : Nat
  day : Nat
  deriving DecidableEq, Repr

namespace Date

/-- Has a year a 29 February? -/
def isLeap (year : Nat) : Bool :=
  year % 4 == 0 && (year % 100 != 0 || year % 400 == 0)

/-- The lengths of the months of a year. -/
def monthLengths (year : Nat) : List Nat :=
  [31, if isLeap year then 29 else 28, 31, 30, 31, 30, 31, 31, 30, 31, 30, 31]

/-- The length of a month; there are no others than the twelve. -/
def monthLength (year month : Nat) : Nat :=
  ((monthLengths year)[month - 1]?).getD 0

/-- The greatest year. -/
def greatestYear : Nat := 9999

/-- Does the calendar have this day? -/
def isValid (d : Date) : Bool :=
  1 ≤ d.year && d.year ≤ greatestYear && 1 ≤ d.month && d.month ≤ 12 && 1 ≤ d.day &&
    d.day ≤ monthLength d.year d.month

/-- The number of days before a year. -/
def daysBeforeYear (year : Nat) : Nat :=
  let y := year - 1
  365 * y + y / 4 - y / 100 + y / 400

/-- The number of days of a year before a month. -/
def daysBeforeMonth (year month : Nat) : Nat :=
  ((monthLengths year).take (month - 1)).foldl (· + ·) 0

/-- The number of days of the year before this one. -/
def dayOfYear (d : Date) : Nat :=
  daysBeforeMonth d.year d.month + (d.day - 1)

/-- The number of a day. -/
def number (d : Date) : Nat :=
  daysBeforeYear d.year + d.dayOfYear

/-- The month and day of a day of the year, given the lengths of the months from `month` on. -/
def monthAndDay (month : Nat) : (lengths : List Nat) → (day : Nat) → Nat × Nat
  | [], day => (month, day + 1)
  | length :: lengths, day =>
    if day < length then (month, day + 1) else monthAndDay (month + 1) lengths (day - length)

/-- The day with a number: whole spans of 400, 100, 4 and 1 years, and the rest in a year. -/
def ofNumber (n : Nat) : Date :=
  let inSpan := n % 146097
  let centuries := min (inSpan / 36524) 3
  let inCentury := inSpan - 36524 * centuries
  let inFour := inCentury % 1461
  let years := min (inFour / 365) 3
  let year := 400 * (n / 146097) + 100 * centuries + 4 * (inCentury / 1461) + years + 1
  let (month, day) := monthAndDay 1 (monthLengths year) (inFour - 365 * years)
  ⟨year, month, day⟩

/-- The day of the week, from zero for Monday. -/
def weekday (d : Date) : Nat :=
  d.number % 7

/-- The number of the Monday of the first week of a year, the week of its first Thursday. -/
def firstMonday (year : Nat) : Nat :=
  let start := daysBeforeYear year
  let weekday := start % 7
  if weekday ≤ 3 then start - weekday else start + 7 - weekday

/-- Has a year a week 53? -/
def isLong (year : Nat) : Bool :=
  let weekday := daysBeforeYear year % 7
  weekday == 3 || (weekday == 2 && isLeap year)

/-- The day of a week of a year, if there is one. Weeks begin with day one, a Monday. -/
def ofWeek? (year week day : Nat) : Option Date :=
  if 1 ≤ year ∧ 1 ≤ week ∧ (week ≤ 52 ∨ (week = 53 ∧ isLong year)) ∧ 1 ≤ day ∧ day ≤ 7 then
    some (ofNumber (firstMonday year + 7 * (week - 1) + (day - 1)))
  else none

/-- The year and week that a day counts to. -/
def weekOfYear (d : Date) : Nat × Nat :=
  let n := d.number
  if n < firstMonday d.year then (d.year - 1, (n - firstMonday (d.year - 1)) / 7 + 1)
  else if firstMonday (d.year + 1) ≤ n then (d.year + 1, (n - firstMonday (d.year + 1)) / 7 + 1)
  else (d.year, (n - firstMonday d.year) / 7 + 1)

end Date

end WeiCalc

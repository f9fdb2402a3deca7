import WeiCalc.Calendar.Date
import WeiCalc.Calendar.Rounding
import WeiCalc.Text.Digits
import WeiCalc.Value

/-!
# Moments

A day, a time of the day to the microsecond, and the offset of the clock that shows them. Moments
are counted in seconds since 1970.
-/

namespace WeiCalc

/-- A time of the day. -/
structure TimeOfDay where
  hour : Nat
  minute : Nat
  second : Nat
  micro : Nat
  deriving DecidableEq, Repr

namespace TimeOfDay

/-- The start of a day. -/
def midnight : TimeOfDay := ⟨0, 0, 0, 0⟩

/-- Does a clock show this time? -/
def isValid (t : TimeOfDay) : Bool :=
  t.hour < 24 && t.minute < 60 && t.second < 60 && t.micro < 1000000

/-- The microseconds since the start of the day. -/
def micros (t : TimeOfDay) : Nat :=
  1000000 * (3600 * t.hour + 60 * t.minute + t.second) + t.micro

end TimeOfDay

/-- A moment as a clock shows it; the offset of the clock is in microseconds. -/
structure Moment where
  date : Date
  time : TimeOfDay
  offset : Int
  deriving DecidableEq, Repr

namespace Moment

/-- The number of the day 1 January 1970. -/
def epochDay : Nat := 719162

/-- The number of seconds of a day. -/
def daySeconds : Nat := 86400

/-- The greatest number of seconds that is a moment of the calendar, the end of the year 9999. -/
def greatestSeconds : Nat := 253402300799

/-- The moment that lies a number of seconds after the start of 1970, on a clock without offset. -/
def ofSeconds (seconds : Nat) : Moment :=
  let inDay := seconds % daySeconds
  ⟨Date.ofNumber (epochDay + seconds / daySeconds),
    ⟨inDay / 3600, inDay / 60 % 60, inDay % 60, 0⟩, 0⟩

/-- The moment of a timestamp, if the calendar has it. -/
def ofTimestamp (seconds : Nat) : Except Cause Moment :=
  if seconds ≤ greatestSeconds then .ok (ofSeconds seconds)
  else .error (.range (.timestamp seconds))

/-- The microseconds since the start of 1970. -/
def micros (m : Moment) : Int :=
  1000000 * daySeconds * ((m.date.number : Int) - epochDay) + m.time.micros - m.offset

/--
The seconds since the start of 1970 as a number with 53 significant binary digits, rounded toward
zero.
-/
def seconds (m : Moment) : Int :=
  let n : Int := (Rounding.nearest m.micros.natAbs 1000000).floor
  if m.micros < 0 then -n else n

/-- Microseconds behind a point, if there are any. -/
def fractionText (micro : Nat) : String :=
  if micro = 0 then "" else "." ++ Text.decimal 6 micro

/-- An offset as hours and minutes, and as seconds and microseconds if there are any. -/
def offsetText (offset : Int) : String :=
  let n := offset.natAbs
  let s := n / 1000000
  let front := (if offset < 0 then "-" else "+") ++ Text.decimal 2 (s / 3600) ++ ":" ++
    Text.decimal 2 (s / 60 % 60)
  if n % 60000000 = 0 then front
  else front ++ ":" ++ Text.decimal 2 (s % 60) ++ fractionText (n % 1000000)

/-- A moment in the international format. -/
def text (m : Moment) : String :=
  let day := Text.decimal 4 m.date.year ++ "-" ++ Text.decimal 2 m.date.month ++ "-" ++
    Text.decimal 2 m.date.day
  let time := Text.decimal 2 m.time.hour ++ ":" ++ Text.decimal 2 m.time.minute ++ ":" ++
    Text.decimal 2 m.time.second
  day ++ "T" ++ time ++ fractionText m.time.micro ++ offsetText m.offset

/-- The timestamp of a moment from 1970 on. -/
def timestamp (m : Moment) : Except Cause Nat :=
  if m.seconds < 0 then .error (.range (.beforeEpoch m.text)) else .ok m.seconds.toNat

/-- The greatest number that is looked at as a part of a date or time. -/
def greatestPart : Nat := 2147483647

/-- The greatest number with 63 binary digits. -/
def greatestLong : Nat := 9223372036854775807

/-- Why numbers are no date and time; the first one that is wrong counts. -/
def refusal? (year month day hour minute second : Nat) : Option String :=
  let fields := [year, month, day, hour, minute, second]
  match fields.find? (greatestPart < ·) with
  | some n =>
    some (if greatestLong < n then "Python int too large to convert to C long"
      else "signed integer is greater than maximum")
  | none =>
    if year < 1 ∨ Date.greatestYear < year then some s!"year {year} is out of range"
    else if month < 1 ∨ 12 < month then some "month must be in 1..12"
    else if day < 1 ∨ Date.monthLength year month < day then some "day is out of range for month"
    else if 24 ≤ hour then some "hour must be in 0..23"
    else if 60 ≤ minute then some "minute must be in 0..59"
    else if 60 ≤ second then some "second must be in 0..59"
    else none

/-- The moment of a date and time on a clock without offset. -/
def ofFields (year month day hour minute second : Nat) : Except Cause Moment :=
  match refusal? year month day hour minute second with
  | some reason =>
    .error (.literal (.invalidDate
      s!"({year}, {month}, {day}, {hour}, {minute}, {second})" reason))
  | none => .ok ⟨⟨year, month, day⟩, ⟨hour, minute, second, 0⟩, 0⟩

end Moment

end WeiCalc

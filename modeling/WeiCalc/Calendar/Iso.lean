import WeiCalc.Calendar.Moment
import WeiCalc.Text.Blank
import WeiCalc.Text.Digits

/-!
# Dates and times in the international format

A date is written as year, month and day or as year, week and day of the week, with hyphens or
without them. Any one character separates it from a time of hours, minutes, seconds and a fraction,
with colons or without them, behind which the offset of the clock may stand in the same form.
-/

namespace WeiCalc

namespace Iso

/-- The number that the first `count` characters write, which have to be digits, and the rest. -/
def digits? (count : Nat) (cs : List Char) : Option (Nat × List Char) :=
  let ds := cs.take count
  if ds.length = count ∧ ds.all Char.isDigit then some (Text.ofDecimal ds, cs.drop count) else none

/-- Is there a digit in front? -/
def seesDigit (cs : List Char) : Bool :=
  match cs with
  | c :: _ => c.isDigit
  | [] => false

/--
How many characters the date takes up. A week without hyphens has a day if an even number of
digits follows it, or if one digit does. A week with a hyphen behind it has a day unless the
hyphen stands in front of two characters of which the second is a digit: it separates the time
then.
-/
def dateWidth? (cs : List Char) : Option Nat :=
  if cs.length < 7 then none
  else if cs.length = 7 then some 7
  else
    match cs.drop 4 with
    | '-' :: 'W' :: _ =>
      if (cs.drop 8).head? = some '-' then
        if cs.length = 9 then none else some (if seesDigit (cs.drop 10) then 8 else 10)
      else some 8
    | '-' :: _ => some 10
    | 'W' :: _ =>
      let stop := 7 + ((cs.drop 7).takeWhile Char.isDigit).length
      some (if stop < 9 then stop else if stop % 2 = 0 then 7 else 8)
    | _ => some 8

/-- The rest behind a hyphen, where dates have them; all of it where they have not. -/
def afterHyphen? (hyphens : Bool) (cs : List Char) : Option (List Char) :=
  if hyphens then
    match cs with
    | '-' :: rest => some rest
    | _ => none
  else some cs

/-- The date in the first `width` characters. -/
def date? (width : Nat) (cs : List Char) : Option Date := do
  let (year, rest) ← digits? 4 cs
  let hyphens := rest.head? == some '-'
  let rest ← afterHyphen? hyphens rest
  match rest with
  | 'W' :: rest =>
    let (week, rest) ← digits? 2 rest
    if cs.length - rest.length < width then
      let (day, _) ← digits? 1 (← afterHyphen? hyphens rest)
      Date.ofWeek? year week day
    else Date.ofWeek? year week 1
  | rest =>
    let (month, rest) ← digits? 2 rest
    let (day, _) ← digits? 2 (← afterHyphen? hyphens rest)
    return ⟨year, month, day⟩

/-- A fraction of a second in microseconds, and whether nothing but digits stands in it. -/
def fraction? (cs : List Char) : Option (Nat × Bool) := do
  let count := min cs.length 6
  let (n, rest) ← digits? count cs
  return (n * Nat.pow 10 (6 - count), rest.all Char.isDigit)

/--
The numbers of a time and whether nothing is left behind them, where `left` more of the three
numbers may follow. The character behind the first number says whether all are separated by colons;
`colons` holds the answer once it is known. One byte that is left at the end is passed over.
-/
def numbers? : (left : Nat) → (colons : Option Bool) → List Char → Option (List Nat × Nat × Bool)
  | 0, _, cs => (fraction? cs).map fun (micro, complete) => ([], micro, complete)
  | left + 1, colons, cs => do
    let (n, rest) ← digits? 2 cs
    match rest with
    | [] => return ([n], 0, true)
    | [c] => if c.toNat < 128 then return ([n], 0, false) else none
    | c :: more =>
      let separated := colons.getD (c == ':')
      if separated && c == ':' then
        let (ns, micro, complete) ← numbers? left (some separated) more
        return (n :: ns, micro, complete)
      else if c == '.' || c == ',' then
        let (micro, complete) ← fraction? more
        return ([n], micro, complete)
      else if separated then none
      else
        let (ns, micro, complete) ← numbers? left (some separated) rest
        return (n :: ns, micro, complete)

/-- A time, and whether nothing is left behind it. -/
def time? (cs : List Char) : Option (TimeOfDay × Bool) := do
  let (ns, micro, complete) ← numbers? 3 none cs
  return (⟨(ns[0]?).getD 0, (ns[1]?).getD 0, (ns[2]?).getD 0, micro⟩, complete)

/-- Does the offset of a clock start here? -/
def isOffsetMark (c : Char) : Bool :=
  c == '+' || c == '-' || c == 'Z'

/-- The offset of a clock that a mark and a time write, in microseconds; behind `Z` stands none. -/
def offset? (mark : Char) (cs : List Char) : Option Int := do
  if mark = 'Z' then return ← if cs.isEmpty then some 0 else none
  let (t, complete) ← time? cs
  let whole := 3600 * t.hour + 60 * t.minute + t.second
  let size : Int := if whole = 0 then 0 else t.micros
  if complete ∧ size < 86400000000 then return (if mark = '-' then -size else size) else none

/-- A time and the offset of the clock; without one the offset is zero. -/
def timeAndOffset? (cs : List Char) : Option (TimeOfDay × Int) := do
  let (t, complete) ← time? (cs.takeWhile (!isOffsetMark ·))
  match cs.dropWhile (!isOffsetMark ·) with
  | [] => if complete then return (t, 0) else none
  | mark :: rest => return (t, ← offset? mark rest)

/-- The moment that a text writes. -/
def moment? (cs : List Char) : Option Moment := do
  let width ← dateWidth? cs
  let date ← date? width cs
  let (time, offset) ←
    match cs.drop width with
    | [] => pure (TimeOfDay.midnight, 0)
    | _ :: rest => timeAndOffset? rest
  if date.isValid ∧ time.isValid then return ⟨date, time, offset⟩ else none

/-- A text with the letter `Z` at its end written as an offset of zero. -/
def withoutZulu (cs : List Char) : List Char :=
  match cs.getLast? with
  | some c => if c = 'Z' ∨ c = 'z' then cs.dropLast ++ "+00:00".toList else cs
  | none => cs

/-- The moment that a text writes; white space around it does not count. -/
def ofText (text : String) : Except Cause Moment :=
  match moment? (withoutZulu (Text.trim text.toList)) with
  | some m => .ok m
  | none => .error (.literal (.notDate text))

end Iso

end WeiCalc

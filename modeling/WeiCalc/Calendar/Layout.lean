import WeiCalc.Calendar.Moment
import WeiCalc.Text.Case

/-!
# Layouts of moments

A layout is a text in which a percent sign starts a directive that stands for a part of a moment.
Between the sign and the letter of a directive may stand flags, which choose the padding of numbers
or the case of names, and one of the letters `E` and `O`, which ask for forms that differ from the
plain ones in other languages only. A directive that does not exist stands for itself.

The clock has no offset, and names are English.
-/

namespace WeiCalc

namespace Layout

def weekdays : List String :=
  ["Monday", "Tuesday", "Wednesday", "Thursday", "Friday", "Saturday", "Sunday"]

def months : List String :=
  [
    "January", "February", "March", "April", "May", "June", "July", "August", "September",
    "October", "November", "December"]

/-- A directive as far as it has been read, from its percent sign on. -/
structure Directive where
  /-- The characters read, last one first. -/
  read : List Char
  /-- The padding asked for: `_`, `-` or `0`. -/
  pad : Option Char
  /-- Are letters wanted in upper case? -/
  upper : Bool
  /-- Is the other case of letters wanted? -/
  swap : Bool
  /-- The letter `E` or `O`, once it has been read. -/
  form : Option Char

namespace Directive

/-- A directive of which only the percent sign has been read. -/
def start : Directive := ⟨['%'], none, false, false, none⟩

/-- A text in the case that is asked for. -/
def inCase (d : Directive) (cs : List Char) : List Char :=
  if d.upper then cs.map Text.upperOne else cs

/-- The text of a directive that does not exist. -/
def literally (d : Directive) : List Char :=
  d.inCase d.read.reverse

/-- A number with `width` digits, where zeros or spaces fill it up unless a flag says otherwise. -/
def number (d : Directive) (filler : Char) (width n : Nat) : List Char :=
  let ds := Nat.toDigits 10 n
  match d.pad with
  | some '-' => ds
  | some '_' => List.replicate (width - ds.length) ' ' ++ ds
  | some '0' => List.replicate (width - ds.length) '0' ++ ds
  | _ => List.replicate (width - ds.length) filler ++ ds

/-- The hour on a clock of twelve hours. -/
def hour12 (hour : Nat) : Nat :=
  (hour + 11) % 12 + 1

/-- The half of the day. -/
def half (hour : Nat) : List Char :=
  if hour < 12 then ['A', 'M'] else ['P', 'M']

/-- The number of the week in which a day lies, where weeks start on the day `first` of the week. -/
def weekFrom (first : Nat) (date : Date) : Nat :=
  (date.dayOfYear + 7 - (date.weekday + 7 - first) % 7) / 7

/-- A number that the letter of a directive stands for: its value, its width and its filler. -/
def numberOf? (m : Moment) : Char → Option (Nat × Nat × Char)
  | 'C' => some (m.date.year / 100, 2, '0')
  | 'd' => some (m.date.day, 2, '0')
  | 'e' => some (m.date.day, 2, ' ')
  | 'H' => some (m.time.hour, 2, '0')
  | 'I' => some (hour12 m.time.hour, 2, '0')
  | 'k' => some (m.time.hour, 2, ' ')
  | 'l' => some (hour12 m.time.hour, 2, ' ')
  | 'j' => some (m.date.dayOfYear + 1, 3, '0')
  | 'M' => some (m.time.minute, 2, '0')
  | 'm' => some (m.date.month, 2, '0')
  | 'S' => some (m.time.second, 2, '0')
  | 'u' => some (m.date.weekday + 1, 1, '0')
  | 'w' => some ((m.date.weekday + 1) % 7, 1, '0')
  | 'U' => some (weekFrom 6 m.date, 2, '0')
  | 'W' => some (weekFrom 0 m.date, 2, '0')
  | 'V' => some (m.date.weekOfYear.2, 2, '0')
  | 'g' => some (m.date.weekOfYear.1 % 100, 2, '0')
  | 'G' => some (m.date.weekOfYear.1, 1, '0')
  | 'Y' => some (m.date.year, 1, '0')
  | 'y' => some (m.date.year % 100, 2, '0')
  | _ => none

/-- The layout that the letter of a directive stands for. -/
def layoutOf? : Char → Option String
  | 'c' => some "%a %b %e %H:%M:%S %Y"
  | 'D' => some "%m/%d/%y"
  | 'x' => some "%m/%d/%y"
  | 'F' => some "%Y-%m-%d"
  | 'R' => some "%H:%M"
  | 'r' => some "%I:%M:%S %p"
  | 'T' => some "%H:%M:%S"
  | 'X' => some "%H:%M:%S"
  | _ => none

/-- The forms that do not exist for the letter of a directive. -/
def excludedForms (letter : Char) : List Char :=
  if "%aADF".toList.contains letter then ['E', 'O']
  else if "bhBdeHIkljMmSUVgGWw".toList.contains letter then ['E']
  else if "cxXY".toList.contains letter then ['O']
  else []

/-- The text of a directive for all letters but those that stand for a whole layout. -/
def text? (d : Directive) (m : Moment) (letter : Char) : Option (List Char) :=
  match numberOf? m letter with
  | some (n, width, filler) => some (d.number filler width n)
  | none =>
    let name (names : List String) (index : Nat) := ((names[index]?).getD "").toList
    let cased (cs : List Char) := if d.upper || d.swap then cs.map Char.toUpper else cs
    match letter with
    | '%' => some ['%']
    | 'n' => some ['\n']
    | 't' => some ['\t']
    | 'a' => some (cased ((name weekdays m.date.weekday).take 3))
    | 'A' => some (cased (name weekdays m.date.weekday))
    | 'b' => some (cased ((name months (m.date.month - 1)).take 3))
    | 'h' => some (cased ((name months (m.date.month - 1)).take 3))
    | 'B' => some (cased (name months (m.date.month - 1)))
    | 'p' => some (if d.swap then (half m.time.hour).map Char.toLower else half m.time.hour)
    | 'P' => some ((half m.time.hour).map Char.toLower)
    | 'Z' => some []
    | 'z' => some []
    | _ => none

/-- The directive with one more character, if it is a flag or the letter of a form. -/
def extend? (d : Directive) (c : Char) : Option Directive :=
  let d := { d with read := c :: d.read }
  if d.form.isSome then none
  else if c = '_' ∨ c = '-' ∨ c = '0' then some { d with pad := some c }
  else if c = '^' then some { d with upper := true }
  else if c = '#' then some { d with swap := true }
  else if c = 'E' ∨ c = 'O' then some { d with form := some c }
  else none

/--
The text of a directive with its last character, where `inner` writes moments in a layout. Short
names of months take the wanted case before their form is looked at.
-/
def finish (d : Directive) (m : Moment) (inner : String → List Char) (c : Char) : List Char :=
  let excluded :=
    match d.form with
    | some form => (excludedForms c).contains form
    | none => false
  let d := if (c == 'b' || c == 'h') && d.swap then { d with upper := true } else d
  if excluded then if c = '%' then ['%'] else literally { d with read := c :: d.read }
  else
    match layoutOf? c with
    | some layout => d.inCase (inner layout)
    | none => (d.text? m c).getD (literally { d with read := c :: d.read })

end Directive

/-- Writes a moment in a layout, where `inner` does so for the layouts that a letter stands for. -/
def writeFrom (m : Moment) (inner : String → List Char) :
    (pending : Option Directive) → List Char → List Char
  | none, [] => []
  | some d, [] => d.literally
  | none, c :: cs =>
    if c = '%' then writeFrom m inner (some .start) cs else c :: writeFrom m inner none cs
  | some d, c :: cs =>
    match d.extend? c with
    | some d => writeFrom m inner (some d) cs
    | none => d.finish m inner c ++ writeFrom m inner none cs

/-- Writes a moment in a layout in which no letter stands for a whole layout. -/
def writePlain (m : Moment) (layout : String) : List Char :=
  writeFrom m (fun _ => []) none layout.toList

/--
A layout with the directives for the offset of the clock, its name and the fraction of the second
replaced by what they stand for. This comes before all else, and flags are not understood in it.
-/
def withoutClock : List Char → List Char
  | '%' :: 'z' :: cs => '+' :: '0' :: '0' :: '0' :: '0' :: withoutClock cs
  | '%' :: 'Z' :: cs => 'U' :: 'T' :: 'C' :: withoutClock cs
  | '%' :: 'f' :: cs => '0' :: '0' :: '0' :: '0' :: '0' :: '0' :: withoutClock cs
  | '%' :: c :: cs => '%' :: c :: withoutClock cs
  | c :: cs => c :: withoutClock cs
  | [] => []

/-- Writes a moment in a layout. -/
def write (m : Moment) (layout : String) : String :=
  String.ofList (writeFrom m (writePlain m) none (withoutClock layout.toList))

end Layout

end WeiCalc

/-!
# Units

Amounts of ether and spans of time have units. Each unit is a whole multiple of the base unit of
its family, wei or seconds. A year is always 365 days.
-/

namespace WeiCalc

/-- What a unit measures. -/
inductive UnitFamily where
  | value
  | time
  deriving DecidableEq, Repr

/-- A unit: its canonical name, its family and its factor to the base unit of the family. -/
structure MeasureUnit where
  name : String
  family : UnitFamily
  factor : Nat
  deriving DecidableEq, Repr

namespace UnitFamily

/-- How a family is named. -/
def name : UnitFamily → String
  | value => "value"
  | time => "time"

/-- The unit of a family with factor one. -/
def base : UnitFamily → MeasureUnit
  | value => ⟨"wei", .value, 1⟩
  | time => ⟨"seconds", .time, 1⟩

end UnitFamily

namespace MeasureUnit

/-- Every unit under its canonical name. -/
def all : List MeasureUnit :=
  [
    ⟨"wei", .value, 1⟩, ⟨"kwei", .value, 1000⟩, ⟨"mwei", .value, 1000000⟩,
    ⟨"gwei", .value, 1000000000⟩, ⟨"szabo", .value, 1000000000000⟩,
    ⟨"finney", .value, 1000000000000000⟩, ⟨"ether", .value, 1000000000000000000⟩,
    ⟨"seconds", .time, 1⟩, ⟨"minutes", .time, 60⟩, ⟨"hours", .time, 3600⟩, ⟨"days", .time, 86400⟩,
    ⟨"weeks", .time, 604800⟩, ⟨"years", .time, 31536000⟩]

/-- The singular forms of the units of time, each with the canonical name. -/
def aliases : List (String × String) :=
  [
    ("second", "seconds"), ("minute", "minutes"), ("hour", "hours"), ("day", "days"),
    ("week", "weeks"), ("year", "years")]

/-- The unit of a canonical name or an alias. -/
def ofName? (name : String) : Option MeasureUnit :=
  let canonical := (aliases.lookup name).getD name
  all.find? (·.name = canonical)

/-- Is there a unit of that name? -/
def isName (name : String) : Bool :=
  (ofName? name).isSome

end MeasureUnit

end WeiCalc

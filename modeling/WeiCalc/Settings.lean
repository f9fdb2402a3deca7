import WeiCalc.Limit

/-!
# Settings

What shapes the reading, evaluation and display of lines. `Overrides` hold some of it, as a
settings file or a command line gives it.
-/

namespace WeiCalc

/-- What shapes the reading, evaluation and display of a line. -/
structure Settings where
  /-- The nesting that expressions may have. -/
  maxDepth : Limit
  /-- The fraction digits of prices. -/
  pricePrecision : Limit
  /-- The layout of moments that come without one. -/
  dateLayout : String
  /-- Are numbers shown as whole words? -/
  fullWords : Bool
  /-- The present time in seconds since 1970. -/
  clock : Rat
  deriving DecidableEq

/-- The settings that are given, all but the clock; the others stay as they are. -/
structure Overrides where
  maxDepth : Option Limit
  pricePrecision : Option Limit
  dateLayout : Option String
  fullWords : Option Bool
  deriving DecidableEq

namespace Settings

/-- The layout of moments unless the settings give another one. -/
def standardLayout : String := "%Y-%m-%d %H:%M:%S UTC"

/-- The settings of a calculator that nothing is said about, at a given time. -/
def standard (clock : Rat) : Settings :=
  ⟨.count 64, .count 6, standardLayout, false, clock⟩

/-- The settings with the given ones replaced. -/
def override (s : Settings) (o : Overrides) : Settings :=
  { s with
    maxDepth := o.maxDepth.getD s.maxDepth
    pricePrecision := o.pricePrecision.getD s.pricePrecision
    dateLayout := o.dateLayout.getD s.dateLayout
    fullWords := o.fullWords.getD s.fullWords }

/-- The present time in whole seconds, rounded toward zero. -/
def now (s : Settings) : Int :=
  Int.tdiv s.clock.num s.clock.den

end Settings

end WeiCalc

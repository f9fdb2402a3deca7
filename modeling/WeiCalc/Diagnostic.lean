/-!
# Diagnostics

Observations that do not stop an evaluation: a literal was rounded, a conversion left a remainder,
arithmetic wrapped, a price was rounded. They are kept in the order in which they were made.
-/

namespace WeiCalc

/-- A warning is always shown, a note only when asked for. -/
inductive Severity where
  | warning
  | info
  deriving DecidableEq, Repr

/-- What was observed. -/
inductive Observation where
  | literalRounded (raw : String) (rounded : Nat)
  | conversionTruncated (source target : String)
  | priceRounded (digits : String)
  | wrapped
  deriving DecidableEq, Repr

/-- An observation and, if known, where in the line it was made. -/
structure Diagnostic where
  observation : Observation
  position : Option Nat
  deriving DecidableEq, Repr

/-- The diagnostics of an evaluation, in order. -/
abbrev Diagnostics := Array Diagnostic

namespace Observation

def severity : Observation → Severity
  | literalRounded .. => .warning
  | conversionTruncated .. => .warning
  | priceRounded _ => .info
  | wrapped => .info

/-- The code by which an observation can be looked up. -/
def code : Observation → String
  | literalRounded .. => "W001"
  | conversionTruncated .. => "W002"
  | wrapped => "I001"
  | priceRounded _ => "I002"

def message : Observation → String
  | literalRounded raw rounded => s!"literal '{raw}' is not an integer; rounded to {rounded}"
  | conversionTruncated source target =>
    s!"conversion from {source} to {target} is not exact; result truncated"
  | priceRounded digits => s!"price rounded to {digits} fraction digits"
  | wrapped => "arithmetic wrapped modulo 2**256 inside unchecked(...)"

end Observation

/-- The name of a severity. -/
def Severity.name : Severity → String
  | warning => "warning"
  | info => "info"

namespace Diagnostic

/-- A diagnostic as one line of text. -/
def display (d : Diagnostic) : String :=
  let place :=
    match d.position with
    | some p => s!"position {p}: "
    | none => ""
  s!"[{d.observation.severity.name}] {place}{d.observation.message} ({d.observation.code})"

end Diagnostic

/-- The diagnostics that are shown, one indented line each; notes only if `verbose` holds. -/
def Diagnostics.summary (verbose : Bool) (ds : Diagnostics) : String :=
  let shown := ds.toList.filter fun d => verbose || d.observation.severity = .warning
  String.join (shown.map fun d => "  " ++ d.display ++ "\n")

end WeiCalc

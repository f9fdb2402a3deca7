/-!
# Limits

A limit in the settings is a count. A settings file may also give a truth value, which is kept as
it is, counts as one or zero and is shown as a truth value.
-/

namespace WeiCalc

/-- A limit in the settings. -/
inductive Limit where
  | count (n : Nat)
  | flag (b : Bool)
  deriving DecidableEq, Repr, Inhabited

namespace Limit

/-- The number that a limit stands for. -/
def value : Limit → Nat
  | count n => n
  | flag b => b.toNat

/-- How a limit is displayed. -/
def display : Limit → String
  | count n => toString n
  | flag true => "True"
  | flag false => "False"

end Limit

end WeiCalc

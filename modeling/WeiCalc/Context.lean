import WeiCalc.Abi.Keccak
import WeiCalc.Arithmetic
import WeiCalc.Diagnostic
import WeiCalc.Settings
import WeiCalc.Value

/-!
# Contexts of an evaluation

What the evaluation of an expression depends on besides the expression: the environment, which is
the same for a whole line, the mode of arithmetic, and how many levels of nesting are left. An
evaluation answers or fails, and keeps the diagnostics it has made either way.
-/

namespace WeiCalc

/-- The settings, and the hash function that selectors, checksums and `keccak256` use. -/
structure Environment where
  settings : Settings
  hash : Hash

namespace Environment

/-- The error of an expression at `position` that is nested too deep. -/
def tooDeep (env : Environment) (position : Nat) : EvalError :=
  ⟨.nesting env.settings.maxDepth, some position⟩

end Environment

/-- What an expression is evaluated in. -/
structure Context where
  environment : Environment
  mode : ArithmeticMode
  /-- The levels of nesting that may still be entered. -/
  levels : Nat

namespace Context

/-- The context of a whole line. -/
def start (env : Environment) : Context :=
  ⟨env, .checked, env.settings.maxDepth.value⟩

/-- The levels of nesting that have been entered. -/
def depth (c : Context) : Nat :=
  c.environment.settings.maxDepth.value - c.levels

/-- The context inside of `unchecked`. -/
def wrapping (c : Context) : Context :=
  { c with mode := .wrapping }

/-- The context one level down, for an expression at `position`. -/
def descend (c : Context) (position : Nat) : Except EvalError Context :=
  match c.levels with
  | 0 => .error (c.environment.tooDeep position)
  | levels + 1 => .ok { c with levels }

/-- The present time in seconds. -/
def now (c : Context) : Int :=
  c.environment.settings.now

end Context

/-- A computation that makes diagnostics and may fail. -/
abbrev Eval := EStateM Failure Diagnostics

namespace Eval

/-- Records a diagnostic. -/
def note (observation : Observation) (position : Option Nat) : Eval Unit :=
  modify fun ds => ds.push ⟨observation, position⟩

/-- The computation with its failure changed. -/
def mapFailure {α : Type} (f : Failure → Failure) (x : Eval α) : Eval α := fun ds =>
  match x ds with
  | .ok a ds => .ok a ds
  | .error failure ds => .error (f failure) ds

/-- A failure of the computation is placed at `position` unless it has a position. -/
def locatedAt {α : Type} (position : Nat) (x : Eval α) : Eval α :=
  x.mapFailure (Failure.locatedAt position)

/-- A failure of the computation is placed at `position`. -/
def placedAt {α : Type} (position : Nat) (x : Eval α) : Eval α :=
  x.mapFailure (Failure.placedAt position)

end Eval

/-- An operation that makes no diagnostics is a computation. -/
instance : MonadLift (Except Failure) Eval where
  monadLift
    | .ok a => pure a
    | .error failure => throw failure

end WeiCalc

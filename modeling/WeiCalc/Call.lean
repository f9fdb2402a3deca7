import WeiCalc.Abi.Codec
import WeiCalc.Builtin
import WeiCalc.Text.Quoted

/-!
# Calls of built-in functions

A call is a function and its arguments, and here is what functions make of these. A value of
another kind than the function takes is an error that names the function and the parameter; an
argument that is not there, or a signed integer in the place of a value, is a fault.
-/

namespace WeiCalc

/-- What a function gets: a value, or an integer where its parameter is signed. -/
inductive Argument where
  | value (v : Value)
  | signed (i : Int)
  deriving Repr, Inhabited

namespace Value

/--
The signed integer that a value stands for: numbers are read in two's complement, and text has to
hold an integer.
-/
def toInt : Value → Except EvalError Int
  | uint w _ => .ok w.toInt
  | text s => Abi.integerOfText s
  | v => .error ⟨.typeMismatch (.notSigned v.label), none⟩

end Value

/-- The arguments of a call of a function. -/
structure Call where
  function : Builtin
  arguments : List Argument

namespace Call

/-- The argument number `index`, which has to be a value. -/
def value (c : Call) (index : Nat) : Except Failure Value :=
  match c.arguments[index]? with
  | some (.value v) => .ok v
  | some (.signed _) => .error (.fault .argumentKind)
  | none => .error (.fault .argumentCount)

/-- The argument number `index`, which has to be a signed integer. -/
def signed (c : Call) (index : Nat) : Except Failure Int :=
  match c.arguments[index]? with
  | some (.signed i) => .ok i
  | some (.value _) => .error (.fault .argumentKind)
  | none => .error (.fault .argumentCount)

/-- The error that the argument number `index` is not what is expected. -/
def mismatch {α : Type} (c : Call) (index : Nat) (expected got : String) : Except Failure α :=
  .error (.error ⟨.typeMismatch
    (.argument c.function.name (c.function.paramName index) expected got), none⟩)

/-- The argument number `index`, which has to be a number. -/
def word (c : Call) (index : Nat) : Except Failure Word := do
  match ← c.value index with
  | .uint w _ => return w
  | v => c.mismatch index "a number" v.label

/-- The argument number `index`, which has to be a number, as a natural number. -/
def number (c : Call) (index : Nat) : Except Failure Nat :=
  return (← c.word index).toNat

/-- The argument number `index`, which has to be text. -/
def text (c : Call) (index : Nat) : Except Failure String := do
  match ← c.value index with
  | .text s => return s
  | v => c.mismatch index "a string" v.label

/-- The argument number `index`, which has to be bytes or text that holds them in hexadecimal. -/
def bytes (c : Call) (index : Nat) : Except Failure Bytes := do
  match ← c.value index with
  | .bytes bs => return bs
  | .text s =>
    match Hex.data? s with
    | some bs => return bs
    | none => c.mismatch index "hex data" (Text.quoted s)
  | v => c.mismatch index "hex data" v.label

/-- The argument number `index`, which has to be a truth value or a number; zero is false. -/
def flag (c : Call) (index : Nat) : Except Failure Bool := do
  match ← c.value index with
  | .bool b => return b
  | .uint w _ => return w != 0
  | v => c.mismatch index "a bool or number" v.label

end Call

end WeiCalc

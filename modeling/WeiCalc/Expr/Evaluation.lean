import WeiCalc.Call.Result
import WeiCalc.Expr
import WeiCalc.Unit

/-!
# What expressions evaluate to

Every part of an expression is evaluated one level further down than the whole, apart from the left
operands of operators, which share the level of the outermost operator. The operations for a node
are given those for the level below (`Below`), and `Evaluation.value` ties them together by
recursion on the number of levels that are left.

Arithmetic is checked first in either mode. In wrapping mode a result that is no word is wrapped
and recorded; in checked mode it is an error at the operator.
-/

namespace WeiCalc

/-- Is a result that is no word the cause? -/
def Cause.leavesWords : Cause → Bool
  | .overflow _ => true
  | .underflow _ => true
  | _ => false

/-- How expressions are evaluated one level down: as values, and as arguments that are signed. -/
structure Below where
  value : ArithmeticMode → Expr → Eval Value
  signed : ArithmeticMode → Expr → Eval Int

namespace Evaluation

/-- Stops at `position`. -/
def fail {α : Type} (cause : Cause) (position : Nat) : Eval α :=
  throw (.error ⟨cause, some position⟩)

/-- The value of a literal; a note tells when it was rounded. -/
def literal (l : NumberLiteral) (position : Nat) : Eval Value := do
  if l.exact.isSome then Eval.note (.literalRounded l.raw l.value.toNat) (some position)
  return .number l.value

/-- The value of an identifier. -/
def identifier (settings : Settings) (name : String) (position : Nat) : Eval Value :=
  if name = "max_uint" then return .number Word.greatest
  else if name = "now" then
    match Word.ofInt? settings.now with
    | some w => return .number w
    | none => throw (.fault .wordRange)
  else fail (.unknownIdentifier name) position

/-- The number that an expression evaluates to; errors name what it is an operand of. -/
def operand (below : Below) (mode : ArithmeticMode) (symbol : String) (e : Expr) : Eval Word := do
  match ← below.value mode e with
  | .uint w _ => return w
  | v => fail (.typeMismatch (.operand symbol v.label)) e.position

/-- The result of an operation on words that stands at `position`. -/
def arithmetic (mode : ArithmeticMode) (position : Nat)
    (operation : ArithmeticMode → Except Cause Word) : Eval Word :=
  match operation .checked with
  | .ok w => return w
  | .error cause =>
    if mode = .wrapping ∧ cause.leavesWords then do
      Eval.note .wrapped (some position)
      operation .wrapping
    else fail cause position

/-- The result of a binary operator, once its left operand is known. -/
def combine (below : Below) (mode : ArithmeticMode) (op : BinaryOp) (left : Word) (right : Expr)
    (position : Nat) : Eval Word := do
  let r ← operand below mode op.symbol right
  arithmetic mode position fun mode => Arithmetic.apply mode op left r

/-- An operation in a chain of operators, without its left operand. -/
structure Link where
  op : BinaryOp
  right : Expr
  position : Nat

/-- Operators that are nested to the left: what stands left of all of them, and the operations from
the innermost one on. -/
structure Chain where
  first : Expr
  innermost : Link
  outer : List Link

/--
Goes down the left operands of an operation. `outer` holds the operations that have been passed, the
last one first.
-/
def collect : (left : Expr) → Link → (outer : List Link) → Chain
  | .binary left op right position, link, outer =>
    collect left ⟨op, right, position⟩ (link :: outer)
  | e, link, outer => ⟨e, link, outer⟩

/-- The result of a chain. Its operations are worked out one after the other, all on one level. -/
def folded (below : Below) (mode : ArithmeticMode) (c : Chain) : Eval Word := do
  let first ← operand below mode c.innermost.op.symbol c.first
  (c.innermost :: c.outer).foldlM
    (fun left l => combine below mode l.op left l.right l.position) first

/-- The unit of a name. -/
def unitOf (name : String) (position : Nat) : Eval MeasureUnit :=
  match MeasureUnit.ofName? name with
  | some u => return u
  | none => fail (.unit (.unknown name)) position

/--
An amount times a factor. A literal that is no integer is rounded after it has been multiplied, so
that it loses no digits.
-/
def scaled (below : Below) (mode : ArithmeticMode) (factor : Nat) (e : Expr) : Eval Word := do
  match e with
  | .number ⟨_, raw, some q⟩ position =>
    let exact := q * factor
    let n := NumberLiteral.rounded exact
    if exact.den ≠ 1 then Eval.note (.literalRounded raw n) (some position)
    match Word.ofNat? n with
    | some w => return w
    | none => fail (.overflow (.scaled raw factor)) position
  | e =>
    let amount ← operand below mode "unit" e
    arithmetic .checked e.position fun mode => Arithmetic.mul mode amount (BitVec.ofNat 256 factor)

/-- The unit that an amount to be converted is in, unless that is left to the target. -/
def sourceUnit? : Expr → Eval (Option MeasureUnit)
  | .converted _ unit position => return some (← unitOf unit position)
  | .measured _ unit position => return some (← unitOf unit position).family.base
  | _ => return none

/-- An amount converted to a unit, rounded down; a note tells when something was lost. -/
def conversion (below : Below) (mode : ArithmeticMode) (amount : Expr) (unit : String)
    (position : Nat) : Eval Value := do
  let target ← unitOf unit position
  let source := (← sourceUnit? amount).getD target.family.base
  if source.family ≠ target.family then
    fail (.unit (.families source.name source.family.name target.name target.family.name)) position
  let n := (← scaled below mode source.factor amount).toNat
  if n % target.factor ≠ 0 then
    Eval.note (.conversionTruncated source.name target.name) (some position)
  Value.ofNat (n / target.factor)

/-- The arguments of a call with `count` of them, from the argument number `index` on. -/
def arguments (below : Below) (mode : ArithmeticMode) (function : Builtin) (count : Nat) :
    (index : Nat) → List Expr → Eval (List Argument)
  | _, [] => return []
  | index, e :: es => do
    let first ←
      if function.paramKind index count = .int then Argument.signed <$> below.signed mode e
      else Argument.value <$> below.value mode e
    return first :: (← arguments below mode function count (index + 1) es)

/-- The function of a name for a call with `count` arguments. -/
def functionFor (name : String) (count : Nat) : Except Cause Builtin := do
  let function ← Builtin.ofName name
  function.checkCount count
  return function

/-- The value of a call. -/
def call (env : Environment) (below : Below) (mode : ArithmeticMode) (name : String)
    (args : List Expr) (position : Nat) : Eval Value := do
  let function ← Eval.placedAt position (liftM (functionFor name args.length))
  let args ← arguments below mode function args.length 0 args
  Eval.locatedAt position (Call.result env ⟨function, args⟩)

/-- The value of an expression whose parts are one level down. -/
def node (env : Environment) (below : Below) (mode : ArithmeticMode) : Expr → Eval Value
  | .number l position => literal l position
  | .text contents _ => return .text contents
  | .identifier name position => identifier env.settings name position
  | .negate e position => do
    let w ← operand below mode "-" e
    return .number (← arithmetic mode position fun mode => Arithmetic.negate mode w)
  | .binary left op right position => do
    return .number (← folded below mode (collect left ⟨op, right, position⟩ []))
  | .measured amount unit position => do
    let u ← unitOf unit position
    return .number (← scaled below mode u.factor amount)
  | .converted amount unit position => conversion below mode amount unit position
  | .call name args position => call env below mode name args position
  | .unchecked e _ => below.value .wrapping e

/-- The signed integer that a value stands for, for an argument at `position`. -/
def signedOf (v : Value) (position : Nat) : Eval Int :=
  Eval.locatedAt position (liftM v.toInt)

/-- Stops since no level is left for an expression at `position`. -/
def refuse {α : Type} (env : Environment) (position : Nat) : Eval α :=
  throw (.error (env.tooDeep position))

mutual

/-- The value of an expression, with `levels` levels of nesting left. -/
def value (env : Environment) : (levels : Nat) → ArithmeticMode → Expr → Eval Value
  | 0, _, e => refuse env e.position
  | levels + 1, mode, e => node env ⟨value env levels, signed env levels⟩ mode e

/--
The signed integer that an expression stands for as an argument, with `levels` levels of nesting
left. A minus in front makes a number below zero here.
-/
def signed (env : Environment) : (levels : Nat) → ArithmeticMode → Expr → Eval Int
  | 0, _, e => refuse env e.position
  | levels + 1, mode, .negate e _ => return -(← signed env levels mode e)
  | levels + 1, mode, e => do
    signedOf (← node env ⟨value env levels, signed env levels⟩ mode e) e.position

end

end Evaluation

/-- The value of an expression. -/
def Context.value (c : Context) (e : Expr) : Eval Value :=
  Evaluation.value c.environment c.levels c.mode e

end WeiCalc

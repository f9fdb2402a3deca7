import Mathlib
import WeiCalc.Expr.Evaluation

/-!
# Chains of operators

The evaluation takes a chain of operators apart and works it out in a loop, so that its length does
not count as nesting.  The loop does what a recursion on the left operands does.

* `folded_collect`: a chain that has been taken apart has the result of the recursion `chain`.
* `node_binary`: an operation through this recursion.
* `plainNode`, `plainValue`: the evaluation that evaluates the left operand, then the right operand,
  and then applies the operator.
* `Context.value_eq_plainValue`: **both evaluations do the same.**
-/

namespace WeiCalc

/-- Is this an operation whose left operand may share its level? -/
def Expr.isBinary : Expr → Bool
  | .binary .. => true
  | _ => false

namespace Evaluation

/-! ### The loop as a recursion -/

/-- The result of a chain of operators that are nested to the left. -/
def chain (below : Below) (mode : ArithmeticMode) : (symbol : String) → Expr → Eval Word
  | _, .binary left op right position => do
    combine below mode op (← chain below mode op.symbol left) right position
  | symbol, e => operand below mode symbol e

variable {below : Below} {mode : ArithmeticMode}

/-- **A chain that has been taken apart has the result of the recursion.**  The induction goes down the
left operands, so the operations that have been passed on the way are arbitrary. -/
theorem folded_collect (left : Expr) (link : Link) (outer : List Link) :
    folded below mode (collect left link outer) = (do
      let w ← chain below mode link.op.symbol left
      (link :: outer).foldlM
        (fun left l => combine below mode l.op left l.right l.position) w) := by
  fun_induction collect left link outer with
  | case1 left op right position link outer ih =>
    rw [ih, chain, bind_assoc]
    simp only [List.foldlM_cons]
  | case2 e link outer h =>
    have hc : chain below mode link.op.symbol e = operand below mode link.op.symbol e := by
      rw [chain]
      exact h
    rw [hc]
    rfl

/-- An operation evaluates its left operand on its own level, as far as that is an operation too. -/
theorem node_binary (env : Environment) (left : Expr) (op : BinaryOp) (right : Expr)
    (position : Nat) :
    node env below mode (.binary left op right position) = (do
      let l ← chain below mode op.symbol left
      return .number (← combine below mode op l right position)) := by
  rw [node, folded_collect, bind_assoc]
  simp only [List.foldlM_cons, List.foldlM_nil, bind_pure]

/-! ### The plain recursion -/

/-- The number that an operand has been evaluated to; errors name what it is an operand of. -/
def numberOf (symbol : String) (position : Nat) : Value → Eval Word
  | .uint w _ => return w
  | v => fail (.typeMismatch (.operand symbol v.label)) position

/--
The value of an expression by plain recursion. The left operand of an operation comes first, on the
same level if it is an operation itself; then comes the right operand, and then the operator.
-/
def plainNode (env : Environment) (below : Below) (mode : ArithmeticMode) : Expr → Eval Value
  | .binary left op right position => do
    let a ← (if left.isBinary then plainNode env below mode left else below.value mode left :)
    let l ← numberOf op.symbol left.position a
    let b ← below.value mode right
    let r ← numberOf op.symbol right.position b
    return .number (← arithmetic mode position fun mode => Arithmetic.apply mode op l r)
  | e => node env below mode e

mutual

/-- The value of an expression by plain recursion, with `levels` levels of nesting left. -/
def plainValue (env : Environment) : (levels : Nat) → ArithmeticMode → Expr → Eval Value
  | 0, _, e => refuse env e.position
  | levels + 1, mode, e => plainNode env ⟨plainValue env levels, plainSigned env levels⟩ mode e

/-- The signed integer that an expression stands for as an argument, by plain recursion. -/
def plainSigned (env : Environment) : (levels : Nat) → ArithmeticMode → Expr → Eval Int
  | 0, _, e => refuse env e.position
  | levels + 1, mode, .negate e _ => return -(← plainSigned env levels mode e)
  | levels + 1, mode, e => do
    signedOf (← plainNode env ⟨plainValue env levels, plainSigned env levels⟩ mode e) e.position

end

/-! ### Both evaluations -/

theorem operand_eq (symbol : String) (e : Expr) :
    operand below mode symbol e = below.value mode e >>= numberOf symbol e.position := rfl

/-- The value of an operation is a number, so that it is an operand of any operator. -/
theorem node_binary_bind_numberOf (env : Environment) (left : Expr) (op : BinaryOp) (right : Expr)
    (position : Nat) (symbol : String) :
    node env below mode (.binary left op right position) >>= numberOf symbol position =
      chain below mode symbol (.binary left op right position) := by
  rw [node_binary, chain, bind_assoc]
  congr 1
  funext l
  rw [bind_assoc]
  exact bind_pure _

/-- What a left operand is evaluated to, on the level that it shares with its operation if it can. -/
theorem left_eq_chain (env : Environment) (symbol : String) (e : Expr) :
    (if e.isBinary then node env below mode e else below.value mode e) >>=
      numberOf symbol e.position = chain below mode symbol e := by
  cases e with
  | binary left op right position => exact node_binary_bind_numberOf env left op right position symbol
  | _ => rfl

/-- **One step of the plain recursion is one step of the evaluation**, whatever is done one level
down. -/
theorem plainNode_eq_node (env : Environment) (e : Expr) :
    plainNode env below mode e = node env below mode e := by
  fun_induction plainNode env below mode e with
  | case1 left op right position ih =>
    rw [ih, node_binary, ← left_eq_chain env, bind_assoc]
    simp only [combine, operand_eq, bind_assoc]
  | case2 e h => rfl

/-- An argument for a signed parameter goes down one level for each minus in front of it in both
evaluations, and what is behind the last one is evaluated by one step. -/
theorem plainSigned_succ_eq_signed {env : Environment} {levels : Nat}
    (hv : plainValue env levels = value env levels)
    (hs : plainSigned env levels = signed env levels) (mode : ArithmeticMode) (e : Expr) :
    plainSigned env (levels + 1) mode e = signed env (levels + 1) mode e := by
  have hnode : ∀ e : Expr,
      plainNode env ⟨plainValue env levels, plainSigned env levels⟩ mode e =
        node env ⟨value env levels, signed env levels⟩ mode e := by
    intro e
    rw [plainNode_eq_node, hv, hs]
  cases e with
  | negate e position => rw [plainSigned, signed, hs]
  | number l position => rw [plainSigned, signed, hnode] <;> nofun
  | text contents position => rw [plainSigned, signed, hnode] <;> nofun
  | identifier name position => rw [plainSigned, signed, hnode] <;> nofun
  | binary left op right position => rw [plainSigned, signed, hnode] <;> nofun
  | measured amount unit position => rw [plainSigned, signed, hnode] <;> nofun
  | converted amount unit position => rw [plainSigned, signed, hnode] <;> nofun
  | call name args position => rw [plainSigned, signed, hnode] <;> nofun
  | unchecked e position => rw [plainSigned, signed, hnode] <;> nofun

/-- **Both evaluations do the same** on any number of levels, by induction on the levels. -/
theorem plain_eq (env : Environment) (levels : Nat) :
    plainValue env levels = value env levels ∧ plainSigned env levels = signed env levels := by
  induction levels with
  | zero => exact ⟨rfl, rfl⟩
  | succ levels ih =>
    refine ⟨?_, ?_⟩
    · funext mode e
      rw [plainValue, value, plainNode_eq_node, ih.1, ih.2]
    · funext mode e
      exact plainSigned_succ_eq_signed ih.1 ih.2 mode e

end Evaluation

/-- The value of an expression by plain recursion. -/
def Context.plainValue (c : Context) (e : Expr) : Eval Value :=
  Evaluation.plainValue c.environment c.levels c.mode e

/-- **The loop over a chain of operators does what plain recursion does**, in every context and for
every expression. -/
theorem Context.value_eq_plainValue (c : Context) (e : Expr) (ds : Diagnostics) :
    c.value e ds = c.plainValue e ds := by
  rw [Context.value, Context.plainValue, (Evaluation.plain_eq c.environment c.levels).1]

end WeiCalc

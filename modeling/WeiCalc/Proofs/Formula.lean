import Mathlib
import WeiCalc.Expr.Evaluation
import WeiCalc.Proofs.Arithmetic
import WeiCalc.Proofs.Evaluation.Chain

/-!
# Formulas

The expressions of arithmetic alone: integers, unary minus and the binary operators.  Parentheses
leave no trace in a tree.  A formula stands for an integer, without any regard to words, and lists the
operations that lead to it.  An operation offends against the words if it divides by zero or its
result is no word.

* `Formula.value`, `Formula.exact`: the integer of a formula, where shifts drop the bits that leave
  the word, and where they do not.
* `Formula.operations`: the operations of a formula, depth first and from left to right.
* `Operation.First`: the first of some operations that offends.
* `Formula.depth`: how many levels the evaluation of a formula goes down.
-/

namespace WeiCalc

/-- An expression of arithmetic. -/
inductive Formula where
  | literal (w : Word) (raw : String) (position : Nat)
  | greatest (position : Nat)
  | negate (operand : Formula) (position : Nat)
  | binary (left : Formula) (op : BinaryOp) (right : Formula) (position : Nat)

/-- An operation of a calculation with integers, its operands, and where it stands. -/
inductive Operation where
  | negation (operand : Int) (position : Nat)
  | binary (op : BinaryOp) (left right : Int) (position : Nat)

/-- What is wrong with an operation. -/
inductive Offence where
  | zeroDivisor
  | belowZero
  | tooGreat
  deriving DecidableEq

/-- The category of the error that tells of an offence. -/
def Offence.kind : Offence → String
  | zeroDivisor => "DivisionByZero"
  | belowZero => "ArithmeticUnderflow"
  | tooGreat => "ArithmeticOverflow"

namespace Operation

def position : Operation → Nat
  | negation _ p => p
  | binary _ _ _ p => p

def result : Operation → Int
  | negation a _ => -a
  | binary op a b _ => op.truncated a b

/-- Is a quotient or a remainder by zero asked for? -/
def dividesByZero : Operation → Bool
  | negation .. => false
  | binary op _ b _ => op.Divides ∧ b = 0

/-- What is wrong with an operation, if anything is. -/
def offence (o : Operation) : Option Offence :=
  if o.dividesByZero then some .zeroDivisor
  else if o.result < 0 then some .belowZero
  else if Word.capacity ≤ o.result then some .tooGreat
  else none

/-- The first of the operations that offends, and how. -/
def First (ops : List Operation) (o : Operation) (f : Offence) : Prop :=
  ∃ before after, ops = before ++ o :: after ∧ (∀ b ∈ before, b.offence = none) ∧ o.offence = some f

theorem First.append {ops : List Operation} {o : Operation} {f : Offence} (h : First ops o f)
    (rest : List Operation) : First (ops ++ rest) o f := by
  obtain ⟨before, after, rfl, hb, ho⟩ := h
  exact ⟨before, after ++ rest, by simp, hb, ho⟩

theorem First.behind {ops rest : List Operation} {o : Operation} {f : Offence}
    (hs : ∀ b ∈ ops, b.offence = none) (h : First rest o f) : First (ops ++ rest) o f := by
  obtain ⟨before, after, rfl, hb, ho⟩ := h
  refine ⟨ops ++ before, after, by simp, ?_, ho⟩
  intro b hm
  rcases List.mem_append.mp hm with hm | hm
  · exact hs b hm
  · exact hb b hm

theorem First.singleton {o : Operation} {f : Offence} (h : o.offence = some f) : First [o] o f :=
  ⟨[], [], rfl, fun _ hb => absurd hb List.not_mem_nil, h⟩

theorem First.mem {ops : List Operation} {o : Operation} {f : Offence} (h : First ops o f) :
    o ∈ ops ∧ o.offence ≠ none := by
  obtain ⟨before, after, rfl, _, ho⟩ := h
  exact ⟨by simp, by simp [ho]⟩

theorem offence_eq_none {o : Operation} (hd : o.dividesByZero = false) (h0 : 0 ≤ o.result)
    (h1 : o.result < Word.capacity) : o.offence = none := by
  rw [offence, if_neg (by simp [hd]), if_neg (by omega), if_neg (by omega)]

theorem offence_of_dividesByZero {o : Operation} (hd : o.dividesByZero = true) :
    o.offence = some .zeroDivisor := by
  rw [offence, if_pos hd]

theorem offence_of_neg {o : Operation} (hd : o.dividesByZero = false) (h0 : o.result < 0) :
    o.offence = some .belowZero := by
  rw [offence, if_neg (by simp [hd]), if_pos h0]

theorem offence_of_le {o : Operation} (hd : o.dividesByZero = false)
    (h1 : Word.capacity ≤ o.result) : o.offence = some .tooGreat := by
  rw [offence, if_neg (by simp [hd]), if_neg (by omega), if_pos h1]

end Operation

namespace Formula

/-- The expression that a formula is. -/
def expr : Formula → Expr
  | literal w raw p => .number ⟨w, raw, none⟩ p
  | greatest p => .identifier "max_uint" p
  | negate e p => .negate e.expr p
  | binary left op right p => .binary left.expr op right.expr p

/-- The integer of a formula, once the operators have a meaning. -/
def integer (meaning : BinaryOp → Int → Int → Int) : Formula → Int
  | literal w _ _ => w.toNat
  | greatest _ => Word.capacity - 1
  | negate e _ => -e.integer meaning
  | binary left op right _ => meaning op (left.integer meaning) (right.integer meaning)

/-- The integer of a formula; shifts to the left drop the bits that leave the word. -/
def value (e : Formula) : Int := e.integer BinaryOp.truncated

/-- The integer of a formula; shifts to the left lose nothing. -/
def exact (e : Formula) : Int := e.integer BinaryOp.exact

/-- The operations of a formula, depth first and from left to right. -/
def operations : Formula → List Operation
  | literal .. => []
  | greatest _ => []
  | negate e p => e.operations ++ [.negation e.value p]
  | binary left op right p =>
    left.operations ++ right.operations ++ [.binary op left.value right.value p]

theorem integer_greatest (meaning : BinaryOp → Int → Int → Int) (p : Nat) :
    (greatest p).integer meaning = Word.greatest.toNat := by
  rw [integer, Word.greatest, BitVec.toNat_allOnes]
  rfl

@[simp] theorem value_negate (e : Formula) (p : Nat) : (negate e p).value = -e.value := rfl

@[simp] theorem value_binary (left : Formula) (op : BinaryOp) (right : Formula) (p : Nat) :
    (binary left op right p).value = op.truncated left.value right.value := rfl

/-- How many levels the evaluation of a formula goes down.  The operator chain that is a left operand
shares the level of the operator. -/
def depth : Formula → Nat
  | literal .. => 1
  | greatest _ => 1
  | negate e _ => e.depth + 1
  | binary (binary a op b q) _ right _ => max (binary a op b q).depth (right.depth + 1)
  | binary left _ right _ => max (left.depth + 1) (right.depth + 1)

/-- How many levels the evaluation of a formula goes down where it is a left operand. -/
def leftDepth : Formula → Nat
  | binary a op b q => (binary a op b q).depth
  | e => e.depth + 1

@[simp] theorem depth_binary (left : Formula) (op : BinaryOp) (right : Formula) (p : Nat) :
    (binary left op right p).depth = max left.leftDepth (right.depth + 1) := by
  cases left <;> rfl

@[simp] theorem leftDepth_binary (left : Formula) (op : BinaryOp) (right : Formula) (p : Nat) :
    (binary left op right p).leftDepth = max left.leftDepth (right.depth + 1) :=
  depth_binary left op right p

/-- The formula is not an operator with two operands. -/
def IsSimple (e : Formula) : Prop := ∀ left op right p, e ≠ binary left op right p

theorem leftDepth_of_isSimple {e : Formula} (h : e.IsSimple) : e.leftDepth = e.depth + 1 := by
  cases e with
  | literal w raw p => rfl
  | greatest p => rfl
  | negate e p => rfl
  | binary left op right p => exact absurd rfl (h left op right p)

theorem isSimple_literal (w : Word) (raw : String) (p : Nat) : (literal w raw p).IsSimple := by
  rintro left op right q ⟨⟩

theorem isSimple_greatest (p : Nat) : (greatest p).IsSimple := by
  rintro left op right q ⟨⟩

theorem isSimple_negate (e : Formula) (p : Nat) : (negate e p).IsSimple := by
  rintro left op right q ⟨⟩

theorem depth_pos (e : Formula) : 0 < e.depth := by
  cases e with
  | literal w raw p => exact Nat.one_pos
  | greatest p => exact Nat.one_pos
  | negate e p => exact Nat.succ_pos _
  | binary left op right p =>
    rw [depth_binary]
    omega

end Formula

/-! ### Evaluating formulas -/

namespace Evaluation

variable {below : Below} {mode : ArithmeticMode}

/-- A left operand that is no operator itself is one level down. -/
theorem chain_formula (symbol : String) {e : Formula} (h : e.IsSimple) :
    chain below mode symbol e.expr = operand below mode symbol e.expr := by
  cases e with
  | literal w raw p => rfl
  | greatest p => rfl
  | negate e p => rfl
  | binary left op right p => exact absurd rfl (h left op right p)

end Evaluation

end WeiCalc

import Mathlib
import WeiCalc.Proofs.Formula
import WeiCalc.Proofs.Run

/-!
# Formulas inside of `unchecked`

The operations of the ring of words, sums, differences, products, powers and shifts to the left with
a literal on their right, commute with the map from integers to words.  So inside of `unchecked` a
formula of these has the value that it has as an integer, modulo the capacity of words, however often
a result is wrapped on the way.

* `Formula.IsPolynomial`: the formulas of the ring operations.
* `Evaluation.arithmetic_wraps`: one operation, whether the checked operation answers or not.
* `Evaluation.value_wraps`: a formula on any number of levels.
* `Context.value_unchecked_formula`: a formula inside of `unchecked`.
-/

namespace WeiCalc

/-- Does the formula have ring operations only?  What a power is raised to and what a shift moves by
is written out as a literal. -/
inductive Formula.IsPolynomial : Formula → Prop
  | literal (w : Word) (raw : String) (p : Nat) : IsPolynomial (.literal w raw p)
  | greatest (p : Nat) : IsPolynomial (.greatest p)
  | negate {e : Formula} {p : Nat} : IsPolynomial e → IsPolynomial (.negate e p)
  | binary {left right : Formula} {op : BinaryOp} {p : Nat} : op.IsRing → IsPolynomial left →
      IsPolynomial right → (op = .pow ∨ op = .shiftLeft → ∃ w raw q, right = .literal w raw q) →
      IsPolynomial (.binary left op right p)

@[simp] theorem Formula.exact_binary (left : Formula) (op : BinaryOp) (right : Formula) (p : Nat) :
    (binary left op right p).exact = op.exact left.exact right.exact := rfl

/-- The computation answers the integer `z` as a word, or it stops for want of levels, where `deep`
holds.  It may make diagnostics. -/
def Wraps {α : Type} (env : Environment) (deep : Prop) (z : Int) (out : Word → α) (x : Eval α) :
    Prop :=
  ∀ ds, (∃ ds', x ds = .ok (out (z : Word)) ds') ∨
    (deep ∧ ∃ p ds', x ds = .error (.error (env.tooDeep p)) ds')

namespace Wraps

variable {α β : Type} {env : Environment} {deep : Prop}

theorem pure {z : Int} {w : Word} (h : w = (z : Word)) (out : Word → α) :
    Wraps env deep z out (Pure.pure (out w)) := by
  intro ds
  exact Or.inl ⟨ds, by rw [h]; rfl⟩

theorem mono {deep' : Prop} {z : Int} {out : Word → α} {x : Eval α} (hd : deep → deep')
    (h : Wraps env deep z out x) : Wraps env deep' z out x := by
  intro ds
  rcases h ds with hw | ⟨hp, he⟩
  · exact Or.inl hw
  · exact Or.inr ⟨hd hp, he⟩

theorem bind {z z' : Int} {out : Word → α} {out' : Word → β} {x : Eval α} {f : α → Eval β}
    (hx : Wraps env deep z out x) (hf : Wraps env deep z' out' (f (out (z : Word)))) :
    Wraps env deep z' out' (x >>= f) := by
  intro ds
  rcases hx ds with ⟨t, hr⟩ | ⟨hd, p, t, hr⟩
  · rw [bind_of_ok hr]
    exact hf t
  · refine Or.inr ⟨hd, p, t, ?_⟩
    rw [bind_run, hr]

end Wraps

namespace Evaluation

variable {env : Environment} {below : Below} {deep : Prop}

/-! ### One operation -/

/-- Both routes, the checked operation and the wrapping one behind a note, lead to the same word. -/
theorem arithmetic_wraps {z : Int} {operation : ArithmeticMode → Except Cause Word} (position : Nat)
    (hok : ∀ mode w, operation mode = .ok w → w = (z : Word))
    (hwrapping : ∃ w, operation .wrapping = .ok w)
    (hchecked : ∀ cause, operation .checked = .error cause → cause.leavesWords = true) :
    Wraps env deep z id (arithmetic .wrapping position operation) := by
  intro ds
  refine Or.inl ?_
  rw [arithmetic]
  cases hr : operation .checked with
  | ok w => exact ⟨ds, by rw [hok _ w hr]; rfl⟩
  | error cause =>
    obtain ⟨w, hw⟩ := hwrapping
    have hn : Eval.note .wrapped (some position) ds =
      .ok () (ds.push ⟨.wrapped, some position⟩) := rfl
    refine ⟨ds.push ⟨.wrapped, some position⟩, ?_⟩
    dsimp only
    rw [if_pos ⟨rfl, hchecked cause hr⟩, bind_of_ok hn, hw, hok _ w hw]
    rfl

theorem apply_wraps {op : BinaryOp} {x y : Int} (hop : op.IsRing)
    (hy : op = .pow ∨ op = .shiftLeft → y = (y : Word).toNat) (position : Nat) :
    Wraps env deep (op.exact x y) id
      (arithmetic .wrapping position fun mode => Arithmetic.apply mode op (x : Word) (y : Word)) := by
  apply arithmetic_wraps
  · intro mode w h
    exact Arithmetic.apply_ring hop rfl hy h
  · exact Arithmetic.apply_wrapping_isOk hop _ _
  · intro cause h
    rcases Arithmetic.apply_checked_error h with ⟨_, hd, _⟩ | ⟨rfl, _⟩ | ⟨rfl, _⟩
    · rcases hd with rfl | rfl <;> exact absurd hop (by decide)
    · rfl
    · rfl

theorem negate_wraps (z : Int) (position : Nat) :
    Wraps env deep (-z) id
      (arithmetic .wrapping position fun mode => Arithmetic.negate mode (z : Word)) := by
  apply arithmetic_wraps
  · intro mode w h
    obtain ⟨_, h⟩ := ite_eq_ok.mp h
    cases h
    rw [Int.cast_neg]
  · exact ⟨_, rfl⟩
  · intro cause h
    rw [Arithmetic.negate_checked] at h
    split_ifs at h
    cases h
    rfl

/-! ### Formulas -/

theorem operand_wraps {e : Formula} (symbol : String)
    (he : Wraps env deep e.exact Value.number (below.value .wrapping e.expr)) :
    Wraps env deep e.exact id (operand below .wrapping symbol e.expr) :=
  he.bind (Wraps.pure rfl id)

/-- What a power is raised to is the literal itself, and not only its image. -/
theorem literal_exact_eq {e : Formula} (h : ∃ w raw q, e = .literal w raw q) :
    e.exact = (e.exact : Word).toNat := by
  obtain ⟨w, raw, q, rfl⟩ := h
  change (w.toNat : Int) = (((w.toNat : Int) : Word).toNat : Int)
  rw [Word.intCast_toNat]

variable {levels : Nat}
  (hb : ∀ {e : Formula}, e.IsPolynomial →
    Wraps env (levels < e.depth) e.exact Value.number (below.value .wrapping e.expr))

include hb

theorem combine_wraps {op : BinaryOp} {right : Formula} (hop : op.IsRing)
    (hr : right.IsPolynomial)
    (hlit : op = .pow ∨ op = .shiftLeft → ∃ w raw q, right = .literal w raw q) (z : Int)
    (position : Nat) :
    Wraps env (levels < right.depth) (op.exact z right.exact) id
      (combine below .wrapping op (z : Word) right.expr position) :=
  (operand_wraps op.symbol (hb hr)).bind
    (apply_wraps hop (fun h => literal_exact_eq (hlit h)) position)

theorem chain_simple_wraps (symbol : String) {e : Formula} (he : e.IsPolynomial)
    (h : e.IsSimple) :
    Wraps env (levels + 1 < e.leftDepth) e.exact id (chain below .wrapping symbol e.expr) := by
  rw [chain_formula symbol h, Formula.leftDepth_of_isSimple h]
  exact (operand_wraps symbol (hb he)).mono Nat.succ_lt_succ

theorem chain_wraps (symbol : String) {e : Formula} (he : e.IsPolynomial) :
    Wraps env (levels + 1 < e.leftDepth) e.exact id (chain below .wrapping symbol e.expr) := by
  induction he generalizing symbol with
  | literal w raw p =>
    exact chain_simple_wraps hb symbol (.literal w raw p) (Formula.isSimple_literal w raw p)
  | greatest p =>
    exact chain_simple_wraps hb symbol (.greatest p) (Formula.isSimple_greatest p)
  | @negate e p he =>
    exact chain_simple_wraps hb symbol (.negate he) (Formula.isSimple_negate e p)
  | @binary left right op p hop hl hr hlit ihl ihr =>
    rw [Formula.leftDepth_binary, Formula.exact_binary]
    refine Wraps.bind ((ihl op.symbol).mono fun h => ?_)
      ((combine_wraps hb hop hr hlit left.exact p).mono fun h => ?_)
    · omega
    · omega

/-- **One step of the evaluation**: a formula has the image of its integer if its parts do. -/
theorem node_wraps {e : Formula} (he : e.IsPolynomial) :
    Wraps env (levels + 1 < e.depth) e.exact Value.number (node env below .wrapping e.expr) := by
  cases he with
  | literal w raw p => exact Wraps.pure (Word.intCast_toNat w).symm Value.number
  | greatest p =>
    rw [Formula.exact, Formula.integer_greatest]
    exact Wraps.pure (Word.intCast_toNat _).symm Value.number
  | @negate e p he =>
    refine Wraps.bind ((operand_wraps "-" (hb he)).mono Nat.succ_lt_succ) ?_
    exact (negate_wraps e.exact p).bind (Wraps.pure rfl Value.number)
  | @binary left right op p hop hl hr hlit =>
    rw [Formula.expr, node_binary, Formula.depth_binary, Formula.exact_binary]
    refine Wraps.bind ((chain_wraps hb op.symbol hl).mono fun h => ?_) ?_
    · omega
    · refine Wraps.bind ((combine_wraps hb hop hr hlit left.exact p).mono fun h => ?_)
        (Wraps.pure rfl Value.number)
      omega

omit hb

/-- **A formula has the image of its integer** on any number of levels. -/
theorem value_wraps (env : Environment) (levels : Nat) {e : Formula} (he : e.IsPolynomial) :
    Wraps env (levels < e.depth) e.exact Value.number (value env levels .wrapping e.expr) := by
  induction levels generalizing e with
  | zero =>
    intro ds
    exact Or.inr ⟨e.depth_pos, e.expr.position, ds, rfl⟩
  | succ levels ih => exact node_wraps (fun h => ih h) he

end Evaluation

/-- **Inside of `unchecked` a formula of ring operations has its exact integer modulo the capacity of
words**, in any context, unless it goes down more levels than there are. -/
theorem Context.value_unchecked_formula (c : Context) {e : Formula} (he : e.IsPolynomial)
    (position : Nat) (ds : Diagnostics) :
    (c.levels < e.depth + 1 ∧ ∃ p ds', c.value (.unchecked e.expr position) ds =
      .error (.error (c.environment.tooDeep p)) ds') ∨
    ∃ w ds', c.value (.unchecked e.expr position) ds = .ok (.number w) ds' ∧
      (w.toNat : Int) = e.exact % Word.capacity := by
  obtain ⟨env, mode, levels⟩ := c
  cases levels with
  | zero => exact Or.inl ⟨Nat.succ_pos _, position, ds, rfl⟩
  | succ levels =>
    rcases Evaluation.value_wraps env levels he ds with ⟨ds', hr⟩ | ⟨hd, hr⟩
    · exact Or.inr ⟨_, ds', hr, Word.toNat_intCast e.exact⟩
    · exact Or.inl ⟨Nat.succ_lt_succ hd, hr⟩

/-- Both the minus and the product of `-3 * (1 << 255)` wrap. -/
theorem Context.value_unchecked_product :
    let c := Context.start ⟨.standard 0, fun _ => Vector.replicate 32 0⟩
    let e := Formula.binary (.negate (.literal 3 "3" 11) 10) .mul
      (.binary (.literal 1 "1" 16) .shiftLeft (.literal 255 "255" 21) 16) 10
    e.IsPolynomial ∧ e.depth + 1 ≤ c.levels ∧
    ∃ w ds', c.value (.unchecked e.expr 0) #[] = .ok (.number w) ds' ∧ w.toNat = 2 ^ 255 := by
  intro c e
  have he : e.IsPolynomial := by
    refine .binary (by decide) (.negate (.literal 3 "3" 11))
      (.binary (by decide) (.literal 1 "1" 16) (.literal 255 "255" 21) fun _ => ⟨_, _, _, rfl⟩) ?_
    rintro (h | h) <;> cases h
  have hd : e.depth + 1 ≤ c.levels := by decide
  refine ⟨he, hd, ?_⟩
  rcases c.value_unchecked_formula he 0 #[] with ⟨hl, _⟩ | ⟨w, ds', hr, hw⟩
  · exact absurd hl (Nat.not_lt.mpr hd)
  · have hz : e.exact % Word.capacity = 2 ^ 255 := by decide
    rw [hz] at hw
    exact ⟨w, ds', hr, by exact_mod_cast hw⟩

end WeiCalc

import Mathlib
import WeiCalc.Proofs.Formula
import WeiCalc.Proofs.Run

/-!
# Checked evaluation of formulas

A formula in checked arithmetic has the value that it has as an integer, if none of its operations
offends against the words.  Else the evaluation stops at the first one that does.  Operations are
done in the order in which the formula lists them, also along chains of left operands.

* `Runs.bind`: one computation behind another does the operations of both.
* `Evaluation.arithmetic_runs`: one operation.
* `Evaluation.value_runs`: a formula on any number of levels.
* `Context.value_formula`: a formula in a checked context.
-/

namespace WeiCalc

/-- The computation does the operations, which lead to the integer `z`, and answers it as a word; or
it stops at the first that offends; or it stops for want of levels, where `deep` holds.  It makes no
diagnostics. -/
def Runs {α : Type} (env : Environment) (deep : Prop) (ops : List Operation) (z : Int)
    (out : Word → α) (x : Eval α) : Prop :=
  ∀ ds,
    ((∀ o ∈ ops, o.offence = none) ∧ ∃ w : Word, (w.toNat : Int) = z ∧ x ds = .ok (out w) ds) ∨
    (∃ o f cause, Operation.First ops o f ∧ cause.kind = f.kind ∧
      x ds = .error (.error ⟨cause, some o.position⟩) ds) ∨
    (deep ∧ ∃ p, x ds = .error (.error (env.tooDeep p)) ds)

namespace Runs

variable {α β : Type} {env : Environment} {deep : Prop}

theorem pure (w : Word) (out : Word → α) : Runs env deep [] w.toNat out (Pure.pure (out w)) := by
  intro ds
  exact Or.inl ⟨fun _ h => absurd h List.not_mem_nil, w, rfl, rfl⟩

theorem mono {deep' : Prop} {ops : List Operation} {z : Int} {out : Word → α} {x : Eval α}
    (hd : deep → deep') (h : Runs env deep ops z out x) : Runs env deep' ops z out x := by
  intro ds
  rcases h ds with hw | hf | ⟨hp, he⟩
  · exact Or.inl hw
  · exact Or.inr (Or.inl hf)
  · exact Or.inr (Or.inr ⟨hd hp, he⟩)

theorem bind {ops rest : List Operation} {z z' : Int} {out : Word → α} {out' : Word → β}
    {x : Eval α} {f : α → Eval β} (hx : Runs env deep ops z out x)
    (hf : ∀ w : Word, (w.toNat : Int) = z → Runs env deep rest z' out' (f (out w))) :
    Runs env deep (ops ++ rest) z' out' (x >>= f) := by
  intro ds
  rcases hx ds with ⟨hs, w, hw, hr⟩ | ⟨o, f', cause, ho, hk, hr⟩ | ⟨hd, p, hr⟩
  · rw [bind_of_ok hr]
    rcases hf w hw ds with ⟨hs', hw'⟩ | ⟨o, f', cause, ho, hk, hr'⟩ | ⟨hd, hr'⟩
    · refine Or.inl ⟨fun o ho => ?_, hw'⟩
      rcases List.mem_append.mp ho with ho | ho
      · exact hs o ho
      · exact hs' o ho
    · exact Or.inr (Or.inl ⟨o, f', cause, ho.behind hs, hk, hr'⟩)
    · exact Or.inr (Or.inr ⟨hd, hr'⟩)
  · refine Or.inr (Or.inl ⟨o, f', cause, ho.append rest, hk, ?_⟩)
    rw [bind_run, hr]
  · refine Or.inr (Or.inr ⟨hd, p, ?_⟩)
    rw [bind_run, hr]

/-- What is made of the word in the end. -/
theorem map {ops : List Operation} {z : Int} {out : Word → α} {out' : Word → β} {x : Eval α}
    {f : α → Eval β} (hx : Runs env deep ops z out x)
    (hf : ∀ w, f (out w) = Pure.pure (out' w)) : Runs env deep ops z out' (x >>= f) := by
  have h : Runs env deep (ops ++ []) z out' (x >>= f) := by
    refine hx.bind fun w hw => ?_
    rw [hf, ← hw]
    exact pure w out'
  rwa [List.append_nil] at h

end Runs

namespace Evaluation

variable {env : Environment} {below : Below} {deep : Prop}

/-! ### One operation -/

/-- An operation on words that agrees with an operation on integers. -/
theorem arithmetic_runs {o : Operation} {operation : ArithmeticMode → Except Cause Word}
    (hok : ∀ w, operation .checked = .ok w → (w.toNat : Int) = o.result ∧ o.dividesByZero = false)
    (herror : ∀ cause, operation .checked = .error cause →
      ∃ f, o.offence = some f ∧ cause.kind = f.kind) :
    Runs env deep [o] o.result id (arithmetic .checked o.position operation) := by
  intro ds
  rw [arithmetic]
  cases hr : operation .checked with
  | ok w =>
    obtain ⟨hw, hd⟩ := hok w hr
    have hlt := w.toNat_lt
    refine Or.inl ⟨fun o' ho => ?_, w, hw, rfl⟩
    rw [List.mem_singleton.mp ho]
    exact Operation.offence_eq_none hd (by omega) (by omega)
  | error cause =>
    obtain ⟨f, ho, hk⟩ := herror cause hr
    refine Or.inr (Or.inl ⟨o, f, cause, .singleton ho, hk, ?_⟩)
    dsimp only
    rw [if_neg fun h => ArithmeticMode.noConfusion h.1]
    rfl

theorem apply_runs (op : BinaryOp) (a b : Word) (position : Nat) :
    Runs env deep [.binary op a.toNat b.toNat position] (op.truncated a.toNat b.toNat) id
      (arithmetic .checked position fun mode => Arithmetic.apply mode op a b) := by
  refine arithmetic_runs (o := .binary op a.toNat b.toNat position) ?_ ?_
  · intro w h
    obtain ⟨hw, hd⟩ := Arithmetic.apply_checked_ok h
    refine ⟨hw, ?_⟩
    simpa [Operation.dividesByZero] using hd
  · intro cause h
    rcases Arithmetic.apply_checked_error h with ⟨rfl, hd, hz⟩ | ⟨rfl, rfl, h0⟩ | ⟨rfl, hop, h1⟩
    · refine ⟨.zeroDivisor, Operation.offence_of_dividesByZero ?_, rfl⟩
      simp [Operation.dividesByZero, hd, hz]
    · refine ⟨.belowZero, Operation.offence_of_neg ?_ h0, rfl⟩
      simp [Operation.dividesByZero, BinaryOp.Divides]
    · have hd : ¬op.Divides := by
        rintro (rfl | rfl) <;> exact absurd hop (by decide)
      refine ⟨.tooGreat, Operation.offence_of_le ?_ h1, rfl⟩
      simp [Operation.dividesByZero, hd]

theorem negate_runs (a : Word) (position : Nat) :
    Runs env deep [.negation a.toNat position] (-a.toNat) id
      (arithmetic .checked position fun mode => Arithmetic.negate mode a) := by
  refine arithmetic_runs (o := .negation a.toNat position) ?_ ?_
  · intro w h
    rw [Arithmetic.negate_checked] at h
    obtain ⟨rfl, h⟩ := ite_eq_ok.mp h
    cases h
    exact ⟨rfl, rfl⟩
  · intro cause h
    rw [Arithmetic.negate_checked] at h
    split_ifs at h with hz
    cases h
    have hp : a.toNat ≠ 0 := fun h0 => hz (BitVec.eq_of_toNat_eq h0)
    have h0 : (Operation.negation a.toNat position).result < 0 := by
      rw [Operation.result]
      omega
    exact ⟨.belowZero, Operation.offence_of_neg rfl h0, rfl⟩

/-! ### Formulas -/

theorem operand_runs {e : Formula} (symbol : String)
    (he : Runs env deep e.operations e.value Value.number (below.value .checked e.expr)) :
    Runs env deep e.operations e.value id (operand below .checked symbol e.expr) :=
  he.map fun _ => rfl

variable {levels : Nat}
  (hb : ∀ e : Formula,
    Runs env (levels < e.depth) e.operations e.value Value.number (below.value .checked e.expr))

include hb

theorem combine_runs (op : BinaryOp) (left : Word) (right : Formula) (position : Nat) :
    Runs env (levels < right.depth)
      (right.operations ++ [.binary op left.toNat right.value position])
      (op.truncated left.toNat right.value) id
      (combine below .checked op left right.expr position) := by
  refine (operand_runs op.symbol (hb right)).bind fun r hr => ?_
  rw [← hr]
  exact apply_runs op left r position

theorem chain_simple_runs (symbol : String) {e : Formula} (h : e.IsSimple) :
    Runs env (levels + 1 < e.leftDepth) e.operations e.value id
      (chain below .checked symbol e.expr) := by
  rw [chain_formula symbol h, Formula.leftDepth_of_isSimple h]
  exact (operand_runs symbol (hb e)).mono Nat.succ_lt_succ

/-- The operations of a left operand are done from its innermost left operand on. -/
theorem chain_runs (symbol : String) (e : Formula) :
    Runs env (levels + 1 < e.leftDepth) e.operations e.value id
      (chain below .checked symbol e.expr) := by
  induction e generalizing symbol with
  | literal w raw p => exact chain_simple_runs hb symbol (Formula.isSimple_literal w raw p)
  | greatest p => exact chain_simple_runs hb symbol (Formula.isSimple_greatest p)
  | negate e p => exact chain_simple_runs hb symbol (Formula.isSimple_negate e p)
  | binary left op right p ihl ihr =>
    rw [Formula.leftDepth_binary, Formula.operations, Formula.value_binary, List.append_assoc]
    refine Runs.bind ((ihl op.symbol).mono fun h => ?_) fun l hl => ?_
    · omega
    · rw [← hl]
      refine (combine_runs hb op l right p).mono fun h => ?_
      omega

/-- **One step of the evaluation**: a formula does its operations if its parts do theirs. -/
theorem node_runs (e : Formula) :
    Runs env (levels + 1 < e.depth) e.operations e.value Value.number
      (node env below .checked e.expr) := by
  cases e with
  | literal w raw p => exact Runs.pure w Value.number
  | greatest p =>
    rw [Formula.value, Formula.integer_greatest]
    exact Runs.pure Word.greatest Value.number
  | negate e p =>
    refine Runs.bind ((operand_runs "-" (hb e)).mono Nat.succ_lt_succ) fun w hw => ?_
    rw [Formula.value_negate, ← hw]
    exact (negate_runs w p).map fun _ => rfl
  | binary left op right p =>
    rw [Formula.expr, node_binary, Formula.depth_binary, Formula.operations, Formula.value_binary,
      List.append_assoc]
    refine Runs.bind ((chain_runs hb op.symbol left).mono fun h => ?_) fun l hl => ?_
    · omega
    · rw [← hl]
      refine Runs.map ((combine_runs hb op l right p).mono fun h => ?_) fun _ => rfl
      omega

omit hb

/-- **A formula does its operations** on any number of levels. -/
theorem value_runs (env : Environment) (levels : Nat) (e : Formula) :
    Runs env (levels < e.depth) e.operations e.value Value.number
      (value env levels .checked e.expr) := by
  induction levels generalizing e with
  | zero =>
    intro ds
    exact Or.inr (Or.inr ⟨e.depth_pos, e.expr.position, rfl⟩)
  | succ levels ih => exact node_runs ih e

end Evaluation

/-- **A formula in a checked context is evaluated as integers are**, unless it goes down more levels
than there are.  It has a value exactly if none of its operations divides by zero or leaves the words,
and that is its integer.  Otherwise the evaluation stops at the first operation that does, depth first
and from left to right, with the error of its offence. -/
theorem Context.value_formula (c : Context) (hc : c.mode = .checked) (e : Formula)
    (ds : Diagnostics) :
    (c.levels < e.depth ∧ ∃ p, c.value e.expr ds = .error (.error (c.environment.tooDeep p)) ds) ∨
    ((∀ v ds', c.value e.expr ds = .ok v ds' ↔
        (∀ o ∈ e.operations, o.offence = none) ∧
        (∃ w, v = .number w ∧ (w.toNat : Int) = e.value) ∧ ds' = ds) ∧
      ((∃ o ∈ e.operations, o.offence ≠ none) →
        ∃ o f cause, Operation.First e.operations o f ∧ cause.kind = f.kind ∧
          c.value e.expr ds = .error (.error ⟨cause, some o.position⟩) ds)) := by
  obtain ⟨env, mode, levels⟩ := c
  cases hc
  rcases Evaluation.value_runs env levels e ds with ⟨hs, w, hw, hr⟩ | ⟨o, f, cause, ho, hk, hr⟩ | hd
  · refine Or.inr ⟨fun v ds' => ?_, fun ⟨o, hm, hne⟩ => absurd (hs o hm) hne⟩
    have hr' : (Context.mk env .checked levels).value e.expr ds = .ok (.number w) ds := hr
    rw [hr']
    constructor
    · intro h
      cases h
      exact ⟨hs, ⟨w, rfl, hw⟩, rfl⟩
    · rintro ⟨_, ⟨w', rfl, hw'⟩, rfl⟩
      have he : w' = w := BitVec.eq_of_toNat_eq (by exact_mod_cast hw'.trans hw.symm)
      rw [he]
  · refine Or.inr ⟨fun v ds' => ?_, fun _ => ⟨o, f, cause, ho, hk, hr⟩⟩
    have hr' : (Context.mk env .checked levels).value e.expr ds =
      .error (.error ⟨cause, some o.position⟩) ds := hr
    rw [hr']
    constructor
    · intro h
      cases h
    · rintro ⟨hs, _⟩
      exact absurd (hs o ho.mem.1) ho.mem.2
  · exact Or.inl hd

/-- Of `1 / 0 + (0 - 1)` the quotient comes first. -/
theorem Context.value_formula_quotient :
    let c := Context.start ⟨.standard 0, fun _ => Vector.replicate 32 0⟩
    let e := Formula.binary (.binary (.literal 1 "1" 0) .div (.literal 0 "0" 4) 0) .add
      (.binary (.literal 0 "0" 9) .sub (.literal 1 "1" 13) 9) 0
    c.mode = .checked ∧ e.depth ≤ c.levels ∧
    ∃ cause, cause.kind = "DivisionByZero" ∧
      c.value e.expr #[] = .error (.error ⟨cause, some 0⟩) #[] := by
  intro c e
  have hd : e.depth ≤ c.levels := by decide
  refine ⟨rfl, hd, ?_⟩
  have hq : (Operation.binary .div 1 0 0).offence = some .zeroDivisor := by decide
  have hops : e.operations =
    [.binary .div 1 0 0, .binary .sub 0 1 9, .binary .add 0 (-1) 0] := rfl
  rcases c.value_formula rfl e #[] with ⟨hl, _⟩ | ⟨_, hf⟩
  · exact absurd hl (Nat.not_lt.mpr hd)
  obtain ⟨o, f, cause, ⟨before, after, he, hb, ho⟩, hk, hr⟩ :=
    hf ⟨.binary .div 1 0 0, by rw [hops]; simp, by rw [hq]; simp⟩
  rw [hops] at he
  cases before with
  | nil =>
    cases he
    rw [hq] at ho
    cases ho
    exact ⟨cause, hk, hr⟩
  | cons b before =>
    rw [List.cons_append] at he
    obtain ⟨rfl, -⟩ := List.cons.inj he
    rw [hb _ (List.mem_cons_self ..)] at hq
    cases hq

end WeiCalc

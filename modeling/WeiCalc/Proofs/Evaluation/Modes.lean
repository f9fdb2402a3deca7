import Mathlib
import WeiCalc.Proofs.Evaluation
import WeiCalc.Proofs.Arithmetic
import WeiCalc.Proofs.Diagnostics

/-!
# Checked and wrapping evaluations

Arithmetic that wraps tries the checked operation first, so that the two modes only part where a
result is no word.  There the checked evaluation stops with an error, and the wrapping one makes a
note and goes on.  Two runs of one expression are compared operation by operation.

* `Relaxes.bind`: sequences of computations that part only so, part only so.
* `Evaluation.node_relaxes`: one step of the evaluation in both modes.
* `Evaluation.below_relaxes`: the evaluation of expressions on any number of levels.
* `Context.value_wrapping`: an expression in a context and in the same context inside of
  `unchecked`.
-/

namespace WeiCalc

/-- The parts of an expression that are evaluated in its own mode of arithmetic. -/
def Expr.parts : Expr → List Expr
  | .negate e _ => [e]
  | .binary left _ right _ => [left, right]
  | .measured amount _ _ => [amount]
  | .converted amount _ _ => [amount]
  | .call _ args _ => args
  | _ => []

/-- In an expression an operation stands at a position, and this is what an error says about it if
its result is no word.  Operations inside of `unchecked` do not count. -/
inductive Expr.Exceeds : Expr → Cause → Nat → Prop
  | tooGreat {left right : Expr} {op : BinaryOp} {position a b : Nat} :
      op ∈ [.add, .mul, .pow] →
      Exceeds (.binary left op right position) (.overflow (.operation op a b)) position
  | difference {left right : Expr} {position a b : Nat} :
      Exceeds (.binary left .sub right position) (.underflow (.difference a b)) position
  | negation {e : Expr} {position a : Nat} :
      Exceeds (.negate e position) (.underflow (.negation a)) position
  | inside {e part : Expr} {cause : Cause} {position : Nat} :
      part ∈ e.parts → Exceeds part cause position → Exceeds e cause position

/-- The computations do the same, or the first one stops with an error at one of the sites where the
second one notes that it wraps a result.  The second one only adds diagnostics. -/
structure Relaxes {α : Type} (site : Cause → Nat → Prop) (x y : Eval α) : Prop where
  appends : Appends y
  run : ∀ ds, x ds = y ds ∨ ∃ cause position ds' more, site cause position ∧
    x ds = .error (.error ⟨cause, some position⟩) ds' ∧
    y.noted ds = ds'.push ⟨.wrapped, some position⟩ ++ more

namespace Relaxes

variable {α β : Type} {site : Cause → Nat → Prop}

theorem refl {x : Eval α} (h : Appends x) : Relaxes site x x :=
  ⟨h, fun _ => Or.inl rfl⟩

theorem mono {site' : Cause → Nat → Prop} (hs : ∀ cause p, site cause p → site' cause p)
    {x y : Eval α} (h : Relaxes site x y) : Relaxes site' x y := by
  refine ⟨h.appends, fun ds => ?_⟩
  rcases h.run ds with he | ⟨cause, p, ds', more, hp, hx, hy⟩
  · exact Or.inl he
  · exact Or.inr ⟨cause, p, ds', more, hs cause p hp, hx, hy⟩

/-- What comes behind a wrapped result can only add diagnostics to its note. -/
theorem bind {x y : Eval α} {f g : α → Eval β} (h : Relaxes site x y)
    (hf : ∀ a, Relaxes site (f a) (g a)) : Relaxes site (x >>= f) (y >>= g) := by
  refine ⟨h.appends.bind fun a => (hf a).appends, fun ds => ?_⟩
  rcases h.run ds with he | ⟨cause, p, ds', more, hp, hx, hy⟩
  · cases hr : y ds with
    | ok a ds' =>
      have hx : x ds = .ok a ds' := he.trans hr
      rcases (hf a).run ds' with he' | ⟨cause, p, t, more, hp, hfa, hga⟩
      · exact Or.inl (by rw [bind_of_ok hx, bind_of_ok hr, he'])
      · refine Or.inr ⟨cause, p, t, more, hp, ?_, ?_⟩
        · rw [bind_of_ok hx, hfa]
        · rw [Eval.noted_bind_of_ok hr, hga]
    | error e ds' => exact Or.inl (by rw [bind_run, bind_run, he, hr])
  · refine Or.inr ?_
    have hx' : (x >>= f) ds = .error (.error ⟨cause, some p⟩) ds' := by rw [bind_run, hx]
    cases hr : y ds with
    | ok a t =>
      rw [Eval.noted_of_ok hr] at hy
      obtain ⟨rest, hrest⟩ := (hf a).appends t
      refine ⟨cause, p, ds', more ++ rest, hp, hx', ?_⟩
      rw [Eval.noted_bind_of_ok hr, hrest, hy, Array.append_assoc]
    | error e t =>
      rw [Eval.noted_of_error hr] at hy
      exact ⟨cause, p, ds', more, hp, hx', by rw [Eval.noted_bind_of_error hr, hy]⟩

theorem map {x y : Eval α} (f : α → β) (h : Relaxes site x y) : Relaxes site (f <$> x) (f <$> y) :=
  h.bind fun a => refl (.pure (f a))

end Relaxes

/-- The evaluations one level down part only at operations of the expression. -/
structure Below.Relaxed (below : Below) : Prop where
  value : ∀ e : Expr, Relaxes e.Exceeds (below.value .checked e) (below.value .wrapping e)
  signed : ∀ e : Expr, Relaxes e.Exceeds (below.signed .checked e) (below.signed .wrapping e)

namespace Evaluation

variable {below : Below} {site : Cause → Nat → Prop}

theorem fail_appends {α : Type} (cause : Cause) (position : Nat) :
    Appends (fail cause position : Eval α) := .throw _

/-- What holds in a part holds in the whole. -/
theorem relaxes_of_part {α : Type} {e part : Expr} {x y : Eval α} (hp : part ∈ e.parts)
    (h : Relaxes part.Exceeds x y) : Relaxes e.Exceeds x y :=
  h.mono fun _ _ => .inside hp

/-! ### Arithmetic -/

theorem apply_leavesWords {op : BinaryOp} {a b : Word} {cause : Cause}
    (h : Arithmetic.apply .checked op a b = .error cause) (hc : cause.leavesWords = true)
    (left right : Expr) (position : Nat) :
    Expr.Exceeds (.binary left op right position) cause position := by
  rcases Arithmetic.apply_checked_error h with ⟨rfl, _⟩ | ⟨rfl, rfl, _⟩ | ⟨rfl, hop, _⟩
  · exact absurd hc Bool.false_ne_true
  · exact .difference
  · exact .tooGreat hop

theorem negate_error {a : Word} {cause : Cause} (h : Arithmetic.negate .checked a = .error cause)
    (e : Expr) (position : Nat) : Expr.Exceeds (.negate e position) cause position := by
  rw [Arithmetic.negate_checked] at h
  split_ifs at h
  cases h
  exact .negation

theorem arithmetic_appends (mode : ArithmeticMode) (position : Nat)
    (operation : ArithmeticMode → Except Cause Word) :
    Appends (arithmetic mode position operation) := by
  rw [arithmetic]
  cases operation .checked with
  | ok w => exact .pure w
  | error cause =>
    dsimp only
    split_ifs
    · exact (Appends.note _ _).bind fun _ => .liftCause _
    · exact fail_appends _ _

/-- The checked operation comes first in both modes. -/
theorem arithmetic_relaxes {position : Nat} {operation : ArithmeticMode → Except Cause Word}
    (hs : ∀ cause, operation .checked = .error cause → cause.leavesWords = true →
      site cause position) :
    Relaxes site (arithmetic .checked position operation)
      (arithmetic .wrapping position operation) := by
  unfold arithmetic
  cases hr : operation .checked with
  | ok w => exact .refl (.pure w)
  | error cause =>
    dsimp only
    rw [if_neg fun h => ArithmeticMode.noConfusion h.1]
    by_cases hc : cause.leavesWords = true
    · rw [if_pos ⟨rfl, hc⟩]
      refine ⟨(Appends.note _ _).bind fun _ => .liftCause _, fun ds => Or.inr ?_⟩
      have hn : Eval.note .wrapped (some position) ds =
        .ok () (ds.push ⟨.wrapped, some position⟩) := rfl
      obtain ⟨more, hm⟩ := Appends.liftCause (operation .wrapping) (ds.push ⟨.wrapped, some position⟩)
      exact ⟨cause, position, ds, more, hs cause hr hc, rfl, by rw [Eval.noted_bind_of_ok hn, hm]⟩
    · rw [if_neg fun h => hc h.2]
      exact .refl (fail_appends cause position)

theorem operand_relaxes (hb : below.Relaxed) (symbol : String) (e : Expr) :
    Relaxes e.Exceeds (operand below .checked symbol e) (operand below .wrapping symbol e) := by
  unfold operand
  refine (hb.value e).bind fun v => .refl ?_
  cases v with
  | uint w width => exact .pure w
  | text s => exact fail_appends _ _
  | bytes bs => exact fail_appends _ _
  | bool b => exact fail_appends _ _
  | list fields => exact fail_appends _ _

theorem combine_relaxes (hb : below.Relaxed) (op : BinaryOp) (l : Word) (left right : Expr)
    (position : Nat) :
    Relaxes (Expr.Exceeds (.binary left op right position))
      (combine below .checked op l right position) (combine below .wrapping op l right position) := by
  unfold combine
  have hr : right ∈ (Expr.binary left op right position).parts := by simp [Expr.parts]
  refine (relaxes_of_part hr (operand_relaxes hb op.symbol right)).bind fun r => ?_
  apply arithmetic_relaxes
  intro cause h hc
  exact apply_leavesWords h hc left right position

/-- A chain of operators is followed along its left operands. -/
theorem chain_relaxes (hb : below.Relaxed) (symbol : String) (e : Expr) :
    Relaxes e.Exceeds (chain below .checked symbol e) (chain below .wrapping symbol e) := by
  fun_induction chain below .checked symbol e with
  | case1 symbol left op right position ih =>
    have hl : left ∈ (Expr.binary left op right position).parts := by simp [Expr.parts]
    exact (relaxes_of_part hl ih).bind fun l => combine_relaxes hb op l left right position
  | case2 symbol e h =>
    have hw : chain below .wrapping symbol e = operand below .wrapping symbol e := by
      rw [chain]
      exact h
    rw [hw]
    exact operand_relaxes hb symbol e

/-! ### Units -/

theorem unitOf_appends (name : String) (position : Nat) : Appends (unitOf name position) := by
  rw [unitOf]
  cases MeasureUnit.ofName? name with
  | some u => exact .pure u
  | none => exact fail_appends _ _

theorem sourceUnit_appends (e : Expr) : Appends (sourceUnit? e) := by
  unfold sourceUnit?
  split
  · exact (unitOf_appends _ _).bind fun u => .pure _
  · exact (unitOf_appends _ _).bind fun u => .pure _
  · exact .pure _

/-- An amount is multiplied with its factor in checked arithmetic in both modes. -/
theorem scaled_relaxes (hb : below.Relaxed) (factor : Nat) (e : Expr) :
    Relaxes e.Exceeds (scaled below .checked factor e) (scaled below .wrapping factor e) := by
  unfold scaled
  split
  · next raw q position =>
    refine .refl (.noting ?_)
    cases Word.ofNat? (NumberLiteral.rounded (q * factor)) with
    | some w => exact .pure w
    | none => exact fail_appends _ _
  · exact (operand_relaxes hb "unit" e).bind fun amount => .refl (arithmetic_appends _ _ _)

theorem conversion_relaxes (hb : below.Relaxed) (amount : Expr) (unit : String) (position : Nat) :
    Relaxes amount.Exceeds (conversion below .checked amount unit position)
      (conversion below .wrapping amount unit position) := by
  unfold conversion
  refine (Relaxes.refl (unitOf_appends unit position)).bind fun target => ?_
  refine (Relaxes.refl (sourceUnit_appends amount)).bind fun source? => ?_
  by_cases hf : (source?.getD target.family.base).family = target.family
  · simp only [hf, ne_eq, not_true_eq_false, if_false]
    refine (scaled_relaxes hb _ amount).bind fun w => .refl ?_
    exact .noting (.lift _)
  · simp only [ne_eq, hf, not_false_eq_true, if_true]
    exact (Relaxes.refl (fail_appends _ _)).bind fun _ =>
      (scaled_relaxes hb _ amount).bind fun w => .refl (.noting (.lift _))

/-! ### Calls -/

theorem arguments_relaxes (hb : below.Relaxed) {e : Expr} (function : Builtin) (count : Nat)
    (args : List Expr) (ha : ∀ a ∈ args, a ∈ e.parts) :
    ∀ index, Relaxes e.Exceeds (arguments below .checked function count index args)
      (arguments below .wrapping function count index args) := by
  induction args with
  | nil =>
    intro index
    exact .refl (.pure _)
  | cons a args ih =>
    intro index
    have hp : a ∈ e.parts := ha a (List.mem_cons_self ..)
    have hrest : ∀ first : Argument, Relaxes e.Exceeds
        (do return first :: (← arguments below .checked function count (index + 1) args))
        (do return first :: (← arguments below .wrapping function count (index + 1) args)) := by
      intro first
      refine (ih ?_ (index + 1)).bind fun rest => .refl (.pure _)
      intro b hb
      exact ha b (List.mem_cons_of_mem _ hb)
    unfold arguments
    by_cases hk : function.paramKind index count = .int
    · simp only [if_pos hk]
      exact ((relaxes_of_part hp (hb.signed a)).map _).bind hrest
    · simp only [if_neg hk]
      exact ((relaxes_of_part hp (hb.value a)).map _).bind hrest

theorem call_relaxes (env : Environment) (hb : below.Relaxed) (name : String) (args : List Expr)
    (position : Nat) :
    Relaxes (Expr.Exceeds (.call name args position))
      (call env below .checked name args position) (call env below .wrapping name args position) := by
  unfold call
  refine (Relaxes.refl ((Appends.liftCause _).mapFailure _)).bind fun function => ?_
  have ha : ∀ a ∈ args, a ∈ (Expr.call name args position).parts := fun a h => h
  refine (arguments_relaxes hb function args.length args ha 0).bind fun values => ?_
  exact .refl ((Call.result_appends env ⟨function, values⟩).mapFailure _)

/-! ### Levels -/

theorem literal_appends (l : NumberLiteral) (position : Nat) : Appends (literal l position) := by
  rw [literal]
  exact .noting (.pure _)

theorem identifier_appends (settings : Settings) (name : String) (position : Nat) :
    Appends (identifier settings name position) := by
  rw [identifier]
  split_ifs
  · exact .pure _
  · cases Word.ofInt? settings.now with
    | some w => exact .pure _
    | none => exact .throw _
  · exact fail_appends _ _

/-- **One step of the evaluation in both modes**: they part only at an operation of the expression
if the evaluations of its parts do.  Inside of `unchecked` there is but one mode. -/
theorem node_relaxes (env : Environment) (hb : below.Relaxed) (e : Expr) :
    Relaxes e.Exceeds (node env below .checked e) (node env below .wrapping e) := by
  cases e with
  | number l position => exact .refl (literal_appends l position)
  | text contents position => exact .refl (.pure _)
  | identifier name position => exact .refl (identifier_appends env.settings name position)
  | negate e position =>
    have hp : e ∈ (Expr.negate e position).parts := by simp [Expr.parts]
    refine (relaxes_of_part hp (operand_relaxes hb "-" e)).bind fun w => ?_
    refine Relaxes.bind (arithmetic_relaxes fun cause h _ => ?_) fun r => .refl (.pure _)
    exact negate_error h e position
  | binary left op right position =>
    have hp : left ∈ (Expr.binary left op right position).parts := by simp [Expr.parts]
    rw [node_binary, node_binary]
    refine (relaxes_of_part hp (chain_relaxes hb op.symbol left)).bind fun l => ?_
    exact (combine_relaxes hb op l left right position).bind fun r => .refl (.pure _)
  | measured amount unit position =>
    have hp : amount ∈ (Expr.measured amount unit position).parts := by simp [Expr.parts]
    refine (Relaxes.refl (unitOf_appends unit position)).bind fun u => ?_
    exact (relaxes_of_part hp (scaled_relaxes hb u.factor amount)).bind fun w => .refl (.pure _)
  | converted amount unit position =>
    have hp : amount ∈ (Expr.converted amount unit position).parts := by simp [Expr.parts]
    exact relaxes_of_part hp (conversion_relaxes hb amount unit position)
  | call name args position => exact call_relaxes env hb name args position
  | unchecked e position => exact .refl (hb.value e).appends

theorem refuse_appends {α : Type} (env : Environment) (position : Nat) :
    Appends (refuse env position : Eval α) := .throw _

theorem signedOf_appends (v : Value) (position : Nat) : Appends (signedOf v position) :=
  (Appends.liftError _).mapFailure _

theorem signed_succ_relaxes {env : Environment} {levels : Nat}
    (hb : Below.Relaxed ⟨value env levels, signed env levels⟩) (e : Expr) :
    Relaxes e.Exceeds (signed env (levels + 1) .checked e) (signed env (levels + 1) .wrapping e) := by
  have hnode : ∀ e : Expr, Relaxes e.Exceeds
      (do signedOf (← node env ⟨value env levels, signed env levels⟩ .checked e) e.position)
      (do signedOf (← node env ⟨value env levels, signed env levels⟩ .wrapping e) e.position) :=
    fun e => (node_relaxes env hb e).bind fun v => .refl (signedOf_appends v _)
  cases e with
  | negate e position =>
    have hp : e ∈ (Expr.negate e position).parts := by simp [Expr.parts]
    exact (relaxes_of_part hp (hb.signed e)).bind fun i => .refl (.pure _)
  | number l position => exact hnode _
  | text contents position => exact hnode _
  | identifier name position => exact hnode _
  | binary left op right position => exact hnode _
  | measured amount unit position => exact hnode _
  | converted amount unit position => exact hnode _
  | call name args position => exact hnode _
  | unchecked e position => exact hnode _

/-- **The two modes part only at operations of the expression**, on any number of levels. -/
theorem below_relaxes (env : Environment) (levels : Nat) :
    Below.Relaxed ⟨value env levels, signed env levels⟩ := by
  induction levels with
  | zero =>
    exact ⟨fun e => .refl (refuse_appends env e.position), fun e => .refl (refuse_appends env e.position)⟩
  | succ levels ih => exact ⟨node_relaxes env ih, signed_succ_relaxes ih⟩

end Evaluation

/-- **Wrapping arithmetic relaxes checked arithmetic.**  In a checked context and in the same context
inside of `unchecked` an expression does the same: it has the same value, or the same error at the
same place, and the same diagnostics.  Otherwise the checked evaluation stops at one of the operations
`+`, `-`, `*`, `**` and unary minus since its result is no word, and the wrapping evaluation has made
the same diagnostics up to there, the next of which tells that the result of this operation was
wrapped. -/
theorem Context.value_wrapping (c : Context) (hc : c.mode = .checked) (e : Expr) (ds : Diagnostics) :
    c.value e ds = c.wrapping.value e ds ∨
    ∃ cause position ds' more, e.Exceeds cause position ∧
      c.value e ds = .error (.error ⟨cause, some position⟩) ds' ∧
      (c.wrapping.value e).noted ds = ds'.push ⟨.wrapped, some position⟩ ++ more := by
  obtain ⟨env, mode, levels⟩ := c
  cases hc
  exact ((Evaluation.below_relaxes env levels).value e).run ds

/-- The checked `0 - 1 + max_uint` stops at its first operation, the wrapping one wraps twice. -/
theorem Context.value_wrapping_difference :
    let c := Context.start ⟨.standard 0, fun _ => Vector.replicate 32 0⟩
    let e := Expr.binary (.binary (.number ⟨0, "0", none⟩ 0) .sub (.number ⟨1, "1", none⟩ 4) 0) .add
      (.identifier "max_uint" 8) 0
    c.mode = .checked ∧
    ∃ cause position ds' more, e.Exceeds cause position ∧
      c.value e #[] = .error (.error ⟨cause, some position⟩) ds' ∧
      (c.wrapping.value e).noted #[] = ds'.push ⟨.wrapped, some position⟩ ++ more := by
  intro c e
  refine ⟨rfl, ?_⟩
  have hx : c.value e #[] = .error (.error ⟨.underflow (.difference 0 1), some 0⟩) #[] := rfl
  have hy : ∃ w ds, c.wrapping.value e #[] = .ok (.number w) ds := ⟨_, _, rfl⟩
  rcases c.value_wrapping rfl e #[] with h | h
  · obtain ⟨w, ds, hw⟩ := hy
    rw [hx, hw] at h
    cases h
  · exact h

end WeiCalc

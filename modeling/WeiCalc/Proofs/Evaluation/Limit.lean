import Mathlib
import WeiCalc.Proofs.Evaluation.Nesting
import WeiCalc.Proofs.Grammar.Limit
import WeiCalc.Session

/-!
# Lines under two limits

The limit of nesting only decides which lines are refused.  A line that is not refused for nesting
has the same outcome under every greater limit: the same text, or the same error at the same
position, and the same diagnostics.

* `Call.result_withLimit`: functions do not look at the limit.
* `node_loosens`: one step of the evaluation, with fewer and with more levels left below it.
* `below_loosens`: **expressions that are evaluated with fewer and with more levels left.**
* `Environment.evaluate_withLimit`: **the outcome of a line under a greater limit.**
-/

namespace WeiCalc

/-- The environment with another limit of nesting. -/
def Environment.withLimit (env : Environment) (limit : Limit) : Environment :=
  { env with settings := { env.settings with maxDepth := limit } }

/-- The second evaluation does what the first one does, unless that is refused for nesting. -/
abbrev LoosensEval {α : Type} (p q : Eval α) : Prop :=
  Loosens (¬ Failure.Shallow ·) id p q

/-- Where it is placed does not turn a failure into one for nesting, or the other way round. -/
theorem LoosensEval.locatedAt {α : Type} {p q : Eval α} (h : LoosensEval p q) (position : Nat) :
    LoosensEval (p.locatedAt position) (q.locatedAt position) := by
  intro ds
  rcases h ds with ⟨f, ds', hp, hf⟩ | h
  · refine Or.inl ⟨f.locatedAt position, ds', ?_, ?_⟩
    · rw [Eval.locatedAt, Eval.mapFailure, hp]
    · cases f <;> exact hf
  · refine Or.inr ?_
    rw [moved_id] at h ⊢
    rw [Eval.locatedAt, Eval.locatedAt, Eval.mapFailure, Eval.mapFailure]
    change q ds = p ds at h
    rw [id_eq, h]

/-- Functions do not look at the limit. -/
@[simp] theorem Call.result_withLimit (env : Environment) (limit : Limit) (c : Call) :
    c.result (env.withLimit limit) = c.result env := by
  unfold Call.result
  cases c.function <;> rfl

/-- Expressions that are evaluated one level down, with fewer and with more levels left. -/
structure Below.Loosens (below below' : Below) : Prop where
  value : ∀ mode e, LoosensEval (below.value mode e) (below'.value mode e)
  signed : ∀ mode e, LoosensEval (below.signed mode e) (below'.signed mode e)

namespace Evaluation

/-! ### One step of the evaluation -/

section

variable {below below' : Below} (h : below.Loosens below') (mode : ArithmeticMode)

include h

theorem operand_loosens (symbol : String) (e : Expr) :
    LoosensEval (operand below mode symbol e) (operand below' mode symbol e) :=
  (h.value mode e).bind fun _ => .refl _

theorem combine_loosens (op : BinaryOp) (left : Word) (right : Expr) (position : Nat) :
    LoosensEval (combine below mode op left right position)
      (combine below' mode op left right position) :=
  (operand_loosens h mode op.symbol right).bind fun _ => .refl _

/-- A chain of operators, by recursion on its left operands. -/
theorem chain_loosens (symbol : String) (e : Expr) :
    LoosensEval (chain below mode symbol e) (chain below' mode symbol e) := by
  fun_induction chain below mode symbol e with
  | case1 symbol left op right position ih =>
    exact ih.bind fun l => combine_loosens h mode op l right position
  | case2 symbol e he =>
    rw [chain]
    · exact operand_loosens h mode symbol e
    · exact he

theorem scaled_loosens (factor : Nat) (e : Expr) :
    LoosensEval (scaled below mode factor e) (scaled below' mode factor e) := by
  unfold scaled
  split
  · exact .refl _
  · exact (operand_loosens h mode "unit" _).bind fun _ => .refl _

theorem conversion_loosens (amount : Expr) (unit : String) (position : Nat) :
    LoosensEval (conversion below mode amount unit position)
      (conversion below' mode amount unit position) := by
  unfold conversion
  refine Loosens.bind (.refl _) fun target => Loosens.bind (.refl _) fun source => ?_
  dsimp only
  split
  · exact Loosens.bind (.refl _) fun _ => (scaled_loosens h mode _ amount).bind fun _ => .refl _
  · exact (scaled_loosens h mode _ amount).bind fun _ => .refl _

theorem arguments_loosens (function : Builtin) (count index : Nat) (es : List Expr) :
    LoosensEval (arguments below mode function count index es)
      (arguments below' mode function count index es) := by
  induction es generalizing index with
  | nil => exact .refl _
  | cons e es ih =>
    by_cases hk : function.paramKind index count = .int
    · simp only [arguments, if_pos hk]
      refine ((h.signed mode e).map Argument.signed).bind fun first => ?_
      exact (ih (index + 1)).bind fun _ => .refl _
    · simp only [arguments, if_neg hk]
      refine ((h.value mode e).map Argument.value).bind fun first => ?_
      exact (ih (index + 1)).bind fun _ => .refl _

theorem call_loosens (env : Environment) (limit : Limit) (name : String) (args : List Expr)
    (position : Nat) :
    LoosensEval (call env below mode name args position)
      (call (env.withLimit limit) below' mode name args position) := by
  refine Loosens.bind (.refl _) fun function => ?_
  refine (arguments_loosens h mode function args.length 0 args).bind fun args => ?_
  rw [Call.result_withLimit]
  exact .refl _

/-- **One step of the evaluation**, with fewer and with more levels left below it. -/
theorem node_loosens (env : Environment) (limit : Limit) (e : Expr) :
    LoosensEval (node env below mode e) (node (env.withLimit limit) below' mode e) := by
  cases e with
  | number l position => exact .refl _
  | text contents position => exact .refl _
  | identifier name position => exact .refl _
  | negate e position => exact (operand_loosens h mode "-" e).bind fun _ => .refl _
  | binary left op right position =>
    rw [node_binary, node_binary]
    refine (chain_loosens h mode op.symbol left).bind fun l => ?_
    exact (combine_loosens h mode op l right position).bind fun _ => .refl _
  | measured amount unit position =>
    refine Loosens.bind (.refl _) fun u => ?_
    exact (scaled_loosens h mode u.factor amount).bind fun _ => .refl _
  | converted amount unit position => exact conversion_loosens h mode amount unit position
  | call name args position => exact call_loosens h mode env limit name args position
  | unchecked e position => exact h.value .wrapping e

end

/-! ### Whole evaluations -/

/-- An expression for which no level is left is refused for nesting. -/
theorem refuse_loosens {α : Type} (env : Environment) (position : Nat) (q : Eval α) :
    LoosensEval (refuse env position) q := by
  intro ds
  exact Or.inl ⟨_, ds, rfl, fun h => h⟩

/-- An argument for a signed parameter, with `levels` levels left below it. -/
theorem signed_succ_loosens {env : Environment} {limit : Limit} {levels levels' : Nat}
    (h : (Below.mk (value env levels) (signed env levels)).Loosens
      ⟨value (env.withLimit limit) levels', signed (env.withLimit limit) levels'⟩)
    (mode : ArithmeticMode) (e : Expr) :
    LoosensEval (signed env (levels + 1) mode e)
      (signed (env.withLimit limit) (levels' + 1) mode e) := by
  have hnode : LoosensEval _ _ := (node_loosens h mode env limit e).bind fun v =>
    Loosens.refl (signedOf v e.position)
  cases e with
  | negate e position => exact (h.signed mode e).bind fun _ => .refl _
  | number l position => exact hnode
  | text contents position => exact hnode
  | identifier name position => exact hnode
  | binary left op right position => exact hnode
  | measured amount unit position => exact hnode
  | converted amount unit position => exact hnode
  | call name args position => exact hnode
  | unchecked e position => exact hnode

/-- **Expressions that are evaluated with fewer and with more levels left**, by induction on the
fewer ones. -/
theorem below_loosens (env : Environment) (limit : Limit) {levels levels' : Nat}
    (hl : levels ≤ levels') :
    (Below.mk (value env levels) (signed env levels)).Loosens
      ⟨value (env.withLimit limit) levels', signed (env.withLimit limit) levels'⟩ := by
  induction levels generalizing levels' with
  | zero =>
    refine ⟨fun mode e => ?_, fun mode e => ?_⟩
    · exact refuse_loosens env e.position _
    · exact refuse_loosens env e.position _
  | succ levels ih =>
    obtain ⟨levels', rfl⟩ : ∃ n, levels' = n + 1 := ⟨levels' - 1, by omega⟩
    have hi : (Below.mk (value env levels) (signed env levels)).Loosens
        ⟨value (env.withLimit limit) levels', signed (env.withLimit limit) levels'⟩ :=
      ih (by omega)
    exact ⟨fun mode e => node_loosens hi mode env limit e, signed_succ_loosens hi⟩

end Evaluation

/-! ### Lines -/

namespace Environment

theorem value_loosens (env : Environment) {limit : Limit}
    (hl : env.settings.maxDepth.value ≤ limit.value) (line : String) :
    LoosensEval (env.value line) ((env.withLimit limit).value line) := by
  have hparsed : LoosensEval (liftM (Expr.ofLine env.settings.maxDepth line))
      (liftM (Expr.ofLine limit line)) := by
    intro ds
    rcases Expr.ofLine_loosens hl line with ⟨e, he, hn⟩ | he
    · exact Or.inl ⟨.error e, ds, by rw [he]; rfl, hn⟩
    · rw [he]
      exact Loosens.refl _ ds
  exact hparsed.bind fun e => (Evaluation.below_loosens env limit hl).value .checked e

theorem evaluate_loosens (env : Environment) {limit : Limit}
    (hl : env.settings.maxDepth.value ≤ limit.value) (line : String) :
    LoosensEval (env.evaluate line) ((env.withLimit limit).evaluate line) :=
  (env.value_loosens hl line).bind fun _ => .refl _

/-- **A line that is not refused for nesting has the same outcome under every greater limit**: the
same text or the same failure, and the same diagnostics. -/
theorem evaluate_withLimit (env : Environment) {limit : Limit}
    (hl : env.settings.maxDepth.value ≤ limit.value) (line : String) (ds : Diagnostics)
    (h : ∀ reached position ds',
      env.evaluate line ds ≠ .error (.error ⟨.nesting reached, position⟩) ds') :
    (env.withLimit limit).evaluate line ds = env.evaluate line ds := by
  rcases env.evaluate_loosens hl line ds with ⟨f, ds', hf, hn⟩ | hr
  · cases f with
    | fault f => exact absurd trivial hn
    | error e =>
      obtain ⟨cause, position⟩ := e
      cases cause with
      | nesting reached => exact absurd hf (h reached position ds')
      | _ => exact absurd trivial hn
  · rw [moved_id] at hr
    exact hr

open Grammar in
/-- A difference below zero is the same failure on two levels and on more. -/
theorem evaluate_withLimit_difference :
    let env := Environment.mk { Settings.standard 0 with maxDepth := .count 2 }
      fun _ => Vector.replicate 32 0
    env.settings.maxDepth.value ≤ (Limit.count 64).value ∧
    (∀ reached position ds',
      env.evaluate "2-3" #[] ≠ .error (.error ⟨.nesting reached, position⟩) ds') ∧
    (env.withLimit (.count 64)).evaluate "2-3" #[] = env.evaluate "2-3" #[] := by
  intro env
  have ht : Token.ofLine "2-3" = .ok
      ([⟨.number, "2", 0⟩, ⟨.minus, "-", 1⟩, ⟨.number, "3", 2⟩] ++ [⟨.stop, "", 3⟩]) := by
    decide +kernel
  have htwo : NumberLiteral.ofToken ⟨.number, "2", 0⟩ = .ok ⟨2, "2", none⟩ := by decide +kernel
  have hthree : NumberLiteral.ofToken ⟨.number, "3", 2⟩ = .ok ⟨3, "3", none⟩ := by decide +kernel
  have ha : Derives (.chained .product) [⟨.number, "2", 0⟩] (.number ⟨2, "2", none⟩ 0) 0 :=
    .operand (.base (.term (.bare (.number (List.mem_cons_self ..) htwo))))
  have hb : Derives (.chained .product) [⟨.number, "3", 2⟩] (.number ⟨3, "3", none⟩ 2) 0 :=
    .operand (.base (.term (.bare (.number (List.mem_cons_self ..) hthree))))
  have hd : Derives .conversion [⟨.number, "2", 0⟩, ⟨.minus, "-", 1⟩, ⟨.number, "3", 2⟩]
      (.binary (.number ⟨2, "2", none⟩ 0) .sub (.number ⟨3, "3", none⟩ 2) 0) 0 :=
    .amount (.operand (c := .shift) (.binary (c := .sum) (.operand (c := .sum) ha) rfl hb))
  have hs : ∀ reached position ds',
      env.evaluate "2-3" #[] ≠ .error (.error ⟨.nesting reached, position⟩) ds' := by
    intro reached position ds' h
    exact shallow_of_derives ht hd (by decide) (by decide) _ _ _ h
  have hl : env.settings.maxDepth.value ≤ (Limit.count 64).value := by decide
  exact ⟨hl, hs, evaluate_withLimit env hl "2-3" #[] hs⟩

end Environment

end WeiCalc

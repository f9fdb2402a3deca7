import Mathlib
import WeiCalc.Proofs.Arithmetic
import WeiCalc.Proofs.Evaluation
import WeiCalc.Proofs.Failure

/-!
# How evaluations fail

A claim about every error of an evaluation is proved by saying what holds of the expressions that are
evaluated, level by level.  It has to go down from an expression to its parts, and where it holds an
expression may fail for any reason but nesting; then the claim follows by induction on the levels.

* `Evaluation.ErrorInvariant`: what has to be known of expressions.
* `Evaluation.arithmetic_fails`: an operation that is done again in wrapping mode does not fail then.
* `Evaluation.ErrorInvariant.node`: **one step of the evaluation.**
* `Evaluation.ErrorInvariant.fails`: **the evaluation on any number of levels.**
-/

namespace WeiCalc

/-- Errors at the position are admitted, apart from those of nesting. -/
def EvalError.AdmittedAt (Q : EvalError → Prop) (position : Nat) : Prop :=
  ∀ cause : Cause, cause.Shallow → Q ⟨cause, some position⟩

/-- What holds of expressions whose errors are to be as `Q` says, with so many levels left: of those
that are evaluated as values, and of those that are signed arguments. -/
structure Evaluation.ErrorInvariant (env : Environment) (Q : EvalError → Prop)
    (I S : (levels : Nat) → Expr → Prop) : Prop where
  /-- An expression may fail where it stands. -/
  admitted {n : Nat} {e : Expr} : I n e → EvalError.AdmittedAt Q e.position
  refused {e : Expr} : I 0 e → Q (env.tooDeep e.position)
  negate {n : Nat} {e : Expr} {p : Nat} : I (n + 1) (.negate e p) → I n e
  /-- A left operand that is an operation itself shares the level. -/
  left {n : Nat} {a b : Expr} {op : BinaryOp} {p : Nat} :
    I (n + 1) (.binary a op b p) → if a.isBinary then I (n + 1) a else I n a
  right {n : Nat} {a b : Expr} {op : BinaryOp} {p : Nat} : I (n + 1) (.binary a op b p) → I n b
  measured {n : Nat} {e : Expr} {unit : String} {p : Nat} : I (n + 1) (.measured e unit p) → I n e
  converted {n : Nat} {e : Expr} {unit : String} {p : Nat} : I (n + 1) (.converted e unit p) → I n e
  unchecked {n : Nat} {e : Expr} {p : Nat} : I (n + 1) (.unchecked e p) → I n e
  argument {n : Nat} {name : String} {es : List Expr} {p : Nat} :
    I (n + 1) (.call name es p) → ∀ e ∈ es, I n e
  /-- Only functions that read integers in texts have signed arguments. -/
  signedArgument {n : Nat} {b : Builtin} {es : List Expr} {p : Nat} :
    I (n + 1) (.call b.name es p) → b ∈ Builtin.textReaders → ∀ e ∈ es, S n e
  /-- The errors of a function that have no position get that of its call. -/
  raised {n : Nat} {b : Builtin} {es : List Expr} {p : Nat} {err : EvalError} :
    I (n + 1) (.call b.name es p) → b.Raises err → Q (err.locatedAt p)
  plain {n : Nat} {e : Expr} : S n e → I n e
  signedNegate {n : Nat} {e : Expr} {p : Nat} : S (n + 1) (.negate e p) → S n e
  signed {n : Nat} {e : Expr} {err : EvalError} : S n e → err.Raised → Q (err.locatedAt e.position)

/-- The evaluation fails only with errors of which `Q` holds. -/
abbrev Fails {α : Type} (Q : EvalError → Prop) (x : Eval α) : Prop := FailsEval (Failure.Only Q) x

/-- The evaluations one level down fail as `Q` says. -/
structure Below.FailsAs (below : Below) (Q : EvalError → Prop) (I S : Expr → Prop) : Prop where
  value : ∀ mode e, I e → Fails Q (below.value mode e)
  signed : ∀ mode e, S e → Fails Q (below.signed mode e)

namespace Arithmetic

/-- What is needed of an operation that may be done again in wrapping mode. -/
def Recovers (operation : ArithmeticMode → Except Cause Word) : Prop :=
  ∀ cause, operation .checked = .error cause →
    cause.Shallow ∧ (cause.leavesWords = true → ∃ w, operation .wrapping = .ok w)

/-- **An operation that leaves the words is one of the ring of words**, and has a result there. -/
theorem apply_recovers (op : BinaryOp) (a b : Word) : Recovers fun mode => apply mode op a b := by
  intro cause h
  rcases apply_checked_error h with ⟨rfl, _⟩ | ⟨rfl, rfl, _⟩ | ⟨rfl, hop, _⟩
  · exact ⟨trivial, fun hc => absurd hc Bool.false_ne_true⟩
  · exact ⟨trivial, fun _ => ⟨a - b, rfl⟩⟩
  · have hring : op.IsRing := by
      simp only [List.mem_cons, List.not_mem_nil, or_false] at hop
      rcases hop with rfl | rfl | rfl <;> decide
    exact ⟨trivial, fun _ => apply_wrapping_isOk hring a b⟩

theorem negate_recovers (a : Word) : Recovers fun mode => negate mode a := by
  intro cause h
  simp only [negate_checked] at h
  split_ifs at h
  cases h
  exact ⟨trivial, fun _ => ⟨-a, rfl⟩⟩

end Arithmetic

namespace Evaluation

variable {Q : EvalError → Prop} {below : Below} {mode : ArithmeticMode} {position : Nat}

theorem fail_fails {α : Type} {cause : Cause} (hp : EvalError.AdmittedAt Q position)
    (hc : cause.Shallow) : Fails Q (fail cause position : Eval α) := .throw (hp cause hc)

/-! ### Leaves -/

theorem literal_fails (l : NumberLiteral) (position : Nat) : Fails Q (literal l position) :=
  .noting (.pure _)

theorem identifier_fails (settings : Settings) (name : String)
    (hp : EvalError.AdmittedAt Q position) : Fails Q (identifier settings name position) := by
  rw [identifier]
  split_ifs
  · exact .pure _
  · cases Word.ofInt? settings.now with
    | some w => exact .pure _
    | none => exact .throw trivial
  · exact fail_fails hp trivial

theorem unitOf_fails (name : String) (hp : EvalError.AdmittedAt Q position) :
    Fails Q (unitOf name position) := by
  rw [unitOf]
  cases MeasureUnit.ofName? name with
  | some u => exact .pure _
  | none => exact fail_fails hp trivial

theorem sourceUnit_fails {e : Expr} (hp : EvalError.AdmittedAt Q e.position) :
    Fails Q (sourceUnit? e) := by
  unfold sourceUnit?
  split
  · exact (unitOf_fails _ hp).bind fun _ => .pure _
  · exact (unitOf_fails _ hp).bind fun _ => .pure _
  · exact .pure _

/-- An operation fails at its operator, since it is only done again if it does not fail then. -/
theorem arithmetic_fails (hp : EvalError.AdmittedAt Q position)
    {operation : ArithmeticMode → Except Cause Word} (ho : Arithmetic.Recovers operation) :
    Fails Q (arithmetic mode position operation) := by
  rw [arithmetic]
  cases hc : operation .checked with
  | ok w => exact .pure _
  | error cause =>
    obtain ⟨hs, hw⟩ := ho cause hc
    dsimp only
    split_ifs with hm
    · obtain ⟨w, hw⟩ := hw hm.2
      rw [hw]
      exact (FailsEval.note _ _).bind fun _ => .pure w
    · exact fail_fails hp hs

/-! ### Operands and amounts -/

section

variable {e : Expr} (hv : ∀ mode, Fails Q (below.value mode e))
  (he : EvalError.AdmittedAt Q e.position)

include hv he

theorem operand_fails (symbol : String) : Fails Q (operand below mode symbol e) := by
  refine (hv mode).bind fun v => ?_
  cases v with
  | uint w width => exact .pure _
  | text s => exact fail_fails he trivial
  | bytes bs => exact fail_fails he trivial
  | bool b => exact fail_fails he trivial
  | list fields => exact fail_fails he trivial

theorem combine_fails (op : BinaryOp) (left : Word) (hp : EvalError.AdmittedAt Q position) :
    Fails Q (combine below mode op left e position) :=
  (operand_fails hv he op.symbol).bind fun r =>
    arithmetic_fails hp (Arithmetic.apply_recovers op left r)

theorem scaled_fails (factor : Nat) : Fails Q (scaled below mode factor e) := by
  unfold scaled
  split
  · refine .noting ?_
    split
    · exact .pure _
    · exact fail_fails he trivial
  · refine (operand_fails hv he _).bind fun amount => ?_
    exact arithmetic_fails he (Arithmetic.apply_recovers .mul amount _)

theorem conversion_fails (unit : String) (hp : EvalError.AdmittedAt Q position) :
    Fails Q (conversion below mode e unit position) := by
  rw [conversion]
  refine (unitOf_fails unit hp).bind fun target => (sourceUnit_fails he).bind fun source? => ?_
  have hrest : Fails Q (do
      let n := (← scaled below mode (source?.getD target.family.base).factor e).toNat
      if n % target.factor ≠ 0 then
        Eval.note (.conversionTruncated (source?.getD target.family.base).name target.name)
          (some position)
      Value.ofNat (n / target.factor)) :=
    (scaled_fails hv he _).bind fun w => .noting (.lift (Value.ofNat_faults _))
  by_cases hf : (source?.getD target.family.base).family = target.family
  · simp only [hf, ne_eq, not_true_eq_false, if_false]
    exact hrest
  · simp only [ne_eq, hf, not_false_eq_true, if_true]
    refine FailsEval.bind (fail_fails hp ?_) fun _ => hrest
    trivial

end

/-! ### Calls -/

/-- Only functions that read integers in texts have signed parameters. -/
theorem mem_textReaders {b : Builtin} {index count : Nat} (h : b.paramKind index count = .int) :
    b ∈ Builtin.textReaders := by
  by_contra hb
  have hparams : ∀ p ∈ b.params, p.2 ≠ .int := by
    revert hb
    cases b <;> decide
  rw [Builtin.paramKind] at h
  split_ifs at h
  cases hp : b.params[index]? with
  | none =>
    rw [hp] at h
    cases h
  | some p =>
    rw [hp] at h
    exact hparams p (List.mem_of_getElem? hp) h

theorem functionFor_shallow (name : String) (count : Nat) :
    FailsOnly Cause.Shallow (functionFor name count) :=
  (Builtin.ofName_shallow name).bind fun b => (b.checkCount_shallow count).bind fun _ => .pure _

theorem functionFor_name {name : String} {count : Nat} {b : Builtin}
    (h : functionFor name count = .ok b) : b.name = name := by
  obtain ⟨f, hf, h⟩ := except_bind_eq_ok h
  obtain ⟨_, -, h⟩ := except_bind_eq_ok h
  cases h
  rw [Builtin.ofName] at hf
  split at hf
  · rename_i g hg
    cases hf
    rw [Builtin.ofName?] at hg
    simpa using List.find?_some hg
  · cases hf

/-- A name that stands for no function is an error at the call. -/
theorem function_fails (name : String) (count : Nat) (hp : EvalError.AdmittedAt Q position) :
    Fails Q (Eval.placedAt position (liftM (functionFor name count))) := by
  refine (FailsEval.lift (functionFor_shallow name count).liftCause).mapFailure fun f h => ?_
  cases f with
  | error e => exact hp e.cause h.shallow
  | fault f => trivial

theorem function_eq_ok {name : String} {count : Nat} {b : Builtin} {ds ds' : Diagnostics}
    (h : Eval.placedAt position (liftM (functionFor name count)) ds = .ok b ds') :
    b.name = name := by
  cases hf : functionFor name count with
  | ok f =>
    rw [hf] at h
    cases h
    exact functionFor_name hf
  | error cause =>
    rw [hf] at h
    cases h

theorem arguments_fails {I S : Expr → Prop} (hb : below.FailsAs Q I S) {function : Builtin}
    (count : Nat) {es : List Expr} (hv : ∀ e ∈ es, I e)
    (hs : function ∈ Builtin.textReaders → ∀ e ∈ es, S e) (index : Nat) :
    Fails Q (arguments below mode function count index es) := by
  induction es generalizing index with
  | nil => exact .pure _
  | cons e es ih =>
    have hrest := ih (fun d hd => hv d (List.mem_cons_of_mem _ hd))
      (fun hf d hd => hs hf d (List.mem_cons_of_mem _ hd)) (index + 1)
    rw [arguments]
    split_ifs with hk
    · have he := hs (mem_textReaders hk) e (List.mem_cons_self ..)
      exact ((hb.signed mode e he).map _).bind fun _ => hrest.bind fun _ => .pure _
    · have he := hv e (List.mem_cons_self ..)
      exact ((hb.value mode e he).map _).bind fun _ => hrest.bind fun _ => .pure _

/-- An error that has no position gets one. -/
theorem locatedAt_fails {α : Type} {R : EvalError → Prop} {x : Eval α}
    (hx : FailsEval (Failure.Only R) x) (h : ∀ e, R e → Q (e.locatedAt position)) :
    Fails Q (x.locatedAt position) := by
  refine hx.mapFailure fun f hf => ?_
  cases f with
  | error e => exact h e hf
  | fault f => trivial

/-! ### Levels -/

namespace ErrorInvariant

variable {env : Environment} {I S : (levels : Nat) → Expr → Prop} {n : Nat}

theorem call (inv : ErrorInvariant env Q I S) (hb : below.FailsAs Q (I n) (S n)) {name : String}
    {es : List Expr} (h : I (n + 1) (.call name es position)) :
    Fails Q (Evaluation.call env below mode name es position) := by
  refine (function_fails name es.length (inv.admitted h)).bind_of_ok fun b ds ds' hok => ?_
  obtain rfl := function_eq_ok hok
  refine (arguments_fails hb _ (inv.argument h) (inv.signedArgument h) 0).bind fun values => ?_
  exact locatedAt_fails (Call.result_raises ⟨b, values⟩ env) fun _ => inv.raised h

theorem chain (inv : ErrorInvariant env Q I S) (hb : below.FailsAs Q (I n) (S n)) (symbol : String)
    {e : Expr} (h : if e.isBinary then I (n + 1) e else I n e) :
    Fails Q (Evaluation.chain below mode symbol e) := by
  fun_induction Evaluation.chain below mode symbol e with
  | case1 symbol left op right position ih =>
    have hr := inv.right h
    refine (ih (inv.left h)).bind fun l => ?_
    exact combine_fails (fun mode => hb.value mode _ hr) (inv.admitted hr) op l (inv.admitted h)
  | case2 symbol e hne =>
    have hs : e.isBinary = false := by
      cases e <;> first | rfl | exact absurd rfl (hne _ _ _ _)
    rw [hs] at h
    exact operand_fails (fun mode => hb.value mode e h) (inv.admitted h) symbol

/-- **One step of the evaluation fails as its parts do, or where it stands.** -/
theorem node (inv : ErrorInvariant env Q I S) (hb : below.FailsAs Q (I n) (S n)) {e : Expr}
    (h : I (n + 1) e) : Fails Q (Evaluation.node env below mode e) := by
  have hp := inv.admitted h
  cases e with
  | number l position => exact literal_fails l position
  | text contents position => exact .pure _
  | identifier name position => exact identifier_fails env.settings name hp
  | negate e position =>
    have he := inv.negate h
    refine (operand_fails (fun mode => hb.value mode e he) (inv.admitted he) "-").bind fun w => ?_
    exact (arithmetic_fails hp (Arithmetic.negate_recovers w)).bind fun _ => .pure _
  | binary left op right position =>
    have hr := inv.right h
    rw [node_binary]
    refine (inv.chain hb op.symbol (inv.left h)).bind fun l => ?_
    refine (combine_fails (fun mode => hb.value mode _ hr) (inv.admitted hr) op l hp).bind ?_
    exact fun _ => .pure _
  | measured amount unit position =>
    have he := inv.measured h
    refine (unitOf_fails unit hp).bind fun u => ?_
    refine (scaled_fails (fun mode => hb.value mode amount he) (inv.admitted he) u.factor).bind ?_
    exact fun _ => .pure _
  | converted amount unit position =>
    have he := inv.converted h
    exact conversion_fails (fun mode => hb.value mode amount he) (inv.admitted he) unit hp
  | call name args position => exact inv.call hb h
  | unchecked e position => exact hb.value .wrapping e (inv.unchecked h)

/-- An argument for a signed parameter goes down one level for each minus in front of it. -/
theorem signed_succ (inv : ErrorInvariant env Q I S)
    (hb : Below.FailsAs ⟨value env n, Evaluation.signed env n⟩ Q (I n) (S n)) {e : Expr}
    (h : S (n + 1) e) : Fails Q (Evaluation.signed env (n + 1) mode e) := by
  have hnode : Fails Q (do
      signedOf (← Evaluation.node env ⟨value env n, Evaluation.signed env n⟩ mode e) e.position) :=
    (inv.node hb (inv.plain h)).bind fun v =>
      locatedAt_fails (FailsEval.liftError v.toInt_raised) fun _ => inv.signed h
  cases e with
  | negate e position => exact (hb.signed mode e (inv.signedNegate h)).bind fun i => .pure _
  | number l position => exact hnode
  | text contents position => exact hnode
  | identifier name position => exact hnode
  | binary left op right position => exact hnode
  | measured amount unit position => exact hnode
  | converted amount unit position => exact hnode
  | call name args position => exact hnode
  | unchecked e position => exact hnode

/-- **The evaluation on any number of levels fails as the invariant says**, by induction on the
levels. -/
theorem fails (inv : ErrorInvariant env Q I S) (levels : Nat) :
    Below.FailsAs ⟨value env levels, Evaluation.signed env levels⟩ Q (I levels) (S levels) := by
  induction levels with
  | zero =>
    constructor
    · intro mode e h
      exact .throw (inv.refused h)
    · intro mode e h
      exact .throw (inv.refused (inv.plain h))
  | succ levels ih =>
    exact ⟨fun _ _ h => inv.node ih h, fun _ _ h => inv.signed_succ ih h⟩

end ErrorInvariant

end Evaluation

end WeiCalc

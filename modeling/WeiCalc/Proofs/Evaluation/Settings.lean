import Mathlib
import WeiCalc.Proofs.Evaluation.Chain
import WeiCalc.Proofs.Evaluation.Failure
import WeiCalc.Proofs.Grammar.Exact
import WeiCalc.Proofs.Token.Numeral
import WeiCalc.Session

/-!
# Lines that settings do not change

The clock, the layout of moments and the number of fraction digits are looked at by three names only.
A line that has none of these names has the same value in all environments with the same hash function
and the same limit of nesting, or it fails there in the same way.

* `Expr.Uses`: the names of identifiers and functions in a tree.
* `Grammar.Derives.uses`: **the tree of a phrase takes its names from the identifiers of the phrase.**
* `Call.result_congr`: functions of other names do not look at the settings.
* `Evaluation.node_congr`: one step of the evaluation in two environments.
* `Evaluation.below_congr`: **expressions without the three names, on any number of levels.**
* `Environment.value_eq_of_similar`: **the value of a line without the three names.**
-/

namespace WeiCalc

/-- The names that look at the settings: the clock, the layout of moments, the digits of a price. -/
def Settings.readers : List String := ["now", "unix", "get_price_from_tick"]

/-- The names of the identifiers and of the functions in a tree have a property. -/
inductive Expr.Uses (P : String → Prop) : Expr → Prop
  | number (l : NumberLiteral) (p : Nat) : Uses P (.number l p)
  | text (contents : String) (p : Nat) : Uses P (.text contents p)
  | identifier {name : String} (p : Nat) : P name → Uses P (.identifier name p)
  | negate {e : Expr} (p : Nat) : Uses P e → Uses P (.negate e p)
  | binary {a b : Expr} (op : BinaryOp) (p : Nat) : Uses P a → Uses P b → Uses P (.binary a op b p)
  | measured {e : Expr} (unit : String) (p : Nat) : Uses P e → Uses P (.measured e unit p)
  | converted {e : Expr} (unit : String) (p : Nat) : Uses P e → Uses P (.converted e unit p)
  | call {name : String} {es : List Expr} (p : Nat) : P name → (∀ e ∈ es, Uses P e) →
      Uses P (.call name es p)
  | unchecked {e : Expr} (p : Nat) : Uses P e → Uses P (.unchecked e p)

/-! ### The names in a tree -/

namespace Grammar

variable {P : String → Prop}

/-- **The tree of a phrase takes its names from the identifiers of the phrase.** -/
theorem Derives.uses {l : Level} {ts : List Token} {e : Expr} {n : Nat} (h : Derives l ts e n)
    (hp : ∀ t ∈ ts, t.kind = .identifier → P t.text) : e.Uses P := by
  induction h with
  | number _ _ => exact .number _ _
  | text _ => exact .text _ _
  | identifier hk => exact .identifier _ (hp _ (List.mem_cons_self ..) hk)
  | parens _ _ _ ih => exact ih fun t ht => hp t (by simp [ht])
  | unchecked _ _ _ _ ih => exact .unchecked _ (ih fun t ht => hp t (by simp [ht]))
  | first hf _ _ ih =>
    refine .call _ (hp _ (by simp) hf) fun d hd => ?_
    rw [List.mem_singleton.mp hd]
    exact ih fun t ht => hp t (by simp [ht])
  | next _ _ _ ih ih' =>
    cases ih fun t ht => hp t (by simp [ht]) with
    | call _ hf hes =>
      refine .call _ hf fun d hd => ?_
      rcases List.mem_append.mp hd with hd | hd
      · exact hes d hd
      · rw [List.mem_singleton.mp hd]
        exact ih' fun t ht => hp t (by simp [ht])
  | call _ _ ih => exact ih fun t ht => hp t (by simp [ht])
  | callBare hf _ _ => exact .call _ (hp _ (by simp) hf) fun d hd => absurd hd List.not_mem_nil
  | bare _ ih => exact ih hp
  | measured _ _ _ ih => exact .measured _ _ (ih fun t ht => hp t (by simp [ht]))
  | term _ ih => exact ih hp
  | negate _ _ ih => exact .negate _ (ih fun t ht => hp t (by simp [ht]))
  | base _ ih => exact ih hp
  | power _ _ _ ih ih' =>
    exact .binary _ _ (ih fun t ht => hp t (by simp [ht])) (ih' fun t ht => hp t (by simp [ht]))
  | operand _ ih => exact ih hp
  | binary _ _ _ ih ih' =>
    exact .binary _ _ (ih fun t ht => hp t (by simp [ht])) (ih' fun t ht => hp t (by simp [ht]))
  | amount _ ih => exact ih hp
  | converted _ _ _ ih => exact .converted _ _ (ih fun t ht => hp t (by simp [ht]))

open WeiCalc.Parser in
/-- The tree of a line takes its names from the identifiers of the line. -/
theorem uses_of_ofLine {maxDepth : Limit} {line : String} {ts : List Token} {e : Expr}
    (ht : Token.ofLine line = .ok ts) (h : Expr.ofLine maxDepth line = .ok e)
    (hp : ∀ t ∈ ts, t.kind = .identifier → P t.text) : e.Uses P := by
  rw [Expr.ofLine, ht, except_ok_bind] at h
  obtain ⟨s, hs⟩ := ofTokens_eq_ok.mp h
  have hstop : (ofTokens maxDepth ts).stop.kind = .stop := by
    obtain ⟨s, -, rfl⟩ := Token.ofLine_eq_ok ht
    rw [ofTokens_concat]
  obtain ⟨us, n, hd, -, hr⟩ :=
    acceptsInner_nested _ .expression _ _ _ hstop (line_eq_ok_iff.mp hs).2.1
  have hrest : ts = us ++ s.rest := hr.1
  refine hd.uses fun t ht hk => hp t ?_ hk
  rw [hrest]
  exact List.mem_append_left _ ht

end Grammar

/-! ### Functions -/

/-- Two environments that only differ in the clock and in how values are shown. -/
structure Environment.Similar (env env' : Environment) : Prop where
  hash : env.hash = env'.hash
  maxDepth : env.settings.maxDepth = env'.settings.maxDepth

/-- Functions of other names do not look at the settings. -/
theorem Call.result_congr {env env' : Environment} (h : env.hash = env'.hash) (c : Call)
    (hc : c.function.name ∉ Settings.readers) : c.result env = c.result env' := by
  unfold Call.result
  rw [h]
  cases hf : c.function with
  | unix =>
    rw [hf] at hc
    exact absurd (show Builtin.unix.name ∈ Settings.readers by decide) hc
  | priceOfTick =>
    rw [hf] at hc
    exact absurd (show Builtin.priceOfTick.name ∈ Settings.readers by decide) hc
  | _ => rfl

/-- Expressions that use names with a property are evaluated alike one level down. -/
structure Below.Congr (P : String → Prop) (below below' : Below) : Prop where
  value : ∀ mode {e : Expr}, e.Uses P → below.value mode e = below'.value mode e
  signed : ∀ mode {e : Expr}, e.Uses P → below.signed mode e = below'.signed mode e

namespace Evaluation

/-! ### One step of the evaluation -/

/-- Names other than `now` have the same value in all settings. -/
theorem identifier_congr (s s' : Settings) {name : String} (hn : name ∉ Settings.readers)
    (position : Nat) : identifier s name position = identifier s' name position := by
  have hnow : name ≠ "now" := by
    rintro rfl
    exact hn (by decide)
  rw [identifier, identifier, if_neg hnow, if_neg hnow]

section

variable {P : String → Prop} {below below' : Below} (h : below.Congr P below')
  (mode : ArithmeticMode) {e : Expr}

include h

theorem operand_congr (symbol : String) (he : e.Uses P) :
    operand below mode symbol e = operand below' mode symbol e := by
  rw [operand, operand, h.value mode he]

theorem combine_congr (op : BinaryOp) (left : Word) (he : e.Uses P) (position : Nat) :
    combine below mode op left e position = combine below' mode op left e position := by
  rw [combine, combine, operand_congr h mode op.symbol he]

/-- A chain of operators, by recursion on its left operands. -/
theorem chain_congr (symbol : String) (he : e.Uses P) :
    chain below mode symbol e = chain below' mode symbol e := by
  fun_induction chain below mode symbol e with
  | case1 symbol left op right position ih =>
    cases he with
    | binary _ _ hl hr =>
      rw [chain, ih hl]
      simp only [combine_congr h mode op _ hr]
  | case2 symbol e hne =>
    rw [chain]
    · exact operand_congr h mode symbol he
    · exact hne

theorem scaled_congr (factor : Nat) (he : e.Uses P) :
    scaled below mode factor e = scaled below' mode factor e := by
  unfold scaled
  split
  · rfl
  · rw [operand_congr h mode "unit" he]

theorem conversion_congr (he : e.Uses P) (unit : String) (position : Nat) :
    conversion below mode e unit position = conversion below' mode e unit position := by
  unfold conversion
  simp only [scaled_congr h mode _ he]

theorem arguments_congr (function : Builtin) (count index : Nat) {es : List Expr}
    (hes : ∀ e ∈ es, e.Uses P) :
    arguments below mode function count index es =
      arguments below' mode function count index es := by
  induction es generalizing index with
  | nil => rfl
  | cons e es ih =>
    have he : e.Uses P := hes e (List.mem_cons_self ..)
    have hrest : ∀ d ∈ es, d.Uses P := fun d hd => hes d (List.mem_cons_of_mem _ hd)
    rw [arguments, arguments, h.value mode he, h.signed mode he, ih (index + 1) hrest]

end

section

variable {below below' : Below} (h : below.Congr (· ∉ Settings.readers) below')
  (mode : ArithmeticMode) {env env' : Environment} (hash : env.hash = env'.hash)

include h hash

/-- The name of a function decides whether it looks at the settings, so its value is the same once
the name has been found. -/
theorem call_congr {name : String} {es : List Expr} (hn : name ∉ Settings.readers)
    (hes : ∀ e ∈ es, e.Uses (· ∉ Settings.readers)) (position : Nat) :
    call env below mode name es position = call env' below' mode name es position := by
  unfold call
  cases hf : functionFor name es.length with
  | error cause => rfl
  | ok function =>
    have hfn : function.name ∉ Settings.readers := functionFor_name hf ▸ hn
    have hr : ∀ args, Call.result env ⟨function, args⟩ = Call.result env' ⟨function, args⟩ :=
      fun args => Call.result_congr hash ⟨function, args⟩ hfn
    change (arguments below mode function es.length 0 es >>= fun args =>
        Eval.locatedAt position (Call.result env ⟨function, args⟩)) =
      (arguments below' mode function es.length 0 es >>= fun args =>
        Eval.locatedAt position (Call.result env' ⟨function, args⟩))
    rw [arguments_congr h mode function es.length 0 hes]
    simp only [hr]

/-- **One step of the evaluation** in two environments. -/
theorem node_congr {e : Expr} (he : e.Uses (· ∉ Settings.readers)) :
    node env below mode e = node env' below' mode e := by
  cases he with
  | number l p => rfl
  | text contents p => rfl
  | identifier p hn => exact identifier_congr env.settings env'.settings hn p
  | negate p he => rw [node, node, operand_congr h mode "-" he]
  | binary op p hl hr =>
    rw [node_binary, node_binary, chain_congr h mode op.symbol hl]
    simp only [combine_congr h mode op _ hr]
  | measured unit p he =>
    rw [node, node]
    simp only [scaled_congr h mode _ he]
  | converted unit p he => exact conversion_congr h mode he unit p
  | call p hn hes => exact call_congr h mode hash hn hes p
  | unchecked p he => exact h.value .wrapping he

end

/-! ### Whole evaluations -/

variable {env env' : Environment} (h : env.Similar env')

include h

theorem refuse_congr {α : Type} (position : Nat) :
    (refuse env position : Eval α) = refuse env' position := by
  rw [refuse, refuse, Environment.tooDeep, Environment.tooDeep, h.maxDepth]

/-- An argument for a signed parameter, with `levels` levels left below it. -/
theorem signed_succ_congr {levels : Nat}
    (hb : (Below.mk (value env levels) (signed env levels)).Congr (· ∉ Settings.readers)
      ⟨value env' levels, signed env' levels⟩)
    (mode : ArithmeticMode) {e : Expr} (he : e.Uses (· ∉ Settings.readers)) :
    signed env (levels + 1) mode e = signed env' (levels + 1) mode e := by
  have hnode := node_congr hb mode h.hash he
  cases he with
  | negate p he =>
    have hs : signed env levels mode _ = signed env' levels mode _ := hb.signed mode he
    rw [signed, signed, hs]
  | number l p => rfl
  | text contents p => rfl
  | identifier p hn => rw [signed, signed, hnode] <;> (intros; contradiction)
  | binary op p hl hr => rw [signed, signed, hnode] <;> (intros; contradiction)
  | measured unit p he => rw [signed, signed, hnode] <;> (intros; contradiction)
  | converted unit p he => rw [signed, signed, hnode] <;> (intros; contradiction)
  | call p hn hes => rw [signed, signed, hnode] <;> (intros; contradiction)
  | unchecked p he => rw [signed, signed, hnode] <;> (intros; contradiction)

/-- **Expressions without the three names, on any number of levels**, by induction on the levels. -/
theorem below_congr (levels : Nat) :
    (Below.mk (value env levels) (signed env levels)).Congr (· ∉ Settings.readers)
      ⟨value env' levels, signed env' levels⟩ := by
  induction levels with
  | zero => exact ⟨fun _ e _ => refuse_congr h e.position, fun _ e _ => refuse_congr h e.position⟩
  | succ levels ih =>
    exact ⟨fun mode _ he => node_congr ih mode h.hash he,
      fun mode _ he => signed_succ_congr h ih mode he⟩

end Evaluation

/-! ### Lines -/

namespace Environment

/-- **A line without `now`, `unix` and `get_price_from_tick` does not depend on the settings.**  In two
environments with the same hash function and the same limit of nesting it has the same value, or fails
with the same cause at the same position, and makes the same diagnostics; the clock, the layout of
moments, the digits of prices and the way words are shown may differ. -/
theorem value_eq_of_similar {env env' : Environment} (h : env.Similar env') {line : String}
    (hl : ∀ ts, Token.ofLine line = .ok ts →
      ∀ t ∈ ts, t.kind = .identifier → t.text ∉ Settings.readers) (ds : Diagnostics) :
    env.value line ds = env'.value line ds := by
  rw [value, value, ← h.maxDepth]
  cases ho : Expr.ofLine env.settings.maxDepth line with
  | error e => rfl
  | ok e =>
    have he : e.Uses (· ∉ Settings.readers) := by
      cases ht : Token.ofLine line with
      | error f =>
        rw [Expr.ofLine, ht] at ho
        cases ho
      | ok ts => exact Grammar.uses_of_ofLine ht ho (hl ts ht)
    have hv : (Context.start env).value e = (Context.start env').value e := by
      rw [Context.value, Context.value, Context.start, Context.start, ← h.maxDepth]
      exact (Evaluation.below_congr h _).value .checked he
    exact congrFun hv ds

/-- A rounded literal and its note are the same for all clocks and all ways to show values. -/
theorem value_eq_of_similar_half :
    let env := Environment.mk (Settings.standard 0) fun _ => Vector.replicate 32 0
    let env' := Environment.mk ⟨.count 64, .count 2, "%Y", true, 7⟩ fun _ => Vector.replicate 32 0
    env.Similar env' ∧
    (∀ ts, Token.ofLine "sqrt(2.5)" = .ok ts →
      ∀ t ∈ ts, t.kind = .identifier → t.text ∉ Settings.readers) ∧
    env.value "sqrt(2.5)" #[] = env'.value "sqrt(2.5)" #[] := by
  intro env env'
  have hs : env.Similar env' := ⟨rfl, rfl⟩
  have ht : Token.ofLine "sqrt(2.5)" = .ok
      [⟨.identifier, "sqrt", 0⟩, ⟨.leftParen, "(", 4⟩, ⟨.number, "2.5", 5⟩, ⟨.rightParen, ")", 8⟩,
        ⟨.stop, "", 9⟩] := by decide +kernel
  have hl : ∀ ts, Token.ofLine "sqrt(2.5)" = .ok ts →
      ∀ t ∈ ts, t.kind = .identifier → t.text ∉ Settings.readers := by
    intro ts h
    rw [ht] at h
    cases h
    decide
  exact ⟨hs, hl, value_eq_of_similar hs hl #[]⟩

end Environment

end WeiCalc

import Mathlib
import WeiCalc.Proofs.Evaluation.Failure
import WeiCalc.Proofs.Grammar.Opening
import WeiCalc.Proofs.Token.Failure
import WeiCalc.Proofs.Token.Span

/-!
# How deep expressions are

The parser and the evaluation count levels apart from each other.  The parser counts the nested places
of the grammar; the evaluation counts the nodes of the tree from its root down, apart from the left
operands of operators.  A line is refused by neither if both counts are within the limit.  A line that
is no phrase has no tree, and what counts are the places that it opens.

* `Evaluation.height_invariant`: one step of the evaluation takes up one level.
* `Evaluation.value_shallow`: **an expression with a tree no higher than the levels that are left is not
  refused for nesting.**
* `Grammar.Derives.height_le`: how high the tree of a phrase is at most.
* `Grammar.Within`: the lines whose places and tree are within a limit.
* `Environment.evaluate_shallow`: **these lines are not refused for nesting.**
* `Evaluation.value_convertedTimes`: **the evaluation counts every conversion of a chain**, which the
  parser does not.
-/

namespace WeiCalc

/-! ### The height of a tree -/

mutual

/-- The number of levels that an evaluation goes down, the one of the whole expression included. -/
def Expr.height : Expr → Nat
  | .number _ _ => 1
  | .text _ _ => 1
  | .identifier _ _ => 1
  | .negate e _ => e.height + 1
  | .binary left _ right _ =>
    max (if left.isBinary then left.height else left.height + 1) (right.height + 1)
  | .measured amount _ _ => amount.height + 1
  | .converted amount _ _ => amount.height + 1
  | .call _ args _ => heights args + 1
  | .unchecked e _ => e.height + 1

/-- The height of the highest of several trees. -/
def heights : List Expr → Nat
  | [] => 0
  | e :: es => max e.height (heights es)

end

/-- The height of a left operand, on the level that it shares with its operation if it can. -/
def Expr.leftHeight (e : Expr) : Nat :=
  if e.isBinary then e.height else e.height + 1

@[simp] theorem height_binary (a b : Expr) (op : BinaryOp) (position : Nat) :
    (Expr.binary a op b position).height = max a.leftHeight (b.height + 1) := by
  rw [Expr.height]
  rfl

@[simp] theorem leftHeight_binary (a b : Expr) (op : BinaryOp) (position : Nat) :
    (Expr.binary a op b position).leftHeight = max a.leftHeight (b.height + 1) :=
  height_binary a b op position

/-- A chain of operators is one level higher than the highest of its operands, however long it is. -/
theorem leftHeight_foldl {levels : Nat} (operands : List (BinaryOp × Expr)) {first : Expr}
    (hf : first.leftHeight ≤ levels + 1) (h : ∀ o ∈ operands, o.2.height ≤ levels) :
    (operands.foldl (fun left o => .binary left o.1 o.2 left.position) first).leftHeight ≤
      levels + 1 := by
  induction operands generalizing first with
  | nil => exact hf
  | cons o operands ih =>
    refine ih ?_ fun o ho => h o (List.mem_cons_of_mem _ ho)
    have ho := h o (List.mem_cons_self ..)
    rw [leftHeight_binary]
    omega

theorem height_pos (e : Expr) : 0 < e.height := by
  cases e with
  | binary left op right position =>
    rw [Expr.height]
    exact lt_of_lt_of_le (Nat.succ_pos _) (le_max_right _ _)
  | _ => rw [Expr.height]; omega

theorem height_le_heights {e : Expr} {es : List Expr} (h : e ∈ es) : e.height ≤ heights es := by
  induction es with
  | nil => cases h
  | cons d es ih =>
    rw [heights]
    rcases List.mem_cons.mp h with rfl | h
    · exact le_max_left _ _
    · exact (ih h).trans (le_max_right _ _)

/-! ### Levels -/

namespace Evaluation

/-- **One step of the evaluation takes up one level**, and one that is not refused for nesting does not
fail for it. -/
theorem height_invariant (env : Environment) :
    ErrorInvariant env EvalError.Shallow (fun n e => e.height ≤ n) (fun n e => e.height ≤ n) where
  admitted := fun _ _ hc => hc
  refused := fun {e} h => absurd (height_pos e) (by omega)
  negate := fun h => by
    rw [Expr.height] at h
    omega
  left := fun {n a b op p} h => by
    rw [height_binary, max_le_iff, Expr.leftHeight] at h
    split_ifs at h ⊢ <;> omega
  right := fun h => by
    rw [height_binary] at h
    omega
  measured := fun h => by
    rw [Expr.height] at h
    omega
  converted := fun h => by
    rw [Expr.height] at h
    omega
  unchecked := fun h => by
    rw [Expr.height] at h
    omega
  argument := fun h e he => by
    rw [Expr.height] at h
    have hle := height_le_heights he
    omega
  signedArgument := fun h _ e he => by
    rw [Expr.height] at h
    have hle := height_le_heights he
    omega
  raised := fun _ hr => hr.raised.shallow
  plain := fun h => h
  signedNegate := fun h => by
    rw [Expr.height] at h
    omega
  signed := fun _ hr => hr.shallow

/-- **An expression with a tree no higher than the levels that are left is not refused for
nesting.** -/
theorem value_shallow (env : Environment) {levels : Nat} {mode : ArithmeticMode} {e : Expr}
    (h : e.height ≤ levels) : ShallowEval (value env levels mode e) :=
  .of_only (((height_invariant env).fails levels).value mode e h)

end Evaluation

/-! ### The trees of phrases -/

namespace Grammar

/-- The number of conversions in a sequence of tokens. -/
def conversions (ts : List Token) : Nat :=
  ts.countP (·.kind = .to)

/-- How many levels a phrase may add to those of its primary terms. -/
def Level.margin : Level → Nat
  | .opened => 1
  | .primary => 1
  | .measured => 2
  | .unary => 2
  | .power => 3
  | .chained .product => 4
  | .chained .sum => 5
  | .chained .shift => 6
  | .conversion => 6

theorem Chained.margin_operand (c : Chained) :
    c.operand.margin + 1 = (Level.chained c).margin := by
  cases c <;> rfl

theorem leftHeight_le (e : Expr) : e.leftHeight ≤ e.height + 1 := by
  rw [Expr.leftHeight]
  split_ifs <;> omega

@[simp] theorem heights_append (es : List Expr) (e : Expr) :
    heights (es ++ [e]) = max (heights es) e.height := by
  induction es with
  | nil => simp [heights]
  | cons d es ih => rw [List.cons_append, heights, heights, ih, max_assoc]

@[simp] theorem conversions_append (ts us : List Token) :
    conversions (ts ++ us) = conversions ts + conversions us := List.countP_append

/-- What is claimed of a phrase: its tree is not too high, and neither is it as a left operand on a
level that has operators of its own. -/
structure Fits (l : Level) (ts : List Token) (e : Expr) (n : Nat) : Prop where
  height : e.height ≤ 6 * n + l.margin + conversions ts
  left : ∀ c, l = .chained c → e.leftHeight ≤ 6 * n + l.margin + conversions ts

theorem Fits.of_height {l : Level} {ts : List Token} {e : Expr} {n : Nat}
    (hl : ∀ c, l ≠ .chained c) (h : e.height ≤ 6 * n + l.margin + conversions ts) :
    Fits l ts e n := ⟨h, fun c hc => absurd hc (hl c)⟩

/-- A place takes up six levels at most, and every conversion one more. -/
theorem Derives.fits {l : Level} {ts : List Token} {e : Expr} {n : Nat} (h : Derives l ts e n) :
    Fits l ts e n := by
  induction h with
  | number _ _ => exact .of_height nofun (by rw [Expr.height, Level.margin]; omega)
  | text _ => exact .of_height nofun (by rw [Expr.height, Level.margin]; omega)
  | identifier _ => exact .of_height nofun (by rw [Expr.height, Level.margin]; omega)
  | parens _ _ _ ih =>
    have h := ih.height
    refine .of_height nofun ?_
    simp only [Level.margin, conversions_append] at h ⊢
    omega
  | unchecked _ _ _ _ ih =>
    have h := ih.height
    refine .of_height nofun ?_
    simp only [Level.margin, conversions_append, Expr.height] at h ⊢
    omega
  | first _ _ _ ih =>
    have h := ih.height
    refine .of_height nofun ?_
    simp only [Level.margin, conversions_append, Expr.height, heights] at h ⊢
    omega
  | next _ _ _ ih ih' =>
    have h := ih.height
    have h' := ih'.height
    refine .of_height nofun ?_
    simp only [Level.margin, conversions_append, Expr.height, heights_append] at h h' ⊢
    omega
  | call _ _ ih =>
    have h := ih.height
    refine .of_height nofun ?_
    simp only [Level.margin, conversions_append] at h ⊢
    omega
  | callBare _ _ _ =>
    refine .of_height nofun ?_
    simp only [Level.margin, Expr.height, heights]
    omega
  | bare _ ih =>
    have h := ih.height
    exact .of_height nofun (by simp only [Level.margin] at h ⊢; omega)
  | measured _ _ _ ih =>
    have h := ih.height
    refine .of_height nofun ?_
    simp only [Level.margin, conversions_append, Expr.height] at h ⊢
    omega
  | term _ ih => exact .of_height nofun ih.height
  | negate _ _ ih =>
    have h := ih.height
    refine .of_height nofun ?_
    simp only [Level.margin, conversions_append, Expr.height] at h ⊢
    omega
  | base _ ih =>
    have h := ih.height
    exact .of_height nofun (by simp only [Level.margin] at h ⊢; omega)
  | @power ts us t a b m n _ _ _ ih ih' =>
    have h := ih.height
    have h' := ih'.height
    have hl := leftHeight_le a
    refine .of_height nofun ?_
    simp only [Level.margin, conversions_append, height_binary] at h h' ⊢
    omega
  | @operand c ts e n _ ih =>
    have h := ih.height
    have hm := c.margin_operand
    have hl := leftHeight_le e
    exact ⟨by omega, fun _ _ => by omega⟩
  | @binary c ts us t op a b m n _ _ _ ih ih' =>
    have h := ih.left c rfl
    have h' := ih'.height
    have hm := c.margin_operand
    have hb : (Expr.binary a op b a.position).height ≤
        6 * max m n + (Level.chained c).margin + conversions (ts ++ [t] ++ us) := by
      simp only [conversions_append, height_binary]
      omega
    -- An operation shares its level with the one that it is the left operand of.
    exact ⟨hb, fun _ _ => hb⟩
  | amount _ ih => exact .of_height nofun ih.height
  | @converted ts t u e n _ ht hu ih =>
    have h := ih.height
    have hto : conversions [t, u] = 1 := by simp [conversions, ht, hu]
    refine .of_height nofun ?_
    simp only [Level.margin, conversions_append, hto, Expr.height] at h ⊢
    omega

/-- **The tree of a line is at most six levels high for each level of nesting, and one for each
conversion.** -/
theorem Derives.height_le {ts : List Token} {e : Expr} {n : Nat}
    (h : Derives .conversion ts e n) : e.height ≤ 6 * (n + 1) + conversions ts := by
  have hf := h.fits.height
  rw [Level.margin] at hf
  omega

/-- The places of a line nest no deeper than `d` levels, the whole line being the first place, and its
tree is no higher.  Of a line that is no phrase, the places count that it opens. -/
inductive Within (d : Nat) (body : List Token) (stop : Token) : Prop
  | phrase {e : Expr} {n : Nat} : Derives .conversion body e n → n + 1 ≤ d → e.height ≤ d →
      Within d body stop
  | other : (∀ e n, ¬ Derives .conversion body e n) →
      (∀ n, Opens .conversion (body ++ [stop]) n → n + 1 ≤ d) → Within d body stop

end Grammar

/-! ### Lines -/

namespace Environment

open Grammar

variable {env : Environment} {line : String} {body : List Token} {stop : Token} {e : Expr} {n : Nat}

theorem shallow_of_derives (ht : Token.ofLine line = .ok (body ++ [stop]))
    (hd : Derives .conversion body e n) (hn : n + 1 ≤ env.settings.maxDepth.value)
    (hh : e.height ≤ env.settings.maxDepth.value) : ShallowEval (env.evaluate line) := by
  have ho : Expr.ofLine env.settings.maxDepth line = .ok e := by
    rw [Expr.ofLine, ht]
    exact ofTokens_of_derives (Token.kind_of_ofLine ht) hd hn
  have hv : ShallowEval (env.value line) := by
    rw [value, ho]
    exact Evaluation.value_shallow env hh
  exact hv.bind fun v => .pure _

/-- A line that cannot be read fails for the reason that it cannot be read for. -/
theorem shallow_of_error {f : EvalError} (ho : Expr.ofLine env.settings.maxDepth line = .error f)
    (hf : f.Shallow) : ShallowEval (env.evaluate line) := by
  have hv : ShallowEval (env.value line) := by
    rw [value, ho]
    rintro ds ds' _ ⟨⟩
    exact hf
  exact hv.bind fun v => .pure _

/-- A line without a tree is refused for nesting only by the parser, at a place that it opens. -/
theorem shallow_of_opens (ht : Token.ofLine line = .ok (body ++ [stop]))
    (hnone : ∀ e n, ¬ Derives .conversion body e n)
    (hopen : ∀ n, Opens .conversion (body ++ [stop]) n → n + 1 ≤ env.settings.maxDepth.value) :
    ShallowEval (env.evaluate line) := by
  obtain ⟨f, ho, hf⟩ := ofTokens_shallow (fun _ => Token.kind_ne_stop_of_ofLine ht)
    (Token.kind_of_ofLine ht) hnone hopen
  refine shallow_of_error (f := f) ?_ hf
  rw [Expr.ofLine, ht]
  exact ho

/-- **A line is not refused for nesting** if its places nest no deeper than the limit, the whole line
being the first place, and its tree is no higher than the limit.  A line that is no phrase of the
grammar is not either, if the places that it opens nest no deeper, and nor is one that cannot be cut
into tokens. -/
theorem evaluate_shallow (h : ∀ body stop, Token.ofLine line = .ok (body ++ [stop]) →
      Within env.settings.maxDepth.value body stop) (ds : Diagnostics) :
    ∀ limit position ds', env.evaluate line ds ≠ .error (.error ⟨.nesting limit, position⟩) ds' := by
  have hs : ShallowEval (env.evaluate line) := by
    cases ht : Token.ofLine line with
    | error f =>
      obtain ⟨p, cause, rfl, -⟩ := Token.ofLine_obstacle ht
      refine shallow_of_error (f := ⟨.grammar cause, some p⟩) ?_ trivial
      rw [Expr.ofLine, ht]
      rfl
    | ok ts =>
      obtain ⟨s, -, rfl⟩ := Token.ofLine_eq_ok ht
      cases h _ _ ht with
      | phrase hd hn hh => exact shallow_of_derives ht hd hn hh
      | other hnone hopen => exact shallow_of_opens ht hnone hopen
  intro limit position ds' he
  exact hs _ _ _ he

/-- One conversion is within two levels, and so is a parenthesis that is never closed. -/
theorem evaluate_shallow_wei :
    let env := Environment.mk { Settings.standard 0 with maxDepth := .count 2 }
      fun _ => Vector.replicate 32 0
    (∀ body stop, Token.ofLine "1 to wei" = .ok (body ++ [stop]) → Within 2 body stop) ∧
    (∀ limit position ds',
      env.evaluate "1 to wei" #[] ≠ .error (.error ⟨.nesting limit, position⟩) ds') ∧
    (∀ body stop, Token.ofLine "(x" = .ok (body ++ [stop]) → Within 2 body stop) ∧
    ∀ limit position ds',
      env.evaluate "(x" #[] ≠ .error (.error ⟨.nesting limit, position⟩) ds' := by
  intro env
  have ht : Token.ofLine "1 to wei" = .ok
      ([⟨.number, "1", 0⟩, ⟨.to, "to", 2⟩, ⟨.identifier, "wei", 5⟩] ++ [⟨.stop, "", 8⟩]) := by
    decide +kernel
  have hl : NumberLiteral.ofToken ⟨.number, "1", 0⟩ = .ok ⟨1, "1", none⟩ := by decide +kernel
  have hone : Derives .conversion [⟨.number, "1", 0⟩] (.number ⟨1, "1", none⟩ 0) 0 :=
    .alone (.term (.bare (.number (List.mem_cons_self ..) hl)))
  have hd : Derives .conversion [⟨.number, "1", 0⟩, ⟨.to, "to", 2⟩, ⟨.identifier, "wei", 5⟩]
      (.converted (.number ⟨1, "1", none⟩ 0) "wei" 0) 0 := .converted hone rfl rfl
  have hwei : ∀ body stop, Token.ofLine "1 to wei" = .ok (body ++ [stop]) →
      Within 2 body stop := by
    intro body stop h
    rw [ht] at h
    rw [← List.append_inj_left' (Except.ok.inj h) rfl]
    exact .phrase hd (by decide) (by decide)
  have ht' : Token.ofLine "(x" = .ok
      ([⟨.leftParen, "(", 0⟩, ⟨.identifier, "x", 1⟩] ++ [⟨.stop, "", 2⟩]) := by
    decide +kernel
  have hopen : ∀ body stop, Token.ofLine "(x" = .ok (body ++ [stop]) → Within 2 body stop := by
    intro body stop h
    rw [ht'] at h
    obtain ⟨rfl, hs⟩ := List.append_inj' (Except.ok.inj h) rfl
    obtain rfl := List.singleton_inj.mp hs
    have hmissing : ∃ f, Expr.ofTokens (.count 2)
        ([⟨.leftParen, "(", 0⟩, ⟨.identifier, "x", 1⟩] ++ [⟨.stop, "", 2⟩]) = .error f ∧ f.Shallow :=
      ⟨⟨.grammar (.missing "expected ')'" ⟨.stop, "", 2⟩), some 2⟩, rfl, trivial⟩
    obtain ⟨hnone, hopen⟩ := (ofTokens_shallow_iff (fun t => Token.kind_ne_stop_of_ofLine ht') rfl
      (List.cons_ne_nil _ _) (.count 2)).mp hmissing
    exact .other hnone hopen
  exact ⟨hwei, evaluate_shallow hwei #[], hopen, evaluate_shallow hopen #[]⟩

/-- A limit of six levels for each level of nesting, and one for each conversion, refuses nothing. -/
theorem shallow_of_conversions (ht : Token.ofLine line = .ok (body ++ [stop]))
    (hd : Derives .conversion body e n)
    (hn : 6 * (n + 1) + conversions body ≤ env.settings.maxDepth.value) :
    ShallowEval (env.evaluate line) :=
  shallow_of_derives ht hd (by omega) (le_trans hd.height_le hn)

end Environment

/-! ### Chains of conversions -/

/-- An amount converted to a unit again and again. -/
def Expr.convertedTimes (amount : Expr) (unit : String) : (count : Nat) → Expr
  | 0 => amount
  | count + 1 => .converted (amount.convertedTimes unit count) unit amount.position

@[simp] theorem position_convertedTimes (amount : Expr) (unit : String) (count : Nat) :
    (amount.convertedTimes unit count).position = amount.position := by
  cases count <;> rfl

/-- Conversions one behind the other are in the same place. -/
theorem Grammar.derives_convertedTimes {amount : List Token} {e : Expr} {n : Nat} {unit : String}
    (h : Derives .conversion amount e n) {qs : List (Token × Token)}
    (hq : ∀ q ∈ qs, q.1.kind = .to ∧ q.2.kind = .identifier ∧ q.2.text = unit) :
    Derives .conversion (amount ++ qs.flatMap fun q => [q.1, q.2])
      (e.convertedTimes unit qs.length) n := by
  induction qs using List.reverseRecOn with
  | nil => simpa [Expr.convertedTimes] using h
  | append_singleton qs q ih =>
    obtain ⟨ht, hu, htext⟩ := hq q (List.mem_append_right _ (List.mem_singleton_self q))
    have hc := Derives.converted (ih fun q hq' => hq q (List.mem_append_left _ hq')) ht hu
    rw [position_convertedTimes, htext] at hc
    rw [List.flatMap_append, List.flatMap_singleton, ← List.append_assoc, List.length_append,
      List.length_singleton]
    exact hc

namespace Evaluation

/-- A chain of conversions is no literal that a unit scales at once. -/
theorem scaled_convertedTimes (below : Below) (mode : ArithmeticMode) (factor : Nat)
    {w : Word} {raw : String} {position : Nat} (unit : String) (count : Nat) :
    let e := (Expr.number ⟨w, raw, none⟩ position).convertedTimes unit count
    scaled below mode factor e = (do
      let amount ← operand below mode "unit" e
      arithmetic .checked e.position fun mode =>
        Arithmetic.mul mode amount (BitVec.ofNat 256 factor)) := by
  cases count <;> rfl

/-- **The evaluation counts every conversion of a chain**: with no more levels than conversions it is
refused, by induction on the levels. -/
theorem value_convertedTimes (env : Environment) {w : Word} {raw unit : String} {position : Nat}
    {u : MeasureUnit} (hu : MeasureUnit.ofName? unit = some u) {levels count : Nat}
    (h : levels ≤ count) (mode : ArithmeticMode) (ds : Diagnostics) :
    value env levels mode ((Expr.number ⟨w, raw, none⟩ position).convertedTimes unit count) ds =
      .error (.error (env.tooDeep position)) ds := by
  induction levels generalizing count with
  | zero =>
    show refuse env _ ds = _
    rw [position_convertedTimes]
    rfl
  | succ levels ih =>
    obtain ⟨count, rfl⟩ : ∃ k, count = k + 1 := ⟨count - 1, by omega⟩
    have hrest := ih (show levels ≤ count by omega)
    have hunit : ∀ p, unitOf unit p ds = .ok u ds := by
      intro p
      rw [unitOf, hu]
      rfl
    have hsource : ∃ s, sourceUnit? ((Expr.number ⟨w, raw, none⟩ position).convertedTimes unit count)
        ds = .ok s ds ∧ (s.getD u.family.base).family = u.family := by
      cases count with
      | zero => exact ⟨none, rfl, by cases u.family <;> rfl⟩
      | succ count =>
        refine ⟨some u, ?_, rfl⟩
        rw [Expr.convertedTimes, sourceUnit?, bind_of_ok (hunit _)]
        rfl
    obtain ⟨s, hs, hf⟩ := hsource
    show conversion ⟨value env levels, signed env levels⟩ mode _ unit position ds = _
    rw [conversion, bind_of_ok (hunit _), bind_of_ok hs]
    simp only [hf, ne_eq, not_true_eq_false, if_false]
    rw [scaled_convertedTimes]
    exact bind_of_error (bind_of_error (bind_of_error hrest))

end Evaluation

namespace Environment

open Grammar

/-- A number and as many conversions as there are levels are in one place, and yet refused. -/
theorem evaluate_convertedTimes {env : Environment} {line unit : String} {t stop : Token} {w : Word}
    {raw : String} {u : MeasureUnit} {qs : List (Token × Token)}
    (ht : Token.ofLine line = .ok ([t] ++ (qs.flatMap fun q => [q.1, q.2]) ++ [stop]))
    (hk : t.kind ∈ [.number, .hexNumber, .binaryNumber])
    (hl : NumberLiteral.ofToken t = .ok ⟨w, raw, none⟩) (hu : MeasureUnit.ofName? unit = some u)
    (hq : ∀ q ∈ qs, q.1.kind = .to ∧ q.2.kind = .identifier ∧ q.2.text = unit)
    (hd : 1 ≤ env.settings.maxDepth.value) (hn : env.settings.maxDepth.value ≤ qs.length)
    (ds : Diagnostics) :
    (∃ e, Derives .conversion ([t] ++ qs.flatMap fun q => [q.1, q.2]) e 0) ∧
      env.evaluate line ds = .error (.error (env.tooDeep t.position)) ds := by
  have hc : Derives .conversion [t] (.number ⟨w, raw, none⟩ t.position) 0 :=
    .alone (.term (.bare (.number hk hl)))
  have hchain := derives_convertedTimes hc hq
  refine ⟨⟨_, hchain⟩, ?_⟩
  have ho : Expr.ofLine env.settings.maxDepth line =
      .ok ((Expr.number ⟨w, raw, none⟩ t.position).convertedTimes unit qs.length) := by
    rw [Expr.ofLine, ht]
    exact ofTokens_of_derives (Token.kind_of_ofLine ht) hchain hd
  have hv : env.value line ds = .error (.error (env.tooDeep t.position)) ds := by
    rw [value, ho]
    exact Evaluation.value_convertedTimes env hu hn .checked ds
  exact bind_of_error hv

/-- Two conversions are in one place, and yet refused on two levels. -/
theorem evaluate_wei_wei :
    let env := Environment.mk { Settings.standard 0 with maxDepth := .count 2 }
      fun _ => Vector.replicate 32 0
    ∃ body stop e, Token.ofLine "1 to wei to wei" = .ok (body ++ [stop]) ∧
      Derives .conversion body e 0 ∧ 0 + 1 ≤ env.settings.maxDepth.value ∧
      env.evaluate "1 to wei to wei" #[] = .error (.error ⟨.nesting (.count 2), some 0⟩) #[] := by
  intro env
  let qs : List (Token × Token) := [
    (⟨.to, "to", 2⟩, ⟨.identifier, "wei", 5⟩), (⟨.to, "to", 9⟩, ⟨.identifier, "wei", 12⟩)]
  have ht : Token.ofLine "1 to wei to wei" =
      .ok ([⟨.number, "1", 0⟩] ++ (qs.flatMap fun q => [q.1, q.2]) ++ [⟨.stop, "", 15⟩]) := by
    decide +kernel
  have hq : ∀ q ∈ qs, q.1.kind = .to ∧ q.2.kind = .identifier ∧ q.2.text = "wei" := by
    simp [qs]
  have hone : 1 ≤ env.settings.maxDepth.value := by decide
  obtain ⟨⟨e, hd⟩, hr⟩ := evaluate_convertedTimes ht (List.mem_cons_self ..)
    (by decide +kernel : NumberLiteral.ofToken ⟨.number, "1", 0⟩ = .ok ⟨1, "1", none⟩)
    (rfl : MeasureUnit.ofName? "wei" = some ⟨"wei", .value, 1⟩) hq hone (by decide) #[]
  exact ⟨_, _, e, ht, hd, by decide, hr⟩

end Environment

end WeiCalc

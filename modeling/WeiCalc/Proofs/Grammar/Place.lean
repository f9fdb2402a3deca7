import Mathlib
import WeiCalc.Proofs.Failure
import WeiCalc.Proofs.Grammar.Reading

/-!
# Where the nodes of a tree stand

The parser takes every offset that it writes down from a token of the line: the offsets of nodes, and
those of errors.  A node that is a call stands where the name of the function does.

* `Expr.Within`: the tree is placed on the tokens of a line.
* `Parser.Placed.bind`: **a sequence of computations that only use tokens of the line does so too.**
* `Parser.primary_placed`, ..., `Parser.conversion_placed`: the levels of the grammar.
* `Expr.ofTokens_placed`: **the tree of a line is placed on its tokens, or the error is.**
-/

namespace WeiCalc

/-- A token starts at the offset. -/
def Token.StartsAt (ts : List Token) (position : Nat) : Prop :=
  ∃ t ∈ ts, t.position = position

theorem Token.startsAt_of_mem {ts : List Token} {t : Token} (h : t ∈ ts) :
    Token.StartsAt ts t.position := ⟨t, h, rfl⟩

/-- The nodes of a tree stand at tokens, and those that are calls at the names of functions. -/
inductive Expr.Within (ts : List Token) : Expr → Prop
  | number {l : NumberLiteral} {p : Nat} : Token.StartsAt ts p → Within ts (.number l p)
  | text {contents : String} {p : Nat} : Token.StartsAt ts p → Within ts (.text contents p)
  | identifier {name : String} {p : Nat} : Token.StartsAt ts p → Within ts (.identifier name p)
  | negate {e : Expr} {p : Nat} : Within ts e → Token.StartsAt ts p → Within ts (.negate e p)
  | binary {a b : Expr} {op : BinaryOp} {p : Nat} : Within ts a → Within ts b →
      Token.StartsAt ts p → Within ts (.binary a op b p)
  | measured {e : Expr} {unit : String} {p : Nat} : Within ts e → Token.StartsAt ts p →
      Within ts (.measured e unit p)
  | converted {e : Expr} {unit : String} {p : Nat} : Within ts e → Token.StartsAt ts p →
      Within ts (.converted e unit p)
  | call {t : Token} {es : List Expr} : t ∈ ts → t.kind = .identifier →
      (∀ e ∈ es, Within ts e) → Within ts (.call t.text es t.position)
  | unchecked {e : Expr} {p : Nat} : Within ts e → Token.StartsAt ts p →
      Within ts (.unchecked e p)

theorem Expr.Within.startsAt {ts : List Token} {e : Expr} (h : e.Within ts) :
    Token.StartsAt ts e.position := by
  cases h with
  | call ht _ _ => exact Token.startsAt_of_mem ht
  | number hp => exact hp
  | text hp => exact hp
  | identifier hp => exact hp
  | negate _ hp => exact hp
  | binary _ _ hp => exact hp
  | measured _ hp => exact hp
  | converted _ hp => exact hp
  | unchecked _ hp => exact hp

/-- A call stands at the name of its function. -/
theorem Expr.Within.of_call {ts : List Token} {name : String} {es : List Expr} {p : Nat}
    (h : (Expr.call name es p).Within ts) :
    (∃ t ∈ ts, t.kind = .identifier ∧ t.text = name) ∧ ∀ e ∈ es, e.Within ts := by
  cases h with
  | @call t _ ht hk hes => exact ⟨⟨t, ht, hk, rfl⟩, hes⟩

namespace Parser

/-! ### Computations on the tokens of a line -/

/-- What a parser can see are tokens of a line. -/
structure Over (ts : List Token) (s : Parser) : Prop where
  rest : ∀ t ∈ s.rest, t ∈ ts
  stop : s.stop ∈ ts

/-- The computation answers what `P` holds of, or fails at a token of the line. -/
def Placed {α : Type} (ts : List Token) (P : α → Prop) (p : Parse α) : Prop :=
  ∀ s : Parser, s.Over ts →
    match p s with
    | .ok a s' => P a ∧ s'.Over ts
    | .error e _ => ∃ t ∈ ts, e.position = some t.position

variable {α β : Type} {ts : List Token} {P : α → Prop} {Q : β → Prop}

theorem Over.behind {s : Parser} (h : s.Over ts) (us : List Token) : (s.behind us).Over ts :=
  ⟨fun t ht => h.rest t (List.mem_of_mem_drop ht), h.stop⟩

theorem Over.next {s : Parser} (h : s.Over ts) : s.next ∈ ts := by
  rw [Parser.next]
  cases hr : s.rest with
  | nil => exact h.stop
  | cons t us => exact h.rest t (by rw [hr]; exact List.mem_cons_self ..)

namespace Placed

theorem pure {a : α} (h : P a) : Placed ts P (Pure.pure a) := fun _ hs => ⟨h, hs⟩

/-- **A sequence of computations that only use tokens of the line does so too.** -/
theorem bind {p : Parse α} {f : α → Parse β} (hp : Placed ts P p)
    (hf : ∀ a, P a → Placed ts Q (f a)) : Placed ts Q (p >>= f) := by
  intro s hs
  have h := hp s hs
  rw [bind_run]
  cases hr : p s with
  | ok a t =>
    rw [hr] at h
    exact hf a h.1 t h.2
  | error e t =>
    rw [hr] at h
    exact h

/-- What goes on from the present state may count the tokens ahead. -/
theorem get {f : Parser → Parse α} (h : ∀ s, Placed ts P (f s)) :
    Placed ts P (MonadState.get >>= f) := fun s hs => h s s hs

end Placed

/-! ### The operations on tokens -/

theorem current_placed : Placed ts (· ∈ ts) current := fun _ hs => ⟨hs.next, hs⟩

theorem advance_placed : Placed ts (· ∈ ts) advance := fun s hs => ⟨hs.next, hs.behind [s.next]⟩

theorem sees_placed (kinds : List TokenKind) : Placed ts (fun _ => True) (sees kinds) :=
  fun _ hs => ⟨trivial, hs⟩

theorem fail_placed (cause : GrammarCause) : Placed ts P (fail cause) :=
  fun s hs => ⟨s.next, hs.next, rfl⟩

theorem expect_placed (kind : TokenKind) (what : String) :
    Placed ts (· ∈ ts) (expect kind what) := by
  refine current_placed.bind fun t _ => ?_
  by_cases hk : t.kind = kind
  · simp only [hk, if_true]
    exact advance_placed
  · simp only [hk, if_false]
    exact fail_placed _

theorem enter_placed {p : Parse α} (h : Placed ts P p) : Placed ts P (enter p) := by
  intro s hs
  have hp := h { s with depth := s.depth + 1 } ⟨hs.rest, hs.stop⟩
  rw [enter]
  cases hr : p { s with depth := s.depth + 1 } with
  | ok a t =>
    rw [hr] at hp
    exact ⟨hp.1, hp.2.rest, hp.2.stop⟩
  | error e t =>
    rw [hr] at hp
    exact hp

theorem refuse_placed : Placed ts P refuse := fun s hs => ⟨s.next, hs.next, rfl⟩

/-! ### The levels of the grammar -/

section

variable {operand : Parse Expr}

theorem chainFrom_placed (h : Placed ts (Expr.Within ts) operand)
    (op? : TokenKind → Option BinaryOp) (count : Nat) {left : Expr} (hl : left.Within ts) :
    Placed ts (Expr.Within ts) (chainFrom operand op? count left) := by
  induction count generalizing left with
  | zero => exact .pure hl
  | succ count ih =>
    refine current_placed.bind fun t _ => ?_
    cases op? t.kind with
    | none => exact .pure hl
    | some op =>
      refine advance_placed.bind fun _ _ => h.bind fun right hr => ?_
      exact ih (.binary hl hr hl.startsAt)

theorem chain_placed (h : Placed ts (Expr.Within ts) operand)
    (op? : TokenKind → Option BinaryOp) : Placed ts (Expr.Within ts) (chain operand op?) :=
  h.bind fun _ hl => .get fun s => chainFrom_placed h op? s.rest.length hl

end

theorem conversionsFrom_placed (count : Nat) {amount : Expr} (ha : amount.Within ts) :
    Placed ts (Expr.Within ts) (conversionsFrom count amount) := by
  induction count generalizing amount with
  | zero => exact .pure ha
  | succ count ih =>
    refine (sees_placed _).bind fun b _ => ?_
    cases b with
    | false => exact .pure ha
    | true =>
      refine advance_placed.bind fun _ _ => (expect_placed _ _).bind fun unit _ => ?_
      exact ih (.converted ha ha.startsAt)

section

variable {inner : Inner} (h : ∀ k, Placed ts (Expr.Within ts) (inner k))

include h

theorem argumentsFrom_placed (count : Nat) {read : List Expr} (hr : ∀ e ∈ read, e.Within ts) :
    Placed ts (fun es => ∀ e ∈ es, e.Within ts) (argumentsFrom inner count read) := by
  induction count generalizing read with
  | zero => exact .pure hr
  | succ count ih =>
    refine (sees_placed _).bind fun b _ => ?_
    cases b with
    | false => exact .pure hr
    | true =>
      refine advance_placed.bind fun _ _ => (h .expression).bind fun e he => ih ?_
      intro d hd
      rcases List.mem_append.mp hd with hd | hd
      · exact hr d hd
      · rw [List.mem_singleton.mp hd]
        exact he

theorem arguments_placed :
    Placed ts (fun es => ∀ e ∈ es, e.Within ts) (arguments inner) := by
  refine (sees_placed _).bind fun b _ => ?_
  cases b with
  | true => exact .pure fun _ he => absurd he List.not_mem_nil
  | false =>
    refine (h .expression).bind fun first hf => .get fun s => ?_
    refine argumentsFrom_placed h s.rest.length fun e he => ?_
    rw [List.mem_singleton.mp he]
    exact hf

/-- A primary term, by its first token, which is where it stands. -/
theorem primary_placed : Placed ts (Expr.Within ts) (primary inner) := by
  refine current_placed.bind fun t ht => ?_
  have hp := Token.startsAt_of_mem ht
  split
  case h_1 | h_2 | h_3 =>
    refine advance_placed.bind fun _ _ => ?_
    cases hl : NumberLiteral.ofToken t with
    | ok l => exact .pure (.number hp)
    | error e =>
      obtain ⟨cause, rfl⟩ := NumberLiteral.ofToken_eq_error hl
      exact fun _ _ => ⟨t, ht, rfl⟩
  · exact advance_placed.bind fun _ _ => .pure (.text hp)
  · refine advance_placed.bind fun _ _ => (expect_placed _ _).bind fun _ _ => ?_
    refine (h .expression).bind fun body hb => (expect_placed _ _).bind fun _ _ => ?_
    exact .pure (.unchecked hb hp)
  · refine advance_placed.bind fun _ _ => ?_
    exact (h .expression).bind fun body hb => (expect_placed _ _).bind fun _ _ => .pure hb
  · rename_i hk
    refine advance_placed.bind fun _ _ => (sees_placed _).bind fun b _ => ?_
    cases b with
    | false => exact .pure (.identifier hp)
    | true =>
      refine advance_placed.bind fun _ _ => (arguments_placed h).bind fun es hes => ?_
      exact (expect_placed _ _).bind fun _ _ => .pure (.call ht hk hes)
  · exact fail_placed _

theorem measured_placed : Placed ts (Expr.Within ts) (measured inner) := by
  refine (primary_placed h).bind fun amount ha => current_placed.bind fun t _ => ?_
  by_cases hu : t.kind = .identifier ∧ MeasureUnit.isName t.text = true
  · simp only [if_pos hu]
    exact advance_placed.bind fun _ _ => .pure (.measured ha ha.startsAt)
  · simp only [if_neg hu]
    exact .pure ha

theorem unary_placed : Placed ts (Expr.Within ts) (unary inner) := by
  refine current_placed.bind fun t ht => ?_
  by_cases hk : t.kind = .minus
  · simp only [if_pos hk]
    refine advance_placed.bind fun _ _ => (h .negated).bind fun e he => ?_
    exact .pure (.negate he (Token.startsAt_of_mem ht))
  · simp only [if_neg hk]
    exact measured_placed h

theorem exponentiation_placed : Placed ts (Expr.Within ts) (exponentiation inner) := by
  refine (unary_placed h).bind fun left hl => (sees_placed _).bind fun b _ => ?_
  cases b with
  | false => exact .pure hl
  | true =>
    refine advance_placed.bind fun _ _ => (h .exponent).bind fun right hr => ?_
    exact .pure (.binary hl hr hl.startsAt)

theorem conversion_placed : Placed ts (Expr.Within ts) (conversion inner) :=
  (chain_placed (chain_placed (chain_placed (exponentiation_placed h) _) _) _).bind
    fun _ ha => .get fun s => conversionsFrom_placed s.rest.length ha

omit h

end

/-- The nested places, by induction on the levels that are left. -/
theorem nested_placed (levels : Nat) : ∀ k, Placed ts (Expr.Within ts) (nested levels k) := by
  induction levels with
  | zero =>
    intro k
    exact refuse_placed
  | succ levels ih =>
    intro k
    cases k with
    | expression => exact enter_placed (conversion_placed ih)
    | exponent => exact enter_placed (exponentiation_placed ih)
    | negated => exact enter_placed (unary_placed ih)

/-! ### Lines -/

theorem line_placed : Placed ts (Expr.Within ts) line := by
  refine (sees_placed _).bind fun b _ => ?_
  cases b with
  | true => exact fun s hs => ⟨s.next, hs.next, rfl⟩
  | false =>
    have he : Placed ts (Expr.Within ts) expression :=
      .get fun s => nested_placed (s.maxDepth.value - s.depth) .expression
    refine he.bind fun e he => current_placed.bind fun t _ => ?_
    by_cases hk : t.kind = .stop
    · simp only [if_pos hk]
      exact .pure he
    · simp only [if_neg hk]
      exact fail_placed _

end Parser

/-- **The tree of a line is placed on its tokens, or the error is.** -/
theorem Expr.ofTokens_placed {maxDepth : Limit} {ts : List Token} (hne : ts ≠ []) :
    match Expr.ofTokens maxDepth ts with
    | .ok e => e.Within ts
    | .error e => ∃ t ∈ ts, e.position = some t.position := by
  have hs : (Parser.ofTokens maxDepth ts).Over ts := by
    refine ⟨fun _ ht => ht, ?_⟩
    show ts.getLast?.getD _ ∈ ts
    rw [List.getLast?_eq_some_getLast hne]
    exact List.getLast_mem hne
  have h := Parser.line_placed _ hs
  rw [Expr.ofTokens]
  cases hr : Parser.line (Parser.ofTokens maxDepth ts) with
  | ok e s =>
    rw [hr] at h
    exact h.1
  | error e s =>
    rw [hr] at h
    exact h

end WeiCalc

import Mathlib
import WeiCalc.Proofs.Grammar.Reading
import WeiCalc.Proofs.Limit

/-!
# Parsing under two limits

The parser looks at its limit only where a nested place is entered.  Under a greater limit it reads
what it reads under a smaller one, stops at the same errors, and leaves the same tokens ahead, unless
the smaller limit refuses a place.

* `enter_loosens`, `refuse_loosens`: nested places.
* `primary_loosens`, ..., `conversion_loosens`: the levels of the grammar, one lemma for each.
* `nested_loosens`: **places that are read with fewer and with more levels left.**
* `Expr.ofTokens_loosens`, `Expr.ofLine_loosens`: whole lines.
-/

namespace WeiCalc

namespace Parser

/-- A parser with another limit. -/
def relimited (limit : Limit) (s : Parser) : Parser :=
  { s with maxDepth := limit }

/-- The second parser does under the limit `limit` what the first one does, unless that is refused. -/
abbrev LoosensParse {α : Type} (limit : Limit) (p q : Parse α) : Prop :=
  Loosens (¬ EvalError.Shallow ·) (relimited limit) p q

variable {limit : Limit} {α : Type}

/-! ### The operations on tokens -/

theorem current_loosens : LoosensParse limit current current := .of_eq fun _ => rfl

theorem advance_loosens : LoosensParse limit advance advance := .of_eq fun _ => rfl

theorem sees_loosens (kinds : List TokenKind) : LoosensParse limit (sees kinds) (sees kinds) :=
  .of_eq fun _ => rfl

theorem fail_loosens (cause : GrammarCause) :
    LoosensParse limit (fail cause : Parse α) (fail cause) := .of_eq fun _ => rfl

theorem expect_loosens (kind : TokenKind) (what : String) :
    LoosensParse limit (expect kind what) (expect kind what) := by
  refine current_loosens.bind fun t => ?_
  by_cases hk : t.kind = kind
  · simp only [hk, if_true]
    exact advance_loosens
  · simp only [hk, if_false]
    exact fail_loosens _

/-! ### Nested places -/

theorem enter_loosens {p q : Parse α} (h : LoosensParse limit p q) :
    LoosensParse limit (enter p) (enter q) := by
  intro s
  rcases h { s with depth := s.depth + 1 } with ⟨e, t, hp, he⟩ | h
  · exact Or.inl ⟨e, leave t, by rw [enter, hp], he⟩
  · refine Or.inr ?_
    change q { relimited limit s with depth := (relimited limit s).depth + 1 } = _ at h
    rw [enter, h, enter]
    cases p { s with depth := s.depth + 1 } <;> rfl

/-- A place that is not entered is refused for nesting. -/
theorem refuse_loosens (q : Parse α) : LoosensParse limit refuse q := by
  intro s
  exact Or.inl ⟨_, _, rfl, fun h => h⟩

/-- The nested places, read with fewer levels left and with more. -/
def InnerLoosens (limit : Limit) (inner inner' : Inner) : Prop :=
  ∀ k, LoosensParse limit (inner k) (inner' k)

/-! ### The levels of the grammar -/

section

variable {operand operand' : Parse Expr}

theorem chainFrom_loosens (h : LoosensParse limit operand operand')
    (op? : TokenKind → Option BinaryOp) (count : Nat) (left : Expr) :
    LoosensParse limit (chainFrom operand op? count left) (chainFrom operand' op? count left) := by
  induction count generalizing left with
  | zero => exact .pure left
  | succ count ih =>
    refine current_loosens.bind fun t => ?_
    cases op? t.kind with
    | none => exact .pure left
    | some op => exact advance_loosens.bind fun _ => h.bind fun right => ih _

theorem chain_loosens (h : LoosensParse limit operand operand')
    (op? : TokenKind → Option BinaryOp) :
    LoosensParse limit (chain operand op?) (chain operand' op?) :=
  h.bind fun left => .get fun s => chainFrom_loosens h op? s.rest.length left s

end

theorem conversionsFrom_loosens (count : Nat) (amount : Expr) :
    LoosensParse limit (conversionsFrom count amount) (conversionsFrom count amount) := by
  induction count generalizing amount with
  | zero => exact .pure amount
  | succ count ih =>
    refine (sees_loosens _).bind fun b => ?_
    cases b with
    | false => exact .pure amount
    | true => exact advance_loosens.bind fun _ => (expect_loosens _ _).bind fun unit => ih _

section

variable {inner inner' : Inner} (h : InnerLoosens limit inner inner')

include h

theorem argumentsFrom_loosens (count : Nat) (read : List Expr) :
    LoosensParse limit (argumentsFrom inner count read) (argumentsFrom inner' count read) := by
  induction count generalizing read with
  | zero => exact .pure read
  | succ count ih =>
    refine (sees_loosens _).bind fun b => ?_
    cases b with
    | false => exact .pure read
    | true => exact advance_loosens.bind fun _ => (h .expression).bind fun next => ih _

theorem arguments_loosens : LoosensParse limit (arguments inner) (arguments inner') := by
  refine (sees_loosens _).bind fun b => ?_
  cases b with
  | true => exact .pure []
  | false =>
    refine (h .expression).bind fun first => .get fun s => ?_
    exact argumentsFrom_loosens h s.rest.length [first] s

/-- A literal is the same under every limit; what stands in parentheses is a nested place. -/
theorem primary_loosens : LoosensParse limit (primary inner) (primary inner') := by
  refine current_loosens.bind fun t => ?_
  split
  case h_1 | h_2 | h_3 =>
    refine advance_loosens.bind fun _ => ?_
    cases NumberLiteral.ofToken t with
    | ok l => exact .pure _
    | error e => exact .throw e
  · exact advance_loosens.bind fun _ => .pure _
  · refine advance_loosens.bind fun _ => (expect_loosens _ _).bind fun _ => ?_
    exact (h .expression).bind fun body => (expect_loosens _ _).bind fun _ => .pure _
  · refine advance_loosens.bind fun _ => ?_
    exact (h .expression).bind fun body => (expect_loosens _ _).bind fun _ => .pure _
  · refine advance_loosens.bind fun _ => (sees_loosens _).bind fun b => ?_
    cases b with
    | false => exact .pure _
    | true =>
      refine advance_loosens.bind fun _ => (arguments_loosens h).bind fun args => ?_
      exact (expect_loosens _ _).bind fun _ => .pure _
  · exact fail_loosens _

theorem measured_loosens : LoosensParse limit (measured inner) (measured inner') := by
  refine (primary_loosens h).bind fun amount => current_loosens.bind fun t => ?_
  by_cases hu : t.kind = .identifier ∧ MeasureUnit.isName t.text = true
  · simp only [if_pos hu]
    exact advance_loosens.bind fun _ => .pure _
  · simp only [if_neg hu]
    exact .pure _

theorem unary_loosens : LoosensParse limit (unary inner) (unary inner') := by
  refine current_loosens.bind fun t => ?_
  by_cases hk : t.kind = .minus
  · simp only [if_pos hk]
    exact advance_loosens.bind fun _ => (h .negated).bind fun e => .pure _
  · simp only [if_neg hk]
    exact measured_loosens h

theorem exponentiation_loosens :
    LoosensParse limit (exponentiation inner) (exponentiation inner') := by
  refine (unary_loosens h).bind fun left => (sees_loosens _).bind fun b => ?_
  cases b with
  | false => exact .pure left
  | true => exact advance_loosens.bind fun _ => (h .exponent).bind fun right => .pure _

theorem shift_loosens : LoosensParse limit (shift inner) (shift inner') :=
  chain_loosens (chain_loosens (chain_loosens (exponentiation_loosens h) _) _) _

theorem conversion_loosens : LoosensParse limit (conversion inner) (conversion inner') :=
  (shift_loosens h).bind fun amount => .get fun s =>
    conversionsFrom_loosens s.rest.length amount s

omit h

end

/-- **Nested places that are read with fewer and with more levels left**, by induction on the fewer
ones. -/
theorem nested_loosens {levels levels' : Nat} (hl : levels ≤ levels') :
    InnerLoosens limit (nested levels) (nested levels') := by
  induction levels generalizing levels' with
  | zero =>
    intro k
    exact refuse_loosens _
  | succ levels ih =>
    obtain ⟨levels', rfl⟩ : ∃ n, levels' = n + 1 := ⟨levels' - 1, by omega⟩
    have hi : InnerLoosens limit (nested levels) (nested levels') := ih (by omega)
    intro k
    cases k with
    | expression => exact enter_loosens (conversion_loosens hi)
    | exponent => exact enter_loosens (exponentiation_loosens hi)
    | negated => exact enter_loosens (unary_loosens hi)

/-! ### Whole lines -/

/-- A line is read on as many levels as the limit of its parser leaves. -/
theorem line_loosensAt {s : Parser} (hl : s.maxDepth.value ≤ limit.value) :
    LoosensAt (¬ EvalError.Shallow ·) (relimited limit) s line line := by
  have he : LoosensAt (¬ EvalError.Shallow ·) (relimited limit) s expression expression :=
    nested_loosens (Nat.sub_le_sub_right hl s.depth) .expression s
  have hend : ∀ e : Expr, LoosensParse limit
      (do
        let t ← current
        if t.kind = .stop then return e else fail (.unexpectedToken t))
      (do
        let t ← current
        if t.kind = .stop then return e else fail (.unexpectedToken t)) := by
    intro e
    refine current_loosens.bind fun t => ?_
    by_cases hk : t.kind = .stop
    · simp only [if_pos hk]
      exact .pure e
    · simp only [if_neg hk]
      exact fail_loosens _
  have hempty : sees [.stop] s = .ok (decide (s.next.kind = .stop)) s := sees_one .stop s
  refine .bind_of_ok hempty (sees_one .stop (relimited limit s)) ?_
  by_cases hk : s.next.kind = .stop
  · rw [decide_eq_true hk]
    exact Or.inr rfl
  · rw [decide_eq_false hk]
    exact he.bind hend

end Parser

/-- **The tokens of a line are read under a greater limit as under a smaller one**, unless the smaller
one refuses them. -/
theorem Expr.ofTokens_loosens {limit limit' : Limit} (hl : limit.value ≤ limit'.value)
    (ts : List Token) :
    (∃ e, Expr.ofTokens limit ts = .error e ∧ ¬ e.Shallow) ∨
      Expr.ofTokens limit' ts = Expr.ofTokens limit ts := by
  have hs : Parser.ofTokens limit' ts = (Parser.ofTokens limit ts).relimited limit' := rfl
  rw [Expr.ofTokens, Expr.ofTokens, hs]
  rcases Parser.line_loosensAt (s := Parser.ofTokens limit ts) hl with ⟨e, t, hr, he⟩ | hr
  · exact Or.inl ⟨e, by rw [hr], he⟩
  · refine Or.inr ?_
    rw [hr]
    cases Parser.line (Parser.ofTokens limit ts) <;> rfl

theorem Expr.ofLine_loosens {limit limit' : Limit} (hl : limit.value ≤ limit'.value)
    (line : String) :
    (∃ e, Expr.ofLine limit line = .error e ∧ ¬ e.Shallow) ∨
      Expr.ofLine limit' line = Expr.ofLine limit line := by
  rw [Expr.ofLine, Expr.ofLine]
  cases Token.ofLine line with
  | ok ts => exact Expr.ofTokens_loosens hl ts
  | error e => exact Or.inr rfl

end WeiCalc

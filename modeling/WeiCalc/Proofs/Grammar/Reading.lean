import Mathlib
import WeiCalc.Expr.Parser
import WeiCalc.Proofs.Run

/-!
# Reading tokens

What the operations of a parser do to its state.  `s.behind ts` is the parser `s` moved over the
tokens `ts`, and `s.Reads ts s'` says that `s'` is `s` behind tokens that were ahead of it: nothing
but the place changes.

* `current_run`, `sees_run`, `advance_run`, `expect_run`: what the operations answer.
* `Reads.of_next`: a token of any kind but `stop` that is seen next is really ahead.
* `Reads.nil`, `Reads.append`: reading composes.
* `primary_of_number`, ..., `primary_of_other`: a primary term is decided by its first token.
-/

namespace WeiCalc

namespace Parser

variable {α : Type}

/-! ### Places -/

/-- The token that is seen next. -/
def next (s : Parser) : Token := s.rest[0]?.getD s.stop

/-- A parser moved over tokens. -/
def behind (s : Parser) (ts : List Token) : Parser :=
  { s with rest := s.rest.drop ts.length, position := s.position + ts.length }

@[simp] theorem behind_behind (s : Parser) (ts us : List Token) :
    (s.behind ts).behind us = s.behind (ts ++ us) := by
  simp only [behind, List.drop_drop, List.length_append, Nat.add_assoc]

@[simp] theorem behind_rest (s : Parser) (ts : List Token) :
    (s.behind ts).rest = s.rest.drop ts.length := rfl

@[simp] theorem behind_stop (s : Parser) (ts : List Token) : (s.behind ts).stop = s.stop := rfl

theorem behind_rest_of_append {s : Parser} {ts us : List Token} (h : s.rest = ts ++ us) :
    (s.behind ts).rest = us := by
  rw [behind_rest, h, List.drop_left]

theorem next_of_rest {s : Parser} {t : Token} {ts : List Token} (h : s.rest = t :: ts) :
    s.next = t := by
  rw [next, h]
  rfl

/-! ### The operations in front of a known token -/

@[simp] theorem current_run (s : Parser) : current s = .ok s.next s := rfl

theorem sees_run (kinds : List TokenKind) (s : Parser) :
    sees kinds s = .ok (kinds.contains s.next.kind) s := rfl

@[simp] theorem sees_one (kind : TokenKind) (s : Parser) :
    sees [kind] s = .ok (decide (s.next.kind = kind)) s := by
  rw [sees_run]
  congr 1
  simp

@[simp] theorem advance_run (s : Parser) : advance s = .ok s.next (s.behind [s.next]) := rfl

@[simp] theorem fail_run (cause : GrammarCause) (s : Parser) :
    (fail cause : Parse α) s = .error ⟨.grammar cause, some s.next.position⟩ s := rfl

theorem expect_run (kind : TokenKind) (what : String) (s : Parser) :
    expect kind what s =
      if s.next.kind = kind then .ok s.next (s.behind [s.next])
      else .error ⟨.grammar (.missing what s.next), some s.next.position⟩ s := by
  rw [expect, bind_run, current_run]
  by_cases hk : s.next.kind = kind
  · rw [if_pos hk]
    simp only [if_pos hk, advance_run]
  · rw [if_neg hk]
    simp only [if_neg hk, fail_run]

theorem expect_of_kind {kind : TokenKind} (what : String) {s : Parser} {t : Token} {ts : List Token}
    (h : s.rest = t :: ts) (hk : t.kind = kind) : expect kind what s = .ok t (s.behind [t]) := by
  rw [expect_run, next_of_rest h, if_pos hk]

theorem enter_run {p : Parse α} {s s' : Parser} {a : α}
    (h : p { s with depth := s.depth + 1 } = .ok a s') : enter p s = .ok a (leave s') := by
  rw [enter, h]

/-! ### What has been read -/

/-- The second parser is the first one behind the tokens, which were ahead of it. -/
def Reads (s : Parser) (ts : List Token) (s' : Parser) : Prop :=
  s.rest = ts ++ s'.rest ∧ s' = s.behind ts

namespace Reads

variable {s s' s'' : Parser} {ts us : List Token}

theorem nil (s : Parser) : s.Reads [] s := ⟨rfl, rfl⟩

theorem append (h : s.Reads ts s') (h' : s'.Reads us s'') : s.Reads (ts ++ us) s'' := by
  obtain ⟨hr, he⟩ := h
  obtain ⟨hr', he'⟩ := h'
  refine ⟨?_, ?_⟩
  · rw [hr, hr', List.append_assoc]
  · rw [he', he, behind_behind]

theorem stop_eq (h : s.Reads ts s') : s'.stop = s.stop := by
  rw [h.2, behind_stop]

/-- The token at the end of the line stays the same, and so does its kind. -/
theorem stop_kind (h : s.Reads ts s') (hs : s.stop.kind = .stop) : s'.stop.kind = .stop := by
  rw [h.stop_eq]
  exact hs

/-- A token that is not the one at the end of the line is really ahead when it is seen. -/
theorem of_next (hs : s.stop.kind = .stop) (hk : s.next.kind ≠ .stop) :
    s.Reads [s.next] (s.behind [s.next]) := by
  cases hr : s.rest with
  | nil =>
    have he : s.next = s.stop := by rw [next, hr]; rfl
    rw [he] at hk
    exact absurd hs hk
  | cons t ts =>
    have hb : (s.behind [s.next]).rest = ts :=
      behind_rest_of_append (by rw [hr, next_of_rest hr]; rfl)
    refine ⟨?_, rfl⟩
    rw [hb, next_of_rest hr]
    exact hr

end Reads

theorem expect_eq_ok {kind : TokenKind} {what : String} {s s' : Parser} {t : Token}
    (hs : s.stop.kind = .stop) (hk : kind ≠ .stop) (h : expect kind what s = .ok t s') :
    t.kind = kind ∧ s.Reads [t] s' := by
  rw [expect_run] at h
  by_cases hn : s.next.kind = kind
  · rw [if_pos hn] at h
    cases h
    exact ⟨hn, .of_next hs (by rw [hn]; exact hk)⟩
  · rw [if_neg hn] at h
    exact absurd h (by simp)

/-- A place one level further in reads what its part reads. -/
theorem enter_eq_ok {p : Parse α} {s s' : Parser} {a : α} (h : enter p s = .ok a s') :
    ∃ t, p { s with depth := s.depth + 1 } = .ok a t ∧ s' = leave t := by
  rw [enter] at h
  cases hp : p { s with depth := s.depth + 1 } with
  | ok b t =>
    rw [hp] at h
    cases h
    exact ⟨t, rfl, rfl⟩
  | error e t =>
    rw [hp] at h
    exact absurd h (by simp)

theorem Reads.of_enter {s t : Parser} {ts : List Token}
    (h : Reads { s with depth := s.depth + 1 } ts t) : s.Reads ts (leave t) := by
  obtain ⟨hr, he⟩ := h
  subst he
  exact ⟨hr, rfl⟩

/-! ### Primary terms by their first token -/

section

variable {inner : Inner}

theorem primary_of_number {s : Parser} (hk : s.next.kind ∈ [.number, .hexNumber, .binaryNumber]) :
    primary inner s =
      match NumberLiteral.ofToken s.next with
      | .ok l => .ok (.number l s.next.position) (s.behind [s.next])
      | .error e => .error e (s.behind [s.next]) := by
  rw [primary, bind_of_ok (current_run s)]
  simp only [List.mem_cons, List.not_mem_nil, or_false] at hk
  rcases hk with hk | hk | hk <;> simp only [hk, bind_of_ok (advance_run s)] <;>
    cases NumberLiteral.ofToken s.next <;> rfl

theorem primary_of_text {s : Parser} (hk : s.next.kind = .text) :
    primary inner s = .ok (.text s.next.text s.next.position) (s.behind [s.next]) := by
  rw [primary, bind_of_ok (current_run s)]
  simp only [hk, bind_of_ok (advance_run s)]
  rfl

theorem primary_of_unchecked {s : Parser} (hk : s.next.kind = .unchecked) :
    primary inner s =
      (do
        let _ ← expect .leftParen "expected '(' after 'unchecked'"
        let body ← inner .expression
        let _ ← expect .rightParen "expected ')' to close 'unchecked('"
        return .unchecked body s.next.position : Parse Expr) (s.behind [s.next]) := by
  rw [primary, bind_of_ok (current_run s)]
  simp only [hk, bind_of_ok (advance_run s)]

theorem primary_of_leftParen {s : Parser} (hk : s.next.kind = .leftParen) :
    primary inner s =
      (do
        let body ← inner .expression
        let _ ← expect .rightParen "expected ')'"
        return body : Parse Expr) (s.behind [s.next]) := by
  rw [primary, bind_of_ok (current_run s)]
  simp only [hk, bind_of_ok (advance_run s)]

theorem primary_of_identifier {s : Parser} (hk : s.next.kind = .identifier) :
    primary inner s =
      if (s.behind [s.next]).next.kind = .leftParen then
        (do
          let args ← arguments inner
          let _ ← expect .rightParen ("expected ',' or ')' in call to '" ++ s.next.text ++ "'")
          return .call s.next.text args s.next.position : Parse Expr)
            (s.behind [s.next, (s.behind [s.next]).next])
      else .ok (.identifier s.next.text s.next.position) (s.behind [s.next]) := by
  rw [primary, bind_of_ok (current_run s)]
  simp only [hk, bind_of_ok (advance_run s), bind_of_ok (sees_one .leftParen _)]
  by_cases hp : (s.behind [s.next]).next.kind = .leftParen
  · simp only [hp, decide_true, if_true, bind_of_ok (advance_run _), behind_behind,
      List.cons_append, List.nil_append]
  · simp only [hp, decide_false, if_false]
    rfl

theorem primary_of_other {s : Parser} (hn : s.next.kind ∉
    [.number, .hexNumber, .binaryNumber, .text, .unchecked, .leftParen, .identifier]) :
    primary inner s = .error ⟨.grammar (.unexpectedToken s.next), some s.next.position⟩ s := by
  rw [primary, bind_of_ok (current_run s)]
  cases hk : s.next.kind
  all_goals first
    | exact absurd (by rw [hk]; decide) hn
    | rfl
end

end Parser

end WeiCalc

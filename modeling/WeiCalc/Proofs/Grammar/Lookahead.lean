import Mathlib
import WeiCalc.Proofs.Failure
import WeiCalc.Proofs.Grammar.Viable

/-!
# Errors of the grammar come as early as they can

The course of the parser up to a token depends on nothing behind the token, and of a number it only
depends on that it is one.  So the token at which the parser stops is in no line whose beginning looks
the same, since the parser would read that line.

* `Token.Alike`: tokens that the grammar does not tell apart.
* `Follows m n p q`: in front of at most `n` tokens and `m` more, `q` goes the way of `p` as long as
  more than `m` of them are ahead.
* `Follows.bind`: **sequences of computations that go the same way, go the same way.**
* `primary_follows`, ..., `conversion_follows`: the levels of the grammar.
* `nested_follows`: **nested places**, with fewer and with more levels left.
* `Grammar.not_derives_of_line`: no phrase goes on with the token at which a line is refused.
* `Grammar.ofTokens_first_error`: **the error is at the first token that no expression goes on with.**
-/

namespace WeiCalc

/-- Tokens that the grammar does not tell apart: they are of one kind, and if they are not numbers, of
one text. -/
structure Token.Alike (t u : Token) : Prop where
  kind : u.kind = t.kind
  text : t.kind ∉ [.number, .hexNumber, .binaryNumber] → u.text = t.text

theorem Token.Alike.refl (t : Token) : t.Alike t := ⟨rfl, fun _ => rfl⟩

instance : Std.Refl Token.Alike := ⟨Token.Alike.refl⟩

namespace Parser

variable {α β γ : Type} {m n : Nat}

/-! ### Parsers that go the same way -/

/-- All but the last `m` tokens ahead of the first parser are ahead of the second one as well, as far as
the grammar can tell. -/
def Tracks (m : Nat) (s s' : Parser) : Prop :=
  ∃ us us' vs vs', s.rest = us ++ vs ∧ s'.rest = us' ++ vs' ∧ vs.length = m ∧
    List.Forall₂ Token.Alike us us'

/-- The parser at the end of a computation. -/
def last : EStateM.Result EvalError Parser α → Parser
  | .ok _ t => t
  | .error _ t => t

/-- As long as more than `m` tokens are ahead of the first parser, the second one goes the same way, and
it refuses what the first one refuses for the grammar. -/
def Matches (m : Nat) :
    EStateM.Result EvalError Parser α → EStateM.Result EvalError Parser β → Prop
  | .ok _ t, .ok _ t' => m < t.rest.length → Tracks m t t'
  | .error e t, .ok _ _ => m < t.rest.length → ∀ c, e.cause ≠ .grammar c
  | _, .error _ _ => True

/-- A computation never puts tokens back. -/
def Shrinks (p : Parse α) : Prop := ∀ s : Parser, (last (p s)).rest.length ≤ s.rest.length

/-- With at most `m + n` tokens ahead, `q` goes the way of `p` as long as more than `m` are ahead. -/
structure Follows (m n : Nat) (p : Parse α) (q : Parse β) : Prop where
  shrinks : Shrinks p
  tracks : ∀ s s' : Parser, Tracks m s s' → s.rest.length ≤ m + n → Matches m (p s) (q s')

theorem Tracks.length_le {s s' : Parser} (h : Tracks m s s') :
    s.rest.length ≤ m + s'.rest.length := by
  obtain ⟨us, us', vs, vs', hr, hr', hm, hu⟩ := h
  have hl := hu.length_eq
  rw [hr, hr', List.length_append, List.length_append]
  omega

/-- As long as more than `m` tokens are ahead, the next tokens are alike, and so are those behind. -/
theorem Tracks.next {s s' : Parser} (h : Tracks m s s') (hm : m < s.rest.length) :
    s.next.Alike s'.next ∧ Tracks m (s.behind [s.next]) (s'.behind [s'.next]) := by
  obtain ⟨us, us', vs, vs', hr, hr', hv, hu⟩ := h
  cases hu with
  | nil =>
    rw [hr, List.nil_append, hv] at hm
    exact absurd hm (lt_irrefl m)
  | @cons t t' us us' ht hu =>
    have hn : s.next = t := next_of_rest hr
    have hn' : s'.next = t' := next_of_rest hr'
    rw [hn, hn']
    exact ⟨ht, us, us', vs, vs', behind_rest_of_append hr, behind_rest_of_append hr', hv, hu⟩

/-- Where at most `m` tokens are ahead there is nothing to follow. -/
theorem matches_of_le {r : EStateM.Result EvalError Parser α} {r' : EStateM.Result EvalError Parser β}
    (h : (last r).rest.length ≤ m) : Matches m r r' := by
  cases r with
  | ok a t =>
    cases r' with
    | ok b t' => exact fun hm => absurd h (Nat.not_le.mpr hm)
    | error e t' => trivial
  | error e t =>
    cases r' with
    | ok b t' => exact fun hm => absurd h (Nat.not_le.mpr hm)
    | error e' t' => trivial

/-- What the second computation refuses is followed by anything. -/
theorem matches_error (r : EStateM.Result EvalError Parser α) (e : EvalError) (t : Parser) :
    Matches m r (.error e t : EStateM.Result EvalError Parser β) := by
  cases r <;> trivial

/-! ### Sequences -/

namespace Shrinks

theorem pure (a : α) : Shrinks (Pure.pure a) := fun _ => le_rfl

theorem throw (e : EvalError) : Shrinks (MonadExcept.throw e : Parse α) := fun _ => le_rfl

theorem bind {p : Parse α} {f : α → Parse β} (hp : Shrinks p) (hf : ∀ a, Shrinks (f a)) :
    Shrinks (p >>= f) := by
  intro s
  have h := hp s
  rw [bind_run]
  cases hr : p s with
  | ok a t =>
    rw [hr] at h
    exact le_trans (hf a t) h
  | error e t =>
    rw [hr] at h
    exact h

theorem current : Shrinks current := fun _ => le_rfl

theorem sees (kinds : List TokenKind) : Shrinks (sees kinds) := fun _ => le_rfl

theorem fail (cause : GrammarCause) : Shrinks (fail cause : Parse α) := fun _ => le_rfl

theorem advance : Shrinks advance := by
  intro s
  change (s.rest.drop 1).length ≤ s.rest.length
  rw [List.length_drop]
  exact Nat.sub_le _ _

theorem expect (kind : TokenKind) (what : String) : Shrinks (expect kind what) := by
  refine current.bind fun t => ?_
  by_cases hk : t.kind = kind
  · simp only [hk, if_true]
    exact advance
  · simp only [hk, if_false]
    exact fail _

end Shrinks

namespace Follows

variable {p : Parse α} {q : Parse β}

theorem pure (a : α) (b : β) : Follows m n (Pure.pure a) (Pure.pure b) :=
  ⟨.pure a, fun _ _ ht _ _ => ht⟩

/-- A failure that is not one of the grammar is followed by anything. -/
theorem throw {e : EvalError} (he : ∀ c, e.cause ≠ .grammar c) (q : Parse β) :
    Follows m n (MonadExcept.throw e : Parse α) q := by
  refine ⟨.throw e, fun s s' _ _ => ?_⟩
  cases hq : q s' with
  | ok b t' => exact fun _ => he
  | error e' t' => trivial

theorem to_throw (hp : Shrinks p) (e : EvalError) :
    Follows m n p (MonadExcept.throw e : Parse β) :=
  ⟨hp, fun _ _ _ _ => matches_error ..⟩

theorem to_fail (hp : Shrinks p) (cause : GrammarCause) : Follows m n p (fail cause : Parse β) :=
  ⟨hp, fun _ _ _ _ => matches_error ..⟩

/-- Where at most `m` tokens are ahead, any two computations go the same way. -/
theorem zero (hp : Shrinks p) : Follows m 0 p q :=
  ⟨hp, fun s _ _ hs => matches_of_le (le_trans (hp s) hs)⟩

/-- **Sequences of computations that go the same way, go the same way.** -/
theorem bind {p q : Parse α} {f : α → Parse β} {g : α → Parse γ} (h : Follows m n p q)
    (hf : ∀ a b, Follows m n (f a) (g b)) : Follows m n (p >>= f) (q >>= g) := by
  refine ⟨h.shrinks.bind fun a => (hf a a).shrinks, fun s s' ht hn => ?_⟩
  have hp := h.tracks s s' ht hn
  have hs := h.shrinks s
  rw [bind_run, bind_run]
  cases hr : p s with
  | error e t =>
    rw [hr] at hp
    cases hr' : q s' with
    | error e' t' => trivial
    | ok b t' =>
      rw [hr'] at hp
      -- Whatever comes behind `q`, the first computation has been refused for another cause.
      show Matches m (.error e t) (g b t')
      cases g b t' with
      | ok c u => exact hp
      | error e' u => trivial
  | ok a t =>
    rw [hr] at hp hs
    change t.rest.length ≤ s.rest.length at hs
    by_cases hm : m < t.rest.length
    · cases hr' : q s' with
      | error e' t' => exact matches_error ..
      | ok b t' =>
        rw [hr'] at hp
        exact (hf a b).tracks t t' (hp hm) (le_trans hs hn)
    · refine matches_of_le (le_trans ((hf a a).shrinks t) (Nat.not_lt.mp hm))

/-- What the next token decides is decided by a token that is alike. -/
theorem current_bind {f : Token → Parse α} {g : Token → Parse β}
    (h : ∀ t u, t.Alike u → Follows m n (f t) (g u)) :
    Follows m n (current >>= f) (current >>= g) := by
  have hs : Shrinks (current >>= f) := Shrinks.current.bind fun t => (h t t (.refl t)).shrinks
  refine ⟨hs, fun s s' ht hn => ?_⟩
  by_cases hm : m < s.rest.length
  · exact (h _ _ (ht.next hm).1).tracks s s' ht hn
  · exact matches_of_le (le_trans (hs s) (Nat.not_lt.mp hm))

theorem sees_bind {kinds : List TokenKind} {f : Bool → Parse α} {g : Bool → Parse β}
    (h : ∀ b, Follows m n (f b) (g b)) : Follows m n (sees kinds >>= f) (sees kinds >>= g) := by
  have hs : Shrinks (sees kinds >>= f) := (Shrinks.sees kinds).bind fun b => (h b).shrinks
  refine ⟨hs, fun s s' ht hn => ?_⟩
  by_cases hm : m < s.rest.length
  · rw [bind_of_ok (sees_run kinds s), bind_of_ok (sees_run kinds s'), (ht.next hm).1.kind]
    exact (h _).tracks s s' ht hn
  · exact matches_of_le (le_trans (hs s) (Nat.not_lt.mp hm))

/-- Behind a token that has been read, one token less is ahead. -/
theorem advance_bind {f : Token → Parse α} {g : Token → Parse β}
    (h : ∀ t u, Follows m n (f t) (g u)) :
    Follows m (n + 1) (advance >>= f) (advance >>= g) := by
  have hs : Shrinks (advance >>= f) := Shrinks.advance.bind fun t => (h t t).shrinks
  refine ⟨hs, fun s s' ht hn => ?_⟩
  by_cases hm : m < s.rest.length
  · have hl : (s.behind [s.next]).rest.length ≤ m + n := by
      show (s.rest.drop 1).length ≤ m + n
      rw [List.length_drop]
      omega
    exact (h _ _).tracks _ _ (ht.next hm).2 hl
  · exact matches_of_le (le_trans (hs s) (Nat.not_lt.mp hm))

theorem mono {n' : Nat} {p q : Parse α} (hn : n' ≤ n) (h : Follows m n p q) : Follows m n' p q :=
  ⟨h.shrinks, fun s s' ht hl => h.tracks s s' ht (le_trans hl (Nat.add_le_add_left hn m))⟩

/-- A token is read in front of any number of tokens. -/
theorem advance : Follows m n advance advance := by
  have h : Follows m (n + 1) (Parser.advance >>= Pure.pure) (Parser.advance >>= Pure.pure) :=
    advance_bind fun t u => .pure t u
  rw [bind_pure] at h
  exact h.mono (Nat.le_succ n)

theorem expect (kind : TokenKind) (what what' : String) :
    Follows m n (expect kind what) (expect kind what') := by
  refine current_bind fun t u htu => ?_
  rw [htu.kind]
  by_cases hk : t.kind = kind
  · simp only [hk, if_true]
    exact advance
  · simp only [hk, if_false]
    exact to_fail (.fail _) _

/-- A loop that has a step for every token ahead. -/
theorem counted {f : Nat → Parse α} {g : Nat → Parse β}
    (h : ∀ n count count', n ≤ count → n ≤ count' → Follows m n (f count) (g count')) :
    Follows m n (do f (← get).rest.length) (do g (← get).rest.length) := by
  refine ⟨fun s => (h 0 s.rest.length 0 (Nat.zero_le _) le_rfl).shrinks s, fun s s' ht _ => ?_⟩
  have hl := ht.length_le
  exact (h (s.rest.length - m) s.rest.length s'.rest.length (Nat.sub_le _ _) (by omega)).tracks
    s s' ht (by omega)

/-! ### Nested places -/

theorem enter {p q : Parse α} (h : Follows m n p q) : Follows m n (enter p) (enter q) := by
  refine ⟨fun s => ?_, fun s s' ht hn => ?_⟩
  · have hs := h.shrinks { s with depth := s.depth + 1 }
    rw [Parser.enter]
    cases hr : p { s with depth := s.depth + 1 } with
    | ok a t =>
      rw [hr] at hs
      exact hs
    | error e t =>
      rw [hr] at hs
      exact hs
  · have hp := h.tracks { s with depth := s.depth + 1 } { s' with depth := s'.depth + 1 } ht hn
    rw [Parser.enter, Parser.enter]
    cases hr : p { s with depth := s.depth + 1 } with
    | ok a t =>
      rw [hr] at hp
      cases hr' : q { s' with depth := s'.depth + 1 } with
      | ok b t' =>
        rw [hr'] at hp
        exact hp
      | error e' t' => trivial
    | error e t =>
      rw [hr] at hp
      cases hr' : q { s' with depth := s'.depth + 1 } with
      | ok b t' =>
        rw [hr'] at hp
        exact hp
      | error e' t' => trivial

/-- A place that is refused for nesting is not refused for the grammar. -/
theorem refuse (q : Parse β) : Follows m n (refuse : Parse α) q := by
  refine ⟨fun s => le_rfl, fun s s' _ _ => ?_⟩
  cases hq : q s' with
  | ok b t' => exact fun _ => nofun
  | error e' t' => trivial

end Follows

/-! ### The levels of the grammar -/

section

variable {operand operand' : Parse Expr}

theorem chainFrom_shrinks (h : Shrinks operand) (op? : TokenKind → Option BinaryOp) (count : Nat)
    (left : Expr) : Shrinks (chainFrom operand op? count left) := by
  induction count generalizing left with
  | zero => exact .pure left
  | succ count ih =>
    refine Shrinks.current.bind fun t => ?_
    cases op? t.kind with
    | none => exact .pure left
    | some op => exact Shrinks.advance.bind fun _ => h.bind fun _ => ih _

/-- A chain of operators, by induction on its steps. -/
theorem chainFrom_follows (h : ∀ n, Follows m n operand operand')
    (op? : TokenKind → Option BinaryOp) (count : Nat) :
    ∀ {n count' : Nat} {left left' : Expr}, n ≤ count → n ≤ count' →
      Follows m n (chainFrom operand op? count left) (chainFrom operand' op? count' left') := by
  induction count with
  | zero =>
    intro n count' left left' hn _
    obtain rfl : n = 0 := Nat.le_zero.mp hn
    exact .zero (.pure left)
  | succ count ih =>
    intro n count' left left' hn hn'
    cases n with
    | zero => exact .zero (chainFrom_shrinks (h 0).shrinks op? _ left)
    | succ n =>
      obtain ⟨count', rfl⟩ : ∃ k, count' = k + 1 := ⟨count' - 1, by omega⟩
      rw [chainFrom, chainFrom]
      refine .current_bind fun t u htu => ?_
      rw [htu.kind]
      cases op? t.kind with
      | none => exact .pure left left'
      | some op =>
        exact .advance_bind fun _ _ => (h n).bind fun _ _ =>
          ih (Nat.le_of_succ_le_succ hn) (Nat.le_of_succ_le_succ hn')

theorem chain_follows (h : ∀ n, Follows m n operand operand') (op? : TokenKind → Option BinaryOp)
    (n : Nat) : Follows m n (chain operand op?) (chain operand' op?) :=
  (h n).bind fun left left' => .counted (f := (chainFrom operand op? · left))
    (g := (chainFrom operand' op? · left')) fun _ count _ => chainFrom_follows h op? count

end

theorem conversionsFrom_shrinks (count : Nat) (amount : Expr) :
    Shrinks (conversionsFrom count amount) := by
  induction count generalizing amount with
  | zero => exact .pure amount
  | succ count ih =>
    refine (Shrinks.sees _).bind fun b => ?_
    cases b with
    | false => exact .pure amount
    | true => exact Shrinks.advance.bind fun _ => (Shrinks.expect _ _).bind fun _ => ih _

theorem conversionsFrom_follows (count : Nat) :
    ∀ {n count' : Nat} {amount amount' : Expr}, n ≤ count → n ≤ count' →
      Follows m n (conversionsFrom count amount) (conversionsFrom count' amount') := by
  induction count with
  | zero =>
    intro n count' amount amount' hn _
    obtain rfl : n = 0 := Nat.le_zero.mp hn
    exact .zero (.pure amount)
  | succ count ih =>
    intro n count' amount amount' hn hn'
    cases n with
    | zero => exact .zero (conversionsFrom_shrinks _ amount)
    | succ n =>
      obtain ⟨count', rfl⟩ : ∃ k, count' = k + 1 := ⟨count' - 1, by omega⟩
      rw [conversionsFrom, conversionsFrom]
      refine .sees_bind fun b => ?_
      cases b with
      | false => exact .pure amount amount'
      | true =>
        exact .advance_bind fun _ _ => (Follows.expect _ _ _).bind fun _ _ =>
          ih (Nat.le_of_succ_le_succ hn) (Nat.le_of_succ_le_succ hn')

section

variable {inner inner' : Inner} (h : ∀ k n, Follows m n (inner k) (inner' k))

include h

theorem argumentsFrom_shrinks (count : Nat) (read : List Expr) :
    Shrinks (argumentsFrom inner count read) := by
  induction count generalizing read with
  | zero => exact .pure read
  | succ count ih =>
    refine (Shrinks.sees _).bind fun b => ?_
    cases b with
    | false => exact .pure read
    | true => exact Shrinks.advance.bind fun _ => (h .expression 0).shrinks.bind fun _ => ih _

theorem argumentsFrom_follows (count : Nat) :
    ∀ {n count' : Nat} {read read' : List Expr}, n ≤ count → n ≤ count' →
      Follows m n (argumentsFrom inner count read) (argumentsFrom inner' count' read') := by
  induction count with
  | zero =>
    intro n count' read read' hn _
    obtain rfl : n = 0 := Nat.le_zero.mp hn
    exact .zero (.pure read)
  | succ count ih =>
    intro n count' read read' hn hn'
    cases n with
    | zero => exact .zero (argumentsFrom_shrinks h _ read)
    | succ n =>
      obtain ⟨count', rfl⟩ : ∃ k, count' = k + 1 := ⟨count' - 1, by omega⟩
      rw [argumentsFrom, argumentsFrom]
      refine .sees_bind fun b => ?_
      cases b with
      | false => exact .pure read read'
      | true =>
        exact .advance_bind fun _ _ => (h .expression n).bind fun _ _ =>
          ih (Nat.le_of_succ_le_succ hn) (Nat.le_of_succ_le_succ hn')

theorem arguments_follows (n : Nat) : Follows m n (arguments inner) (arguments inner') := by
  refine .sees_bind fun b => ?_
  cases b with
  | true => exact .pure [] []
  | false =>
    exact (h .expression n).bind fun first first' => .counted
      (f := (argumentsFrom inner · [first])) (g := (argumentsFrom inner' · [first']))
      fun _ count _ => argumentsFrom_follows h count

/-- Of a number, it only counts that it is one; if it cannot be read, that is no error of the grammar. -/
theorem primary_follows (n : Nat) : Follows m n (primary inner) (primary inner') := by
  refine .current_bind fun t u htu => ?_
  rw [htu.kind]
  split
  case h_1 | h_2 | h_3 =>
    refine Follows.advance.bind fun _ _ => ?_
    cases hl : NumberLiteral.ofToken t with
    | error e =>
      obtain ⟨cause, rfl⟩ := NumberLiteral.ofToken_eq_error hl
      have he : ∀ c, Cause.literal cause ≠ .grammar c := fun c => nofun
      exact .throw he _
    | ok l =>
      cases NumberLiteral.ofToken u with
      | ok l' => exact .pure _ _
      | error e' => exact .to_throw (.pure _) e'
  · exact Follows.advance.bind fun _ _ => .pure _ _
  · refine Follows.advance.bind fun _ _ => (Follows.expect _ _ _).bind fun _ _ => ?_
    exact (h .expression n).bind fun _ _ => (Follows.expect _ _ _).bind fun _ _ => .pure _ _
  · refine Follows.advance.bind fun _ _ => ?_
    exact (h .expression n).bind fun _ _ => (Follows.expect _ _ _).bind fun _ _ => .pure _ _
  · refine Follows.advance.bind fun _ _ => .sees_bind fun b => ?_
    cases b with
    | false => exact .pure _ _
    | true =>
      refine Follows.advance.bind fun _ _ => (arguments_follows h n).bind fun _ _ => ?_
      exact (Follows.expect _ _ _).bind fun _ _ => .pure _ _
  · exact .to_fail (.fail _) _

/-- Of an identifier, its text decides whether it is a unit. -/
theorem measured_follows (n : Nat) : Follows m n (measured inner) (measured inner') := by
  refine (primary_follows h n).bind fun amount amount' => .current_bind fun t u htu => ?_
  by_cases hk : t.kind = .identifier
  · rw [htu.kind, htu.text (by rw [hk]; decide)]
    by_cases hu : t.kind = .identifier ∧ MeasureUnit.isName t.text = true
    · simp only [if_pos hu]
      exact Follows.advance.bind fun _ _ => .pure _ _
    · simp only [if_neg hu]
      exact .pure _ _
  · simp only [htu.kind, hk, false_and, if_false]
    exact .pure _ _

theorem unary_follows (n : Nat) : Follows m n (unary inner) (unary inner') := by
  refine .current_bind fun t u htu => ?_
  rw [htu.kind]
  by_cases hk : t.kind = .minus
  · simp only [if_pos hk]
    exact Follows.advance.bind fun _ _ => (h .negated n).bind fun _ _ => .pure _ _
  · simp only [if_neg hk]
    exact measured_follows h n

theorem exponentiation_follows (n : Nat) :
    Follows m n (exponentiation inner) (exponentiation inner') := by
  refine (unary_follows h n).bind fun left left' => .sees_bind fun b => ?_
  cases b with
  | false => exact .pure left left'
  | true => exact Follows.advance.bind fun _ _ => (h .exponent n).bind fun _ _ => .pure _ _

theorem shift_follows (n : Nat) : Follows m n (shift inner) (shift inner') :=
  chain_follows (chain_follows (chain_follows (exponentiation_follows h) _) _) _ n

theorem conversion_follows (n : Nat) : Follows m n (conversion inner) (conversion inner') :=
  (shift_follows h n).bind fun amount amount' => .counted (f := (conversionsFrom · amount))
    (g := (conversionsFrom · amount')) fun _ count _ => conversionsFrom_follows count

omit h

end

/-- **Nested places, with fewer and with more levels left**, by induction on the fewer ones. -/
theorem nested_follows {levels levels' : Nat} (hl : levels ≤ levels') (k : Nesting) (n : Nat) :
    Follows m n (nested levels k) (nested levels' k) := by
  induction levels generalizing levels' k n with
  | zero => exact .refuse _
  | succ levels ih =>
    obtain ⟨levels', rfl⟩ : ∃ n, levels' = n + 1 := ⟨levels' - 1, by omega⟩
    have hi : ∀ k n, Follows m n (nested levels k) (nested levels' k) := ih (by omega)
    cases k with
    | expression => exact (conversion_follows hi n).enter
    | exponent => exact (exponentiation_follows hi n).enter
    | negated => exact (unary_follows hi n).enter

/-! ### Lines -/

/-- Reading a whole line with a number of levels left. -/
def lineWithin (levels : Nat) : Parse Expr := do
  if ← sees [.stop] then fail .emptyExpression
  let e ← nested levels .expression
  let t ← current
  if t.kind = .stop then return e else fail (.unexpectedToken t)

theorem line_eq_lineWithin (s : Parser) : line s = lineWithin (s.maxDepth.value - s.depth) s := by
  rw [line, lineWithin, bind_of_ok (sees_one .stop s), bind_of_ok (sees_one .stop s)]
  by_cases hk : s.next.kind = .stop
  · rw [if_pos (decide_eq_true hk), if_pos (decide_eq_true hk)]
    rfl
  · rw [if_neg (by simpa using hk), if_neg (by simpa using hk)]
    show (expression >>= _) s = (nested (s.maxDepth.value - s.depth) .expression >>= _) s
    rw [bind_run, bind_run]
    rfl

theorem lineWithin_follows {levels levels' : Nat} (hl : levels ≤ levels') (n : Nat) :
    Follows m n (lineWithin levels) (lineWithin levels') := by
  refine .sees_bind fun b => ?_
  cases b with
  | true => exact .to_fail (.fail _) _
  | false =>
    refine (nested_follows hl .expression n).bind fun e e' => .current_bind fun t u htu => ?_
    rw [htu.kind]
    by_cases hk : t.kind = .stop
    · simp only [if_pos hk]
      exact .pure e e'
    · simp only [if_neg hk]
      exact .to_fail (.fail _) _

end Parser

namespace Grammar

open WeiCalc.Parser

/-- **No phrase goes on with the token at which a line is refused.**  If the tokens of a line that have
been read, and the next one, are alike to the beginning of another line, then that is no phrase. -/
theorem not_derives_of_line {before after ts us ws : List Token} {k stop stop' : Token}
    {maxDepth : Limit} {c : GrammarCause} {q : Option Nat} {t : Parser}
    (h : line ⟨before ++ k :: after, stop, 0, 0, maxDepth⟩ = .error ⟨.grammar c, q⟩ t)
    (ht : t.rest = k :: after) (ha : List.Forall₂ Token.Alike (before ++ [k]) ts)
    (hs : stop'.kind = .stop) (hw : ws ++ [stop'] = ts ++ us) (e : Expr) (n : Nat) :
    ¬Derives .conversion ws e n := by
  intro hd
  have hlimit : n + 1 ≤ (Limit.count (max (n + 1) maxDepth.value)).value := le_max_left ..
  obtain ⟨t', ht'⟩ := line_of_derives hs hd hlimit
  have htracks : Tracks after.length ⟨before ++ k :: after, stop, 0, 0, maxDepth⟩
      ⟨ws ++ [stop'], stop', 0, 0, .count (max (n + 1) maxDepth.value)⟩ :=
    ⟨before ++ [k], ts, after, us, (List.append_cons ..), hw, rfl, ha⟩
  have hlevels : maxDepth.value - 0 ≤ (Limit.count (max (n + 1) maxDepth.value)).value - 0 :=
    le_max_right ..
  have hm := (lineWithin_follows hlevels (before.length + 1)).tracks _ _ htracks (by
    rw [List.length_append, List.length_cons]
    omega)
  rw [line_eq_lineWithin] at h ht'
  rw [h, ht'] at hm
  exact hm (by rw [ht]; exact Nat.lt_succ_self _) c rfl

variable {body : List Token} {stop : Token}

/-- **The error is at the first token that no expression goes on with.**  A line that is refused for the
grammar is refused at one of its tokens.  The tokens before it are the beginning of an expression, but
together with the token they are not, and if it is the end of the line, they are no expression either;
not even with other numbers in the places of their numbers. -/
theorem ofTokens_first_error (hs : stop.kind = .stop) {maxDepth : Limit} {c : GrammarCause}
    {q : Option Nat}
    (h : Expr.ofTokens maxDepth (body ++ [stop]) = .error ⟨.grammar c, q⟩) :
    ∃ before k after, body ++ [stop] = before ++ k :: after ∧ q = some k.position ∧
      (∃ us e n, Derives .conversion (before ++ us) e n) ∧
      (∀ ts us e n, List.Forall₂ Token.Alike (before ++ [k]) ts →
        ¬Derives .conversion (ts ++ us) e n) ∧
      (k.kind = .stop → ∀ ts e n, List.Forall₂ Token.Alike before ts →
        ¬Derives .conversion ts e n) := by
  obtain ⟨t, hline⟩ := ofTokens_eq_error.mp h
  rw [ofTokens_concat] at hline
  obtain ⟨before, hv, ⟨hrest, -⟩, hq⟩ := line_halted hs hline
  change body ++ [stop] = before ++ t.rest at hrest
  rw [List.nil_append] at hv
  cases ht : t.rest with
  | nil =>
    -- The end of the line is in no phrase, so it has not been read.
    obtain ⟨us, e, n, hd⟩ := hv
    rw [ht, List.append_nil] at hrest
    exact absurd hs (hd.noStop stop (by simp [← hrest]))
  | cons k after =>
    rw [ht] at hrest
    rw [hrest] at hline
    refine ⟨before, k, after, hrest, by rw [hq, next_of_rest ht], hv, ?_, ?_⟩
    · intro ts us e n ha
      exact not_derives_of_line hline ht ha hs (List.append_assoc ..) e n
    · intro hk ts e n ha
      have hend : List.Forall₂ Token.Alike (before ++ [k]) (ts ++ [k]) :=
        List.rel_append ha (.cons (.refl k) .nil)
      exact not_derives_of_line hline ht hend hk (List.append_nil _).symm e n

/-- Behind the first argument of a call that is not closed, the error is at the end of the line. -/
theorem ofTokens_first_error_open :
    let body : List Token := [⟨.identifier, "f", 0⟩, ⟨.leftParen, "(", 1⟩, ⟨.identifier, "x", 2⟩]
    let stop : Token := ⟨.stop, "", 3⟩
    stop.kind = .stop ∧
    Expr.ofTokens (.count 2) (body ++ [stop]) =
      .error ⟨.grammar (.missing "expected ',' or ')' in call to 'f'" stop), some 3⟩ ∧
    (∃ us e n, Derives .conversion (body ++ us) e n) ∧ ∀ e n, ¬Derives .conversion body e n := by
  intro body stop
  have h : Expr.ofTokens (.count 2) (body ++ [stop]) =
      .error ⟨.grammar (.missing "expected ',' or ')' in call to 'f'" stop), some 3⟩ := rfl
  obtain ⟨before, k, after, hsplit, hq, hv, hn, he⟩ := ofTokens_first_error rfl h
  rcases before with _ | ⟨_, _ | ⟨_, _ | ⟨_, _ | ⟨_, before⟩⟩⟩⟩
  all_goals
    simp only [body, List.cons_append, List.nil_append, List.cons.injEq] at hsplit
  · rw [← hsplit.1] at hq
    cases hq
  · rw [← hsplit.2.1] at hq
    cases hq
  · rw [← hsplit.2.2.1] at hq
    cases hq
  · obtain ⟨rfl, rfl, rfl, rfl, -⟩ := hsplit
    exact ⟨rfl, h, hv, fun e n => he rfl body e n (List.forall₂_refl _)⟩
  · cases before <;> cases hsplit.2.2.2.2

end Grammar

end WeiCalc

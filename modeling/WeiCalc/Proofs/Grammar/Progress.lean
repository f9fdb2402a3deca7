import Mathlib
import WeiCalc.Proofs.Failure
import WeiCalc.Proofs.Grammar.Soundness

/-!
# The place and the nesting behind a part of the grammar

Reading a part of the grammar moves on by at least one token, never beyond the token at the end of
the line, and leaves the nesting as it was.  Of the errors, only the one of a level that is
refused leaves the nesting one higher, because the level was counted and is not left again.

The loops of the grammar have a bound, which is the number of tokens ahead.  Each round of a loop
reads a token, so the bound is never what ends a loop: it ends at a token with which it does not
go on.

* `Parser.On`, `Parser.Passes`: places in a line.
* `Parser.KeepsAt.bind`: **a sequence moves on by what its parts do, and keeps the nesting.**
* `Parser.level_keeps`: the levels of the grammar.
* `Parser.nested_keeps`: nested places, by induction on the levels that are left.
* `Parser.chained_ends`, `Parser.conversion_ends`, `Parser.arguments_ends`: where loops end.
* `Part.read_keeps`: **every part, from every place of a line.**
-/

namespace WeiCalc

namespace Parser

variable {α β : Type} {body : List Token} {stop : Token} {n m : Nat} {s t u : Parser}

/-! ### Places in a line -/

/-- The parser stands at one of the tokens `body`, or at `stop`, which follows them. -/
structure On (body : List Token) (stop : Token) (s : Parser) : Prop where
  rest_eq : s.rest = (body ++ [stop]).drop s.position
  stop_eq : s.stop = stop
  position_le : s.position ≤ body.length

namespace On

theorem ofTokens (maxDepth : Limit) (body : List Token) (stop : Token) :
    (Parser.ofTokens maxDepth (body ++ [stop])).On body stop where
  rest_eq := rfl
  stop_eq := by
    show (body ++ [stop]).getLast?.getD _ = stop
    rw [List.getLast?_concat, Option.getD_some]
  position_le := Nat.zero_le _

theorem rest_length (h : s.On body stop) : s.rest.length = body.length + 1 - s.position := by
  rw [h.rest_eq, List.length_drop, List.length_append, List.length_singleton]

theorem rest_length_pos (h : s.On body stop) : 0 < s.rest.length := by
  rw [h.rest_length]
  have hend := h.position_le
  omega

/-- The end of the line is not behind the parser when it sees a token of another kind. -/
theorem position_lt (h : s.On body stop) (hstop : stop.kind = .stop) (hk : s.next.kind ≠ .stop) :
    s.position < body.length := by
  refine lt_of_le_of_ne h.position_le fun hend => hk ?_
  have hrest : s.rest = [stop] := by rw [h.rest_eq, hend, List.drop_left]
  rw [next_of_rest hrest, hstop]

theorem behind_next (h : s.On body stop) (hstop : stop.kind = .stop) (hk : s.next.kind ≠ .stop) :
    (s.behind [s.next]).On body stop where
  rest_eq := by
    show s.rest.drop 1 = (body ++ [stop]).drop (s.position + 1)
    rw [h.rest_eq, List.drop_drop]
  stop_eq := h.stop_eq
  position_le := h.position_lt hstop hk

/-- The nesting has nothing to do with the place. -/
theorem deepened (h : s.On body stop) (depth : Nat) : { s with depth := depth }.On body stop :=
  ⟨h.rest_eq, h.stop_eq, h.position_le⟩

end On

/-- The second parser is at least `n` tokens further on in the line, under the same limit. -/
structure Passes (body : List Token) (stop : Token) (n : Nat) (s t : Parser) : Prop where
  on : t.On body stop
  position_le : s.position + n ≤ t.position
  maxDepth_eq : t.maxDepth = s.maxDepth

namespace Passes

theorem refl (h : s.On body stop) : Passes body stop 0 s s := ⟨h, le_refl _, rfl⟩

theorem trans (h : Passes body stop n s t) (h' : Passes body stop m t u) :
    Passes body stop (n + m) s u := by
  refine ⟨h'.on, ?_, h'.maxDepth_eq.trans h.maxDepth_eq⟩
  have hst := h.position_le
  have htu := h'.position_le
  omega

theorem mono (h : Passes body stop n s t) (hle : m ≤ n) :
    Passes body stop m s t :=
  ⟨h.on, (Nat.add_le_add_left hle _).trans h.position_le, h.maxDepth_eq⟩

theorem next (hs : s.On body stop) (hstop : stop.kind = .stop) (hk : s.next.kind ≠ .stop) :
    Passes body stop 1 s (s.behind [s.next]) := ⟨hs.behind_next hstop hk, le_refl _, rfl⟩

/-- Fewer tokens are ahead of a parser that has moved on. -/
theorem rest_length_le (h : Passes body stop n s t) (hs : s.On body stop) :
    t.rest.length + n ≤ s.rest.length := by
  rw [hs.rest_length, h.on.rest_length]
  have hend := h.on.position_le
  have hst := h.position_le
  omega

end Passes

/-! ### Computations that keep the nesting -/

/-- From `s`, the computation moves on by at least `n` tokens if it answers, and does not move
back if it fails.  It leaves the nesting as it was, but one higher if it fails because a level is
refused. -/
def KeepsAt (body : List Token) (stop : Token) (n : Nat) (p : Parse α) (s : Parser) : Prop :=
  match p s with
  | .ok _ t => Passes body stop n s t ∧ t.depth = s.depth
  | .error e t => Passes body stop 0 s t ∧ (e.Shallow → t.depth = s.depth) ∧
      (¬ e.Shallow → t.depth = s.depth + 1)

/-- The computation does so from every place of the line. -/
def Keeps (body : List Token) (stop : Token) (n : Nat) (p : Parse α) : Prop :=
  ∀ s : Parser, s.On body stop → KeepsAt body stop n p s

namespace KeepsAt

variable {p : Parse α} {f : α → Parse β}

theorem of_ok {a : α} (h : KeepsAt body stop n p s) (hp : p s = .ok a t) :
    Passes body stop n s t ∧ t.depth = s.depth := by
  rw [KeepsAt, hp] at h
  exact h

theorem mono (h : KeepsAt body stop n p s) (hle : m ≤ n) :
    KeepsAt body stop m p s := by
  rw [KeepsAt] at h ⊢
  cases hp : p s with
  | ok a t =>
    rw [hp] at h
    exact ⟨h.1.mono hle, h.2⟩
  | error e t =>
    rw [hp] at h
    exact h

theorem pure (a : α) (hs : s.On body stop) : KeepsAt body stop 0 (Pure.pure a) s :=
  ⟨.refl hs, rfl⟩

/-- A failure that does not change the parser, for any reason but nesting. -/
theorem of_error {e : EvalError} (hs : s.On body stop) (hp : p s = .error e s) (he : e.Shallow) :
    KeepsAt body stop n p s := by
  rw [KeepsAt, hp]
  exact ⟨.refl hs, fun _ => rfl, fun hn => absurd he hn⟩

/-- What follows an answer moves on from where the answer was given. -/
theorem after {a : α} (hp : p s = .ok a t) (hpass : Passes body stop n s t)
    (hdepth : t.depth = s.depth) (h : KeepsAt body stop m (f a) t) :
    KeepsAt body stop (n + m) (p >>= f) s := by
  rw [KeepsAt] at h ⊢
  rw [bind_of_ok hp]
  cases hr : f a t with
  | ok b u =>
    rw [hr] at h
    exact ⟨hpass.trans h.1, h.2.trans hdepth⟩
  | error e u =>
    rw [hr, hdepth] at h
    exact ⟨(hpass.mono (Nat.zero_le _)).trans h.1, h.2⟩

/-- **A sequence moves on by what its parts do, and keeps the nesting.** -/
theorem bind (hp : KeepsAt body stop n p s) (hf : ∀ a, Keeps body stop m (f a)) :
    KeepsAt body stop (n + m) (p >>= f) s := by
  cases hr : p s with
  | ok a t =>
    obtain ⟨hpass, hdepth⟩ := hp.of_ok hr
    exact after hr hpass hdepth (hf a t hpass.on)
  | error e t =>
    rw [KeepsAt, hr] at hp
    rw [KeepsAt, bind_of_error hr]
    exact hp

/-- What goes on from the next token may know that it is the next one. -/
theorem current {f : Token → Parse β} (h : KeepsAt body stop n (f s.next) s) :
    KeepsAt body stop n (Parser.current >>= f) s := by
  rw [KeepsAt, bind_of_ok (current_run s)]
  exact h

theorem sees {kind : TokenKind} {f : Bool → Parse β}
    (h : KeepsAt body stop n (f (decide (s.next.kind = kind))) s) :
    KeepsAt body stop n (Parser.sees [kind] >>= f) s := by
  rw [KeepsAt, bind_of_ok (sees_one kind s)]
  exact h

/-- Reading a token that is not the end of the line moves on, whatever follows. -/
theorem advance {f : Token → Parse β} (hstop : stop.kind = .stop) (hs : s.On body stop)
    (hk : s.next.kind ≠ .stop) (hf : Keeps body stop n (f s.next)) :
    KeepsAt body stop 1 (Parser.advance >>= f) s := by
  have hread := Passes.next hs hstop hk
  exact (after (advance_run s) hread rfl (hf _ hread.on)).mono (Nat.le_add_right 1 n)

end KeepsAt

namespace Keeps

variable {p : Parse α} {f : α → Parse β}

theorem pure (a : α) : Keeps body stop 0 (Pure.pure a) := fun _ hs => .pure a hs

theorem bind (hp : Keeps body stop n p) (hf : ∀ a, Keeps body stop m (f a)) :
    Keeps body stop (n + m) (p >>= f) := fun s hs => (hp s hs).bind hf

/-- What goes on from the present state may count the tokens ahead. -/
theorem get {f : Parser → Parse α} (h : ∀ s, Keeps body stop n (f s)) :
    Keeps body stop n (MonadState.get >>= f) := fun s hs => h s s hs

/-- What is read behind a token that is not the end of the line leaves fewer tokens ahead.  So a
loop that reads a token in each round has a round for each token ahead at most. -/
theorem behind_next {a : α} (h : Keeps body stop n p) (hstop : stop.kind = .stop)
    (hs : s.On body stop) (hk : s.next.kind ≠ .stop) (hp : p (s.behind [s.next]) = .ok a u) :
    u.On body stop ∧ u.rest.length < s.rest.length := by
  have hread := Passes.next hs hstop hk
  have hpass := hread.trans ((h _ hread.on).of_ok hp).1
  have hshort := hpass.rest_length_le hs
  exact ⟨hpass.on, by omega⟩

end Keeps

/-! ### The operations on tokens -/

theorem fail_keeps (cause : GrammarCause) : Keeps body stop n (fail cause : Parse α) :=
  fun s hs => .of_error hs (fail_run cause s) trivial

/-- A level that is refused is counted. -/
theorem refuse_keeps : Keeps body stop n (refuse : Parse α) :=
  fun _ hs => ⟨⟨hs.deepened _, le_refl _, rfl⟩, fun h => absurd h id, fun _ => rfl⟩

/-- A level that is entered is left again, however the computation ends. -/
theorem enter_keeps {p : Parse α} (h : Keeps body stop n p) :
    Keeps body stop n (enter p) := by
  intro s hs
  have hp := h { s with depth := s.depth + 1 } (hs.deepened _)
  rw [KeepsAt] at hp ⊢
  rw [enter]
  cases hr : p { s with depth := s.depth + 1 } with
  | ok a t =>
    rw [hr] at hp
    obtain ⟨hpass, hdepth⟩ := hp
    refine ⟨⟨hpass.on.deepened _, hpass.position_le, hpass.maxDepth_eq⟩, ?_⟩
    show t.depth - 1 = s.depth
    rw [hdepth, Nat.add_sub_cancel]
  | error e t =>
    rw [hr] at hp
    obtain ⟨hpass, hshallow, hdeep⟩ := hp
    refine ⟨⟨hpass.on.deepened _, hpass.position_le, hpass.maxDepth_eq⟩, fun he => ?_, fun he => ?_⟩
    · show t.depth - 1 = s.depth
      rw [hshallow he, Nat.add_sub_cancel]
    · show t.depth - 1 = s.depth + 1
      rw [hdeep he, Nat.add_sub_cancel]

section

variable (hstop : stop.kind = .stop)

include hstop

theorem expect_keeps {kind : TokenKind} (hk : kind ≠ .stop) (what : String) :
    Keeps body stop 1 (expect kind what) := by
  intro s hs
  by_cases hn : s.next.kind = kind
  · have hrun : expect kind what s = .ok s.next (s.behind [s.next]) := by
      rw [expect_run, if_pos hn]
    rw [KeepsAt, hrun]
    exact ⟨.next hs hstop (hn ▸ hk), rfl⟩
  · refine .of_error (e := ⟨.grammar (.missing what s.next), some s.next.position⟩) hs ?_ trivial
    rw [expect_run, if_neg hn]

/-! ### The levels of the grammar -/

section

variable {operand : Parse Expr} {op? : TokenKind → Option BinaryOp}
  (h : Keeps body stop 1 operand) (hop : op? .stop = none)

include h hop

theorem chainFrom_keeps (count : Nat) (left : Expr) :
    Keeps body stop 0 (chainFrom operand op? count left) := by
  induction count generalizing left with
  | zero => exact .pure left
  | succ count ih =>
    intro s hs
    refine .current ?_
    cases hn : op? s.next.kind with
    | none => exact .pure left hs
    | some op =>
      have hk : s.next.kind ≠ .stop := fun hk => by rw [hk, hop] at hn; cases hn
      exact (KeepsAt.advance hstop hs hk (h.bind fun _ => ih _)).mono (Nat.zero_le _)

theorem chain_keeps : Keeps body stop 1 (chain operand op?) :=
  h.bind fun left => .get fun s => chainFrom_keeps hstop h hop s.rest.length left

/-- A chain ends in front of a token that is none of its operators.  There is always a token ahead,
and each round reads one, so that a bound by their number does not run out. -/
theorem chainFrom_ends {count : Nat} {left e : Expr} (hs : s.On body stop)
    (hc : s.rest.length ≤ count) (hr : chainFrom operand op? count left s = .ok e t) :
    op? t.next.kind = none := by
  induction count generalizing s left with
  | zero =>
    have hpos := hs.rest_length_pos
    omega
  | succ count ih =>
    rw [chainFrom, bind_of_ok (current_run s)] at hr
    cases hn : op? s.next.kind with
    | none =>
      simp only [hn] at hr
      cases hr
      exact hn
    | some op =>
      simp only [hn] at hr
      have hk : s.next.kind ≠ .stop := fun hk => by rw [hk, hop] at hn; cases hn
      rw [bind_of_ok (advance_run s)] at hr
      obtain ⟨right, u, hu, hr⟩ := bind_eq_ok hr
      obtain ⟨hplace, hshort⟩ := h.behind_next hstop hs hk hu
      exact ih hplace (by omega) hr

theorem chain_ends {e : Expr} (hs : s.On body stop) (hr : chain operand op? s = .ok e t) :
    (op? t.next.kind).isSome = false := by
  obtain ⟨left, u, hu, hr⟩ := bind_eq_ok hr
  rw [chainFrom_ends hstop h hop ((h s hs).of_ok hu).1.on (le_refl _) hr, Option.isSome_none]

end

theorem conversionsFrom_keeps (count : Nat) (amount : Expr) :
    Keeps body stop 0 (conversionsFrom count amount) := by
  induction count generalizing amount with
  | zero => exact .pure amount
  | succ count ih =>
    intro s hs
    refine .sees ?_
    by_cases hk : s.next.kind = .to
    · rw [decide_eq_true hk]
      have hunit : Keeps body stop 1 (expect .identifier "expected a unit after 'to'") :=
        expect_keeps hstop (by decide) _
      exact (KeepsAt.advance hstop hs (hk ▸ by decide) (hunit.bind fun _ => ih _)).mono
        (Nat.zero_le _)
    · rw [decide_eq_false hk]
      exact .pure amount hs

/-- Conversions end in front of a token that is not `to`. -/
theorem conversionsFrom_ends {count : Nat} {amount e : Expr} (hs : s.On body stop)
    (hc : s.rest.length ≤ count) (hr : conversionsFrom count amount s = .ok e t) :
    t.next.kind ≠ .to := by
  induction count generalizing s amount with
  | zero =>
    have hpos := hs.rest_length_pos
    omega
  | succ count ih =>
    rw [conversionsFrom, bind_of_ok (sees_one .to s)] at hr
    by_cases hk : s.next.kind = .to
    · simp only [hk, decide_true, if_true, bind_of_ok (advance_run s)] at hr
      obtain ⟨unit, u, hu, hr⟩ := bind_eq_ok hr
      have hunit : Keeps body stop 1 (expect .identifier "expected a unit after 'to'") :=
        expect_keeps hstop (by decide) _
      obtain ⟨hplace, hshort⟩ := hunit.behind_next hstop hs (hk ▸ by decide) hu
      exact ih hplace (by omega) hr
    · rw [decide_eq_false hk] at hr
      cases hr
      exact hk

section

variable {inner : Inner} (h : ∀ k, Keeps body stop 1 (inner k))

include h

theorem argumentsFrom_keeps (count : Nat) (read : List Expr) :
    Keeps body stop 0 (argumentsFrom inner count read) := by
  induction count generalizing read with
  | zero => exact .pure read
  | succ count ih =>
    intro s hs
    refine .sees ?_
    by_cases hk : s.next.kind = .comma
    · rw [decide_eq_true hk]
      have hnext := (h .expression).bind fun e => ih (read ++ [e])
      exact (KeepsAt.advance hstop hs (hk ▸ by decide) hnext).mono (Nat.zero_le _)
    · rw [decide_eq_false hk]
      exact .pure read hs

/-- There need not be any arguments. -/
theorem arguments_keeps : Keeps body stop 0 (arguments inner) := by
  intro s hs
  refine .sees ?_
  by_cases hk : s.next.kind = .rightParen
  · rw [decide_eq_true hk]
    exact .pure [] hs
  · rw [decide_eq_false hk]
    have hargs : Keeps body stop (1 + 0) (do
        let first ← inner .expression
        argumentsFrom inner (← get).rest.length [first]) :=
      (h .expression).bind fun first => .get fun s =>
        argumentsFrom_keeps hstop h s.rest.length [first]
    exact (hargs s hs).mono (Nat.zero_le _)

/-- Arguments end in front of a token that is not a comma. -/
theorem argumentsFrom_ends {count : Nat} {read es : List Expr} (hs : s.On body stop)
    (hc : s.rest.length ≤ count) (hr : argumentsFrom inner count read s = .ok es t) :
    t.next.kind ≠ .comma := by
  induction count generalizing s read with
  | zero =>
    have hpos := hs.rest_length_pos
    omega
  | succ count ih =>
    rw [argumentsFrom, bind_of_ok (sees_one .comma s)] at hr
    by_cases hk : s.next.kind = .comma
    · simp only [hk, decide_true, if_true, bind_of_ok (advance_run s)] at hr
      obtain ⟨e, u, hu, hr⟩ := bind_eq_ok hr
      obtain ⟨hplace, hshort⟩ := (h .expression).behind_next hstop hs (hk ▸ by decide) hu
      exact ih hplace (by omega) hr
    · rw [decide_eq_false hk] at hr
      cases hr
      exact hk

theorem arguments_ends {es : List Expr} (hs : s.On body stop)
    (hr : arguments inner s = .ok es t) : t.next.kind ≠ .comma := by
  rw [arguments, bind_of_ok (sees_one .rightParen s)] at hr
  by_cases hk : s.next.kind = .rightParen
  · rw [decide_eq_true hk] at hr
    cases hr
    rw [hk]
    decide
  · rw [decide_eq_false hk] at hr
    obtain ⟨first, u, hu, hr⟩ := bind_eq_ok hr
    exact argumentsFrom_ends hstop h ((h .expression s hs).of_ok hu).1.on (le_refl _) hr

/-- A primary term, by its first token, which is read unless it is an error. -/
theorem primary_keeps : Keeps body stop 1 (primary inner) := by
  intro s hs
  refine .current ?_
  have hclose : ∀ what : String, Keeps body stop 1 (expect .rightParen what) :=
    expect_keeps hstop (by decide)
  have hopen : ∀ what : String, Keeps body stop 1 (expect .leftParen what) :=
    expect_keeps hstop (by decide)
  split
  case h_1 hk | h_2 hk | h_3 hk =>
    refine .advance hstop hs (hk ▸ by decide) (n := 0) ?_
    cases hl : NumberLiteral.ofToken s.next with
    | ok l => exact .pure _
    | error e =>
      obtain ⟨cause, rfl⟩ := NumberLiteral.ofToken_eq_error hl
      exact fun t ht => .of_error ht rfl trivial
  · rename_i hk
    exact .advance hstop hs (hk ▸ by decide) (.pure _)
  · rename_i hk
    refine .advance hstop hs (hk ▸ by decide) (n := 1 + (1 + (1 + 0))) ?_
    refine (hopen _).bind fun _ => (h .expression).bind fun e => ?_
    exact (hclose _).bind fun _ => .pure _
  · rename_i hk
    refine .advance hstop hs (hk ▸ by decide) (n := 1 + (1 + 0)) ?_
    exact (h .expression).bind fun e => (hclose _).bind fun _ => .pure _
  · rename_i hk
    refine .advance hstop hs (hk ▸ by decide) (n := 0) fun t ht => .sees ?_
    by_cases hcall : t.next.kind = .leftParen
    · rw [decide_eq_true hcall]
      refine KeepsAt.mono ?_ (Nat.zero_le 1)
      refine .advance hstop ht (hcall ▸ by decide) (n := 0 + (1 + 0)) ?_
      exact (arguments_keeps hstop h).bind fun es => (hclose _).bind fun _ => .pure _
    · rw [decide_eq_false hcall]
      exact .pure _ ht
  · exact fail_keeps _ s hs

theorem measured_keeps : Keeps body stop 1 (measured inner) := by
  refine (primary_keeps hstop h).bind (m := 0) fun amount t ht => .current ?_
  by_cases hu : t.next.kind = .identifier ∧ MeasureUnit.isName t.next.text = true
  · simp only [if_pos hu]
    exact (KeepsAt.advance hstop ht (hu.1 ▸ by decide) (.pure _)).mono (Nat.zero_le 1)
  · simp only [if_neg hu]
    exact .pure _ ht

theorem unary_keeps : Keeps body stop 1 (unary inner) := by
  intro s hs
  refine .current ?_
  by_cases hk : s.next.kind = .minus
  · simp only [if_pos hk]
    exact .advance hstop hs (hk ▸ by decide) ((h .negated).bind fun _ => .pure _)
  · simp only [if_neg hk]
    exact measured_keeps hstop h s hs

theorem exponentiation_keeps : Keeps body stop 1 (exponentiation inner) := by
  refine (unary_keeps hstop h).bind (m := 0) fun left t ht => .sees ?_
  by_cases hk : t.next.kind = .starStar
  · rw [decide_eq_true hk]
    refine KeepsAt.mono ?_ (Nat.zero_le 1)
    refine .advance hstop ht (hk ▸ by decide) (n := 1 + 0) ?_
    exact (h .exponent).bind fun right => .pure _
  · rw [decide_eq_false hk]
    exact .pure _ ht

/-- **Every level of the grammar.** -/
theorem level_keeps (l : Grammar.Level) : Keeps body stop 1 (l.read inner) := by
  have hproduct : Keeps body stop 1 (multiplicative inner) :=
    chain_keeps hstop (exponentiation_keeps hstop h) rfl
  have hsum : Keeps body stop 1 (additive inner) := chain_keeps hstop hproduct rfl
  have hshift : Keeps body stop 1 (shift inner) := chain_keeps hstop hsum rfl
  cases l with
  | conversion =>
    exact hshift.bind fun amount => .get fun s => conversionsFrom_keeps hstop s.rest.length amount
  | chained c =>
    cases c with
    | shift => exact hshift
    | sum => exact hsum
    | product => exact hproduct
  | power => exact exponentiation_keeps hstop h
  | unary => exact unary_keeps hstop h
  | measured => exact measured_keeps hstop h
  | primary => exact primary_keeps hstop h
  | opened => exact primary_keeps hstop h

theorem conversion_ends {e : Expr} (hs : s.On body stop) (hr : conversion inner s = .ok e t) :
    t.next.kind ≠ .to := by
  obtain ⟨amount, u, hu, hr⟩ := bind_eq_ok hr
  have hpass := (level_keeps hstop h (.chained .shift) s hs).of_ok hu
  exact conversionsFrom_ends hstop hpass.1.on (le_refl _) hr

theorem chained_ends (c : Grammar.Chained) {e : Expr} (hs : s.On body stop)
    (hr : (Grammar.Level.chained c).read inner s = .ok e t) :
    (c.op? t.next.kind).isSome = false := by
  rw [Grammar.read_chained] at hr
  exact chain_ends hstop (level_keeps hstop h c.operand) (by cases c <;> rfl) hs hr

end

/-- **Nested places**, by induction on the levels that are left. -/
theorem nested_keeps (levels : Nat) : ∀ k, Keeps body stop 1 (nested levels k) := by
  induction levels with
  | zero =>
    intro k
    exact refuse_keeps
  | succ levels ih =>
    intro k
    rw [Grammar.nested_succ]
    exact enter_keeps (level_keeps hstop ih _)

/-- An expression ends where the conversion does that it is. -/
theorem nested_expression_ends {levels : Nat} {e : Expr} (hs : s.On body stop)
    (hr : nested levels .expression s = .ok e t) : t.next.kind ≠ .to := by
  cases levels with
  | zero => cases hr
  | succ levels =>
    obtain ⟨u, hu, rfl⟩ := enter_eq_ok hr
    have hto := conversion_ends hstop (nested_keeps hstop levels) (hs.deepened (s.depth + 1)) hu
    exact hto

end

end Parser

/-! ### Parts of the grammar -/

/-- What can be read from a place in a line: an expression one level further in, a phrase of a
level, or the arguments of a call. -/
inductive Part : Type → Type 1
  | expression : Part Expr
  | level (l : Grammar.Level) : Part Expr
  | arguments : Part (List Expr)

namespace Part

/-- Reads the part at the present depth. -/
def read : {α : Type} → Part α → Parse α
  | _, expression => Parser.expression
  | _, level l => Parser.run fun inner => l.read inner
  | _, arguments => Parser.run Parser.arguments

/-- How many tokens the part has at least: there are calls without arguments. -/
def least : {α : Type} → Part α → Nat
  | _, arguments => 0
  | _, _ => 1

/-- Does the loop of the part go on when it sees a token of this kind? -/
def goesOn : {α : Type} → Part α → TokenKind → Bool
  | _, expression, kind => kind == .to
  | _, level .conversion, kind => kind == .to
  | _, level (.chained c), kind => (c.op? kind).isSome
  | _, level _, _ => false
  | _, arguments, kind => kind == .comma

variable {α : Type} {body : List Token} {stop : Token} {s t : Parser}

theorem keeps (hstop : stop.kind = .stop) (part : Part α) :
    Parser.Keeps body stop part.least part.read := by
  have hinner : ∀ levels k, Parser.Keeps body stop 1 (Parser.nested levels k) :=
    Parser.nested_keeps hstop
  cases part with
  | expression => exact .get fun s => hinner _ .expression
  | level l => exact .get fun s => Parser.level_keeps hstop (hinner _) l
  | arguments => exact .get fun s => Parser.arguments_keeps hstop (hinner _)

/-- The loop of a part ends at a token with which it does not go on. -/
theorem ends (hstop : stop.kind = .stop) (part : Part α) {a : α} (hs : s.On body stop)
    (hr : part.read s = .ok a t) : part.goesOn t.next.kind = false := by
  have hinner : ∀ k, Parser.Keeps body stop 1 (Parser.nested (s.maxDepth.value - s.depth) k) :=
    Parser.nested_keeps hstop _
  cases part with
  | expression => exact beq_false_of_ne (Parser.nested_expression_ends hstop hs hr)
  | level l =>
    cases l with
    | conversion => exact beq_false_of_ne (Parser.conversion_ends hstop hinner hs hr)
    | chained c => exact Parser.chained_ends hstop hinner c hs hr
    | _ => rfl
  | arguments => exact beq_false_of_ne (Parser.arguments_ends hstop hinner hs hr)

/-- **Every part, from every place of a line and at every depth.**  An answer is given behind at
least one token of the line, but for arguments, and at a token with which the part does not go on,
so that the bound of its loop has not cut it short.  The nesting is as it was.  A failure is not
behind the end of the line either, and leaves the nesting as it was, but for the one of a level
that is refused, which leaves it one higher. -/
theorem read_keeps (part : Part α) (hstop : stop.kind = .stop) (hs : s.On body stop) :
    match part.read s with
    | .ok _ t => t.On body stop ∧ s.position + part.least ≤ t.position ∧
        t.depth = s.depth ∧ t.maxDepth = s.maxDepth ∧ part.goesOn t.next.kind = false
    | .error e t => t.On body stop ∧ s.position ≤ t.position ∧ t.maxDepth = s.maxDepth ∧
        (e.Shallow → t.depth = s.depth) ∧ (¬ e.Shallow → t.depth = s.depth + 1) := by
  have hkeeps := part.keeps hstop s hs
  rw [Parser.KeepsAt] at hkeeps
  cases hr : part.read s with
  | ok a t =>
    rw [hr] at hkeeps
    obtain ⟨hpass, hdepth⟩ := hkeeps
    exact ⟨hpass.on, hpass.position_le, hdepth, hpass.maxDepth_eq, part.ends hstop hs hr⟩
  | error e t =>
    rw [hr] at hkeeps
    obtain ⟨hpass, hnesting⟩ := hkeeps
    exact ⟨hpass.on, hpass.position_le, hpass.maxDepth_eq, hnesting⟩

/-- A number behind two minuses, of which the second one is refused when one level is allowed. -/
theorem read_keeps_minuses :
    let minus : Token := ⟨.minus, "-", 0⟩
    let body : List Token := [minus, ⟨.minus, "-", 1⟩, ⟨.number, "1", 2⟩]
    let stop : Token := ⟨.stop, "", 3⟩
    let s : Parser := Parser.ofTokens (.count 1) (body ++ [stop])
    s.On body stop ∧ ∃ e t, (level .unary).read s = .error e t ∧ ¬ e.Shallow ∧
      t.On body stop ∧ t.depth = s.depth + 1 := by
  intro minus body stop s
  have hs : s.On body stop := .ofTokens _ _ _
  have hkeeps := (level .unary).read_keeps rfl hs
  have hr : (level .unary).read s = .error ⟨.nesting (.count 1), some 2⟩
      ⟨[⟨.number, "1", 2⟩, stop], stop, 2, 1, .count 1⟩ := by rfl
  rw [hr] at hkeeps
  obtain ⟨ht, -, -, -, hdepth⟩ := hkeeps
  exact ⟨hs, _, _, hr, id, ht, hdepth id⟩

end Part

end WeiCalc

import Mathlib
import WeiCalc.Proofs.Failure
import WeiCalc.Proofs.Grammar.Exact

/-!
# What has been read at an error is the beginning of a phrase

Where the parser stops because a line does not follow the grammar, it stands in front of the token at
which the error is, and the tokens that it has read can be completed to a phrase.

* `Viable l ts`: the tokens are the beginning of a phrase of a level.
* `Halted l ts s t q`: on the way from `s` to `t` the parser has read tokens that go on with `ts` as
  the beginning of a phrase, and `q` is the offset of the next one.
* `halts_chain`, `halts_primary`, ...: the levels of the grammar, one lemma for each.
* `haltsInner_nested`: **at nested places**, with any number of levels left.
* `line_halted`: **whole lines**.
-/

namespace WeiCalc

namespace Grammar

open WeiCalc.Parser

/-! ### Beginnings of phrases -/

/-- The tokens are the beginning of a phrase of the level. -/
def Viable (l : Level) (ts : List Token) : Prop := ∃ us e n, Derives l (ts ++ us) e n

variable {l l' : Level} {ts us : List Token} {e : Expr} {m n : Nat}

theorem Derives.viable (h : Derives l ts e n) : Viable l ts :=
  ⟨[], e, n, by rwa [List.append_nil]⟩

/-- Behind the closing parenthesis, no token is missing. -/
theorem viable_closed
    (h : Derives .primary (ts ++ [⟨.rightParen, ")", 0⟩]) e n) : Viable .primary ts :=
  ⟨[⟨.rightParen, ")", 0⟩], e, n, h⟩

/-- An identifier is a phrase of every level. -/
theorem viable_nil (hl : l ≠ .opened) : Viable l [] := by
  have hx : Derives .unary [⟨.identifier, "x", 0⟩] (.identifier "x" 0) 0 :=
    .term (.bare (.identifier rfl))
  refine ⟨[⟨.identifier, "x", 0⟩], .identifier "x" 0, 0, ?_⟩
  cases l with
  | conversion => exact hx.alone
  | chained c =>
    have hp : Derives (.chained .product) [⟨.identifier, "x", 0⟩] (.identifier "x" 0) 0 :=
      .operand (c := .product) (.base hx)
    cases c with
    | product => exact hp
    | sum => exact .operand (c := .sum) hp
    | shift => exact .operand (c := .shift) (.operand (c := .sum) hp)
  | power => exact .base hx
  | unary => exact hx
  | measured => exact .bare (.identifier rfl)
  | primary => exact .identifier rfl
  | opened => exact absurd rfl hl

namespace Viable

theorem bare (h : Viable .primary ts) : Viable .measured ts := by
  obtain ⟨us, e, n, h⟩ := h
  exact ⟨us, e, n, .bare h⟩

theorem term (h : Viable .measured ts) : Viable .unary ts := by
  obtain ⟨us, e, n, h⟩ := h
  exact ⟨us, e, n, .term h⟩

theorem base (h : Viable .unary ts) : Viable .power ts := by
  obtain ⟨us, e, n, h⟩ := h
  exact ⟨us, e, n, .base h⟩

theorem operand {c : Chained} (h : Viable c.operand ts) : Viable (.chained c) ts := by
  obtain ⟨us, e, n, h⟩ := h
  exact ⟨us, e, n, .operand h⟩

theorem amount (h : Viable (.chained .shift) ts) : Viable .conversion ts := by
  obtain ⟨us, e, n, h⟩ := h
  exact ⟨us, e, n, .amount h⟩

theorem negate {t : Token} (ht : t.kind = .minus) (h : Viable .unary ts) :
    Viable .unary ([t] ++ ts) := by
  obtain ⟨us, e, n, h⟩ := h
  exact ⟨us, _, _, by simpa only [List.append_assoc] using Derives.negate ht h⟩

theorem power {t : Token} (hd : Derives .unary us e m) (ht : t.kind = .starStar)
    (h : Viable .power ts) : Viable .power (us ++ [t] ++ ts) := by
  obtain ⟨vs, e', n, h⟩ := h
  exact ⟨vs, _, _, by simpa only [List.append_assoc] using Derives.power hd ht h⟩

/-- Behind `to`, any unit will do. -/
theorem converted {t : Token} (hd : Derives .conversion ts e n) (ht : t.kind = .to) :
    Viable .conversion (ts ++ [t]) := by
  have hu : Derives .conversion (ts ++ [t, ⟨.identifier, "wei", 0⟩]) _ _ := .converted hd ht rfl
  exact ⟨[⟨.identifier, "wei", 0⟩], _, _, by rwa [List.append_assoc]⟩

theorem binary {c : Chained} {t : Token} {op : BinaryOp} (hd : Derives (.chained c) us e m)
    (ht : c.op? t.kind = some op) (h : Viable c.operand ts) :
    Viable (.chained c) (us ++ [t] ++ ts) := by
  obtain ⟨vs, e', n, h⟩ := h
  exact ⟨vs, _, _, by simpa only [List.append_assoc] using Derives.binary hd ht h⟩

theorem parens {t : Token} (ht : t.kind = .leftParen) (h : Viable .conversion ts) :
    Viable .primary ([t] ++ ts) := by
  obtain ⟨us, e, n, h⟩ := h
  exact ⟨us ++ [⟨.rightParen, ")", 0⟩], _, _, by
    simpa only [List.append_assoc] using Derives.parens ht h rfl⟩

theorem unchecked {t t' : Token} (ht : t.kind = .unchecked) (ht' : t'.kind = .leftParen)
    (h : Viable .conversion ts) : Viable .primary ([t, t'] ++ ts) := by
  obtain ⟨us, e, n, h⟩ := h
  exact ⟨us ++ [⟨.rightParen, ")", 0⟩], _, _, by
    simpa only [List.append_assoc] using Derives.unchecked ht ht' h rfl⟩

theorem first {f t : Token} (hf : f.kind = .identifier) (ht : t.kind = .leftParen)
    (h : Viable .conversion ts) : Viable .primary ([f, t] ++ ts) := by
  obtain ⟨us, e, n, h⟩ := h
  exact ⟨us ++ [⟨.rightParen, ")", 0⟩], _, _, by
    simpa only [List.append_assoc] using Derives.call (.first hf ht h) rfl⟩

theorem next {t : Token} {f : String} {es : List Expr} {p : Nat}
    (hd : Derives .opened us (.call f es p) m) (ht : t.kind = .comma)
    (h : Viable .conversion ts) : Viable .primary (us ++ [t] ++ ts) := by
  obtain ⟨vs, e, n, h⟩ := h
  exact ⟨vs ++ [⟨.rightParen, ")", 0⟩], _, _, by
    simpa only [List.append_assoc] using Derives.call (.next hd ht h) rfl⟩

end Viable

/-! ### Where the parser stops -/

/-- On the way from `s` to `t`, tokens have been read that go on with `ts` as the beginning of a phrase,
and the token at `q` is next. -/
def Halted (l : Level) (ts : List Token) (s t : Parser) (q : Option Nat) : Prop :=
  ∃ us, Viable l (ts ++ us) ∧ s.Reads us t ∧ q = some t.next.position

/-- An error of the grammar stops the operation behind the beginning of a phrase. -/
def Halts (l : Level) (p : Parse Expr) : Prop :=
  ∀ (s t : Parser) (c : GrammarCause) (q : Option Nat), s.stop.kind = .stop →
    p s = .error ⟨.grammar c, q⟩ t → Halted l [] s t q

/-- At nested places, errors of the grammar come behind the beginnings of phrases. -/
def HaltsInner (inner : Inner) : Prop := ∀ k : Nesting, Halts (levelOf k) (inner k)

namespace Halted

variable {s s' t : Parser} {q : Option Nat}

theorem here (h : Viable l ts) : Halted l ts s s (some s.next.position) :=
  ⟨[], by rwa [List.append_nil], .nil s, rfl⟩

/-- Tokens that have been read before. -/
theorem after (hr : s.Reads us s') (h : Halted l (ts ++ us) s' t q) : Halted l ts s t q := by
  obtain ⟨vs, hv, hr', hq⟩ := h
  exact ⟨us ++ vs, by rwa [← List.append_assoc], hr.append hr', hq⟩

/-- A phrase of one level as the last part of a phrase of another one. -/
theorem within (hv : ∀ us, Viable l us → Viable l' (ts ++ us)) (h : Halted l [] s t q) :
    Halted l' ts s t q := by
  obtain ⟨us, hu, hr, hq⟩ := h
  exact ⟨us, hv us hu, hr, hq⟩

theorem of_enter (h : Halted l ts { s with depth := s.depth + 1 } t q) :
    Halted l ts s (leave t) q := by
  obtain ⟨us, hu, hr, hq⟩ := h
  exact ⟨us, hu, hr.of_enter, hq⟩

end Halted

theorem enter_eq_error {p : Parse Expr} {s t : Parser} {f : EvalError}
    (h : enter p s = .error f t) :
    ∃ t', p { s with depth := s.depth + 1 } = .error f t' ∧ t = leave t' := by
  rw [enter] at h
  cases hp : p { s with depth := s.depth + 1 } with
  | ok e t' =>
    rw [hp] at h
    cases h
  | error f' t' =>
    rw [hp] at h
    cases h
    exact ⟨t', rfl, rfl⟩

theorem expect_halted {kind : TokenKind} {what : String} {s t : Parser} {c : GrammarCause}
    {q : Option Nat} (hv : Viable l ts) (h : expect kind what s = .error ⟨.grammar c, q⟩ t) :
    Halted l ts s t q := by
  rw [expect_run] at h
  by_cases hk : s.next.kind = kind
  · rw [if_pos hk] at h
    cases h
  · rw [if_neg hk] at h
    cases h
    exact .here hv

variable {inner : Inner}

/-! ### Chains of operators and conversions -/

/-- **A step of a chain.**  An operand that is no phrase is where the longer chain stops. -/
theorem halted_chainFrom {c : Chained} {operand : Parse Expr} (ha : Accepts c.operand n operand)
    (ho : Halts c.operand operand) (count : Nat) :
    ∀ {s t : Parser} {left : Expr} {ts : List Token} {m : Nat} {c' : GrammarCause} {q : Option Nat},
      s.stop.kind = .stop → Derives (.chained c) ts left m →
      chainFrom operand c.op? count left s = .error ⟨.grammar c', q⟩ t →
      Halted (.chained c) ts s t q := by
  induction count with
  | zero =>
    intro s t left ts m c' q _ _ h
    cases h
  | succ count ih =>
    intro s t left ts m c' q hs hd h
    rw [chainFrom, bind_of_ok (current_run s)] at h
    cases hop : c.op? s.next.kind with
    | none =>
      rw [hop] at h
      cases h
    | some op =>
      rw [hop] at h
      simp only [bind_of_ok (advance_run s)] at h
      have hr : s.Reads [s.next] (s.behind [s.next]) := .of_next hs (Chained.ne_stop_of_op? hop)
      have hs' : (s.behind [s.next]).stop.kind = .stop := hr.stop_kind hs
      refine .after hr ?_
      rcases bind_eq_error h with h | ⟨right, t', ht, h⟩
      · exact (ho _ _ _ _ hs' h).within fun us => .binary hd hop
      · obtain ⟨us, m', hu, -, hr'⟩ := ha _ _ _ hs' ht
        exact .after hr' (ih (hr'.stop_kind hs') (.binary hd hop hu) h)

theorem halts_chain {c : Chained} {operand : Parse Expr} (ha : Accepts c.operand n operand)
    (ho : Halts c.operand operand) : Halts (.chained c) (chain operand c.op?) := by
  intro s t c' q hs h
  rcases bind_eq_error h with h | ⟨left, t', ht, h⟩
  · exact (ho _ _ _ _ hs h).within fun us => .operand
  · obtain ⟨ts, m, hd, -, hr⟩ := ha _ _ _ hs ht
    exact .after hr (halted_chainFrom ha ho _ (hr.stop_kind hs) (.operand hd) h)

theorem halted_conversionsFrom (count : Nat) :
    ∀ {s t : Parser} {amount : Expr} {ts : List Token} {m : Nat} {c : GrammarCause}
      {q : Option Nat}, s.stop.kind = .stop → Derives .conversion ts amount m →
      conversionsFrom count amount s = .error ⟨.grammar c, q⟩ t → Halted .conversion ts s t q := by
  induction count with
  | zero =>
    intro s t amount ts m c q _ _ h
    cases h
  | succ count ih =>
    intro s t amount ts m c q hs hd h
    rw [conversionsFrom, bind_of_ok (sees_one .to s)] at h
    by_cases hk : s.next.kind = .to
    · rw [if_pos (decide_eq_true hk), bind_of_ok (advance_run s)] at h
      have hr : s.Reads [s.next] (s.behind [s.next]) := .of_next hs (by rw [hk]; decide)
      have hs' : (s.behind [s.next]).stop.kind = .stop := hr.stop_kind hs
      refine .after hr ?_
      rcases bind_eq_error h with h | ⟨unit, t', ht, h⟩
      · exact expect_halted (.converted hd hk) h
      · obtain ⟨hu, hr'⟩ := expect_eq_ok hs' (by decide) ht
        refine .after hr' (ih (m := m) (hr'.stop_kind hs') ?_ h)
        rw [List.append_assoc]
        exact .converted hd hk hu
    · rw [if_neg (by simpa using hk)] at h
      cases h

theorem halts_conversion (ha : Accepts (.chained .shift) n (shift inner))
    (hh : Halts (.chained .shift) (shift inner)) : Halts .conversion (conversion inner) := by
  intro s t c q hs h
  rcases bind_eq_error h with h | ⟨amount, t', ht, h⟩
  · exact (hh _ _ _ _ hs h).within fun us => .amount
  · obtain ⟨ts, m, hd, -, hr⟩ := ha _ _ _ hs ht
    exact .after hr (halted_conversionsFrom _ (hr.stop_kind hs) (.amount hd) h)

/-! ### Primary terms -/

section

variable (ha : AcceptsInner n inner) (hi : HaltsInner inner)

include ha hi

/-- Arguments behind the first one, each behind its comma. -/
theorem halted_argumentsFrom (count : Nat) :
    ∀ {s t : Parser} {f : String} {p : Nat} {es : List Expr} {ts : List Token} {m : Nat}
      {c : GrammarCause} {q : Option Nat}, s.stop.kind = .stop →
      Derives .opened ts (.call f es p) m →
      argumentsFrom inner count es s = .error ⟨.grammar c, q⟩ t → Halted .primary ts s t q := by
  induction count with
  | zero =>
    intro s t f p es ts m c q _ _ h
    cases h
  | succ count ih =>
    intro s t f p es ts m c q hs hd h
    rw [argumentsFrom, bind_of_ok (sees_one .comma s)] at h
    by_cases hk : s.next.kind = .comma
    · rw [if_pos (decide_eq_true hk), bind_of_ok (advance_run s)] at h
      have hr : s.Reads [s.next] (s.behind [s.next]) := .of_next hs (by rw [hk]; decide)
      have hs' : (s.behind [s.next]).stop.kind = .stop := hr.stop_kind hs
      refine .after hr ?_
      rcases bind_eq_error h with h | ⟨e, t', ht, h⟩
      · exact (hi .expression _ _ _ _ hs' h).within fun us => .next hd hk
      · obtain ⟨us, m', hu, -, hr'⟩ := ha .expression _ _ _ hs' ht
        exact .after hr' (ih (hr'.stop_kind hs') (.next hd hk hu) h)
    · rw [if_neg (by simpa using hk)] at h
      cases h

/-- What stands between two parentheses, where `ts` has been read up to the first one. -/
theorem halted_closed {what : String} {f : Expr → Expr}
    (hv : ∀ us, Viable .conversion us → Viable .primary (ts ++ us)) {s t : Parser}
    {c : GrammarCause} {q : Option Nat} (hs : s.stop.kind = .stop)
    (h : (do
      let body ← inner .expression
      let _ ← expect .rightParen what
      return f body : Parse Expr) s = .error ⟨.grammar c, q⟩ t) :
    Halted .primary ts s t q := by
  rcases bind_eq_error h with h | ⟨body, t', ht, h⟩
  · exact (hi .expression _ _ _ _ hs h).within hv
  · obtain ⟨us, m, hd, -, hr⟩ := ha .expression _ _ _ hs ht
    refine .after hr ?_
    rcases bind_eq_error h with h | ⟨_, _, _, h⟩
    · exact expect_halted (hv us hd.viable) h
    · cases h

/-- The arguments of a call and its closing parenthesis, where `f` and `l` have been read. -/
theorem halted_arguments {f l : Token} (hf : f.kind = .identifier) (hl : l.kind = .leftParen)
    {what : String} {g : List Expr → Expr} {s t : Parser} {c : GrammarCause} {q : Option Nat}
    (hs : s.stop.kind = .stop)
    (h : (do
      let args ← arguments inner
      let _ ← expect .rightParen what
      return g args : Parse Expr) s = .error ⟨.grammar c, q⟩ t) :
    Halted .primary [f, l] s t q := by
  have hclose : ∀ {es : List Expr} {s' : Parser} {ts : List Token}, Viable .primary ts →
      (do
        let _ ← expect .rightParen what
        return g es : Parse Expr) s' = .error ⟨.grammar c, q⟩ t → Halted .primary ts s' t q := by
    intro es s' ts hv h
    rcases bind_eq_error h with h | ⟨_, _, _, h⟩
    · exact expect_halted hv h
    · cases h
  rw [arguments, bind_assoc, bind_of_ok (sees_one .rightParen s)] at h
  by_cases hk : s.next.kind = .rightParen
  · rw [if_pos (decide_eq_true hk)] at h
    exact hclose (viable_closed (.callBare hf hl rfl)) h
  · rw [if_neg (by simpa using hk)] at h
    rcases bind_eq_error h with h | ⟨es, t', ht, h⟩
    · rcases bind_eq_error h with h | ⟨first, t₁, ht₁, h⟩
      · exact (hi .expression _ _ _ _ hs h).within fun us => .first hf hl
      · obtain ⟨ts, m, hd, -, hr⟩ := ha .expression _ _ _ hs ht₁
        exact .after hr
          (halted_argumentsFrom ha hi _ (hr.stop_kind hs) (.first hf hl hd) h)
    · obtain ⟨first, t₁, ht₁, ht⟩ := bind_eq_ok ht
      obtain ⟨ts, m, hd, hm, hr⟩ := ha .expression _ _ _ hs ht₁
      obtain ⟨us, m', hd', -, hr'⟩ :=
        accepts_argumentsFrom ha _ (hr.stop_kind hs) (.first hf hl hd) hm ht
      exact .after (hr.append hr')
        (hclose (viable_closed (.call (by simpa only [List.append_assoc] using hd') rfl)) h)

/-- A primary term, by its first token. -/
theorem halts_primary : Halts .primary (primary inner) := by
  intro s t c q hs h
  have hone : s.next.kind ≠ .stop → s.Reads [s.next] (s.behind [s.next]) := .of_next hs
  by_cases hnum : s.next.kind ∈ [.number, .hexNumber, .binaryNumber]
  · rw [primary_of_number hnum] at h
    cases hl : NumberLiteral.ofToken s.next with
    | ok l =>
      rw [hl] at h
      cases h
    | error e =>
      obtain ⟨cause, rfl⟩ := NumberLiteral.ofToken_eq_error hl
      rw [hl] at h
      cases h
  cases hk : s.next.kind
  case text =>
    rw [primary_of_text hk] at h
    cases h
  case unchecked =>
    rw [primary_of_unchecked hk] at h
    have hr := hone (by rw [hk]; decide)
    have hs' : (s.behind [s.next]).stop.kind = .stop := hr.stop_kind hs
    refine .after hr ?_
    rcases bind_eq_error h with h | ⟨l, t', ht, h⟩
    · have hp : (⟨.leftParen, "(", 0⟩ : Token).kind = .leftParen := rfl
      obtain ⟨us, e, n, hv⟩ := Viable.unchecked hk hp (viable_nil (by decide))
      exact expect_halted ⟨[⟨.leftParen, "(", 0⟩] ++ us, e, n, hv⟩ h
    · obtain ⟨hl, hr'⟩ := expect_eq_ok hs' (by decide) ht
      exact .after hr' (halted_closed ha hi (fun us => .unchecked hk hl)
        (hr'.stop_kind hs') h)
  case leftParen =>
    rw [primary_of_leftParen hk] at h
    have hr := hone (by rw [hk]; decide)
    exact .after hr (halted_closed (f := id) ha hi (fun us => .parens hk)
      (hr.stop_kind hs) h)
  case identifier =>
    rw [primary_of_identifier hk] at h
    have hr := hone (by rw [hk]; decide)
    by_cases hp : (s.behind [s.next]).next.kind = .leftParen
    · rw [if_pos hp] at h
      have hr₁ : s.Reads [s.next, (s.behind [s.next]).next] _ :=
        hr.append (.of_next (hr.stop_kind hs) (by rw [hp]; decide))
      rw [behind_behind] at hr₁
      exact .after hr₁ (halted_arguments ha hi hk hp (by rw [behind_stop]; exact hs) h)
    · rw [if_neg hp] at h
      cases h
  all_goals
    rw [primary_of_other (by rw [hk]; first | decide | exact absurd (by rw [hk]; decide) hnum)] at h
    cases h
    exact .here (viable_nil (by decide))

/-! ### Units, minus and powers -/

theorem halts_measured : Halts .measured (measured inner) := by
  intro s t c q hs h
  rcases bind_eq_error h with h | ⟨amount, t', ht, h⟩
  · exact (halts_primary ha hi _ _ _ _ hs h).within fun us => .bare
  · rw [bind_of_ok (current_run t')] at h
    by_cases hu : t'.next.kind = .identifier ∧ MeasureUnit.isName t'.next.text = true
    · rw [if_pos hu] at h
      cases h
    · rw [if_neg hu] at h
      cases h

theorem halts_unary : Halts .unary (unary inner) := by
  intro s t c q hs h
  rw [unary, bind_of_ok (current_run s)] at h
  by_cases hk : s.next.kind = .minus
  · rw [if_pos hk, bind_of_ok (advance_run s)] at h
    have hr : s.Reads [s.next] (s.behind [s.next]) := .of_next hs (by rw [hk]; decide)
    refine .after hr ?_
    rcases bind_eq_error h with h | ⟨_, _, _, h⟩
    · exact (hi .negated _ _ _ _ (hr.stop_kind hs) h).within fun us => .negate hk
    · cases h
  · rw [if_neg hk] at h
    exact (halts_measured ha hi _ _ _ _ hs h).within fun us => .term

theorem halts_exponentiation : Halts .power (exponentiation inner) := by
  intro s t c q hs h
  rcases bind_eq_error h with h | ⟨left, t', ht, h⟩
  · exact (halts_unary ha hi _ _ _ _ hs h).within fun us => .base
  · obtain ⟨ts, m, hd, -, hr⟩ := accepts_unary ha _ _ _ hs ht
    have hs' : t'.stop.kind = .stop := hr.stop_kind hs
    rw [bind_of_ok (sees_one .starStar t')] at h
    by_cases hk : t'.next.kind = .starStar
    · rw [if_pos (decide_eq_true hk), bind_of_ok (advance_run t')] at h
      have hr' : t'.Reads [t'.next] (t'.behind [t'.next]) := .of_next hs' (by rw [hk]; decide)
      refine .after (hr.append hr') ?_
      rcases bind_eq_error h with h | ⟨_, _, _, h⟩
      · exact (hi .exponent _ _ _ _ (hr'.stop_kind hs') h).within
          fun us => .power hd hk
      · cases h
    · rw [if_neg (by simpa using hk)] at h
      cases h

/-! ### All levels -/

theorem halts_shift : Halts (.chained .shift) (shift inner) := by
  have ap : Accepts (.chained .product) n (multiplicative inner) :=
    accepts_chain (c := .product) (accepts_exponentiation ha)
  have hp : Halts (.chained .product) (multiplicative inner) :=
    halts_chain (c := .product) (accepts_exponentiation ha) (halts_exponentiation ha hi)
  have as : Accepts (.chained .sum) n (additive inner) := accepts_chain (c := .sum) ap
  have hs : Halts (.chained .sum) (additive inner) := halts_chain (c := .sum) ap hp
  exact halts_chain (c := .shift) as hs

theorem halts_levelOf (k : Nesting) : Halts (levelOf k) ((levelOf k).read inner) := by
  cases k with
  | expression => exact halts_conversion (accepts_shift ha) (halts_shift ha hi)
  | exponent => exact halts_exponentiation ha hi
  | negated => exact halts_unary ha hi

end

/-- **At nested places, what has been read at an error of the grammar is the beginning of a phrase**, by
induction on the levels left. -/
theorem haltsInner_nested (levels : Nat) : HaltsInner (nested levels) := by
  induction levels with
  | zero =>
    intro k s t c q _ h
    cases k <;> cases h
  | succ levels ih =>
    intro k s t c q hs h
    rw [nested_succ] at h
    obtain ⟨t', ht, rfl⟩ := enter_eq_error h
    exact (halts_levelOf (acceptsInner_nested levels) ih k _ _ _ _ (by exact hs) ht).of_enter

/-- **What has been read of a line at an error of the grammar is the beginning of a phrase**, and the
error is at the next token. -/
theorem line_halted {s t : Parser} {c : GrammarCause} {q : Option Nat} (hs : s.stop.kind = .stop)
    (h : line s = .error ⟨.grammar c, q⟩ t) : Halted .conversion [] s t q := by
  rw [line, bind_of_ok (sees_one .stop s)] at h
  by_cases hk : s.next.kind = .stop
  · rw [if_pos (decide_eq_true hk)] at h
    cases h
    exact .here (viable_nil (by decide))
  · rw [if_neg (by simpa using hk)] at h
    rcases bind_eq_error h with h | ⟨e, t', ht, h⟩
    · exact haltsInner_nested (s.maxDepth.value - s.depth) .expression _ _ _ _ hs h
    · obtain ⟨ts, m, hd, -, hr⟩ :=
        acceptsInner_nested (s.maxDepth.value - s.depth) .expression _ _ _ hs ht
      rw [bind_of_ok (current_run t')] at h
      by_cases he : t'.next.kind = .stop
      · rw [if_pos he] at h
        cases h
      · rw [if_neg he] at h
        cases h
        exact .after hr (.here hd.viable)

end Grammar

end WeiCalc

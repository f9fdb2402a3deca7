import Mathlib
import WeiCalc.Proofs.Grammar.Limit
import WeiCalc.Proofs.Grammar.Viable

/-!
# Places that are opened

A nested place is opened before the parser knows what stands in it and whether it is ever closed, so
that a line may be refused for nesting although it is no phrase.  `Opens l ts n` says without the parser
that a phrase of the level `l` which begins like the tokens `ts` comes to a place `n` levels further in.

* `opens_of_refused`: **a place that is refused is one that has been opened.**
* `refuses_of_opens`: **a place for which no level is left is refused.**
* `ofTokens_nesting_iff`, `ofTokens_shallow_iff`: the lines that the parser refuses for nesting, and
  those that it refuses for another reason.
* `Derives.opens`, `Derives.le_of_opens`: the innermost place of a phrase is the deepest one that it
  opens.
-/

namespace WeiCalc

namespace Grammar

open WeiCalc.Parser

/-- The tokens open a place that is `n` levels of nesting further in.  What is in front of the place has
been read as the grammar says, and of what is in the place and behind it nothing is asked. -/
inductive Opens : Level → List Token → Nat → Prop
  | here (l : Level) (ts : List Token) : Opens l ts 0
  | parens {l : Token} {ts : List Token} {n : Nat} :
      l.kind = .leftParen → Opens .conversion ts n → Opens .primary ([l] ++ ts) (n + 1)
  | unchecked {u l : Token} {ts : List Token} {n : Nat} :
      u.kind = .unchecked → l.kind = .leftParen → Opens .conversion ts n →
      Opens .primary ([u, l] ++ ts) (n + 1)
  /-- Only the closing parenthesis of a call without arguments opens no place. -/
  | first {f l : Token} {ts : List Token} {n : Nat} :
      f.kind = .identifier → l.kind = .leftParen →
      (∀ r us, ts = r :: us → r.kind ≠ .rightParen) → Opens .conversion ts n →
      Opens .opened ([f, l] ++ ts) (n + 1)
  | next {ts us : List Token} {c : Token} {f : String} {es : List Expr} {p m n : Nat} :
      Derives .opened ts (.call f es p) m → c.kind = .comma → Opens .conversion us n →
      Opens .opened (ts ++ [c] ++ us) (n + 1)
  | call {ts : List Token} {n : Nat} : Opens .opened ts n → Opens .primary ts n
  | bare {ts : List Token} {n : Nat} : Opens .primary ts n → Opens .measured ts n
  | term {ts : List Token} {n : Nat} : Opens .measured ts n → Opens .unary ts n
  | negate {m : Token} {ts : List Token} {n : Nat} :
      m.kind = .minus → Opens .unary ts n → Opens .unary ([m] ++ ts) (n + 1)
  | base {ts : List Token} {n : Nat} : Opens .unary ts n → Opens .power ts n
  | power {ts us : List Token} {t : Token} {a : Expr} {m n : Nat} :
      Derives .unary ts a m → t.kind = .starStar → Opens .power us n →
      Opens .power (ts ++ [t] ++ us) (n + 1)
  | operand {c : Chained} {ts : List Token} {n : Nat} :
      Opens c.operand ts n → Opens (.chained c) ts n
  | binary {c : Chained} {ts us : List Token} {t : Token} {op : BinaryOp} {a : Expr} {m n : Nat} :
      Derives (.chained c) ts a m → c.op? t.kind = some op → Opens c.operand us n →
      Opens (.chained c) (ts ++ [t] ++ us) n
  | amount {ts : List Token} {n : Nat} : Opens (.chained .shift) ts n → Opens .conversion ts n

variable {l : Level} {ts us : List Token} {e : Expr} {m n : Nat} {inner : Inner}

/-! ### What is refused has been opened -/

/-- Where the operation is refused a place, the tokens ahead open one `n` levels further in. -/
def RefusedIn (l : Level) (n : Nat) (p : Parse Expr) : Prop :=
  ∀ (s t : Parser) (f : EvalError), s.stop.kind = .stop → p s = .error f t → ¬ f.Shallow →
    Opens l s.rest n

/-- The same of the operations for nested places. -/
def InnerRefusedIn (n : Nat) (inner : Inner) : Prop := ∀ k, RefusedIn (levelOf k) n (inner k)

theorem expect_shallow {kind : TokenKind} {what : String} {s t : Parser} {f : EvalError}
    (h : expect kind what s = .error f t) : f.Shallow := by
  rw [expect_run] at h
  split_ifs at h
  cases h
  trivial

/-- **A step of a chain.**  The chain that has been read stands in front of the place. -/
theorem opens_chainFrom {c : Chained} {operand : Parse Expr} (ha : Accepts c.operand m operand)
    (ho : RefusedIn c.operand n operand) (count : Nat) :
    ∀ {s t : Parser} {left : Expr} {ts : List Token} {k : Nat} {f : EvalError},
      s.stop.kind = .stop → Derives (.chained c) ts left k →
      chainFrom operand c.op? count left s = .error f t → ¬ f.Shallow →
      Opens (.chained c) (ts ++ s.rest) n := by
  induction count with
  | zero =>
    intro s t left ts k f _ _ h
    cases h
  | succ count ih =>
    intro s t left ts k f hs hd h hf
    rw [chainFrom, bind_of_ok (current_run s)] at h
    cases hop : c.op? s.next.kind with
    | none =>
      rw [hop] at h
      cases h
    | some op =>
      rw [hop] at h
      simp only [bind_of_ok (advance_run s)] at h
      have hr : s.Reads [s.next] (s.behind [s.next]) := .of_next hs (Chained.ne_stop_of_op? hop)
      have hs' : (s.behind [s.next]).stop.kind = .stop := hr.stop_kind hs
      rw [hr.1, ← List.append_assoc]
      rcases bind_eq_error h with h | ⟨right, t', ht, h⟩
      · exact .binary hd hop (ho _ _ _ hs' h hf)
      · obtain ⟨us, k', hu, -, hr'⟩ := ha _ _ _ hs' ht
        rw [hr'.1, ← List.append_assoc]
        exact ih (hr'.stop_kind hs') (.binary hd hop hu) h hf

theorem refusedIn_chain {c : Chained} {operand : Parse Expr} (ha : Accepts c.operand m operand)
    (ho : RefusedIn c.operand n operand) : RefusedIn (.chained c) n (chain operand c.op?) := by
  intro s t f hs h hf
  rcases bind_eq_error h with h | ⟨left, t', ht, h⟩
  · exact .operand (ho _ _ _ hs h hf)
  · obtain ⟨ts, k, hd, -, hr⟩ := ha _ _ _ hs ht
    rw [hr.1]
    exact opens_chainFrom ha ho _ (hr.stop_kind hs) (.operand hd) h hf

/-- No place is opened behind `to`. -/
theorem conversionsFrom_shallow (count : Nat) :
    ∀ {s t : Parser} {amount : Expr} {f : EvalError},
      conversionsFrom count amount s = .error f t → f.Shallow := by
  induction count with
  | zero =>
    intro s t amount f h
    cases h
  | succ count ih =>
    intro s t amount f h
    rw [conversionsFrom, bind_of_ok (sees_one .to s)] at h
    by_cases hk : s.next.kind = .to
    · rw [if_pos (decide_eq_true hk), bind_of_ok (advance_run s)] at h
      rcases bind_eq_error h with h | ⟨unit, t', _, h⟩
      · exact expect_shallow h
      · exact ih h
    · rw [if_neg (by simpa using hk)] at h
      cases h

theorem refusedIn_conversion (hh : RefusedIn (.chained .shift) n (shift inner)) :
    RefusedIn .conversion n (conversion inner) := by
  intro s t f hs h hf
  rcases bind_eq_error h with h | ⟨amount, t', _, h⟩
  · exact .amount (hh _ _ _ hs h hf)
  · exact absurd (conversionsFrom_shallow _ h) hf

section

variable (ha : AcceptsInner m inner) (hi : InnerRefusedIn n inner)

include ha hi

/-- Arguments behind the first one, each behind its comma. -/
theorem opens_argumentsFrom (count : Nat) :
    ∀ {s t : Parser} {g : String} {p : Nat} {es : List Expr} {ts : List Token} {k : Nat}
      {f : EvalError}, s.stop.kind = .stop → Derives .opened ts (.call g es p) k →
      argumentsFrom inner count es s = .error f t → ¬ f.Shallow →
      Opens .opened (ts ++ s.rest) (n + 1) := by
  induction count with
  | zero =>
    intro s t g p es ts k f _ _ h
    cases h
  | succ count ih =>
    intro s t g p es ts k f hs hd h hf
    rw [argumentsFrom, bind_of_ok (sees_one .comma s)] at h
    by_cases hk : s.next.kind = .comma
    · rw [if_pos (decide_eq_true hk), bind_of_ok (advance_run s)] at h
      have hr : s.Reads [s.next] (s.behind [s.next]) := .of_next hs (by rw [hk]; decide)
      have hs' : (s.behind [s.next]).stop.kind = .stop := hr.stop_kind hs
      rw [hr.1, ← List.append_assoc]
      rcases bind_eq_error h with h | ⟨a, t', ht, h⟩
      · exact .next hd hk (hi .expression _ _ _ hs' h hf)
      · obtain ⟨us, k', hu, -, hr'⟩ := ha .expression _ _ _ hs' ht
        rw [hr'.1, ← List.append_assoc]
        exact ih (hr'.stop_kind hs') (.next hd hk hu) h hf
    · rw [if_neg (by simpa using hk)] at h
      cases h

omit ha in
/-- What stands between two parentheses, behind the first one. -/
theorem opens_closed {what : String} {g : Expr → Expr} {s t : Parser} {f : EvalError}
    (hs : s.stop.kind = .stop)
    (h : (do
      let body ← inner .expression
      let _ ← expect .rightParen what
      return g body : Parse Expr) s = .error f t) (hf : ¬ f.Shallow) :
    Opens .conversion s.rest n := by
  rcases bind_eq_error h with h | ⟨body, t', _, h⟩
  · exact hi .expression _ _ _ hs h hf
  · rcases bind_eq_error h with h | ⟨_, _, _, h⟩
    · exact absurd (expect_shallow h) hf
    · cases h

/-- The arguments of a call and its closing parenthesis, where `c` and `l` have been read. -/
theorem opens_arguments {c l : Token} (hc : c.kind = .identifier) (hl : l.kind = .leftParen)
    {what : String} {g : List Expr → Expr} {s t : Parser} {f : EvalError} (hs : s.stop.kind = .stop)
    (h : (do
      let args ← arguments inner
      let _ ← expect .rightParen what
      return g args : Parse Expr) s = .error f t) (hf : ¬ f.Shallow) :
    Opens .opened ([c, l] ++ s.rest) (n + 1) := by
  rcases bind_eq_error h with h | ⟨_, _, _, h⟩
  · rw [arguments, bind_of_ok (sees_one .rightParen s)] at h
    by_cases hk : s.next.kind = .rightParen
    · rw [if_pos (decide_eq_true hk)] at h
      cases h
    · rw [if_neg (by simpa using hk)] at h
      have hopen : ∀ r us, s.rest = r :: us → r.kind ≠ .rightParen := by
        intro r us hr
        rwa [← next_of_rest hr]
      rcases bind_eq_error h with h | ⟨a, t', ht, h⟩
      · exact .first hc hl hopen (hi .expression _ _ _ hs h hf)
      · obtain ⟨ts, k, hd, -, hr⟩ := ha .expression _ _ _ hs ht
        rw [hr.1, ← List.append_assoc]
        exact opens_argumentsFrom ha hi _ (hr.stop_kind hs) (.first hc hl hd) h hf
  · rcases bind_eq_error h with h | ⟨_, _, _, h⟩
    · exact absurd (expect_shallow h) hf
    · cases h

/-- A primary term, by its first token. -/
theorem refusedIn_primary : RefusedIn .primary (n + 1) (primary inner) := by
  intro s t f hs h hf
  have hone : s.next.kind ≠ .stop → s.Reads [s.next] (s.behind [s.next]) := .of_next hs
  by_cases hnum : s.next.kind ∈ [.number, .hexNumber, .binaryNumber]
  · rw [primary_of_number hnum] at h
    cases hl : NumberLiteral.ofToken s.next with
    | ok l =>
      rw [hl] at h
      cases h
    | error e =>
      obtain ⟨cause, rfl⟩ := NumberLiteral.ofToken_eq_error hl
      rw [hl] at h
      cases h
      exact absurd trivial hf
  cases hk : s.next.kind
  case text =>
    rw [primary_of_text hk] at h
    cases h
  case unchecked =>
    rw [primary_of_unchecked hk] at h
    have hr := hone (by rw [hk]; decide)
    rcases bind_eq_error h with h | ⟨l, t', ht, h⟩
    · exact absurd (expect_shallow h) hf
    · obtain ⟨hl, hr'⟩ := expect_eq_ok (hr.stop_kind hs) (by decide) ht
      have hr₁ := hr.append hr'
      rw [hr₁.1]
      exact .unchecked hk hl (opens_closed hi (hr₁.stop_kind hs) h hf)
  case leftParen =>
    rw [primary_of_leftParen hk] at h
    have hr := hone (by rw [hk]; decide)
    rw [hr.1]
    exact .parens hk (opens_closed (g := id) hi (hr.stop_kind hs) h hf)
  case identifier =>
    rw [primary_of_identifier hk] at h
    have hr := hone (by rw [hk]; decide)
    by_cases hp : (s.behind [s.next]).next.kind = .leftParen
    · rw [if_pos hp] at h
      have hr₁ : s.Reads [s.next, (s.behind [s.next]).next] _ :=
        hr.append (.of_next (hr.stop_kind hs) (by rw [hp]; decide))
      rw [behind_behind] at hr₁
      rw [hr₁.1]
      exact .call (opens_arguments ha hi hk hp (hr₁.stop_kind hs) h hf)
    · rw [if_neg hp] at h
      cases h
  all_goals
    rw [primary_of_other (by rw [hk]; first | decide | exact absurd (by rw [hk]; decide) hnum)] at h
    cases h
    exact absurd trivial hf

theorem refusedIn_measured : RefusedIn .measured (n + 1) (measured inner) := by
  intro s t f hs h hf
  rcases bind_eq_error h with h | ⟨amount, t', _, h⟩
  · exact .bare (refusedIn_primary ha hi _ _ _ hs h hf)
  · rw [bind_of_ok (current_run t')] at h
    split_ifs at h <;> cases h

theorem refusedIn_unary : RefusedIn .unary (n + 1) (unary inner) := by
  intro s t f hs h hf
  rw [unary, bind_of_ok (current_run s)] at h
  by_cases hk : s.next.kind = .minus
  · rw [if_pos hk, bind_of_ok (advance_run s)] at h
    have hr : s.Reads [s.next] (s.behind [s.next]) := .of_next hs (by rw [hk]; decide)
    rcases bind_eq_error h with h | ⟨_, _, _, h⟩
    · rw [hr.1]
      exact .negate hk (hi .negated _ _ _ (hr.stop_kind hs) h hf)
    · cases h
  · rw [if_neg hk] at h
    exact .term (refusedIn_measured ha hi _ _ _ hs h hf)

theorem refusedIn_exponentiation : RefusedIn .power (n + 1) (exponentiation inner) := by
  intro s t f hs h hf
  rcases bind_eq_error h with h | ⟨left, t', ht, h⟩
  · exact .base (refusedIn_unary ha hi _ _ _ hs h hf)
  · obtain ⟨ts, k, hd, -, hr⟩ := accepts_unary ha _ _ _ hs ht
    have hs' : t'.stop.kind = .stop := hr.stop_kind hs
    rw [bind_of_ok (sees_one .starStar t')] at h
    by_cases hk : t'.next.kind = .starStar
    · rw [if_pos (decide_eq_true hk), bind_of_ok (advance_run t')] at h
      have hr' : t'.Reads [t'.next] (t'.behind [t'.next]) := .of_next hs' (by rw [hk]; decide)
      rcases bind_eq_error h with h | ⟨_, _, _, h⟩
      · rw [hr.1, hr'.1, ← List.append_assoc]
        exact .power hd hk (hi .exponent _ _ _ (hr'.stop_kind hs') h hf)
      · cases h
    · rw [if_neg (by simpa using hk)] at h
      cases h

theorem refusedIn_shift : RefusedIn (.chained .shift) (n + 1) (shift inner) := by
  have ap : Accepts (.chained .product) m (multiplicative inner) :=
    accepts_chain (c := .product) (accepts_exponentiation ha)
  have hp : RefusedIn (.chained .product) (n + 1) (multiplicative inner) :=
    refusedIn_chain (c := .product) (accepts_exponentiation ha) (refusedIn_exponentiation ha hi)
  have as : Accepts (.chained .sum) m (additive inner) := accepts_chain (c := .sum) ap
  have hs : RefusedIn (.chained .sum) (n + 1) (additive inner) :=
    refusedIn_chain (c := .sum) ap hp
  exact refusedIn_chain (c := .shift) as hs

theorem refusedIn_levelOf (k : Nesting) :
    RefusedIn (levelOf k) (n + 1) ((levelOf k).read inner) := by
  cases k with
  | expression => exact refusedIn_conversion (refusedIn_shift ha hi)
  | exponent => exact refusedIn_exponentiation ha hi
  | negated => exact refusedIn_unary ha hi

end

/-- **A place that is refused has been opened as deep as there were levels left**, by induction on the
levels. -/
theorem opens_of_refused (levels : Nat) : InnerRefusedIn levels (nested levels) := by
  induction levels with
  | zero =>
    intro k s t f _ _ _
    exact .here _ _
  | succ levels ih =>
    intro k s t f hs h hf
    rw [nested_succ] at h
    obtain ⟨t', ht, rfl⟩ := enter_eq_error h
    have hl := refusedIn_levelOf (acceptsInner_nested levels) ih k
    exact hl { s with depth := s.depth + 1 } _ _ hs ht hf

/-! ### What is opened too deep is refused -/

/-- In front of the tokens, the level's operation is refused a place unless `n` levels are left. -/
def Refuses (l : Level) (ts : List Token) (n : Nat) : Prop :=
  ∀ levels < n, ∀ s : Parser, s.rest = ts → s.stop.kind = .stop →
    ∃ f t, l.read (nested levels) s = .error f t ∧ ¬ f.Shallow

namespace Refuses

theorem mono (h : Refuses l ts n) (hm : m ≤ n) : Refuses l ts m :=
  fun levels hn => h levels (lt_of_lt_of_le hn hm)

theorem zero (l : Level) (ts : List Token) : Refuses l ts 0 := fun _ hn => absurd hn (by omega)

/-- An operation that begins with another one is refused a place where that one is. -/
theorem of_begins {l' : Level} (h : Refuses l ts n)
    (hl : ∀ inner, ∃ g, l'.read inner = l.read inner >>= g) : Refuses l' ts n := by
  intro levels hn s hs hk
  obtain ⟨f, t, hr, hf⟩ := h levels hn s hs hk
  obtain ⟨g, hg⟩ := hl (Parser.nested levels)
  refine ⟨f, t, ?_, hf⟩
  rw [hg]
  exact bind_of_error hr

/-- A nested place takes up one level. -/
theorem nested {k : Nesting} (h : Refuses (levelOf k) ts n) {levels : Nat} (hn : levels < n + 1)
    {s : Parser} (hr : s.rest = ts) (hk : s.stop.kind = .stop) :
    ∃ f t, nested levels k s = .error f t ∧ ¬ f.Shallow := by
  cases levels with
  | zero => exact ⟨_, _, rfl, id⟩
  | succ levels =>
    obtain ⟨f, t, ht, hf⟩ := h levels (by omega) { s with depth := s.depth + 1 } hr hk
    exact ⟨f, leave t, by rw [nested_succ, enter, ht], hf⟩

theorem parens {t : Token} (h : Refuses .conversion ts n) (ht : t.kind = .leftParen) :
    Refuses .primary ([t] ++ ts) (n + 1) := by
  intro levels hn s hs hk
  have hx : s.next = t := next_of_rest hs
  obtain ⟨f, t', hr, hf⟩ := h.nested (k := .expression) hn (behind_rest_of_append hs) hk
  refine ⟨f, t', ?_, hf⟩
  rw [Level.read, primary_of_leftParen (by rwa [hx]), hx]
  exact bind_of_error hr

theorem unchecked {t t' : Token} (h : Refuses .conversion ts n) (ht : t.kind = .unchecked)
    (ht' : t'.kind = .leftParen) : Refuses .primary ([t, t'] ++ ts) (n + 1) := by
  intro levels hn s hs hk
  have hx : s.next = t := next_of_rest hs
  have h₁ : (s.behind [t]).rest = t' :: ts := behind_rest_of_append hs
  have h₂ : ((s.behind [t]).behind [t']).rest = ts := behind_rest_of_append h₁
  obtain ⟨f, u, hr, hf⟩ := h.nested (k := .expression) hn h₂ hk
  refine ⟨f, u, ?_, hf⟩
  rw [Level.read, primary_of_unchecked (by rwa [hx]), hx, bind_of_ok (expect_of_kind _ h₁ ht')]
  exact bind_of_error hr

theorem first {c t : Token} (h : Refuses .conversion ts n) (hc : c.kind = .identifier)
    (ht : t.kind = .leftParen) (hopen : ∀ r us, ts = r :: us → r.kind ≠ .rightParen) :
    Refuses .opened ([c, t] ++ ts) (n + 1) := by
  intro levels hn s hs hk
  have hx : s.next = c := next_of_rest hs
  have h₁ : (s.behind [c]).rest = t :: ts := behind_rest_of_append hs
  have hy : (s.behind [c]).next = t := next_of_rest h₁
  have h₂ : (s.behind [c, t]).rest = ts := behind_rest_of_append hs
  have hnext : (s.behind [c, t]).next.kind ≠ .rightParen := by
    cases hr : ts with
    | nil =>
      rw [next, h₂, hr]
      exact fun h => absurd (hk.symm.trans h) (by decide)
    | cons r us =>
      rw [next_of_rest (h₂.trans hr)]
      exact hopen r us hr
  obtain ⟨f, u, hr, hf⟩ := h.nested (k := .expression) hn h₂ hk
  refine ⟨f, u, ?_, hf⟩
  rw [Level.read, primary_of_identifier (by rwa [hx]), hx, hy, if_pos ht]
  refine bind_of_error ?_
  rw [arguments, bind_of_ok (sees_one .rightParen _), if_neg (by simpa using hnext)]
  exact bind_of_error hr

theorem call (h : Refuses .opened ts n) : Refuses .primary ts n := h

theorem bare (h : Refuses .primary ts n) : Refuses .measured ts n :=
  h.of_begins fun _ => ⟨_, rfl⟩

/-- A minus is no measured term. -/
theorem term (h : Refuses .measured ts n) : Refuses .unary ts n := by
  intro levels hn s hs hk
  obtain ⟨f, t, hr, hf⟩ := h levels hn s hs hk
  by_cases hm : s.next.kind = .minus
  · have hp : Level.measured.read (Parser.nested levels) s =
        .error ⟨.grammar (.unexpectedToken s.next), some s.next.position⟩ s :=
      bind_of_error (primary_of_other (by rw [hm]; decide))
    rw [hp] at hr
    cases hr
    exact absurd trivial hf
  · refine ⟨f, t, ?_, hf⟩
    rw [Level.read, unary, bind_of_ok (current_run _), if_neg hm]
    exact hr

theorem negate {t : Token} (h : Refuses .unary ts n) (ht : t.kind = .minus) :
    Refuses .unary ([t] ++ ts) (n + 1) := by
  intro levels hn s hs hk
  have hx : s.next = t := next_of_rest hs
  obtain ⟨f, u, hr, hf⟩ := h.nested (k := .negated) hn (behind_rest_of_append hs) hk
  refine ⟨f, u, ?_, hf⟩
  rw [Level.read, unary, bind_of_ok (current_run _), hx, if_pos ht, bind_of_ok (advance_run _), hx]
  exact bind_of_error hr

theorem base (h : Refuses .unary ts n) : Refuses .power ts n :=
  h.of_begins fun _ => ⟨_, rfl⟩

/-- Behind the arguments before the comma, which take up places of their own. -/
theorem next {c : Token} {g : String} {es : List Expr} {p : Nat}
    (hd : Derives .opened ts (.call g es p) m) (h : Refuses .opened (ts ++ c :: us) m)
    (hc : c.kind = .comma) (h' : Refuses .conversion us n) :
    Refuses .opened (ts ++ [c] ++ us) (max m (n + 1)) := by
  intro levels hn s hs hk
  rw [List.append_assoc, List.cons_append, List.nil_append] at hs
  by_cases hm : levels < m
  · exact h levels hm s hs hk
  obtain ⟨count, hlt, hread⟩ :=
    resumes_of_derives hd levels (by omega) s c us hs (conversion_stopsAt_comma hc)
  obtain ⟨count, rfl⟩ : ∃ k, count = k + 1 := ⟨count - 1, by omega⟩
  have h₁ : (s.behind ts).rest = c :: us := behind_rest_of_append hs
  have h₂ : ((s.behind ts).behind [c]).rest = us := behind_rest_of_append h₁
  have hx : (s.behind ts).next = c := next_of_rest h₁
  have hn' : levels < n + 1 := by omega
  obtain ⟨f, t, hr, hf⟩ := h'.nested (k := .expression) hn' h₂ hk
  refine ⟨f, t, ?_, hf⟩
  rw [hread, Level.resume]
  refine bind_of_error ?_
  rw [argumentsFrom, bind_of_ok (sees_one .comma _), if_pos (by rw [hx]; exact decide_eq_true hc),
    bind_of_ok (advance_run _), hx]
  exact bind_of_error hr

theorem power {t : Token} (hd : Derives .unary ts e m) (h : Refuses .unary (ts ++ t :: us) m)
    (ht : t.kind = .starStar) (h' : Refuses .power us n) :
    Refuses .power (ts ++ [t] ++ us) (max m (n + 1)) := by
  intro levels hn s hs hk
  rw [List.append_assoc, List.cons_append, List.nil_append] at hs
  by_cases hm : levels < m
  · exact h.base levels hm s hs hk
  have hread : Parser.unary (Parser.nested levels) s = .ok e (s.behind ts) :=
    answers_of_derives (by decide) hd levels (by omega) s t us hs (unary_stopsAt_starStar ht)
  have h₁ : (s.behind ts).rest = t :: us := behind_rest_of_append hs
  have h₂ : ((s.behind ts).behind [t]).rest = us := behind_rest_of_append h₁
  have hx : (s.behind ts).next = t := next_of_rest h₁
  have hn' : levels < n + 1 := by omega
  obtain ⟨f, u, hr, hf⟩ := h'.nested (k := .exponent) hn' h₂ hk
  refine ⟨f, u, ?_, hf⟩
  rw [Level.read, exponentiation, bind_of_ok hread, bind_of_ok (sees_one .starStar _), hx,
    if_pos (decide_eq_true ht), bind_of_ok (advance_run _), hx]
  exact bind_of_error hr

theorem operand {c : Chained} (h : Refuses c.operand ts n) : Refuses (.chained c) ts n :=
  h.of_begins fun _ => ⟨_, read_chained ..⟩

/-- Behind the operands before the operator, which take up places of their own. -/
theorem binary {c : Chained} {t : Token} {op : BinaryOp} (hd : Derives (.chained c) ts e m)
    (h : Refuses (.chained c) (ts ++ t :: us) m) (ht : c.op? t.kind = some op)
    (h' : Refuses c.operand us n) : Refuses (.chained c) (ts ++ [t] ++ us) (max m n) := by
  intro levels hn s hs hk
  rw [List.append_assoc, List.cons_append, List.nil_append] at hs
  by_cases hm : levels < m
  · exact h levels hm s hs hk
  obtain ⟨count, hlt, hread⟩ :=
    resumes_of_derives hd levels (by omega) s t us hs (Level.operand_stopsAt ht)
  obtain ⟨count, rfl⟩ : ∃ k, count = k + 1 := ⟨count - 1, by omega⟩
  have h₁ : (s.behind ts).rest = t :: us := behind_rest_of_append hs
  have h₂ : ((s.behind ts).behind [t]).rest = us := behind_rest_of_append h₁
  have hx : (s.behind ts).next = t := next_of_rest h₁
  obtain ⟨f, u, hr, hf⟩ := h' levels (by omega) _ h₂ hk
  refine ⟨f, u, ?_, hf⟩
  rw [hread, Level.resume, chainFrom, bind_of_ok (current_run _), hx, ht]
  simp only [bind_of_ok (advance_run _), hx]
  exact bind_of_error hr

theorem amount (h : Refuses (.chained .shift) ts n) : Refuses .conversion ts n :=
  h.of_begins fun _ => ⟨_, rfl⟩

end Refuses

/-- **A phrase is refused unless there are levels for its innermost place**, whatever is behind it. -/
theorem refuses_of_derives (hd : Derives l ts e n) :
    ∀ (u : Token) (us : List Token), l.inside.StopsAt u → Refuses l (ts ++ u :: us) n := by
  induction hd with
  | number | text | identifier | callBare => exact fun _ _ _ => .zero _ _
  | parens hl _ hr ih =>
    intro u us _
    have hi := ih _ (u :: us) ((conversion_stopsAt_rightParen hr).inside (by decide))
    simpa only [List.append_assoc, List.cons_append, List.nil_append] using hi.parens hl
  | unchecked ht hl _ hr ih =>
    intro u us _
    have hi := ih _ (u :: us) ((conversion_stopsAt_rightParen hr).inside (by decide))
    simpa only [List.append_assoc, List.cons_append, List.nil_append] using hi.unchecked ht hl
  | first hf hl hd ih =>
    intro u us hu
    have hi := ih u us (hu.inside (by decide))
    rw [List.append_assoc]
    refine hi.first hf hl fun r vs hr hk => ?_
    obtain ⟨t, ws, rfl, ht⟩ := hd.opening
    obtain ⟨rfl, -⟩ := List.cons.inj hr
    rw [hk] at ht
    exact absurd ht (by decide)
  | @next ts us c f es p a m n hd hc _ ih ih' =>
    intro u vs hu
    have hi' := ih' u vs (hu.inside (by decide))
    rw [List.append_assoc]
    exact .next hd (ih c _ (conversion_stopsAt_comma hc)) hc hi'
  | call _ hr ih =>
    intro u us _
    have hi := ih _ (u :: us) (conversion_stopsAt_rightParen hr)
    rw [List.append_assoc]
    exact hi.call
  | bare _ ih =>
    intro u us hu
    exact (ih u us ⟨hu.1, Or.inl rfl⟩).bare
  | @measured ts t e n _ ht _ ih =>
    intro u us _
    have hts : Level.primary.StopsAt t := ⟨by rw [ht]; decide, Or.inl rfl⟩
    rw [List.append_assoc]
    exact (ih t (u :: us) hts).bare
  | term _ ih =>
    intro u us hu
    exact (ih u us (Level.stopsAt_of_subset (by decide) (by decide) hu)).term
  | negate hm _ ih =>
    intro u us hu
    rw [List.append_assoc]
    exact (ih u us hu).negate hm
  | base _ ih =>
    intro u us hu
    exact (ih u us (Level.stopsAt_of_subset (by decide) (by decide) hu)).base
  | @power ts us t a b m n hd ht _ ih ih' =>
    intro u vs hu
    rw [List.append_assoc]
    exact .power hd (ih t _ (unary_stopsAt_starStar ht)) ht (ih' u vs hu)
  | @operand c ts e n _ ih =>
    intro u us hu
    exact (ih u us (hu.inside (by cases c <;> decide))).operand
  | @binary c ts us t op a b m n hd ht _ ih ih' =>
    intro u vs hu
    have hi' := ih' u vs (hu.inside (by cases c <;> decide))
    rw [List.append_assoc]
    exact .binary hd (ih t _ (Level.operand_stopsAt ht)) ht hi'
  | amount _ ih =>
    intro u us hu
    exact (ih u us (hu.inside (by decide))).amount
  | @converted ts t t' e n _ ht _ ih =>
    intro u us _
    rw [List.append_assoc]
    exact ih t (t' :: u :: us) (shift_stopsAt_to ht)

/-- **A place for which no level is left is refused**, by induction on what opens it. -/
theorem refuses_of_opens (ho : Opens l ts n) : Refuses l ts n := by
  induction ho with
  | here => exact .zero _ _
  | parens hl _ ih => exact ih.parens hl
  | unchecked hu hl _ ih => exact ih.unchecked hu hl
  | first hf hl hopen _ ih => exact ih.first hf hl hopen
  | @next ts us c f es p m n hd hc _ ih =>
    have hr := refuses_of_derives hd c us (conversion_stopsAt_comma hc)
    exact (Refuses.next hd hr hc ih).mono (le_max_right _ _)
  | call _ ih => exact ih.call
  | bare _ ih => exact ih.bare
  | term _ ih => exact ih.term
  | negate hm _ ih => exact ih.negate hm
  | base _ ih => exact ih.base
  | @power ts us t a m n hd ht _ ih =>
    have hr := refuses_of_derives hd t us (unary_stopsAt_starStar ht)
    exact (Refuses.power hd hr ht ih).mono (le_max_right _ _)
  | operand _ ih => exact ih.operand
  | @binary c ts us t op a m n hd ht _ ih =>
    have hr := refuses_of_derives hd t us (Level.operand_stopsAt ht)
    exact (Refuses.binary hd hr ht ih).mono (le_max_right _ _)
  | amount _ ih => exact ih.amount

/-! ### Whole lines -/

section

variable {body : List Token} {stop : Token} {k : Nat}

/-- A phrase opens its innermost place. -/
theorem Derives.opens (hd : Derives .conversion body e n) (hs : stop.kind = .stop) :
    Opens .conversion (body ++ [stop]) n := by
  cases n with
  | zero => exact .here _ _
  | succ n =>
    have hu := (conversion_stopsAt_stop hs).inside (by decide)
    obtain ⟨f, t, hr, hf⟩ := refuses_of_derives hd stop [] hu n (Nat.lt_succ_self n)
      ⟨body ++ [stop], stop, 0, 0, .count 0⟩ rfl hs
    exact refusedIn_levelOf (acceptsInner_nested n) (opens_of_refused n) .expression _ _ _
      (by exact hs) hr hf

/-- A phrase opens no place further in than its innermost one. -/
theorem Derives.le_of_opens (hd : Derives .conversion body e n) (hs : stop.kind = .stop)
    (ho : Opens .conversion (body ++ [stop]) k) : k ≤ n := by
  by_contra hk
  obtain ⟨f, t, hr, -⟩ := refuses_of_opens ho n (not_le.mp hk)
    ⟨body ++ [stop], stop, 0, 0, .count 0⟩ rfl hs
  rw [answers_of_derives (by decide) hd n le_rfl _ stop [] rfl (conversion_stopsAt_stop hs)] at hr
  cases hr

/-- A line that the parser refuses for nesting opens a place for which the limit leaves no level. -/
theorem opens_of_ofTokens {maxDepth : Limit} {f : EvalError} (hs : stop.kind = .stop)
    (h : Expr.ofTokens maxDepth (body ++ [stop]) = .error f) (hf : ¬ f.Shallow) :
    Opens .conversion (body ++ [stop]) maxDepth.value := by
  obtain ⟨t, h⟩ := ofTokens_eq_error.mp h
  rw [ofTokens_concat, line, bind_of_ok (sees_one .stop _)] at h
  split_ifs at h
  · cases h
    exact absurd trivial hf
  rcases bind_eq_error h with h | ⟨e, t', _, h⟩
  · exact opens_of_refused maxDepth.value .expression _ _ _ (by exact hs) h hf
  · rw [bind_of_ok (current_run t')] at h
    split_ifs at h
    · cases h
    · cases h
      exact absurd trivial hf

/-- **The lines that the parser refuses for nesting** are those that open a place deeper than the limit,
the whole line being the first place.  An empty line is refused for being empty. -/
theorem ofTokens_nesting_iff (hb : NoStop body) (hs : stop.kind = .stop) (hne : body ≠ [])
    (maxDepth : Limit) :
    (∃ f, Expr.ofTokens maxDepth (body ++ [stop]) = .error f ∧ ¬ f.Shallow) ↔
      ∃ n, Opens .conversion (body ++ [stop]) n ∧ maxDepth.value < n + 1 := by
  constructor
  · rintro ⟨f, h, hf⟩
    exact ⟨_, opens_of_ofTokens hs h hf, Nat.lt_succ_self _⟩
  · rintro ⟨n, ho, hn⟩
    have hk : (⟨body ++ [stop], stop, 0, 0, maxDepth⟩ : Parser).next.kind ≠ .stop := by
      obtain ⟨t, ts, rfl⟩ := List.exists_cons_of_ne_nil hne
      exact hb t (List.mem_cons_self ..)
    obtain ⟨f, t, hr, hf⟩ := (refuses_of_opens ho).nested (k := .expression) hn
      (s := ⟨body ++ [stop], stop, 0, 0, maxDepth⟩) rfl hs
    refine ⟨f, ofTokens_eq_error.mpr ⟨t, ?_⟩, hf⟩
    rw [ofTokens_concat, line, bind_of_ok (sees_one .stop _), if_neg (by simpa using hk)]
    exact bind_of_error hr

/-- A line that is refused for another reason than nesting is no phrase, however deep it may nest. -/
theorem not_derives_of_ofTokens {maxDepth : Limit} {f : EvalError} (hs : stop.kind = .stop)
    (h : Expr.ofTokens maxDepth (body ++ [stop]) = .error f) (hf : f.Shallow) :
    ¬ Derives .conversion body e n := by
  intro hd
  have hle : maxDepth.value ≤ (Limit.count (max maxDepth.value (n + 1))).value := le_max_left _ _
  have hn : n + 1 ≤ (Limit.count (max maxDepth.value (n + 1))).value := le_max_right _ _
  rcases Expr.ofTokens_loosens hle (body ++ [stop]) with ⟨f', h', hf'⟩ | hsame
  · rw [h] at h'
    cases h'
    exact hf' hf
  · rw [h, ofTokens_of_derives hs hd hn] at hsame
    cases hsame

/-- A line that is no phrase and opens no place deeper than the limit is refused for another reason than
nesting. -/
theorem ofTokens_shallow {maxDepth : Limit} (hb : NoStop body) (hs : stop.kind = .stop)
    (hnone : ∀ e n, ¬ Derives .conversion body e n)
    (hopen : ∀ n, Opens .conversion (body ++ [stop]) n → n + 1 ≤ maxDepth.value) :
    ∃ f, Expr.ofTokens maxDepth (body ++ [stop]) = .error f ∧ f.Shallow := by
  cases h : Expr.ofTokens maxDepth (body ++ [stop]) with
  | ok e =>
    obtain ⟨s, hline⟩ := ofTokens_eq_ok.mp h
    rw [ofTokens_concat] at hline
    obtain ⟨n, hd, -⟩ := derives_of_line hb hs hline
    exact absurd hd (hnone e n)
  | error f =>
    refine ⟨f, rfl, ?_⟩
    by_contra hf
    exact absurd (hopen _ (opens_of_ofTokens hs h hf)) (Nat.not_succ_le_self _)

/-- **The lines that the parser refuses for another reason** are those that are no phrase and open no
place deeper than the limit. -/
theorem ofTokens_shallow_iff (hb : NoStop body) (hs : stop.kind = .stop) (hne : body ≠ [])
    (maxDepth : Limit) :
    (∃ f, Expr.ofTokens maxDepth (body ++ [stop]) = .error f ∧ f.Shallow) ↔
      (∀ e n, ¬ Derives .conversion body e n) ∧
        ∀ n, Opens .conversion (body ++ [stop]) n → n + 1 ≤ maxDepth.value := by
  constructor
  · rintro ⟨f, h, hf⟩
    refine ⟨fun e n => not_derives_of_ofTokens hs h hf, fun n ho => ?_⟩
    by_contra hn
    obtain ⟨f', h', hf'⟩ := (ofTokens_nesting_iff hb hs hne maxDepth).mpr ⟨n, ho, not_le.mp hn⟩
    rw [h] at h'
    cases h'
    exact hf' hf
  · rintro ⟨hnone, hopen⟩
    exact ofTokens_shallow hb hs hnone hopen

end

end Grammar

end WeiCalc

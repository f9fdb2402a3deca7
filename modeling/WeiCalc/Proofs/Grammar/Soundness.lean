import Mathlib
import WeiCalc.Proofs.Grammar
import WeiCalc.Proofs.Grammar.Reading

/-!
# What the parser accepts is a phrase

Every operation of the parser that answers has read a phrase of its level, with the answer as its
tree.  `Accepts l n p` states this of an operation `p`, with the bound `n` on how deep places nest.

* `accepts_chain`: for the three levels that associate to the left, from their operands.
* `acceptsInner_nested`: at nested places, with as many levels of nesting as are left.
-/

namespace WeiCalc

namespace Grammar

open WeiCalc.Parser

/-- Every answer of `p` is the tree of a phrase that has been read, and nests at most `n` deep. -/
def Accepts (l : Level) (n : Nat) (p : Parse Expr) : Prop :=
  ∀ (s s' : Parser) (e : Expr), s.stop.kind = .stop → p s = .ok e s' →
    ∃ ts m, Derives l ts e m ∧ m ≤ n ∧ s.Reads ts s'

/-- The level of the phrases at a nested place. -/
def levelOf : Nesting → Level
  | .expression => .conversion
  | .exponent => .power
  | .negated => .unary

/-- Nested places are read one level further in, with `n` levels in all. -/
def AcceptsInner (n : Nat) (inner : Inner) : Prop :=
  ∀ (k : Nesting) (s s' : Parser) (e : Expr), s.stop.kind = .stop → inner k s = .ok e s' →
    ∃ ts m, Derives (levelOf k) ts e m ∧ m + 1 ≤ n ∧ s.Reads ts s'

variable {n : Nat} {inner : Inner}

/-! ### Chains of operators -/

/-- **A step of a chain.**  Behind a chain that has been read, an operator and an operand make a
longer one. -/
theorem accepts_chainFrom {c : Chained} {operand : Parse Expr} (ho : Accepts c.operand n operand)
    (count : Nat) :
    ∀ {s s' : Parser} {left e : Expr} {ts : List Token} {m : Nat}, s.stop.kind = .stop →
      Derives (.chained c) ts left m → m ≤ n → chainFrom operand c.op? count left s = .ok e s' →
      ∃ us m', Derives (.chained c) (ts ++ us) e m' ∧ m' ≤ n ∧ s.Reads us s' := by
  induction count with
  | zero =>
    intro s s' left e ts m _ hd hm h
    cases h
    exact ⟨[], m, by rwa [List.append_nil], hm, .nil s⟩
  | succ count ih =>
    intro s s' left e ts m hs hd hm h
    rw [chainFrom, bind_of_ok (current_run s)] at h
    cases hop : c.op? s.next.kind with
    | none =>
      rw [hop] at h
      cases h
      exact ⟨[], m, by rwa [List.append_nil], hm, .nil s⟩
    | some op =>
      rw [hop] at h
      simp only [bind_of_ok (advance_run s)] at h
      have hr : s.Reads [s.next] (s.behind [s.next]) :=
        .of_next hs (Chained.ne_stop_of_op? hop)
      obtain ⟨right, t, ht, h⟩ := bind_eq_ok h
      obtain ⟨us, k, hu, hk, hr'⟩ := ho _ _ _ (hr.stop_kind hs) ht
      have hd' := Derives.binary hd hop hu
      obtain ⟨vs, m', hv, hm', hr''⟩ :=
        ih (hr'.stop_kind (hr.stop_kind hs)) hd' (max_le hm hk) h
      refine ⟨[s.next] ++ us ++ vs, m', ?_, hm', (hr.append hr').append hr''⟩
      simpa only [List.append_assoc] using hv

theorem accepts_chain {c : Chained} {operand : Parse Expr} (ho : Accepts c.operand n operand) :
    Accepts (.chained c) n (chain operand c.op?) := by
  intro s s' e hs h
  obtain ⟨left, t, ht, h⟩ := bind_eq_ok h
  obtain ⟨ts, m, hd, hm, hr⟩ := ho _ _ _ hs ht
  obtain ⟨us, m', hd', hm', hr'⟩ :=
    accepts_chainFrom ho _ (hr.stop_kind hs) (.operand hd) hm h
  exact ⟨ts ++ us, m', hd', hm', hr.append hr'⟩

/-! ### Conversions -/

theorem accepts_conversionsFrom (count : Nat) :
    ∀ {s s' : Parser} {amount e : Expr} {ts : List Token} {m : Nat}, s.stop.kind = .stop →
      Derives .conversion ts amount m → conversionsFrom count amount s = .ok e s' →
      ∃ us, Derives .conversion (ts ++ us) e m ∧ s.Reads us s' := by
  induction count with
  | zero =>
    intro s s' amount e ts m _ hd h
    cases h
    exact ⟨[], by rwa [List.append_nil], .nil s⟩
  | succ count ih =>
    intro s s' amount e ts m hs hd h
    rw [conversionsFrom, bind_of_ok (sees_one .to s)] at h
    by_cases hk : s.next.kind = .to
    · rw [if_pos (decide_eq_true hk), bind_of_ok (advance_run s)] at h
      have hr : s.Reads [s.next] (s.behind [s.next]) := .of_next hs (by rw [hk]; decide)
      have hs' : (s.behind [s.next]).stop.kind = .stop := hr.stop_kind hs
      obtain ⟨unit, t, ht, h⟩ := bind_eq_ok h
      obtain ⟨hu, hr'⟩ := expect_eq_ok hs' (by decide) ht
      obtain ⟨us, hv, hr''⟩ := ih (hr'.stop_kind hs') (.converted hd hk hu) h
      refine ⟨[s.next, unit] ++ us, ?_, (hr.append hr').append hr''⟩
      rwa [← List.append_assoc]
    · rw [if_neg (by simpa using hk)] at h
      cases h
      exact ⟨[], by rwa [List.append_nil], .nil s⟩

theorem accepts_conversion (hs : Accepts (.chained .shift) n (shift inner)) :
    Accepts .conversion n (conversion inner) := by
  intro s s' e hk h
  obtain ⟨amount, t, ht, h⟩ := bind_eq_ok h
  obtain ⟨ts, m, hd, hm, hr⟩ := hs _ _ _ hk ht
  obtain ⟨us, hd', hr'⟩ :=
    accepts_conversionsFrom _ (hr.stop_kind hk) (.amount hd) h
  exact ⟨ts ++ us, m, hd', hm, hr.append hr'⟩

/-! ### Primary terms -/

/-- Arguments behind the first one, each behind its comma. -/
theorem accepts_argumentsFrom (hi : AcceptsInner n inner) (count : Nat) :
    ∀ {s s' : Parser} {f : String} {p : Nat} {es es' : List Expr} {ts : List Token} {m : Nat},
      s.stop.kind = .stop → Derives .opened ts (.call f es p) m → m ≤ n →
      argumentsFrom inner count es s = .ok es' s' →
      ∃ us m', Derives .opened (ts ++ us) (.call f es' p) m' ∧ m' ≤ n ∧ s.Reads us s' := by
  induction count with
  | zero =>
    intro s s' f p es es' ts m _ hd hm h
    cases h
    exact ⟨[], m, by rwa [List.append_nil], hm, .nil s⟩
  | succ count ih =>
    intro s s' f p es es' ts m hs hd hm h
    rw [argumentsFrom, bind_of_ok (sees_one .comma s)] at h
    by_cases hk : s.next.kind = .comma
    · rw [if_pos (decide_eq_true hk), bind_of_ok (advance_run s)] at h
      have hr : s.Reads [s.next] (s.behind [s.next]) := .of_next hs (by rw [hk]; decide)
      have hs' : (s.behind [s.next]).stop.kind = .stop := hr.stop_kind hs
      obtain ⟨e, t, ht, h⟩ := bind_eq_ok h
      obtain ⟨us, k, hu, hk', hr'⟩ := hi .expression _ _ _ hs' ht
      obtain ⟨vs, m', hv, hm', hr''⟩ :=
        ih (hr'.stop_kind hs') (.next hd hk hu) (max_le hm hk') h
      refine ⟨[s.next] ++ us ++ vs, m', ?_, hm', (hr.append hr').append hr''⟩
      simpa only [List.append_assoc] using hv
    · rw [if_neg (by simpa using hk)] at h
      cases h
      exact ⟨[], m, by rwa [List.append_nil], hm, .nil s⟩

/-- What stands between two parentheses that have been read. -/
theorem accepts_closed (hi : AcceptsInner n inner) {what : String} {f : Expr → Expr}
    {s s' : Parser} {e : Expr} (hs : s.stop.kind = .stop)
    (h : (do
      let body ← inner .expression
      let _ ← expect .rightParen what
      return f body : Parse Expr) s = .ok e s') :
    ∃ ts body r m, Derives .conversion ts body m ∧ m + 1 ≤ n ∧ r.kind = .rightParen ∧
      e = f body ∧ s.Reads (ts ++ [r]) s' := by
  obtain ⟨body, t, ht, h⟩ := bind_eq_ok h
  obtain ⟨ts, m, hd, hm, hr⟩ := hi .expression _ _ _ hs ht
  obtain ⟨r, t', hr', h⟩ := bind_eq_ok h
  obtain ⟨hk, hr'⟩ := expect_eq_ok (hr.stop_kind hs) (by decide) hr'
  cases h
  exact ⟨ts, body, r, m, hd, hm, hk, rfl, hr.append hr'⟩

/-- The arguments of a call and its closing parenthesis, where `f` and `l` have been read. -/
theorem accepts_arguments (hi : AcceptsInner n inner) {f l : Token} (hf : f.kind = .identifier)
    (hl : l.kind = .leftParen) {what : String} {s s' : Parser} {e : Expr}
    (hs : s.stop.kind = .stop)
    (h : (do
      let args ← arguments inner
      let _ ← expect .rightParen what
      return .call f.text args f.position : Parse Expr) s = .ok e s') :
    ∃ ts m, Derives .primary ([f, l] ++ ts) e m ∧ m ≤ n ∧ s.Reads ts s' := by
  obtain ⟨es, t, ht, h⟩ := bind_eq_ok h
  obtain ⟨r, t', hr, h⟩ := bind_eq_ok h
  cases h
  rw [arguments, bind_of_ok (sees_one .rightParen s)] at ht
  by_cases hk : s.next.kind = .rightParen
  · rw [if_pos (decide_eq_true hk)] at ht
    cases ht
    obtain ⟨hk', hr⟩ := expect_eq_ok hs (by decide) hr
    exact ⟨[r], 0, .callBare hf hl hk', Nat.zero_le _, hr⟩
  · rw [if_neg (by simpa using hk)] at ht
    obtain ⟨a, t₁, ha, ht⟩ := bind_eq_ok ht
    obtain ⟨ts, m, hd, hm, hr₁⟩ := hi .expression _ _ _ hs ha
    obtain ⟨us, m', hd', hm', hr₂⟩ :=
      accepts_argumentsFrom hi _ (hr₁.stop_kind hs) (.first hf hl hd) hm ht
    have hr₃ := hr₁.append hr₂
    obtain ⟨hk', hr⟩ := expect_eq_ok (hr₃.stop_kind hs) (by decide) hr
    refine ⟨ts ++ us ++ [r], m', ?_, hm', hr₃.append hr⟩
    simpa only [List.append_assoc] using Derives.call hd' hk'

theorem accepts_primary (hi : AcceptsInner n inner) : Accepts .primary n (primary inner) := by
  intro s s' e hs h
  have hone : s.next.kind ≠ .stop → s.Reads [s.next] (s.behind [s.next]) := .of_next hs
  by_cases hnum : s.next.kind ∈ [.number, .hexNumber, .binaryNumber]
  · rw [primary_of_number hnum] at h
    cases hl : NumberLiteral.ofToken s.next with
    | error e => rw [hl] at h; cases h
    | ok l =>
      rw [hl] at h
      cases h
      refine ⟨[s.next], 0, .number hnum hl, Nat.zero_le _, hone ?_⟩
      rintro hk
      rw [hk] at hnum
      exact absurd hnum (by decide)
  cases hk : s.next.kind
  case text =>
    rw [primary_of_text hk] at h
    cases h
    exact ⟨[s.next], 0, .text hk, Nat.zero_le _, hone (by rw [hk]; decide)⟩
  case unchecked =>
    rw [primary_of_unchecked hk] at h
    have hr := hone (by rw [hk]; decide)
    obtain ⟨l, t, ht, h⟩ := bind_eq_ok h
    obtain ⟨hl, hr'⟩ := expect_eq_ok (hr.stop_kind hs) (by decide) ht
    have hr₁ := hr.append hr'
    obtain ⟨ts, body, r, m, hd, hm, hp, rfl, hr''⟩ :=
      accepts_closed hi (hr₁.stop_kind hs) h
    refine ⟨[s.next, l] ++ ts ++ [r], m + 1, .unchecked hk hl hd hp, hm, ?_⟩
    simpa only [List.append_assoc, List.cons_append, List.nil_append] using hr₁.append hr''
  case leftParen =>
    rw [primary_of_leftParen hk] at h
    have hr := hone (by rw [hk]; decide)
    obtain ⟨ts, body, r, m, hd, hm, hp, rfl, hr'⟩ :=
      accepts_closed (f := id) hi (hr.stop_kind hs) h
    exact ⟨[s.next] ++ ts ++ [r], m + 1, .parens hk hd hp, hm, by
      simpa only [List.append_assoc] using hr.append hr'⟩
  case identifier =>
    rw [primary_of_identifier hk] at h
    have hr := hone (by rw [hk]; decide)
    by_cases hp : (s.behind [s.next]).next.kind = .leftParen
    · rw [if_pos hp] at h
      have hr₁ : s.Reads [s.next, (s.behind [s.next]).next] _ :=
        hr.append (.of_next (hr.stop_kind hs) (by rw [hp]; decide))
      rw [behind_behind] at hr₁
      obtain ⟨ts, m, hd, hm, hr'⟩ := accepts_arguments hi hk hp (by rw [behind_stop]; exact hs) h
      exact ⟨_, m, hd, hm, hr₁.append hr'⟩
    · rw [if_neg hp] at h
      cases h
      exact ⟨[s.next], 0, .identifier hk, Nat.zero_le _, hr⟩
  all_goals
    rw [primary_of_other (by rw [hk]; first | decide | exact absurd (by rw [hk]; decide) hnum)] at h
    cases h

/-! ### Units, minus and powers -/

theorem accepts_measured (hi : AcceptsInner n inner) : Accepts .measured n (measured inner) := by
  intro s s' e hs h
  obtain ⟨amount, t, ht, h⟩ := bind_eq_ok h
  obtain ⟨ts, m, hd, hm, hr⟩ := accepts_primary hi _ _ _ hs ht
  have hs' : t.stop.kind = .stop := hr.stop_kind hs
  rw [bind_of_ok (current_run t)] at h
  by_cases hu : t.next.kind = .identifier ∧ MeasureUnit.isName t.next.text = true
  · rw [if_pos hu] at h
    cases h
    exact ⟨ts ++ [t.next], m, .measured hd hu.1 hu.2, hm,
      hr.append (.of_next hs' (by rw [hu.1]; decide))⟩
  · rw [if_neg hu] at h
    cases h
    exact ⟨ts, m, .bare hd, hm, hr⟩

theorem accepts_unary (hi : AcceptsInner n inner) : Accepts .unary n (unary inner) := by
  intro s s' e hs h
  rw [unary, bind_of_ok (current_run s)] at h
  by_cases hk : s.next.kind = .minus
  · rw [if_pos hk, bind_of_ok (advance_run s)] at h
    have hr : s.Reads [s.next] (s.behind [s.next]) := .of_next hs (by rw [hk]; decide)
    obtain ⟨operand, t, ht, h⟩ := bind_eq_ok h
    obtain ⟨ts, m, hd, hm, hr'⟩ := hi .negated _ _ _ (hr.stop_kind hs) ht
    cases h
    exact ⟨[s.next] ++ ts, m + 1, .negate hk hd, hm, hr.append hr'⟩
  · rw [if_neg hk] at h
    obtain ⟨ts, m, hd, hm, hr⟩ := accepts_measured hi _ _ _ hs h
    exact ⟨ts, m, .term hd, hm, hr⟩

theorem accepts_exponentiation (hi : AcceptsInner n inner) :
    Accepts .power n (exponentiation inner) := by
  intro s s' e hs h
  obtain ⟨left, t, ht, h⟩ := bind_eq_ok h
  obtain ⟨ts, m, hd, hm, hr⟩ := accepts_unary hi _ _ _ hs ht
  have hs' : t.stop.kind = .stop := hr.stop_kind hs
  rw [bind_of_ok (sees_one .starStar t)] at h
  by_cases hk : t.next.kind = .starStar
  · rw [if_pos (decide_eq_true hk), bind_of_ok (advance_run t)] at h
    have hr' : t.Reads [t.next] (t.behind [t.next]) := .of_next hs' (by rw [hk]; decide)
    obtain ⟨right, t', ht', h⟩ := bind_eq_ok h
    obtain ⟨us, m', hd', hm', hr''⟩ := hi .exponent _ _ _ (hr'.stop_kind hs') ht'
    cases h
    exact ⟨ts ++ [t.next] ++ us, max m (m' + 1), .power hd hk hd', max_le hm hm',
      (hr.append hr').append hr''⟩
  · rw [if_neg (by simpa using hk)] at h
    cases h
    exact ⟨ts, m, .base hd, hm, hr⟩

/-! ### All levels -/

/-- The operation that reads the phrases of a level. -/
def Level.read (inner : Inner) : Level → Parse Expr
  | conversion => Parser.conversion inner
  | chained .shift => Parser.shift inner
  | chained .sum => Parser.additive inner
  | chained .product => Parser.multiplicative inner
  | power => Parser.exponentiation inner
  | unary => Parser.unary inner
  | measured => Parser.measured inner
  | primary => Parser.primary inner
  | opened => Parser.primary inner

theorem read_chained (inner : Inner) (c : Chained) :
    (Level.chained c).read inner = chain (c.operand.read inner) c.op? := by
  cases c <;> rfl

theorem nested_succ (levels : Nat) (k : Nesting) :
    nested (levels + 1) k = enter ((levelOf k).read (nested levels)) := by
  cases k <;> rfl

theorem accepts_shift (hi : AcceptsInner n inner) : Accepts (.chained .shift) n (shift inner) := by
  have hp : Accepts (.chained .product) n (multiplicative inner) :=
    accepts_chain (c := .product) (accepts_exponentiation hi)
  have hs : Accepts (.chained .sum) n (additive inner) := accepts_chain (c := .sum) hp
  exact accepts_chain (c := .shift) hs

theorem accepts_levelOf (hi : AcceptsInner n inner) (k : Nesting) :
    Accepts (levelOf k) n ((levelOf k).read inner) := by
  cases k with
  | expression => exact accepts_conversion (accepts_shift hi)
  | exponent => exact accepts_exponentiation hi
  | negated => exact accepts_unary hi

/-- **Every answer at a nested place is the tree of a phrase**, by induction on the levels left. -/
theorem acceptsInner_nested (levels : Nat) : AcceptsInner levels (nested levels) := by
  induction levels with
  | zero =>
    intro k s s' e _ h
    cases k <;> cases h
  | succ levels ih =>
    intro k s s' e hs h
    rw [nested_succ] at h
    obtain ⟨t, ht, rfl⟩ := enter_eq_ok h
    obtain ⟨ts, m, hd, hm, hr⟩ := accepts_levelOf ih k _ _ _ (by exact hs) ht
    exact ⟨ts, m, hd, Nat.succ_le_succ hm, hr.of_enter⟩

end Grammar

end WeiCalc

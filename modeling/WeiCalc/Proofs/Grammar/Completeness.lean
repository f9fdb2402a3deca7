import Mathlib
import WeiCalc.Proofs.Grammar.Soundness

/-!
# The parser reads every phrase

In front of a phrase that stops, every operation of the parser reads the whole phrase and answers its
tree.  The levels that loop are followed through their loops: behind a shorter phrase the operation
goes on as `Level.resume` says, and only where the phrase stops does it answer.

* `Derives.opening`: the tokens a phrase may start with.
* `resumes_of_derives`: in front of a phrase, the operation of its level comes to its end and goes on.
* `answers_of_derives`: in front of a phrase that stops, the operation of its level answers the tree.
-/

namespace WeiCalc

namespace Grammar

open WeiCalc.Parser

/-! ### How phrases start -/

/-- The kinds of tokens that a phrase may start with. -/
def Level.opening : Level → List TokenKind
  | primary => [.number, .hexNumber, .binaryNumber, .text, .identifier, .leftParen, .unchecked]
  | opened => [.number, .hexNumber, .binaryNumber, .text, .identifier, .leftParen, .unchecked]
  | measured => [.number, .hexNumber, .binaryNumber, .text, .identifier, .leftParen, .unchecked]
  | _ => [.number, .hexNumber, .binaryNumber, .text, .identifier, .leftParen, .unchecked, .minus]

/-- The tokens start with one of the kinds. -/
def StartsWith (ks : List TokenKind) (ts : List Token) : Prop :=
  ∃ t us, ts = t :: us ∧ t.kind ∈ ks

theorem StartsWith.append {ks : List TokenKind} {ts : List Token} (h : StartsWith ks ts)
    (us : List Token) : StartsWith ks (ts ++ us) := by
  obtain ⟨t, vs, rfl, hk⟩ := h
  exact ⟨t, vs ++ us, rfl, hk⟩

theorem StartsWith.mono {ks ks' : List TokenKind} {ts : List Token} (hs : ks ⊆ ks')
    (h : StartsWith ks ts) : StartsWith ks' ts := by
  obtain ⟨t, us, he, hk⟩ := h
  exact ⟨t, us, he, hs hk⟩

theorem startsWith_of_kind {ks : List TokenKind} {t : Token} {k : TokenKind} (hk : t.kind = k)
    (hm : k ∈ ks) (ts : List Token) : StartsWith ks (t :: ts) :=
  ⟨t, ts, rfl, hk ▸ hm⟩

theorem Derives.opening {l : Level} {ts : List Token} {e : Expr} {n : Nat}
    (h : Derives l ts e n) : StartsWith l.opening ts := by
  induction h with
  | @number t _ hk _ =>
    have hs : [TokenKind.number, .hexNumber, .binaryNumber] ⊆ Level.primary.opening := by decide
    exact ⟨t, [], rfl, hs hk⟩
  | text hk => exact startsWith_of_kind hk (by decide) _
  | identifier hk => exact startsWith_of_kind hk (by decide) _
  | parens hl _ _ _ => exact startsWith_of_kind hl (by decide) _
  | unchecked hu _ _ _ _ => exact startsWith_of_kind hu (by decide) _
  | first hf _ _ _ => exact startsWith_of_kind hf (by decide) _
  | next _ _ _ ih _ => exact (ih.append _).append _
  | call _ _ ih => exact ih.append _
  | callBare hf _ _ => exact startsWith_of_kind hf (by decide) _
  | bare _ ih => exact ih
  | measured _ _ _ ih => exact ih.append _
  | term _ ih => exact ih.mono (by decide)
  | negate hm _ _ => exact startsWith_of_kind hm (by decide) _
  | base _ ih => exact ih
  | power _ _ _ ih _ => exact (ih.append _).append _
  | @operand c _ _ _ _ ih => cases c <;> exact ih
  | binary _ _ _ ih _ => exact (ih.append _).append _
  | amount _ ih => exact ih
  | converted _ _ _ ih => exact ih.append _

/-- The token in front of which a parser stands, when a phrase is ahead. -/
theorem StartsWith.next {ks : List TokenKind} {ts us : List Token} {s : Parser}
    (h : StartsWith ks ts) (hr : s.rest = ts ++ us) : s.next.kind ∈ ks := by
  obtain ⟨t, vs, rfl, hk⟩ := h
  rw [next_of_rest (by rw [hr, List.cons_append])]
  exact hk

/-! ### The loops of the levels -/

namespace Level

/-- The level of the last part of a phrase that can be made longer by a loop. -/
def inside : Level → Level
  | conversion => chained .shift
  | chained c => c.operand
  | opened => conversion
  | l => l

/-- What is left of the operation of a level behind a phrase with the given tree. -/
def resume (inner : Inner) (count : Nat) : Level → Expr → Parse Expr
  | conversion, e => conversionsFrom count e
  | chained c, e => chainFrom (c.operand.read inner) c.op? count e
  | opened, .call f es p => do
    let args ← argumentsFrom inner count es
    let _ ← expect .rightParen ("expected ',' or ')' in call to '" ++ f ++ "'")
    return .call f args p
  | _, e => return e

theorem StopsAt.inside {l : Level} {t : Token} (hl : l ≠ opened) (h : l.StopsAt t) :
    l.inside.StopsAt t := by
  cases l with
  | conversion => exact stopsAt_of_subset (by decide) (by decide) h
  | chained c => exact h.operand
  | opened => exact absurd rfl hl
  | _ => exact h

end Level

/-! ### Where loops stop -/

theorem chainFrom_stops {c : Chained} {operand : Parse Expr} {s : Parser}
    (h : (Level.chained c).StopsAt s.next) (count : Nat) (e : Expr) :
    chainFrom operand c.op? count e s = .ok e s := by
  cases count with
  | zero => rfl
  | succ count =>
    rw [chainFrom, bind_of_ok (current_run s), h.op?_eq_none]
    rfl

theorem conversionsFrom_stops {s : Parser} (h : s.next.kind ≠ .to) (count : Nat) (e : Expr) :
    conversionsFrom count e s = .ok e s := by
  cases count with
  | zero => rfl
  | succ count =>
    rw [conversionsFrom, bind_of_ok (sees_one .to s), if_neg (by simpa using h)]
    rfl

theorem argumentsFrom_stops {inner : Inner} {s : Parser} (h : s.next.kind ≠ .comma) (count : Nat)
    (es : List Expr) : argumentsFrom inner count es s = .ok es s := by
  cases count with
  | zero => rfl
  | succ count =>
    rw [argumentsFrom, bind_of_ok (sees_one .comma s), if_neg (by simpa using h)]
    rfl

/-- Where its level stops, an operation answers what it has read. -/
theorem resume_stops {inner : Inner} {l : Level} {s : Parser} (hl : l ≠ .opened)
    (h : l.StopsAt s.next) (count : Nat) (e : Expr) : l.resume inner count e s = .ok e s := by
  cases l with
  | conversion =>
    exact conversionsFrom_stops (fun hk => h.1 (by rw [hk]; decide)) count e
  | chained c => exact chainFrom_stops h count e
  | opened => exact absurd rfl hl
  | _ => rfl

/-! ### Phrases that are read -/

/-- In front of the phrase, and a token where its level stops, the level's operation answers. -/
def Answers (l : Level) (ts : List Token) (e : Expr) (n : Nat) : Prop :=
  ∀ (levels : Nat), n ≤ levels → ∀ (s : Parser) (u : Token) (us : List Token),
    s.rest = ts ++ u :: us → l.StopsAt u →
    l.read (nested levels) s = .ok e (s.behind ts)

/-- In front of the phrase, the level's operation reads it and goes on with its loop, which has
enough steps left for the tokens behind the phrase. -/
def Resumes (l : Level) (ts : List Token) (e : Expr) (n : Nat) : Prop :=
  ∀ (levels : Nat), n ≤ levels → ∀ (s : Parser) (u : Token) (us : List Token),
    s.rest = ts ++ u :: us → l.inside.StopsAt u →
    ∃ count, us.length < count ∧
      l.read (nested levels) s = l.resume (nested levels) count e (s.behind ts)

variable {l : Level} {ts us : List Token} {e e' : Expr} {m n : Nat}

theorem Resumes.answers (hl : l ≠ .opened) (h : Resumes l ts e n) : Answers l ts e n := by
  intro levels hn s u us hr hu
  obtain ⟨count, _, he⟩ := h levels hn s u us hr (hu.inside hl)
  rw [he]
  exact resume_stops hl (by rwa [next_of_rest (behind_rest_of_append hr)]) count e

/-- Where the level has no loop there is nothing to go on with. -/
theorem Answers.resumes (hl : l ∈ [Level.power, .unary, .measured, .primary])
    (h : Answers l ts e n) : Resumes l ts e n := by
  intro levels hn s u us hr hu
  refine ⟨us.length + 1, Nat.lt_succ_self _, ?_⟩
  simp only [List.mem_cons, List.not_mem_nil, or_false] at hl
  rcases hl with rfl | rfl | rfl | rfl <;> exact h levels hn s u us hr hu

/-- A phrase at a nested place is read one level further in. -/
theorem Answers.nested {k : Nesting} (h : Answers (levelOf k) ts e n) {levels : Nat}
    (hn : n + 1 ≤ levels) {s : Parser} {u : Token} (hr : s.rest = ts ++ u :: us)
    (hu : (levelOf k).StopsAt u) : nested levels k s = .ok e (s.behind ts) := by
  obtain ⟨levels, rfl⟩ : ∃ k, levels = k + 1 := ⟨levels - 1, by omega⟩
  rw [nested_succ]
  exact enter_run (h levels (Nat.le_of_succ_le_succ hn) _ u us hr hu)

/-! ### Primary terms -/

theorem answers_number {t : Token} {v : NumberLiteral}
    (hk : t.kind ∈ [.number, .hexNumber, .binaryNumber]) (hv : NumberLiteral.ofToken t = .ok v) :
    Answers .primary [t] (.number v t.position) 0 := by
  intro levels _ s u us hr _
  have hn : s.next = t := next_of_rest hr
  rw [Level.read, primary_of_number (by rwa [hn]), hn, hv]

theorem answers_text {t : Token} (hk : t.kind = .text) :
    Answers .primary [t] (.text t.text t.position) 0 := by
  intro levels _ s u us hr _
  have hn : s.next = t := next_of_rest hr
  rw [Level.read, primary_of_text (by rwa [hn]), hn]

theorem answers_identifier {t : Token} (hk : t.kind = .identifier) :
    Answers .primary [t] (.identifier t.text t.position) 0 := by
  intro levels _ s u us hr hu
  have hn : s.next = t := next_of_rest hr
  have hn' : (s.behind [s.next]).next = u := next_of_rest (behind_rest_of_append (by rw [hn]; exact hr))
  have hp : u.kind ≠ .leftParen := fun h => hu.1 (by rw [h]; decide)
  rw [Level.read, primary_of_identifier (by rwa [hn]), if_neg (by rwa [hn']), hn]

theorem conversion_stopsAt_rightParen {r : Token} (hr : r.kind = .rightParen) :
    Level.conversion.StopsAt r :=
  Level.stopsAt_of_kind (by rw [hr]; decide) (by rw [hr]; decide)

theorem conversion_stopsAt_comma {c : Token} (hc : c.kind = .comma) : Level.conversion.StopsAt c :=
  Level.stopsAt_of_kind (by rw [hc]; decide) (by rw [hc]; decide)

theorem conversion_stopsAt_stop {t : Token} (ht : t.kind = .stop) : Level.conversion.StopsAt t :=
  Level.stopsAt_of_kind (by rw [ht]; decide) (by rw [ht]; decide)

theorem shift_stopsAt_to {t : Token} (ht : t.kind = .to) : (Level.chained .shift).StopsAt t :=
  Level.stopsAt_of_kind (by rw [ht]; decide) (by rw [ht]; decide)

theorem unary_stopsAt_starStar {t : Token} (ht : t.kind = .starStar) : Level.unary.StopsAt t :=
  Level.stopsAt_of_kind (by rw [ht]; decide) (by rw [ht]; decide)

theorem answers_parens {l r : Token} (hl : l.kind = .leftParen) (h : Answers .conversion ts e n)
    (hr : r.kind = .rightParen) : Answers .primary ([l] ++ ts ++ [r]) e (n + 1) := by
  intro levels hn s u us hs _
  simp only [List.append_assoc, List.cons_append, List.nil_append] at hs
  have hx : s.next = l := next_of_rest hs
  have h₁ : (s.behind [l]).rest = ts ++ r :: u :: us := behind_rest_of_append hs
  have h₂ : ((s.behind [l]).behind ts).rest = r :: u :: us := behind_rest_of_append h₁
  rw [Level.read, primary_of_leftParen (by rwa [hx]), hx,
    bind_of_ok (h.nested (k := .expression) hn h₁ (conversion_stopsAt_rightParen hr)),
    bind_of_ok (expect_of_kind _ h₂ hr), behind_behind, behind_behind]
  rfl

theorem answers_unchecked {t l r : Token} (ht : t.kind = .unchecked) (hl : l.kind = .leftParen)
    (h : Answers .conversion ts e n) (hr : r.kind = .rightParen) :
    Answers .primary ([t, l] ++ ts ++ [r]) (.unchecked e t.position) (n + 1) := by
  intro levels hn s u us hs _
  simp only [List.append_assoc, List.cons_append, List.nil_append] at hs
  have hx : s.next = t := next_of_rest hs
  have h₁ : (s.behind [t]).rest = l :: (ts ++ r :: u :: us) := behind_rest_of_append hs
  have h₂ : ((s.behind [t]).behind [l]).rest = ts ++ r :: u :: us := behind_rest_of_append h₁
  have h₃ : (((s.behind [t]).behind [l]).behind ts).rest = r :: u :: us := behind_rest_of_append h₂
  rw [Level.read, primary_of_unchecked (by rwa [hx]), hx, bind_of_ok (expect_of_kind _ h₁ hl),
    bind_of_ok (h.nested (k := .expression) hn h₂ (conversion_stopsAt_rightParen hr)),
    bind_of_ok (expect_of_kind _ h₃ hr), behind_behind, behind_behind, behind_behind]
  rfl

/-! ### Calls -/

theorem answers_callBare {f l r : Token} (hf : f.kind = .identifier) (hl : l.kind = .leftParen)
    (hr : r.kind = .rightParen) :
    Answers .primary [f, l, r] (.call f.text [] f.position) 0 := by
  intro levels _ s u us hs _
  have hx : s.next = f := next_of_rest hs
  have h₁ : (s.behind [f]).rest = l :: r :: u :: us := behind_rest_of_append hs
  have hy : (s.behind [f]).next = l := next_of_rest h₁
  have h₂ : (s.behind [f, l]).rest = r :: u :: us := behind_rest_of_append hs
  have ha : arguments (nested levels) (s.behind [f, l]) = .ok [] (s.behind [f, l]) := by
    rw [arguments, bind_of_ok (sees_one .rightParen _),
      if_pos (by rw [next_of_rest h₂]; exact decide_eq_true hr)]
    rfl
  rw [Level.read, primary_of_identifier (by rwa [hx]), hx, hy, if_pos hl, bind_of_ok ha,
    bind_of_ok (expect_of_kind _ h₂ hr), behind_behind]
  rfl

/-- Behind the first argument, the parser goes on with the other ones. -/
theorem resumes_first {f l : Token} (hf : f.kind = .identifier) (hl : l.kind = .leftParen)
    (hd : Derives .conversion ts e n) (h : Resumes .conversion ts e n) :
    Resumes .opened ([f, l] ++ ts) (.call f.text [e] f.position) (n + 1) := by
  intro levels hn s u us hs hu
  simp only [List.cons_append, List.nil_append] at hs
  have hx : s.next = f := next_of_rest hs
  have h₁ : (s.behind [f]).rest = l :: (ts ++ u :: us) := behind_rest_of_append hs
  have hy : (s.behind [f]).next = l := next_of_rest h₁
  have h₂ : (s.behind [f, l]).rest = ts ++ u :: us := behind_rest_of_append hs
  have h₃ : ((s.behind [f, l]).behind ts).rest = u :: us := behind_rest_of_append h₂
  have hr : (s.behind [f, l]).next.kind ≠ .rightParen := by
    intro hk
    have ho := hd.opening.next h₂
    rw [hk] at ho
    exact absurd ho (by decide)
  have ha : arguments (nested levels) (s.behind [f, l]) =
      argumentsFrom (nested levels) (us.length + 1) [e] ((s.behind [f, l]).behind ts) := by
    rw [arguments, bind_of_ok (sees_one .rightParen _), if_neg (by simpa using hr),
      bind_of_ok ((h.answers (by decide)).nested (k := .expression) hn h₂ hu)]
    change argumentsFrom _ ((s.behind [f, l]).behind ts).rest.length _ _ = _
    rw [h₃, List.length_cons]
  refine ⟨us.length + 1, Nat.lt_succ_self _, ?_⟩
  rw [Level.read, primary_of_identifier (by rwa [hx]), hx, hy, if_pos hl, Level.resume, bind_run,
    bind_run, ha, behind_behind]

/-- Behind a comma and an argument, the parser goes on with one argument more. -/
theorem resumes_next {c : Token} {f : String} {es : List Expr} {p : Nat}
    (h : Resumes .opened ts (.call f es p) m) (hc : c.kind = .comma)
    (h' : Answers .conversion us e n) :
    Resumes .opened (ts ++ [c] ++ us) (.call f (es ++ [e]) p) (max m (n + 1)) := by
  intro levels hn s u vs hs hu
  simp only [List.append_assoc, List.cons_append, List.nil_append] at hs
  obtain ⟨count, hlt, he⟩ :=
    h levels (le_trans (le_max_left _ _) hn) s c _ hs (conversion_stopsAt_comma hc)
  obtain ⟨count, rfl⟩ : ∃ k, count = k + 1 := ⟨count - 1, by omega⟩
  have h₁ : (s.behind ts).rest = c :: (us ++ u :: vs) := behind_rest_of_append hs
  have h₂ : ((s.behind ts).behind [c]).rest = us ++ u :: vs := behind_rest_of_append h₁
  have hx : (s.behind ts).next = c := next_of_rest h₁
  refine ⟨count, ?_, ?_⟩
  · rw [List.length_append, List.length_cons] at hlt
    omega
  · have ha : argumentsFrom (nested levels) (count + 1) es (s.behind ts) =
        argumentsFrom (nested levels) count (es ++ [e]) (s.behind (ts ++ [c] ++ us)) := by
      rw [argumentsFrom, bind_of_ok (sees_one .comma _),
        if_pos (by rw [hx]; exact decide_eq_true hc), bind_of_ok (advance_run _), hx,
        bind_of_ok (h'.nested (k := .expression) (le_trans (le_max_right _ _) hn) h₂ hu),
        behind_behind, behind_behind, List.append_assoc]
    rw [he, Level.resume, Level.resume, bind_run, bind_run, ha]

/-- Behind the last argument, the closing parenthesis ends the call. -/
theorem answers_call {r : Token} (hd : Derives .opened ts e n) (h : Resumes .opened ts e n)
    (hr : r.kind = .rightParen) : Answers .primary (ts ++ [r]) e n := by
  intro levels hn s u us hs _
  rw [List.append_assoc, List.cons_append, List.nil_append] at hs
  obtain ⟨count, _, he⟩ := h levels hn s r _ hs (conversion_stopsAt_rightParen hr)
  have h₁ : (s.behind ts).rest = r :: u :: us := behind_rest_of_append hs
  have hx : (s.behind ts).next = r := next_of_rest h₁
  obtain ⟨f, es, p, rfl⟩ : ∃ f es p, e = .call f es p := by
    cases hd <;> exact ⟨_, _, _, rfl⟩
  change Level.opened.read _ s = _
  rw [he, Level.resume,
    bind_of_ok (argumentsFrom_stops (by rw [hx, hr]; decide) count es),
    bind_of_ok (expect_of_kind _ h₁ hr), behind_behind]
  rfl

/-! ### Units, minus and powers -/

theorem answers_bare (h : Answers .primary ts e n) : Answers .measured ts e n := by
  intro levels hn s u us hs hu
  have hx : (s.behind ts).next = u := next_of_rest (behind_rest_of_append hs)
  have hu' : ¬(u.kind = .identifier ∧ MeasureUnit.isName u.text = true) := hu.2.resolve_left (by decide)
  have h₀ : primary (nested levels) s = .ok e (s.behind ts) :=
    h levels hn s u us hs ⟨hu.1, Or.inl rfl⟩
  rw [Level.read, measured, bind_of_ok h₀, bind_of_ok (current_run _), hx, if_neg hu']
  rfl

theorem answers_measured {t : Token} (h : Answers .primary ts e n) (ht : t.kind = .identifier)
    (hn : MeasureUnit.isName t.text = true) :
    Answers .measured (ts ++ [t]) (.measured e t.text e.position) n := by
  intro levels hl s u us hs _
  rw [List.append_assoc, List.cons_append, List.nil_append] at hs
  have hx : (s.behind ts).next = t := next_of_rest (behind_rest_of_append hs)
  have ht' : Level.primary.StopsAt t := ⟨by rw [ht]; decide, Or.inl rfl⟩
  have h₀ : primary (nested levels) s = .ok e (s.behind ts) := h levels hl s t _ hs ht'
  rw [Level.read, measured, bind_of_ok h₀, bind_of_ok (current_run _), hx, if_pos ⟨ht, hn⟩,
    bind_of_ok (advance_run _), hx, behind_behind]
  rfl

theorem answers_term (hd : Derives .measured ts e n) (h : Answers .measured ts e n) :
    Answers .unary ts e n := by
  intro levels hn s u us hs hu
  have hm : s.next.kind ≠ .minus := by
    intro hk
    have ho := hd.opening.next hs
    rw [hk] at ho
    exact absurd ho (by decide)
  rw [Level.read, unary, bind_of_ok (current_run _), if_neg hm]
  exact h levels hn s u us hs (Level.stopsAt_of_subset (by decide) (by decide) hu)

theorem answers_negate {t : Token} (ht : t.kind = .minus) (h : Answers .unary ts e n) :
    Answers .unary ([t] ++ ts) (.negate e t.position) (n + 1) := by
  intro levels hn s u us hs hu
  rw [List.append_assoc, List.cons_append, List.nil_append] at hs
  have hx : s.next = t := next_of_rest hs
  have h₁ : (s.behind [t]).rest = ts ++ u :: us := behind_rest_of_append hs
  rw [Level.read, unary, bind_of_ok (current_run _), hx, if_pos ht, bind_of_ok (advance_run _), hx,
    bind_of_ok (h.nested (k := .negated) hn h₁ hu), behind_behind]
  rfl

theorem answers_base (h : Answers .unary ts e n) : Answers .power ts e n := by
  intro levels hn s u us hs hu
  have hx : (s.behind ts).next = u := next_of_rest (behind_rest_of_append hs)
  have hk : u.kind ≠ .starStar := fun hk => hu.1 (by rw [hk]; decide)
  have h₀ : Parser.unary (nested levels) s = .ok e (s.behind ts) :=
    h levels hn s u us hs (Level.stopsAt_of_subset (by decide) (by decide) hu)
  rw [Level.read, exponentiation, bind_of_ok h₀,
    bind_of_ok (sees_one .starStar _), hx, if_neg (by simpa using hk)]
  rfl

theorem answers_power {t : Token} (h : Answers .unary ts e m) (ht : t.kind = .starStar)
    (h' : Answers .power us e' n) :
    Answers .power (ts ++ [t] ++ us) (.binary e .pow e' e.position) (max m (n + 1)) := by
  intro levels hn s u vs hs hu
  simp only [List.append_assoc, List.cons_append, List.nil_append] at hs
  have h₁ : (s.behind ts).rest = t :: (us ++ u :: vs) := behind_rest_of_append hs
  have h₂ : ((s.behind ts).behind [t]).rest = us ++ u :: vs := behind_rest_of_append h₁
  have hx : (s.behind ts).next = t := next_of_rest h₁
  have h₀ : Parser.unary (nested levels) s = .ok e (s.behind ts) :=
    h levels (le_trans (le_max_left _ _) hn) s t _ hs (unary_stopsAt_starStar ht)
  rw [Level.read, exponentiation, bind_of_ok h₀,
    bind_of_ok (sees_one .starStar _), hx, if_pos (decide_eq_true ht), bind_of_ok (advance_run _),
    hx, bind_of_ok (h'.nested (k := .exponent) (le_trans (le_max_right _ _) hn) h₂ hu),
    behind_behind, behind_behind, ← List.append_assoc]
  rfl

/-! ### Chains and conversions -/

/-- The first operand starts the chain. -/
theorem resumes_operand {c : Chained} (h : Answers c.operand ts e n) :
    Resumes (.chained c) ts e n := by
  intro levels hn s u us hs hu
  have h₁ : (s.behind ts).rest = u :: us := behind_rest_of_append hs
  refine ⟨us.length + 1, Nat.lt_succ_self _, ?_⟩
  rw [read_chained, chain, bind_of_ok (h levels hn s u us hs hu)]
  change chainFrom _ _ (s.behind ts).rest.length _ _ = _
  rw [h₁, List.length_cons]
  rfl

/-- Behind an operator and an operand, the parser goes on with the longer chain. -/
theorem resumes_binary {c : Chained} {t : Token} {op : BinaryOp} (h : Resumes (.chained c) ts e m)
    (ht : c.op? t.kind = some op) (h' : Answers c.operand us e' n) :
    Resumes (.chained c) (ts ++ [t] ++ us) (.binary e op e' e.position) (max m n) := by
  intro levels hn s u vs hs hu
  simp only [List.append_assoc, List.cons_append, List.nil_append] at hs
  obtain ⟨count, hlt, he⟩ :=
    h levels (le_trans (le_max_left _ _) hn) s t _ hs (Level.operand_stopsAt ht)
  obtain ⟨count, rfl⟩ : ∃ k, count = k + 1 := ⟨count - 1, by omega⟩
  have h₁ : (s.behind ts).rest = t :: (us ++ u :: vs) := behind_rest_of_append hs
  have h₂ : ((s.behind ts).behind [t]).rest = us ++ u :: vs := behind_rest_of_append h₁
  have hx : (s.behind ts).next = t := next_of_rest h₁
  refine ⟨count, ?_, ?_⟩
  · rw [List.length_append, List.length_cons] at hlt
    omega
  · rw [he, Level.resume, chainFrom, bind_of_ok (current_run _), hx, ht]
    simp only [bind_of_ok (advance_run _), hx]
    rw [bind_of_ok (h' levels (le_trans (le_max_right _ _) hn) _ u vs h₂ hu), behind_behind,
      behind_behind, ← List.append_assoc]
    rfl

theorem resumes_amount (h : Answers (.chained .shift) ts e n) : Resumes .conversion ts e n := by
  intro levels hn s u us hs hu
  have h₁ : (s.behind ts).rest = u :: us := behind_rest_of_append hs
  refine ⟨us.length + 1, Nat.lt_succ_self _, ?_⟩
  have h₂ : Parser.shift (nested levels) s = .ok e (s.behind ts) := h levels hn s u us hs hu
  rw [Level.read, conversion, bind_of_ok h₂]
  change conversionsFrom (s.behind ts).rest.length _ _ = _
  rw [h₁, List.length_cons]
  rfl

/-- Behind `to` and a unit, the parser goes on with the conversion. -/
theorem resumes_converted {t t' : Token} (h : Resumes .conversion ts e n) (ht : t.kind = .to)
    (ht' : t'.kind = .identifier) :
    Resumes .conversion (ts ++ [t, t']) (.converted e t'.text e.position) n := by
  intro levels hn s u us hs _
  simp only [List.append_assoc, List.cons_append, List.nil_append] at hs
  obtain ⟨count, hlt, he⟩ := h levels hn s t _ hs (shift_stopsAt_to ht)
  obtain ⟨count, rfl⟩ : ∃ k, count = k + 1 := ⟨count - 1, by omega⟩
  have h₁ : (s.behind ts).rest = t :: t' :: u :: us := behind_rest_of_append hs
  have h₂ : ((s.behind ts).behind [t]).rest = t' :: u :: us := behind_rest_of_append h₁
  have hx : (s.behind ts).next = t := next_of_rest h₁
  refine ⟨count, ?_, ?_⟩
  · simp only [List.length_cons] at hlt
    omega
  · rw [he, Level.resume, conversionsFrom, bind_of_ok (sees_one .to _), hx,
      if_pos (decide_eq_true ht), bind_of_ok (advance_run _), hx,
      bind_of_ok (expect_of_kind _ h₂ ht'), behind_behind, behind_behind]
    rfl

/-! ### All levels -/

/-- **In front of a phrase, the operation of its level reads it and goes on**, by induction on the
phrase. -/
theorem resumes_of_derives (h : Derives l ts e n) : Resumes l ts e n := by
  induction h with
  | number hk hv => exact (answers_number hk hv).resumes (by decide)
  | text hk => exact (answers_text hk).resumes (by decide)
  | identifier hk => exact (answers_identifier hk).resumes (by decide)
  | parens hl _ hr ih => exact (answers_parens hl (ih.answers (by decide)) hr).resumes (by decide)
  | unchecked ht hl _ hr ih =>
    exact (answers_unchecked ht hl (ih.answers (by decide)) hr).resumes (by decide)
  | first hf hl hd ih => exact resumes_first hf hl hd ih
  | next _ hc _ ih ih' => exact resumes_next ih hc (ih'.answers (by decide))
  | call hd hr ih => exact (answers_call hd ih hr).resumes (by decide)
  | callBare hf hl hr => exact (answers_callBare hf hl hr).resumes (by decide)
  | bare _ ih => exact (answers_bare (ih.answers (by decide))).resumes (by decide)
  | measured _ hu hn ih => exact (answers_measured (ih.answers (by decide)) hu hn).resumes (by decide)
  | term hd ih => exact (answers_term hd (ih.answers (by decide))).resumes (by decide)
  | negate hm _ ih => exact (answers_negate hm (ih.answers (by decide))).resumes (by decide)
  | base _ ih => exact (answers_base (ih.answers (by decide))).resumes (by decide)
  | power _ ht _ ih ih' =>
    exact (answers_power (ih.answers (by decide)) ht (ih'.answers (by decide))).resumes (by decide)
  | @operand c _ _ _ _ ih => exact resumes_operand (ih.answers (by cases c <;> decide))
  | @binary c _ _ _ _ _ _ _ _ _ ht _ ih ih' =>
    exact resumes_binary ih ht (ih'.answers (by cases c <;> decide))
  | amount _ ih => exact resumes_amount (ih.answers (by decide))
  | converted _ ht hu ih => exact resumes_converted ih ht hu

theorem answers_of_derives (hl : l ≠ .opened) (h : Derives l ts e n) : Answers l ts e n :=
  (resumes_of_derives h).answers hl

end Grammar

end WeiCalc

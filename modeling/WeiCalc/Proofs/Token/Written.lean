import Mathlib
import WeiCalc.Proofs.Token.Numeral

/-!
# Writing tokens back

A token is written as its text, and a quoted text between double quotes with its escapes.  The texts of
tokens are normalised: a number has lost its underscores and a quoted text its escapes.  So a token is
written back differently from how it stood in the line, and may even take another branch of the lexer.

* `Lexeme.quote_escaped`, `Lexeme.number_text`, `Lexeme.word_text`, `Lexeme.operator?_text`: a lexeme
  written back in front of white space is read again as it was.
* `Lexer.Takes.legible`: so every token that is read is legible.
* `Lexer.readTokens_spaced`: legible tokens with white space between them are read one by one.
* `Token.ofLine_spaced`: **the tokens of a line, written with white space between them, are the tokens
  of the line that this makes.**
-/

namespace WeiCalc

namespace Lexeme

/-! ### Quoted texts -/

/-- A character as it stands between double quotes. -/
def escaped : Char → List Char
  | '\\' => ['\\', '\\']
  | '"' => ['\\', '"']
  | '\n' => ['\\', 'n']
  | '\t' => ['\\', 't']
  | c => [c]

/-- A text between double quotes. -/
def quoted (cs : List Char) : List Char :=
  '"' :: (cs.flatMap escaped ++ ['"'])

@[simp] theorem quote_mark (mark : Char) (cs : List Char) :
    quote mark (mark :: cs) = ⟨⟨[], 1⟩, .closed⟩ := by
  rw [quote.eq_def]
  exact if_pos rfl

theorem quote_escaped_cons (c : Char) (cs : List Char) :
    quote '"' (escaped c ++ cs) = (quote '"' cs).cons c (escaped c).length := by
  rw [escaped.eq_def]
  split
  · rfl
  · rfl
  · rfl
  · rfl
  · rename_i hslash hmark _ _
    show quote '"' (c :: cs) = _
    rw [quote.eq_def]
    dsimp only
    rw [if_neg hmark, if_neg hslash]
    rfl

theorem quote_escaped (cs r : List Char) :
    quote '"' (cs.flatMap escaped ++ '"' :: r) =
      ⟨⟨cs, (cs.flatMap escaped).length + 1⟩, .closed⟩ := by
  induction cs with
  | nil => exact quote_mark '"' r
  | cons c cs ih =>
    rw [List.flatMap_cons, List.append_assoc, quote_escaped_cons, ih]
    simp only [Quote.cons, append, List.length_append, List.singleton_append, Nat.add_assoc]

/-! ### Numbers -/

variable {r : List Char}

/-- Digits end where something else starts. -/
theorem digits_chars (ds : Digits) (hr : ∀ c ∈ r.head?, (c.isDigit || c == '_') = false) :
    digits (ds.chars ++ r) = ⟨ds.chars, ds.chars.length⟩ := by
  have hrest : r.takeWhile (fun c => c.isDigit || c == '_') = [] := by
    cases r with
    | nil => rfl
    | cons c r => exact List.takeWhile_cons_of_neg (by rw [hr c rfl]; decide)
  have hrun : (ds.chars ++ r).takeWhile (fun c => c.isDigit || c == '_') = ds.chars := by
    rw [List.takeWhile_append_of_pos fun c hc => by rw [ds.isDigit c hc, Bool.true_or], hrest,
      List.append_nil]
  have hall : ds.chars.filter (fun c => c != '_') = ds.chars := by
    rw [List.filter_eq_self]
    intro c hc
    rw [bne_iff_ne]
    rintro rfl
    exact absurd (ds.isDigit _ hc) (by decide)
  rw [digits, grouped]
  simp only [hrun, hall]

theorem sign_chars {sgn : List Char} (hs : sgn = [] ∨ sgn = ['+'] ∨ sgn = ['-']) (ds : Digits) :
    sign (sgn ++ ds.chars) = sgn := by
  rcases hs with rfl | rfl | rfl
  · rw [List.nil_append, sign.eq_def]
    split
    · rename_i h
      exact absurd (ds.isDigit '+' (by rw [h]; exact List.mem_cons_self ..)) (by decide)
    · rename_i h
      exact absurd (ds.isDigit '-' (by rw [h]; exact List.mem_cons_self ..)) (by decide)
    · rfl
  · rfl
  · rfl

@[simp] theorem exponent_text (p : TenPower) : exponent p.text = ⟨p.text, p.text.length⟩ := by
  have hmark : (p.mark == 'e' || p.mark == 'E') = true := by
    rcases p.isMark with h | h <;> rw [h] <;> rfl
  have hrun : p.digits.chars.takeWhile Char.isDigit = p.digits.chars :=
    List.takeWhile_eq_self_iff.mpr p.digits.isDigit
  have hne : p.digits.chars.isEmpty = false := by simpa using p.digits.ne_nil
  rw [TenPower.text, exponent, if_pos hmark]
  simp only [sign_chars p.isSign, List.drop_left, hrun, hne, List.length_cons, List.length_append]
  rw [if_neg (by decide)]
  congr 1
  omega

theorem head?_power {p : Option TenPower} {c : Char} (h : c ∈ (p.elim [] TenPower.text).head?) :
    c = 'e' ∨ c = 'E' := by
  cases p with
  | none => cases h
  | some p =>
    obtain rfl : p.mark = c := Option.some.inj h
    exact p.isMark

theorem not_isMember_of_power {c : Char} (h : c = 'e' ∨ c = 'E') :
    (c.isDigit || c == '_') = false := by
  rcases h with rfl | rfl <;> decide

/-- The text of a numeral is one number, and nothing is left out of it. -/
@[simp] theorem decimal_text (m : Numeral) : decimal m.text = ⟨m.text, m.text.length⟩ := by
  obtain ⟨whole, f, p⟩ := m
  have hpower : exponent (p.elim [] TenPower.text) =
      ⟨p.elim [] TenPower.text, (p.elim [] TenPower.text).length⟩ := by
    cases p with
    | none => rfl
    | some p => exact exponent_text p
  have hbehind : ∀ c ∈ (p.elim [] TenPower.text).head?, (c.isDigit || c == '_') = false :=
    fun c hc => not_isMember_of_power (head?_power hc)
  cases f with
  | none =>
    have hnone : fraction (p.elim [] TenPower.text) = none := by
      refine fraction_eq_none fun c ds h => ?_
      rcases head?_power (c := '.') (by rw [h]; rfl) with h | h <;> exact absurd h (by decide)
    simp only [decimal, Numeral.text, Numeral.mantissa, Option.elim_none, List.append_nil,
      digits_chars whole hbehind, List.drop_left, hnone, none, Nat.add_zero, hpower, append,
      List.length_append]
  | some ds =>
    obtain ⟨c, cs, hcs⟩ := List.exists_cons_of_ne_nil ds.ne_nil
    have hc : c.isDigit = true := ds.isDigit c (by rw [hcs]; exact List.mem_cons_self ..)
    have hfraction : fraction ('.' :: (ds.chars ++ p.elim [] TenPower.text)) =
        ⟨'.' :: ds.chars, 1 + ds.chars.length⟩ := by
      have hd := digits_chars ds hbehind
      rw [hcs, List.cons_append] at hd ⊢
      rw [fraction, if_pos hc, hd]
      rfl
    have hwhole := digits_chars whole
      (r := '.' :: (ds.chars ++ p.elim [] TenPower.text)) (by rintro c hc; cases hc; rfl)
    have hrest : (whole.chars ++ '.' :: (ds.chars ++ p.elim [] TenPower.text)).drop
        (whole.chars.length + (1 + ds.chars.length)) = p.elim [] TenPower.text := by
      rw [← List.drop_drop, List.drop_left, Nat.add_comm, List.drop_succ_cons, List.drop_left]
    simp only [decimal, Numeral.text, Numeral.mantissa, Option.elim_some, List.append_assoc,
      List.cons_append, hwhole, List.drop_left, hfraction, hrest, hpower, append,
      List.length_append, List.length_cons]
    congr 1
    omega

theorem not_isBaseMark_of_isDigit {c : Char} (h : c.isDigit = true) : isBaseMark c = false := by
  rw [isBaseMark]
  simp only [Bool.or_eq_false_iff, beq_eq_false_iff_ne]
  refine ⟨⟨⟨?_, ?_⟩, ?_⟩, ?_⟩ <;> rintro rfl <;> exact absurd h (by decide)

theorem not_isBaseMark_of_mem {m : Numeral} {c : Char} (h : c ∈ m.text) :
    isBaseMark c = false := by
  obtain ⟨whole, f, p⟩ := m
  simp only [Numeral.text, Numeral.mantissa, List.mem_append, or_assoc] at h
  rcases h with h | h | h
  · exact not_isBaseMark_of_isDigit (whole.isDigit c h)
  · cases f with
    | none => cases h
    | some ds =>
      rcases List.mem_cons.mp h with rfl | h
      · rfl
      · exact not_isBaseMark_of_isDigit (ds.isDigit c h)
  · cases p with
    | none => cases h
    | some p =>
      rcases List.mem_cons.mp h with rfl | h
      · rcases p.isMark with he | he <;> rw [he] <;> rfl
      rcases List.mem_append.mp h with h | h
      · rcases p.isSign with he | he | he <;> rw [he] at h
        · cases h
        · rw [List.mem_singleton.mp h]; rfl
        · rw [List.mem_singleton.mp h]; rfl
      · exact not_isBaseMark_of_isDigit (p.digits.isDigit c h)

@[simp] theorem number_numeral (m : Numeral) :
    number m.text = (.number, ⟨m.text, m.text.length⟩) := by
  rw [number_of_not_isBaseMark, decimal_text]
  intro c ds h
  refine not_isBaseMark_of_mem (m := m) ?_
  rw [h]
  exact List.mem_cons_of_mem _ (List.mem_cons_self ..)

theorem not_isWord_of_isSpace {c : Char} (h : isSpace c = true) :
    (isWord c || c == '_') = false := by
  rcases isSpace_cases h with rfl | rfl | rfl | rfl <;> decide

/-- A number of another base has lost its underscores, which are the only characters it loses. -/
theorem based_text (hr : Apart r) (mark : Char) (cs : List Char) :
    based mark ((grouped isWord cs).text ++ r) =
      ⟨(based mark cs).text, (based mark cs).text.length⟩ := by
  have hrun : ((grouped isWord cs).text ++ r).takeWhile (fun c => isWord c || c == '_') =
      (grouped isWord cs).text := by
    rw [takeWhile_append (fun _ => not_isWord_of_isSpace) hr, List.takeWhile_eq_self_iff]
    intro c hc
    have hm : c ∈ cs.takeWhile fun c => isWord c || c == '_' := (List.mem_filter.mp hc).1
    exact List.mem_takeWhile_imp (p := fun c => isWord c || c == '_') hm
  have hall : (grouped isWord cs).text.filter (fun c => c != '_') = (grouped isWord cs).text := by
    rw [grouped, List.filter_filter]
    simp only [Bool.and_self]
  rw [based, based, grouped]
  simp only [hrun, hall, append, List.length_append]
  rfl

/-- **A number written back in front of white space is read again as it was.** -/
theorem number_text (hr : Apart r) {c : Char} {cs : List Char} {k : TokenKind} {l : Lexeme}
    (hc : c.isDigit = true) (h : number (c :: cs) = (k, l)) :
    ∃ d ds, l.text = d :: ds ∧ d.isDigit = true ∧
      number (l.text ++ r) = (k, ⟨l.text, l.text.length⟩) := by
  rcases number_cases (c :: cs) with ⟨m, ds, he, hm⟩ | hdec
  · obtain ⟨k', hk⟩ := number_of_isBaseMark hm
    rw [he, hk] at h
    obtain ⟨rfl, rfl⟩ := Prod.mk.inj h
    refine ⟨'0', m :: (grouped isWord ds).text, rfl, rfl, ?_⟩
    show number ('0' :: m :: ((grouped isWord ds).text ++ r)) = _
    rw [hk, based_text hr]
  · obtain rfl : k = .number := by rw [hdec] at h; exact (Prod.mk.inj h).1.symm
    obtain ⟨m, hm⟩ := exists_numeral hc h
    obtain ⟨d, ds, hd⟩ := List.exists_cons_of_ne_nil m.whole.ne_nil
    have hnum := number_numeral m
    obtain ⟨es, he⟩ : ∃ es, m.text = d :: es := by
      rw [Numeral.text, Numeral.mantissa, hd]
      exact ⟨_, rfl⟩
    rw [← hm]
    refine ⟨d, es, he, m.whole.isDigit d (by rw [hd]; exact List.mem_cons_self ..), ?_⟩
    rw [he] at hnum ⊢
    exact number_append hr hnum

/-! ### Words and operators -/

theorem word_text (hr : Apart r) (cs : List Char) :
    word ((word cs).text ++ r) = ⟨(word cs).text, (word cs).text.length⟩ := by
  have hspace : ∀ c, isSpace c = true → isWord c = false := by
    intro c hc
    have h := not_isWord_of_isSpace hc
    rw [Bool.or_eq_false_iff] at h
    exact h.1
  have hrun : ((word cs).text ++ r).takeWhile isWord = (word cs).text := by
    rw [takeWhile_append hspace hr, List.takeWhile_eq_self_iff]
    exact fun c hc => List.mem_takeWhile_imp hc
  rw [word]
  simp only [hrun]

theorem word_cons {c : Char} (hc : isWordStart c = true) (cs : List Char) :
    ∃ ds, (word (c :: cs)).text = c :: ds := by
  have hw : isWord c = true := by
    simp only [isWordStart, Bool.or_eq_true] at hc
    simp only [isWord, Char.isAlphanum, Bool.or_eq_true]
    tauto
  refine ⟨cs.takeWhile isWord, ?_⟩
  rw [word]
  exact List.takeWhile_cons_of_pos hw

theorem Apart.cases (hr : Apart r) :
    r = [] ∨ ∃ ds, r = ' ' :: ds ∨ r = '\t' :: ds ∨ r = '\r' :: ds ∨ r = '\n' :: ds := by
  cases r with
  | nil => exact Or.inl rfl
  | cons c ds =>
    refine Or.inr ⟨ds, ?_⟩
    rcases isSpace_cases (hr c rfl) with rfl | rfl | rfl | rfl <;> simp

/-- White space does not make a longer operator of a shorter one. -/
theorem operator?_text (hr : Apart r) {cs : List Char} {k : TokenKind} {l : Lexeme}
    (h : operator? cs = some (k, l)) :
    l.text ≠ [] ∧ operator? (l.text ++ r) = some (k, ⟨l.text, l.text.length⟩) := by
  rw [operator?.eq_def] at h
  rcases hr.cases with rfl | ⟨ds, rfl | rfl | rfl | rfl⟩ <;> split at h <;> cases h <;>
    exact ⟨List.cons_ne_nil _ _, rfl⟩

end Lexeme

/-! ### Tokens -/

namespace Token

/-- A token as it is written back. -/
def written (t : Token) : List Char :=
  match t.kind with
  | .text => Lexeme.quoted t.text.toList
  | _ => t.text.toList

/-- What a token is apart from its position. -/
def content (t : Token) : TokenKind × String :=
  (t.kind, t.text)

/-- A token that is read again, up to its position, where it is written between white space. -/
def Legible (t : Token) : Prop :=
  ∀ s : Lexer, ∀ r, s.rest = t.written ++ r → Lexeme.Apart r →
    Lexer.next? s = .ok (some { t with position := s.position }) (s.behind t.written.length)

theorem written_of_ne_text {t : Token} (h : t.kind ≠ .text) : t.written = t.text.toList := by
  rw [written.eq_def]
  split
  · rename_i hk
    exact absurd hk h
  · rfl

theorem Legible.written_ne_nil {t : Token} (h : t.Legible) : t.written ≠ [] := by
  intro hw
  have hn := h ⟨[], 0, #[]⟩ [] (by rw [hw]; rfl) (fun c hc => by cases hc)
  rw [Lexer.next?_nil rfl] at hn
  cases hn

theorem legible_quoted (cs : List Char) (p : Nat) : Legible ⟨.text, String.ofList cs, p⟩ := by
  intro s r hs _
  have hw : written ⟨.text, String.ofList cs, p⟩ = Lexeme.quoted cs := by
    rw [written, String.toList_ofList]
  have hrest : s.rest = '"' :: (cs.flatMap Lexeme.escaped ++ '"' :: r) := by
    rw [hs, hw, Lexeme.quoted, List.cons_append, List.append_assoc]
    rfl
  rw [Lexer.next?_of_quote hrest rfl (Lexeme.quote_escaped cs r), hw]
  simp only [Lexer.behind, List.drop_drop, Lexeme.quoted, List.length_cons, List.length_append,
    List.length_nil, Nat.add_assoc, Nat.add_comm 1]

theorem legible_number {c : Char} {cs : List Char} {k : TokenKind} {l : Lexeme} (p : Nat)
    (hc : c.isDigit = true) (h : Lexeme.number (c :: cs) = (k, l)) :
    Legible ⟨k, String.ofList l.text, p⟩ := by
  intro s r hs hr
  obtain ⟨d, ds, hd, hdigit, hnum⟩ := Lexeme.number_text hr hc h
  rw [written_of_ne_text (Lexeme.number_kind h), String.toList_ofList] at hs ⊢
  rw [hd] at hs hnum
  rw [Lexer.next?_of_isDigit hs hdigit hnum, hd]

theorem legible_word {c : Char} {cs : List Char} (p : Nat) (hc : Lexeme.isWordStart c = true) :
    Legible ⟨Lexeme.wordKind (Lexeme.word (c :: cs)).text,
      String.ofList (Lexeme.word (c :: cs)).text, p⟩ := by
  intro s r hs hr
  have hword := Lexeme.word_text hr (c :: cs)
  obtain ⟨ds, hd⟩ := Lexeme.word_cons hc cs
  rw [written_of_ne_text (Lexeme.wordKind_kind _).2, String.toList_ofList] at hs ⊢
  rw [hd, List.cons_append] at hs hword
  rw [Lexer.next?_of_isWordStart hs hc, hword, hd]

theorem legible_operator {cs : List Char} {k : TokenKind} {l : Lexeme} (p : Nat)
    (h : Lexeme.operator? cs = some (k, l)) : Legible ⟨k, String.ofList l.text, p⟩ := by
  intro s r hs hr
  obtain ⟨hne, ho⟩ := Lexeme.operator?_text hr h
  obtain ⟨d, ds, hd⟩ := List.exists_cons_of_ne_nil hne
  rw [written_of_ne_text (Lexeme.operator?_kind h).2, String.toList_ofList] at hs ⊢
  rw [hd] at hs ho
  rw [Lexer.next?_of_operator hs ho, hd]

end Token

/-- **Every token that is read is legible.** -/
theorem Lexer.Takes.legible {s s' : Lexer} {t : Token} (h : Takes s (some t) s') : t.Legible := by
  cases h with
  | quoted _ _ _ => exact Token.legible_quoted _ _
  | number _ hc hl => exact Token.legible_number _ hc hl
  | word _ hc hl =>
    subst hl
    exact Token.legible_word _ hc
  | operator _ ho => exact Token.legible_operator _ ho

/-! ### Lines -/

/-- `Spaced ts cs` says that `cs` is the tokens `ts` as they are written back, with some white space
between each two of them. -/
inductive Spaced : List Token → List Char → Prop
  | nil : Spaced [] []
  | one (t : Token) : Spaced [t] t.written
  | cons (t : Token) {u : Token} {ts : List Token} {gap cs : List Char} : gap ≠ [] →
      (∀ c ∈ gap, Lexeme.isSpace c = true) → Spaced (u :: ts) cs →
      Spaced (t :: u :: ts) (t.written ++ (gap ++ cs))

namespace Lexer

theorem legible_of_readTokens {count : Nat} {s s' : Lexer} (h : readTokens count s = .ok () s')
    (hs : ∀ t ∈ s.tokens.toList, t.Legible) : ∀ t ∈ s'.tokens.toList, t.Legible :=
  forall_of_readTokens (fun hnext => (next?_takes hnext).legible) h hs

theorem next?_of_legible {t : Token} (ht : t.Legible) {s : Lexer} {g r : List Char}
    (h : s.rest = g ++ (t.written ++ r)) (hg : ∀ c ∈ g, Lexeme.isSpace c = true)
    (hr : Lexeme.Apart r) :
    ∃ p s', next? s = .ok (some { t with position := p }) s' ∧ s'.rest = r ∧
      s'.tokens = s.tokens := by
  have hb := behind_rest_of_append h
  refine ⟨_, _, (next?_behind_gap h hg).trans (ht _ r hb hr), ?_, rfl⟩
  exact behind_rest_of_append hb

/-- **Legible tokens with white space between them are read one by one.** -/
theorem readTokens_spaced {ts : List Token} {cs : List Char} (h : Spaced ts cs)
    (hl : ∀ t ∈ ts, t.Legible) {s : Lexer} {g : List Char} {n : Nat} (hs : s.rest = g ++ cs)
    (hg : ∀ c ∈ g, Lexeme.isSpace c = true) (hc : ts.length ≤ n) (hne : ts = [] → g = []) :
    ∃ s' us, readTokens n s = .ok () s' ∧ s'.tokens.toList = s.tokens.toList ++ us ∧
      us.map Token.content = ts.map Token.content := by
  induction h generalizing s g n with
  | nil =>
    rw [hne rfl] at hs
    exact ⟨s, [], readTokens_nil hs n, (List.append_nil _).symm, rfl⟩
  | one t =>
    obtain ⟨n, rfl⟩ : ∃ k, n = k + 1 := ⟨n - 1, by simp at hc; omega⟩
    obtain ⟨p, u, hnext, hrest, htokens⟩ := next?_of_legible (r := [])
      (hl t (List.mem_cons_self ..)) (by rw [hs, List.append_nil]) hg (fun c hc => by cases hc)
    refine ⟨u.found { t with position := p }, [{ t with position := p }], ?_, ?_, rfl⟩
    · rw [readTokens_some hnext, readTokens_nil (s := u.found _) hrest]
    · rw [found_tokens, Array.toList_push, htokens]
  | @cons t v ts gap cs hgap hspace _ ih =>
    obtain ⟨n, rfl⟩ : ∃ k, n = k + 1 := ⟨n - 1, by simp at hc; omega⟩
    have hapart : Lexeme.Apart (gap ++ cs) := by
      intro c hc
      rw [List.head?_append_of_ne_nil _ hgap] at hc
      exact hspace c (List.mem_of_mem_head? hc)
    obtain ⟨p, u, hnext, hrest, htokens⟩ :=
      next?_of_legible (hl t (List.mem_cons_self ..)) hs hg hapart
    obtain ⟨s', us, hread, hus, hcontent⟩ := ih (s := u.found { t with position := p })
      (fun w hw => hl w (List.mem_cons_of_mem _ hw)) hrest hspace
      (n := n) (by simpa using hc) (fun hnil => by cases hnil)
    refine ⟨s', { t with position := p } :: us, ?_, ?_, ?_⟩
    · rw [readTokens_some hnext, hread]
    · rw [hus, found_tokens, Array.toList_push, htokens, List.append_assoc]
      rfl
    · rw [List.map_cons, hcontent]
      rfl

end Lexer

namespace Token

theorem length_le_of_spaced {ts : List Token} {cs : List Char} (h : Spaced ts cs)
    (hl : ∀ t ∈ ts, t.Legible) : ts.length ≤ cs.length := by
  induction h with
  | nil => exact le_refl _
  | one t => exact List.length_pos_iff.mpr (hl t (List.mem_cons_self ..)).written_ne_nil
  | @cons t u ts gap cs hgap hspace _ ih =>
    have ht := List.length_pos_iff.mpr (hl t (List.mem_cons_self ..)).written_ne_nil
    have ih := ih fun w hw => hl w (List.mem_cons_of_mem _ hw)
    simp only [List.length_append, List.length_cons] at ih ⊢
    omega

/-- **The tokens of a line, written with white space between them, are the tokens of the line that
this makes**, up to their positions. -/
theorem ofLine_spaced {line : String} {ts : List Token} {cs : List Char}
    (h : ofLine line = .ok ts) (hs : Spaced ts.dropLast cs) :
    ∃ us, ofLine (String.ofList cs) = .ok us ∧ us.map content = ts.map content := by
  obtain ⟨s, hread, rfl⟩ := ofLine_eq_ok h
  rw [List.dropLast_concat] at hs
  have hl : ∀ t ∈ s.tokens.toList, t.Legible :=
    Lexer.legible_of_readTokens hread fun t ht => absurd ht List.not_mem_nil
  have hrest : (Lexer.start (String.ofList cs)).rest = [] ++ cs := String.toList_ofList
  obtain ⟨s', us, hread', hus, hcontent⟩ := Lexer.readTokens_spaced hs hl hrest
    (n := (String.ofList cs).toList.length) (fun c hc => absurd hc List.not_mem_nil)
    (by rw [String.toList_ofList]; exact length_le_of_spaced hs hl) (fun _ => rfl)
  refine ⟨_, ofLine_of_readTokens hread', ?_⟩
  rw [hus, List.map_append, List.map_append, List.map_append, hcontent]
  rfl

/-- The sum of a number and a line feed in quotes, written with other white space. -/
theorem ofLine_spaced_sum :
    ofLine "1_0+'\\n'" = .ok
      [⟨.number, "10", 0⟩, ⟨.plus, "+", 3⟩, ⟨.text, "\n", 4⟩, ⟨.stop, "", 8⟩] ∧
    ∃ us, ofLine "10 +\r\n\"\\n\"" = .ok us ∧
      us.map content = [(.number, "10"), (.plus, "+"), (.text, "\n"), (.stop, "")] := by
  let ten : Token := ⟨.number, "10", 0⟩
  let plus : Token := ⟨.plus, "+", 3⟩
  let newline : Token := ⟨.text, "\n", 4⟩
  have h : ofLine "1_0+'\\n'" = .ok [ten, plus, newline, ⟨.stop, "", 8⟩] := by
    decide +kernel
  have hcs : ten.written ++ ([' '] ++ (plus.written ++ (['\r', '\n'] ++ newline.written))) =
      "10 +\r\n\"\\n\"".toList := by
    decide +kernel
  have hs : Spaced [ten, plus, newline] "10 +\r\n\"\\n\"".toList := by
    rw [← hcs]
    exact .cons _ (by simp) (by simp [Lexeme.isSpace])
      (.cons _ (by simp) (by simp [Lexeme.isSpace]) (.one _))
  obtain ⟨us, hus, hcontent⟩ := ofLine_spaced h hs
  rw [String.ofList_toList] at hus
  exact ⟨h, us, hus, hcontent⟩

end Token

end WeiCalc

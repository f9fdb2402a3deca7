import Mathlib
import WeiCalc.Proofs.Token.Integer

/-!
# The next token

Reading a token passes over white space and takes one lexeme, and the first character of the lexeme
decides which.  `Lexer.Takes` says so case by case, without the lexer's own tests in a row.

* `Lexer.next?_takes`: **whatever reading a token answers is one of these cases.**
* `Lexer.next?_of_quote`, `Lexer.next?_of_isDigit`, `Lexer.next?_of_isWordStart`,
  `Lexer.next?_of_operator`: in each of them there is a token.
* `Lexer.next?_behind_gap`: white space in front of a token changes nothing but its position.
-/

namespace WeiCalc

/-! ### First characters -/

namespace Lexeme

/-- The quotes around texts. -/
def isQuote (c : Char) : Bool :=
  c == '"' || c == '\''

theorem isSpace_cases {c : Char} (h : isSpace c = true) :
    c = ' ' ∨ c = '\t' ∨ c = '\r' ∨ c = '\n' := by
  simpa only [isSpace, Bool.or_eq_true, beq_iff_eq, or_assoc] using h

theorem isQuote_cases {c : Char} (h : isQuote c = true) : c = '"' ∨ c = '\'' := by
  simpa only [isQuote, Bool.or_eq_true, beq_iff_eq] using h

/-- White space is in no other class of characters. -/
theorem not_isSpace {p : Char → Bool} {c : Char} (h : p c = true)
    (hp : p ' ' = false ∧ p '\t' = false ∧ p '\r' = false ∧ p '\n' = false) :
    isSpace c = false := by
  by_contra hs
  obtain ⟨h₁, h₂, h₃, h₄⟩ := hp
  rcases isSpace_cases (Bool.eq_true_of_not_eq_false hs) with rfl | rfl | rfl | rfl <;>
    simp_all

theorem not_isQuote {p : Char → Bool} {c : Char} (h : p c = true)
    (hp : p '"' = false ∧ p '\'' = false) : isQuote c = false := by
  by_contra hq
  obtain ⟨h₁, h₂⟩ := hp
  rcases isQuote_cases (Bool.eq_true_of_not_eq_false hq) with rfl | rfl <;> simp_all

theorem not_isDigit_of_isWordStart {c : Char} (h : isWordStart c = true) : c.isDigit = false := by
  by_contra hd
  have hd := toNat_of_isDigit (Bool.eq_true_of_not_eq_false hd)
  simp only [isWordStart, Char.isAlpha, Char.isUpper, Char.isLower, Bool.or_eq_true,
    Bool.and_eq_true, decide_eq_true_eq, UInt32.le_iff_toNat_le, ge_iff_le, beq_iff_eq] at h
  rcases h with (h | h) | rfl
  · exact absurd h.1 (by change ¬(65 ≤ c.toNat); omega)
  · exact absurd h.1 (by change ¬(97 ≤ c.toNat); omega)
  · exact absurd hd.2 (by decide)

/-! ### Kinds of tokens -/

theorem number_kind {cs : List Char} {k : TokenKind} {l : Lexeme} (h : number cs = (k, l)) :
    k ≠ .text := by
  rw [number.eq_def] at h
  rintro rfl
  split at h <;> simp at h

theorem wordKind_kind (cs : List Char) :
    Abi.isNumeric (wordKind cs) = false ∧ wordKind cs ≠ .text := by
  rw [wordKind]
  split
  · decide
  · split <;> decide

theorem operator?_kind {cs : List Char} {k : TokenKind} {l : Lexeme}
    (h : operator? cs = some (k, l)) : Abi.isNumeric k = false ∧ k ≠ .text := by
  rw [operator?.eq_def] at h
  split at h <;> cases h <;> decide

/-! ### First characters of operators -/

/-- The characters that operators and delimiters start with. -/
def isOperatorStart (c : Char) : Bool :=
  ['*', '<', '>', '+', '-', '/', '%', '(', ')', ','].contains c

theorem isOperatorStart_of_operator? {c : Char} {cs : List Char} {k : TokenKind} {l : Lexeme}
    (h : operator? (c :: cs) = some (k, l)) : isOperatorStart c = true := by
  rw [operator?.eq_def] at h
  split at h
  all_goals first
    | rename_i he
      obtain ⟨rfl, -⟩ := List.cons.inj he
      rfl
    | cases h

theorem not_isDigit_of_isOperatorStart {c : Char} (h : isOperatorStart c = true) :
    c.isDigit = false ∧ isWordStart c = false := by
  have hm := List.contains_iff_mem.mp h
  simp only [List.mem_cons, List.not_mem_nil, or_false] at hm
  rcases hm with rfl | rfl | rfl | rfl | rfl | rfl | rfl | rfl | rfl | rfl <;> decide

end Lexeme

namespace Lexer

/-! ### White space in front -/

/-- The white space ahead. -/
def gap (s : Lexer) : List Char :=
  s.rest.takeWhile Lexeme.isSpace

theorem behind_rest_of_append {s : Lexer} {g r : List Char} (h : s.rest = g ++ r) :
    (s.behind g.length).rest = r := by
  rw [behind_rest, h, List.drop_left]

theorem gap_append_rest (s : Lexer) : s.gap ++ (s.behind s.gap.length).rest = s.rest :=
  List.prefix_iff_eq_append.mp (List.takeWhile_prefix _)

theorem next?_behind_gap {s : Lexer} {g r : List Char} (h : s.rest = g ++ r)
    (hg : ∀ c ∈ g, Lexeme.isSpace c = true) : next? s = next? (s.behind g.length) := by
  have hb : s.behind s.gap.length =
      (s.behind g.length).behind (r.takeWhile Lexeme.isSpace).length := by
    rw [gap, h, List.takeWhile_append_of_pos hg, List.length_append]
    simp only [behind, List.drop_drop, Nat.add_assoc]
  rw [next?, bind_of_ok (skipSpace_run s), bind_of_ok (skipSpace_run _), behind_rest_of_append h]
  exact congrArg _ hb

/-! ### A token by its first character -/

theorem next?_of_quote {s : Lexer} {mark : Char} {cs : List Char} {l : Lexeme}
    (h : s.rest = mark :: cs) (hm : Lexeme.isQuote mark = true)
    (hq : Lexeme.quote mark cs = ⟨l, .closed⟩) :
    next? s = .ok (some ⟨.text, String.ofList l.text, s.position⟩)
      ((s.behind 1).behind l.width) := by
  have hs : Lexeme.isSpace mark = false := Lexeme.not_isSpace hm (by decide)
  have hrest : (s.behind 1).rest = cs := by
    simp [h]
  have hadvance : advance s = .ok (some mark) (s.behind 1) := by
    change EStateM.Result.ok s.rest[0]? (s.behind 1) = _
    rw [h]
    rfl
  have hr : readText s = .ok (String.ofList l.text) ((s.behind 1).behind l.width) := by
    rw [readText, bind_of_ok (get_run s), bind_of_ok hadvance]
    dsimp only
    rw [bind_of_ok (get_run _), hrest, hq, bind_of_ok (take_run _ _)]
    rfl
  rw [Lexeme.isQuote] at hm
  rw [next?, bind_of_ok (skipSpace_of_not_isSpace h hs), bind_of_ok (get_run s), h]
  dsimp only
  rw [if_pos hm, bind_of_ok hr]
  rfl

theorem next?_of_isWordStart {s : Lexer} {c : Char} {cs : List Char} (h : s.rest = c :: cs)
    (hc : Lexeme.isWordStart c = true) :
    next? s = .ok (some ⟨Lexeme.wordKind (Lexeme.word (c :: cs)).text,
        String.ofList (Lexeme.word (c :: cs)).text, s.position⟩)
      (s.behind (Lexeme.word (c :: cs)).width) := by
  have hs : Lexeme.isSpace c = false := Lexeme.not_isSpace hc (by decide)
  have hq : (c == '"' || c == '\'') = false := Lexeme.not_isQuote hc (by decide)
  have hd : c.isDigit = false := Lexeme.not_isDigit_of_isWordStart hc
  have hr : readWord s = .ok (String.ofList (Lexeme.word (c :: cs)).text)
      (s.behind (Lexeme.word (c :: cs)).width) := by
    rw [readWord, bind_of_ok (get_run s), h, take_run]
  rw [next?, bind_of_ok (skipSpace_of_not_isSpace h hs), bind_of_ok (get_run s), h]
  simp only [hq, hd, hc]
  rw [if_neg (by decide), if_neg (by decide), if_pos trivial, bind_of_ok hr, String.toList_ofList]
  rfl

theorem next?_of_operator {s : Lexer} {c : Char} {cs : List Char} {k : TokenKind} {l : Lexeme}
    (h : s.rest = c :: cs) (ho : Lexeme.operator? (c :: cs) = some (k, l)) :
    next? s = .ok (some ⟨k, String.ofList l.text, s.position⟩) (s.behind l.width) := by
  have hc := Lexeme.isOperatorStart_of_operator? ho
  have hs : Lexeme.isSpace c = false := Lexeme.not_isSpace hc (by decide)
  have hq : (c == '"' || c == '\'') = false := Lexeme.not_isQuote hc (by decide)
  obtain ⟨hd, hw⟩ := Lexeme.not_isDigit_of_isOperatorStart hc
  rw [next?, bind_of_ok (skipSpace_of_not_isSpace h hs), bind_of_ok (get_run s), h]
  simp only [hq, hd, hw, ho]
  rw [if_neg (by decide), if_neg (by decide), if_neg (by decide), bind_of_ok (take_run l s)]
  rfl

/-! ### What reading a token does -/

/-- What reading a token may answer, and the state behind it. -/
inductive Takes (s : Lexer) : Option Token → Lexer → Prop
  | nothing : s.rest = s.gap → Takes s none (s.behind s.gap.length)
  | quoted {mark : Char} {cs : List Char} {l : Lexeme} : s.rest = s.gap ++ mark :: cs →
      Lexeme.isQuote mark = true → Lexeme.quote mark cs = ⟨l, .closed⟩ →
      Takes s (some ⟨.text, String.ofList l.text, s.position + s.gap.length⟩)
        (((s.behind s.gap.length).behind 1).behind l.width)
  | number {c : Char} {cs : List Char} {k : TokenKind} {l : Lexeme} : s.rest = s.gap ++ c :: cs →
      c.isDigit = true → Lexeme.number (c :: cs) = (k, l) →
      Takes s (some ⟨k, String.ofList l.text, s.position + s.gap.length⟩)
        ((s.behind s.gap.length).behind l.width)
  | word {c : Char} {cs : List Char} {l : Lexeme} : s.rest = s.gap ++ c :: cs →
      Lexeme.isWordStart c = true → Lexeme.word (c :: cs) = l →
      Takes s (some ⟨Lexeme.wordKind l.text, String.ofList l.text, s.position + s.gap.length⟩)
        ((s.behind s.gap.length).behind l.width)
  | operator {c : Char} {cs : List Char} {k : TokenKind} {l : Lexeme} :
      s.rest = s.gap ++ c :: cs → Lexeme.operator? (c :: cs) = some (k, l) →
      Takes s (some ⟨k, String.ofList l.text, s.position + s.gap.length⟩)
        ((s.behind s.gap.length).behind l.width)

theorem readText_eq_ok {s s' : Lexer} {mark : Char} {cs : List Char} {x : String}
    (hr : s.rest = mark :: cs) (h : readText s = .ok x s') :
    ∃ l, Lexeme.quote mark cs = ⟨l, .closed⟩ ∧ x = String.ofList l.text ∧
      s' = (s.behind 1).behind l.width := by
  have hadvance : advance s = .ok s.rest[0]? (s.behind 1) := rfl
  have hrest : (s.behind 1).rest = cs := by
    simp [hr]
  rw [readText, bind_of_ok (get_run s), bind_of_ok hadvance, hr] at h
  dsimp only [List.getElem?_cons_zero] at h
  rw [bind_of_ok (get_run _), hrest, bind_of_ok (take_run _ _)] at h
  cases hq : Lexeme.quote mark cs with
  | mk l ending =>
    rw [hq] at h
    cases ending with
    | closed =>
      cases h
      exact ⟨l, rfl, rfl, rfl⟩
    | «open» => cases h
    | badEscape c => cases h

/-- **Whatever reading a token answers is one of these cases.** -/
theorem next?_takes {s s' : Lexer} {o : Option Token} (h : next? s = .ok o s') :
    Takes s o s' := by
  have hsplit := gap_append_rest s
  have hskip : skipSpace s = .ok () (s.behind s.gap.length) := skipSpace_run s
  rw [next?, bind_of_ok hskip, bind_of_ok (get_run _)] at h
  cases hr : (s.behind s.gap.length).rest with
  | nil =>
    rw [hr] at h hsplit
    cases h
    exact .nothing (by rw [← hsplit, List.append_nil])
  | cons c cs =>
    rw [hr] at h hsplit
    dsimp only at h
    -- A quoted text, a number, a word or an operator, by its first character.
    split at h
    · rename_i hc
      obtain ⟨x, t, hx, h⟩ := bind_eq_ok h
      obtain ⟨l, hl, rfl, rfl⟩ := readText_eq_ok hr hx
      cases h
      exact .quoted hsplit.symm hc hl
    split at h
    · rename_i hc
      obtain ⟨⟨k, x⟩, t, hx, h⟩ := bind_eq_ok h
      cases h
      rw [readNumber, bind_of_ok (get_run _), hr] at hx
      obtain ⟨y, t, ht, hx⟩ := bind_eq_ok hx
      rw [take_run] at ht
      cases ht
      cases hx
      exact .number hsplit.symm hc rfl
    split at h
    · rename_i hc
      obtain ⟨x, t, hx, h⟩ := bind_eq_ok h
      rw [readWord, bind_of_ok (get_run _), hr, take_run] at hx
      cases hx
      cases h
      rw [String.toList_ofList]
      exact .word hsplit.symm hc rfl
    cases ho : Lexeme.operator? (c :: cs) with
    | none =>
      rw [ho] at h
      cases h
    | some kl =>
      rw [ho] at h
      obtain ⟨x, t, hx, h⟩ := bind_eq_ok h
      rw [take_run] at hx
      cases hx
      cases h
      exact .operator hsplit.symm ho

/-- Reading a token leaves the tokens found so far alone. -/
theorem Takes.tokens {s s' : Lexer} {o : Option Token} (h : Takes s o s') :
    s'.tokens = s.tokens := by
  cases h <;> rfl

end Lexer

end WeiCalc

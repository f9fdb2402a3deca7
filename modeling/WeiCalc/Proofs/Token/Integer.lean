import Mathlib
import WeiCalc.Abi.Codec
import WeiCalc.Proofs.Arithmetic

/-!
# Integers written as text

The decimal text of an integer is one number token with a minus in front of it if there is one, and
the number that the token writes is the integer again.

* `ofLine_number`: the tokens of a line that is one number.
* `ofLine_digits`, `ofLine_minus_digits`: the tokens of a decimal text.
* `readDecimal_toDigits`: the number of decimal digits.
* `integerOfText_toString`: **an integer is read back from its text.**
-/

namespace WeiCalc

theorem toNat_of_isDigit {c : Char} (h : c.isDigit = true) : 48 ≤ c.toNat ∧ c.toNat ≤ 57 := by
  simp only [Char.isDigit, Bool.and_eq_true, decide_eq_true_eq, ge_iff_le,
    UInt32.le_iff_toNat_le] at h
  exact h

namespace Lexer

/-! ### The operations of a lexer -/

/-- A lexer moved over characters. -/
def behind (s : Lexer) (width : Nat) : Lexer :=
  { s with rest := s.rest.drop width, position := s.position + width }

/-- A lexer that has found one more token. -/
def found (s : Lexer) (t : Token) : Lexer :=
  { s with tokens := s.tokens.push t }

@[simp] theorem behind_rest (s : Lexer) (width : Nat) :
    (s.behind width).rest = s.rest.drop width := rfl

@[simp] theorem behind_position (s : Lexer) (width : Nat) :
    (s.behind width).position = s.position + width := rfl

@[simp] theorem behind_tokens (s : Lexer) (width : Nat) : (s.behind width).tokens = s.tokens := rfl

@[simp] theorem found_rest (s : Lexer) (t : Token) : (s.found t).rest = s.rest := rfl

@[simp] theorem found_position (s : Lexer) (t : Token) : (s.found t).position = s.position := rfl

@[simp] theorem found_tokens (s : Lexer) (t : Token) : (s.found t).tokens = s.tokens.push t := rfl

@[simp] theorem skip_run (width : Nat) (s : Lexer) : skip width s = .ok () (s.behind width) := rfl

@[simp] theorem take_run (l : Lexeme) (s : Lexer) :
    take l s = .ok (String.ofList l.text) (s.behind l.width) := by
  rw [take, bind_of_ok (skip_run l.width s)]
  rfl

@[simp] theorem skipSpace_run (s : Lexer) :
    skipSpace s = .ok () (s.behind (s.rest.takeWhile Lexeme.isSpace).length) := rfl

/-- In front of a character that is not white space there is none to skip. -/
theorem skipSpace_of_not_isSpace {s : Lexer} {c : Char} {cs : List Char} (h : s.rest = c :: cs)
    (hc : Lexeme.isSpace c = false) : skipSpace s = .ok () s := by
  rw [skipSpace_run, h, List.takeWhile_cons, hc]
  rfl

theorem next?_nil {s : Lexer} (h : s.rest = []) : next? s = .ok none s := by
  have hs : skipSpace s = .ok () s := by rw [skipSpace_run, h]; rfl
  rw [next?, bind_of_ok hs, bind_of_ok (get_run s), h]
  rfl

theorem next?_of_isDigit {s : Lexer} {c : Char} {cs : List Char} {k : TokenKind} {l : Lexeme}
    (h : s.rest = c :: cs) (hc : c.isDigit = true) (hn : Lexeme.number (c :: cs) = (k, l)) :
    next? s = .ok (some ⟨k, String.ofList l.text, s.position⟩) (s.behind l.width) := by
  have hne : ∀ d : Char, d.toNat < 48 → (c == d) = false := by
    intro d hd
    apply beq_false_of_ne
    rintro rfl
    exact absurd (toNat_of_isDigit hc).1 (by omega)
  have hs : Lexeme.isSpace c = false := by
    simp only [Lexeme.isSpace, hne ' ' (by decide), hne '\t' (by decide), hne '\r' (by decide),
      hne '\n' (by decide), Bool.or_self]
  have hr : readNumber s = .ok (k, String.ofList l.text) (s.behind l.width) := by
    rw [readNumber, bind_of_ok (get_run s), h, hn]
    exact bind_of_ok (take_run l s)
  rw [next?, bind_of_ok (skipSpace_of_not_isSpace h hs), bind_of_ok (get_run s), h]
  simp only [hne '"' (by decide), hne '\'' (by decide), Bool.or_self, hc]
  rw [if_neg (by decide), if_pos trivial, bind_of_ok hr]
  rfl

theorem next?_minus {s : Lexer} {cs : List Char} (h : s.rest = '-' :: cs) :
    next? s = .ok (some ⟨.minus, "-", s.position⟩) (s.behind 1) := by
  rw [next?, bind_of_ok (skipSpace_of_not_isSpace h (by decide)),
    bind_of_ok (get_run s), h]
  rfl

theorem readTokens_some {s s' : Lexer} {t : Token} {count : Nat} (h : next? s = .ok (some t) s') :
    readTokens (count + 1) s = readTokens count (s'.found t) := by
  rw [readTokens, bind_of_ok h]
  rfl

end Lexer

/-! ### The tokens of a decimal text -/

namespace Lexeme

/-- Digits are one number, whose text they are. -/
theorem number_digits {ds : List Char} (hd : ∀ c ∈ ds, c.isDigit = true) :
    number ds = (.number, ⟨ds, ds.length⟩) := by
  have hne : ∀ c ∈ ds, c ≠ '_' := by
    rintro c hc rfl
    exact absurd (hd _ hc) (by decide)
  have hw : digits ds = ⟨ds, ds.length⟩ := by
    have hr : ds.takeWhile (fun c => c.isDigit || c == '_') = ds :=
      List.takeWhile_eq_self_iff.mpr fun c hc => by rw [hd c hc, Bool.true_or]
    rw [digits, grouped]
    simp only [hr]
    rw [List.filter_eq_self.mpr fun c hc => by simpa using hne c hc]
  have hdec : decimal ds = ⟨ds, ds.length⟩ := by
    rw [decimal]
    simp only [hw, List.drop_length, fraction, none, Nat.add_zero, exponent, append,
      List.append_nil]
  rw [number.eq_def]
  split
  any_goals
    rename_i cs
    exact absurd (hd _ (List.mem_cons_of_mem _ (List.mem_cons_self ..))) (by decide)
  rw [hdec]

end Lexeme

namespace Lexer

theorem readTokens_nil {s : Lexer} (h : s.rest = []) (count : Nat) :
    readTokens count s = .ok () s := by
  cases count with
  | zero => rfl
  | succ count => rw [readTokens, bind_of_ok (next?_nil h)]; rfl

/-- A number up to the end of a line is one token. -/
theorem readTokens_number {s : Lexer} {c : Char} {cs : List Char} {k : TokenKind}
    (h : s.rest = c :: cs) (hc : c.isDigit = true)
    (hn : Lexeme.number (c :: cs) = (k, ⟨c :: cs, (c :: cs).length⟩)) (count : Nat) :
    readTokens (count + 1) s =
      .ok () ((s.behind (c :: cs).length).found ⟨k, String.ofList (c :: cs), s.position⟩) := by
  rw [readTokens_some (next?_of_isDigit h hc hn)]
  refine readTokens_nil ?_ count
  rw [found_rest, behind_rest, h, List.drop_length]

/-- Digits up to the end of a line are one token. -/
theorem readTokens_digits {s : Lexer} {ds : List Char} (h : s.rest = ds) (hne : ds ≠ [])
    (hd : ∀ c ∈ ds, c.isDigit = true) (count : Nat) :
    readTokens (count + 1) s =
      .ok () ((s.behind ds.length).found ⟨.number, String.ofList ds, s.position⟩) := by
  obtain ⟨c, cs, rfl⟩ := List.exists_cons_of_ne_nil hne
  exact readTokens_number h (hd c (List.mem_cons_self ..)) (Lexeme.number_digits hd) count

/-- The token at the end of a line. -/
theorem tokenize_of_readTokens {s s' : Lexer} (h : readTokens s.rest.length s = .ok () s') :
    tokenize s =
      .ok (s'.tokens.push ⟨.stop, "", s'.position⟩) (s'.found ⟨.stop, "", s'.position⟩) := by
  rw [tokenize, bind_of_ok (get_run s), bind_of_ok h, bind_of_ok (get_run s')]
  rfl

end Lexer

theorem Token.ofLine_of_readTokens {line : String} {s : Lexer}
    (h : Lexer.readTokens line.toList.length (Lexer.start line) = .ok () s) :
    Token.ofLine line = .ok (s.tokens.toList ++ [⟨.stop, "", s.position⟩]) := by
  rw [Token.ofLine, Lexer.tokenize_of_readTokens h]
  simp only [Array.toList_push]

theorem Token.ofLine_number {c : Char} {cs : List Char} {k : TokenKind} (hc : c.isDigit = true)
    (hn : Lexeme.number (c :: cs) = (k, ⟨c :: cs, (c :: cs).length⟩)) :
    Token.ofLine (String.ofList (c :: cs)) =
      .ok [⟨k, String.ofList (c :: cs), 0⟩, ⟨.stop, "", (c :: cs).length⟩] := by
  have hr : (Lexer.start (String.ofList (c :: cs))).rest = c :: cs := String.toList_ofList
  have hread := Lexer.readTokens_number hr hc hn cs.length
  rw [Token.ofLine_of_readTokens (by rw [String.toList_ofList]; exact hread)]
  simp [Lexer.start]

theorem Token.ofLine_digits {ds : List Char} (hne : ds ≠ []) (hd : ∀ c ∈ ds, c.isDigit = true) :
    Token.ofLine (String.ofList ds) =
      .ok [⟨.number, String.ofList ds, 0⟩, ⟨.stop, "", ds.length⟩] := by
  obtain ⟨c, cs, rfl⟩ := List.exists_cons_of_ne_nil hne
  exact Token.ofLine_number (hd c (List.mem_cons_self ..)) (Lexeme.number_digits hd)

theorem Token.ofLine_minus_digits {ds : List Char} (hne : ds ≠ [])
    (hd : ∀ c ∈ ds, c.isDigit = true) :
    Token.ofLine (String.ofList ('-' :: ds)) =
      .ok [⟨.minus, "-", 0⟩, ⟨.number, String.ofList ds, 1⟩, ⟨.stop, "", 1 + ds.length⟩] := by
  obtain ⟨count, hl⟩ : ∃ k, ds.length = k + 1 :=
    ⟨ds.length - 1, by have := List.length_pos_iff.mpr hne; omega⟩
  let s := Lexer.start (String.ofList ('-' :: ds))
  have hs : s.rest = '-' :: ds := String.toList_ofList
  have hr : ((s.behind 1).found ⟨.minus, "-", 0⟩).rest = ds := by
    simp [hs]
  rw [Token.ofLine_of_readTokens (s := (((s.behind 1).found ⟨.minus, "-", 0⟩).behind ds.length).found
    ⟨.number, String.ofList ds, 1⟩)]
  · simp [s, Lexer.start]
  · rw [String.toList_ofList, List.length_cons, hl, Lexer.readTokens_some (Lexer.next?_minus hs)]
    change Lexer.readTokens _ ((s.behind 1).found ⟨.minus, "-", 0⟩) = _
    rw [Lexer.readTokens_digits hr hne hd, hl]
    rfl

/-! ### The number of decimal digits -/

namespace NumberLiteral

@[simp] theorem ofDecimal_toDigits (n : Nat) : Text.ofDecimal (Nat.toDigits 10 n) = n := by
  have h := Nat.ofDigitChars_ten_toDigits (n := n)
  rw [Nat.ofDigitChars_eq_foldl] at h
  rw [Text.ofDecimal, Text.ofDigits, List.foldl_map]
  exact h

/-- Digits are a mantissa, without a point and without an exponent. -/
theorem decimal_ofText_digits {ds : List Char} (hd : ∀ c ∈ ds, c.isDigit = true) :
    Decimal.ofText ds = ⟨ds, 0⟩ := by
  have hm : ∀ c ∈ ds, (!Decimal.isExponentMark c) = true := by
    intro c hc
    have hc' := hd c hc
    have hne : c ≠ 'e' ∧ c ≠ 'E' := by
      constructor <;> rintro rfl <;> exact absurd hc' (by decide)
    simp [Decimal.isExponentMark, hne.1, hne.2]
  have hw : ds.takeWhile (!Decimal.isExponentMark ·) = ds := List.takeWhile_eq_self_iff.mpr hm
  have hx : ds.dropWhile (!Decimal.isExponentMark ·) = [] := List.dropWhile_eq_nil_iff.mpr hm
  rw [Decimal.ofText, hw, hx]
  rfl

theorem places_digits {ds : List Char} (hd : ∀ c ∈ ds, c.isDigit = true) :
    Decimal.places ⟨ds, 0⟩ = 0 := by
  have hx : ds.dropWhile (· != '.') = [] := by
    rw [List.dropWhile_eq_nil_iff]
    intro c hc
    have hne : c ≠ '.' := by
      rintro rfl
      exact absurd (hd _ hc) (by decide)
    simpa using hne
  rw [Decimal.places, hx]
  rfl

@[simp] theorem rounded_natCast (n : Nat) : rounded (n : Rat) = n := by
  have h : ((n : Rat) + 1 / 2).floor = n := by
    change ⌊(n : Rat) + 1 / 2⌋ = (n : Int)
    rw [Int.floor_eq_iff]
    constructor <;> push_cast <;> linarith
  rw [rounded, h, Int.toNat_natCast]

theorem ofNat_of_lt {n : Nat} (raw : String) (h : n < Word.capacity) :
    ofNat raw n = .ok ⟨BitVec.ofNat 256 n, raw, none⟩ := by
  rw [ofNat, Word.ofNat?, if_pos h]

/-- **The digits of a number that is a word are read as that number.** -/
theorem readDecimal_toDigits {n : Nat} (h : n < Word.capacity) :
    readDecimal (String.ofList (Nat.toDigits 10 n)) =
      .ok ⟨BitVec.ofNat 256 n, String.ofList (Nat.toDigits 10 n), none⟩ := by
  have hd : ∀ c ∈ Nat.toDigits 10 n, c.isDigit = true := fun c hc =>
    Nat.isDigit_of_mem_toDigits (by decide) (by decide) hc
  have hl : (Nat.toDigits 10 n).length ≤ 78 := by
    rw [Nat.length_toDigits_le_iff (by decide) (by decide)]
    exact lt_trans h (by decide)
  have hs : Decimal.significand ⟨Nat.toDigits 10 n, 0⟩ = n := by
    rw [Decimal.significand, Decimal.natural, List.filter_eq_self.mpr hd, ofDecimal_toDigits]
  rw [readDecimal, String.toList_ofList, decimal_ofText_digits hd]
  simp only [hs]
  rw [if_neg (by rw [greatestLength]; omega)]
  by_cases hz : n = 0
  · rw [if_pos hz]
    subst hz
    exact ofNat_of_lt _ (by decide)
  · have hv : Decimal.value ⟨Nat.toDigits 10 n, 0⟩ = n := by
      rw [Decimal.value, hs, places_digits hd]
      simp
    rw [if_neg hz, if_neg (by omega), if_neg (by omega), ofRat, hv, rounded_natCast, Word.ofNat?,
      if_pos h]
    simp

theorem ofToken_toDigits {n p : Nat} (h : n < Word.capacity) :
    ofToken ⟨.number, String.ofList (Nat.toDigits 10 n), p⟩ =
      .ok ⟨BitVec.ofNat 256 n, String.ofList (Nat.toDigits 10 n), none⟩ := by
  rw [ofToken]
  simp only [readDecimal_toDigits h]
  rfl

end NumberLiteral

/-! ### Integers -/

namespace Text

theorem trim_eq_self {cs : List Char} (h : ∀ c ∈ cs, isBlank c = false) : trim cs = cs := by
  have hd : ∀ {ds : List Char}, (∀ c ∈ ds, isBlank c = false) → ds.dropWhile isBlank = ds := by
    intro ds hb
    cases ds with
    | nil => rfl
    | cons c cs => rw [List.dropWhile_cons, hb c (List.mem_cons_self ..)]; rfl
  rw [trim, trimStart, hd h, trimEnd, hd fun c hc => h c (List.mem_reverse.mp hc),
    List.reverse_reverse]

theorem isBlank_of_isDigit {c : Char} (h : c.isDigit = true) : isBlank c = false := by
  have hc := toNat_of_isDigit h
  simp only [isBlank, Bool.or_eq_false_iff, Bool.and_eq_false_iff, decide_eq_false_iff_not,
    beq_eq_false_iff_ne]
  omega

end Text

namespace Abi

theorem toList_toString_ofNat (n : Nat) : (toString (Int.ofNat n)).toList = Nat.toDigits 10 n := by
  change (Nat.repr n).toList = _
  rw [Nat.toList_repr]

theorem toList_toString_negSucc (n : Nat) :
    (toString (Int.negSucc n)).toList = '-' :: Nat.toDigits 10 (n + 1) := by
  change ("-" ++ Nat.repr (n + 1)).toList = _
  rw [String.toList_append, Nat.toList_repr]
  rfl

/-- The text that surrounds an integer only matters up to white space. -/
theorem integerOfText_of_trim {text : String} {i : Int}
    (h : Text.trim text.toList = (toString i).toList) (hi : i.natAbs < Word.capacity) :
    integerOfText text = .ok i := by
  cases i with
  | ofNat n =>
    have ht : Text.trimmed text = String.ofList (Nat.toDigits 10 n) := by
      rw [Text.trimmed, h, toList_toString_ofNat]
    have hd : ∀ c ∈ Nat.toDigits 10 n, c.isDigit = true := fun c hc =>
      Nat.isDigit_of_mem_toDigits (by decide) (by decide) hc
    have hl := Token.ofLine_digits Nat.toDigits_ne_nil hd
    have hv := NumberLiteral.ofToken_toDigits (p := 0) (n := n) hi
    rw [integerOfText, ht, hl]
    simp only [isNumeric, hv]
    exact congrArg (fun m : Nat => Except.ok (m : Int)) (Word.toNat_ofNat_of_lt hi)
  | negSucc n =>
    have ht : Text.trimmed text = String.ofList ('-' :: Nat.toDigits 10 (n + 1)) := by
      rw [Text.trimmed, h, toList_toString_negSucc]
    have hd : ∀ c ∈ Nat.toDigits 10 (n + 1), c.isDigit = true := fun c hc =>
      Nat.isDigit_of_mem_toDigits (by decide) (by decide) hc
    have hl := Token.ofLine_minus_digits Nat.toDigits_ne_nil hd
    have hv := NumberLiteral.ofToken_toDigits (p := 1) (n := n + 1) hi
    rw [integerOfText, ht, hl]
    simp only [isNumeric, hv]
    exact congrArg (fun m : Nat => Except.ok (-(m : Int))) (Word.toNat_ofNat_of_lt hi)

/-- There is no white space in the text of an integer. -/
theorem not_isBlank_of_mem_toString (i : Int) :
    ∀ c ∈ (toString i).toList, Text.isBlank c = false := by
  have hdigits : ∀ {n : Nat}, ∀ c ∈ Nat.toDigits 10 n, Text.isBlank c = false := fun c hc =>
    Text.isBlank_of_isDigit (Nat.isDigit_of_mem_toDigits (by decide) (by decide) hc)
  cases i with
  | ofNat n =>
    rw [toList_toString_ofNat]
    exact hdigits
  | negSucc n =>
    rw [toList_toString_negSucc]
    exact List.forall_mem_cons.mpr ⟨by decide, hdigits⟩

theorem trim_toString (i : Int) : Text.trim (toString i).toList = (toString i).toList :=
  Text.trim_eq_self (not_isBlank_of_mem_toString i)

/-- **An integer is read back from its text.** -/
theorem integerOfText_toString {i : Int} (hi : i.natAbs < Word.capacity) :
    integerOfText (toString i) = .ok i :=
  integerOfText_of_trim (trim_toString i) hi

end Abi

end WeiCalc

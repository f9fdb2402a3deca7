import Mathlib
import WeiCalc.Proofs.Arithmetic
import WeiCalc.Proofs.Hex
import WeiCalc.Proofs.Token.Numeral

/-!
# Numbers with a base mark

Behind a base mark the lexer takes every word character, so that a token may hold any letters and
digits.  The token is a number if the characters behind the mark are digits of the base; but the same
mark may stand in front of them once more.

* `NumberLiteral.integer?_eq_some_iff`: one or more digits are read as their positional value, and
  nothing else is read.
* `NumberLiteral.readBased_eq_ok_iff`: what is read behind a mark.
* `Token.read_based`: **what is read of a number token with a base mark.**
* `Token.read_marked_twice`: a second mark is passed over.
-/

namespace WeiCalc

/-- The base of a number token with a base mark, and the letter of the mark. -/
def TokenKind.base? : TokenKind → Option (Nat × Char)
  | .hexNumber => some (16, 'x')
  | .binaryNumber => some (2, 'b')
  | _ => none

/-! ### Digits and their value -/

namespace NumberLiteral

/-- One or more digits of a base. -/
def DigitsOf (base : Nat) (cs : List Char) : Prop :=
  cs ≠ [] ∧ ∀ c ∈ cs, (digit? base c).isSome = true

instance (base : Nat) (cs : List Char) : Decidable (DigitsOf base cs) :=
  decidable_of_iff (cs ≠ [] ∧ cs.all (fun c => (digit? base c).isSome) = true)
    (by rw [DigitsOf, List.all_eq_true])

/-- The number that digits write, the last one being the digit of the ones. -/
def positional (base : Nat) (cs : List Char) : Nat :=
  Nat.ofDigits base (cs.reverse.map fun c => (digit? base c).getD 0)

variable {base : Nat} {letter : Char} {raw : String} {malformed : String → LiteralCause}

theorem ofDigits_eq (ds : List Nat) : Text.ofDigits base ds = Nat.ofDigits base ds.reverse := by
  rw [Nat.ofDigits_eq_foldr, List.foldr_reverse, Text.ofDigits]
  simp only [Nat.cast_id, Nat.add_comm]

/-- One or more digits are read as their positional value, and nothing else is read. -/
theorem integer?_eq_some_iff {cs : List Char} {n : Nat} :
    integer? base cs = some n ↔ DigitsOf base cs ∧ n = positional base cs := by
  rw [integer?]
  by_cases hne : cs = []
  · subst hne
    simp [DigitsOf]
  rw [if_neg (by rw [List.isEmpty_iff]; exact hne)]
  by_cases hd : ∀ c ∈ cs, (digit? base c).isSome = true
  · rw [mapM_digit?_of_forall hd, Option.map_some, ofDigits_eq, ← List.map_reverse,
      Option.some_inj, eq_comm]
    exact ⟨fun h => ⟨⟨hne, hd⟩, h⟩, fun h => h.2⟩
  · obtain ⟨c, hc, hn⟩ : ∃ c ∈ cs, digit? base c = none := by
      by_contra hall
      exact hd fun c hc => Option.isSome_iff_ne_none.mpr fun hn => hall ⟨c, hc, hn⟩
    rw [mapM_digit?_eq_none hc hn, Option.map_none]
    constructor
    · intro h
      cases h
    · intro h
      exact absurd h.1.2 hd

theorem ofNat_eq_ok_iff {n : Nat} {l : NumberLiteral} :
    ofNat raw n = .ok l ↔ n < Word.capacity ∧ l = ⟨BitVec.ofNat 256 n, raw, none⟩ := by
  by_cases h : n < Word.capacity
  · rw [ofNat_of_lt raw h, Except.ok.injEq, eq_comm]
    exact ⟨fun hl => ⟨h, hl⟩, fun hl => hl.2⟩
  · rw [ofNat, Word.ofNat?, if_neg h]
    constructor
    · intro hl
      cases hl
    · intro hl
      exact absurd hl.1 h

/-- **Behind a base mark stand digits of the base**, less one more mark in front of them, and their
positional value is a word; nothing else is read. -/
theorem readBased_eq_ok_iff {l : NumberLiteral} :
    readBased base letter malformed raw = .ok l ↔
      DigitsOf base (withoutMark letter (raw.toList.drop 2)) ∧
        positional base (withoutMark letter (raw.toList.drop 2)) < Word.capacity ∧
        l = ⟨BitVec.ofNat 256 (positional base (withoutMark letter (raw.toList.drop 2))), raw,
          none⟩ := by
  rw [readBased]
  by_cases he : raw.toList.drop 2 = []
  · have hno : ¬DigitsOf base (withoutMark letter (raw.toList.drop 2)) := by
      rw [he]
      exact fun h => h.1 rfl
    simp only [he, List.isEmpty_nil, if_true, reduceCtorEq, false_iff]
    exact fun h => hno (he ▸ h.1)
  simp only [List.isEmpty_iff, if_neg he]
  cases hn : integer? base (withoutMark letter (raw.toList.drop 2)) with
  | none =>
    constructor
    · intro h
      cases h
    · intro h
      rw [integer?_eq_some_iff.mpr ⟨h.1, rfl⟩] at hn
      cases hn
  | some n =>
    obtain ⟨hd, rfl⟩ := integer?_eq_some_iff.mp hn
    rw [ofNat_eq_ok_iff]
    exact ⟨fun h => ⟨hd, h⟩, fun h => h.2⟩

end NumberLiteral

/-! ### Tokens -/

namespace Lexeme

/-- The text of a number with a base mark begins with a zero and the mark. -/
theorem number_base {c : Char} {cs : List Char} {k : TokenKind} {l : Lexeme} {base : Nat}
    {letter : Char} (h : number (c :: cs) = (k, l)) (hk : k.base? = some (base, letter)) :
    ∃ mark ds, l.text = '0' :: mark :: ds ∧ mark.toLower = letter := by
  rw [number.eq_def] at h
  split at h <;> cases h <;> cases hk
  · exact ⟨'x', _, rfl, rfl⟩
  · exact ⟨'X', _, rfl, rfl⟩
  · exact ⟨'b', _, rfl, rfl⟩
  · exact ⟨'B', _, rfl, rfl⟩

end Lexeme

namespace Token

open NumberLiteral

theorem isNumeric_of_base {k : TokenKind} {base : Nat} {letter : Char}
    (h : k.base? = some (base, letter)) : Abi.isNumeric k = true := by
  cases k <;> first | rfl | cases h

/-- Such a token is read by the rules for its base. -/
theorem ofToken_of_base {t : Token} {base : Nat} {letter : Char}
    (hk : t.kind.base? = some (base, letter)) :
    ∃ malformed, ofToken t = (readBased base letter malformed t.text).mapError
      fun cause => ⟨.literal cause, some t.position⟩ := by
  rw [ofToken]
  cases hkind : t.kind <;> rw [hkind] at hk <;> cases hk
  · exact ⟨.notHex, rfl⟩
  · exact ⟨.notBinary, rfl⟩

/-- **What is read of a number token with a base mark.**  Its text is a zero, the mark and characters
of words.  If these characters, less one more such mark in front of them if there is one, are one or
more digits of the base and their positional value is a word, then the token is read as this value,
and in no other case.  Otherwise it is refused as a malformed literal. -/
theorem read_based {t : Token} (h : t.Produced) {base : Nat} {letter : Char}
    (hk : t.kind.base? = some (base, letter)) :
    let ds := t.text.toList.drop 2
    let body := withoutMark letter ds
    (∃ mark, mark.toLower = letter ∧ t.text.toList = '0' :: mark :: ds) ∧
    ((∃ l, ofToken t = .ok l) ↔ DigitsOf base body ∧ positional base body ≤ 2 ^ 256 - 1) ∧
    (∀ l, ofToken t = .ok l → l.value.toNat = positional base body) ∧
    ∀ e, ofToken t = .error e → ∃ cause, e = ⟨.literal cause, some t.position⟩ := by
  intro ds body
  obtain ⟨malformed, hread⟩ := ofToken_of_base hk
  have hcapacity : Word.capacity = 2 ^ 256 := rfl
  have hok : ∀ l, ofToken t = .ok l ↔ DigitsOf base body ∧
      positional base body < Word.capacity ∧
      l = ⟨BitVec.ofNat 256 (positional base body), t.text, none⟩ := by
    intro l
    rw [hread, mapError_eq_ok, readBased_eq_ok_iff]
  refine ⟨?_, ⟨?_, ?_⟩, ?_, ?_⟩
  · obtain ⟨c, cs, l, -, hn, ht⟩ := h.of_numeric (isNumeric_of_base hk)
    obtain ⟨mark, rest, hl, hm⟩ := Lexeme.number_base hn hk
    have htext : t.text.toList = '0' :: mark :: rest := by rw [ht, String.toList_ofList, hl]
    have hds : ds = rest := by
      change t.text.toList.drop 2 = rest
      rw [htext, List.drop_succ_cons, List.drop_succ_cons, List.drop_zero]
    exact ⟨mark, hm, by rw [hds, htext]⟩
  · rintro ⟨l, hl⟩
    obtain ⟨hd, hlt, -⟩ := (hok l).mp hl
    exact ⟨hd, by omega⟩
  · rintro ⟨hd, hle⟩
    exact ⟨_, (hok _).mpr ⟨hd, by omega, rfl⟩⟩
  · intro l hl
    obtain ⟨-, hlt, rfl⟩ := (hok l).mp hl
    exact Word.toNat_ofNat_of_lt hlt
  · intro e he
    rw [hread] at he
    cases hr : readBased base letter malformed t.text with
    | ok l =>
      rw [hr] at he
      cases he
    | error cause =>
      rw [hr] at he
      cases he
      exact ⟨cause, rfl⟩

/-- Digits behind a binary mark, grouped by an underscore. -/
theorem read_based_five :
    ofLine "0B1_01" = .ok [⟨.binaryNumber, "0B101", 0⟩, ⟨.stop, "", 6⟩] ∧
    ∃ l, ofToken ⟨.binaryNumber, "0B101", 0⟩ = .ok l ∧ l.value.toNat = 5 := by
  let t : Token := ⟨.binaryNumber, "0B101", 0⟩
  have h : ofLine "0B1_01" = .ok [t, ⟨.stop, "", 6⟩] := by
    decide +kernel
  have ht : t.Produced := produced_of_mem h (by simp) (by decide)
  have hbody : withoutMark 'b' (t.text.toList.drop 2) = ['1', '0', '1'] := by
    decide +kernel
  have hdigits : DigitsOf 2 ['1', '0', '1'] := by decide
  have hfive : positional 2 ['1', '0', '1'] = 5 := by decide +kernel
  have hk : t.kind.base? = some (2, 'b') := rfl
  obtain ⟨-, hok, hv, -⟩ := read_based ht hk
  rw [hbody, hfive] at hok hv
  obtain ⟨l, hl⟩ := hok.mpr ⟨hdigits, by norm_num⟩
  exact ⟨h, l, hl, hv l hl⟩

/-- **A mark may stand twice**: the letter of the second mark is no digit, and yet the token is a
number. -/
theorem read_marked_twice :
    ofLine "0x0x12" = .ok [⟨.hexNumber, "0x0x12", 0⟩, ⟨.stop, "", 6⟩] ∧
    ¬DigitsOf 16 ("0x0x12".toList.drop 2) ∧
    ∃ l, ofToken ⟨.hexNumber, "0x0x12", 0⟩ = .ok l ∧ l.value.toNat = 18 := by
  have hbody : withoutMark 'x' ("0x0x12".toList.drop 2) = ['1', '2'] := by
    decide +kernel
  have hdigits : DigitsOf 16 ['1', '2'] := by decide
  have hvalue : positional 16 ['1', '2'] = 18 := by decide +kernel
  have hbehind : "0x0x12".toList.drop 2 = ['0', 'x', '1', '2'] := by
    decide +kernel
  have hread : readBased 16 'x' .notHex "0x0x12" = .ok ⟨BitVec.ofNat 256 18, "0x0x12", none⟩ := by
    rw [readBased_eq_ok_iff, hbody, hvalue]
    exact ⟨hdigits, by norm_num [Word.capacity], rfl⟩
  refine ⟨by decide +kernel, ?_, ⟨BitVec.ofNat 256 18, "0x0x12", none⟩, ?_, rfl⟩
  · rw [hbehind]
    decide
  · change (readBased 16 'x' .notHex "0x0x12").mapError
      (fun cause => EvalError.mk (.literal cause) (some 0)) = _
    exact mapError_eq_ok.mpr hread

end Token

end WeiCalc

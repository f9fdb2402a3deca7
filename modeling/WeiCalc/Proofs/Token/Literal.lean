import Mathlib
import WeiCalc.Proofs.Abi.Split
import WeiCalc.Proofs.Hex
import WeiCalc.Proofs.Token.Numeral

/-!
# Number literals by themselves

A number literal is a text that is read as one number, with nothing around it.  Only a few characters
occur in such a text, none of which means anything in a list of arguments, so that a literal stands
for itself there and for its number.

* `NumberText.isNumberChar`: the characters of a number literal.
* `NumberText.bare`: **a number literal stands for itself in a list of arguments.**
* `NumberText.integerOfText`: it is read as the integer that is its value.
* `NumberText.toNat_of_hex`: its value, if it is written in hexadecimal digits.
-/

namespace WeiCalc

namespace Lexeme

/-! ### The characters of numbers -/

/-- The characters that numbers are written with. -/
def isNumberChar (c : Char) : Bool :=
  isWord c || c == '.' || c == '+' || c == '-'

theorem isNumberChar_of_isWord {c : Char} (h : (isWord c || c == '_') = true) :
    isNumberChar c = true := by
  have hw : isWord c = true := by
    rcases Bool.or_eq_true_iff.mp h with h | h
    · exact h
    · rw [isWord, h, Bool.or_true]
  rw [isNumberChar, hw]
  rfl

theorem isWord_of_isDigit {c : Char} (h : c.isDigit = true) : isWord c = true := by
  rw [isWord, Char.isAlphanum, h, Bool.or_true, Bool.true_or]

theorem isNumberChar_of_isMember {c : Char} (h : (c.isDigit || c == '_') = true) :
    isNumberChar c = true := by
  refine isNumberChar_of_isWord (Bool.or_eq_true_iff.mpr ?_)
  exact (Bool.or_eq_true_iff.mp h).imp isWord_of_isDigit id

theorem toNat_of_isWord {c : Char} (h : isWord c = true) :
    (48 ≤ c.toNat ∧ c.toNat ≤ 57) ∨ (65 ≤ c.toNat ∧ c.toNat ≤ 90) ∨
      (97 ≤ c.toNat ∧ c.toNat ≤ 122) ∨ c.toNat = 95 := by
  simp only [isWord, Char.isAlphanum, Char.isAlpha, Char.isUpper, Char.isLower, Bool.or_eq_true,
    Bool.and_eq_true, decide_eq_true_eq, UInt32.le_iff_toNat_le, ge_iff_le, beq_iff_eq] at h
  rcases h with ((h | h) | h) | rfl
  · exact Or.inr (Or.inl h)
  · exact Or.inr (Or.inr (Or.inl h))
  · exact Or.inl (toNat_of_isDigit h)
  · exact Or.inr (Or.inr (Or.inr rfl))

/-- A number has no comma, no white space and no quotes. -/
theorem plain_of_isNumberChar {c : Char} (h : isNumberChar c = true) :
    c ≠ ',' ∧ Text.isBlank c = false ∧ isQuote c = false := by
  simp only [isNumberChar, Bool.or_eq_true, beq_iff_eq, or_assoc] at h
  rcases h with h | rfl | rfl | rfl
  · have hn := toNat_of_isWord h
    refine ⟨?_, ?_, ?_⟩
    · rintro rfl
      exact absurd h (by decide)
    · simp only [Text.isBlank, Bool.or_eq_false_iff, Bool.and_eq_false_iff, decide_eq_false_iff_not,
        beq_eq_false_iff_ne]
      omega
    · exact not_isQuote h (by decide)
  all_goals decide

theorem isWord_of_hex {c : Char} (h : Hex.isDigit c = true) : isWord c = true ∧ c ≠ '_' := by
  have hc := Hex.toNat_of_isDigit h
  refine ⟨?_, ?_⟩
  · simp only [isWord, Char.isAlphanum, Char.isAlpha, Char.isUpper, Char.isLower, Char.isDigit,
      Bool.or_eq_true, Bool.and_eq_true, decide_eq_true_eq, UInt32.le_iff_toNat_le, ge_iff_le]
    change (((65 ≤ c.toNat ∧ c.toNat ≤ 90) ∨ (97 ≤ c.toNat ∧ c.toNat ≤ 122)) ∨
      (48 ≤ c.toNat ∧ c.toNat ≤ 57)) ∨ _
    omega
  · rintro rfl
    exact absurd h (by decide)

/-- Hexadecimal digits behind a mark have no underscores to lose. -/
theorem based_hex (mark : Char) {ds : List Char} (h : ∀ d ∈ ds, Hex.isDigit d = true) :
    based mark ds = ⟨'0' :: mark :: ds, ('0' :: mark :: ds).length⟩ := by
  have hrun : (ds.takeWhile fun c => isWord c || c == '_') = ds :=
    List.takeWhile_eq_self_iff.mpr fun d hd => by rw [(isWord_of_hex (h d hd)).1, Bool.true_or]
  have hfilter : ds.filter (· != '_') = ds :=
    List.filter_eq_self.mpr fun d hd => bne_iff_ne.mpr (isWord_of_hex (h d hd)).2
  rw [based, append, grouped, hrun, hfilter, List.length_cons, List.length_cons, Nat.add_comm]
  rfl

/-! ### What a number takes up -/

theorem take_takeWhile (p : Char → Bool) (cs : List Char) :
    cs.take (cs.takeWhile p).length = cs.takeWhile p :=
  (List.prefix_iff_eq_take.mp (List.takeWhile_prefix p)).symm

theorem take_digits (cs : List Char) : ∀ c ∈ cs.take (digits cs).width, isNumberChar c = true := by
  intro c hc
  rw [digits, grouped, take_takeWhile] at hc
  exact isNumberChar_of_isMember (List.mem_takeWhile_imp (p := fun c => c.isDigit || c == '_') hc)

theorem take_fraction (cs : List Char) :
    ∀ c ∈ cs.take (fraction cs).width, isNumberChar c = true := by
  rw [fraction.eq_def]
  split
  · rename_i d ds
    split
    · intro c hc
      rw [append, Nat.add_comm, List.take_succ_cons] at hc
      rcases List.mem_cons.mp hc with rfl | hc
      · rfl
      · exact take_digits _ c hc
    · exact fun c hc => absurd hc List.not_mem_nil
  · exact fun c hc => absurd hc List.not_mem_nil

@[simp] theorem take_sign (cs : List Char) : cs.take (sign cs).length = sign cs := by
  rw [sign.eq_def]
  split <;> rfl

theorem take_exponent (cs : List Char) :
    ∀ c ∈ cs.take (exponent cs).width, isNumberChar c = true := by
  rw [exponent.eq_def]
  split
  · rename_i m ds
    intro c hc
    by_cases hm : (m == 'e' || m == 'E') = true
    · rw [if_pos hm] at hc
      dsimp only at hc
      split at hc
      · exact absurd hc List.not_mem_nil
      · rw [Nat.add_assoc, Nat.add_comm 1, List.take_succ_cons, List.take_add, take_sign,
          take_takeWhile] at hc
        have hs : ∀ c ∈ sign ds, isNumberChar c = true := by
          rcases sign_cases ds with h | h | h <;> simp [h, isNumberChar]
        rcases List.mem_cons.mp hc with rfl | hc
        · rw [Bool.or_eq_true, beq_iff_eq, beq_iff_eq] at hm
          rcases hm with rfl | rfl <;> rfl
        rcases List.mem_append.mp hc with hc | hc
        · exact hs c hc
        · refine isNumberChar_of_isMember ?_
          rw [List.mem_takeWhile_imp hc, Bool.true_or]
    · rw [if_neg hm] at hc
      exact absurd hc List.not_mem_nil
  · exact fun c hc => absurd hc List.not_mem_nil

theorem take_decimal (cs : List Char) :
    ∀ c ∈ cs.take (decimal cs).width, isNumberChar c = true := by
  intro c hc
  simp only [decimal, append, List.take_add, List.mem_append] at hc
  rcases hc with (hc | hc) | hc
  · exact take_digits _ c hc
  · exact take_fraction _ c hc
  · exact take_exponent _ c hc

/-- **What a number takes up is written with the characters of numbers.** -/
theorem take_number {cs : List Char} {k : TokenKind} {l : Lexeme} (h : number cs = (k, l)) :
    ∀ c ∈ cs.take l.width, isNumberChar c = true := by
  rcases number_cases cs with ⟨m, ds, rfl, hm⟩ | hd
  · obtain ⟨k', hk⟩ := number_of_isBaseMark hm
    rw [hk] at h
    have hwidth : l.width = (ds.takeWhile fun c => isWord c || c == '_').length + 2 := by
      rw [← (Prod.mk.inj h).2]
      exact Nat.add_comm _ _
    intro c hc
    rw [hwidth, List.take_succ_cons, List.take_succ_cons, take_takeWhile] at hc
    rcases List.mem_cons.mp hc with rfl | hc
    · rfl
    rcases List.mem_cons.mp hc with rfl | hc
    · simp only [isBaseMark, Bool.or_eq_true, beq_iff_eq, or_assoc] at hm
      rcases hm with rfl | rfl | rfl | rfl <;> rfl
    · exact isNumberChar_of_isWord
        (List.mem_takeWhile_imp (p := fun c => isWord c || c == '_') hc)
  · rw [hd] at h
    rw [← (Prod.mk.inj h).2]
    exact take_decimal cs

end Lexeme

namespace Abi

theorem isNumeric_cases {k : TokenKind} (h : isNumeric k = true) :
    k = .number ∨ k = .hexNumber ∨ k = .binaryNumber := by
  simpa only [isNumeric, Bool.or_eq_true, decide_eq_true_eq, or_assoc] using h

theorem integerOfText_of_numeric {text : String} {t stop : Token} {l : NumberLiteral}
    (hr : Token.ofLine (Text.trimmed text) = .ok [t, stop]) (hk : isNumeric t.kind = true)
    (hl : NumberLiteral.ofToken t = .ok l) : integerOfText text = .ok l.value.toNat := by
  obtain ⟨kind, contents, position⟩ := t
  rw [integerOfText, hr]
  -- None of the three kinds is a minus in front of the number.
  rcases isNumeric_cases hk with rfl | rfl | rfl
  all_goals
    show (NumberLiteral.ofToken _ >>= fun l => pure (l.value.toNat : Int)) = _
    rw [hl]
    rfl

end Abi

/-! ### Literals -/

/-- A number literal: a text that is read as one number, without white space around it. -/
structure NumberText where
  text : String
  token : Token
  stop : Token
  literal : NumberLiteral
  reads : Token.ofLine text = .ok [token, stop]
  isNumeric : Abi.isNumeric token.kind = true
  value : NumberLiteral.ofToken token = .ok literal
  compact : ∀ c ∈ text.toList, Lexeme.isSpace c = false

namespace NumberText

/-- The number of a literal. -/
def toNat (x : NumberText) : Nat :=
  x.literal.value.toNat

variable (x : NumberText)

/-- The number of a literal is what its text says. -/
theorem toNat_eq {t stop : Token} {l : NumberLiteral} (hr : Token.ofLine x.text = .ok [t, stop])
    (hl : NumberLiteral.ofToken t = .ok l) : x.toNat = l.value.toNat := by
  rw [x.reads] at hr
  have hv := x.value
  rw [(List.cons.inj (Except.ok.inj hr)).1, hl] at hv
  rw [toNat, Except.ok.inj hv]

/-- A literal is one number from its first character to its last. -/
theorem eq_number : ∃ c cs l, x.text.toList = c :: cs ∧ c.isDigit = true ∧
    Lexeme.number (c :: cs) = (x.token.kind, l) ∧ x.token.text = String.ofList l.text ∧
    (c :: cs).take l.width = c :: cs := by
  obtain ⟨g, c, cs, l, ht, hg, hc, hl, hv, -, hd⟩ := Token.ofLine_of_numeric x.reads x.isNumeric
  -- White space of the line would be white space of the literal.
  have hnil : ∀ {ds : List Char}, (∀ d ∈ ds, Lexeme.isSpace d = true) → ds ⊆ x.text.toList →
      ds = [] := by
    intro ds hs hsub
    refine List.eq_nil_iff_forall_not_mem.mpr fun d hm => ?_
    have hcompact := x.compact d (hsub hm)
    rw [hs d hm] at hcompact
    cases hcompact
  rw [ht] at hnil
  have hgap : g = [] := hnil hg (List.subset_append_left ..)
  have hbehind : (c :: cs).drop l.width = [] :=
    hnil hd fun d hm => List.mem_append_right _ (List.mem_of_mem_drop hm)
  refine ⟨c, cs, l, ?_, hc, hl, hv, ?_⟩
  · rw [ht, hgap, List.nil_append]
  · exact List.take_of_length_le (List.drop_eq_nil_iff.mp hbehind)

theorem isNumberChar : ∀ c ∈ x.text.toList, Lexeme.isNumberChar c = true := by
  obtain ⟨c, cs, l, ht, -, hl, -, hw⟩ := x.eq_number
  intro d hd
  rw [ht, ← hw] at hd
  exact Lexeme.take_number hl d hd

/-- **A number literal stands for itself in a list of arguments.** -/
theorem bare : Abi.Bare x.text := by
  obtain ⟨c, cs, -, ht, -⟩ := x.eq_number
  refine ⟨?_, fun d hd => Lexeme.plain_of_isNumberChar (x.isNumberChar d hd)⟩
  rw [ht]
  exact List.cons_ne_nil c cs

/-- A number literal is read as the integer that is its value. -/
@[simp] theorem integerOfText : Abi.integerOfText x.text = .ok x.toNat := by
  have ht : Text.trimmed x.text = x.text := by
    rw [Text.trimmed, x.bare.trim, String.ofList_toList]
  have hr : Token.ofLine (Text.trimmed x.text) = .ok [x.token, x.stop] := by rw [ht, x.reads]
  exact Abi.integerOfText_of_numeric hr x.isNumeric x.value

/-- Hexadecimal digits behind a mark are the digits of the literal's number. -/
theorem toNat_of_hex {mark : Char} {ds : List Char} (ht : x.text.toList = '0' :: mark :: ds)
    (hm : mark = 'x' ∨ mark = 'X') (h : ∀ d ∈ ds, Hex.isDigit d = true) :
    x.toNat = Hex.number ds := by
  obtain ⟨c, cs, l, ht', -, hl, hv, -⟩ := x.eq_number
  have hnum : Lexeme.number ('0' :: mark :: ds) = (.hexNumber, Lexeme.based mark ds) := by
    rcases hm with rfl | rfl <;> rfl
  rw [← ht', ht, hnum] at hl
  obtain ⟨hk, rfl⟩ := Prod.mk.inj hl
  have hraw : x.token.text.toList = '0' :: mark :: ds := by
    rw [hv, String.toList_ofList, Lexeme.based_hex mark h]
  have hvalue := x.value
  rw [NumberLiteral.ofToken, ← hk] at hvalue
  exact Hex.readBased_digits hraw h (mapError_eq_ok.mp hvalue)

end NumberText

end WeiCalc

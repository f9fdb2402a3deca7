import Mathlib
import WeiCalc.Proofs.Arithmetic
import WeiCalc.Proofs.Token.Numeral

/-!
# Decimal numbers are read exactly

A decimal number token is the text of a numeral.  Reading it compares the exponent with the length of
the mantissa, zeros in front, the point and the digits behind it included, and does not work out the
power of ten if the two are far apart.  Whatever the layout of the mantissa is, both decisions are
those that the exact value asks for.

* `NumberLiteral.readDecimal_of_le`: a numeral that rounds to no word is refused.
* `NumberLiteral.readDecimal_value`: **the decisions about the exponent change neither the integer that
  is read nor the refusal.**
* `Token.read_decimal`: **what is read of a decimal number token.**
-/

namespace WeiCalc

namespace NumberLiteral

theorem ofRat_of_le {q : Rat} (raw : String) (h : Word.capacity ≤ rounded q) :
    ofRat raw q = .error (.tooWide raw) := by
  rw [ofRat, Word.ofNat?, if_neg (not_lt.mpr h)]

theorem value_nearest {q : Rat} (raw : String) (h : rounded q < Word.capacity) :
    (nearest raw q).value.toNat = rounded q :=
  Word.toNat_ofNat_of_lt h

variable {m : Numeral} {raw : String}

/-- A numeral that rounds to no word is refused. -/
theorem readDecimal_of_le (hm : m.text = raw.toList) (hl : raw.length ≤ greatestLength)
    (hf : Word.capacity ≤ rounded m.value) : readDecimal raw = .error (.tooWide raw) := by
  have hs : Decimal.significand ⟨m.mantissa, m.exponent⟩ = Text.ofDecimal m.digits := by
    rw [Decimal.significand, Decimal.natural, m.filter_mantissa]
  -- The number is not zero, so neither the mantissa nor what is kept of the value is.
  have hpos : rounded 0 < Word.capacity := by
    rw [rounded_zero]
    decide
  have hd : Text.ofDecimal m.digits ≠ 0 := by
    intro hd
    have hv : m.value = 0 := by rw [m.value_eq, hd, Nat.cast_zero, zero_mul]
    rw [hv] at hf
    exact absurd hf (not_le.mpr hpos)
  have hn : ¬ m.exponent + m.mantissa.length < -1 := by
    intro hn
    have hk : m.kept = 0 := if_pos hn
    rw [← m.rounded_kept, hk] at hf
    exact absurd hf (not_le.mpr hpos)
  rw [readDecimal, ← hm, m.ofText_text]
  simp only [hs]
  rw [if_neg (by rw [hm]; exact not_lt.mpr hl), if_neg hd]
  by_cases hw : 80 < m.exponent - m.mantissa.length
  · rw [if_pos hw]
  · rw [if_neg hw, if_neg hn, m.decimal_value]
    exact ofRat_of_le raw hf

/-- **The decisions about the exponent change neither the integer that is read nor the refusal.** -/
theorem readDecimal_value (hm : m.text = raw.toList) (hl : raw.length ≤ greatestLength) :
    (readDecimal raw).map value = (ofRat raw m.value).map value := by
  rcases lt_or_ge (rounded m.value) Word.capacity with hf | hf
  · rw [readDecimal_numeral hm hl hf, ofRat_of_lt raw hf]
    simp only [Except.map, nearest, m.rounded_kept]
  · rw [readDecimal_of_le hm hl hf, ofRat_of_le raw hf]

end NumberLiteral

namespace Token

open NumberLiteral

/-- **What is read of a decimal number token.**  The token is the text of a numeral, and whatever
numeral it is the text of, it is read as the nearest integer to the value, a half going up, if that is
a word; otherwise it is refused as a malformed literal.  Both are as if the value were worked out in
any case. -/
theorem read_decimal {t : Token} (h : t.Produced) (hk : t.kind = .number)
    (hl : t.text.length ≤ 1000) :
    (∃ m : Numeral, m.text = t.text.toList) ∧
    ∀ m : Numeral, m.text = t.text.toList →
      (⌊m.value + 1 / 2⌋ ≤ 2 ^ 256 - 1 →
        ∃ l, ofToken t = .ok l ∧ (l.value.toNat : Int) = ⌊m.value + 1 / 2⌋) ∧
      (2 ^ 256 - 1 < ⌊m.value + 1 / 2⌋ →
        ∃ cause, ofToken t = .error ⟨.literal cause, some t.position⟩) ∧
      (readDecimal t.text).map value = (ofRat t.text m.value).map value := by
  have hread : ofToken t =
      (readDecimal t.text).mapError fun cause => ⟨.literal cause, some t.position⟩ := by
    rw [ofToken, hk]
  have hcapacity : (Word.capacity : Int) = 2 ^ 256 := rfl
  constructor
  · obtain ⟨c, cs, l, hc, hn, ht⟩ := h.of_numeric (by rw [hk]; rfl)
    rw [ht, String.toList_ofList]
    exact Lexeme.exists_numeral hc (by rw [hn, hk])
  intro m hm
  have hround := rounded_eq_floor m.value_nonneg
  refine ⟨fun hf => ?_, fun hf => ?_, readDecimal_value hm hl⟩
  · have hlt : rounded m.value < Word.capacity := by omega
    refine ⟨nearest t.text m.kept, ?_, ?_⟩
    · rw [hread, readDecimal_numeral hm hl hlt]
      rfl
    · rw [value_nearest _ (by rwa [m.rounded_kept]), m.rounded_kept, hround]
  · have hle : Word.capacity ≤ rounded m.value := by omega
    rw [hread, readDecimal_of_le hm hl hle]
    exact ⟨_, rfl⟩

/-- Two numbers whose power of ten is not worked out: one is nothing, and one is no word. -/
theorem read_decimal_apart :
    ofLine "1e-3+01e83" = .ok
      [⟨.number, "1e-3", 0⟩, ⟨.plus, "+", 4⟩, ⟨.number, "01e83", 5⟩, ⟨.stop, "", 10⟩] ∧
    (∃ l, ofToken ⟨.number, "1e-3", 0⟩ = .ok l ∧ (l.value.toNat : Int) = 0) ∧
    ∃ cause, ofToken ⟨.number, "01e83", 5⟩ = .error ⟨.literal cause, some 5⟩ := by
  let small : Token := ⟨.number, "1e-3", 0⟩
  let great : Token := ⟨.number, "01e83", 5⟩
  have h : ofLine "1e-3+01e83" = .ok [small, ⟨.plus, "+", 4⟩, great, ⟨.stop, "", 10⟩] := by
    decide +kernel
  have hsmall : small.Produced := produced_of_mem h (by simp) (by decide)
  have hgreat : great.Produced := produced_of_mem h (by simp) (by decide)
  let m : Numeral := ⟨⟨['1'], by decide, by simp⟩, none,
    some ⟨'e', by decide, ['-'], by decide, ⟨['3'], by decide, by simp⟩⟩⟩
  let n : Numeral := ⟨⟨['0', '1'], by decide, by simp⟩, none,
    some ⟨'e', by decide, [], by decide, ⟨['8', '3'], by decide, by simp⟩⟩⟩
  have hmtext : m.text = "1e-3".toList := by decide +kernel
  have hntext : n.text = "01e83".toList := by decide +kernel
  have hm : m.value = 1 / 1000 := by
    change ((1 : Nat) + (0 : Rat)) * 10 ^ (-3 : Int) = 1 / 1000
    norm_num
  have hn : n.value = 10 ^ 83 := by
    change ((1 : Nat) + (0 : Rat)) * 10 ^ (83 : Int) = 10 ^ 83
    norm_num
  have hmfloor : ⌊m.value + 1 / 2⌋ = 0 := by
    rw [hm]
    norm_num
  have hnfloor : ⌊n.value + 1 / 2⌋ = 10 ^ 83 := by
    rw [hn]
    norm_num
  have hlsmall : "1e-3".length ≤ 1000 := by decide +kernel
  have hlgreat : "01e83".length ≤ 1000 := by decide +kernel
  obtain ⟨l, hl, hv⟩ := ((read_decimal hsmall rfl hlsmall).2 m hmtext).1
    (by rw [hmfloor]; norm_num)
  rw [hmfloor] at hv
  refine ⟨h, ⟨l, hl, hv⟩, ?_⟩
  exact ((read_decimal hgreat rfl hlgreat).2 n hntext).2.1 (by rw [hnfloor]; norm_num)

end Token

end WeiCalc

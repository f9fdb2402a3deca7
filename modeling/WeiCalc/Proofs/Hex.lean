import Mathlib
import WeiCalc.Number
import WeiCalc.Proofs.Abi.Bytes
import WeiCalc.Proofs.Numeral

/-!
# Hexadecimal digits

A row of hexadecimal digits writes a number, and if it is of even length also bytes.  The bytes are
those of the number.

* `Hex.bytes?_digits`: **an even number of digits is read as the bytes of their number.**
* `Hex.integer?_digits`: the digits are read as their number.
* `Hex.isGap_or_isDigit_of_bytes?`: bytes may have gaps between them; `Hex.integer?_eq_none`: numbers
  may not.
-/

namespace WeiCalc

/-! ### Digits of a base -/

namespace NumberLiteral

variable {base : Nat} {cs : List Char}

theorem mapM_digit?_of_forall (h : ∀ c ∈ cs, (digit? base c).isSome = true) :
    cs.mapM (digit? base) = some (cs.map fun c => (digit? base c).getD 0) := by
  induction cs with
  | nil => rfl
  | cons c cs ih =>
    obtain ⟨n, hn⟩ := Option.isSome_iff_exists.mp (h c (List.mem_cons_self ..))
    rw [List.mapM_cons, hn, ih fun d hd => h d (List.mem_cons_of_mem _ hd), List.map_cons, hn]
    rfl

theorem mapM_digit?_eq_none {c : Char} (hc : c ∈ cs) (hd : digit? base c = none) :
    cs.mapM (digit? base) = none := by
  induction cs with
  | nil => exact absurd hc List.not_mem_nil
  | cons d ds ih =>
    rw [List.mapM_cons]
    rcases List.mem_cons.mp hc with rfl | hc
    · rw [hd]
      rfl
    · rw [ih hc]
      cases digit? base d <;> rfl

end NumberLiteral

namespace Hex

/-- The number that digits write. -/
def number (ds : List Char) : Nat :=
  Text.ofDigits 16 (ds.map fun d => (value? d).getD 0)

/-! ### Single digits -/

theorem toNat_of_value? {c : Char} {n : Nat} (h : value? c = some n) :
    (c.toNat = n + 48 ∧ n < 10) ∨ (c.toNat = n + 87 ∧ 10 ≤ n ∧ n < 16) ∨
      (c.toNat = n + 55 ∧ 10 ≤ n ∧ n < 16) := by
  simp only [value?, Char.le_def, UInt32.le_iff_toNat_le] at h
  change (if 48 ≤ c.toNat ∧ c.toNat ≤ 57 then some (c.toNat - 48)
    else if 97 ≤ c.toNat ∧ c.toNat ≤ 102 then some (c.toNat - 87)
    else if 65 ≤ c.toNat ∧ c.toNat ≤ 70 then some (c.toNat - 55) else none) = some n at h
  split_ifs at h <;> cases h <;> omega

theorem exists_value {c : Char} (h : isDigit c = true) : ∃ n, value? c = some n ∧ n < 16 := by
  obtain ⟨n, hn⟩ := Option.isSome_iff_exists.mp h
  refine ⟨n, hn, ?_⟩
  have hc := toNat_of_value? hn
  omega

theorem toNat_of_isDigit {c : Char} (h : isDigit c = true) :
    (48 ≤ c.toNat ∧ c.toNat ≤ 57) ∨ (65 ≤ c.toNat ∧ c.toNat ≤ 70) ∨
      (97 ≤ c.toNat ∧ c.toNat ≤ 102) := by
  obtain ⟨n, hn, -⟩ := exists_value h
  have hc := toNat_of_value? hn
  omega

theorem not_isGap {c : Char} (h : isDigit c = true) : isGap c = false := by
  have hc := toNat_of_isDigit h
  rw [isGap, Bool.or_eq_false_iff, beq_eq_false_iff_ne, Bool.and_eq_false_iff,
    decide_eq_false_iff_not, decide_eq_false_iff_not, Char.le_def, Char.le_def,
    UInt32.le_iff_toNat_le, UInt32.le_iff_toNat_le]
  change c ≠ ' ' ∧ (¬ 9 ≤ c.toNat ∨ ¬ c.toNat ≤ 13)
  refine ⟨?_, by omega⟩
  rintro rfl
  exact absurd h (by decide)

/-- No digit is the letter of the mark. -/
theorem toLower_ne_mark {c : Char} (h : isDigit c = true) : c.toLower ≠ 'x' := by
  by_cases hu : c.isUpper = true
  · have hc := toNat_of_isDigit h
    have hlo : 65 ≤ c.toNat ∧ c.toNat ≤ 90 := by
      simpa [Char.isUpper, UInt32.le_iff_toNat_le] using hu
    have hhi : c.toNat ≤ 70 := by omega
    obtain ⟨hlo, -⟩ := hlo
    rw [Char.toLower_eq_of_isUpper hu]
    interval_cases c.toNat <;> decide
  · rw [Char.toLower_eq_of_not_isUpper hu]
    rintro rfl
    exact absurd h (by decide)

/-! ### Rows of digits -/

theorem number_cons (d : Char) (ds : List Char) :
    number (d :: ds) = (value? d).getD 0 * 16 ^ ds.length + number ds := by
  rw [number, List.map_cons, Text.ofDigits, List.foldl_cons, Text.foldl_ofDigits, List.length_map,
    Nat.mul_zero, Nat.zero_add]
  rfl

/-- The digits are read as their number. -/
theorem integer?_digits {ds : List Char} (hne : ds ≠ []) (h : ∀ d ∈ ds, isDigit d = true) :
    NumberLiteral.integer? 16 ds = some (number ds) := by
  have hdigit : ∀ d ∈ ds, NumberLiteral.digit? 16 d = value? d := by
    intro d hd
    obtain ⟨n, hn, hlt⟩ := exists_value (h d hd)
    rw [NumberLiteral.digit?, hn]
    simp [hlt]
  have hsome : ∀ d ∈ ds, (NumberLiteral.digit? 16 d).isSome = true := by
    intro d hd
    rw [hdigit d hd]
    exact h d hd
  have hmap : (ds.map fun d => (NumberLiteral.digit? 16 d).getD 0) =
      ds.map fun d => (value? d).getD 0 :=
    List.map_congr_left fun d hd => by rw [hdigit d hd]
  rw [NumberLiteral.integer?, if_neg (by rw [List.isEmpty_iff]; exact hne),
    NumberLiteral.mapM_digit?_of_forall hsome, hmap]
  rfl

theorem withoutMark_digits {ds : List Char} (h : ∀ d ∈ ds, isDigit d = true) :
    NumberLiteral.withoutMark 'x' ds = ds := by
  rw [NumberLiteral.withoutMark.eq_def]
  split
  · rename_i c cs
    exact if_neg (toLower_ne_mark (h c (by simp)))
  · rfl

/-- Digits behind a mark are read as their number. -/
theorem readBased_digits {raw : String} {zero mark : Char} {ds : List Char}
    (hr : raw.toList = zero :: mark :: ds) (h : ∀ d ∈ ds, isDigit d = true)
    {malformed : String → LiteralCause} {l : NumberLiteral}
    (hl : NumberLiteral.readBased 16 'x' malformed raw = .ok l) : l.value.toNat = number ds := by
  have hdrop : raw.toList.drop 2 = ds := by rw [hr, List.drop_succ_cons, List.drop_succ_cons,
    List.drop_zero]
  rw [NumberLiteral.readBased] at hl
  simp only [hdrop, withoutMark_digits h] at hl
  split at hl
  · cases hl
  · rename_i hne
    rw [integer?_digits (fun he => hne (List.isEmpty_iff.mpr he)) h] at hl
    dsimp only at hl
    rw [NumberLiteral.ofNat, Word.ofNat?] at hl
    split_ifs at hl with hlt
    cases hl
    rw [BitVec.toNat_ofNat]
    exact Nat.mod_eq_of_lt hlt

/-- **An even number of digits is read as the bytes of their number**; by induction on the number of
bytes. -/
theorem bytes?_digits {n : Nat} : ∀ {ds : List Char}, ds.length = 2 * n →
    (∀ d ∈ ds, isDigit d = true) →
      ∃ bs, bytes? ds = some bs ∧ bs.length = n ∧ Bytes.toNat bs = number ds := by
  induction n with
  | zero =>
    intro ds hl _
    obtain rfl := List.eq_nil_of_length_eq_zero hl
    exact ⟨[], rfl, rfl, rfl⟩
  | succ n ih =>
    intro ds hl h
    match ds with
    | c :: d :: ds =>
      obtain ⟨high, hh, hh16⟩ := exists_value (h c (List.mem_cons_self ..))
      obtain ⟨low, hd, hd16⟩ := exists_value (h d (by simp))
      have hlength : ds.length = 2 * n := by
        rw [List.length_cons, List.length_cons] at hl
        omega
      obtain ⟨bs, hbs, hlen, hval⟩ := ih hlength fun e he => h e (by simp [he])
      have hread : bytes? (c :: d :: ds) = some (UInt8.ofNat (16 * high + low) :: bs) := by
        rw [bytes?, if_neg (by rw [not_isGap (h c (List.mem_cons_self ..))]; decide)]
        rw [hh, hd, hbs]
        rfl
      refine ⟨_, hread, by rw [List.length_cons, hlen], ?_⟩
      have hbyte : (UInt8.ofNat (16 * high + low)).toNat = 16 * high + low := by
        rw [UInt8.toNat_ofNat']
        omega
      have hpow : (256 : Nat) ^ n = 16 ^ ds.length := by
        rw [hlength, pow_mul]
        rfl
      rw [Bytes.toNat_cons, hbyte, hlen, hval, hpow, number_cons, number_cons, hh, hd,
        List.length_cons, pow_succ]
      simp only [Option.getD_some]
      ring

/-! ### Other characters -/

/-- Bytes are read from digits and from the gaps between them, and from nothing else. -/
theorem isGap_or_isDigit_of_bytes? {cs : List Char} :
    ∀ {bs : Bytes}, bytes? cs = some bs → ∀ c ∈ cs, isGap c = true ∨ isDigit c = true := by
  fun_induction bytes? cs with
  | case1 =>
    intro bs _ c hc
    exact absurd hc List.not_mem_nil
  | case2 c cs hg ih =>
    intro bs h d hd
    rcases List.mem_cons.mp hd with rfl | hd
    · exact Or.inl hg
    · exact ih h d hd
  | case3 c hg =>
    intro bs h
    cases h
  | case4 c hg d ds ih =>
    intro bs h e he
    obtain ⟨high, hh, h⟩ := Option.bind_eq_some_iff.mp h
    obtain ⟨low, hl, h⟩ := Option.bind_eq_some_iff.mp h
    obtain ⟨rest, hr, -⟩ := Option.bind_eq_some_iff.mp h
    rcases List.mem_cons.mp he with rfl | he
    · exact Or.inr (by rw [isDigit, hh]; rfl)
    rcases List.mem_cons.mp he with rfl | he
    · exact Or.inr (by rw [isDigit, hl]; rfl)
    · exact ih hr e he

/-- A text is no number if it is empty or holds anything but digits. -/
theorem integer?_eq_none {cs : List Char} (h : cs = [] ∨ ∃ c ∈ cs, isDigit c = false) :
    NumberLiteral.integer? 16 cs = none := by
  rcases h with rfl | ⟨c, hc, hd⟩
  · rfl
  · have hdigit : NumberLiteral.digit? 16 c = none := by
      rw [NumberLiteral.digit?, Option.isNone_iff_eq_none.mp (Option.isSome_eq_false_iff.mp hd)]
      rfl
    rw [NumberLiteral.integer?, NumberLiteral.mapM_digit?_eq_none hc hdigit]
    exact ite_self none

end Hex

end WeiCalc

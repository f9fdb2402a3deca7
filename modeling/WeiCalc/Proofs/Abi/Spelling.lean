import Mathlib
import WeiCalc.Proofs.Abi.Canonical
import WeiCalc.Proofs.Numeral

/-!
# How types are spelled

A selector is the hash of a canonical text, so that a type has one selector only if it has one
spelling: each size and each length in decimal, without zeros in front.  Types that are read are of
that kind except that such zeros stay as they were written.

* `Text.paddedDecimal_ofDecimal`: a row of digits is a number with zeros in front.
* `AbiType.Spelled`: types with their numbers written in a given way.
* `AbiType.spelled_decimal_iff`: what keeps a type from being spelled in decimal.
* `Signature.spelled_of_readType`: types that are read have zeros in front of a number at worst.
* `Signature.spelling_of_readType`: **the spelling of the types that are read**, and when it is unique.
-/

namespace WeiCalc

namespace Text

/-! ### Numbers in decimal -/

/-- The decimal digits of a number. -/
def Decimal (n : Nat) (ds : List Char) : Prop := ds = Nat.toDigits 10 n

/-- The decimal digits of a number, behind any zeros. -/
def PaddedDecimal (n : Nat) (ds : List Char) : Prop :=
  ∃ zeros, ds = List.replicate zeros '0' ++ Nat.toDigits 10 n

/-- Digits that begin with a zero which is not the only one of them. -/
def LedByZero (ds : List Char) : Prop := ∃ d rest, ds = '0' :: d :: rest

theorem digitChar_digitValue {d : Char} (h : d.isDigit = true) : (digitValue d).digitChar = d := by
  have hd := toNat_of_isDigit h
  apply Char.toNat_inj.mp
  rw [digitValue, Nat.toNat_digitChar_of_lt_ten (by omega)]
  omega

theorem digitValue_lt {d : Char} (h : d.isDigit = true) : digitValue d < 10 := by
  have hd := toNat_of_isDigit h
  rw [digitValue]
  omega

theorem ofDecimal_concat (ds : List Char) (d : Char) :
    ofDecimal (ds ++ [d]) = 10 * ofDecimal ds + digitValue d := by
  have hone : ofDecimal [d] = digitValue d := Nat.zero_add _
  rw [ofDecimal_append, hone, List.length_singleton, pow_one, Nat.mul_comm]

/-- **A row of digits is a number with zeros in front**; by induction on the digits in front of the
last one, which either are more zeros or begin the number. -/
theorem paddedDecimal_ofDecimal {ds : List Char} :
    ds ≠ [] → (∀ d ∈ ds, d.isDigit = true) → PaddedDecimal (ofDecimal ds) ds := by
  induction ds using List.reverseRecOn with
  | nil =>
    intro hne
    exact absurd rfl hne
  | append_singleton ds d ih =>
    intro _ hd
    have hlast : d.isDigit = true := hd d (by simp)
    have hdigits : Nat.toDigits 10 (digitValue d) = [d] := by
      rw [Nat.toDigits_of_lt_base (digitValue_lt hlast), digitChar_digitValue hlast]
    rw [ofDecimal_concat]
    by_cases hnil : ds = []
    · subst hnil
      have hzero : 10 * ofDecimal [] + digitValue d = digitValue d := Nat.zero_add _
      refine ⟨0, ?_⟩
      rw [hzero, hdigits, List.replicate_zero]
    · obtain ⟨zeros, he⟩ := ih hnil fun c hc => hd c (List.mem_append_left _ hc)
      by_cases hz : ofDecimal ds = 0
      -- All digits so far are zeros, the one that stands for the number among them.
      · refine ⟨zeros + 1, ?_⟩
        rw [hz, Nat.mul_zero, Nat.zero_add, hdigits, List.replicate_succ']
        rw [hz] at he
        conv_lhs => rw [he]
        rfl
      · refine ⟨zeros, ?_⟩
        have happend := Nat.toDigits_append_toDigits (b := 10) (by decide) (Nat.pos_of_ne_zero hz)
          (digitValue_lt hlast)
        rw [← happend, hdigits, ← List.append_assoc, ← he]

/-- A number other than zero does not begin with a zero; by induction on its digits. -/
theorem head?_toDigits_ne_zero {n : Nat} (hn : n ≠ 0) : (Nat.toDigits 10 n).head? ≠ some '0' := by
  induction n using Nat.strong_induction_on with
  | _ n ih =>
    by_cases h : n < 10
    · rw [Nat.toDigits_of_lt_base h]
      interval_cases n
      · exact absurd rfl hn
      all_goals decide
    · rw [Nat.toDigits_of_base_le (by decide) (not_lt.mp h),
        List.head?_append_of_ne_nil _ Nat.toDigits_ne_nil]
      exact ih (n / 10) (by omega) (by omega)

theorem not_ledByZero_toDigits (n : Nat) : ¬LedByZero (Nat.toDigits 10 n) := by
  rintro ⟨d, rest, h⟩
  by_cases hn : n = 0
  · subst hn
    cases h
  · exact head?_toDigits_ne_zero hn (by rw [h]; rfl)

/-- Behind zeros, digits are led by one of them. -/
theorem PaddedDecimal.decimal {n : Nat} {ds : List Char} (h : PaddedDecimal n ds)
    (hz : ¬LedByZero ds) : Decimal n ds := by
  obtain ⟨zeros, rfl⟩ := h
  cases zeros with
  | zero => rfl
  | succ zeros =>
    obtain ⟨d, rest, he⟩ := List.exists_cons_of_ne_nil
      (List.append_ne_nil_of_right_ne_nil (List.replicate zeros '0') (Nat.toDigits_ne_nil (n := n)))
    refine absurd ⟨d, rest, ?_⟩ hz
    rw [List.replicate_succ, List.cons_append, he]

end Text

/-! ### Types with numbers in them -/

namespace AbiType

open Text (Decimal PaddedDecimal LedByZero)

/-- **The types of the contract interface**, of which each size and each length is written in one of
the ways that `writes` allows for its number. -/
inductive Spelled (writes : Nat → List Char → Prop) : AbiType → Prop
  | plain {name : List Char} : String.ofList name ∈ Signature.plainTypes →
      Spelled writes (.elementary name)
  | sized {k : SizedName} {n : Nat} {ds : List Char} : k.admits n = true → writes n ds →
      Spelled writes (.elementary (k.text ++ ds))
  | tuple {components : List AbiType} : (∀ t ∈ components, Spelled writes t) →
      Spelled writes (.tuple components)
  | dynamic {element : AbiType} : Spelled writes element → Spelled writes (.array element [])
  | fixed {element : AbiType} {n : Nat} {ds : List Char} : Spelled writes element → writes n ds →
      Spelled writes (.array element ds)

/-- Types in which a size or a length is led by a zero. -/
inductive ZeroLed : AbiType → Prop
  | size {k : SizedName} {ds : List Char} : LedByZero ds → ZeroLed (.elementary (k.text ++ ds))
  | component {components : List AbiType} {t : AbiType} : t ∈ components → ZeroLed t →
      ZeroLed (.tuple components)
  | element {element : AbiType} {length : List Char} : ZeroLed element →
      ZeroLed (.array element length)
  | length {element : AbiType} {length : List Char} : LedByZero length →
      ZeroLed (.array element length)

/-- A sized name and its size are told apart. -/
theorem sized_inj {k k' : SizedName} {ds ds' : List Char} (h : k.text ++ ds = k'.text ++ ds') :
    k = k' ∧ ds = ds' := by
  have hf := congrArg SizedName.inFrontOf? h
  rw [SizedName.inFrontOf?_append, SizedName.inFrontOf?_append] at hf
  cases hf
  exact ⟨rfl, rfl⟩

/-- No elementary type without a size has anything behind a sized name. -/
theorem eq_nil_of_plain {k : SizedName} {ds : List Char}
    (h : String.ofList (k.text ++ ds) ∈ Signature.plainTypes) : ds = [] := by
  have hplain : ∀ s ∈ Signature.plainTypes,
      ∀ p ∈ SizedName.inFrontOf? s.toList, p.2 = [] := by decide
  refine hplain _ h (k, ds) ?_
  rw [String.toList_ofList, SizedName.inFrontOf?_append, Option.mem_some_iff]

theorem not_ledByZero_nil : ¬LedByZero [] := by
  rintro ⟨d, rest, h⟩
  cases h

/-- Nothing in decimal is led by a zero; one case for each kind of type. -/
theorem Spelled.not_zeroLed {t : AbiType} (h : t.Spelled Decimal) : ¬t.ZeroLed := by
  induction h with
  | plain hp =>
    intro hz
    -- A plain name and a sized name with its size are texts that might be equal.
    generalize he : AbiType.elementary _ = t at hz
    cases hz with
    | size hz =>
      cases he
      rw [eq_nil_of_plain hp] at hz
      exact not_ledByZero_nil hz
    | _ => cases he
  | @sized k n ds _ hw =>
    intro hz
    generalize he : AbiType.elementary _ = t at hz
    cases hz with
    | size hz =>
      obtain ⟨-, rfl⟩ := sized_inj (AbiType.elementary.inj he)
      rw [hw] at hz
      exact Text.not_ledByZero_toDigits n hz
    | _ => cases he
  | tuple _ ih =>
    intro hz
    cases hz with
    | component hm hz => exact ih _ hm hz
  | dynamic _ ih =>
    intro hz
    cases hz with
    | element hz => exact ih hz
    | length hz => exact not_ledByZero_nil hz
  | fixed _ hw ih =>
    intro hz
    cases hz with
    | element hz => exact ih hz
    | length hz =>
      rw [hw] at hz
      exact Text.not_ledByZero_toDigits _ hz

/-- **Zeros in front are all that keeps a type from being spelled in decimal**, if its numbers are
written with such zeros at worst. -/
theorem spelled_decimal_iff {t : AbiType} (h : t.Spelled PaddedDecimal) :
    t.Spelled Decimal ↔ ¬t.ZeroLed := by
  refine ⟨Spelled.not_zeroLed, ?_⟩
  induction h with
  | plain hp => exact fun _ => .plain hp
  | sized ha hw => exact fun hz => .sized ha (hw.decimal fun hl => hz (.size hl))
  | tuple _ ih => exact fun hz => .tuple fun t hm => ih t hm fun ht => hz (.component hm ht)
  | dynamic _ ih => exact fun hz => .dynamic (ih fun he => hz (.element he))
  | fixed _ hw ih =>
    exact fun hz => .fixed (ih fun he => hz (.element he)) (hw.decimal fun hl => hz (.length hl))

end AbiType

namespace StaticKind

/-- The canonical name of a kind. -/
def spelling : StaticKind → List Char
  | address => ['a', 'd', 'd', 'r', 'e', 's', 's']
  | bool => ['b', 'o', 'o', 'l']
  | sized name size => name.text ++ Nat.toDigits 10 size

/-- **An elementary type in decimal is the name of its kind.** -/
theorem eq_spelling {name : List Char} {k : StaticKind}
    (h : (AbiType.elementary name).Spelled Text.Decimal)
    (hk : ofText (String.ofList name) = .ok k) : name = k.spelling := by
  rw [ofText] at hk
  split_ifs at hk with haddress hbool
  · cases hk
    exact String.ofList_injective haddress
  · cases hk
    exact String.ofList_injective hbool
  · rw [String.toList_ofList] at hk
    generalize he : AbiType.elementary name = t at h
    cases h with
    | plain hp =>
      cases he
      rw [SizedName.ofText?_of_plain hp] at hk
      cases hk
    | @sized k' n ds _ hw =>
      cases he
      cases hw
      have hdigits : ∀ c ∈ Nat.toDigits 10 n, c.isDigit = true :=
        fun c hc => Nat.isDigit_of_mem_toDigits (by decide) (by decide) hc
      have hsize := SizedName.ofText?_append k' Nat.toDigits_ne_nil hdigits
      rw [NumberLiteral.ofDecimal_toDigits] at hsize
      rw [hsize] at hk
      cases hk
      rfl
    | _ => cases he

end StaticKind

namespace Signature

open Text (Decimal PaddedDecimal)
open AbiType (Spelled ZeroLed)

/-! ### Types that are read -/

/-- The spellings of elementary types have zeros in front of a size at worst. -/
theorem Spells.spelled {written name : List Char} (h : Spells written name) :
    Spelled PaddedDecimal (.elementary name) := by
  cases h with
  | plain hp => exact .plain hp
  | sized hne hd ha => exact .sized ha (Text.paddedDecimal_ofDecimal hne hd)
  | @short written name ha =>
    have hn : ∀ a ∈ aliases, Spelled PaddedDecimal (.elementary a.2.toList) := by
      simp only [aliases, List.forall_mem_cons]
      refine ⟨?_, ?_, ?_, fun a ha => absurd ha List.not_mem_nil⟩
      · exact @Spelled.sized _ .uint 256 ['2', '5', '6'] (by decide) ⟨0, rfl⟩
      · exact @Spelled.sized _ .int 256 ['2', '5', '6'] (by decide) ⟨0, rfl⟩
      · exact @Spelled.sized _ .bytes 1 ['1'] (by decide) ⟨0, rfl⟩
    exact hn (written, name) ha

theorem spelled_closed : Closed (Spelled PaddedDecimal) where
  elementary h := by
    obtain ⟨name, rfl, hs⟩ := spells_of_elementary_trim h
    exact hs.spelled
  tuple h := .tuple h
  array {element length} h hl := by
    by_cases hne : length = []
    · subst hne
      exact .dynamic h
    · exact .fixed h (Text.paddedDecimal_ofDecimal hne hl)

theorem spelled_of_readType {text : List Char} {t : AbiType} (h : readType text = .ok t) :
    t.Spelled PaddedDecimal :=
  spelled_closed.typeWithin _ text t h

/-- **A type that is read** is a type of the contract interface, with zeros in front of its sizes and
lengths at worst; it is spelled in decimal exactly if there are none.  Two elementary types of one
kind that have none are one text. -/
theorem spelling_of_readType {text : List Char} {t : AbiType} (h : readType text = .ok t) :
    (t.Spelled PaddedDecimal ∧ (t.Spelled Decimal ↔ ¬t.ZeroLed)) ∧
    ∀ text' name name' k, t = .elementary name → readType text' = .ok (.elementary name') →
      StaticKind.ofText (String.ofList name) = .ok k →
      StaticKind.ofText (String.ofList name') = .ok k →
      ¬t.ZeroLed → ¬(AbiType.elementary name').ZeroLed → name = name' := by
  have hiff := AbiType.spelled_decimal_iff (spelled_of_readType h)
  refine ⟨⟨spelled_of_readType h, hiff⟩, ?_⟩
  rintro text' name name' k rfl h' hk hk' hz hz'
  have hname := StaticKind.eq_spelling (hiff.mpr hz) hk
  have hname' := StaticKind.eq_spelling
    ((AbiType.spelled_decimal_iff (spelled_of_readType h')).mpr hz') hk'
  rw [hname, hname']

/-- A tuple with short names and an array length in it, and a type under two names. -/
theorem spelling_of_readType_pair :
    let t : AbiType := .array (.tuple [.elementary "uint256".toList,
      .array (.elementary "bytes1".toList) ['0']]) ['1', '0']
    (readType "(uint a, byte[0] b)[10]".toList = .ok t ∧
      t.Spelled PaddedDecimal ∧ (t.Spelled Decimal ↔ ¬t.ZeroLed)) ∧
    ∃ name name', readType "uint".toList = .ok (.elementary name) ∧
      readType " uint256".toList = .ok (.elementary name') ∧ name = name' := by
  intro t
  have ht : readType "(uint a, byte[0] b)[10]".toList = .ok t := by cbv
  have h : readType "uint".toList = .ok (.elementary "uint256".toList) := by cbv
  have h' : readType " uint256".toList = .ok (.elementary "uint256".toList) := by cbv
  have hk : StaticKind.ofText (String.ofList "uint256".toList) = .ok (.sized .uint 256) := by cbv
  have hz : ¬(AbiType.elementary "uint256".toList).ZeroLed :=
    Spelled.not_zeroLed (@Spelled.sized _ .uint 256 ['2', '5', '6'] (by decide) rfl)
  exact ⟨⟨ht, (spelling_of_readType ht).1⟩, _, _, h, h',
    (spelling_of_readType h).2 _ _ _ _ rfl h' hk hk hz hz⟩

/-- A zero in front of a size makes a second text of a type, of the same kind. -/
theorem readType_zero_led :
    readType "uint08".toList = .ok (.elementary "uint08".toList) ∧
      readType "uint8".toList = .ok (.elementary "uint8".toList) ∧
      StaticKind.ofText "uint08" = .ok (.sized .uint 8) ∧
      StaticKind.ofText "uint8" = .ok (.sized .uint 8) ∧
      "uint08".toList ≠ "uint8".toList ∧
      ¬Spelled Decimal (.elementary "uint08".toList) := by
  refine ⟨by cbv, by cbv, by cbv, by cbv, by decide, fun h => h.not_zeroLed ?_⟩
  exact @ZeroLed.size .uint ['0', '8'] ⟨'8', [], rfl⟩

end Signature

end WeiCalc

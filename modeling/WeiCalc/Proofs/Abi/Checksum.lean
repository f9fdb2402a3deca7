import Mathlib
import WeiCalc.Proofs.Display
import WeiCalc.Proofs.Hex.Data

/-!
# Addresses and their checksums

A checksum only chooses the case of letters, and no reader of addresses looks at the case.  So the
checksum of an address is the address in every reading of it, whatever the hash is that chooses.

* `Text.lower_of_ascii`: lower case in ASCII is a matter of single characters.
* `Hex.number_of_spells`: the number that digits write does not depend on their case.
* `Checksum.spells_cased`: the digits with a checksum are those of the address.
* `Checksum.ofText_of_spells`: digits of any case have the same checksum.
* `Call.result_checksum`: **checksums and addresses agree.**
-/

namespace WeiCalc

/-! ### Letter case -/

namespace Text

theorem isUpper_iff {c : Char} : c.isUpper = true ↔ 65 ≤ c.toNat ∧ c.toNat ≤ 90 := by
  simp [Char.isUpper, UInt32.le_iff_toNat_le]

/-- The capital letters are the first range that changes, and no other begins in ASCII. -/
theorem findSome?_lowerRanges {n : Nat} (h : n < 128) :
    lowerRanges.findSome? (·.image? n) = if 65 ≤ n ∧ n ≤ 90 then some (n + 32) else none := by
  have hrest : ∀ r ∈ lowerRanges.tail, 128 ≤ r.first := by decide +kernel
  have hnone : lowerRanges.tail.findSome? (·.image? n) = none := by
    rw [List.findSome?_eq_none_iff]
    intro r hr
    have hfirst := hrest r hr
    exact if_neg (by omega)
  have hletters : lowerRanges = ⟨65, 90, 1, 32⟩ :: lowerRanges.tail := rfl
  rw [hletters, List.findSome?_cons, hnone, CaseRange.image?]
  by_cases hn : 65 ≤ n ∧ n ≤ 90
  · rw [if_pos ⟨hn.1, hn.2, Nat.mod_one _⟩, if_pos hn]
    rfl
  · rw [if_neg hn, if_neg (fun hr => hn ⟨hr.1, hr.2.1⟩)]

theorem lowerChar_of_ascii {c : Char} (h : c.toNat < 128) : lowerChar c = [c.toLower] := by
  have hother : (c.toNat == 0x130) = false := beq_eq_false_iff_ne.mpr (by omega)
  have hsingle : lowerExpansions.lookup c.toNat = none := by
    rw [lowerExpansions, List.lookup_cons, hother]
    rfl
  rw [lowerChar, mapCase, hsingle, findSome?_lowerRanges h]
  by_cases hu : c.isUpper = true
  · rw [if_pos (isUpper_iff.mp hu), Char.toLower_eq_of_isUpper hu]
  · rw [if_neg (mt isUpper_iff.mpr hu), Char.toLower_eq_of_not_isUpper hu]

theorem lowerFrom_of_ascii {cs : List Char} (h : ∀ c ∈ cs, c.toNat < 128) (before : List Char) :
    lowerFrom before cs = cs.map Char.toLower := by
  induction cs generalizing before with
  | nil => rfl
  | cons c cs ih =>
    obtain ⟨hc, hcs⟩ := List.forall_mem_cons.mp h
    have hsigma : c ≠ 'Σ' := by
      rintro rfl
      exact absurd hc (by decide)
    rw [lowerFrom, if_neg hsigma, lowerChar_of_ascii hc, ih hcs]
    rfl

/-- Lower case in ASCII is a matter of single characters. -/
theorem lower_of_ascii {cs : List Char} (h : ∀ c ∈ cs, c.toNat < 128) :
    lower cs = cs.map Char.toLower :=
  lowerFrom_of_ascii h []

end Text

namespace Hex

/-- The case of a digit does not matter. -/
@[simp] theorem value?_toLower (c : Char) : value? c.toLower = value? c := by
  by_cases hu : c.isUpper = true
  · have hc := Text.isUpper_iff.mp hu
    have hall : ∀ n < 91, 65 ≤ n → value? (Char.ofNat (n + 32)) = value? (Char.ofNat n) := by
      decide
    have h := hall c.toNat (by omega) hc.1
    rwa [Char.ofNat_toNat, ← Char.toLower_eq_of_isUpper hu] at h
  · rw [Char.toLower_eq_of_not_isUpper hu]

@[simp] theorem isDigit_toLower (c : Char) : isDigit c.toLower = isDigit c := by
  rw [isDigit, value?_toLower]
  rfl

@[simp] theorem number_map_toLower (ds : List Char) : number (ds.map Char.toLower) = number ds := by
  rw [number, number, List.map_map]
  congr 1
  exact List.map_congr_left fun d _ => congrArg (Option.getD · 0) (value?_toLower d)

theorem ascii_of_isDigit {c : Char} (h : isDigit c = true) : c.toNat < 128 := by
  have hc := toNat_of_isDigit h
  omega

/-- The digits of a number are in lower case; by induction on the digits in front of the last
one. -/
theorem toLower_of_mem_toDigits {c : Char} {n : Nat} (h : c ∈ Nat.toDigits 16 n) :
    c.toLower = c := by
  have hdigit : ∀ m < 16, m.digitChar.toLower = m.digitChar := by decide
  induction n using Nat.strong_induction_on with
  | _ n ih =>
    by_cases hn : n < 16
    · rw [Nat.toDigits_of_lt_base hn, List.mem_singleton] at h
      rw [h]
      exact hdigit n hn
    · rw [Nat.toDigits_of_base_le (by decide) (not_lt.mp hn), List.mem_append] at h
      rcases h with h | h
      · exact ih (n / 16) (by omega) h
      · rw [List.mem_singleton.mp h]
        exact hdigit _ (Nat.mod_lt n (by decide))

/-- The digits of a number with `width` places, each letter in either case. -/
def Spells (width n : Nat) (ds : List Char) : Prop :=
  ds.map Char.toLower = Text.padded 16 width n

variable {width n : Nat} {ds : List Char}

theorem spells_padded (width n : Nat) : Spells width n (Text.padded 16 width n) := by
  refine (List.map_congr_left fun c hc => ?_).trans (List.map_id _)
  rcases Text.mem_padded hc with rfl | hc
  · rfl
  · exact toLower_of_mem_toDigits hc

theorem Spells.isDigit (h : Spells width n ds) : ∀ d ∈ ds, isDigit d = true := by
  intro d hd
  rw [← isDigit_toLower]
  have hmem : d.toLower ∈ ds.map Char.toLower := List.mem_map_of_mem hd
  rw [h] at hmem
  exact isDigit_of_mem_padded hmem

/-- The number that digits write does not depend on their case. -/
theorem number_of_spells (h : Spells width n ds) : number ds = n := by
  rw [← number_map_toLower, h, number_padded]

theorem Spells.length (h : Spells width n ds) (hw : 0 < width) (hn : n < 16 ^ width) :
    ds.length = width := by
  rw [← List.length_map Char.toLower, h, Text.length_padded (by decide) hw hn]

end Hex

/-! ### Checksums -/

namespace Checksum

variable {n : Nat} {ds : List Char}

@[simp] theorem length_nibbles (bs : Bytes) : (nibbles bs).length = 2 * bs.length := by
  rw [nibbles, List.length_flatMap]
  simp [Nat.mul_comm]

/-- Changing letters to upper case does not change what they are in lower case. -/
theorem map_toLower_zipWith {cs : List Char} {ns : List Nat} (h : cs.length ≤ ns.length) :
    (cs.zipWith (fun c n => if 8 ≤ n then c.toUpper else c) ns).map Char.toLower =
      cs.map Char.toLower := by
  induction cs generalizing ns with
  | nil => rfl
  | cons c cs ih =>
    obtain ⟨n, ns, rfl⟩ := List.exists_cons_of_length_pos (Nat.lt_of_lt_of_le (Nat.succ_pos _) h)
    have hc : (if 8 ≤ n then c.toUpper else c).toLower = c.toLower := by
      split_ifs
      · exact Char.toLower_toUpper_eq_toLower c
      · rfl
    rw [List.zipWith_cons_cons, List.map_cons, List.map_cons, hc, ih (Nat.le_of_succ_le_succ h)]

/-- **The digits with a checksum are those of the address**, whatever the hash is. -/
theorem spells_cased (hash : Hash) (h : n < Value.addressLimit) :
    Hex.Spells 40 n (cased hash (Text.padded 16 40 n)) := by
  have hlength : (Text.padded 16 40 n).length = 40 := Text.length_padded (by decide) (by decide) h
  rw [Hex.Spells, cased, map_toLower_zipWith]
  · exact Hex.spells_padded 40 n
  · rw [hlength, length_nibbles, Vector.length_toList]
    decide

/-- Forty digits are found with and without a mark in front. -/
theorem digits?_of_isDigit (h : ∀ d ∈ ds, Hex.isDigit d = true) (hlength : ds.length = 40) :
    digits? (String.ofList ds) = some ds ∧ digits? ("0x" ++ String.ofList ds) = some ds := by
  have hall : ds.all Hex.isDigit = true := List.all_eq_true.mpr h
  constructor
  · have hsolid : Text.Solid ds := fun c hc => Hex.isBlank_of_isDigit (h c hc)
    rw [digits?, String.toList_ofList, (hsolid.tight (List.ne_nil_of_length_pos (by omega))).trim]
    split
    · exact absurd (h 'x' (by simp)) (by decide)
    · exact if_pos ⟨hlength, hall⟩
  · rw [digits?, Hex.toList_mark, Hex.trim_mark h]
    exact if_pos ⟨hlength, hall⟩

/-- An address with its checksum, of its number. -/
def ofNumber (hash : Hash) (n : Nat) : String :=
  "0x" ++ String.ofList (cased hash (Text.padded 16 40 n))

@[simp] theorem toList_ofNumber (hash : Hash) (n : Nat) :
    (ofNumber hash n).toList = '0' :: 'x' :: cased hash (Text.padded 16 40 n) :=
  Hex.toList_mark _

/-- **Digits of any case have the same checksum**, with and without a mark in front. -/
theorem ofText_of_spells (hash : Hash) (h : Hex.Spells 40 n ds) (hn : n < Value.addressLimit)
    {mark : String} (hm : mark = "" ∨ mark = "0x") :
    ofText hash (mark ++ String.ofList ds) = .ok (ofNumber hash n) := by
  obtain ⟨hplain, hmarked⟩ := digits?_of_isDigit h.isDigit (h.length (by decide) hn)
  have hdigits : digits? (mark ++ String.ofList ds) = some ds := by
    rcases hm with rfl | rfl
    · rw [String.empty_append]
      exact hplain
    · exact hmarked
  rw [ofText, hdigits, ofNumber, ← h]

end Checksum

/-! ### The functions -/

namespace Call

variable {w : Word} {cs : List Char}

theorem addressNumber_of_lt (c : Call) (h : w.toNat < Value.addressLimit)
    (hexWidth : Option Nat) : c.addressNumber (.uint w hexWidth) = .ok w.toNat := by
  rw [addressNumber]
  exact if_pos h

theorem addressNumber_of_spells (c : Call) (hs : Hex.Spells 40 w.toNat cs)
    (h : w.toNat < Value.addressLimit) :
    c.addressNumber (.text ("0x" ++ String.ofList cs)) = .ok w.toNat := by
  have hne : cs ≠ [] := List.ne_nil_of_length_pos (by rw [hs.length (by decide) h]; decide)
  have hread : NumberLiteral.integer? 16 (Hex.withoutMark
      (Text.trim ("0x" ++ String.ofList cs).toList)) = some w.toNat := by
    rw [Hex.toList_mark, Hex.trim_mark hs.isDigit, Hex.withoutMark,
      Hex.integer?_digits hne hs.isDigit, Hex.number_of_spells hs]
  rw [addressNumber]
  simp only [hread]
  exact if_pos h

theorem result_address_of_number (env : Environment) {v : Value} (ds : Diagnostics)
    (h : addressNumber ⟨.address, [.value v]⟩ v = .ok w.toNat) :
    result env ⟨.address, [.value v]⟩ ds = .ok (.address w) ds := by
  rw [result_address, h, except_ok_bind, BitVec.ofNat_toNat, BitVec.setWidth_eq]
  rfl

theorem result_checksum_of_text (env : Environment) {s t : String} (ds : Diagnostics)
    (h : Checksum.ofText env.hash s = .ok t) :
    result env ⟨.checksum, [.value (.text s)]⟩ ds = .ok (.text t) ds := by
  have hvalue : value ⟨.checksum, [.value (.text s)]⟩ 0 = .ok (.text s) := rfl
  have hrun : result env ⟨.checksum, [.value (.text s)]⟩ ds =
      (liftM (checksum env.hash ⟨.checksum, [.value (.text s)]⟩) : Eval Value) ds := rfl
  rw [hrun, checksum, hvalue, except_ok_bind]
  simp only [h]
  rfl

theorem result_checksum_of_number (env : Environment) (h : w.toNat < Value.addressLimit)
    (hexWidth : Option Nat) (ds : Diagnostics) :
    result env ⟨.checksum, [.value (.uint w hexWidth)]⟩ ds =
      .ok (.text (Checksum.ofNumber env.hash w.toNat)) ds := by
  let c : Call := ⟨.checksum, [.value (.uint w hexWidth)]⟩
  have hvalue : c.value 0 = .ok (.uint w hexWidth) := rfl
  have hwidth : 2 * Value.addressWidth = 40 := rfl
  have htext : Checksum.ofText env.hash ("" ++ String.ofList (Text.padded 16 40 w.toNat)) =
      .ok (Checksum.ofNumber env.hash w.toNat) :=
    Checksum.ofText_of_spells env.hash (Hex.spells_padded 40 w.toNat) h (Or.inl rfl)
  rw [String.empty_append] at htext
  have hrun : result env c ds = (liftM (checksum env.hash c) : Eval Value) ds := rfl
  rw [hrun, checksum, hvalue, except_ok_bind]
  simp only [addressNumber_of_lt c h hexWidth, except_ok_bind, hwidth, htext]
  rfl

@[simp] theorem display_address (w : Word) :
    ((Value.address w).display false).toList = '0' :: 'x' :: Text.padded 16 40 w.toNat :=
  Display.toList_hex 20 w.toNat

theorem result_lower_checksum (env : Environment) (h : w.toNat < Value.addressLimit)
    (ds : Diagnostics) :
    result env ⟨.lower, [.value (.text (Checksum.ofNumber env.hash w.toNat))]⟩ ds =
      .ok (.text ((Value.address w).display false)) ds := by
  have hs := Checksum.spells_cased env.hash h
  have hascii : ∀ c ∈ (Checksum.ofNumber env.hash w.toNat).toList, c.toNat < 128 := by
    intro c hc
    rw [Checksum.toList_ofNumber] at hc
    rcases List.mem_cons.mp hc with rfl | hc
    · decide
    rcases List.mem_cons.mp hc with rfl | hc
    · decide
    · exact Hex.ascii_of_isDigit (hs.isDigit c hc)
  have hlower : String.ofList (Text.lower (Checksum.ofNumber env.hash w.toNat).toList) =
      (Value.address w).display false := by
    rw [Text.lower_of_ascii hascii, Checksum.toList_ofNumber, List.map_cons, List.map_cons, hs,
      ← String.ofList_toList (s := (Value.address w).display false), display_address]
    rfl
  rw [← hlower]
  rfl

/-- **Checksums and addresses agree**, whatever the hash is.  In lower case the checksum of an
address is what the address is shown as.  It is read as the address, and it is its own checksum and
that of the forty digits in any case, with and without a mark in front. -/
theorem result_checksum (env : Environment) (h : w.toNat < Value.addressLimit)
    (hexWidth : Option Nat) (ds : Diagnostics) :
    ∃ s : String,
      result env ⟨.checksum, [.value (.uint w hexWidth)]⟩ ds = .ok (.text s) ds ∧
      result env ⟨.lower, [.value (.text s)]⟩ ds =
        .ok (.text ((Value.address w).display false)) ds ∧
      ((Value.address w).display false).toList = '0' :: 'x' :: Text.padded 16 40 w.toNat ∧
      result env ⟨.address, [.value (.uint w hexWidth)]⟩ ds = .ok (.address w) ds ∧
      result env ⟨.address, [.value (.text s)]⟩ ds = .ok (.address w) ds ∧
      result env ⟨.checksum, [.value (.text s)]⟩ ds = .ok (.text s) ds ∧
      ∀ cs : List Char, cs.map Char.toLower = Text.padded 16 40 w.toNat →
        ∀ mark, mark = "" ∨ mark = "0x" →
          result env ⟨.checksum, [.value (.text (mark ++ String.ofList cs))]⟩ ds =
            .ok (.text s) ds := by
  have hs := Checksum.spells_cased env.hash h
  have hany : ∀ cs : List Char, Hex.Spells 40 w.toNat cs → ∀ mark, mark = "" ∨ mark = "0x" →
      result env ⟨.checksum, [.value (.text (mark ++ String.ofList cs))]⟩ ds =
        .ok (.text (Checksum.ofNumber env.hash w.toNat)) ds :=
    fun cs hc mark hm => result_checksum_of_text env ds (Checksum.ofText_of_spells _ hc h hm)
  refine ⟨Checksum.ofNumber env.hash w.toNat, ?_, ?_, display_address w, ?_, ?_, ?_, hany⟩
  · exact result_checksum_of_number env h hexWidth ds
  · exact result_lower_checksum env h ds
  · exact result_address_of_number env ds (addressNumber_of_lt _ h hexWidth)
  · exact result_address_of_number env ds (addressNumber_of_spells _ hs h)
  · exact hany _ hs "0x" (Or.inr rfl)

/-- An address as a number, as digits of either case, and as text with a checksum. -/
theorem result_checksum_mixed :
    let env : Environment := ⟨.standard 0, fun _ => Vector.replicate 32 0x80⟩
    (0xff : Word).toNat < Value.addressLimit ∧ ∃ s : String,
      result env ⟨.checksum, [.value (.number 0xff)]⟩ #[] = .ok (.text s) #[] ∧
      result env ⟨.checksum, [.value (.text "0x00000000000000000000000000000000000000Ff")]⟩ #[] =
        .ok (.text s) #[] ∧
      result env ⟨.address, [.value (.text s)]⟩ #[] = .ok (.address 0xff) #[] := by
  intro env
  have hlt : (0xff : Word).toNat < Value.addressLimit := by decide
  obtain ⟨s, hnumber, -, -, -, haddress, -, hany⟩ := result_checksum env hlt none #[]
  have hdigits : ("00000000000000000000000000000000000000Ff".toList).map Char.toLower =
      Text.padded 16 40 (0xff : Word).toNat := by decide +kernel
  have htext := hany _ hdigits "0x" (Or.inr rfl)
  rw [String.ofList_toList] at htext
  exact ⟨hlt, s, hnumber, htext, haddress⟩

end Call

end WeiCalc

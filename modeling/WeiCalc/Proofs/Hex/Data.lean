import Mathlib
import WeiCalc.Proofs.Abi.Address
import WeiCalc.Proofs.Text.Words

/-!
# Which texts are hexadecimal data

Data are read from a text without the white space around it and without one mark in front.  If no
white space is left in it, the text has to be an even number of digits.  ASCII white space cuts it
into pieces, and then each of these has to be an even number of digits, and the whole text, its
white space counted, of even length.

* `Hex.bytes?_eq_some_iff`: what is read of pieces between gaps.
* `Hex.bytes?_digits_of`: bytes that are written as digits are read back.
* `Hex.data?_accepts`: **the texts that are data, and their bytes.**
* `Hex.data?_gap`: white space between the digits is accepted.
-/

namespace WeiCalc

namespace Hex

variable {c d : Char} {cs ds : List Char} {bs : Bytes}

/-! ### Rows of digits -/

/-- An even number of hexadecimal digits, and nothing else. -/
structure Paired (ds : List Char) : Prop where
  isDigit : ∀ c ∈ ds, isDigit c = true
  even : Even ds.length

/-- The bytes of the number that digits write, one for every two of them. -/
def denoted (ds : List Char) : Bytes :=
  Bytes.ofNat (ds.length / 2) (number ds)

theorem paired_nil : Paired [] :=
  ⟨fun _ h => absurd h List.not_mem_nil, Even.zero⟩

theorem not_paired_singleton (c : Char) : ¬Paired [c] := by
  intro h
  exact Nat.not_even_one h.even

theorem paired_cons_cons :
    Paired (c :: d :: ds) ↔ Hex.isDigit c = true ∧ Hex.isDigit d = true ∧ Paired ds := by
  have heven : Even (c :: d :: ds).length ↔ Even ds.length := by
    simp only [List.length_cons, Nat.even_add_one, not_not]
  constructor
  · intro h
    refine ⟨h.isDigit c (by simp), h.isDigit d (by simp), ?_, heven.mp h.even⟩
    exact fun e he => h.isDigit e (by simp [he])
  · rintro ⟨hc, hd, h⟩
    exact ⟨by simpa [hc, hd] using h.isDigit, heven.mpr h.even⟩

/-- Paired digits are read as the bytes of their number. -/
theorem Paired.bytes? (h : Paired ds) : bytes? ds = some (denoted ds) := by
  obtain ⟨n, hn⟩ := h.even
  obtain ⟨bs, hbs, hlength, hnumber⟩ := bytes?_digits (n := n) (by omega) h.isDigit
  have hhalf : bs.length = ds.length / 2 := by omega
  rw [hbs, denoted, ← hnumber, Bytes.ofNat_toNat_of_length hhalf]

/-- Two characters that are no gap are one byte. -/
theorem bytes?_cons_cons (hc : isGap c = false) : Hex.bytes? (c :: d :: ds) = some bs ↔
    ∃ high low rest, value? c = some high ∧ value? d = some low ∧ Hex.bytes? ds = some rest ∧
      bs = UInt8.ofNat (16 * high + low) :: rest := by
  rw [Hex.bytes?, if_neg (by rw [hc]; decide)]
  constructor
  · intro h
    obtain ⟨high, hh, h⟩ := Option.bind_eq_some_iff.mp h
    obtain ⟨low, hl, h⟩ := Option.bind_eq_some_iff.mp h
    obtain ⟨rest, hr, h⟩ := Option.bind_eq_some_iff.mp h
    exact ⟨high, low, rest, hh, hl, hr, (Option.some.inj h).symm⟩
  · rintro ⟨high, low, rest, hh, hl, hr, rfl⟩
    rw [hh, hl, hr]
    rfl

theorem denoted_cons_cons (h : Paired (c :: d :: ds)) {high low : Nat} (hc : value? c = some high)
    (hd : value? d = some low) :
    denoted (c :: d :: ds) = UInt8.ofNat (16 * high + low) :: denoted ds := by
  obtain ⟨hdigit, -, hds⟩ := paired_cons_cons.mp h
  have hread := (bytes?_cons_cons (not_isGap hdigit)).mpr ⟨high, low, _, hc, hd, hds.bytes?, rfl⟩
  rw [h.bytes?] at hread
  exact Option.some.inj hread

/-! ### Gaps -/

theorem value?_of_isGap (h : isGap c = true) : value? c = none := by
  rw [← Option.not_isSome_iff_eq_none]
  intro hd
  rw [not_isGap hd] at h
  cases h

/-- The pieces of a text between its gaps. -/
def pieces (cs : List Char) : List (List Char) :=
  cs.splitOnP isGap

@[simp] theorem pieces_nil : pieces [] = [[]] :=
  List.splitOnP_nil

theorem pieces_of_isGap (h : isGap c = true) : pieces (c :: cs) = [] :: pieces cs := by
  rw [pieces, List.splitOnP_cons_eq_if_modifyHead, if_pos h]
  rfl

theorem pieces_of_not_isGap (h : ¬isGap c = true) {p : List Char} {ps : List (List Char)}
    (hps : pieces cs = p :: ps) : pieces (c :: cs) = (c :: p) :: ps := by
  rw [pieces] at hps
  rw [pieces, List.splitOnP_cons_eq_if_modifyHead, if_neg h, hps]
  rfl

/-- **Bytes are read from pieces of paired digits with gaps between them**, and from nothing else.
Reading begins a piece at each gap, and adds a pair of digits to the first piece of the rest
otherwise. -/
theorem bytes?_eq_some_iff : ∀ {bs : Bytes}, bytes? cs = some bs ↔
    (∀ p ∈ pieces cs, Paired p) ∧ bs = (pieces cs).flatMap denoted := by
  fun_induction Hex.bytes? cs with
  | case1 =>
    intro bs
    rw [pieces_nil]
    simp [paired_nil, denoted, Bytes.ofNat, eq_comm]
  | case2 c cs hg ih =>
    intro bs
    rw [ih, pieces_of_isGap hg]
    simp [paired_nil, denoted, Bytes.ofNat]
  | case3 c hg =>
    intro bs
    rw [pieces_of_not_isGap hg pieces_nil]
    simp [not_paired_singleton]
  | case4 c hg d ds ih =>
    intro bs
    have hread := @bytes?_cons_cons c d ds bs (Bool.eq_false_iff.mpr hg)
    rw [Hex.bytes?, if_neg hg] at hread
    rw [hread]
    obtain ⟨p, ps, hps⟩ := List.exists_cons_of_ne_nil (List.splitOnP_ne_nil isGap ds)
    by_cases hd : isGap d = true
    · -- the first character is a piece of its own, and no pair
      rw [pieces_of_not_isGap hg (pieces_of_isGap hd), value?_of_isGap hd]
      simp [not_paired_singleton]
    · rw [pieces, hps] at ih
      rw [pieces_of_not_isGap hg (pieces_of_not_isGap hd hps), List.forall_mem_cons,
        List.flatMap_cons]
      constructor
      · rintro ⟨high, low, rest, hc, hl, hr, rfl⟩
        obtain ⟨hall, rfl⟩ := ih.mp hr
        obtain ⟨hp, hrest⟩ := List.forall_mem_cons.mp hall
        have hpaired : Paired (c :: d :: p) :=
          paired_cons_cons.mpr ⟨by rw [isDigit, hc]; rfl, by rw [isDigit, hl]; rfl, hp⟩
        refine ⟨⟨hpaired, hrest⟩, ?_⟩
        rw [denoted_cons_cons hpaired hc hl]
        rfl
      · rintro ⟨⟨hpaired, hrest⟩, rfl⟩
        obtain ⟨hdigit, hdigit', hp⟩ := paired_cons_cons.mp hpaired
        obtain ⟨high, hc, -⟩ := exists_value hdigit
        obtain ⟨low, hl, -⟩ := exists_value hdigit'
        refine ⟨high, low, _, hc, hl, ih.mpr ⟨List.forall_mem_cons.mpr ⟨hp, hrest⟩, rfl⟩, ?_⟩
        rw [denoted_cons_cons hpaired hc hl]
        rfl

/-! ### Bytes that are written -/

theorem value?_digit {n : Nat} (h : n < 16) : value? (digit n) = some n := by
  revert n
  decide

@[simp] theorem bytes?_digits_of (bs : Bytes) : bytes? (digits bs) = some bs := by
  induction bs with
  | nil => rfl
  | cons b bs ih =>
    have hb := b.toNat_lt
    have hhigh : value? (digit (b.toNat / 16)) = some (b.toNat / 16) := value?_digit (by omega)
    have hlow : value? (digit (b.toNat % 16)) = some (b.toNat % 16) := value?_digit (by omega)
    have hgap : isGap (digit (b.toNat / 16)) = false := not_isGap (by rw [isDigit, hhigh]; rfl)
    refine (bytes?_cons_cons hgap).mpr ⟨_, _, bs, hhigh, hlow, ih, ?_⟩
    rw [Nat.div_add_mod, UInt8.ofNat_toNat]

theorem isDigit_of_mem_digits {bs : Bytes} (h : c ∈ digits bs) : isDigit c = true := by
  obtain ⟨b, -, hc⟩ := List.mem_flatMap.mp h
  have hb := b.toNat_lt
  have hdigit : ∀ {n : Nat}, n < 16 → isDigit (digit n) = true := by
    intro n hn
    rw [isDigit, value?_digit hn]
    rfl
  simp only [List.mem_cons, List.not_mem_nil, or_false] at hc
  rcases hc with rfl | rfl
  · exact hdigit (by omega)
  · exact hdigit (by omega)

/-! ### Data as users type them -/

theorem isBlank_of_isDigit (h : isDigit c = true) : Text.isBlank c = false := by
  have hc := toNat_of_isDigit h
  simp only [Text.isBlank, Bool.or_eq_false_iff, Bool.and_eq_false_iff, decide_eq_false_iff_not,
    beq_eq_false_iff_ne]
  omega

theorem toList_mark (ds : List Char) : ("0x" ++ String.ofList ds).toList = '0' :: 'x' :: ds := by
  rw [String.toList_append, String.toList_ofList, String.toList_ofList]
  rfl

/-- Digits behind a mark are not trimmed. -/
theorem trim_mark (h : ∀ d ∈ ds, isDigit d = true) :
    Text.trim ('0' :: 'x' :: ds) = '0' :: 'x' :: ds := by
  have hsolid : Text.Solid ('0' :: 'x' :: ds) := by
    intro c hc
    rcases List.mem_cons.mp hc with rfl | hc
    · decide
    rcases List.mem_cons.mp hc with rfl | hc
    · decide
    · exact isBlank_of_isDigit (h c hc)
  exact (hsolid.tight (List.cons_ne_nil _ _)).trim

@[simp] theorem payload_encode (bs : Bytes) : payload (encode bs) = digits bs := by
  rw [payload, encode, toList_mark, trim_mark fun _ => isDigit_of_mem_digits]
  rfl

theorem data?_eq_some_iff {text : String} :
    data? text = some bs ↔ Even (payload text).length ∧ bytes? (payload text) = some bs := by
  change (if (payload text).length % 2 = 1 then none else bytes? (payload text)) = some bs ↔ _
  rw [Nat.even_iff]
  by_cases h : (payload text).length % 2 = 1
  · simp [h]
  · simp [Nat.mod_two_ne_one.mp h]

/-- **The texts that are data, and their bytes.**  What is left of a text without the white space
around it and the mark has to be of even length and to consist of pieces of paired digits, with gaps
between them.  Where no gap is left, it has to be paired digits itself.  Bytes as text are always
data. -/
theorem data?_accepts (text : String) :
    (∀ bs, data? text = some bs ↔ Even (payload text).length ∧
      (∀ p ∈ pieces (payload text), Paired p) ∧ bs = (pieces (payload text)).flatMap denoted) ∧
    ((∀ c ∈ payload text, isGap c = false) →
      ∀ bs, data? text = some bs ↔ Paired (payload text) ∧ bs = denoted (payload text)) ∧
    ∀ bs, data? (encode bs) = some bs := by
  have hpieces : ∀ bs, data? text = some bs ↔ Even (payload text).length ∧
      (∀ p ∈ pieces (payload text), Paired p) ∧ bs = (pieces (payload text)).flatMap denoted := by
    intro bs
    rw [data?_eq_some_iff, bytes?_eq_some_iff]
  refine ⟨hpieces, fun hgap bs => ?_, fun bs => ?_⟩
  · rw [hpieces, pieces, List.splitOnP_eq_singleton hgap, List.forall_mem_singleton,
      List.flatMap_singleton]
    constructor
    · rintro ⟨-, h⟩
      exact h
    · intro h
      exact ⟨h.1.even, h⟩
  · have heven : Even (digits bs).length := by
      rw [digits, List.length_flatMap]
      simp
    rw [data?_eq_some_iff, payload_encode]
    exact ⟨heven, bytes?_digits_of bs⟩

/-- Digits of either case between white space, and bytes that are written. -/
theorem data?_accepts_mark :
    data? " 0XdeadBEEF " = some [0xde, 0xad, 0xbe, 0xef] ∧
      data? (encode [0xde, 0xad]) = some [0xde, 0xad] := by
  have hpayload : payload " 0XdeadBEEF " = ['d', 'e', 'a', 'd', 'B', 'E', 'E', 'F'] := by
    decide +kernel
  obtain ⟨-, hplain, hencode⟩ := data?_accepts " 0XdeadBEEF "
  rw [hpayload] at hplain
  have hdigits : Paired ['d', 'e', 'a', 'd', 'B', 'E', 'E', 'F'] :=
    ⟨List.all_eq_true.mp (by decide), by decide⟩
  exact ⟨(hplain (fun c hc => not_isGap (hdigits.isDigit c hc)) _).mpr ⟨hdigits, by decide +kernel⟩,
    hencode [0xde, 0xad]⟩

/-- White space between the digits is accepted, although what is left of the text is then no row of
digits. -/
theorem data?_gap :
    data? "12  34" = some [0x12, 0x34] ∧ ¬Paired (payload "12  34") := by
  have hpayload : payload "12  34" = ['1', '2', ' ', ' ', '3', '4'] := by decide +kernel
  refine ⟨by decide +kernel, fun h => ?_⟩
  rw [hpayload] at h
  exact absurd (h.isDigit ' ' (by decide)) (by decide)

end Hex

end WeiCalc

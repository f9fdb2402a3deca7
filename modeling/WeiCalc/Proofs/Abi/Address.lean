import Mathlib
import WeiCalc.Call.Result
import WeiCalc.Proofs.Abi.Word
import WeiCalc.Proofs.Hex

/-!
# Addresses in text

The text of an address has two readers.  The function `address` takes hexadecimal digits; an encoding
takes hexadecimal data, which may be empty and may have white space between its bytes.  On digits the
two agree, and on all else that is encoded the function answers an error.

* `Hex.Contiguous`: hexadecimal text that is not empty and has no gaps.
* `Call.addressNumber_of_data?`: what the function makes of text that can be encoded.
* `Call.result_address_of_encodeWord`: **text that is encoded as an address**, as the function reads
  it.
-/

namespace WeiCalc

namespace Hex

/-- What stands for bytes in a text: all but the white space around it and one mark in front. -/
def payload (text : String) : List Char :=
  withoutMark (Text.trim text.toList)

/-- Text that holds hexadecimal data in one piece, with at least one character. -/
structure Contiguous (text : String) : Prop where
  ne_nil : payload text ≠ []
  not_isGap : ∀ c ∈ payload text, isGap c = false

variable {text : String} {bs : Bytes}

/-- Data in one piece are digits, two for each byte, and their number is that of the bytes. -/
theorem Contiguous.integer? (hc : Contiguous text) (h : data? text = some bs) :
    NumberLiteral.integer? 16 (payload text) = some (Bytes.toNat bs) := by
  obtain ⟨hlength, hb⟩ : (payload text).length % 2 ≠ 1 ∧ bytes? (payload text) = some bs := by
    change (if (payload text).length % 2 = 1 then none else bytes? (payload text)) = some bs at h
    split_ifs at h with hodd
    exact ⟨hodd, h⟩
  have hdigits : ∀ c ∈ payload text, isDigit c = true := by
    intro c hm
    rcases isGap_or_isDigit_of_bytes? hb c hm with hg | hd
    · rw [hc.not_isGap c hm] at hg
      cases hg
    · exact hd
  obtain ⟨bs', hb', -, hn⟩ := bytes?_digits (n := (payload text).length / 2) (by omega) hdigits
  rw [hb] at hb'
  cases hb'
  rw [integer?_digits hc.ne_nil hdigits, hn]

/-- No number is read from text that is empty or has gaps. -/
theorem integer?_of_not_contiguous (hc : ¬Contiguous text) :
    NumberLiteral.integer? 16 (payload text) = none := by
  apply integer?_eq_none
  by_contra hn
  rw [not_or, not_exists] at hn
  refine hc ⟨hn.1, fun c hm => not_isGap ?_⟩
  by_contra hd
  exact hn.2 c ⟨hm, Bool.eq_false_iff.mpr hd⟩

end Hex

namespace Call

variable {text : String} {bs : Bytes}

/-- Text in one piece is the number of its bytes. -/
theorem addressNumber_of_data? (c : Call) (hc : Hex.Contiguous text)
    (h : Hex.data? text = some bs) (hl : bs.length ≤ 20) :
    c.addressNumber (.text text) = .ok (Bytes.toNat bs) := by
  have hlt : Bytes.toNat bs < Value.addressLimit := (Abi.DenotesAddress.text h hl).lt
  have hn : NumberLiteral.integer? 16 (Hex.withoutMark (Text.trim text.toList)) =
      some (Bytes.toNat bs) := hc.integer? h
  rw [addressNumber]
  simp only [hn]
  exact if_pos hlt

/-- Other text is none. -/
theorem addressNumber_of_not_contiguous (c : Call) (hc : ¬Hex.Contiguous text) :
    c.addressNumber (.text text) =
      .error (.error ⟨.literal (.notHexAddress c.function.name text), none⟩) := by
  have hn : NumberLiteral.integer? 16 (Hex.withoutMark (Text.trim text.toList)) = none :=
    Hex.integer?_of_not_contiguous hc
  rw [addressNumber]
  simp only [hn]
  rfl

/-- The function answers the number of its argument as an address. -/
theorem result_address (env : Environment) (v : Value) (ds : Diagnostics) :
    result env ⟨.address, [.value v]⟩ ds =
      (liftM (addressNumber ⟨.address, [.value v]⟩ v >>= fun n =>
        (.ok (.address (BitVec.ofNat 256 n)) : Except Failure Value)) : Eval Value) ds := rfl

theorem result_address_of_not_contiguous (hc : ¬Hex.Contiguous text) (env : Environment)
    (ds : Diagnostics) :
    result env ⟨.address, [.value (.text text)]⟩ ds =
      .error (.error ⟨.literal (.notHexAddress "address" text), none⟩) ds := by
  rw [result_address, addressNumber_of_not_contiguous _ hc]
  rfl

/-- **Text that is encoded as an address**, in a list or as a value of its own, is read by the function
as the address of the same word, if it holds its digits in one piece.  Otherwise, that is if it holds
none or white space between them, the function refuses it. -/
theorem result_address_of_encodeWord (env : Environment) {arg : RawArgument} {word : Bytes}
    (ha : arg = .piece text ∨ arg = .value (.text text))
    (h : Abi.encodeWord "address" arg = .ok word) (ds : Diagnostics) :
    (Hex.Contiguous text → ∃ w : Word,
      result env ⟨.address, [.value (.text text)]⟩ ds = .ok (.address w) ds ∧
        word = Bytes.ofNat Abi.wordSize w.toNat) ∧
    (¬Hex.Contiguous text →
      result env ⟨.address, [.value (.text text)]⟩ ds =
        .error (.error ⟨.literal (.notHexAddress "address" text), none⟩) ds) := by
  obtain ⟨bs, hd, hl, rfl⟩ : ∃ bs, Hex.data? text = some bs ∧ bs.length ≤ 20 ∧
      word = Bytes.ofNat Abi.wordSize (Bytes.toNat bs) := by
    have he := (Abi.encodeWord_of_kind (k := .address) rfl).mp h
    rcases ha with rfl | rfl
    · exact Abi.encodes_address_piece.mp he
    · exact Abi.encodes_address_piece.mp (Abi.encodes_address_text.mp he)
  constructor
  · intro hc
    have hlt : Bytes.toNat bs < Word.capacity :=
      lt_trans (Abi.DenotesAddress.text hd hl).lt (by norm_num [Word.capacity])
    refine ⟨BitVec.ofNat 256 (Bytes.toNat bs), ?_, by rw [Word.toNat_ofNat_of_lt hlt]⟩
    rw [result_address, addressNumber_of_data? _ hc hd hl]
    rfl
  · intro hc
    exact result_address_of_not_contiguous hc env ds

/-- Digits of either case, with white space around them and a mark in front. -/
theorem result_address_of_encodeWord_mark :
    let env : Environment := ⟨.standard 0, fun _ => Vector.replicate 32 0⟩
    Abi.encodeWord "address" (.value (.text " 0x00Ff ")) = .ok (Bytes.ofNat Abi.wordSize 255) ∧
      ∃ w : Word, result env ⟨.address, [.value (.text " 0x00Ff ")]⟩ #[] = .ok (.address w) #[] ∧
        Bytes.ofNat Abi.wordSize 255 = Bytes.ofNat Abi.wordSize w.toNat := by
  intro env
  have hword : Abi.encodeWord "address" (.value (.text " 0x00Ff ")) =
      .ok (Bytes.ofNat Abi.wordSize 255) := by decide +kernel
  have hpayload : Hex.payload " 0x00Ff " = ['0', '0', 'F', 'f'] := by decide +kernel
  have hc : Hex.Contiguous " 0x00Ff " :=
    ⟨by rw [hpayload]; decide, by simp [hpayload, Hex.isGap]⟩
  exact ⟨hword, (result_address_of_encodeWord env (Or.inr rfl) hword #[]).1 hc⟩

/-- White space between the bytes of an address, and no bytes at all, are encoded but refused by the
function. -/
theorem result_address_gap :
    (Abi.encodeWord "address" (.value (.text "12  34")) = .ok (Bytes.ofNat Abi.wordSize 0x1234) ∧
      ∀ env ds, result env ⟨.address, [.value (.text "12  34")]⟩ ds =
        .error (.error ⟨.literal (.notHexAddress "address" "12  34"), none⟩) ds) ∧
    Abi.encodeWord "address" (.value (.text "0x")) = .ok (Bytes.ofNat Abi.wordSize 0) ∧
      ∀ env ds, result env ⟨.address, [.value (.text "0x")]⟩ ds =
        .error (.error ⟨.literal (.notHexAddress "address" "0x"), none⟩) ds := by
  have hgap : ¬Hex.Contiguous "12  34" := by
    intro hc
    have hspace : Hex.isGap ' ' = false := hc.not_isGap ' ' (by decide +kernel)
    exact absurd hspace (by decide)
  have hnone : ¬Hex.Contiguous "0x" := by
    intro hc
    exact hc.ne_nil (by decide +kernel)
  exact ⟨⟨by decide +kernel, result_address_of_not_contiguous hgap⟩,
    by decide +kernel, result_address_of_not_contiguous hnone⟩

end Call

end WeiCalc

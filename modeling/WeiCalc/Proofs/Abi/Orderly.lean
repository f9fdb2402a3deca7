import Mathlib
import WeiCalc.Proofs.Abi.Signature
import WeiCalc.Proofs.Abi.Word
import WeiCalc.Proofs.Orderly

/-!
# Encoding and decoding end orderly

A signature that is read has a canonical text in ASCII, so that its selector can be computed; and a
word of 32 bytes holds a number of 256 bits, so that it can be made a value.

* `selector_orderly`: selectors of well-formed signatures.
* `decodeCall_orderly`: decoding of any bytes by a well-formed signature.
-/

namespace WeiCalc

theorem Value.ofNat_orderly {n : Nat} (h : n < Word.capacity) :
    Orderly (fun _ => True) (Value.ofNat n) := by
  rw [Abi.value_ofNat_of_lt h]
  exact .pure trivial

theorem Value.ofInt_orderly {i : Int} (h : i < Word.capacity) :
    Orderly (fun _ => True) (Value.ofInt i) := by
  cases i with
  | ofNat n => exact Value.ofNat_orderly (Int.ofNat_lt.mp h)
  | negSucc n => exact .pure trivial

namespace Abi

variable {s : Signature}

theorem selector_orderly (hw : s.Wellformed) (hash : Hash) :
    Orderly (fun _ => True) (s.selector hash) := by
  have ha : s.canonical.toList.all (·.toNat < 128) := by
    simpa [List.all_eq_true, Ascii] using hw.ascii
  rw [Signature.selector]
  refine (Orderly.mapError_any _ _).bind fun _ _ => ?_
  rw [if_pos ha]
  exact .pure trivial

theorem encodeCall_orderly (hw : s.Wellformed) (hash : Hash) (args : List RawArgument) :
    Orderly (fun _ => True) (encodeCall hash s args) := by
  refine (selector_orderly hw hash).bind fun selector _ => ?_
  refine (Orderly.liftError_any _).bind fun words _ => ?_
  exact .pure trivial

theorem decodeWord_orderly (abiType : String) {word : Bytes} (hl : word.length = wordSize) :
    Orderly (fun _ => True) (decodeWord abiType word) := by
  have hlt := toNat_word_lt hl
  have hs : signedOfWord (Bytes.toNat word) < Word.capacity := by
    have h := signedOfWord_lt hlt
    rw [capacity_cast]
    omega
  rw [decodeWord]
  refine (Orderly.mapError_any _ _).bind fun kind _ => ?_
  cases kind with
  | address => exact Orderly.ite fun _ => .pure trivial
  | bool => exact Orderly.ite fun _ => .pure trivial
  | sized name size =>
    cases name with
    | uint => exact Orderly.ite fun _ => Value.ofNat_orderly hlt
    | int => exact Orderly.ite fun _ => Value.ofInt_orderly hs
    | bytes => exact Orderly.ite fun _ => .pure trivial

theorem decodeWords_orderly {ps : List Param} :
    ∀ {names : List String} {bs : Bytes}, bs.length = wordSize * ps.length →
      Orderly (fun _ => True) (decodeWords ps names bs) := by
  induction ps with
  | nil =>
    intro names bs _
    exact .pure trivial
  | cons p ps ih =>
    intro names bs hl
    have hw : wordSize = 32 := rfl
    rw [List.length_cons, Nat.mul_succ] at hl
    cases names with
    | nil => exact .pure trivial
    | cons name names =>
      have hword : (bs.take wordSize).length = wordSize := by
        rw [List.length_take]
        omega
      have hrest : (bs.drop wordSize).length = wordSize * ps.length := by
        rw [List.length_drop]
        omega
      refine (decodeWord_orderly _ hword).bind fun value _ => ?_
      exact (ih hrest).bind fun fields _ => .pure trivial

theorem decodeArguments_orderly (s : Signature) (bs : Bytes) :
    Orderly (fun _ => True) (decodeArguments s bs) := by
  rw [decodeArguments]
  by_cases hl : bs.length = wordSize * s.params.length
  · simp only [hl, ne_eq, not_true_eq_false, if_false]
    exact (decodeWords_orderly hl).bind fun fields _ => .pure trivial
  · simp only [ne_eq, hl, not_false_eq_true, if_true]
    exact .throw _

/-- **Decoding ends orderly** for any bytes. -/
theorem decodeCall_orderly (hw : s.Wellformed) (hash : Hash) (bs : Bytes) :
    Orderly (fun _ => True) (decodeCall hash s bs) := by
  rw [decodeCall]
  refine (Orderly.mapError_any _ _).bind fun _ _ => ?_
  by_cases hl : bs.length < Signature.selectorSize
  · simp only [if_pos hl]
    exact .throw _
  simp only [if_neg hl]
  refine (selector_orderly hw hash).bind fun expected _ => ?_
  by_cases he : bs.take Signature.selectorSize = expected
  · simp only [he, ne_eq, not_true_eq_false, if_false]
    exact decodeArguments_orderly s _
  · simp only [ne_eq, he, not_false_eq_true, if_true]
    exact .throw _

end Abi

end WeiCalc

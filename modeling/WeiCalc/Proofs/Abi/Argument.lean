import Mathlib
import WeiCalc.Abi.Codec
import WeiCalc.Proofs.Abi.Bytes
import WeiCalc.Proofs.Run

/-!
# What arguments stand for

An argument is a piece of text or a value, and what it stands for depends on the type it is encoded
as: an integer, bytes, a truth value or an address.  These readings are relations here, said case by
case; the operations of the codec answer exactly what they relate.

* `argumentInteger_eq_ok`, `argumentBytes_eq_ok`, `argumentBool_eq_ok`: the operations decide them.
* `Denotes.unique`: an argument stands for one integer at most.
-/

namespace WeiCalc

namespace Abi

/-- The integer that an argument stands for.  Where signed integers are expected, numbers are read in
two's complement. -/
inductive Denotes (signed : Bool) : RawArgument → Int → Prop
  | piece {t : String} {n : Int} : integerOfText t = .ok n → Denotes signed (.piece t) n
  | text {t : String} {n : Int} : integerOfText t = .ok n → Denotes signed (.value (.text t)) n
  | bool (b : Bool) : Denotes signed (.value (.bool b)) b.toNat
  | number {w : Word} (hint : Option Nat) : signed = false ∨ w.toNat < 2 ^ 255 →
      Denotes signed (.value (.uint w hint)) w.toNat
  | negative {w : Word} (hint : Option Nat) : signed = true → 2 ^ 255 ≤ w.toNat →
      Denotes signed (.value (.uint w hint)) (w.toNat - 2 ^ 256)

/-- The bytes that an argument stands for where at most `size` of them are expected. -/
inductive DenotesBytes (size : Nat) : RawArgument → Bytes → Prop
  | piece {t : String} {bs : Bytes} : Hex.data? t = some bs → bs.length ≤ size →
      DenotesBytes size (.piece t) bs
  | text {t : String} {bs : Bytes} : Hex.data? t = some bs → bs.length ≤ size →
      DenotesBytes size (.value (.text t)) bs
  | bytes {bs : Bytes} : bs.length ≤ size → DenotesBytes size (.value (.bytes bs)) bs
  | number {w : Word} (hint : Option Nat) : w.toNat < 256 ^ size →
      DenotesBytes size (.value (.uint w hint)) (Bytes.ofNat size w.toNat)

/-- The truth value that an argument stands for. -/
inductive DenotesBool : RawArgument → Bool → Prop
  | piece {t : String} {b : Bool} : boolOfText t = .ok b → DenotesBool (.piece t) b
  | text {t : String} {b : Bool} : boolOfText t = .ok b → DenotesBool (.value (.text t)) b
  | bool (b : Bool) : DenotesBool (.value (.bool b)) b
  | number {w : Word} {b : Bool} (hint : Option Nat) : w.toNat = b.toNat →
      DenotesBool (.value (.uint w hint)) b

/-- The address that an argument stands for: text is hexadecimal data, all else a number. -/
inductive DenotesAddress : RawArgument → Nat → Prop
  | piece {t : String} {bs : Bytes} : Hex.data? t = some bs → bs.length ≤ 20 →
      DenotesAddress (.piece t) (Bytes.toNat bs)
  | text {t : String} {bs : Bytes} : Hex.data? t = some bs → bs.length ≤ 20 →
      DenotesAddress (.value (.text t)) (Bytes.toNat bs)
  | bool (b : Bool) : DenotesAddress (.value (.bool b)) b.toNat
  | number {w : Word} (hint : Option Nat) : w.toNat < 2 ^ 160 →
      DenotesAddress (.value (.uint w hint)) w.toNat

variable {signed : Bool} {size : Nat} {abiType : String} {arg : RawArgument}

theorem Denotes.unique {n m : Int} (hn : Denotes signed arg n) (hm : Denotes signed arg m) :
    n = m := by
  cases hn with
  | piece h => cases hm with | piece h' => exact Except.ok.inj (h.symm.trans h')
  | text h => cases hm with | text h' => exact Except.ok.inj (h.symm.trans h')
  | bool b => cases hm; rfl
  | number hint h =>
    cases hm with
    | number _ _ => rfl
    | negative _ hs hw => rcases h with h | h <;> first | omega | simp_all
  | negative hint hs hw =>
    cases hm with
    | number _ h => rcases h with h | h <;> first | omega | simp_all
    | negative _ _ _ => rfl

theorem toInt_of_lt {w : Word} (h : w.toNat < 2 ^ 255) : w.toInt = w.toNat := by
  rw [BitVec.toInt_eq_toNat_cond, if_pos (by omega)]

theorem toInt_of_le {w : Word} (h : 2 ^ 255 ≤ w.toNat) : w.toInt = w.toNat - 2 ^ 256 := by
  rw [BitVec.toInt_eq_toNat_cond, if_neg (by omega)]
  norm_num

/-- **The integer of an argument is the one it stands for.** -/
theorem argumentInteger_eq_ok {n : Int} :
    argumentInteger abiType signed arg = .ok n ↔ Denotes signed arg n := by
  constructor
  · intro h
    cases arg with
    | piece t => exact .piece h
    | value v =>
      cases v with
      | text t => exact .text h
      | bool b => cases h; exact .bool b
      | bytes bs => cases h
      | list fields => cases h
      | uint w hint =>
        cases h
        cases signed with
        | false => exact .number hint (Or.inl rfl)
        | true =>
          rw [if_pos rfl]
          by_cases hw : w.toNat < 2 ^ 255
          · rw [toInt_of_lt hw]
            exact .number hint (Or.inr hw)
          · rw [toInt_of_le (Nat.le_of_not_lt hw)]
            exact .negative hint rfl (Nat.le_of_not_lt hw)
  · intro h
    cases h with
    | piece h => exact h
    | text h => exact h
    | bool b => rfl
    | @number w hint hw =>
      rw [argumentInteger]
      cases signed with
      | false => rfl
      | true => rw [if_pos rfl, toInt_of_lt (hw.resolve_left (by decide))]
    | @negative w hint hs hw => rw [argumentInteger, if_pos hs, toInt_of_le hw]

theorem atMost_eq_ok {bs bs' : Bytes} :
    atMost size abiType bs = .ok bs' ↔ bs' = bs ∧ bs.length ≤ size := by
  rw [atMost]
  by_cases h : size < bs.length
  · simp [h, Nat.not_le.mpr h]
  · simp [h, Nat.le_of_not_lt h, eq_comm]

theorem textBytes_eq_ok {t : String} {bs : Bytes} :
    textBytes t abiType = .ok bs ↔ Hex.data? t = some bs := by
  rw [textBytes]
  cases Hex.data? t <;> simp

/-- Hexadecimal text as an argument. -/
theorem textBytes_bind_eq_ok {t : String} {bs : Bytes} :
    (textBytes t abiType >>= atMost size abiType) = .ok bs ↔
      Hex.data? t = some bs ∧ bs.length ≤ size := by
  constructor
  · intro h
    obtain ⟨bs', ht, h⟩ := except_bind_eq_ok h
    obtain ⟨rfl, hl⟩ := atMost_eq_ok.mp h
    exact ⟨textBytes_eq_ok.mp ht, hl⟩
  · rintro ⟨ht, hl⟩
    rw [textBytes_eq_ok.mpr ht]
    exact atMost_eq_ok.mpr ⟨rfl, hl⟩

theorem pow_eight (size : Nat) : Nat.pow 2 (8 * size) = 256 ^ size := by
  change 2 ^ (8 * size) = 256 ^ size
  rw [pow_mul]
  rfl

/-- **The bytes of an argument are the ones it stands for.** -/
theorem argumentBytes_eq_ok {bs : Bytes} :
    argumentBytes size abiType arg = .ok bs ↔ DenotesBytes size arg bs := by
  constructor
  · intro h
    cases arg with
    | piece t =>
      obtain ⟨ht, hl⟩ := textBytes_bind_eq_ok.mp h
      exact .piece ht hl
    | value v =>
      cases v with
      | text t =>
        obtain ⟨ht, hl⟩ := textBytes_bind_eq_ok.mp h
        exact .text ht hl
      | bytes bs' =>
        obtain ⟨rfl, hl⟩ := atMost_eq_ok.mp h
        exact .bytes hl
      | bool b => cases h
      | list fields => cases h
      | uint w hint =>
        rw [argumentBytes, pow_eight] at h
        by_cases hw : w.toNat < 256 ^ size
        · rw [if_pos hw] at h
          cases h
          exact .number hint hw
        · rw [if_neg hw] at h
          cases h
  · intro h
    cases h with
    | piece ht hl => exact textBytes_bind_eq_ok.mpr ⟨ht, hl⟩
    | text ht hl => exact textBytes_bind_eq_ok.mpr ⟨ht, hl⟩
    | bytes hl => exact atMost_eq_ok.mpr ⟨rfl, hl⟩
    | number hint hw => rw [argumentBytes, pow_eight, if_pos hw]

theorem DenotesBytes.length_le {bs : Bytes} (h : DenotesBytes size arg bs) : bs.length ≤ size := by
  cases h with
  | piece _ hl => exact hl
  | text _ hl => exact hl
  | bytes hl => exact hl
  | number _ _ => simp

/-- **The truth value of an argument is the one it stands for.** -/
theorem argumentBool_eq_ok {b : Bool} : argumentBool arg = .ok b ↔ DenotesBool arg b := by
  constructor
  · intro h
    cases arg with
    | piece t => exact .piece h
    | value v =>
      cases v with
      | text t => exact .text h
      | bool b => cases h; exact .bool b
      | bytes bs => cases h
      | list fields => cases h
      | uint w hint =>
        simp only [argumentBool] at h
        by_cases hw : w.toNat ≤ 1
        · rw [if_pos hw] at h
          cases h
          refine .number hint ?_
          interval_cases w.toNat <;> rfl
        · rw [if_neg hw] at h
          cases h
  · intro h
    cases h with
    | piece h => exact h
    | text h => exact h
    | bool b => rfl
    | @number w _ hint hw =>
      simp only [argumentBool, hw]
      cases b <;> rfl

end Abi

end WeiCalc

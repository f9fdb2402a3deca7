import Mathlib
import WeiCalc.Word

/-!
# Bytes and numbers

Big-endian bytes are the digits of a number to the base 256: `Bytes.toNat` and `Bytes.ofNat` are
inverse to each other between byte strings of one length and the numbers that fit.

* `toNat_ofNat`, `ofNat_toNat`: the two round trips.
* `toNat_lt`: the number of a byte string fits into its length.
-/

namespace WeiCalc

namespace Bytes

@[simp] theorem length_ofNat (width n : Nat) : (ofNat width n).length = width := by
  induction width with
  | zero => rfl
  | succ width ih => rw [ofNat, List.length_cons, ih]

theorem foldl_eq (bs : Bytes) (n : Nat) :
    bs.foldl (fun n b => 256 * n + b.toNat) n = 256 ^ bs.length * n + toNat bs := by
  induction bs generalizing n with
  | nil => simp [toNat]
  | cons b bs ih =>
    rw [toNat, List.foldl_cons, List.foldl_cons, ih, ih (256 * 0 + b.toNat), List.length_cons,
      pow_succ]
    ring

@[simp] theorem toNat_nil : toNat [] = 0 := rfl

theorem toNat_cons (b : UInt8) (bs : Bytes) :
    toNat (b :: bs) = 256 ^ bs.length * b.toNat + toNat bs := by
  rw [toNat, List.foldl_cons, foldl_eq]
  ring

theorem toNat_lt (bs : Bytes) : toNat bs < 256 ^ bs.length := by
  induction bs with
  | nil => simp
  | cons b bs ih =>
    have hb : b.toNat + 1 ≤ 256 := UInt8.toNat_lt b
    have hm : 256 ^ bs.length * (b.toNat + 1) ≤ 256 ^ bs.length * 256 := Nat.mul_le_mul_left _ hb
    rw [toNat_cons, List.length_cons, pow_succ]
    rw [Nat.mul_add, Nat.mul_one] at hm
    omega

/-- Writing a number into bytes keeps what fits. -/
@[simp] theorem toNat_ofNat (width n : Nat) : toNat (ofNat width n) = n % 256 ^ width := by
  induction width with
  | zero => simp [ofNat, Nat.mod_one]
  | succ width ih =>
    have hb : (UInt8.ofNat (n / Nat.pow 256 width)).toNat = n / 256 ^ width % 256 := UInt8.toNat_ofNat
    rw [ofNat, toNat_cons, length_ofNat, ih, hb, pow_succ, Nat.mod_mul]
    exact Nat.add_comm _ _

theorem toNat_ofNat_of_lt {width n : Nat} (h : n < 256 ^ width) : toNat (ofNat width n) = n := by
  rw [toNat_ofNat, Nat.mod_eq_of_lt h]

/-- The bytes of a number that are looked at do not depend on multiples of their range. -/
@[simp] theorem ofNat_add_mul (width n k : Nat) :
    ofNat width (n + 256 ^ width * k) = ofNat width n := by
  induction width generalizing k with
  | zero => rfl
  | succ width ih =>
    have hp : 0 < 256 ^ width := by positivity
    have hq : (n + 256 ^ (width + 1) * k) / Nat.pow 256 width = n / 256 ^ width + 256 * k := by
      rw [pow_succ, Nat.mul_assoc]
      exact Nat.add_mul_div_left _ _ hp
    rw [ofNat, ofNat, hq]
    congr 1
    · apply UInt8.toNat_inj.mp
      rw [UInt8.toNat_ofNat', UInt8.toNat_ofNat']
      exact Nat.add_mul_mod_self_left _ _ _
    · rw [pow_succ, Nat.mul_assoc, ih]

/-- **A byte string is what its number is written as.** -/
@[simp] theorem ofNat_toNat (bs : Bytes) : ofNat bs.length (toNat bs) = bs := by
  induction bs with
  | nil => rfl
  | cons b bs ih =>
    have hp : 0 < 256 ^ bs.length := by positivity
    have hq : (256 ^ bs.length * b.toNat + toNat bs) / Nat.pow 256 bs.length = b.toNat := by
      have hd : (256 ^ bs.length * b.toNat + toNat bs) / 256 ^ bs.length =
          b.toNat + toNat bs / 256 ^ bs.length := Nat.mul_add_div hp _ _
      rw [Nat.div_eq_of_lt (toNat_lt bs), Nat.add_zero] at hd
      exact hd
    rw [toNat_cons, List.length_cons, ofNat, hq, Nat.add_comm, ofNat_add_mul, ih, UInt8.ofNat_toNat]

theorem ofNat_toNat_of_length {width : Nat} {bs : Bytes} (h : bs.length = width) :
    ofNat width (toNat bs) = bs := by
  rw [← h, ofNat_toNat]

end Bytes

end WeiCalc

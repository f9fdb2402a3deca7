import WeiCalc.Text.Hex

/-!
# Words

The numbers of the calculator are 256-bit words. A word is read as an unsigned integer, and as a
signed one in two's complement where a signed parameter asks for it. Bytes are big-endian.
-/

namespace WeiCalc

/-- A 256-bit word. -/
abbrev Word := BitVec 256

namespace Word

/-- One more than the greatest word. -/
abbrev capacity : Nat := Nat.pow 2 256

/-- The greatest word. -/
def greatest : Word := BitVec.allOnes 256

/-- The word of a natural number that fits. -/
def ofNat? (n : Nat) : Option Word :=
  if n < capacity then some (BitVec.ofNat 256 n) else none

/-- The word of an integer that is not negative and fits. -/
def ofInt? : Int → Option Word
  | .ofNat n => ofNat? n
  | .negSucc _ => none

end Word

namespace Bytes

/-- The number that bytes denote, the most significant one first. -/
def toNat (bs : Bytes) : Nat :=
  bs.foldl (fun n b => 256 * n + b.toNat) 0

/-- The last `width` bytes of a number, the most significant one first. -/
def ofNat : (width : Nat) → Nat → Bytes
  | 0, _ => []
  | width + 1, n => UInt8.ofNat (n / Nat.pow 256 width) :: ofNat width n

end Bytes

end WeiCalc

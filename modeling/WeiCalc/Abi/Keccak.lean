import WeiCalc.Word

/-!
# Keccak-256

The sponge over the permutation of 1600 bits, with a rate of 136 bytes and the padding that begins
with the byte one. A state is 25 lanes of 64 bits; lane `x + 5 * y` is the one in column `x` and
row `y`.
-/

namespace WeiCalc

/-- A digest of 32 bytes. -/
abbrev Digest := Vector UInt8 32

/-- A hash function with digests of 32 bytes. -/
abbrev Hash := Bytes → Digest

namespace Keccak

/-- The 25 lanes of the permutation. -/
abbrev State := Vector UInt64 25

/-- The constants of the 24 rounds. -/
def roundConstants : List UInt64 :=
  [
    0x0000000000000001, 0x0000000000008082, 0x800000000000808a, 0x8000000080008000,
    0x000000000000808b, 0x0000000080000001, 0x8000000080008081, 0x8000000000008009,
    0x000000000000008a, 0x0000000000000088, 0x0000000080008009, 0x000000008000000a,
    0x000000008000808b, 0x800000000000008b, 0x8000000000008089, 0x8000000000008003,
    0x8000000000008002, 0x8000000000000080, 0x000000000000800a, 0x800000008000000a,
    0x8000000080008081, 0x8000000000008080, 0x0000000080000001, 0x8000000080008008]

/-- How far each lane is rotated. -/
def rotations : Vector UInt64 25 :=
  #v[
    0, 1, 62, 28, 27, 36, 44, 6, 55, 20, 3, 10, 43, 25, 39, 41, 45, 15, 21, 8, 18, 2, 61, 56, 14]

/-- Rotation of a lane to the left. -/
def rotate (lane n : UInt64) : UInt64 :=
  if n = 0 then lane else (lane <<< n) ||| (lane >>> (64 - n))

/-- The lane in a column and a row, both taken modulo five. -/
def lane (s : State) (x y : Nat) : UInt64 :=
  s.get (Fin.ofNat 25 (x % 5 + 5 * (y % 5)))

/-- The sum of a column. -/
def parity (s : State) (x : Nat) : UInt64 :=
  lane s x 0 ^^^ lane s x 1 ^^^ lane s x 2 ^^^ lane s x 3 ^^^ lane s x 4

/-- Adds to every lane the sums of two columns beside it. -/
def theta (s : State) : State :=
  let sums := Vector.ofFn fun x : Fin 5 =>
    parity s (x.val + 4) ^^^ rotate (parity s (x.val + 1)) 1
  Vector.ofFn fun i : Fin 25 => s.get i ^^^ sums.get (Fin.ofNat 5 i.val)

/-- Rotates the lanes and moves them to their new places. -/
def rhoPi (s : State) : State :=
  Vector.ofFn fun i : Fin 25 =>
    let y := i.val % 5
    let x := (y + 3 * (i.val / 5)) % 5
    rotate (lane s x y) (lane rotations x y)

/-- Adds to every lane a product of the two lanes behind it in its row. -/
def chi (s : State) : State :=
  Vector.ofFn fun i : Fin 25 =>
    let x := i.val % 5
    let y := i.val / 5
    s.get i ^^^ ((~~~lane s (x + 1) y) &&& lane s (x + 2) y)

/-- One round of the permutation. -/
def round (s : State) (constant : UInt64) : State :=
  let t := chi (rhoPi (theta s))
  t.set 0 (t.get 0 ^^^ constant)

/-- The permutation. -/
def permute (s : State) : State :=
  roundConstants.foldl round s

/-- The number of bytes that are taken in between two permutations. -/
def rate : Nat := 136

/-- A message, filled up to a whole number of blocks. -/
def padded (message : Bytes) : Bytes :=
  let missing := rate - message.length % rate
  if missing = 1 then message ++ [0x81]
  else message ++ 0x01 :: List.replicate (missing - 2) 0x00 ++ [0x80]

/-- The lane that eight bytes make, the least significant one first. -/
def laneOfBytes (bs : Bytes) : UInt64 :=
  bs.foldr (fun b lane => (lane <<< 8) ||| b.toUInt64) 0

/-- Adds a block to a state. -/
def absorb (s : State) (block : Bytes) : State :=
  Vector.ofFn fun i : Fin 25 => s.get i ^^^ laneOfBytes ((block.drop (8 * i.val)).take 8)

/-- Takes in the first `count` blocks. -/
def absorbAll : (count : Nat) → Bytes → State → State
  | 0, _, s => s
  | count + 1, bs, s => absorbAll count (bs.drop rate) (permute (absorb s (bs.take rate)))

/-- The first 32 bytes of a state. -/
def squeeze (s : State) : Digest :=
  Vector.ofFn fun i : Fin 32 =>
    (s.get (Fin.ofNat 25 (i.val / 8)) >>> UInt64.ofNat (8 * (i.val % 8))).toUInt8

/-- The digest of a message. -/
def digest (message : Bytes) : Digest :=
  let bs := padded message
  squeeze (absorbAll (bs.length / rate) bs (Vector.replicate 25 0))

end Keccak

end WeiCalc

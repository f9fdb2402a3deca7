import WeiCalc.Abi.Keccak
import WeiCalc.Error
import WeiCalc.Text.Blank

/-!
# Address checksums

An address is written with a checksum in the case of its letters: a letter is in upper case if the
digit at its place in the hash of the lower-case digits is eight or more.
-/

namespace WeiCalc

namespace Checksum

/-- The forty hexadecimal digits of an address, given with or without a leading `0x`. -/
def digits? (text : String) : Option (List Char) :=
  let cs := Text.trim text.toList
  let ds :=
    match cs with
    | '0' :: 'x' :: rest => rest
    | _ => cs
  if ds.length = 40 ∧ ds.all Hex.isDigit then some ds else none

/-- The bytes of a text in ASCII. -/
def ascii (cs : List Char) : Bytes :=
  cs.map fun c => UInt8.ofNat c.toNat

/-- The hexadecimal digits of bytes, as numbers. -/
def nibbles (bs : Bytes) : List Nat :=
  bs.flatMap fun b => [b.toNat / 16, b.toNat % 16]

/-- The digits of an address in the case that a hash gives them. -/
def cased (hash : Hash) (lowered : List Char) : List Char :=
  let ns := nibbles (hash (ascii lowered)).toList
  lowered.zipWith (fun c n => if 8 ≤ n then c.toUpper else c) ns

/-- An address with its checksum. -/
def ofText (hash : Hash) (text : String) : Except Cause String :=
  match digits? text with
  | some ds => .ok ("0x" ++ String.ofList (cased hash (ds.map Char.toLower)))
  | none => .error (.literal (.notAddress text))

end Checksum

end WeiCalc

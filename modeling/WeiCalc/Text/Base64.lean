import WeiCalc.Text.Hex

/-!
# Base64

Bytes as text over an alphabet of 64 characters: three bytes are four characters, and equals signs
fill up the last four. `Base64.decode?` refuses every other character. Equals signs that are not
needed may follow data whose length is a multiple of four, and bits of the last character that
belong to no byte do not count.
-/

namespace WeiCalc

namespace Base64

/-- The character of a number below 64. -/
def digit (n : Nat) : Char :=
  if n < 26 then Char.ofNat (0x41 + n)
  else if n < 52 then Char.ofNat (0x61 + (n - 26))
  else if n < 62 then Char.ofNat (0x30 + (n - 52))
  else if n = 62 then '+'
  else '/'

/-- The number of a character of the alphabet. -/
def value? (c : Char) : Option Nat :=
  if 'A' ≤ c ∧ c ≤ 'Z' then some (c.toNat - 0x41)
  else if 'a' ≤ c ∧ c ≤ 'z' then some (c.toNat - 0x61 + 26)
  else if '0' ≤ c ∧ c ≤ '9' then some (c.toNat - 0x30 + 52)
  else if c = '+' then some 62
  else if c = '/' then some 63
  else none

/-- The character that stands for six bits of a number, `place` characters from the right. -/
def digitAt (n place : Nat) : Char :=
  digit (n / Nat.pow 64 place % 64)

/-- Bytes as characters. -/
def encodeChars : Bytes → List Char
  | a :: b :: c :: rest =>
    let n := 65536 * a.toNat + 256 * b.toNat + c.toNat
    digitAt n 3 :: digitAt n 2 :: digitAt n 1 :: digitAt n 0 :: encodeChars rest
  | [a, b] =>
    let n := 65536 * a.toNat + 256 * b.toNat
    [digitAt n 3, digitAt n 2, digitAt n 1, '=']
  | [a] =>
    let n := 65536 * a.toNat
    [digitAt n 3, digitAt n 2, '=', '=']
  | [] => []

/-- Bytes as text. -/
def encode (bs : Bytes) : String :=
  String.ofList (encodeChars bs)

/-- The bytes of numbers of six bits; bits that fill no byte are dropped. -/
def bytesOf : List Nat → Bytes
  | a :: b :: c :: d :: rest =>
    UInt8.ofNat (4 * a + b / 16) :: UInt8.ofNat (16 * b + c / 4) :: UInt8.ofNat (64 * c + d) ::
      bytesOf rest
  | [a, b, c] => [UInt8.ofNat (4 * a + b / 16), UInt8.ofNat (16 * b + c / 4)]
  | [a, b] => [UInt8.ofNat (4 * a + b / 16)]
  | _ => []

/-- May `count` equals signs follow data of the given length? -/
def admitsPadding (length count : Nat) : Bool :=
  match length % 4 with
  | 0 => length != 0 || count == 0
  | 1 => false
  | 2 => count == 2
  | _ => count == 1

/-- The bytes that a text stands for. -/
def decode? (cs : List Char) : Option Bytes := do
  let data := cs.takeWhile (· != '=')
  let padding := cs.dropWhile (· != '=')
  let ns ← data.mapM value?
  if padding.all (· == '=') && admitsPadding data.length padding.length then some (bytesOf ns)
  else none

end Base64

end WeiCalc

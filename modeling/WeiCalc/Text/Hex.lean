import WeiCalc.Text.Blank

/-!
# Hexadecimal text

Bytes as pairs of hexadecimal digits. Writing uses lower case; reading takes either case.
`Hex.bytes?` reads bare pairs between which ASCII white space may stand, and `Hex.data?` reads the
form that users type: white space around it and one `0x` in front are allowed.
-/
namespace WeiCalc

/-- A byte string. -/
abbrev Bytes := List UInt8

namespace Hex

/-- The digit of a number below sixteen, in lower case. -/
def digit (n : Nat) : Char :=
  if n < 10 then Char.ofNat (0x30 + n) else Char.ofNat (0x57 + n)

/-- The value of a hexadecimal digit of either case. -/
def value? (c : Char) : Option Nat :=
  if '0' ≤ c ∧ c ≤ '9' then some (c.toNat - 0x30)
  else if 'a' ≤ c ∧ c ≤ 'f' then some (c.toNat - 0x57)
  else if 'A' ≤ c ∧ c ≤ 'F' then some (c.toNat - 0x37)
  else none

def isDigit (c : Char) : Bool :=
  (value? c).isSome

/-- Two digits for each byte. -/
def digits (bs : Bytes) : List Char :=
  bs.flatMap fun b => [digit (b.toNat / 16), digit (b.toNat % 16)]

/-- Bytes as text with a leading `0x`. -/
def encode (bs : Bytes) : String :=
  "0x" ++ String.ofList (digits bs)

/-- The white space that may stand between two bytes. -/
def isGap (c : Char) : Bool :=
  c == ' ' || ('\t' ≤ c && c ≤ '\r')

/-- The bytes that pairs of digits denote. White space may stand between two pairs. -/
def bytes? : List Char → Option Bytes
  | [] => some []
  | c :: cs =>
    if isGap c then bytes? cs
    else
      match cs with
      | [] => none
      | d :: ds => do
        let high ← value? c
        let low ← value? d
        let rest ← bytes? ds
        return UInt8.ofNat (16 * high + low) :: rest

/-- A text without a leading `0x` or `0X`. -/
def withoutMark : List Char → List Char
  | '0' :: 'x' :: cs => cs
  | '0' :: 'X' :: cs => cs
  | cs => cs

/--
The bytes of hexadecimal data as users type it. Surrounding white space and one leading `0x` are
dropped first; what remains has to be of even length, white space within it counted.
-/
def data? (text : String) : Option Bytes :=
  let cs := withoutMark (Text.trim text.toList)
  if cs.length % 2 = 1 then none else bytes? cs

end Hex

end WeiCalc

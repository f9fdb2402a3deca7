import WeiCalc.Error
import WeiCalc.Text.Digits

/-!
# Types of the contract interface

A type is elementary, a tuple of types or an array of a type. Its canonical text is the one that
selectors are computed from. `StaticKind` describes the elementary types whose values take up
exactly one word.
-/

namespace WeiCalc

/-- A type of the contract interface, with canonical elementary names. -/
inductive AbiType where
  | elementary (name : List Char)
  | tuple (components : List AbiType)
  /-- An array; the length is written in digits, or not at all if it is not fixed. -/
  | array (element : AbiType) (length : List Char)
  deriving Repr, Inhabited

mutual

/-- The canonical text of a type. -/
def AbiType.canonical : AbiType → List Char
  | .elementary name => name
  | .tuple components => '(' :: (canonicalList components ++ [')'])
  | .array element length => element.canonical ++ '[' :: (length ++ [']'])

/-- The canonical texts of types, with commas between them. -/
def canonicalList : List AbiType → List Char
  | [] => []
  | [t] => t.canonical
  | t :: ts => t.canonical ++ ',' :: canonicalList ts

end

/-- The names of the elementary types that come in sizes. -/
inductive SizedName where
  | uint
  | int
  | bytes
  deriving DecidableEq, Repr

namespace SizedName

def text : SizedName → List Char
  | uint => ['u', 'i', 'n', 't']
  | int => ['i', 'n', 't']
  | bytes => ['b', 'y', 't', 'e', 's']

/-- The name in front of a text, and what follows it. -/
def inFrontOf? : List Char → Option (SizedName × List Char)
  | 'u' :: 'i' :: 'n' :: 't' :: cs => some (uint, cs)
  | 'i' :: 'n' :: 't' :: cs => some (int, cs)
  | 'b' :: 'y' :: 't' :: 'e' :: 's' :: cs => some (bytes, cs)
  | _ => none

/-- The number that one or more decimal digits write. A line feed may follow the last one. -/
def size? (cs : List Char) : Option Nat :=
  let ds := if cs.getLast? = some '\n' then cs.dropLast else cs
  if !ds.isEmpty && ds.all Char.isDigit then
    some (Text.ofDecimal ds)
  else none

/-- A sized name and its size. -/
def ofText? (cs : List Char) : Option (SizedName × Nat) := do
  let (name, rest) ← inFrontOf? cs
  return (name, ← size? rest)

/-- Is there an elementary type of that name and size? -/
def admits : SizedName → Nat → Bool
  | bytes, n => 1 ≤ n && n ≤ 32
  | _, n => 8 ≤ n && n ≤ 256 && n % 8 == 0

end SizedName

/-- An elementary type of one word. The size is in bits for integers and in bytes otherwise. -/
inductive StaticKind where
  | address
  | bool
  | sized (name : SizedName) (size : Nat)
  deriving DecidableEq, Repr

namespace StaticKind

/-- The kind of a canonical type, whatever its size. -/
def ofText (abiType : String) : Except Cause StaticKind :=
  if abiType = "address" then .ok .address
  else if abiType = "bool" then .ok .bool
  else
    match SizedName.ofText? abiType.toList with
    | some (name, size) => .ok (.sized name size)
    | none => .error (.typeMismatch (.unsupportedType abiType))

end StaticKind

end WeiCalc

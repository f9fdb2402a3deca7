import WeiCalc.Abi.Keccak
import WeiCalc.Abi.Kind
import WeiCalc.Text.Blank

/-!
# Function signatures

Signatures as people write them: `transfer(address to, uint256)`, a list of parameters in
parentheses, or a bare list. Parameters may have names and words such as `memory` behind their
types, types may be tuples and arrays, and some elementary types have short names. What is read is
the canonical signature and the names of the parameters.

Texts are lists of characters here, since errors quote parts of them.
-/

namespace WeiCalc

/-- A parameter of a function; an empty name stands for none. -/
structure Param where
  type : AbiType
  name : List Char
  deriving Repr, Inhabited

/-- A function signature; an empty name stands for a bare list of parameters. -/
structure Signature where
  name : List Char
  params : List Param
  deriving Repr, Inhabited

namespace Signature

/-- The canonical signature. -/
def canonical (s : Signature) : String :=
  String.ofList (s.name ++ '(' :: (canonicalList (s.params.map Param.type) ++ [')']))

/-- The names of parameters that begin with the parameter number `index`. -/
def namesFrom : (index : Nat) → List Param → List String
  | _, [] => []
  | index, p :: ps =>
    (if p.name.isEmpty then s!"arg{index}" else String.ofList p.name) :: namesFrom (index + 1) ps

/-- The names of the parameters, where `arg0`, `arg1`, ... stand for missing ones. -/
def paramNames (s : Signature) : List String :=
  namesFrom 0 s.params

/-- Characters that names start with. -/
def isNameStart (c : Char) : Bool :=
  c.isAlpha || c == '_' || c == '$'

/-- Characters of names. -/
def isNameChar (c : Char) : Bool :=
  c.isAlphanum || c == '_' || c == '$'

/-- Is a text the name of a function or parameter? -/
def isName : List Char → Bool
  | [] => false
  | c :: cs => isNameStart c && cs.all isNameChar

/-- Words that may stand between a type and a name. -/
def qualifiers : List String :=
  ["memory", "calldata", "storage", "indexed", "payable"]

/-- The short names of elementary types. -/
def aliases : List (String × String) :=
  [("uint", "uint256"), ("int", "int256"), ("byte", "bytes1")]

/-- The elementary types without a size. -/
def plainTypes : List String :=
  ["address", "bool", "string", "bytes", "function"]

/-- What stands behind a text that is cut into pieces. -/
abbrev Reading (α : Type) := Except LiteralCause α

/--
Cuts a text at the commas outside of parentheses. `whole` is the text that errors quote, `depth`
the number of open parentheses, and `read` the current piece, last character first.
-/
def splitFrom (whole : List Char) : (depth : Nat) → (read : List Char) → List Char →
    Reading (List (List Char))
  | 0, read, [] => .ok [read.reverse]
  | _ + 1, _, [] => .error (.unbalancedOpen (String.ofList whole))
  | depth, read, c :: cs =>
    if c = '(' then splitFrom whole (depth + 1) (c :: read) cs
    else if c = ')' then
      match depth with
      | 0 => .error (.unbalancedClose (String.ofList whole))
      | depth + 1 => splitFrom whole depth (c :: read) cs
    else if c = ',' ∧ depth = 0 then do
      return read.reverse :: (← splitFrom whole 0 [] cs)
    else splitFrom whole depth (c :: read) cs

/-- Cuts a text at the commas outside of parentheses. -/
def splitTop (cs : List Char) : Reading (List (List Char)) :=
  splitFrom cs 0 [] cs

/-- How many characters lie before the parenthesis that closes the last of `depth` open ones. -/
def closing? : (depth : Nat) → List Char → Option Nat
  | _, [] => none
  | depth, c :: cs =>
    if c = '(' then (closing? (depth + 1) cs).map (· + 1)
    else if c = ')' then
      if depth ≤ 1 then some 0 else (closing? (depth - 1) cs).map (· + 1)
    else (closing? depth cs).map (· + 1)

/-- The place of the parenthesis that closes the one at `start`. -/
def closing (cs : List Char) (start : Nat) : Reading Nat :=
  match closing? 0 (cs.drop start) with
  | some n => .ok (start + n)
  | none => .error (.unbalancedOpen (String.ofList cs))

/-- A canonical elementary type, read from its name or a short name. -/
def elementary (cs : List Char) : Reading AbiType :=
  let written := String.ofList cs
  let name := (aliases.lookup written).getD written
  if plainTypes.contains name then .ok (.elementary name.toList)
  else
    match SizedName.ofText? name.toList with
    | some (sized, size) =>
      if sized.admits size then .ok (.elementary name.toList) else .error (.unknownType name)
    | none => .error (.unknownType name)

/--
The type that array suffixes such as `[2][]` make of an element type. `length` holds the digits
read behind an opening bracket, last one first, if there is one.
-/
def suffixed? (element : AbiType) : (length : Option (List Char)) → List Char → Option AbiType
  | none, [] => some element
  | some _, [] => none
  | none, c :: cs => if c = '[' then suffixed? element (some []) cs else none
  | some ds, c :: cs =>
    if c = ']' then suffixed? (.array element ds.reverse) none cs
    else if c.isDigit then suffixed? element (some (c :: ds)) cs
    else none

/-- The type that a text of array suffixes makes of an element type; spaces in it do not count. -/
def suffixed (whole : List Char) (element : AbiType) (suffix : List Char) : Reading AbiType :=
  match suffixed? element none (suffix.filter (· != ' ')) with
  | some t => .ok t
  | none => .error (.arraySuffix (String.ofList whole))

/-- Cuts a parameter behind its type. -/
def typeAndRest (cs : List Char) : Reading (List Char × List Char) :=
  match cs with
  | '(' :: _ => do
    let stop := (← closing cs 0) + 1
    let suffix := (cs.drop stop).takeWhile fun c => c == '[' || c == ']' || c.isDigit
    return (cs.take (stop + suffix.length), cs.drop (stop + suffix.length))
  | _ =>
    .ok (cs.takeWhile (!Text.isBlank ·), cs.dropWhile (!Text.isBlank ·))

/-- The name of a parameter, given what stands behind its type. -/
def nameOf (whole rest : List Char) : Reading (List Char) :=
  match (Text.words rest).filter fun w => !qualifiers.contains (String.ofList w) with
  | [] => .ok []
  | [w] => if isName w then .ok w else .error (.parameterName (String.ofList w))
  | _ => .error (.parameter (String.ofList whole))

/-- A parameter, where `readType` reads its type. -/
def param (readType : List Char → Reading AbiType) (text : List Char) : Reading Param := do
  let cs := Text.trim text
  if cs.isEmpty then throw .emptyParameter
  let (type, rest) ← typeAndRest cs
  let name ← nameOf cs rest
  return ⟨← readType type, name⟩

/-- A type, where `readType` reads the types of the components of a tuple. -/
def typeWith (readType : List Char → Reading AbiType) (text : List Char) : Reading AbiType := do
  let cs := Text.trim text
  match cs with
  | [] => throw .emptyType
  | '(' :: _ =>
    let stop ← closing cs 0
    let inside := (cs.take stop).drop 1
    let components ←
      if (Text.trim inside).isEmpty then pure []
      else (← splitTop inside).mapM fun part => return (← param readType part).type
    suffixed cs (.tuple components) (cs.drop (stop + 1))
  | _ =>
    let base ← elementary (Text.trim (cs.takeWhile (· != '[')))
    suffixed cs base (cs.dropWhile (· != '['))

/-- A type whose tuples nest at most `levels` deep. -/
def typeWithin : (levels : Nat) → List Char → Reading AbiType
  | 0 => typeWith fun text => .error (.unbalancedOpen (String.ofList text))
  | levels + 1 => typeWith (typeWithin levels)

/-- Reads a type. Its tuples nest no deeper than it has opening parentheses. -/
def readType (text : List Char) : Reading AbiType :=
  typeWithin (text.count '(') text

/-- The parts of a signature: the name of the function and the text of its parameters. -/
def nameAndBody (cs : List Char) : Reading (List Char × List Char) :=
  let before := cs.takeWhile (· != '(')
  let head := Text.trim before
  if before.length = cs.length then .ok ([], cs)
  else if before.isEmpty then do
    let stop ← closing cs 0
    return ([], if stop + 1 = cs.length then (cs.take stop).drop 1 else cs)
  else if isName head then do
    let stop ← closing cs before.length
    if stop + 1 ≠ cs.length then throw (.afterSignature (String.ofList cs))
    return (head, (cs.take stop).drop (before.length + 1))
  else if head.any (fun c => c == ',' || c == ' ') then .ok ([], cs)
  else .error (.functionName (String.ofList head))

/-- Reads a signature or a bare list of parameters. -/
def read (text : String) : Reading Signature := do
  let (name, body) ← nameAndBody (Text.trim text.toList)
  if (Text.trim body).isEmpty then return ⟨name, []⟩
  let params ← (← splitTop body).mapM (param readType)
  return ⟨name, params⟩

/-- Reads a signature or a bare list of parameters. -/
def ofText (text : String) : Except Cause Signature :=
  (read text).mapError Cause.literal

/-- A signature without a function name has no selector. -/
def requireName (s : Signature) : Except Cause Unit :=
  if s.name.isEmpty then .error (.literal (.unnamedSignature s.canonical)) else .ok ()

/-- The number of bytes of a selector. -/
def selectorSize : Nat := 4

/-- The first four bytes of the hash of the canonical signature. -/
def selector (hash : Hash) (s : Signature) : Except Failure Bytes := do
  s.requireName.mapError fun cause => .error ⟨cause, none⟩
  if s.canonical.toList.all (·.toNat < 128) then
    return (hash s.canonical.toUTF8.toList).toList.take selectorSize
  else throw (.fault .signatureText)

end Signature

end WeiCalc

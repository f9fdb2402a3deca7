import WeiCalc.Abi.Signature
import WeiCalc.Number
import WeiCalc.Token.Lexer
import WeiCalc.Value

/-!
# Calldata

Arguments as words of 32 bytes and back. Integers, addresses and truth values stand at the right of
their word, signed integers in two's complement, and bytes at the left. Decoding accepts a word
only if the rest of it is as encoding leaves it.
-/

namespace WeiCalc

/-- An argument to encode: a piece of a list written in one text, or a value. -/
inductive RawArgument where
  | piece (text : String)
  | value (v : Value)
  deriving Repr

namespace Abi

/-- The number of bytes of a word. -/
def wordSize : Nat := 32

/-- The pieces of a list of arguments in one text, without the quotes around them. -/
def unquoted (piece : List Char) : List Char :=
  let cs := Text.trim piece
  match cs with
  | c :: d :: rest =>
    if (c = '"' ∨ c = '\'') ∧ (d :: rest).getLast? = some c then (d :: rest).dropLast else cs
  | _ => cs

/-- The arguments that a text separates by commas. -/
def splitArguments (text : String) : List String :=
  if (Text.trim text.toList).isEmpty then []
  else (Text.split ',' text.toList).map fun piece => String.ofList (unquoted piece)

/-- Is this the kind of a number token? -/
def isNumeric (kind : TokenKind) : Bool :=
  kind = .number || kind = .hexNumber || kind = .binaryNumber

/-- The integer that a text writes: a number literal, with a minus in front if it is negative. -/
def integerOfText (text : String) : Except EvalError Int := do
  let refused : EvalError := ⟨.literal (.notNumber text), none⟩
  match Token.ofLine (Text.trimmed text) with
  | .error _ => throw refused
  | .ok ts =>
    let (negative, ts) :=
      match ts with
      | ⟨.minus, _, _⟩ :: rest => (true, rest)
      | _ => (false, ts)
    match ts with
    | [t, _] =>
      if isNumeric t.kind then
        let literal ← NumberLiteral.ofToken t
        let n : Int := literal.value.toNat
        return if negative then -n else n
      else throw refused
    | _ => throw refused

/-- The word of an unsigned integer of a number of bits. -/
def encodeUint (value : Int) (bits : Nat) (abiType : String) : Except EvalError Bytes :=
  if 0 ≤ value ∧ value < Nat.pow 2 bits then .ok (Bytes.ofNat wordSize value.toNat)
  else .error ⟨.literal (.outOfRange value abiType), none⟩

/-- Is an integer in the range of the signed integers of a number of bits? -/
def inSignedRange (value : Int) (bits : Nat) : Bool :=
  -(Nat.pow 2 bits : Int) ≤ 2 * value && 2 * value < Nat.pow 2 bits

/-- The word of a signed integer of a number of bits. -/
def encodeInt (value : Int) (bits : Nat) (abiType : String) : Except EvalError Bytes :=
  if inSignedRange value bits then .ok (Bytes.ofNat wordSize (value % Word.capacity).toNat)
  else .error ⟨.literal (.outOfRange value abiType), none⟩

/-- The integer that an argument stands for; `signed` reads numbers in two's complement. -/
def argumentInteger (abiType : String) (signed : Bool) : RawArgument → Except EvalError Int
  | .piece text => integerOfText text
  | .value (.uint w _) => .ok (if signed then w.toInt else w.toNat)
  | .value (.bool b) => .ok b.toNat
  | .value (.text s) => integerOfText s
  | .value v => .error ⟨.typeMismatch (.notEncodable v.label abiType), none⟩

/-- The bytes of a text in hexadecimal, at most `size` of them. -/
def textBytes (text abiType : String) : Except EvalError Bytes :=
  match Hex.data? text with
  | some bs => .ok bs
  | none => .error ⟨.literal (.notHexData text abiType), none⟩

/-- Bytes that have to be at most `size`. -/
def atMost (size : Nat) (abiType : String) (bs : Bytes) : Except EvalError Bytes :=
  if size < bs.length then .error ⟨.literal (.bytesTooWide bs.length abiType), none⟩ else .ok bs

/-- The bytes that an argument stands for, at most `size` of them. -/
def argumentBytes (size : Nat) (abiType : String) : RawArgument → Except EvalError Bytes
  | .piece text => do atMost size abiType (← textBytes text abiType)
  | .value (.text s) => do atMost size abiType (← textBytes s abiType)
  | .value (.bytes bs) => atMost size abiType bs
  | .value (.uint w _) =>
    if w.toNat < Nat.pow 2 (8 * size) then .ok (Bytes.ofNat size w.toNat)
    else .error ⟨.literal (.numberTooWide w.toNat abiType), none⟩
  | .value v => .error ⟨.typeMismatch (.notEncodable v.label abiType), none⟩

/-- The truth value that a text writes. -/
def boolOfText (text : String) : Except EvalError Bool :=
  let word := String.ofList ((Text.trim text.toList).map Char.toLower)
  if word = "true" ∨ word = "1" then .ok true
  else if word = "false" ∨ word = "0" then .ok false
  else .error ⟨.literal (.notBool text), none⟩

/-- The truth value that an argument stands for. -/
def argumentBool : RawArgument → Except EvalError Bool
  | .value (.bool b) => .ok b
  | .piece text => boolOfText text
  | .value (.text s) => boolOfText s
  | .value v =>
    match v with
    | .uint w _ =>
      if w.toNat ≤ 1 then .ok (w.toNat == 1) else .error ⟨.literal (.valueNotBool v.label), none⟩
    | _ => .error ⟨.literal (.valueNotBool v.label), none⟩

/-- The word of an address: hexadecimal text is taken as bytes, all else as a number. -/
def encodeAddress (abiType : String) (arg : RawArgument) : Except EvalError Bytes := do
  match arg with
  | .piece _ | .value (.text _) =>
    return Bytes.ofNat wordSize (Bytes.toNat (← argumentBytes Value.addressWidth abiType arg))
  | _ => encodeUint (← argumentInteger abiType false arg) 160 abiType

/-- The word of an argument. -/
def encodeWord (abiType : String) (arg : RawArgument) : Except EvalError Bytes := do
  match ← StaticKind.ofText abiType with
  | .sized .uint bits => encodeUint (← argumentInteger abiType false arg) bits abiType
  | .sized .int bits => encodeInt (← argumentInteger abiType true arg) bits abiType
  | .address => encodeAddress abiType arg
  | .bool => encodeUint (← argumentBool arg).toNat 8 abiType
  | .sized .bytes size =>
    let bs ← argumentBytes size abiType arg
    return bs ++ List.replicate (wordSize - bs.length) 0

/-- The words of arguments, in the order of the parameters. -/
def encodeWords : List Param → List RawArgument → Except EvalError Bytes
  | p :: ps, arg :: args => do
    let word ← encodeWord (String.ofList p.type.canonical) arg
    return word ++ (← encodeWords ps args)
  | _, _ => .ok []

/-- The arguments of a call, one word each. -/
def encodeArguments (s : Signature) (args : List RawArgument) : Except EvalError Bytes :=
  if args.length = s.params.length then encodeWords s.params args
  else .error ⟨.arity (.signature s.canonical s.params.length args.length), none⟩

/-- The calldata of a call: the selector and the arguments. -/
def encodeCall (hash : Hash) (s : Signature) (args : List RawArgument) :
    Except Failure Bytes := do
  let selector ← s.selector hash
  return selector ++ (← encodeArguments s args)

/-- The calldata that a value holds: bytes, or text in hexadecimal. -/
def calldata : Value → Except Cause Bytes
  | .bytes bs => .ok bs
  | .text s =>
    match Hex.data? s with
    | some bs => .ok bs
    | none => .error (.calldata (.notHex s))
  | v => .error (.typeMismatch (.notCalldata v.label))

/-- The integer of a word in two's complement. -/
def signedOfWord (n : Nat) : Int :=
  if Word.capacity ≤ 2 * n then (n : Int) - Word.capacity else n

/-- The value of a word. -/
def decodeWord (abiType : String) (word : Bytes) : Except Failure Value := do
  let refuse {α : Type} (cause : CalldataCause) : Except Failure α :=
    .error (.error ⟨.calldata cause, none⟩)
  let raw := Bytes.toNat word
  match ← (StaticKind.ofText abiType).mapError fun cause => Failure.error ⟨cause, none⟩ with
  | .sized .uint bits =>
    if raw < Nat.pow 2 bits then Value.ofNat raw else refuse (.overflows word abiType)
  | .sized .int bits =>
    let i := signedOfWord raw
    if inSignedRange i bits then Value.ofInt i else refuse (.overflows word abiType)
  | .address =>
    if raw < Value.addressLimit then return .address (BitVec.ofNat 256 raw)
    else refuse (.dirtyAddress word)
  | .bool => if raw ≤ 1 then return .bool (raw == 1) else refuse (.notBool word)
  | .sized .bytes size =>
    if (word.drop size).all (· == 0) then return .bytes (word.take size)
    else refuse (.dirtyPadding word abiType)

/-- The fields that words hold. -/
def decodeWords : List Param → List String → Bytes → Except Failure (List (Field Value))
  | p :: ps, name :: names, bs => do
    let abiType := String.ofList p.type.canonical
    let value ← decodeWord abiType (bs.take wordSize)
    return ⟨name, abiType, value⟩ :: (← decodeWords ps names (bs.drop wordSize))
  | _, _, _ => .ok []

/-- The arguments of a call, without the selector. -/
def decodeArguments (s : Signature) (bs : Bytes) : Except Failure Value := do
  let expected := wordSize * s.params.length
  if bs.length ≠ expected then
    throw (.error ⟨.calldata (.length s.canonical expected bs.length), none⟩)
  return .list (← decodeWords s.params s.paramNames bs)

/-- The arguments of calldata whose selector is that of the signature. -/
def decodeCall (hash : Hash) (s : Signature) (bs : Bytes) : Except Failure Value := do
  s.requireName.mapError fun cause => .error ⟨cause, none⟩
  if bs.length < Signature.selectorSize then
    throw (.error ⟨.calldata (.tooShort bs.length), none⟩)
  let expected ← s.selector hash
  let actual := bs.take Signature.selectorSize
  if actual ≠ expected then throw (.error ⟨.selector actual s.canonical expected, none⟩)
  decodeArguments s (bs.drop Signature.selectorSize)

/-- One numbered line for each of `count` words. -/
def wordLines (index : Nat) : (count : Nat) → Bytes → List String
  | 0, _ => []
  | count + 1, bs =>
    s!"[{index}] {Hex.encode (bs.take wordSize)}" ::
      wordLines (index + 1) count (bs.drop wordSize)

/-- Calldata as lines: the selector, and then each word with its number. -/
def callLines (bs : Bytes) : Except Cause (List String) :=
  let body := bs.drop Signature.selectorSize
  if bs.length < Signature.selectorSize then .error (.calldata (.tooShort bs.length))
  else if body.length % wordSize ≠ 0 then .error (.calldata (.partialWord body.length))
  else
    .ok (Hex.encode (bs.take Signature.selectorSize) ::
      wordLines 0 (body.length / wordSize) body)

end Abi

end WeiCalc

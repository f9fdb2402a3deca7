import WeiCalc.Abi.Checksum
import WeiCalc.Call
import WeiCalc.Calendar.Iso
import WeiCalc.Calendar.Layout
import WeiCalc.Context
import WeiCalc.Display
import WeiCalc.Pool.Liquidity
import WeiCalc.Root
import WeiCalc.Text.Base64
import WeiCalc.Text.Case

/-!
# What calls evaluate to

One definition for each built-in function, and `Call.result` for all of them. The arguments of a
call are looked at in the order of the parameters unless a function says otherwise. The price at a
tick is the only result that comes with a diagnostic.
-/

namespace WeiCalc

/-- How often `sub` stands in a text without overlaps, behind the next `skip` characters. -/
def Text.occurrencesFrom (sub : List Char) : (skip : Nat) → List Char → Nat
  | _, [] => 0
  | skip + 1, _ :: cs => occurrencesFrom sub skip cs
  | 0, c :: cs =>
    if sub.isPrefixOf (c :: cs) then occurrencesFrom sub (sub.length - 1) cs + 1
    else occurrencesFrom sub 0 cs

/-- How often `sub` stands in a text without overlaps. -/
def Text.occurrences (sub cs : List Char) : Nat :=
  occurrencesFrom sub 0 cs

namespace Call

/-- The integer part of a root. -/
def root (c : Call) : Except Failure Value := do
  let x ← c.number 0
  let n ← c.number 1
  Value.ofNat (← Root.iroot x n)

/--
The number that is an address: a number, or text with hexadecimal digits. A number beyond the
addresses is put into the error, if that can be done.
-/
def addressNumber (c : Call) (v : Value) : Except Failure Nat := do
  let name := c.function.name
  let n ←
    match v with
    | .uint w _ => pure w.toNat
    | .text s =>
      match NumberLiteral.integer? 16 (Hex.withoutMark (Text.trim s.toList)) with
      | some n => pure n
      | none => throw (.error ⟨.literal (.notHexAddress name s), none⟩)
    | v => throw (.error ⟨.typeMismatch (.notAddress name v.label), none⟩)
  if n < Value.addressLimit then return n
  else if n < Nat.pow 10 Text.greatestDigits then
    throw (.error ⟨.range (.address name n), none⟩)
  else throw (.fault .longNumber)

/-- A number as an address. -/
def address (c : Call) : Except Failure Value := do
  return .address (BitVec.ofNat 256 (← c.addressNumber (← c.value 0)))

/-- An address with its checksum. -/
def checksum (hash : Hash) (c : Call) : Except Failure Value := do
  match ← c.value 0 with
  | .text s => return .text (← Checksum.ofText hash s)
  | v =>
    let ds := Text.padded 16 (2 * Value.addressWidth) (← c.addressNumber v)
    return .text (← Checksum.ofText hash (String.ofList ds))

/-- The signature that is the first argument. -/
def signature (c : Call) : Except Failure Signature := do
  Signature.ofText (← c.text 0)

/-- A selector. -/
def selector (hash : Hash) (c : Call) : Except Failure Value := do
  return .bytes (← (← c.signature).selector hash)

/-- The hash of text, bytes or the word of a number. -/
def keccak (hash : Hash) (c : Call) : Except Failure Value := do
  let data ←
    match ← c.value 0 with
    | .text s => pure s.toUTF8.toList
    | .bytes bs => pure bs
    | .uint w _ => pure (Bytes.ofNat Abi.wordSize w.toNat)
    | v => c.mismatch 0 "text, bytes or a number" v.label
  return .bytes (hash data).toList

/-- Text or bytes in base64. -/
def base64Encode (c : Call) : Except Failure Value := do
  match ← c.value 0 with
  | .text s => return .text (Base64.encode s.toUTF8.toList)
  | .bytes bs => return .text (Base64.encode bs)
  | v => c.mismatch 0 "text or bytes" v.label

/-- What base64 stands for: text if the bytes are the UTF-8 form of one, and else the bytes. -/
def base64Decode (c : Call) : Except Failure Value := do
  let s ← c.text 0
  match Base64.decode? (Text.trim s.toList) with
  | none => throw (.error ⟨.typeMismatch (.notBase64 s), none⟩)
  | some bs =>
    match String.fromUTF8? ⟨bs.toArray⟩ with
    | some decoded => return .text decoded
    | none => return .bytes bs

/-- An argument behind the signature. -/
def encodable : Argument → Except Failure RawArgument
  | .value v => .ok (.value v)
  | .signed _ => .error (.fault .argumentKind)

/-- The arguments behind the signature; a single text holds a list of them. -/
def encodables (c : Call) : Except Failure (List RawArgument) :=
  match c.arguments.drop 1 with
  | [.value (.text s)] => .ok ((Abi.splitArguments s).map .piece)
  | rest => rest.mapM encodable

/-- Arguments as words. -/
def abiEncode (c : Call) : Except Failure Value := do
  let s ← c.signature
  return .bytes (← Abi.encodeArguments s (← c.encodables))

/-- Calldata of a call of a contract. -/
def abiEncodeCall (hash : Hash) (c : Call) : Except Failure Value := do
  let s ← c.signature
  return .bytes (← Abi.encodeCall hash s (← c.encodables))

/-- The arguments in calldata. -/
def abiDecode (hash : Hash) (c : Call) : Except Failure Value := do
  let s ← c.signature
  Abi.decodeCall hash s (← Abi.calldata (← c.value 1))

/-- Calldata cut into its selector and words. -/
def debug (c : Call) : Except Failure Value := do
  return .text (String.intercalate "\n" (← Abi.callLines (← Abi.calldata (← c.value 0))))

/-- A text in another case. -/
def recased (change : List Char → List Char) (c : Call) : Except Failure Value :=
  return .text (String.ofList (change (← c.text 0).toList))

/-- The number of bytes, or of the characters of a text. -/
def len (c : Call) : Except Failure Value := do
  match ← c.value 0 with
  | .bytes bs => Value.ofLength bs.length
  | _ => Value.ofLength (← c.text 0).length

/-- How often a text stands in another one. -/
def count (c : Call) : Except Failure Value := do
  let s ← c.text 0
  let sub ← c.text 1
  if sub.isEmpty then throw (.error ⟨.typeMismatch .emptySubstring, none⟩)
  Value.ofLength (Text.occurrences sub.toList s.toList)

/-- A timestamp in a layout. -/
def moment (layout : Except Failure String) (c : Call) : Except Failure Value := do
  let m ← Moment.ofTimestamp (← c.number 0)
  return .text (Layout.write m (← layout))

/-- The timestamp of a date and time. -/
def timestamp (c : Call) : Except Failure Value := do
  let year ← c.number 0
  let month ← c.number 1
  let day ← c.number 2
  let hour ← c.number 3
  let minute ← c.number 4
  let second ← c.number 5
  Value.ofNat (← (← Moment.ofFields year month day hour minute second).timestamp)

/-- Timestamps and dates; the number of arguments and the kind of a single one tell which way. -/
def unix (settings : Settings) (c : Call) : Except Failure Value := do
  match c.arguments.length with
  | 6 => c.timestamp
  | 2 => c.moment (c.text 1)
  | _ =>
    match ← c.value 0 with
    | .text s => Value.ofNat (← (← Iso.ofText s).timestamp)
    | _ => c.moment (.ok settings.dateLayout)

/-- The square root of the price at a tick. -/
def sqrtRatioOfTick (c : Call) : Except Failure Value := do
  Value.ofNat (← Pool.sqrtPriceAt (← c.signed 0))

/-- The tick at a square root of a price. -/
def tickOfSqrtRatio (c : Call) : Except Failure Value := do
  Value.ofInt (← Pool.tickAt (← c.number 0))

/-- A number of decimals that is not too great. -/
def checkDecimals (decimals : Nat) : Except Cause Unit :=
  if decimals ≤ Display.greatestDecimals then .ok ()
  else .error (.range (.decimals decimals Display.greatestDecimals))

/-- A price as the settings want it shown, and a note if it was rounded. -/
def shownPrice (settings : Settings) (price : Rat) : Eval String := do
  let digits := settings.pricePrecision
  let shown ← Display.fraction price digits.value
  if digits = .flag true then throw (.fault .digitCount)
  if (price * 10 ^ digits.value).den ≠ 1 then Eval.note (.priceRounded digits.display) none
  return shown

/-- The price at a tick, of either token in the other one. The tick is looked at last. -/
def priceOfTick (settings : Settings) (c : Call) : Eval Value := do
  let inToken1 ← c.flag 1
  let decimals0 ← c.number 2
  let decimals1 ← c.number 3
  checkDecimals decimals0
  checkDecimals decimals1
  let shown ← shownPrice settings (← Pool.priceAt (← c.signed 0) inToken1 decimals0 decimals1)
  return .text <|
    if inToken1 then s!"1 token1 : {shown} token0" else s!"1 token0 : {shown} token1"

/-- A quantity of a position, from its present price, its bounds and another quantity. -/
def position (quantity : (price a b known : Nat) → Except Failure Nat) (c : Call) :
    Except Failure Value := do
  let price ← c.number 0
  let a ← c.number 1
  let b ← c.number 2
  let known ← c.number 3
  Value.ofNat (← quantity price a b known)

/-- An amount with a given number of fraction digits. -/
def formatUnits (c : Call) : Except Failure Value := do
  let amount ← c.number 0
  return .text (← Display.units amount (← c.number 1))

/-- What a call evaluates to. -/
def result (env : Environment) (c : Call) : Eval Value := do
  match c.function with
  | .sqrt => Value.ofNat (Root.isqrt (← c.number 0))
  | .root => c.root
  | .address => c.address
  | .checksum => c.checksum env.hash
  | .selector => c.selector env.hash
  | .keccak => c.keccak env.hash
  | .base64Encode => c.base64Encode
  | .base64Decode => c.base64Decode
  | .abiEncode => c.abiEncode
  | .abiEncodeCall => c.abiEncodeCall env.hash
  | .abiDecode => c.abiDecode env.hash
  | .debug => c.debug
  | .upper => c.recased Text.upper
  | .lower => c.recased Text.lower
  | .len => c.len
  | .count => c.count
  | .unix => c.unix env.settings
  | .sqrtRatioOfTick => c.sqrtRatioOfTick
  | .tickOfSqrtRatio => c.tickOfSqrtRatio
  | .priceOfTick => c.priceOfTick env.settings
  | .liquidityOfAmount0 => c.position fun price a b n => Pool.liquidityFromAmount0 price a b n
  | .liquidityOfAmount1 => c.position fun price a b n => Pool.liquidityFromAmount1 price a b n
  | .amount0OfLiquidity => c.position Pool.amount0FromLiquidity
  | .amount1OfLiquidity => c.position fun price a b n => Pool.amount1FromLiquidity price a b n
  | .formatEther => return .text (← Display.ether (← c.number 0))
  | .formatUnits => c.formatUnits

end Call

end WeiCalc

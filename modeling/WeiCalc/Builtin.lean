import WeiCalc.Error

/-!
# Built-in functions

The functions that expressions can call, the names they are called by, and what they take: how many
arguments, and of which kind each is.
-/

namespace WeiCalc

/-- How the evaluation makes an argument for a parameter. -/
inductive ParamKind where
  | uint
  /-- A signed integer; `-x` stands for a number below zero here. -/
  | int
  | text
  | any
  deriving DecidableEq, Repr

namespace ParamKind

/-- The name of a kind. -/
def name : ParamKind → String
  | uint => "uint"
  | int => "int"
  | text => "text"
  | any => "any"

end ParamKind

/-- The built-in functions. -/
inductive Builtin where
  | sqrt
  | root
  | address
  | checksum
  | selector
  | keccak
  | base64Encode
  | base64Decode
  | abiEncode
  | abiEncodeCall
  | abiDecode
  | debug
  | upper
  | lower
  | len
  | count
  | unix
  | sqrtRatioOfTick
  | tickOfSqrtRatio
  | priceOfTick
  | liquidityOfAmount0
  | liquidityOfAmount1
  | amount0OfLiquidity
  | amount1OfLiquidity
  | formatEther
  | formatUnits
  deriving DecidableEq, Repr

/-- How many arguments a function takes; without `most` there is no upper bound. -/
structure Arity where
  least : Nat
  most : Option Nat
  deriving DecidableEq, Repr

namespace Arity

/-- Exactly `n` arguments. -/
def exactly (n : Nat) : Arity :=
  ⟨n, some n⟩

/-- May a call have `count` arguments? -/
def admits (a : Arity) (count : Nat) : Bool :=
  a.least ≤ count && a.most.all (count ≤ ·)

/-- A number of arguments in words. -/
def arguments (n : Nat) : String :=
  s!"{n} argument" ++ if n = 1 then "" else "s"

/-- An arity in words. -/
def describe (a : Arity) : String :=
  match a.most with
  | none => "at least " ++ arguments a.least
  | some most => if most = a.least then arguments most else s!"{a.least} to {most} arguments"

end Arity

namespace Builtin

/-- Every function, by theme. -/
def all : List Builtin :=
  [
    sqrt, root, address, checksum, selector, keccak, base64Encode, base64Decode, abiEncode,
    abiEncodeCall, abiDecode, debug, upper, lower, len, count, unix, sqrtRatioOfTick,
    tickOfSqrtRatio, priceOfTick, liquidityOfAmount0, liquidityOfAmount1, amount0OfLiquidity,
    amount1OfLiquidity, formatEther, formatUnits]

/-- The name by which a function is called. -/
def name : Builtin → String
  | sqrt => "sqrt"
  | root => "root"
  | address => "address"
  | checksum => "checksum"
  | selector => "selector"
  | keccak => "keccak256"
  | base64Encode => "b64_encode"
  | base64Decode => "b64_decode"
  | abiEncode => "abi_encode"
  | abiEncodeCall => "abi_encode_with_selector"
  | abiDecode => "abi_decode"
  | debug => "debug"
  | upper => "upper"
  | lower => "lower"
  | len => "len"
  | count => "count"
  | unix => "unix"
  | sqrtRatioOfTick => "get_sqrt_ratio_from_tick"
  | tickOfSqrtRatio => "get_tick_from_sqrt_ratio"
  | priceOfTick => "get_price_from_tick"
  | liquidityOfAmount0 => "get_liquidity_from_amount0"
  | liquidityOfAmount1 => "get_liquidity_from_amount1"
  | amount0OfLiquidity => "get_amount0_from_liquidity"
  | amount1OfLiquidity => "get_amount1_from_liquidity"
  | formatEther => "format_ether"
  | formatUnits => "format_units"

/-- The function of a name. -/
def ofName? (name : String) : Option Builtin :=
  all.find? (·.name = name)

/-- The function of a name, or the error that there is none. -/
def ofName (name : String) : Except Cause Builtin :=
  match ofName? name with
  | some b => .ok b
  | none => .error (.unknownFunction name)

/-- The names of all functions in alphabetical order. -/
def names : List String :=
  (all.map name).mergeSort fun a b => decide (a ≤ b)

/-- The parameters of a function on a position in a pool. -/
def positionParams (quantity : String) : List (String × ParamKind) :=
  [
    ("sqrt_price_x96", .uint), ("sqrt_pa_x96", .uint), ("sqrt_pb_x96", .uint),
    (quantity, .uint)]

/-- The parts of a date and time, from the greatest to the least. -/
def dateParts : List String :=
  ["year", "month", "day", "hour", "minute", "second"]

/-- The names and kinds of the parameters. Those of `unix` depend on the call. -/
def params : Builtin → List (String × ParamKind)
  | sqrt => [("x", .uint)]
  | root => [("x", .uint), ("n", .uint)]
  | address => [("n", .any)]
  | checksum => [("addr", .any)]
  | selector => [("sig", .text)]
  | keccak => [("data", .any)]
  | base64Encode => [("data", .any)]
  | base64Decode => [("text", .text)]
  | abiEncode => [("sig", .text)]
  | abiEncodeCall => [("sig", .text)]
  | abiDecode => [("sig", .text), ("calldata", .any)]
  | debug => [("calldata", .any)]
  | upper => [("s", .text)]
  | lower => [("s", .text)]
  | len => [("s", .any)]
  | count => [("s", .text), ("sub", .text)]
  | unix => dateParts.map fun part => (part, .any)
  | sqrtRatioOfTick => [("tick", .int)]
  | tickOfSqrtRatio => [("sqrt_price_x96", .uint)]
  | priceOfTick =>
    [("tick", .int), ("in_token1", .any), ("decimals0", .uint), ("decimals1", .uint)]
  | liquidityOfAmount0 => positionParams "amount0"
  | liquidityOfAmount1 => positionParams "amount1"
  | amount0OfLiquidity => positionParams "liquidity"
  | amount1OfLiquidity => positionParams "liquidity"
  | formatEther => [("x", .uint)]
  | formatUnits => [("x", .uint), ("decimals", .uint)]

/-- How many arguments a function takes. -/
def arity : Builtin → Arity
  | abiEncode => ⟨1, none⟩
  | abiEncodeCall => ⟨1, none⟩
  | unix => ⟨1, some 6⟩
  | b => .exactly b.params.length

/-- May a call have `count` arguments? `unix` takes a moment, a moment and a layout, or a date. -/
def admits (b : Builtin) (count : Nat) : Bool :=
  if b = unix then count = 1 || count = 2 || count = 6 else b.arity.admits count

/-- What an error says about the number of arguments. -/
def expectation (b : Builtin) : String :=
  if b = unix then "1, 2 or 6 arguments" else b.arity.describe

/-- A call with `count` arguments, or the error that there is none. -/
def checkCount (b : Builtin) (count : Nat) : Except Cause Unit :=
  if b.admits count then .ok () else .error (.arity (.builtin b.name b.expectation count))

/-- The kind of the argument number `index` in a call with `count` arguments. -/
def paramKind (b : Builtin) (index count : Nat) : ParamKind :=
  if b = unix then
    if count = 6 ∨ (count = 2 ∧ index = 0) then .uint else if count = 2 then .text else .any
  else ((b.params[index]?).map Prod.snd).getD .any

/-- How errors call the argument number `index`. -/
def paramName (b : Builtin) (index : Nat) : String :=
  ((b.params[index]?).map Prod.fst).getD s!"argument {index + 1}"

end Builtin

end WeiCalc

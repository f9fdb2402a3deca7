import WeiCalc.Limit
import WeiCalc.Operator
import WeiCalc.Text.Hex
import WeiCalc.Token

/-!
# Errors

What can go wrong while a line is read and evaluated. A `Cause` says what happened, an `EvalError`
also says where in the line; `Cause.kind` names the category that is shown and `EvalError.message`
is the whole text that is shown.

A `Fault` is a failure of the calculator itself: an operation was used outside of what it is
defined for. No line is meant to end in one.
-/

namespace WeiCalc

/-- The line does not follow the grammar. -/
inductive GrammarCause where
  | unexpectedCharacter (c : Char)
  | invalidEscape (c : Option Char)
  | unterminatedText
  | emptyExpression
  | unexpectedToken (found : Token)
  | missing (what : String) (found : Token)
  deriving DecidableEq, Repr

/-- A call with a number of arguments that the function does not take. -/
inductive ArityCause where
  | builtin (name expected : String) (count : Nat)
  | signature (canonical : String) (expected count : Nat)
  deriving DecidableEq, Repr

/-- A value of a kind that an operation does not take. -/
inductive TypeCause where
  | operand (operator got : String)
  | argument (function parameter expected got : String)
  | notSigned (got : String)
  | notAddress (function got : String)
  | notCalldata (got : String)
  | notEncodable (got abiType : String)
  | unsupportedType (abiType : String)
  | emptySubstring
  | notBase64 (text : String)
  deriving DecidableEq, Repr

/-- A literal, or a text that stands for one, is malformed or out of range. -/
inductive LiteralCause where
  | noDigits (text : String)
  | notHex (text : String)
  | notBinary (text : String)
  | tooWide (text : String)
  | tooLong (start : String)
  | notNumber (text : String)
  | notHexData (text abiType : String)
  | notHexAddress (function text : String)
  | notAddress (text : String)
  | notBool (text : String)
  | valueNotBool (got : String)
  | outOfRange (value : Int) (abiType : String)
  | numberTooWide (value : Nat) (abiType : String)
  | bytesTooWide (size : Nat) (abiType : String)
  | unbalancedOpen (text : String)
  | unbalancedClose (text : String)
  | unknownType (name : String)
  | emptyType
  | emptyParameter
  | arraySuffix (text : String)
  | parameter (text : String)
  | parameterName (name : String)
  | functionName (name : String)
  | afterSignature (text : String)
  | unnamedSignature (canonical : String)
  | notDate (text : String)
  | invalidDate (fields reason : String)
  deriving DecidableEq, Repr

/-- A result that is too great for its type. -/
inductive OverflowCause where
  | operation (op : BinaryOp) (left right : Nat)
  | scaled (raw : String) (factor : Nat)
  | product
  | liquidity (value : Nat)
  deriving DecidableEq, Repr

/-- A result below zero. -/
inductive UnderflowCause where
  | difference (left right : Nat)
  | negation (operand : Nat)
  deriving DecidableEq, Repr

/-- A divisor, degree or interval that is zero. -/
inductive ZeroCause where
  | operation (op : BinaryOp) (left : Nat)
  | rootDegree
  | product
  | emptyRange
  deriving DecidableEq, Repr

/-- Calldata that does not have the form its signature asks for. -/
inductive CalldataCause where
  | notHex (text : String)
  | tooShort (size : Nat)
  | length (canonical : String) (expected actual : Nat)
  | partialWord (size : Nat)
  | overflows (word : Bytes) (abiType : String)
  | dirtyAddress (word : Bytes)
  | notBool (word : Bytes)
  | dirtyPadding (word : Bytes) (abiType : String)
  deriving DecidableEq, Repr

/-- A unit that does not exist, or two units of different families. -/
inductive UnitCause where
  | unknown (name : String)
  | families (source sourceFamily target targetFamily : String)
  deriving DecidableEq, Repr

/-- A well-formed argument outside the domain of a function. -/
inductive RangeCause where
  | decimals (count greatest : Nat)
  | beforeEpoch (moment : String)
  | timestamp (seconds : Nat)
  | address (function : String) (value : Nat)
  | tick (value least greatest : Int)
  | sqrtPrice (price least greatest : Nat)
  | zeroPrice
  | zeroBound
  deriving DecidableEq, Repr

/-- What went wrong, by category. -/
inductive Cause where
  | grammar (cause : GrammarCause)
  | unknownIdentifier (name : String)
  | unknownFunction (name : String)
  | arity (cause : ArityCause)
  | typeMismatch (cause : TypeCause)
  | literal (cause : LiteralCause)
  | overflow (cause : OverflowCause)
  | underflow (cause : UnderflowCause)
  | divisionByZero (cause : ZeroCause)
  | selector (actual : Bytes) (canonical : String) (expected : Bytes)
  | calldata (cause : CalldataCause)
  | unit (cause : UnitCause)
  | nesting (limit : Limit)
  | range (cause : RangeCause)
  deriving DecidableEq, Repr

def GrammarCause.message : GrammarCause → String
  | unexpectedCharacter c => s!"unexpected character '{c}'"
  | invalidEscape (some c) => s!"invalid escape sequence '\\{c}'"
  | invalidEscape none => "invalid escape sequence '\\'"
  | unterminatedText => "unterminated string literal"
  | emptyExpression => "empty expression"
  | unexpectedToken found => "unexpected " ++ found.describe
  | missing what found => what ++ ", found " ++ found.describe

def ArityCause.message : ArityCause → String
  | builtin name expected count => s!"{name} takes {expected}, got {count}"
  | signature canonical expected count => s!"{canonical} takes {expected} argument(s), got {count}"

def TypeCause.message : TypeCause → String
  | operand operator got => s!"operator '{operator}' needs numbers, got {got}"
  | argument function parameter expected got =>
    s!"{function}: {parameter} must be {expected}, got {got}"
  | notSigned got => s!"expected a signed integer, got {got}"
  | notAddress function got => s!"{function}: expected a number or hex text, got {got}"
  | notCalldata got => s!"calldata must be hex text or bytes, got {got}"
  | notEncodable got abiType => s!"cannot encode {got} as {abiType}"
  | unsupportedType abiType => s!"unsupported ABI type '{abiType}' (only static elementary types)"
  | emptySubstring => "count: sub must not be empty"
  | notBase64 text => s!"b64_decode: '{text}' is not valid base64"

def LiteralCause.message : LiteralCause → String
  | noDigits text => s!"'{text}' has no digits"
  | notHex text => s!"invalid hex literal '{text}'"
  | notBinary text => s!"invalid binary literal '{text}'"
  | tooWide text => s!"literal '{text}' exceeds 256 bits"
  | tooLong start => s!"literal '{start}...' is longer than 1000 characters"
  | notNumber text => s!"'{text}' is not a number"
  | notHexData text abiType => s!"'{text}' is not hex data for {abiType}"
  | notHexAddress function text => s!"{function}: '{text}' is not a hex address"
  | notAddress text => s!"'{text}' is not a 20-byte hex address"
  | notBool text => s!"'{text}' is not a bool"
  | valueNotBool got => s!"{got} is not a bool"
  | outOfRange value abiType => s!"{value} is out of range for {abiType}"
  | numberTooWide value abiType => s!"{value} does not fit in {abiType}"
  | bytesTooWide size abiType => s!"{size} bytes do not fit in {abiType}"
  | unbalancedOpen text => s!"unbalanced '(' in '{text}'"
  | unbalancedClose text => s!"unbalanced ')' in '{text}'"
  | unknownType name => s!"unknown ABI type '{name}'"
  | emptyType => "empty type in signature"
  | emptyParameter => "empty parameter in signature"
  | arraySuffix text => s!"malformed array suffix in '{text}'"
  | parameter text => s!"cannot parse parameter '{text}'"
  | parameterName name => s!"invalid parameter name '{name}'"
  | functionName name => s!"invalid function name '{name}'"
  | afterSignature text => s!"trailing characters after ')' in '{text}'"
  | unnamedSignature canonical => s!"signature '{canonical}' needs a function name"
  | notDate text => s!"'{text}' is not an ISO-8601 date"
  | invalidDate fields reason => s!"invalid date {fields}: {reason}"

def OverflowCause.message : OverflowCause → String
  | operation op left right => s!"{left} {op.symbol} {right} overflows uint256"
  | scaled raw factor => s!"{raw} scaled by {factor} overflows uint256"
  | product => "mul_div result overflows uint256"
  | liquidity value => s!"liquidity {value} overflows uint128"

def UnderflowCause.message : UnderflowCause → String
  | difference left right => s!"{left} - {right} underflows uint256"
  | negation operand => s!"-{operand} underflows uint256"

def ZeroCause.message : ZeroCause → String
  | operation op left => s!"{left} {op.symbol} 0"
  | rootDegree => "root of degree 0 is undefined"
  | product => "mul_div by zero"
  | emptyRange => "price range is empty (sqrt_pa_x96 == sqrt_pb_x96)"

def CalldataCause.message : CalldataCause → String
  | notHex text => s!"calldata '{text}' is not hex"
  | tooShort size => s!"calldata is {size} bytes, shorter than the 4-byte selector"
  | length canonical expected actual =>
    s!"{canonical} expects {expected} bytes of arguments, got {actual}"
  | partialWord size => s!"{size} argument bytes is not a whole number of 32-byte words"
  | overflows word abiType => "word " ++ Hex.encode word ++ " overflows " ++ abiType
  | dirtyAddress word => "word " ++ Hex.encode word ++ " is not a clean address"
  | notBool word => "word " ++ Hex.encode word ++ " is not a bool"
  | dirtyPadding word abiType =>
    "word " ++ Hex.encode word ++ " has dirty " ++ abiType ++ " padding"

def UnitCause.message : UnitCause → String
  | unknown name => s!"unknown unit '{name}'"
  | families source sourceFamily target targetFamily =>
    s!"cannot convert {source} ({sourceFamily}) to {target} ({targetFamily})"

def RangeCause.message : RangeCause → String
  | decimals count greatest => s!"{count} decimals exceeds the maximum of {greatest}"
  | beforeEpoch moment => s!"{moment} is before the Unix epoch"
  | timestamp seconds => s!"timestamp {seconds} is outside the supported calendar"
  | address function value => s!"{function}: {value} does not fit in 160 bits"
  | tick value least greatest => s!"tick {value} is outside [{least}, {greatest}]"
  | sqrtPrice price least greatest => s!"sqrt price {price} is outside [{least}, {greatest}]"
  | zeroPrice => "sqrt_price_x96 must be non-zero"
  | zeroBound => "sqrt price bounds must be non-zero"

namespace Cause

/-- The category that is shown in front of a message. -/
def kind : Cause → String
  | grammar _ => "SyntaxError"
  | unknownIdentifier _ => "UnknownIdentifier"
  | unknownFunction _ => "UnknownFunction"
  | arity _ => "ArityMismatch"
  | typeMismatch _ => "TypeMismatch"
  | literal _ => "InvalidLiteral"
  | overflow _ => "ArithmeticOverflow"
  | underflow _ => "ArithmeticUnderflow"
  | divisionByZero _ => "DivisionByZero"
  | selector .. => "AbiSelectorMismatch"
  | calldata _ => "AbiMalformedCalldata"
  | unit _ => "UnitConversionUnsupported"
  | nesting _ => "RecursionLimitExceeded"
  | range _ => "OutOfRange"

/-- What happened, in words. -/
def message : Cause → String
  | grammar cause => cause.message
  | unknownIdentifier name => s!"unknown identifier '{name}'"
  | unknownFunction name => s!"unknown function '{name}'"
  | arity cause => cause.message
  | typeMismatch cause => cause.message
  | literal cause => cause.message
  | overflow cause => cause.message
  | underflow cause => cause.message
  | divisionByZero cause => cause.message
  | selector actual canonical expected =>
    "calldata selector " ++ Hex.encode actual ++ " does not match " ++ canonical ++
      " (" ++ Hex.encode expected ++ ")"
  | calldata cause => cause.message
  | unit cause => cause.message
  | nesting limit => "expression nested deeper than " ++ limit.display ++ " levels"
  | range cause => cause.message

end Cause

/-- An error of an evaluation: what happened and, once known, where in the line. -/
structure EvalError where
  cause : Cause
  position : Option Nat
  deriving DecidableEq, Repr

namespace EvalError

/-- The text that is shown. Only an error of grammar says where it happened. -/
def message (e : EvalError) : String :=
  match e.cause, e.position with
  | .grammar cause, some p => s!"SyntaxError at position {p}: " ++ cause.message
  | cause, _ => cause.kind ++ ": " ++ cause.message

/-- The error, placed at `position` whether it had a position or not. -/
def placedAt (e : EvalError) (position : Nat) : EvalError :=
  { e with position := some position }

/-- The error, placed at `position` unless it has a position. -/
def locatedAt (e : EvalError) (position : Nat) : EvalError :=
  { e with position := e.position <|> some position }

end EvalError

/-- Uses of an operation outside of its definition. -/
inductive Fault where
  /-- A number that is no word was made a value. -/
  | wordRange
  /-- An integer was divided by zero. -/
  | zeroDivisor
  /-- A function got a signed integer in place of a value, or the reverse. -/
  | argumentKind
  /-- A function got too few arguments. -/
  | argumentCount
  /-- A canonical signature holds a character outside of ASCII. -/
  | signatureText
  /-- A truth value was given as the number of fraction digits. -/
  | digitCount
  /-- A number has more digits than are put into texts, or a text is longer than texts can be. -/
  | longNumber
  deriving DecidableEq, Repr

/-- How an operation ends that does not answer. -/
inductive Failure where
  | error (e : EvalError)
  | fault (f : Fault)
  deriving DecidableEq, Repr

namespace Failure

/-- The failure, placed at `position` unless it has a position. -/
def locatedAt (position : Nat) : Failure → Failure
  | error e => error (e.locatedAt position)
  | fault f => fault f

/-- The failure, placed at `position` whether it had a position or not. -/
def placedAt (position : Nat) : Failure → Failure
  | error e => error (e.placedAt position)
  | fault f => fault f

end Failure

/-- An operation whose errors have no position yet is one with optional positions. -/
instance : MonadLift (Except Cause) (Except EvalError) where
  monadLift x := x.mapError fun cause => ⟨cause, none⟩

/-- An operation that meets no fault is one that may. -/
instance : MonadLift (Except EvalError) (Except Failure) where
  monadLift x := x.mapError Failure.error

end WeiCalc

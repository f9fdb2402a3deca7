import WeiCalc.Expr
import WeiCalc.Token.Lexer
import WeiCalc.Unit

/-!
# From tokens to an expression

The grammar, from the operators that bind least to those that bind most:

* a conversion is a shift followed by any number of `to` and a unit;
* shifts, sums and products associate to the left;
* a power is a unary term, `**` and a power;
* a unary term is a primary term with an optional unit, or a minus and a unary term;
* a primary term is a number, a quoted text, an identifier, a call, an expression in parentheses or
  `unchecked` with one.

Three places nest: a whole expression, the right operand of a power and the operand of a minus. A
`Parser` counts how many of them it is in, and refuses to enter one more than its limit allows. The
operations for the levels of the grammar are given the operation for nested places, and `nested`
ties them together by recursion on the number of levels that are left.
-/

namespace WeiCalc

/-- A place in a sequence of tokens: what is ahead, how many tokens lie behind, and the nesting. -/
structure Parser where
  rest : List Token
  /-- The token that is read again and again behind the last one. -/
  stop : Token
  position : Nat
  depth : Nat
  maxDepth : Limit
  deriving Repr

/-- A computation on a parser. -/
abbrev Parse := EStateM EvalError Parser

/-- The places that count as one level of nesting. -/
inductive Nesting where
  | expression
  | exponent
  | negated
  deriving DecidableEq, Repr

/-- How the places one level down are read. -/
abbrev Inner := Nesting → Parse Expr

namespace Parser

/-- A parser in front of tokens, of which the last one stands for the end of the line. -/
def ofTokens (maxDepth : Limit) (ts : List Token) : Parser :=
  ⟨ts, ts.getLast?.getD ⟨.stop, "", 0⟩, 0, 0, maxDepth⟩

/-- The token `offset` places ahead; behind the last token, the last one. -/
def peek (offset : Nat) : Parse Token := do
  let s ← get
  return s.rest[offset]?.getD s.stop

/-- The next token. -/
def current : Parse Token :=
  peek 0

/-- Reads one token. -/
def advance : Parse Token := do
  let t ← current
  modify fun s => { s with rest := s.rest.drop 1, position := s.position + 1 }
  return t

/-- Is the next token of one of these kinds? -/
def sees (kinds : List TokenKind) : Parse Bool :=
  return kinds.contains (← current).kind

/-- Stops at the next token. -/
def fail {α : Type} (cause : GrammarCause) : Parse α := do
  throw ⟨.grammar cause, some (← current).position⟩

/-- Reads a token of the given kind, or says what is missing. -/
def expect (kind : TokenKind) (what : String) : Parse Token := do
  let t ← current
  if t.kind = kind then advance else fail (.missing what t)

/-- Refuses one more level of nesting. The level is counted although it is not entered. -/
def refuse {α : Type} : Parse α := do
  modify fun s => { s with depth := s.depth + 1 }
  throw ⟨.nesting (← get).maxDepth, some (← current).position⟩

/-- Leaves a level of nesting. -/
def leave (s : Parser) : Parser :=
  { s with depth := s.depth - 1 }

/-- Runs a computation one level down, and leaves the level however the computation ends. -/
def enter {α : Type} (p : Parse α) : Parse α := fun s =>
  match p { s with depth := s.depth + 1 } with
  | .ok a s => .ok a (leave s)
  | .error e s => .error e (leave s)

/-- The operators of the shift level. -/
def shiftOp? : TokenKind → Option BinaryOp
  | .shiftLeft => some .shiftLeft
  | .shiftRight => some .shiftRight
  | _ => none

/-- The operators of the additive level. -/
def sumOp? : TokenKind → Option BinaryOp
  | .plus => some .add
  | .minus => some .sub
  | _ => none

/-- The operators of the multiplicative level. -/
def productOp? : TokenKind → Option BinaryOp
  | .star => some .mul
  | .slash => some .div
  | .percent => some .mod
  | _ => none

/-- Adds operators and right operands to a left operand, at most `count` of them. -/
def chainFrom (operand : Parse Expr) (op? : TokenKind → Option BinaryOp) :
    (count : Nat) → Expr → Parse Expr
  | 0, left => return left
  | count + 1, left => do
    match op? (← current).kind with
    | none => return left
    | some op =>
      let _ ← advance
      let right ← operand
      chainFrom operand op? count (.binary left op right left.position)

/-- Operands joined by operators of one level, to the left. -/
def chain (operand : Parse Expr) (op? : TokenKind → Option BinaryOp) : Parse Expr := do
  let left ← operand
  chainFrom operand op? (← get).rest.length left

/-- Adds conversions to an amount, at most `count` of them. -/
def conversionsFrom : (count : Nat) → Expr → Parse Expr
  | 0, amount => return amount
  | count + 1, amount => do
    if ← sees [.to] then
      let _ ← advance
      let unit ← expect .identifier "expected a unit after 'to'"
      conversionsFrom count (.converted amount unit.text amount.position)
    else return amount

/-- Adds arguments to a list of arguments, at most `count` of them. -/
def argumentsFrom (inner : Inner) : (count : Nat) → List Expr → Parse (List Expr)
  | 0, read => return read
  | count + 1, read => do
    if ← sees [.comma] then
      let _ ← advance
      let next ← inner .expression
      argumentsFrom inner count (read ++ [next])
    else return read

/-- The arguments of a call, up to its closing parenthesis. -/
def arguments (inner : Inner) : Parse (List Expr) := do
  if ← sees [.rightParen] then return []
  let first ← inner .expression
  argumentsFrom inner (← get).rest.length [first]

/-- A primary term. -/
def primary (inner : Inner) : Parse Expr := do
  let t ← current
  match t.kind with
  | .number | .hexNumber | .binaryNumber =>
    let _ ← advance
    match NumberLiteral.ofToken t with
    | .ok literal => return .number literal t.position
    | .error e => throw e
  | .text =>
    let _ ← advance
    return .text t.text t.position
  | .unchecked =>
    let _ ← advance
    let _ ← expect .leftParen "expected '(' after 'unchecked'"
    let body ← inner .expression
    let _ ← expect .rightParen "expected ')' to close 'unchecked('"
    return .unchecked body t.position
  | .leftParen =>
    let _ ← advance
    let body ← inner .expression
    let _ ← expect .rightParen "expected ')'"
    return body
  | .identifier =>
    let _ ← advance
    if ← sees [.leftParen] then
      let _ ← advance
      let args ← arguments inner
      let _ ← expect .rightParen ("expected ',' or ')' in call to '" ++ t.text ++ "'")
      return .call t.text args t.position
    return .identifier t.text t.position
  | _ => fail (.unexpectedToken t)

/-- A primary term and the unit behind it, if there is one. -/
def measured (inner : Inner) : Parse Expr := do
  let amount ← primary inner
  let t ← current
  if t.kind = .identifier ∧ MeasureUnit.isName t.text then
    let _ ← advance
    return .measured amount t.text amount.position
  return amount

/-- A unary term. -/
def unary (inner : Inner) : Parse Expr := do
  let t ← current
  if t.kind = .minus then
    let _ ← advance
    return .negate (← inner .negated) t.position
  measured inner

/-- A power. -/
def exponentiation (inner : Inner) : Parse Expr := do
  let left ← unary inner
  if ← sees [.starStar] then
    let _ ← advance
    return .binary left .pow (← inner .exponent) left.position
  return left

/-- A product. -/
def multiplicative (inner : Inner) : Parse Expr :=
  chain (exponentiation inner) productOp?

/-- A sum. -/
def additive (inner : Inner) : Parse Expr :=
  chain (multiplicative inner) sumOp?

/-- A shift. -/
def shift (inner : Inner) : Parse Expr :=
  chain (additive inner) shiftOp?

/-- A conversion. -/
def conversion (inner : Inner) : Parse Expr := do
  let amount ← shift inner
  conversionsFrom (← get).rest.length amount

/-- The nested places, where `levels` more levels of nesting are allowed. -/
def nested : (levels : Nat) → Inner
  | 0, _ => refuse
  | levels + 1, .expression => enter (conversion (nested levels))
  | levels + 1, .exponent => enter (exponentiation (nested levels))
  | levels + 1, .negated => enter (unary (nested levels))

/-- Reads a part of the grammar at the present depth. -/
def run {α : Type} (part : Inner → Parse α) : Parse α := do
  let s ← get
  part (nested (s.maxDepth.value - s.depth))

/-- Reads an expression, one level down. -/
def expression : Parse Expr :=
  run fun inner => inner .expression

/-- Reads a whole line. -/
def line : Parse Expr := do
  if ← sees [.stop] then fail .emptyExpression
  let e ← expression
  let t ← current
  if t.kind = .stop then return e else fail (.unexpectedToken t)

end Parser

/-- The expression that tokens write. -/
def Expr.ofTokens (maxDepth : Limit) (ts : List Token) : Except EvalError Expr :=
  match Parser.line (Parser.ofTokens maxDepth ts) with
  | .ok e _ => .ok e
  | .error e _ => .error e

/-- The expression that a line writes. -/
def Expr.ofLine (maxDepth : Limit) (line : String) : Except EvalError Expr := do
  Expr.ofTokens maxDepth (← Token.ofLine line)

end WeiCalc

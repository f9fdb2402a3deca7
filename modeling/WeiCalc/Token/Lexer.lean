import WeiCalc.Error
import WeiCalc.Token.Lexeme

/-!
# From a line to its tokens

A `Lexer` is a place in a line and the tokens found so far. Its operations are computations that
keep their state when they fail, so that reading can go on behind an error. `Token.ofLine` reads a
whole line.
-/

namespace WeiCalc

/-- A place in a line: the characters ahead, how many lie behind, and the tokens found so far. -/
structure Lexer where
  rest : List Char
  position : Nat
  tokens : Array Token
  deriving Repr

/-- A computation on a lexer. -/
abbrev Lex := EStateM EvalError Lexer

namespace Lexer

/-- The start of a line. -/
def start (line : String) : Lexer :=
  ⟨line.toList, 0, #[]⟩

/-- The character `offset` places ahead, if the line reaches that far. -/
def peek (offset : Nat) : Lex (Option Char) :=
  return (← get).rest[offset]?

/-- Moves over `width` characters. The position moves on even behind the end of the line. -/
def skip (width : Nat) : Lex Unit :=
  modify fun s => { s with rest := s.rest.drop width, position := s.position + width }

/-- Reads one character. -/
def advance : Lex (Option Char) := do
  let c ← peek 0
  skip 1
  return c

/-- Moves to the next character that is not white space. -/
def skipSpace : Lex Unit := do
  let s ← get
  skip (s.rest.takeWhile Lexeme.isSpace).length

/-- Stops with an error of grammar at `position`. -/
def fail {α : Type} (position : Nat) (cause : GrammarCause) : Lex α :=
  throw ⟨.grammar cause, some position⟩

/-- Reads a lexeme and moves behind it. -/
def take (l : Lexeme) : Lex String := do
  skip l.width
  return String.ofList l.text

/--
Reads a quoted text, whatever character it is quoted by. At the end of the line there is nothing
to read, yet the two quotes are counted.
-/
def readText : Lex String := do
  let start := (← get).position
  match ← advance with
  | none =>
    skip 1
    return ""
  | some mark =>
    let q := Lexeme.quote mark (← get).rest
    let text ← take q.contents
    match q.ending with
    | .closed => return text
    | .open => fail start .unterminatedText
    | .badEscape c => fail ((← get).position - 2) (.invalidEscape c)

/-- Reads a number. -/
def readNumber : Lex (TokenKind × String) := do
  let (kind, l) := Lexeme.number (← get).rest
  return (kind, ← take l)

/-- Reads a word. -/
def readWord : Lex String := do
  take (Lexeme.word (← get).rest)

/-- Reads the next token; there is none at the end of the line. -/
def next? : Lex (Option Token) := do
  skipSpace
  let s ← get
  match s.rest with
  | [] => return none
  | c :: _ =>
    if c == '"' || c == '\'' then
      return some ⟨.text, ← readText, s.position⟩
    else if c.isDigit then
      let (kind, text) ← readNumber
      return some ⟨kind, text, s.position⟩
    else if Lexeme.isWordStart c then
      let text ← readWord
      return some ⟨Lexeme.wordKind text.toList, text, s.position⟩
    else
      match Lexeme.operator? s.rest with
      | some (kind, l) => return some ⟨kind, ← take l, s.position⟩
      | none => fail s.position (.unexpectedCharacter c)

/-- Adds a token to the tokens found so far. -/
def record (t : Token) : Lex Unit :=
  modify fun s => { s with tokens := s.tokens.push t }

/-- Reads at most `count` tokens. -/
def readTokens : (count : Nat) → Lex Unit
  | 0 => return
  | count + 1 => do
    match ← next? with
    | none => return
    | some t =>
      record t
      readTokens count

/--
Reads the tokens ahead and the one that stands for the end of the line; the answer is every token
found so far. A token takes up a character at least, so the characters ahead bound their number.
-/
def tokenize : Lex (Array Token) := do
  readTokens (← get).rest.length
  record ⟨.stop, "", (← get).position⟩
  return (← get).tokens

end Lexer

/-- The tokens of a line, with the one that stands for its end. -/
def Token.ofLine (line : String) : Except EvalError (List Token) :=
  match Lexer.tokenize (Lexer.start line) with
  | .ok ts _ => .ok ts.toList
  | .error e _ => .error e

end WeiCalc

import WeiCalc.Token

/-!
# Lexemes

The text in front of a list of characters that makes up one number, word, quoted text or operator.
A lexeme is its text, as the token will hold it, and its width, the number of characters of the
source that it takes up. The two differ where a number has underscores or a quoted text escapes.
-/

namespace WeiCalc

/-- The text of a token and the number of characters of the source that it takes up. -/
structure Lexeme where
  text : List Char
  width : Nat
  deriving DecidableEq, Repr

namespace Lexeme

/-- No text at all. -/
def none : Lexeme := ⟨[], 0⟩

/-- One lexeme directly after another. -/
def append (a b : Lexeme) : Lexeme :=
  ⟨a.text ++ b.text, a.width + b.width⟩

/-- White space between tokens. -/
def isSpace (c : Char) : Bool :=
  c == ' ' || c == '\t' || c == '\r' || c == '\n'

/-- The characters of words. -/
def isWord (c : Char) : Bool :=
  c.isAlphanum || c == '_'

/-- The characters that words start with. -/
def isWordStart (c : Char) : Bool :=
  c.isAlpha || c == '_'

/-- A word: every word character there is. -/
def word (cs : List Char) : Lexeme :=
  let run := cs.takeWhile isWord
  ⟨run, run.length⟩

/-- A run of characters in which underscores only group the others. -/
def grouped (isMember : Char → Bool) (cs : List Char) : Lexeme :=
  let run := cs.takeWhile fun c => isMember c || c == '_'
  ⟨run.filter (· != '_'), run.length⟩

/-- The digits of the integer or fractional part of a decimal number. -/
def digits (cs : List Char) : Lexeme :=
  grouped Char.isDigit cs

/-- A decimal point and digits. Without a digit behind it the point is left alone. -/
def fraction : List Char → Lexeme
  | '.' :: c :: cs =>
    if c.isDigit then append ⟨['.'], 1⟩ (digits (c :: cs)) else none
  | _ => none

/-- The sign of an exponent. -/
def sign : List Char → List Char
  | '+' :: _ => ['+']
  | '-' :: _ => ['-']
  | _ => []

/-- A power of ten, `e` and an integer. Without a digit the letter is left alone. -/
def exponent : List Char → Lexeme
  | c :: cs =>
    if c == 'e' || c == 'E' then
      let s := sign cs
      let run := (cs.drop s.length).takeWhile Char.isDigit
      if run.isEmpty then none else ⟨c :: (s ++ run), 1 + s.length + run.length⟩
    else none
  | [] => none

/-- A number without a base prefix. -/
def decimal (cs : List Char) : Lexeme :=
  let whole := digits cs
  let part := fraction (cs.drop whole.width)
  let power := exponent (cs.drop (whole.width + part.width))
  append (append whole part) power

/--
The word characters behind a base prefix. Characters that are no digits of the base are taken too,
so that a malformed number stays one token.
-/
def based (mark : Char) (cs : List Char) : Lexeme :=
  append ⟨['0', mark], 2⟩ (grouped isWord cs)

/-- A number and its form. -/
def number : List Char → TokenKind × Lexeme
  | '0' :: 'x' :: cs => (.hexNumber, based 'x' cs)
  | '0' :: 'X' :: cs => (.hexNumber, based 'X' cs)
  | '0' :: 'b' :: cs => (.binaryNumber, based 'b' cs)
  | '0' :: 'B' :: cs => (.binaryNumber, based 'B' cs)
  | cs => (.number, decimal cs)

/-- The character that an escape in a quoted text stands for. -/
def escape? : Char → Option Char
  | 'n' => some '\n'
  | 't' => some '\t'
  | '\\' => some '\\'
  | '"' => some '"'
  | '\'' => some '\''
  | _ => Option.none

/-- How a quoted text ends. -/
inductive QuoteEnd where
  /-- With its closing quote. -/
  | closed
  /-- With the source. -/
  | open
  /-- With an escape that stands for nothing, or with a backslash at the end of the source. -/
  | badEscape (c : Option Char)
  deriving DecidableEq, Repr

/-- The inside of a quoted text, the characters it takes up, and how it ends. -/
structure Quote where
  contents : Lexeme
  ending : QuoteEnd
  deriving DecidableEq, Repr

/-- A quote with one more character in front. -/
def Quote.cons (c : Char) (width : Nat) (q : Quote) : Quote :=
  { q with contents := append ⟨[c], width⟩ q.contents }

/-- The quoted text behind an opening quote; the width counts the closing quote. -/
def quote (mark : Char) : List Char → Quote
  | [] => ⟨none, .open⟩
  | c :: cs =>
    if c = mark then ⟨⟨[], 1⟩, .closed⟩
    else if c = '\\' then
      match cs with
      | [] => ⟨⟨[], 2⟩, .badEscape Option.none⟩
      | d :: ds =>
        match escape? d with
        | some e => (quote mark ds).cons e 2
        | Option.none => ⟨⟨[], 2⟩, .badEscape (some d)⟩
    else (quote mark cs).cons c 1

/-- An operator or delimiter; of two that fit, the longer one. -/
def operator? : List Char → Option (TokenKind × Lexeme)
  | '*' :: '*' :: _ => some (.starStar, ⟨['*', '*'], 2⟩)
  | '<' :: '<' :: _ => some (.shiftLeft, ⟨['<', '<'], 2⟩)
  | '>' :: '>' :: _ => some (.shiftRight, ⟨['>', '>'], 2⟩)
  | '+' :: _ => some (.plus, ⟨['+'], 1⟩)
  | '-' :: _ => some (.minus, ⟨['-'], 1⟩)
  | '*' :: _ => some (.star, ⟨['*'], 1⟩)
  | '/' :: _ => some (.slash, ⟨['/'], 1⟩)
  | '%' :: _ => some (.percent, ⟨['%'], 1⟩)
  | '(' :: _ => some (.leftParen, ⟨['('], 1⟩)
  | ')' :: _ => some (.rightParen, ⟨[')'], 1⟩)
  | ',' :: _ => some (.comma, ⟨[','], 1⟩)
  | _ => Option.none

/-- Two words have a meaning of their own in the grammar; all others are identifiers. -/
def wordKind (text : List Char) : TokenKind :=
  if text = "to".toList then .to
  else if text = "unchecked".toList then .unchecked
  else .identifier

end Lexeme

end WeiCalc

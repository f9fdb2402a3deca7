/-!
# Tokens

A line is a sequence of tokens. Each token knows its text and the offset of its first character.
The text of a string literal is its contents, with the escapes resolved, and numbers have lost
their underscores.
-/

namespace WeiCalc

/-- The kinds of tokens. `stop` stands behind the last token of every line. -/
inductive TokenKind where
  | to
  | unchecked
  | plus
  | minus
  | star
  | slash
  | percent
  | starStar
  | shiftLeft
  | shiftRight
  | leftParen
  | rightParen
  | comma
  | number
  | hexNumber
  | binaryNumber
  | text
  | identifier
  | stop
  deriving DecidableEq, Repr, Inhabited

/-- A token of a line. -/
structure Token where
  kind : TokenKind
  text : String
  position : Nat
  deriving DecidableEq, Repr, Inhabited

namespace Token

/-- How an error message speaks of a token. -/
def describe (t : Token) : String :=
  match t.kind with
  | .stop => "end of input"
  | .text => "string literal"
  | _ => "'" ++ t.text ++ "'"

end Token

end WeiCalc

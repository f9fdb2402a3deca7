import WeiCalc.Text.Digits
import WeiCalc.Text.Printable

/-!
# Quoted text

A text between quotes on one line, as error messages show it. Single quotes are used unless the
text holds a single quote and no double quote. A character that does not print is written as its
code point in hexadecimal, in the shortest of the forms `\x`, `\u` and `\U`.
-/

namespace WeiCalc.Text

/-- A character between the quotes `quote`. -/
def quotedChar (quote c : Char) : List Char :=
  if c = quote ∨ c = '\\' then ['\\', c]
  else if c = '\t' then ['\\', 't']
  else if c = '\n' then ['\\', 'n']
  else if c = '\r' then ['\\', 'r']
  else if isPrintable c then [c]
  else if c.toNat < 0x100 then '\\' :: 'x' :: padded 16 2 c.toNat
  else if c.toNat < 0x10000 then '\\' :: 'u' :: padded 16 4 c.toNat
  else '\\' :: 'U' :: padded 16 8 c.toNat

/-- A text between quotes. -/
def quoted (s : String) : String :=
  let cs := s.toList
  let quote := if cs.contains '\'' && !cs.contains '"' then '"' else '\''
  String.ofList (quote :: cs.flatMap (quotedChar quote) ++ [quote])

end WeiCalc.Text

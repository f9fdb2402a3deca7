import WeiCalc.Text.CaseTable

/-!
# Upper and lower case

Full case mapping: one character may become several. A capital sigma at the end of a word becomes
a final sigma in lower case; it stands at the end of a word if a cased letter comes before it and
none comes after it, where ignorable characters in between do not count.
-/

namespace WeiCalc.Text

/-- The image of a code point under a case mapping that takes one character to one. -/
def CaseRange.image? (r : CaseRange) (n : Nat) : Option Nat :=
  if r.first ≤ n ∧ n ≤ r.last ∧ (n - r.first) % r.step = 0 then some (n + r.offset).toNat else none

/-- The image of a character under a case mapping given by its tables. -/
def mapCase (ranges : List CaseRange) (expansions : List (Nat × List Nat)) (c : Char) :
    List Char :=
  match expansions.lookup c.toNat with
  | some image => image.map Char.ofNat
  | none =>
    match ranges.findSome? (·.image? c.toNat) with
    | some n => [Char.ofNat n]
    | none => [c]

/-- A character in upper case. -/
def upperChar (c : Char) : List Char :=
  mapCase upperRanges upperExpansions c

/-- A character in upper case, if that is one character; else its title case. -/
def upperOne (c : Char) : Char :=
  ((upperRanges.findSome? (·.image? c.toNat)).map Char.ofNat).getD c

/-- A character in lower case, where the characters around it do not matter. -/
def lowerChar (c : Char) : List Char :=
  mapCase lowerRanges lowerExpansions c

/-- A text in upper case. -/
def upper (cs : List Char) : List Char :=
  cs.flatMap upperChar

/-- The first character that is not ignorable is a cased letter. -/
def facesCased (cs : List Char) : Bool :=
  match cs.dropWhile (fun c => inSet ignorable c.toNat) with
  | [] => false
  | c :: _ => inSet cased c.toNat

/-- `lower`, where `before` holds the characters already read, last one first. -/
def lowerFrom (before : List Char) : List Char → List Char
  | [] => []
  | c :: cs =>
    let image :=
      if c = 'Σ' then (if facesCased before && !facesCased cs then ['ς'] else ['σ'])
      else lowerChar c
    image ++ lowerFrom (c :: before) cs

/-- A text in lower case. -/
def lower (cs : List Char) : List Char :=
  lowerFrom [] cs

end WeiCalc.Text

/-!
# Digits

Numbers and their digits, the most significant one first.
-/

namespace WeiCalc.Text

/-- The greatest number of decimal digits of an integer that is read from text or put into one. -/
def greatestDigits : Nat := 4300

/-- The number with the given digits. -/
def ofDigits (base : Nat) (ds : List Nat) : Nat :=
  ds.foldl (fun n d => base * n + d) 0

/-- The value of an ASCII decimal digit. -/
def digitValue (c : Char) : Nat :=
  c.toNat - 0x30

/-- The number that ASCII decimal digits write. -/
def ofDecimal (cs : List Char) : Nat :=
  ofDigits 10 (cs.map digitValue)

/-- The digits of a number, with zeros in front of them if there are fewer than `width`. -/
def padded (base width n : Nat) : List Char :=
  let ds := Nat.toDigits base n
  List.replicate (width - ds.length) '0' ++ ds

/-- The decimal digits of a number, at least `width` of them. -/
def decimal (width n : Nat) : String :=
  String.ofList (padded 10 width n)

end WeiCalc.Text

import WeiCalc.Number
import WeiCalc.Value

/-!
# Display

Values as text, and numbers with a fixed count of fraction digits.
-/

namespace WeiCalc

namespace Display

/-- The greatest count of fraction digits: no greater power of ten is a word. -/
def greatestDecimals : Nat := 77

/-- A number in hexadecimal, padded with zeros to at least `width` bytes. -/
def hex (width n : Nat) : String :=
  "0x" ++ String.ofList (Text.padded 16 (2 * width) n)

/-- The amount divided by `10 ^ decimals`, with all its fraction digits. -/
def units (amount decimals : Nat) : Except Cause String :=
  if greatestDecimals < decimals then .error (.range (.decimals decimals greatestDecimals))
  else if decimals = 0 then .ok (toString amount)
  else
    .ok (toString (amount / Nat.pow 10 decimals) ++ "." ++
      Text.decimal decimals (amount % Nat.pow 10 decimals))

/-- An amount of wei in ether. -/
def ether (amount : Nat) : Except Cause String :=
  units amount 18

/-- A rational number that is not negative, rounded to `digits` fraction digits, a half going up. -/
def fraction (q : Rat) (digits : Nat) : Except Cause String :=
  units (NumberLiteral.rounded (q * 10 ^ digits)) digits

/-- How a truth value is shown. -/
def bool : Bool → String
  | true => "true"
  | false => "false"

end Display

mutual

/-- A value as text. With `fullWords` every number, addresses included, is shown as a whole word. -/
def Value.display (fullWords : Bool) : Value → String
  | .uint w hexWidth =>
    if fullWords then Display.hex 32 w.toNat
    else
      match hexWidth with
      | some width => Display.hex width w.toNat
      | none => toString w.toNat
  | .text s => s
  | .bytes bs => Hex.encode bs
  | .bool b => Display.bool b
  | .list fields => String.intercalate "\n" (displayFields fullWords fields)

/-- One line for each field. -/
def displayFields (fullWords : Bool) : List (Field Value) → List String
  | [] => []
  | ⟨name, abiType, value⟩ :: fields =>
    (name ++ " (" ++ abiType ++ "): " ++ value.display fullWords) :: displayFields fullWords fields

end

end WeiCalc

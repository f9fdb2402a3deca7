import WeiCalc.Pool.Tick

/-!
# Liquidity of a position

A position provides liquidity between two prices. Its amounts of the two tokens and its liquidity
determine each other, given the present price. Prices are square roots with 96 fraction bits.
Liquidity has 128 bits, amounts are words, and every quotient is rounded down.
-/

namespace WeiCalc

namespace Pool

/-- The quotient of a product, which has to be a word. -/
def mulDiv (a b divisor : Nat) : Except Cause Nat :=
  if divisor = 0 then .error (.divisionByZero .product)
  else if a * b / divisor < Word.capacity then .ok (a * b / divisor)
  else .error (.overflow .product)

/-- One more than the greatest liquidity. -/
def liquidityLimit : Nat := Nat.pow 2 128

/-- A number that has to be a liquidity. -/
def asLiquidity (n : Nat) : Except Cause Nat :=
  if n < liquidityLimit then .ok n else .error (.overflow (.liquidity n))

/-- The liquidity that an amount of token 0 provides between two prices. -/
def liquidityForAmount0 (a b amount : Nat) : Except Cause Nat := do
  let low := min a b
  let high := max a b
  asLiquidity (← mulDiv amount (← mulDiv low high q96) (high - low))

/-- The liquidity that an amount of token 1 provides between two prices. -/
def liquidityForAmount1 (a b amount : Nat) : Except Cause Nat := do
  asLiquidity (← mulDiv amount q96 (max a b - min a b))

/--
The amount of token 0 that a liquidity needs between two prices. A lower price of zero beside a
higher one that is not is outside of the definition.
-/
def amount0ForLiquidity (a b liquidity : Nat) : Except Failure Nat := do
  let low := min a b
  let high := max a b
  let scaled ← (mulDiv (liquidity * q96) (high - low) high).mapError fun cause =>
    Failure.error ⟨cause, none⟩
  if low = 0 then throw (.fault .zeroDivisor)
  return scaled / low

/-- The amount of token 1 that a liquidity needs between two prices. -/
def amount1ForLiquidity (a b liquidity : Nat) : Except Cause Nat :=
  mulDiv liquidity (max a b - min a b) q96

/-- The bounds of a position in order, once the price and the bounds have been found to be sound. -/
def positionRange (price a b : Nat) : Except Cause (Nat × Nat) :=
  if price = 0 then .error (.range .zeroPrice)
  else if min a b = 0 then .error (.range .zeroBound)
  else if a = b then .error (.divisionByZero .emptyRange)
  else .ok (min a b, max a b)

/--
The liquidity of a position that holds an amount of token 0, which is what it holds from the
present price up; there is none if the price is at or above the upper bound.
-/
def liquidityFromAmount0 (price a b amount : Nat) : Except Cause Nat := do
  let (low, high) ← positionRange price a b
  if high ≤ price then return 0
  liquidityForAmount0 (max price low) high amount

/--
The liquidity of a position that holds an amount of token 1, which is what it holds from the
present price down; there is none if the price is at or below the lower bound.
-/
def liquidityFromAmount1 (price a b amount : Nat) : Except Cause Nat := do
  let (low, high) ← positionRange price a b
  if price ≤ low then return 0
  liquidityForAmount1 low (min price high) amount

/-- The amount of token 0 in a position. -/
def amount0FromLiquidity (price a b liquidity : Nat) : Except Failure Nat := do
  let (low, high) ← (positionRange price a b).mapError fun cause => Failure.error ⟨cause, none⟩
  if high ≤ price then return 0
  amount0ForLiquidity (max price low) high liquidity

/-- The amount of token 1 in a position. -/
def amount1FromLiquidity (price a b liquidity : Nat) : Except Cause Nat := do
  let (low, high) ← positionRange price a b
  if price ≤ low then return 0
  amount1ForLiquidity low (min price high) liquidity

end Pool

end WeiCalc

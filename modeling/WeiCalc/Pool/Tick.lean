import WeiCalc.Error
import WeiCalc.Word

/-!
# Ticks and prices

The price of a pool moves in ticks: at tick `t` it is `1.0001 ^ t`. Pools keep its square root as a
fixed-point number with 96 fraction bits, computed from the binary digits of the tick: each digit
that is set multiplies the ratio by a stored power of `sqrt (1 / 1.0001)` with 128 fraction bits.
-/

namespace WeiCalc

namespace Pool

/-- The least tick. -/
def leastTick : Int := -887272

/-- The greatest tick. -/
def greatestTick : Int := 887272

/-- The square root of the price at the least tick. -/
def leastSqrtPrice : Nat := 4295128739

/-- The square root of the price at the greatest tick. -/
def greatestSqrtPrice : Nat := 1461446703485210103287273052203988822378723970342

/-- One, with 32 fraction bits. -/
def q32 : Nat := Nat.pow 2 32

/-- One, with 96 fraction bits. -/
def q96 : Nat := Nat.pow 2 96

/-- One, with 128 fraction bits. -/
def q128 : Nat := Nat.pow 2 128

/-- The factor for each binary digit of a tick, with 128 fraction bits, from the least digit up. -/
def digitFactors : List Nat :=
  [
    0xfffcb933bd6fad37aa2d162d1a594001, 0xfff97272373d413259a46990580e213a,
    0xfff2e50f5f656932ef12357cf3c7fdcc, 0xffe5caca7e10e4e61c3624eaa0941cd0,
    0xffcb9843d60f6159c9db58835c926644, 0xff973b41fa98c081472e6896dfb254c0,
    0xff2ea16466c96a3843ec78b326b52861, 0xfe5dee046a99a2a811c461f1969c3053,
    0xfcbe86c7900a88aedcffc83b479aa3a4, 0xf987a7253ac413176f2b074cf7815e54,
    0xf3392b0822b70005940c7a398e4b70f3, 0xe7159475a2c29b7443b29c7fa6e889d9,
    0xd097f3bdfd2022b8845ad8f792aa5825, 0xa9f746462d870fdf8a65dc1f90e061e5,
    0x70d869a156d2a1b890bb3df62baf32f7, 0x31be135f97d08fd981231505542fcfa6,
    0x9aa508b5b7a84e1c677de54f3e99bc9, 0x5d6af8dedb81196699c329225ee604,
    0x2216e584f5fa1ea926041bedfe98, 0x48a170391f7dc42444e8fa2]

/--
The product of a ratio and the factors of the binary digits of `n`, each product rounded down to
128 fraction bits.
-/
def scaleByDigits : (factors : List Nat) → (n ratio : Nat) → Nat
  | [], _, ratio => ratio
  | factor :: factors, n, ratio =>
    scaleByDigits factors (n / 2) (if n % 2 = 1 then ratio * factor / q128 else ratio)

/-- The square root of the price at tick `-n`, with 128 fraction bits. -/
def ratioBelow (n : Nat) : Nat :=
  scaleByDigits digitFactors n q128

/-- A number with 128 fraction bits as one with 96, rounded up. -/
def roundUp (ratio : Nat) : Nat :=
  ratio / q32 + if ratio % q32 = 0 then 0 else 1

/-- The square root of the price at a tick, with 96 fraction bits, for a tick in range. -/
def sqrtPrice (tick : Int) : Nat :=
  let ratio := ratioBelow tick.natAbs
  roundUp (if 0 < tick then (Word.capacity - 1) / ratio else ratio)

/-- The square root of the price at a tick. -/
def sqrtPriceAt (tick : Int) : Except Cause Nat :=
  if tick.natAbs ≤ greatestTick.toNat then .ok (sqrtPrice tick)
  else .error (.range (.tick tick leastTick greatestTick))

/-- The greatest tick in an interval whose price is not above the given one, by halving. -/
def search (price : Nat) (low high : Int) : Int :=
  if low < high then
    let middle := (low + high + 1) / 2
    if sqrtPrice middle ≤ price then search price middle high else search price low (middle - 1)
  else low
termination_by (high - low).toNat
decreasing_by all_goals omega

/-- The greatest tick whose price is not above the given one. -/
def tickAt (price : Nat) : Except Cause Int :=
  if leastSqrtPrice ≤ price ∧ price ≤ greatestSqrtPrice then
    .ok (search price leastTick greatestTick)
  else .error (.range (.sqrtPrice price leastSqrtPrice greatestSqrtPrice))

/-- The price of token 0 in token 1, for tokens with the given numbers of decimals. -/
def priceOfSqrt (sqrt decimals0 decimals1 : Nat) : Rat :=
  ((sqrt * sqrt : Nat) : Rat) / (q96 * q96 : Nat) * 10 ^ ((decimals0 : Int) - decimals1)

/-- The price at a tick, of token 0 in token 1 or the other way round. -/
def priceAt (tick : Int) (inToken1 : Bool) (decimals0 decimals1 : Nat) : Except Cause Rat := do
  let price := priceOfSqrt (← sqrtPriceAt tick) decimals0 decimals1
  return if inToken1 then 1 / price else price

end Pool

end WeiCalc

import Mathlib
import WeiCalc.Proofs.Display
import WeiCalc.Proofs.Pool.Tick

/-!
# The price at a tick, as it is shown

The price at a tick is an exact rational number.  What is shown of it is a numeral with as many
fraction digits as the settings ask for, and it is noted if the two differ.

* `Pool.quotedPrice`: the price at a tick in terms of its square root, in either token.
* `Numeral.Rounds`: a numeral that is a rational number rounded to fraction digits.
* `Numeral.rounds_ofUnits`: **the numeral that is shown is the number, rounded.**
* `Numeral.value_eq_iff`: it is the number itself if nothing is left behind its last digit.
* `Call.result_priceOfTick`: **the price at a tick, and when rounding it is noted.**
-/

namespace WeiCalc

/-! ### Exact prices -/

namespace Pool

/-- The price of token 0 in token 1 at a tick, for tokens with the given numbers of decimals, or the
reciprocal one. -/
def quotedPrice (tick : Int) (inToken1 : Bool) (decimals0 decimals1 : Nat) : Rat :=
  let price := (sqrtPrice tick : Rat) ^ 2 / 2 ^ 192 * 10 ^ ((decimals0 : Int) - decimals1)
  if inToken1 then price⁻¹ else price

variable {tick : Int}

theorem quotedPrice_pos (tick : Int) (inToken1 : Bool) (decimals0 decimals1 : Nat) :
    0 < quotedPrice tick inToken1 decimals0 decimals1 := by
  have hroot : (0 : Rat) < sqrtPrice tick := Nat.cast_pos.mpr (sqrtPrice_pos tick)
  rw [quotedPrice]
  split_ifs <;> positivity

/-- Every tick in range has its exact price. -/
theorem priceAt_of_mem (hl : leastTick ≤ tick) (hg : tick ≤ greatestTick) (inToken1 : Bool)
    (decimals0 decimals1 : Nat) :
    priceAt tick inToken1 decimals0 decimals1 =
      .ok (quotedPrice tick inToken1 decimals0 decimals1) := by
  have hsquare : q96 * q96 = 2 ^ 192 := by decide
  have hprice : priceOfSqrt (sqrtPrice tick) decimals0 decimals1 =
      (sqrtPrice tick : Rat) ^ 2 / 2 ^ 192 * 10 ^ ((decimals0 : Int) - decimals1) := by
    rw [priceOfSqrt, hsquare, Nat.cast_mul, ← pow_two, Nat.cast_pow, Nat.cast_ofNat]
  rw [priceAt, sqrtPriceAt_of_mem hl hg, except_ok_bind, quotedPrice, hprice]
  simp only [one_div]
  rfl

end Pool

/-! ### Rounded numerals -/

namespace NumberLiteral

/-- Rounding keeps integers and nothing else. -/
theorem rounded_eq_iff {q : Rat} (h : 0 ≤ q) : (rounded q : Rat) = q ↔ q.den = 1 := by
  constructor
  · intro hq
    rw [← hq]
    exact Rat.den_natCast _
  · intro hd
    exact (eq_rounded h hd).symm

end NumberLiteral

namespace Numeral

/-- A numeral that is `q` rounded to a number of fraction digits, a half going up: it has no power
of ten, these digits behind the point, and no point if there are none. -/
structure Rounds (m : Numeral) (q : Rat) (digits : Nat) : Prop where
  power : m.power = none
  fraction : m.fraction.map (·.chars.length) = if digits = 0 then none else some digits
  value : m.value = (⌊q * 10 ^ digits + 1 / 2⌋ : Rat) / 10 ^ digits

variable {q : Rat} {digits : Nat}

/-- **The numeral that is shown is the number, rounded.** -/
theorem rounds_ofUnits (h : 0 ≤ q) (digits : Nat) :
    Rounds (ofUnits (NumberLiteral.rounded (q * 10 ^ digits)) digits) q digits := by
  have hscaled : 0 ≤ q * 10 ^ digits := by positivity
  refine ⟨rfl, ?_, ?_⟩
  · rw [ofUnits]
    by_cases hz : digits = 0
    · rw [if_pos hz, if_pos hz]
      rfl
    · rw [if_neg hz, if_neg hz, Option.map_some,
        Text.length_padded (by decide) (Nat.pos_of_ne_zero hz) (Nat.mod_lt _ (by positivity))]
  · have hfloor : ((NumberLiteral.rounded (q * 10 ^ digits) : Int) : Rat) =
        ⌊q * 10 ^ digits + 1 / 2⌋ := congrArg _ (NumberLiteral.rounded_eq_floor hscaled)
    rw [value_ofUnits, ← hfloor, Int.cast_natCast]

/-- The numeral is the number itself if nothing is left behind its last digit. -/
theorem value_eq_iff (h : 0 ≤ q) :
    (ofUnits (NumberLiteral.rounded (q * 10 ^ digits)) digits).value = q ↔
      (q * 10 ^ digits).den = 1 := by
  have hpow : (10 : Rat) ^ digits ≠ 0 := by positivity
  rw [value_ofUnits, div_eq_iff hpow, NumberLiteral.rounded_eq_iff (by positivity)]

end Numeral

theorem Display.fraction_eq (q : Rat) {digits : Nat} (h : digits ≤ greatestDecimals) :
    fraction q digits =
      .ok (String.ofList (Numeral.ofUnits (NumberLiteral.rounded (q * 10 ^ digits)) digits).text) :=
  Numeral.text_ofUnits h

/-! ### The function -/

namespace Eval

variable {α β : Type} {a : α} {f : α → Eval β} {ds : Diagnostics}

/-- An operation that answers is followed by what comes behind it. -/
theorem lift_bind_of_ok {x : Except Failure α} (h : x = .ok a) :
    ((liftM x : Eval α) >>= f) ds = f a ds := by
  rw [h]
  rfl

theorem liftCause_bind_of_ok {x : Except Cause α} (h : x = .ok a) :
    ((liftM x : Eval α) >>= f) ds = f a ds := by
  rw [h]
  rfl

end Eval

/-- The truth value that a flag stands for: zero is false, and every other number is true. -/
def Value.flag? : Value → Option Bool
  | .bool b => some b
  | .uint w _ => some (w != 0)
  | _ => none

namespace Call

variable {env : Environment} {digits : Nat}

theorem flag_of_flag? {c : Call} {index : Nat} {v : Value} {b : Bool} (hc : c.value index = .ok v)
    (h : v.flag? = some b) : c.flag index = .ok b := by
  rw [flag, hc, except_ok_bind]
  cases v with
  | bool b' => exact congrArg Except.ok (Option.some.inj h)
  | uint w hint => exact congrArg Except.ok (Option.some.inj h)
  | text s => cases h
  | bytes bs => cases h
  | list fields => cases h

theorem checkDecimals_of_le {decimals : Nat} (h : decimals ≤ Display.greatestDecimals) :
    checkDecimals decimals = .ok () :=
  if_pos h

/-- A price is shown as a numeral, and it is noted if that is not the price. -/
theorem shownPrice_count {settings : Settings} {q : Rat} (h : 0 ≤ q)
    (hp : settings.pricePrecision = .count digits) (hd : digits ≤ Display.greatestDecimals)
    (ds : Diagnostics) :
    let m := Numeral.ofUnits (NumberLiteral.rounded (q * 10 ^ digits)) digits
    shownPrice settings q ds = .ok (String.ofList m.text)
      (if m.value = q then ds else ds.push ⟨.priceRounded (toString digits), none⟩) := by
  intro m
  have hvalue : m.value = q ↔ (q * 10 ^ digits).den = 1 := Numeral.value_eq_iff h
  have hcount : (Limit.count digits).value = digits := rfl
  have hflag : ¬Limit.count digits = .flag true := by rintro ⟨⟩
  rw [shownPrice, hp]
  simp only [hcount, if_neg hflag]
  rw [Eval.liftCause_bind_of_ok (Display.fraction_eq q hd)]
  by_cases hden : (q * 10 ^ digits).den = 1
  · simp only [if_neg (not_not.mpr hden), if_pos (hvalue.mpr hden)]
    rfl
  · simp only [if_pos hden, if_neg (mt hvalue.mp hden)]
    rfl

/-- **The price at a tick, and when rounding it is noted.**  For every tick in range, either token
and all decimals and digits that are not too many, the function shows a numeral that is the exact
price, rounded to the digits of the settings.  It makes one diagnostic if that numeral is not the
price, and none if it is. -/
theorem result_priceOfTick (hp : env.settings.pricePrecision = .count digits)
    (hd : digits ≤ Display.greatestDecimals) {tick : Int} (hl : Pool.leastTick ≤ tick)
    (hg : tick ≤ Pool.greatestTick) {v : Value} {inToken1 : Bool} (hv : v.flag? = some inToken1)
    {w0 w1 : Word} (h0 : w0.toNat ≤ Display.greatestDecimals)
    (h1 : w1.toNat ≤ Display.greatestDecimals) (hint0 hint1 : Option Nat) (ds : Diagnostics) :
    let q := Pool.quotedPrice tick inToken1 w0.toNat w1.toNat
    ∃ m : Numeral, m.Rounds q digits ∧
      result env ⟨.priceOfTick,
          [.signed tick, .value v, .value (.uint w0 hint0), .value (.uint w1 hint1)]⟩ ds =
        .ok (.text (if inToken1 then s!"1 token1 : {String.ofList m.text} token0"
            else s!"1 token0 : {String.ofList m.text} token1"))
          (if m.value = q then ds else ds.push ⟨.priceRounded (toString digits), none⟩) := by
  intro q
  let c : Call := ⟨.priceOfTick,
    [.signed tick, .value v, .value (.uint w0 hint0), .value (.uint w1 hint1)]⟩
  have hq : 0 ≤ q := (Pool.quotedPrice_pos tick inToken1 w0.toNat w1.toNat).le
  have hflag : c.flag 1 = .ok inToken1 := flag_of_flag? rfl hv
  have hdecimals0 : c.number 2 = .ok w0.toNat := rfl
  have hdecimals1 : c.number 3 = .ok w1.toNat := rfl
  have htick : c.signed 0 = .ok tick := rfl
  have hprice := Pool.priceAt_of_mem hl hg inToken1 w0.toNat w1.toNat
  have hrun : result env c ds = c.priceOfTick env.settings ds := rfl
  refine ⟨_, Numeral.rounds_ofUnits hq digits, ?_⟩
  rw [hrun, priceOfTick, Eval.lift_bind_of_ok hflag, Eval.lift_bind_of_ok hdecimals0,
    Eval.lift_bind_of_ok hdecimals1, Eval.liftCause_bind_of_ok (checkDecimals_of_le h0),
    Eval.liftCause_bind_of_ok (checkDecimals_of_le h1), Eval.lift_bind_of_ok htick,
    Eval.liftCause_bind_of_ok hprice, bind_of_ok (shownPrice_count hq hp hd ds)]
  rfl

/-- A price that is too small for six fraction digits. -/
theorem result_priceOfTick_small :
    let env : Environment := ⟨.standard 0, fun _ => Vector.replicate 32 0⟩
    Pool.quotedPrice 0 true 18 6 = 1 / 10 ^ 12 ∧ (Value.number 1).flag? = some true ∧
    ∃ m : Numeral, m.Rounds (1 / 10 ^ 12) 6 ∧ m.value = 0 ∧
      result env ⟨.priceOfTick,
          [.signed 0, .value (.number 1), .value (.number 18), .value (.number 6)]⟩ #[] =
        .ok (.text s!"1 token1 : {String.ofList m.text} token0")
          #[⟨.priceRounded (toString 6), none⟩] := by
  intro env
  have hroot : Pool.sqrtPrice 0 = 2 ^ 96 := by decide +kernel
  have hprice : Pool.quotedPrice 0 true 18 6 = 1 / 10 ^ 12 := by
    rw [Pool.quotedPrice, hroot]
    norm_num
  have hflag : (Value.number 1).flag? = some true := by decide
  obtain ⟨m, hm, hrun⟩ := result_priceOfTick (show env.settings.pricePrecision = .count 6 from rfl)
    (by decide) (show Pool.leastTick ≤ 0 by decide) (by decide) hflag
    (show (18 : Word).toNat ≤ Display.greatestDecimals by decide)
    (show (6 : Word).toNat ≤ Display.greatestDecimals by decide) none none #[]
  change m.Rounds (Pool.quotedPrice 0 true 18 6) 6 at hm
  change _ = EStateM.Result.ok _ (if m.value = Pool.quotedPrice 0 true 18 6 then _ else _) at hrun
  rw [hprice] at hm hrun
  have hfloor : ⌊(1 / 10 ^ 12 : Rat) * 10 ^ 6 + 1 / 2⌋ = 0 := by
    rw [Int.floor_eq_zero_iff]
    norm_num
  have hvalue : m.value = 0 := by
    rw [hm.value, hfloor]
    norm_num
  have hlost : ¬(0 : Rat) = 1 / 10 ^ 12 := by norm_num
  rw [if_pos rfl, hvalue, if_neg hlost] at hrun
  exact ⟨hprice, hflag, m, hm, hvalue, hrun⟩

end Call

end WeiCalc

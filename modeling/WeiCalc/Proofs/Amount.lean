import Mathlib
import WeiCalc.Session
import WeiCalc.Proofs.Arithmetic
import WeiCalc.Proofs.Grammar.Exact
import WeiCalc.Proofs.Token.Numeral

/-!
# Amounts

An amount is a decimal number, alone or with a unit behind it.  Its value is the nearest integer to
what is kept of the number times the factor of the unit, and it is noted if that is no integer.

* `Evaluation.literal_nearest`, `Evaluation.scaled_nearest`: a number alone and in a unit.
* `Environment.value_amount`: **the value of an amount.**
* `Environment.value_milliether`: a thousandth of an ether is nothing, since nothing is kept of `1e-3`.
-/

namespace WeiCalc

/-! ### Rounding -/

namespace NumberLiteral

variable {q : Rat}

theorem eq_rounded (hq : 0 ≤ q) (hd : q.den = 1) : q = rounded q := by
  have hn : ((q.num.toNat : Nat) : Rat) = q := by
    have hnum := Int.toNat_of_nonneg (Rat.num_nonneg.mpr hq)
    rw [← (Rat.den_eq_one_iff q).mp hd]
    exact_mod_cast hnum
  rw [← hn, rounded_natCast]

theorem nearest_of_den_eq_one (raw : String) (hd : q.den = 1) :
    nearest raw q = ⟨BitVec.ofNat 256 (rounded q), raw, none⟩ := by
  rw [nearest, if_pos hd]

theorem nearest_of_den_ne_one (raw : String) (hd : q.den ≠ 1) :
    nearest raw q = ⟨BitVec.ofNat 256 (rounded q), raw, some q⟩ := by
  rw [nearest, if_neg hd]

end NumberLiteral

open NumberLiteral

/-- The diagnostics after a literal at `position` has stood for the integer nearest to `q`. -/
def Diagnostics.rounding (ds : Diagnostics) (raw : String) (q : Rat) (position : Nat) :
    Diagnostics :=
  if q.den = 1 then ds else ds.push ⟨.literalRounded raw (rounded q), some position⟩

namespace Evaluation

variable {q : Rat} {raw : String} {position : Nat} {ds : Diagnostics}

/-! ### Numbers alone and in units -/

theorem literal_nearest (h : rounded q < Word.capacity) :
    literal (nearest raw q) position ds =
      .ok (.number (BitVec.ofNat 256 (rounded q))) (ds.rounding raw q position) := by
  rw [Diagnostics.rounding]
  by_cases hd : q.den = 1
  · rw [nearest_of_den_eq_one raw hd, if_pos hd]
    rfl
  · have hw := Word.toNat_ofNat_of_lt h
    rw [nearest_of_den_ne_one raw hd, if_neg hd]
    nth_rewrite 3 [← hw]
    rfl

/-- All but fractions are evaluated first, and then multiplied as words. -/
theorem scaled_of_value {below : Below} {mode : ArithmeticMode} {e : Expr} {v : Word}
    {hint : Option Nat} {factor : Nat} {ds' : Diagnostics}
    (he : ∀ w raw q p, e ≠ .number ⟨w, raw, some q⟩ p)
    (hv : below.value mode e ds = .ok (.uint v hint) ds')
    (hf : factor < Word.capacity) (h : v.toNat * factor < Word.capacity) :
    scaled below mode factor e ds = .ok (BitVec.ofNat 256 (v.toNat * factor)) ds' := by
  have ho : operand below mode "unit" e ds = .ok v ds' := by
    rw [operand, bind_of_ok hv]
    rfl
  have hm : Arithmetic.mul .checked v (BitVec.ofNat 256 factor) =
      .ok (BitVec.ofNat 256 (v.toNat * factor)) := by
    rw [Arithmetic.mul_checked, Word.toNat_ofNat_of_lt hf, if_pos h, BitVec.ofNat_mul,
      BitVec.ofNat_toNat, BitVec.setWidth_eq]
  have hs : scaled below mode factor e = operand below mode "unit" e >>= fun amount =>
      arithmetic .checked e.position fun mode =>
        Arithmetic.mul mode amount (BitVec.ofNat 256 factor) := by
    cases e with
    | number l p =>
      obtain ⟨w, raw, exact⟩ := l
      cases exact with
      | none => rfl
      | some q => exact absurd rfl (he w raw q p)
    | _ => rfl
  rw [hs, bind_of_ok ho]
  simp only [arithmetic, hm]
  rfl

/-- Any other number is multiplied before it is rounded. -/
theorem scaled_fraction (below : Below) (mode : ArithmeticMode) {w : Word} {factor : Nat}
    (h : rounded (q * factor) < Word.capacity) :
    scaled below mode factor (.number ⟨w, raw, some q⟩ position) ds =
      .ok (BitVec.ofNat 256 (rounded (q * factor))) (ds.rounding raw (q * factor) position) := by
  have hw : Word.ofNat? (rounded (q * factor)) = some (BitVec.ofNat 256 (rounded (q * factor))) :=
    if_pos h
  rw [scaled, Diagnostics.rounding]
  by_cases hd : (q * factor).den = 1
  · rw [if_neg (not_not.mpr hd), if_pos hd, hw]
    rfl
  · rw [if_pos hd, if_neg hd, hw]
    rfl

/-- **A number in a unit** is the nearest integer to its product with the factor. -/
theorem scaled_nearest {below : Below} {factor : Nat} (hq : 0 ≤ q)
    (hb : below.value .checked (.number (nearest raw q) position) ds =
      .ok (.number (BitVec.ofNat 256 (rounded q))) (ds.rounding raw q position))
    (hn : rounded q < Word.capacity) (hf : factor < Word.capacity)
    (h : rounded (q * factor) < Word.capacity) :
    scaled below .checked factor (.number (nearest raw q) position) ds =
      .ok (BitVec.ofNat 256 (rounded (q * factor))) (ds.rounding raw (q * factor) position) := by
  by_cases hd : q.den = 1
  · have hint : q * factor = (rounded q * factor : Nat) := by
      rw [Nat.cast_mul, ← eq_rounded hq hd]
    have hds : ds.rounding raw (q * factor) position = ds := by
      rw [hint]
      exact if_pos (Rat.den_natCast _)
    rw [hint, rounded_natCast] at h
    rw [Diagnostics.rounding, if_pos hd, nearest_of_den_eq_one raw hd] at hb
    have hw := Word.toNat_ofNat_of_lt hn
    have hrun := scaled_of_value (by rintro _ _ _ _ ⟨⟩) hb hf (by rw [hw]; exact h)
    rw [hw] at hrun
    rw [nearest_of_den_eq_one raw hd, hrun, hds, hint, rounded_natCast]
  · rw [nearest_of_den_ne_one raw hd, scaled_fraction below .checked h]

end Evaluation

/-! ### Numbers with a unit behind them -/

/-- What may stand behind a number: nothing, or a unit under one of its names. -/
inductive Suffix where
  | none
  | unit (name : String) (u : MeasureUnit) (known : MeasureUnit.ofName? name = some u)

namespace Suffix

def text : Suffix → String
  | none => ""
  | unit name _ _ => " " ++ name

/-- What the number is multiplied by. -/
def factor : Suffix → Nat
  | none => 1
  | unit _ u _ => u.factor

/-- The levels of nesting that the number and the suffix take up. -/
def levels : Suffix → Nat
  | none => 1
  | unit .. => 2

/-- The tree of a number with the suffix. -/
def expr (l : NumberLiteral) (position : Nat) : Suffix → Expr
  | none => .number l position
  | unit name _ _ => .measured (.number l position) name position

theorem factor_lt (s : Suffix) : s.factor < Word.capacity := by
  cases s with
  | none => decide
  | unit name u known =>
    have hall : ∀ u ∈ MeasureUnit.all, u.factor < Word.capacity := by decide
    exact hall u (MeasureUnit.mem_all known)

end Suffix

/-- The tree of an amount. -/
theorem Expr.ofLine_amount {maxDepth : Limit} {t v : String} {p : Nat} {stop : Token}
    {l : NumberLiteral} (ht : Token.ofLine t = .ok [⟨.number, v, p⟩, stop])
    (hl : readDecimal v = .ok l) (hd : 0 < maxDepth.value) (s : Suffix) :
    Expr.ofLine maxDepth (t ++ s.text) = .ok (s.expr l p) := by
  have hp : Grammar.Derives .primary [⟨.number, v, p⟩] (.number l p) 0 := by
    refine .number (t := ⟨.number, v, p⟩) (List.mem_cons_self ..) ?_
    rw [ofToken]
    simp only [hl]
    rfl
  rw [Expr.ofLine]
  cases s with
  | none =>
    have hstop : stop.kind = .stop :=
      Token.kind_of_ofLine (show Token.ofLine t = .ok ([⟨.number, v, p⟩] ++ [stop]) from ht)
    have htext : t ++ Suffix.none.text = t := String.append_empty
    rw [htext, ht]
    exact Grammar.ofTokens_of_derives hstop (.alone (.term (.bare hp))) hd
  | unit name u known =>
    obtain ⟨q, q', hts⟩ := Token.ofLine_number_unit ht known
    have hunit : MeasureUnit.isName name = true := by
      rw [MeasureUnit.isName, known]
      rfl
    have hm : Grammar.Derives .measured ([⟨.number, v, p⟩] ++ [⟨.identifier, name, q⟩])
        (.measured (.number l p) name p) 0 := .measured hp rfl hunit
    have hstop : (⟨.stop, "", q'⟩ : Token).kind = .stop := rfl
    rw [Suffix.text, hts]
    exact Grammar.ofTokens_of_derives hstop (.alone (.term hm)) hd

/-- The value of the tree of an amount. -/
theorem Context.value_nearest {c : Context} (hc : c.mode = .checked) {q : Rat} {raw : String}
    {position : Nat} {ds : Diagnostics} {s : Suffix} (hd : s.levels ≤ c.levels) (hq : 0 ≤ q)
    (hn : rounded q < Word.capacity) (h : rounded (q * s.factor) < Word.capacity) :
    c.value (s.expr (nearest raw q) position) ds =
      .ok (.number (BitVec.ofNat 256 (rounded (q * s.factor))))
        (ds.rounding raw (q * s.factor) position) := by
  obtain ⟨env, mode, levels⟩ := c
  cases hc
  cases s with
  | none =>
    obtain ⟨k, rfl⟩ := Nat.exists_eq_add_of_le' hd
    have hone : q * (Suffix.none.factor : Nat) = q := by rw [Suffix.factor, Nat.cast_one, mul_one]
    rw [hone]
    exact Evaluation.literal_nearest hn
  | unit name u known =>
    obtain ⟨k, rfl⟩ := Nat.exists_eq_add_of_le' hd
    let below : Below := ⟨Evaluation.value env (k + 1), Evaluation.signed env (k + 1)⟩
    have hu : Evaluation.unitOf name position ds = .ok u ds := by
      rw [Evaluation.unitOf, known]
      rfl
    have hs : Evaluation.scaled below .checked u.factor (.number (nearest raw q) position) ds = _ :=
      Evaluation.scaled_nearest hq (Evaluation.literal_nearest hn) hn
        (Suffix.unit name u known).factor_lt h
    change (Evaluation.unitOf name position >>= fun u =>
      Evaluation.scaled below .checked u.factor (.number (nearest raw q) position) >>= fun w =>
        pure (Value.number w)) ds = _
    rw [bind_of_ok hu, bind_of_ok hs]
    rfl

namespace Environment

/-- The value of the line of a numeral and a suffix. -/
theorem value_numeral {env : Environment} {t v : String} {p : Nat} {stop : Token} {m : Numeral}
    {s : Suffix} (ht : Token.ofLine t = .ok [⟨.number, v, p⟩, stop]) (hm : m.text = v.toList)
    (hv : v.length ≤ greatestLength) (hd : s.levels ≤ env.settings.maxDepth.value)
    (hvalue : rounded m.value < Word.capacity)
    (hproduct : rounded (m.kept * s.factor) < Word.capacity) (ds : Diagnostics) :
    env.value (t ++ s.text) ds =
      .ok (.number (BitVec.ofNat 256 (rounded (m.kept * s.factor))))
        (ds.rounding v (m.kept * s.factor) p) := by
  have hpos : 0 < env.settings.maxDepth.value := by
    cases s <;> rw [Suffix.levels] at hd <;> omega
  have hline : Expr.ofLine env.settings.maxDepth (t ++ s.text) =
      .ok (s.expr (nearest v m.kept) p) :=
    Expr.ofLine_amount ht (readDecimal_numeral hm hv hvalue) hpos s
  have hrun : (Context.start env).value (s.expr (nearest v m.kept) p) ds = _ :=
    Context.value_nearest rfl hd m.kept_nonneg (lt_of_le_of_lt (rounded_mono m.kept_le) hvalue)
      hproduct
  rw [Environment.value, hline]
  exact hrun

/-- **The value of an amount**, that is of a line of one decimal number, alone or with a unit behind
it.  The number is a numeral; if its value, alone and in the unit, rounds to a word, then the line has
a value, the nearest integer to what is kept of the number times the factor of the unit, a half going
up.  The number is noted if and only if that product is no integer. -/
theorem value_amount (env : Environment) {t v : String} {p : Nat} {stop : Token}
    (ht : Token.ofLine t = .ok [⟨.number, v, p⟩, stop]) (hv : v.length ≤ 1000)
    (s : Suffix) (hd : s.levels ≤ env.settings.maxDepth.value) (ds : Diagnostics) :
    (∃ m : Numeral, m.text = v.toList) ∧
    ∀ m : Numeral, m.text = v.toList → ⌊m.value + 1 / 2⌋ < (Word.capacity : Int) →
      ⌊m.value * s.factor + 1 / 2⌋ < (Word.capacity : Int) →
      ∃ w : Word, (w.toNat : Int) = ⌊m.kept * s.factor + 1 / 2⌋ ∧
        env.value (t ++ s.text) ds = .ok (.number w)
          (if (m.kept * s.factor).den = 1 then ds
            else ds.push ⟨.literalRounded v w.toNat, some p⟩) := by
  constructor
  · obtain ⟨g, c, cs, l, -, -, hc, hl, rfl, -⟩ := Token.ofLine_eq_number ht
    rw [String.toList_ofList]
    exact Lexeme.exists_numeral hc hl
  intro m hm hone hscaled
  have hfactor : (0 : Rat) ≤ s.factor := Nat.cast_nonneg _
  have hvalue : rounded m.value < Word.capacity := by
    rw [← rounded_eq_floor m.value_nonneg] at hone
    exact_mod_cast hone
  have hproduct : rounded (m.kept * s.factor) < Word.capacity := by
    rw [← rounded_eq_floor (mul_nonneg m.value_nonneg hfactor)] at hscaled
    exact lt_of_le_of_lt (rounded_mono (mul_le_mul_of_nonneg_right m.kept_le hfactor))
      (by exact_mod_cast hscaled)
  refine ⟨BitVec.ofNat 256 (rounded (m.kept * s.factor)), ?_, ?_⟩
  · rw [Word.toNat_ofNat_of_lt hproduct, rounded_eq_floor (mul_nonneg m.kept_nonneg hfactor)]
  · rw [Word.toNat_ofNat_of_lt hproduct]
    exact value_numeral ht hm hv hd hvalue hproduct ds

/-- A quarter of a gwei. -/
theorem value_amount_gwei :
    let env := Environment.mk (.standard 0) fun _ => Vector.replicate 32 0
    Token.ofLine "2.5e-1" = .ok [⟨.number, "2.5e-1", 0⟩, ⟨.stop, "", 6⟩] ∧
    env.value "2.5e-1 gwei" #[] = .ok (.number 250000000) #[] := by
  intro env
  have ht : Token.ofLine "2.5e-1" = .ok [⟨.number, "2.5e-1", 0⟩, ⟨.stop, "", 6⟩] := rfl
  let m : Numeral := ⟨⟨['2'], by decide, by simp⟩, some ⟨['5'], by decide, by simp⟩,
    some ⟨'e', by decide, ['-'], by decide, ⟨['1'], by decide, by simp⟩⟩⟩
  let s : Suffix := .unit "gwei" ⟨"gwei", .value, 1000000000⟩ rfl
  have hvalue : m.value = 1 / 4 := by
    change ((2 : Nat) + ((5 : Nat) : Rat) / 10 ^ 1) * 10 ^ (-1 : Int) = 1 / 4
    norm_num
  have hkept : m.kept = m.value := if_neg (by decide)
  have hproduct : m.value * s.factor = (250000000 : Nat) := by
    rw [hvalue]
    change 1 / 4 * ((1000000000 : Nat) : Rat) = _
    norm_num
  have hfloor : ⌊m.value * s.factor + 1 / 2⌋ = (250000000 : Nat) := by
    rw [hproduct, ← rounded_eq_floor (Nat.cast_nonneg _), rounded_natCast]
  have hv : "2.5e-1".length ≤ 1000 := by
    change 6 ≤ 1000
    omega
  have hd : s.levels ≤ env.settings.maxDepth.value := by
    change 2 ≤ 64
    omega
  have hone : ⌊m.value + 1 / 2⌋ < (Word.capacity : Int) := by
    rw [hvalue]
    norm_num
  have hscaled : ⌊m.value * s.factor + 1 / 2⌋ < (Word.capacity : Int) := by
    rw [hfloor]
    norm_num
  obtain ⟨w, hw, hr⟩ := (env.value_amount ht hv s hd #[]).2 m rfl hone hscaled
  rw [hkept, hfloor] at hw
  have he : w = 250000000 := BitVec.eq_of_toNat_eq (by exact_mod_cast hw)
  rw [hkept, hproduct, he] at hr
  exact ⟨ht, hr⟩

/-- **A thousandth of an ether is nothing**, since nothing is kept of a number whose power of ten is
below its mantissa by so much, though the number is a whole multiple of a wei. -/
theorem value_milliether :
    let env := Environment.mk (.standard 0) fun _ => Vector.replicate 32 0
    Token.ofLine "1e-3" = .ok [⟨.number, "1e-3", 0⟩, ⟨.stop, "", 4⟩] ∧
    (∃ m : Numeral, m.text = "1e-3".toList ∧
      m.value * 1000000000000000000 = 1000000000000000) ∧
    env.value "1e-3 ether" #[] = .ok (.number 0) #[] := by
  intro env
  have ht : Token.ofLine "1e-3" = .ok [⟨.number, "1e-3", 0⟩, ⟨.stop, "", 4⟩] := rfl
  let m : Numeral := ⟨⟨['1'], by decide, by simp⟩, none,
    some ⟨'e', by decide, ['-'], by decide, ⟨['3'], by decide, by simp⟩⟩⟩
  let s : Suffix := .unit "ether" ⟨"ether", .value, 1000000000000000000⟩ rfl
  have hvalue : m.value = 1 / 1000 := by
    change ((1 : Nat) + (0 : Rat)) * 10 ^ (-3 : Int) = 1 / 1000
    norm_num
  have hkept : m.kept = 0 := if_pos (by decide)
  have hproduct : m.kept * s.factor = 0 := by rw [hkept, zero_mul]
  have hv : "1e-3".length ≤ greatestLength := by
    change 4 ≤ 1000
    omega
  have hd : s.levels ≤ env.settings.maxDepth.value := by
    change 2 ≤ 64
    omega
  have hone : rounded m.value < Word.capacity := by
    rw [← m.rounded_kept, hkept, rounded_zero]
    decide
  have hr := value_numeral ht rfl hv hd hone (by rw [hproduct, rounded_zero]; decide) #[]
  rw [hproduct, rounded_zero] at hr
  refine ⟨ht, ⟨m, rfl, ?_⟩, hr⟩
  rw [hvalue]
  norm_num

end Environment

end WeiCalc

import Mathlib
import WeiCalc.Proofs.Token.Integer

/-!
# Numerals

A decimal number is one or more digits, maybe a point and digits behind it, and maybe a power of ten.
`Numeral` is that form, and `Numeral.value` the rational number it writes.

* `decimal_value`: splitting the text of a numeral finds its value.
* `readDecimal_numeral`: **what reading a numeral keeps of its value**, which is all of it unless the
  power of ten is small compared with the length of the mantissa (`Negligible`).
* `rounded_kept`: rounded at once, what is kept is as good as the value.
-/

namespace WeiCalc

/-! ### Digits -/

namespace Text

theorem foldl_ofDigits (base n : Nat) (ds : List Nat) :
    ds.foldl (fun n d => base * n + d) n = n * base ^ ds.length + ofDigits base ds := by
  induction ds generalizing n with
  | nil => simp [ofDigits]
  | cons d ds ih =>
    rw [ofDigits, List.foldl_cons, List.foldl_cons, ih, ih (base * 0 + d), List.length_cons]
    ring

theorem ofDecimal_append (cs ds : List Char) :
    ofDecimal (cs ++ ds) = ofDecimal cs * 10 ^ ds.length + ofDecimal ds := by
  rw [ofDecimal, List.map_append, ofDigits, List.foldl_append, foldl_ofDigits, List.length_map]
  rfl

theorem ofDecimal_lt {ds : List Char} (h : ∀ c ∈ ds, c.isDigit = true) :
    ofDecimal ds < 10 ^ ds.length := by
  induction ds with
  | nil => decide
  | cons d ds ih =>
    have hd := toNat_of_isDigit (h d (List.mem_cons_self ..))
    have ih := ih fun c hc => h c (List.mem_cons_of_mem _ hc)
    have hone : ofDecimal [d] = d.toNat - 48 := Nat.zero_add _
    have happ : ofDecimal (d :: ds) = ofDecimal [d] * 10 ^ ds.length + ofDecimal ds :=
      ofDecimal_append [d] ds
    have hmul : (d.toNat - 48) * 10 ^ ds.length ≤ 9 * 10 ^ ds.length :=
      Nat.mul_le_mul_right _ (by omega)
    rw [happ, hone, List.length_cons, pow_succ]
    omega

end Text

/-- One or more decimal digits. -/
structure Digits where
  chars : List Char
  ne_nil : chars ≠ []
  isDigit : ∀ c ∈ chars, c.isDigit = true

/-- The number that digits write. -/
def Digits.value (ds : Digits) : Nat :=
  Text.ofDecimal ds.chars

/-! ### Numerals -/

/-- A power of ten behind a number: `e` and an integer. -/
structure TenPower where
  mark : Char
  isMark : mark = 'e' ∨ mark = 'E'
  sign : List Char
  isSign : sign = [] ∨ sign = ['+'] ∨ sign = ['-']
  digits : Digits

namespace TenPower

def text (p : TenPower) : List Char :=
  p.mark :: (p.sign ++ p.digits.chars)

def exponent (p : TenPower) : Int :=
  if p.sign = ['-'] then -p.digits.value else p.digits.value

end TenPower

/-- A decimal number as it is written, without underscores. -/
structure Numeral where
  whole : Digits
  fraction : Option Digits
  power : Option TenPower

namespace Numeral

/-- The characters in front of the power of ten. -/
def mantissa (m : Numeral) : List Char :=
  m.whole.chars ++ m.fraction.elim [] fun ds => '.' :: ds.chars

def text (m : Numeral) : List Char :=
  m.mantissa ++ m.power.elim [] TenPower.text

def exponent (m : Numeral) : Int :=
  m.power.elim 0 TenPower.exponent

/-- The rational number that a numeral writes. -/
def value (m : Numeral) : Rat :=
  (m.whole.value + m.fraction.elim 0 fun ds => (ds.value : Rat) / 10 ^ ds.chars.length) *
    10 ^ m.exponent

/-- The digits of the mantissa. -/
def digits (m : Numeral) : List Char :=
  m.whole.chars ++ m.fraction.elim [] Digits.chars

/-- The number of digits behind the point. -/
def places (m : Numeral) : Nat :=
  (m.fraction.elim [] Digits.chars).length

theorem isDigit_of_mem_digits {m : Numeral} {c : Char} (h : c ∈ m.digits) : c.isDigit = true := by
  rcases List.mem_append.mp h with h | h
  · exact m.whole.isDigit c h
  · cases hf : m.fraction with
    | none =>
      rw [hf] at h
      exact absurd h List.not_mem_nil
    | some ds =>
      rw [hf] at h
      exact ds.isDigit c h

/-- The value in terms of all the digits of the mantissa. -/
theorem value_eq (m : Numeral) :
    m.value = (Text.ofDecimal m.digits : Rat) * 10 ^ (m.exponent - m.places) := by
  rw [zpow_sub₀ (by norm_num), zpow_natCast, value, digits, places, Text.ofDecimal_append]
  cases m.fraction with
  | none => simp [Digits.value, Text.ofDecimal, Text.ofDigits]
  | some ds =>
    simp only [Option.elim_some, Digits.value]
    push_cast
    field_simp

theorem value_nonneg (m : Numeral) : 0 ≤ m.value := by
  rw [value_eq]
  positivity

theorem length_digits_le (m : Numeral) : m.digits.length ≤ m.mantissa.length := by
  rw [digits, mantissa]
  cases m.fraction <;> simp

theorem places_le (m : Numeral) : m.places ≤ m.mantissa.length := by
  have h := m.length_digits_le
  rw [digits, List.length_append] at h
  rw [places]
  omega

/-! ### The parts of a text -/

@[simp] theorem filter_mantissa (m : Numeral) : m.mantissa.filter Char.isDigit = m.digits := by
  have hw : m.whole.chars.filter Char.isDigit = m.whole.chars :=
    List.filter_eq_self.mpr m.whole.isDigit
  rw [mantissa, digits, List.filter_append, hw]
  cases m.fraction with
  | none => rfl
  | some ds =>
    have hd : ds.chars.filter Char.isDigit = ds.chars := List.filter_eq_self.mpr ds.isDigit
    simp only [Option.elim_some]
    rw [List.filter_cons_of_neg (by decide), hd]

/-- No digit and no point is an exponent mark. -/
theorem not_isExponentMark_of_mem {m : Numeral} {c : Char} (h : c ∈ m.mantissa) :
    NumberLiteral.Decimal.isExponentMark c = false := by
  have hdigit : c.isDigit = true → NumberLiteral.Decimal.isExponentMark c = false := by
    intro hc
    simp only [NumberLiteral.Decimal.isExponentMark, Bool.or_eq_false_iff, beq_eq_false_iff_ne]
    constructor <;> rintro rfl <;> exact absurd hc (by decide)
  rcases List.mem_append.mp h with h | h
  · exact hdigit (m.whole.isDigit c h)
  · cases hf : m.fraction with
    | none =>
      rw [hf] at h
      exact absurd h List.not_mem_nil
    | some ds =>
      rw [hf] at h
      rcases List.mem_cons.mp h with rfl | h
      · decide
      · exact hdigit (ds.isDigit c h)

end Numeral

namespace TenPower

@[simp] theorem natural_digits (ds : Digits) :
    NumberLiteral.Decimal.natural ds.chars = ds.value := by
  rw [NumberLiteral.Decimal.natural, List.filter_eq_self.mpr ds.isDigit, Digits.value]

@[simp] theorem integer_text (p : TenPower) :
    NumberLiteral.Decimal.integer (p.sign ++ p.digits.chars) = p.exponent := by
  rw [exponent]
  rcases p.isSign with h | h | h <;> rw [h]
  · rw [List.nil_append, NumberLiteral.Decimal.integer.eq_def]
    split
    · rename_i cs hcs
      exact absurd (p.digits.isDigit '-' (by rw [hcs]; exact List.mem_cons_self ..)) (by decide)
    · rw [natural_digits, if_neg (by decide)]
  · have hp : NumberLiteral.Decimal.natural (['+'] ++ p.digits.chars) = p.digits.value := by
      rw [← natural_digits]
      rfl
    rw [← hp]
    rfl
  · rw [← natural_digits]
    rfl

end TenPower

namespace Numeral

@[simp] theorem ofText_text (m : Numeral) :
    NumberLiteral.Decimal.ofText m.text = ⟨m.mantissa, m.exponent⟩ := by
  have hm : ∀ c ∈ m.mantissa, (!NumberLiteral.Decimal.isExponentMark c) = true := by
    intro c hc
    rw [not_isExponentMark_of_mem hc]
    rfl
  rw [NumberLiteral.Decimal.ofText, text, exponent, List.takeWhile_append_of_pos hm,
    List.dropWhile_append_of_pos hm]
  cases m.power with
  | none => simp [NumberLiteral.Decimal.integer, NumberLiteral.Decimal.natural, Text.ofDecimal,
      Text.ofDigits]
  | some p =>
    have hmark : (!NumberLiteral.Decimal.isExponentMark p.mark) = false := by
      rcases p.isMark with h | h <;> rw [h] <;> rfl
    simp only [Option.elim_some, TenPower.text]
    rw [List.takeWhile_cons, List.dropWhile_cons, hmark]
    simp

@[simp] theorem places_mantissa (m : Numeral) :
    NumberLiteral.Decimal.places ⟨m.mantissa, m.exponent⟩ = m.places := by
  have hw : ∀ c ∈ m.whole.chars, (c != '.') = true := by
    intro c hc
    have hd := m.whole.isDigit c hc
    rw [bne_iff_ne]
    rintro rfl
    exact absurd hd (by decide)
  rw [NumberLiteral.Decimal.places, mantissa, places, List.dropWhile_append_of_pos hw]
  cases m.fraction <;> rfl

/-- **Splitting the text of a numeral finds its value.** -/
@[simp] theorem decimal_value (m : Numeral) :
    NumberLiteral.Decimal.value ⟨m.mantissa, m.exponent⟩ = m.value := by
  rw [NumberLiteral.Decimal.value, places_mantissa, NumberLiteral.Decimal.significand,
    NumberLiteral.Decimal.natural, filter_mantissa, value_eq]

/-! ### What is kept of a value -/

/-- The power of ten is so small that the mantissa, whatever its digits are, stays below one half. -/
def Negligible (m : Numeral) : Prop :=
  m.exponent + m.mantissa.length < -1

instance (m : Numeral) : Decidable m.Negligible :=
  inferInstanceAs (Decidable (_ < _))

/-- What reading a numeral keeps of its value. -/
def kept (m : Numeral) : Rat :=
  if m.Negligible then 0 else m.value

theorem value_lt (m : Numeral) : m.value < 10 ^ (m.exponent + m.mantissa.length) := by
  have hd : (Text.ofDecimal m.digits : Rat) < 10 ^ (m.mantissa.length : Int) := by
    have hlt := Text.ofDecimal_lt fun c => isDigit_of_mem_digits (m := m) (c := c)
    have hle := Nat.pow_le_pow_right (n := 10) (by decide) m.length_digits_le
    exact_mod_cast lt_of_lt_of_le hlt hle
  have hp : (10 : Rat) ^ (m.exponent - m.places) ≤ 10 ^ m.exponent :=
    zpow_le_zpow_right₀ (by norm_num) (by omega)
  calc m.value = (Text.ofDecimal m.digits : Rat) * 10 ^ (m.exponent - m.places) := m.value_eq
    _ ≤ (Text.ofDecimal m.digits : Rat) * 10 ^ m.exponent :=
      mul_le_mul_of_nonneg_left hp (by positivity)
    _ < 10 ^ (m.mantissa.length : Int) * 10 ^ m.exponent :=
      mul_lt_mul_of_pos_right hd (by positivity)
    _ = 10 ^ (m.exponent + m.mantissa.length) := by
      rw [← zpow_add₀ (by norm_num), add_comm]

theorem kept_nonneg (m : Numeral) : 0 ≤ m.kept := by
  rw [kept]
  split
  · exact le_refl 0
  · exact m.value_nonneg

theorem kept_le (m : Numeral) : m.kept ≤ m.value := by
  rw [kept]
  split
  · exact m.value_nonneg
  · exact le_refl _

end Numeral

namespace NumberLiteral

/-- A number that is not negative is rounded to the integer below its sum with a half. -/
theorem rounded_eq_floor {q : Rat} (h : 0 ≤ q) : (rounded q : Int) = ⌊q + 1 / 2⌋ := by
  have hf : (0 : Int) ≤ ⌊q + 1 / 2⌋ := Int.floor_nonneg.mpr (by linarith)
  exact Int.toNat_of_nonneg hf

@[simp] theorem rounded_zero : rounded 0 = 0 := by
  rw [← Nat.cast_zero, rounded_natCast]

theorem rounded_mono {q r : Rat} (h : q ≤ r) : rounded q ≤ rounded r := by
  have hf : ⌊q + 1 / 2⌋ ≤ ⌊r + 1 / 2⌋ := Int.floor_mono (by linarith)
  exact Int.toNat_le_toNat hf

/-- The literal of a rational number whose nearest integer is a word. -/
def nearest (raw : String) (q : Rat) : NumberLiteral :=
  ⟨BitVec.ofNat 256 (rounded q), raw, if q.den = 1 then none else some q⟩

theorem ofRat_of_lt {q : Rat} (raw : String) (h : rounded q < Word.capacity) :
    ofRat raw q = .ok (nearest raw q) := by
  rw [ofRat, Word.ofNat?, if_pos h]
  rfl

/-- The word of a literal is the integer nearest to its exact value, if that is kept. -/
def IsNearest (l : NumberLiteral) : Prop :=
  ∀ q, l.exact = some q → rounded q < Word.capacity ∧ l = nearest l.raw q

theorem isNearest_of_ofNat {raw : String} {n : Nat} {l : NumberLiteral} (h : ofNat raw n = .ok l) :
    l.IsNearest := by
  rw [ofNat] at h
  split at h
  · cases h
    rintro q ⟨⟩
  · cases h

theorem isNearest_of_ofRat {raw : String} {q : Rat} {l : NumberLiteral} (h : ofRat raw q = .ok l) :
    l.IsNearest := by
  by_cases hlt : rounded q < Word.capacity
  · rw [ofRat_of_lt raw hlt] at h
    cases h
    intro q' hq'
    by_cases hd : q.den = 1
    · rw [nearest, if_pos hd] at hq'
      cases hq'
    · rw [nearest, if_neg hd] at hq'
      cases hq'
      exact ⟨hlt, rfl⟩
  · rw [ofRat, Word.ofNat?, if_neg hlt] at h
    cases h

/-- **Every literal that is read stands for the nearest integer.** -/
theorem isNearest_of_ofToken {t : Token} {l : NumberLiteral} (h : ofToken t = .ok l) :
    l.IsNearest := by
  have hbased : ∀ {base letter malformed raw}, readBased base letter malformed raw = .ok l →
      l.IsNearest := by
    intro base letter malformed raw hr
    rw [readBased] at hr
    split_ifs at hr
    split at hr
    · exact isNearest_of_ofNat hr
    · cases hr
  rw [ofToken] at h
  split at h
  · exact hbased (mapError_eq_ok.mp h)
  · exact hbased (mapError_eq_ok.mp h)
  · have hr := mapError_eq_ok.mp h
    rw [readDecimal] at hr
    split_ifs at hr
    · exact isNearest_of_ofNat hr
    · exact isNearest_of_ofNat hr
    · exact isNearest_of_ofRat hr

/-- A number with a great power of ten is no word. -/
theorem capacity_le_rounded {m : Numeral} (h0 : Text.ofDecimal m.digits ≠ 0)
    (h : 80 < m.exponent - m.mantissa.length) : Word.capacity ≤ rounded m.value := by
  have hd : (1 : Rat) ≤ Text.ofDecimal m.digits := by
    exact_mod_cast Nat.one_le_iff_ne_zero.mpr h0
  have hp : (10 : Rat) ^ (80 : Int) ≤ 10 ^ (m.exponent - m.places) := by
    have hplaces := m.places_le
    exact zpow_le_zpow_right₀ (by norm_num) (by omega)
  have hv : ((10 ^ 80 : Nat) : Rat) ≤ m.value := by
    rw [m.value_eq]
    calc ((10 ^ 80 : Nat) : Rat) = 1 * 10 ^ (80 : Int) := by norm_num
      _ ≤ _ := mul_le_mul hd hp (by positivity) (by positivity)
  calc Word.capacity ≤ 10 ^ 80 := by decide
    _ = rounded ((10 ^ 80 : Nat) : Rat) := (rounded_natCast _).symm
    _ ≤ rounded m.value := rounded_mono hv

/-- **What is read of a numeral** that is a word when it is rounded. -/
theorem readDecimal_numeral {m : Numeral} {raw : String} (hm : m.text = raw.toList)
    (hl : raw.length ≤ greatestLength) (hf : rounded m.value < Word.capacity) :
    readDecimal raw = .ok (nearest raw m.kept) := by
  have hs : Decimal.significand ⟨m.mantissa, m.exponent⟩ = Text.ofDecimal m.digits := by
    rw [Decimal.significand, Decimal.natural, m.filter_mantissa]
  have hzero : m.kept = 0 → ofNat raw 0 = .ok (nearest raw m.kept) := by
    intro hk
    rw [hk, nearest, rounded_zero, if_pos (by rfl)]
    exact ofNat_of_lt raw (by decide)
  rw [readDecimal, ← hm, m.ofText_text]
  simp only [hs]
  rw [if_neg (by rw [hm]; exact Nat.not_lt.mpr hl)]
  by_cases hd : Text.ofDecimal m.digits = 0
  · rw [if_pos hd]
    refine hzero ?_
    have hv : m.value = 0 := by rw [m.value_eq, hd, Nat.cast_zero, zero_mul]
    exact le_antisymm (hv ▸ m.kept_le) m.kept_nonneg
  rw [if_neg hd]
  by_cases hw : 80 < m.exponent - m.mantissa.length
  · exact absurd hf (Nat.not_lt.mpr (capacity_le_rounded hd hw))
  rw [if_neg hw]
  by_cases hn : m.exponent + m.mantissa.length < -1
  · rw [if_pos hn]
    exact hzero (if_pos hn)
  · have hk : m.kept = m.value := if_neg hn
    rw [if_neg hn, m.decimal_value, hk]
    exact ofRat_of_lt raw hf

end NumberLiteral

/-- Rounded at once, what is kept of a numeral is as good as its value. -/
@[simp] theorem Numeral.rounded_kept (m : Numeral) :
    NumberLiteral.rounded m.kept = NumberLiteral.rounded m.value := by
  rw [kept]
  split
  · rename_i hn
    have hp : (10 : Rat) ^ (m.exponent + m.mantissa.length) ≤ 10 ^ (-2 : Int) := by
      rw [Negligible] at hn
      exact zpow_le_zpow_right₀ (by norm_num) (by omega)
    have hv : m.value < 1 / 2 := lt_of_lt_of_le m.value_lt (hp.trans (by norm_num))
    have hfloor : ⌊m.value + 1 / 2⌋ = 0 := by
      rw [Int.floor_eq_iff]
      have h0 := m.value_nonneg
      constructor <;> push_cast <;> linarith
    have hr : (NumberLiteral.rounded m.value : Int) = 0 := by
      rw [NumberLiteral.rounded_eq_floor m.value_nonneg, hfloor]
    rw [NumberLiteral.rounded_zero]
    exact_mod_cast hr.symm
  · rfl

end WeiCalc

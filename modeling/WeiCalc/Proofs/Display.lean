import Mathlib
import WeiCalc.Proofs.Amount
import WeiCalc.Proofs.Token.Literal
import WeiCalc.Proofs.Token.Written

/-!
# What is shown can be entered again

A number is shown in decimal or hexadecimal, and an amount with a fixed number of digits behind its
point.  All of these are lines of one number literal, so their value is found in three steps: the
digits write the number, the text is one token, and the token is read as the number.

* `Text.ofDecimal_padded`, `Hex.number_padded`: zeros in front of digits do not count.
* `Numeral.ofUnits`: the numeral that an amount is shown as.
* `Environment.value_units`: **an amount in a unit is read back.**
* `Environment.value_display`: **so is every number that is shown**, with and without a hint.
-/

namespace WeiCalc

/-! ### Zeros in front of digits -/

namespace Text

theorem padded_ne_nil (base width n : Nat) : padded base width n ≠ [] :=
  List.append_ne_nil_of_right_ne_nil _ Nat.toDigits_ne_nil

theorem mem_padded {base width n : Nat} {c : Char} (h : c ∈ padded base width n) :
    c = '0' ∨ c ∈ Nat.toDigits base n := by
  rw [padded, List.mem_append] at h
  exact h.imp_left List.eq_of_mem_replicate

theorem isDigit_of_mem_padded {width n : Nat} {c : Char} (h : c ∈ padded 10 width n) :
    c.isDigit = true := by
  rcases mem_padded h with rfl | h
  · rfl
  · exact Nat.isDigit_of_mem_toDigits (by decide) (by decide) h

theorem length_padded {base width n : Nat} (hb : 1 < base) (hw : 0 < width)
    (h : n < base ^ width) : (padded base width n).length = width := by
  have hl := (Nat.length_toDigits_le_iff hb hw).mpr h
  rw [padded, List.length_append, List.length_replicate]
  omega

@[simp] theorem ofDecimal_replicate (count : Nat) : ofDecimal (List.replicate count '0') = 0 := by
  induction count with
  | zero => rfl
  | succ count ih =>
    rw [List.replicate_succ', ofDecimal_append, ih]
    rfl

@[simp] theorem ofDecimal_padded (width n : Nat) : ofDecimal (padded 10 width n) = n := by
  rw [padded, ofDecimal_append, ofDecimal_replicate, NumberLiteral.ofDecimal_toDigits, Nat.zero_mul,
    Nat.zero_add]

end Text

namespace Hex

theorem value?_digitChar {n : Nat} (h : n < 16) : value? n.digitChar = some n := by
  interval_cases n <;> rfl

theorem number_append (cs ds : List Char) :
    number (cs ++ ds) = number cs * 16 ^ ds.length + number ds := by
  rw [number, List.map_append, Text.ofDigits, List.foldl_append, Text.foldl_ofDigits,
    List.length_map]
  rfl

theorem number_singleton {n : Nat} (h : n < 16) : number [n.digitChar] = n := by
  rw [number_cons, value?_digitChar h]
  simp [number, Text.ofDigits]

/-- The hexadecimal digits of a number write it, by induction on the digits in front of the last
one. -/
theorem toDigits_spec (n : Nat) :
    (∀ d ∈ Nat.toDigits 16 n, isDigit d = true) ∧ number (Nat.toDigits 16 n) = n := by
  have hdigit : ∀ {m : Nat}, m < 16 → isDigit m.digitChar = true := by
    intro m hm
    rw [isDigit, value?_digitChar hm]
    rfl
  induction n using Nat.strong_induction_on with
  | _ n ih =>
    by_cases h : n < 16
    · rw [Nat.toDigits_of_lt_base h]
      refine ⟨fun d hd => ?_, number_singleton h⟩
      rw [List.mem_singleton.mp hd]
      exact hdigit h
    · obtain ⟨hmem, hnum⟩ := ih (n / 16) (by omega)
      have hlast : n % 16 < 16 := Nat.mod_lt n (by decide)
      rw [Nat.toDigits_of_base_le (by decide) (not_lt.mp h)]
      constructor
      · intro d hd
        rcases List.mem_append.mp hd with hd | hd
        · exact hmem d hd
        · rw [List.mem_singleton.mp hd]
          exact hdigit hlast
      · rw [number_append, hnum, number_singleton hlast, List.length_singleton]
        omega

@[simp] theorem number_replicate (count : Nat) : number (List.replicate count '0') = 0 := by
  induction count with
  | zero => rfl
  | succ count ih =>
    rw [List.replicate_succ', number_append, ih]
    rfl

@[simp] theorem number_padded (width n : Nat) : number (Text.padded 16 width n) = n := by
  rw [Text.padded, number_append, number_replicate, (toDigits_spec n).2, Nat.zero_mul, Nat.zero_add]

theorem isDigit_of_mem_padded {width n : Nat} {d : Char} (h : d ∈ Text.padded 16 width n) :
    isDigit d = true := by
  rcases Text.mem_padded h with rfl | h
  · decide
  · exact (toDigits_spec n).1 d h

end Hex

/-! ### Amounts -/

namespace Numeral

/-- An amount divided by a power of ten, with all digits behind the point. -/
def ofUnits (amount decimals : Nat) : Numeral where
  whole := ⟨Nat.toDigits 10 (amount / 10 ^ decimals), Nat.toDigits_ne_nil,
    fun _ => Nat.isDigit_of_mem_toDigits (by decide) (by decide)⟩
  fraction :=
    if decimals = 0 then none
    else some ⟨Text.padded 10 decimals (amount % 10 ^ decimals), Text.padded_ne_nil _ _ _,
      fun c hc => Text.isDigit_of_mem_padded hc⟩
  power := none

variable {amount decimals : Nat}

theorem text_ofUnits (h : decimals ≤ Display.greatestDecimals) :
    Display.units amount decimals = .ok (String.ofList (ofUnits amount decimals).text) := by
  have htext : (ofUnits amount decimals).text = (ofUnits amount decimals).mantissa :=
    List.append_nil _
  rw [Display.units, if_neg (not_lt.mpr h), htext, mantissa]
  by_cases hz : decimals = 0
  · subst hz
    simp only [ofUnits, if_pos, pow_zero, Nat.div_one, Option.elim_none, List.append_nil]
    rw [Nat.toString_eq_ofList_toDigits]
  · simp only [ofUnits, if_neg hz, Option.elim_some]
    rw [Nat.toString_eq_ofList_toDigits, Text.decimal, ← List.singleton_append,
      String.ofList_append, String.ofList_append, String.append_assoc]
    rfl

@[simp] theorem value_ofUnits (amount decimals : Nat) :
    (ofUnits amount decimals).value = (amount : Rat) / 10 ^ decimals := by
  have hpow : (10 : Rat) ^ decimals ≠ 0 := by positivity
  have hdiv : (amount : Rat) =
      (amount / 10 ^ decimals : Nat) * 10 ^ decimals + (amount % 10 ^ decimals : Nat) := by
    exact_mod_cast (Nat.div_add_mod' amount (10 ^ decimals)).symm
  have hwhole : (ofUnits amount decimals).whole.value = amount / 10 ^ decimals :=
    NumberLiteral.ofDecimal_toDigits _
  have hexponent : (ofUnits amount decimals).exponent = 0 := rfl
  rw [value, hwhole, hexponent, zpow_zero, mul_one]
  by_cases hz : decimals = 0
  · subst hz
    simp [ofUnits]
  · have hlength := Text.length_padded (by decide : 1 < 10) (Nat.pos_of_ne_zero hz)
      (Nat.mod_lt amount (by positivity : 0 < 10 ^ decimals))
    simp only [ofUnits, if_neg hz, Option.elim_some, Digits.value, Text.ofDecimal_padded, hlength]
    rw [eq_div_iff hpow, add_mul, div_mul_cancel₀ _ hpow]
    exact hdiv.symm

@[simp] theorem kept_ofUnits (amount decimals : Nat) :
    (ofUnits amount decimals).kept = (amount : Rat) / 10 ^ decimals := by
  have hexponent : (ofUnits amount decimals).exponent = 0 := rfl
  have hkept : ¬(ofUnits amount decimals).Negligible := by
    rw [Negligible, hexponent]
    omega
  rw [kept, if_neg hkept, value_ofUnits]

theorem length_ofUnits (hx : amount < Word.capacity) (h : decimals ≤ Display.greatestDecimals) :
    (ofUnits amount decimals).text.length ≤ NumberLiteral.greatestLength := by
  have hwhole : (Nat.toDigits 10 (amount / 10 ^ decimals)).length ≤ 78 := by
    rw [Nat.length_toDigits_le_iff (by decide) (by decide)]
    exact lt_of_le_of_lt (Nat.div_le_self _ _) (lt_trans hx (by decide))
  have hmantissa : (ofUnits amount decimals).text.length =
      (ofUnits amount decimals).mantissa.length := by rw [text, List.length_append]; rfl
  rw [hmantissa, mantissa, List.length_append, NumberLiteral.greatestLength]
  rw [Display.greatestDecimals] at h
  by_cases hz : decimals = 0
  · simp only [ofUnits, if_pos hz, Option.elim_none, List.length_nil]
    omega
  · have hlength := Text.length_padded (by decide : 1 < 10) (Nat.pos_of_ne_zero hz)
      (Nat.mod_lt amount (by positivity : 0 < 10 ^ decimals))
    simp only [ofUnits, if_neg hz, Option.elim_some, List.length_cons, hlength]
    omega

end Numeral

theorem Token.ofLine_numeral (m : Numeral) :
    ∃ stop, Token.ofLine (String.ofList m.text) =
      .ok [⟨.number, String.ofList m.text, 0⟩, stop] := by
  have hn := Lexeme.number_numeral m
  obtain ⟨c, cs, hw⟩ := List.exists_cons_of_ne_nil m.whole.ne_nil
  have hc : c.isDigit = true := m.whole.isDigit c (by rw [hw]; exact List.mem_cons_self ..)
  obtain ⟨ds, ht⟩ : ∃ ds, m.text = c :: ds := by
    rw [Numeral.text, Numeral.mantissa, hw]
    exact ⟨_, rfl⟩
  rw [ht] at hn ⊢
  exact ⟨_, Token.ofLine_number hc hn⟩

namespace Environment

open NumberLiteral

/-- The value of an amount as it is shown, with what makes up for its division behind it. -/
theorem value_ofUnits {env : Environment} {amount decimals : Nat} {s : Suffix}
    (hx : amount < Word.capacity) (h : decimals ≤ Display.greatestDecimals)
    (hs : s.factor = 10 ^ decimals) (hd : s.levels ≤ env.settings.maxDepth.value)
    (ds : Diagnostics) :
    env.value (String.ofList (Numeral.ofUnits amount decimals).text ++ s.text) ds =
      .ok (.number (BitVec.ofNat 256 amount)) ds := by
  let m := Numeral.ofUnits amount decimals
  obtain ⟨stop, ht⟩ := Token.ofLine_numeral m
  have hpow : (1 : Rat) ≤ 10 ^ decimals := one_le_pow₀ (by norm_num)
  have hvalue : rounded m.value < Word.capacity := by
    rw [Numeral.value_ofUnits]
    refine lt_of_le_of_lt (rounded_mono (div_le_self (Nat.cast_nonneg _) hpow)) ?_
    rwa [rounded_natCast]
  have hproduct : m.kept * s.factor = amount := by
    rw [Numeral.kept_ofUnits, hs, Nat.cast_pow, Nat.cast_ofNat]
    exact div_mul_cancel₀ _ (by positivity)
  have hv : (String.ofList m.text).length ≤ greatestLength := by
    rw [String.length_ofList]
    exact Numeral.length_ofUnits hx h
  have hrun := value_numeral ht String.toList_ofList.symm hv hd hvalue
    (by rw [hproduct, rounded_natCast]; exact hx) ds
  rw [hproduct, rounded_natCast] at hrun
  rw [hrun, Diagnostics.rounding, if_pos (Rat.den_natCast _)]

/-- **An amount that is shown in a unit is read back**, whatever its digits are, and nothing is
noted. -/
theorem value_units (env : Environment) {name : String} {u : MeasureUnit} {decimals : Nat}
    (hn : MeasureUnit.ofName? name = some u) (hu : u.factor = 10 ^ decimals)
    (hd : 2 ≤ env.settings.maxDepth.value) (w : Word) :
    ∃ text, Display.units w.toNat decimals = .ok text ∧
      ∀ ds, env.value (text ++ " " ++ name) ds = .ok (.number w) ds := by
  have hfactor := (Suffix.unit name u hn).factor_lt
  have hdecimals : decimals ≤ Display.greatestDecimals := by
    change u.factor < Word.capacity at hfactor
    rw [hu] at hfactor
    have hlt := (Nat.pow_lt_pow_iff_right (by decide : 1 < 10)).mp
      (lt_trans hfactor (by decide : Word.capacity < 10 ^ 78))
    rw [Display.greatestDecimals]
    omega
  refine ⟨_, Numeral.text_ofUnits hdecimals, fun ds => ?_⟩
  have hrun := value_ofUnits (s := .unit name u hn) w.isLt hdecimals hu hd ds
  rw [BitVec.ofNat_toNat, BitVec.setWidth_eq] at hrun
  rw [String.append_assoc]
  exact hrun

/-- The greatest word in ether. -/
theorem value_units_greatest :
    let env := Environment.mk (.standard 0) fun _ => Vector.replicate 32 0
    Display.units Word.greatest.toNat 18 =
      .ok "115792089237316195423570985008687907853269984665640564039457.584007913129639935" ∧
    env.value
      "115792089237316195423570985008687907853269984665640564039457.584007913129639935 ether" #[] =
        .ok (.number Word.greatest) #[] := by
  intro env
  have hd : 2 ≤ env.settings.maxDepth.value := by
    show 2 ≤ 64
    omega
  have hether : MeasureUnit.ofName? "ether" = some ⟨"ether", .value, 10 ^ 18⟩ := rfl
  have hunits : Display.units Word.greatest.toNat 18 = .ok
      "115792089237316195423570985008687907853269984665640564039457.584007913129639935" := by
    decide +kernel
  obtain ⟨text, ht, hrun⟩ := env.value_units hether rfl hd Word.greatest
  obtain rfl := Except.ok.inj (ht.symm.trans hunits)
  exact ⟨hunits, hrun #[]⟩

end Environment

/-! ### Numbers in hexadecimal -/

namespace Display

@[simp] theorem toList_hex (width n : Nat) :
    (hex width n).toList = '0' :: 'x' :: Text.padded 16 (2 * width) n := by
  rw [hex, String.toList_append, String.toList_ofList, String.toList_ofList]
  rfl

theorem ofLine_hex (width n : Nat) :
    ∃ stop, Token.ofLine (hex width n) = .ok [⟨.hexNumber, hex width n, 0⟩, stop] := by
  have hn : Lexeme.number ('0' :: 'x' :: Text.padded 16 (2 * width) n) = (.hexNumber, _) :=
    congrArg _ (Lexeme.based_hex 'x' fun _ => Hex.isDigit_of_mem_padded)
  rw [← String.ofList_toList (s := hex width n), toList_hex]
  exact ⟨_, Token.ofLine_number (by decide) hn⟩

theorem readBased_hex (width : Nat) {n : Nat} (h : n < Word.capacity) :
    NumberLiteral.readBased 16 'x' .notHex (hex width n) =
      .ok ⟨BitVec.ofNat 256 n, hex width n, none⟩ := by
  have hne := Text.padded_ne_nil 16 (2 * width) n
  have hd : ∀ d ∈ Text.padded 16 (2 * width) n, Hex.isDigit d = true :=
    fun _ => Hex.isDigit_of_mem_padded
  have hdrop : (hex width n).toList.drop 2 = Text.padded 16 (2 * width) n := by
    rw [toList_hex]
    rfl
  rw [NumberLiteral.readBased, hdrop]
  simp only [Hex.withoutMark_digits hd, Hex.integer?_digits hne hd, Hex.number_padded]
  rw [if_neg (by rw [List.isEmpty_iff]; exact hne)]
  exact NumberLiteral.ofNat_of_lt _ h

end Display

namespace Environment

variable {env : Environment}

theorem value_hex (hd : 1 ≤ env.settings.maxDepth.value) (width : Nat) (w : Word)
    (ds : Diagnostics) : env.value (Display.hex width w.toNat) ds = .ok (.number w) ds := by
  obtain ⟨stop, ht⟩ := Display.ofLine_hex width w.toNat
  have hstop : stop.kind = .stop :=
    Token.kind_of_ofLine (show Token.ofLine (Display.hex width w.toNat) =
      .ok ([⟨.hexNumber, Display.hex width w.toNat, 0⟩] ++ [stop]) from ht)
  have hp : Grammar.Derives .primary [⟨.hexNumber, Display.hex width w.toNat, 0⟩]
      (.number ⟨w, Display.hex width w.toNat, none⟩ 0) 0 := by
    refine .number (t := ⟨.hexNumber, Display.hex width w.toNat, 0⟩) (by simp) ?_
    rw [NumberLiteral.ofToken]
    simp only [Display.readBased_hex width w.isLt, BitVec.ofNat_toNat, BitVec.setWidth_eq]
    rfl
  have hline : Expr.ofLine env.settings.maxDepth (Display.hex width w.toNat) =
      .ok (.number ⟨w, Display.hex width w.toNat, none⟩ 0) := by
    rw [Expr.ofLine, ht]
    exact Grammar.ofTokens_of_derives hstop (.alone (.term (.bare hp))) hd
  obtain ⟨levels, hl⟩ := Nat.exists_eq_add_of_le' hd
  rw [value, hline]
  show (Context.start env).value (.number ⟨w, Display.hex width w.toNat, none⟩ 0) ds = _
  rw [Context.start, hl]
  rfl

theorem value_toString (hd : 1 ≤ env.settings.maxDepth.value) (w : Word) (ds : Diagnostics) :
    env.value (toString w.toNat) ds = .ok (.number w) ds := by
  have htext : toString w.toNat = String.ofList (Numeral.ofUnits w.toNat 0).text :=
    Except.ok.inj (Numeral.text_ofUnits (Nat.zero_le _))
  have hrun := value_ofUnits (s := .none) w.isLt (Nat.zero_le _) rfl hd ds
  rw [BitVec.ofNat_toNat, BitVec.setWidth_eq, Suffix.text, String.append_empty] at hrun
  rw [htext]
  exact hrun

/-- **Every number that is shown can be entered again**: its text, be it decimal, hexadecimal or
that of a whole word, has the number for its value, and nothing is noted. -/
theorem value_display (env : Environment) (hd : 1 ≤ env.settings.maxDepth.value) (w : Word)
    (hexWidth : Option Nat) (ds : Diagnostics) :
    (∀ fullWords, env.value ((Value.uint w hexWidth).display fullWords) ds =
      .ok (.number w) ds) ∧
    env.evaluate ((Value.number w).display env.settings.fullWords) ds =
      .ok ((Value.number w).display env.settings.fullWords) ds := by
  have hvalue : ∀ hexWidth fullWords,
      env.value ((Value.uint w hexWidth).display fullWords) ds = .ok (.number w) ds := by
    intro hexWidth fullWords
    match fullWords, hexWidth with
    | true, _ => exact value_hex hd 32 w ds
    | false, some width => exact value_hex hd width w ds
    | false, none => exact value_toString hd w ds
  refine ⟨hvalue hexWidth, ?_⟩
  rw [evaluate, Value.number, bind_of_ok (hvalue none env.settings.fullWords)]
  rfl

/-- An address is entered as a number. -/
theorem value_display_address :
    let env := Environment.mk (.standard 0) fun _ => Vector.replicate 32 0
    env.value "0x00000000000000000000000000000000000000ff" #[] = .ok (.number 255) #[] ∧
    env.evaluate "255" #[] = .ok "255" #[] := by
  intro env
  have hd : 1 ≤ env.settings.maxDepth.value := by
    show 1 ≤ 64
    omega
  obtain ⟨hvalue, hevaluate⟩ := env.value_display hd 255 (some 20) #[]
  have haddress : (Value.uint 255 (some 20)).display false =
      "0x00000000000000000000000000000000000000ff" := by decide +kernel
  have hnumber : (Value.number 255).display env.settings.fullWords = "255" := by decide +kernel
  have hrun := hvalue false
  rw [haddress] at hrun
  rw [hnumber] at hevaluate
  exact ⟨hrun, hevaluate⟩

end Environment

end WeiCalc

import Mathlib
import WeiCalc.Expr.Evaluation
import WeiCalc.Proofs.Abi.Word
import WeiCalc.Proofs.Text.Words

/-!
# Signed results are read back

A signed result is a number from zero on and decimal text below zero, and signed parameters take
either: a number in two's complement, text as the integer that it writes.  So what a function
answers can be handed to another one as it is.

* `Abi.integerOfText_surrounded`: an integer is read back from its text with white space around it.
* `Value.toInt_ofInt`: the value of a signed result stands for the result.
* `Evaluation.signed_of_value`: a signed parameter takes what its argument stands for.
* `Abi.signed_read_back`: **integers survive the way through text, and signed results the way
  through values.**
-/

namespace WeiCalc

/-! ### Decimal text -/

namespace Abi

theorem toString_ne_nil (i : Int) : (toString i).toList ≠ [] := by
  cases i with
  | ofNat n =>
    rw [toList_toString_ofNat]
    exact Nat.toDigits_ne_nil
  | negSucc n =>
    rw [toList_toString_negSucc]
    exact List.cons_ne_nil _ _

theorem integerOfText_surrounded {before after : List Char} {i : Int} (hb : Text.Blank before)
    (ha : Text.Blank after) (hi : i.natAbs < Word.capacity) :
    integerOfText (String.ofList (before ++ ((toString i).toList ++ after))) = .ok i := by
  refine integerOfText_of_trim ?_ hi
  have hsolid : Text.Solid (toString i).toList := not_isBlank_of_mem_toString i
  have htight := hsolid.tight (toString_ne_nil i)
  rw [String.toList_ofList, Text.trim_gap_append hb htight, Text.trimEnd_blank ha,
    List.append_nil]

end Abi

/-! ### Values -/

/-- The value of a signed result stands for the result, below zero as text. -/
theorem Value.toInt_ofInt {i : Int} (hi : i.natAbs < Word.capacity) (hr : i < 2 ^ 255) :
    ∃ v, Value.ofInt i = .ok v ∧ v.toInt = .ok i := by
  cases i with
  | ofNat n =>
    have hn : n < Word.capacity := hi
    have hw : (BitVec.ofNat 256 n).toNat = n := Word.toNat_ofNat_of_lt hn
    have hs : n < 2 ^ 255 := by
      have hr' : (n : Int) < 2 ^ 255 := hr
      omega
    refine ⟨.number (BitVec.ofNat 256 n), ?_, ?_⟩
    · rw [Value.ofInt, Abi.value_ofNat_of_lt hn]
    · rw [Value.number, Value.toInt, Abi.toInt_of_lt (by rw [hw]; exact hs), hw]
      rfl
  | negSucc n =>
    refine ⟨.text (toString (Int.negSucc n)), rfl, ?_⟩
    rw [Value.toInt, Abi.integerOfText_toString hi]

/-! ### Signed parameters -/

/-- A signed parameter takes what the value of its argument stands for, unless the argument is
written with a minus in front, which is taken off first. -/
theorem Evaluation.signed_of_value {env : Environment} {levels : Nat} {mode : ArithmeticMode}
    {e : Expr} {ds ds' : Diagnostics} {v : Value} {i : Int} (hn : ∀ e' p, e ≠ .negate e' p)
    (hv : value env levels mode e ds = .ok v ds') (hi : v.toInt = .ok i) :
    signed env levels mode e ds = .ok i ds' := by
  have hs : signedOf v e.position ds' = .ok i ds' := by
    rw [signedOf, hi]
    rfl
  cases levels with
  | zero => cases hv
  | succ levels =>
    rw [value] at hv
    rw [signed, bind_of_ok hv, hs]
    exact hn

/-- **Integers survive the way through text, and signed results the way through values.**  The
decimal text of an integer of at most 256 bits, with any white space around it, is read as the
integer.  If it is less than 2 ^ 255, its value as a result stands for it again, and so does an
argument with this value where a signed integer is expected. -/
theorem Abi.signed_read_back {i : Int} (hi : |i| ≤ 2 ^ 256 - 1) {before after : List Char}
    (hb : Text.Blank before) (ha : Text.Blank after) :
    integerOfText (String.ofList (before ++ ((toString i).toList ++ after))) = .ok i ∧
    (i < 2 ^ 255 → ∃ v, Value.ofInt i = .ok v ∧ v.toInt = .ok i ∧
      ∀ (c : Context) (e : Expr) (ds ds' : Diagnostics), (∀ e' p, e ≠ .negate e' p) →
        c.value e ds = .ok v ds' →
        Evaluation.signed c.environment c.levels c.mode e ds = .ok i ds') := by
  have habs : i.natAbs < Word.capacity := by
    rw [Int.abs_eq_natAbs] at hi
    have hc : Word.capacity = 2 ^ 256 := rfl
    omega
  refine ⟨integerOfText_surrounded hb ha habs, fun hr => ?_⟩
  obtain ⟨v, hv, hi⟩ := Value.toInt_ofInt habs hr
  exact ⟨v, hv, hi, fun c e ds ds' hn he => Evaluation.signed_of_value hn he hi⟩

/-- The least integer whose text is read, between an ideographic space and a line feed, and as an
argument where a signed integer is expected. -/
theorem Abi.signed_read_back_least :
    let c := Context.start ⟨.standard 0, fun _ => Vector.replicate 32 0⟩
    let text := toString (1 - 2 ^ 256 : Int)
    integerOfText (String.ofList (['\u3000'] ++ (text.toList ++ ['\n']))) = .ok (1 - 2 ^ 256) ∧
      Evaluation.signed c.environment c.levels c.mode (.text text 0) #[] =
        .ok (1 - 2 ^ 256) #[] := by
  intro c text
  have hb : Text.Blank ['\u3000'] := by decide
  have ha : Text.Blank ['\n'] := by decide
  obtain ⟨htext, hvalue⟩ := signed_read_back (i := 1 - 2 ^ 256) (by norm_num) hb ha
  obtain ⟨v, hv, -, hsigned⟩ := hvalue (by norm_num)
  obtain rfl : .text text = v := Except.ok.inj hv
  exact ⟨htext, hsigned c (.text text 0) #[] #[] (by rintro _ _ ⟨⟩) rfl⟩

end WeiCalc

import Mathlib
import WeiCalc.Unit
import WeiCalc.Proofs.Numeral
import WeiCalc.Proofs.Token.Next

/-!
# Lines that start with a number

A number ends at the latest where white space starts, so what is read of it does not depend on the
unit behind a space.

* `Lexeme.exists_numeral`: **every decimal number token is a numeral.**
* `Lexeme.number_append`: a number in front of white space is the number alone.
* `Lexer.Takes.of_numeric`: what reading a number says of the characters ahead.
* `Token.Produced`: the tokens that the lexer makes.
* `Token.ofLine_of_numeric`, `Token.ofLine_eq_number`: what a line of one number looks like.
* `Token.ofLine_number_unit`: its tokens together with a unit.
-/

namespace WeiCalc

namespace Lexeme

theorem not_isDigit_of_isSpace {c : Char} (h : isSpace c = true) : c.isDigit = false := by
  simp only [isSpace, Bool.or_eq_true, beq_iff_eq] at h
  rcases h with ((rfl | rfl) | rfl) | rfl <;> decide

theorem not_isMember_of_isSpace {c : Char} (h : isSpace c = true) :
    (c.isDigit || c == '_') = false := by
  rw [not_isDigit_of_isSpace h, Bool.false_or, beq_eq_false_iff_ne]
  rintro rfl
  exact absurd h (by decide)

/-! ### The parts of a number are parts of a numeral -/

theorem isDigit_of_mem_digits {cs : List Char} {d : Char} (h : d ∈ (digits cs).text) :
    d.isDigit = true := by
  rw [digits, grouped, List.mem_filter] at h
  have hm := List.mem_takeWhile_imp h.1
  rw [Bool.or_eq_true] at hm
  exact hm.resolve_right fun hu => absurd h.2 (by simpa using hu)

theorem exists_digits {c : Char} (hc : c.isDigit = true) (cs : List Char) :
    ∃ ds : Digits, ds.chars = (digits (c :: cs)).text := by
  refine ⟨⟨(digits (c :: cs)).text, ?_, fun _ => isDigit_of_mem_digits⟩, rfl⟩
  have hne : (c != '_') = true := by
    rw [bne_iff_ne]
    rintro rfl
    exact absurd hc (by decide)
  have hmem : c ∈ (digits (c :: cs)).text := by
    rw [digits, grouped, List.mem_filter, List.takeWhile_cons_of_pos (by rw [hc, Bool.true_or])]
    exact ⟨List.mem_cons_self .., hne⟩
  exact List.ne_nil_of_mem hmem

theorem exists_fraction (cs : List Char) :
    ∃ f : Option Digits, (fraction cs).text = f.elim [] fun ds => '.' :: ds.chars := by
  rw [fraction.eq_def]
  split
  · rename_i c cs
    split
    · rename_i hc
      obtain ⟨ds, hd⟩ := exists_digits hc cs
      exact ⟨some ds, by rw [append, ← hd]; rfl⟩
    · exact ⟨Option.none, rfl⟩
  · exact ⟨Option.none, rfl⟩

theorem sign_cases (cs : List Char) : sign cs = [] ∨ sign cs = ['+'] ∨ sign cs = ['-'] := by
  rw [sign.eq_def]
  split
  · exact Or.inr (Or.inl rfl)
  · exact Or.inr (Or.inr rfl)
  · exact Or.inl rfl

theorem exists_power (cs : List Char) :
    ∃ p : Option TenPower, (exponent cs).text = p.elim [] TenPower.text := by
  rw [exponent.eq_def]
  split
  · rename_i c cs
    by_cases hc : (c == 'e' || c == 'E') = true
    · rw [if_pos hc]
      by_cases hr : ((cs.drop (sign cs).length).takeWhile Char.isDigit).isEmpty = true
      · exact ⟨Option.none, by simp only [hr]; rfl⟩
      · have hmark : c = 'e' ∨ c = 'E' := by simpa using hc
        refine ⟨some ⟨c, hmark, sign cs, sign_cases cs, ⟨_, fun he =>
          hr (List.isEmpty_iff.mpr he), fun _ hd => List.mem_takeWhile_imp hd⟩⟩, ?_⟩
        simp only [hr]
        rfl
    · rw [if_neg hc]
      exact ⟨Option.none, rfl⟩
  · exact ⟨Option.none, rfl⟩

/-- A number without a base mark is read as a decimal one. -/
theorem number_eq_decimal {cs : List Char} {l : Lexeme} (h : number cs = (.number, l)) :
    l = decimal cs := by
  rw [number.eq_def] at h
  split at h <;> cases h
  rfl

/-- **Every decimal number token is a numeral.** -/
theorem exists_numeral {c : Char} {cs : List Char} {l : Lexeme} (hc : c.isDigit = true)
    (h : number (c :: cs) = (.number, l)) : ∃ m : Numeral, m.text = l.text := by
  obtain ⟨whole, hw⟩ := exists_digits hc cs
  obtain ⟨f, hf⟩ := exists_fraction ((c :: cs).drop (digits (c :: cs)).width)
  obtain ⟨p, hp⟩ := exists_power ((c :: cs).drop ((digits (c :: cs)).width +
    (fraction ((c :: cs).drop (digits (c :: cs)).width)).width))
  refine ⟨⟨whole, f, p⟩, ?_⟩
  rw [number_eq_decimal h, decimal]
  simp only [append, hf, hp, ← hw]
  rfl

/-! ### Widths -/

theorem digits_width_le (cs : List Char) : (digits cs).width ≤ cs.length :=
  (List.takeWhile_sublist _).length_le

theorem fraction_width_le (cs : List Char) : (fraction cs).width ≤ cs.length := by
  rw [fraction.eq_def]
  split
  · rename_i c cs
    split
    · have h := digits_width_le (c :: cs)
      simp only [append, List.length_cons] at h ⊢
      omega
    · exact Nat.zero_le _
  · exact Nat.zero_le _

theorem sign_length_le (cs : List Char) : (sign cs).length ≤ cs.length := by
  rw [sign.eq_def]
  split <;> simp

theorem exponent_width_le (cs : List Char) : (exponent cs).width ≤ cs.length := by
  rw [exponent.eq_def]
  split
  · rename_i c cs
    have hs := sign_length_le cs
    have hr := (List.takeWhile_sublist (l := cs.drop (sign cs).length) Char.isDigit).length_le
    rw [List.length_drop] at hr
    simp only [List.length_cons]
    split
    · split
      · exact Nat.zero_le _
      · change 1 + _ + _ ≤ _
        omega
    · exact Nat.zero_le _
  · exact le_refl 0

theorem decimal_width_le (cs : List Char) : (decimal cs).width ≤ cs.length := by
  have hw := digits_width_le cs
  have hf := fraction_width_le (cs.drop (digits cs).width)
  have hp := exponent_width_le (cs.drop ((digits cs).width +
    (fraction (cs.drop (digits cs).width)).width))
  rw [List.length_drop] at hf hp
  simp only [decimal, append]
  omega

theorem decimal_width_pos {c : Char} (hc : c.isDigit = true) (cs : List Char) :
    0 < (decimal (c :: cs)).width := by
  have hw : 0 < (digits (c :: cs)).width := by
    rw [digits, grouped, List.takeWhile_cons_of_pos (by rw [hc, Bool.true_or])]
    exact Nat.succ_pos _
  simp only [decimal, append]
  omega

/-! ### A number ends where white space starts -/

/-- Nothing is ahead, or white space is. -/
def Apart (r : List Char) : Prop := ∀ c ∈ r.head?, isSpace c = true

variable {r : List Char}

theorem takeWhile_append {p : Char → Bool} (hp : ∀ c, isSpace c = true → p c = false)
    (hr : Apart r) (cs : List Char) : (cs ++ r).takeWhile p = cs.takeWhile p := by
  have hrest : r.takeWhile p = [] := by
    cases r with
    | nil => rfl
    | cons c r => rw [List.takeWhile_cons_of_neg (by rw [hp c (hr c rfl)]; decide)]
  rw [List.takeWhile_append, hrest, List.append_nil]
  split
  · rename_i h
    exact ((List.takeWhile_sublist p).eq_of_length h).symm
  · rfl

theorem digits_append (hr : Apart r) (cs : List Char) : digits (cs ++ r) = digits cs := by
  have h := takeWhile_append (fun _ => not_isMember_of_isSpace) hr cs
  rw [digits, grouped, h]
  rfl

theorem fraction_eq_none {cs : List Char}
    (h : ∀ c ds, cs = '.' :: c :: ds → c.isDigit = false) : fraction cs = none := by
  rw [fraction.eq_def]
  split
  · rename_i c ds
    rw [h c ds rfl]
    rfl
  · rfl

theorem fraction_append (hr : Apart r) (cs : List Char) : fraction (cs ++ r) = fraction cs := by
  match cs with
  | [] =>
    refine fraction_eq_none fun c ds he => ?_
    rw [List.nil_append] at he
    exact absurd (hr '.' (by rw [he]; rfl)) (by decide)
  | [c] =>
    have hone : fraction [c] = none := fraction_eq_none fun d ds he => by cases he
    rw [hone]
    refine fraction_eq_none fun d ds he => ?_
    obtain ⟨-, rfl⟩ := List.cons.inj he
    exact not_isDigit_of_isSpace (hr d rfl)
  | c :: d :: cs =>
    by_cases hc : c = '.'
    · have h := digits_append hr (d :: cs)
      subst hc
      simp only [List.cons_append] at h ⊢
      rw [fraction, fraction, h]
    · have hother : ∀ ds, fraction (c :: ds) = none := by
        intro ds
        refine fraction_eq_none fun d ds he => ?_
        exact absurd (List.cons.inj he).1 hc
      rw [List.cons_append, hother, hother]

theorem sign_append (hr : Apart r) (cs : List Char) : sign (cs ++ r) = sign cs := by
  cases cs with
  | nil =>
    cases r with
    | nil => rfl
    | cons c r =>
      have hc := hr c rfl
      rw [List.nil_append, sign.eq_def]
      split
      · rename_i h
        obtain ⟨rfl, -⟩ := List.cons.inj h
        exact absurd hc (by decide)
      · rename_i h
        obtain ⟨rfl, -⟩ := List.cons.inj h
        exact absurd hc (by decide)
      · rfl
  | cons c cs =>
    rw [List.cons_append, sign.eq_def, sign.eq_def]
    split <;> rename_i h <;> split <;> rename_i h' <;> simp_all

theorem exponent_append (hr : Apart r) (cs : List Char) : exponent (cs ++ r) = exponent cs := by
  cases cs with
  | nil =>
    cases r with
    | nil => rfl
    | cons c r =>
      have hc := hr c rfl
      have hmark : ¬(c == 'e' || c == 'E') = true := by
        rw [Bool.or_eq_true, beq_iff_eq, beq_iff_eq]
        rintro (rfl | rfl) <;> exact absurd hc (by decide)
      rw [List.nil_append, exponent, if_neg hmark]
      rfl
  | cons c cs =>
    have hrun := takeWhile_append (fun _ => not_isDigit_of_isSpace) hr
      (cs.drop (sign cs).length)
    rw [List.cons_append, exponent, exponent]
    simp only [sign_append hr cs, List.drop_append_of_le_length (sign_length_le cs), hrun]

theorem decimal_append (hr : Apart r) (cs : List Char) : decimal (cs ++ r) = decimal cs := by
  have hw := digits_width_le cs
  have hf := fraction_width_le (cs.drop (digits cs).width)
  rw [List.length_drop] at hf
  rw [decimal, decimal]
  simp only [digits_append hr, List.drop_append_of_le_length hw, fraction_append hr]
  rw [List.drop_append_of_le_length (by omega), exponent_append hr]

/-- Behind a zero, these letters start a number of another base. -/
def isBaseMark (c : Char) : Bool :=
  c == 'x' || c == 'X' || c == 'b' || c == 'B'

theorem not_isBaseMark {m : Char} {ds : List Char} {l : Lexeme}
    (h : number ('0' :: m :: ds) = (.number, l)) : isBaseMark m = false := by
  rw [isBaseMark]
  simp only [Bool.or_eq_false_iff, beq_eq_false_iff_ne]
  refine ⟨⟨⟨?_, ?_⟩, ?_⟩, ?_⟩ <;> rintro rfl <;> simp [number] at h

theorem number_of_not_isBaseMark {cs : List Char}
    (h : ∀ m ds, cs = '0' :: m :: ds → isBaseMark m = false) :
    number cs = (.number, decimal cs) := by
  rw [number.eq_def]
  split
  any_goals
    rename_i ds
    exact absurd (h _ ds rfl) (by decide)
  rfl

/-- Behind a zero and a base mark, the rest of a word is digits of the base. -/
theorem number_of_isBaseMark {mark : Char} (h : isBaseMark mark = true) :
    ∃ k, ∀ cs, number ('0' :: mark :: cs) = (k, based mark cs) := by
  simp only [isBaseMark, Bool.or_eq_true, beq_iff_eq, or_assoc] at h
  rcases h with rfl | rfl | rfl | rfl
  · exact ⟨.hexNumber, fun _ => rfl⟩
  · exact ⟨.hexNumber, fun _ => rfl⟩
  · exact ⟨.binaryNumber, fun _ => rfl⟩
  · exact ⟨.binaryNumber, fun _ => rfl⟩

/-- A number has a base mark or is decimal. -/
theorem number_cases (cs : List Char) :
    (∃ m ds, cs = '0' :: m :: ds ∧ isBaseMark m = true) ∨ number cs = (.number, decimal cs) := by
  by_cases h : ∃ m ds, cs = '0' :: m :: ds ∧ isBaseMark m = true
  · exact Or.inl h
  · refine Or.inr (number_of_not_isBaseMark fun m ds he => ?_)
    exact Bool.eq_false_iff.mpr fun hm => h ⟨m, ds, he, hm⟩

theorem number_width_pos {c : Char} {cs : List Char} {k : TokenKind} {l : Lexeme}
    (hc : c.isDigit = true) (h : number (c :: cs) = (k, l)) : 0 < l.width := by
  rcases number_cases (c :: cs) with ⟨m, ds, he, hm⟩ | hd
  · obtain ⟨k', hk⟩ := number_of_isBaseMark hm
    rw [he, hk] at h
    rw [← (Prod.mk.inj h).2]
    exact Nat.add_pos_left (by decide : 0 < 2) _
  · rw [h] at hd
    rw [(Prod.mk.inj hd).2]
    exact decimal_width_pos hc cs

/-- A number in front of white space is the number alone. -/
theorem number_append (hr : Apart r) {c : Char} {cs : List Char} {l : Lexeme}
    (h : number (c :: cs) = (.number, l)) : number (c :: cs ++ r) = (.number, l) := by
  have hm : ∀ m ds, c :: cs ++ r = '0' :: m :: ds → isBaseMark m = false := by
    intro m ds he
    cases cs with
    | nil =>
      rw [List.singleton_append] at he
      obtain ⟨-, rfl⟩ := List.cons.inj he
      have hspace := hr m rfl
      simp only [isSpace, Bool.or_eq_true, beq_iff_eq] at hspace
      rcases hspace with ((rfl | rfl) | rfl) | rfl <;> rfl
    | cons d cs =>
      obtain ⟨rfl, ht⟩ := List.cons.inj he
      obtain ⟨rfl, -⟩ := List.cons.inj ht
      exact not_isBaseMark h
  rw [number_of_not_isBaseMark hm, decimal_append hr, ← number_eq_decimal h]

end Lexeme

namespace Lexer

/-! ### Reading a token -/

theorem Takes.isSpace {s s' : Lexer} (h : Takes s none s') :
    ∀ c ∈ s.rest, Lexeme.isSpace c = true := by
  cases h with
  | nothing hr =>
    intro c hc
    rw [hr] at hc
    exact List.mem_takeWhile_imp hc

/-- **A number token is what a number starts with behind the white space ahead.** -/
theorem Takes.of_numeric {s s' : Lexer} {t : Token} (h : Takes s (some t) s')
    (hk : Abi.isNumeric t.kind = true) :
    ∃ c cs l, s.rest = s.gap ++ c :: cs ∧ c.isDigit = true ∧
      Lexeme.number (c :: cs) = (t.kind, l) ∧ t.text = String.ofList l.text ∧
      t.position = s.position + s.gap.length ∧ s' = (s.behind s.gap.length).behind l.width := by
  cases h with
  | quoted _ _ _ => cases hk
  | @number c cs k l hr hc hl => exact ⟨c, cs, l, hr, hc, hl, rfl, rfl, rfl⟩
  | word _ _ _ =>
    rw [(Lexeme.wordKind_kind _).1] at hk
    cases hk
  | operator _ ho =>
    rw [(Lexeme.operator?_kind ho).1] at hk
    cases hk

/-- Tokens are only added. -/
theorem tokens_of_readTokens {count : Nat} {s s' : Lexer} (h : readTokens count s = .ok () s') :
    s.tokens.toList <+: s'.tokens.toList := by
  induction count generalizing s with
  | zero =>
    cases h
    exact List.prefix_rfl
  | succ count ih =>
    obtain ⟨o, t, ht, h⟩ := bind_eq_ok h
    have htokens := (next?_takes ht).tokens
    cases o with
    | none =>
      cases h
      rw [htokens]
    | some tk =>
      have hp := ih (s := t.found tk) h
      simp only [found_tokens, Array.toList_push, htokens] at hp
      exact (List.prefix_append _ _).trans hp

/-- What every token has that is read, the tokens that have been read have. -/
theorem forall_of_readTokens {P : Token → Prop}
    (hp : ∀ {s s' : Lexer} {t : Token}, next? s = .ok (some t) s' → P t) {count : Nat}
    {s s' : Lexer} (h : readTokens count s = .ok () s') (hs : ∀ t ∈ s.tokens.toList, P t) :
    ∀ t ∈ s'.tokens.toList, P t := by
  induction count generalizing s with
  | zero =>
    cases h
    exact hs
  | succ count ih =>
    obtain ⟨o, u, hnext, h⟩ := bind_eq_ok h
    have htokens := (next?_takes hnext).tokens
    cases o with
    | none =>
      cases h
      rwa [htokens]
    | some t =>
      refine ih (s := u.found t) h fun t' ht' => ?_
      rw [found_tokens, Array.toList_push, htokens, List.mem_append, List.mem_singleton] at ht'
      rcases ht' with ht' | rfl
      · exact hs t' ht'
      · exact hp hnext

/-- One more token is read by reading it first. -/
theorem takes_of_readTokens {count : Nat} {s s' : Lexer} {t : Token}
    (h : readTokens count s = .ok () s') (ht : s'.tokens.toList = s.tokens.toList ++ [t]) :
    ∃ k u, count = k + 1 ∧ Takes s (some t) u ∧ readTokens k (u.found t) = .ok () s' := by
  cases count with
  | zero =>
    cases h
    simp at ht
  | succ count =>
    obtain ⟨o, u, hnext, h⟩ := bind_eq_ok h
    have hf := next?_takes hnext
    cases o with
    | none =>
      cases h
      rw [hf.tokens] at ht
      simp at ht
    | some t' =>
      change readTokens count (u.found t') = .ok () s' at h
      have hp := tokens_of_readTokens h
      rw [found_tokens, Array.toList_push, hf.tokens, ht] at hp
      obtain rfl : t' = t := by simpa using hp
      exact ⟨count, u, rfl, hf, h⟩

/-- If no token is read where one might be, there is only white space. -/
theorem isSpace_of_readTokens {count : Nat} {s s' : Lexer}
    (h : readTokens (count + 1) s = .ok () s') (ht : s'.tokens.toList = s.tokens.toList) :
    ∀ c ∈ s.rest, Lexeme.isSpace c = true := by
  obtain ⟨o, u, hnext, h⟩ := bind_eq_ok h
  have hf := next?_takes hnext
  cases o with
  | none => exact hf.isSpace
  | some t =>
    change readTokens count (u.found t) = .ok () s' at h
    have hp := (tokens_of_readTokens h).length_le
    rw [found_tokens, Array.toList_push, hf.tokens, ht, List.length_append,
      List.length_singleton] at hp
    omega

end Lexer

/-! ### Units -/

namespace MeasureUnit

/-- The names of units. -/
def names : List String :=
  aliases.map Prod.fst ++ all.map name

theorem mem_all {n : String} {u : MeasureUnit} (h : ofName? n = some u) : u ∈ all := by
  rw [ofName?] at h
  exact List.mem_of_find?_eq_some h

theorem mem_names {n : String} {u : MeasureUnit} (h : ofName? n = some u) : n ∈ names := by
  have hmem := mem_all h
  rw [ofName?] at h
  rw [names, List.mem_append]
  cases hl : aliases.lookup n with
  | none =>
    rw [hl] at h
    have hn := List.find?_some h
    rw [decide_eq_true_eq, Option.getD_none] at hn
    exact Or.inr (List.mem_map.mpr ⟨u, hmem, hn⟩)
  | some c =>
    obtain ⟨p, hp, he⟩ := List.lookup_isSome_iff.mp (by rw [hl]; rfl)
    refine Or.inl (List.mem_map.mpr ⟨p, hp, ?_⟩)
    exact (eq_of_beq he).symm

/-- The name of a unit is a word that means nothing else. -/
theorem isWord_name {n : String} {u : MeasureUnit} (h : ofName? n = some u) :
    ∃ c cs, n.toList = c :: cs ∧ Lexeme.isWordStart c = true ∧
      (∀ d ∈ c :: cs, Lexeme.isWord d = true) ∧ Lexeme.wordKind (c :: cs) = .identifier := by
  have hstarts : (names.all fun n => n.toList.head?.any Lexeme.isWordStart) = true := by
    decide +kernel
  have hwords : (names.all fun n => n.toList.all Lexeme.isWord) = true := by
    decide +kernel
  have hkinds : (names.all fun n => Lexeme.wordKind n.toList = .identifier) = true := by
    decide +kernel
  have hstart := List.all_eq_true.mp hstarts n (mem_names h)
  have hword := List.all_eq_true.mp hwords n (mem_names h)
  have hkind := List.all_eq_true.mp hkinds n (mem_names h)
  cases hn : n.toList with
  | nil =>
    rw [hn] at hstart
    cases hstart
  | cons c cs =>
    rw [hn] at hstart hword hkind
    exact ⟨c, cs, rfl, hstart, List.all_eq_true.mp hword, of_decide_eq_true hkind⟩

end MeasureUnit

namespace Lexer

/-! ### A number and a unit behind white space -/

section

variable {s : Lexer} {g : List Char}

theorem next?_of_number {c : Char} {cs : List Char} {l : Lexeme} (h : s.rest = g ++ c :: cs)
    (hg : ∀ d ∈ g, Lexeme.isSpace d = true) (hc : c.isDigit = true)
    (hl : Lexeme.number (c :: cs) = (.number, l)) :
    next? s = .ok (some ⟨.number, String.ofList l.text, s.position + g.length⟩)
      ((s.behind g.length).behind l.width) := by
  have hr : (s.behind g.length).rest = c :: cs := behind_rest_of_append h
  rw [next?_behind_gap h hg, next?_of_isDigit hr hc hl]
  rfl

theorem next?_of_unit {n : String} {u : MeasureUnit} (h : s.rest = g ++ n.toList)
    (hg : ∀ d ∈ g, Lexeme.isSpace d = true) (hn : MeasureUnit.ofName? n = some u) :
    ∃ q s', next? s = .ok (some ⟨.identifier, n, q⟩) s' ∧ s'.rest = [] ∧ s'.tokens = s.tokens := by
  obtain ⟨c, cs, hname, hstart, hword, hkind⟩ := MeasureUnit.isWord_name hn
  have hr : (s.behind g.length).rest = c :: cs := behind_rest_of_append (by rw [h, hname])
  have hone : Lexeme.word (c :: cs) = ⟨c :: cs, (c :: cs).length⟩ := by
    rw [Lexeme.word, List.takeWhile_eq_self_iff.mpr hword]
  refine ⟨(s.behind g.length).position, (s.behind g.length).behind (c :: cs).length, ?_, ?_, rfl⟩
  · rw [next?_behind_gap h hg, next?_of_isWordStart hr hstart, hone, hkind, ← hname,
      String.ofList_toList]
  · rw [behind_rest, hr, List.drop_length]

end

end Lexer

/-! ### Lines -/

namespace Token

open Lexer

/-- A line is read token by token up to the one that stands for its end. -/
theorem ofLine_eq_ok {t : String} {ts : List Token} (h : ofLine t = .ok ts) :
    ∃ s, readTokens t.toList.length (start t) = .ok () s ∧
      ts = s.tokens.toList ++ [⟨.stop, "", s.position⟩] := by
  rw [ofLine] at h
  cases hr : tokenize (start t) with
  | error e s =>
    rw [hr] at h
    cases h
  | ok us s =>
    rw [hr] at h
    rw [tokenize, bind_of_ok (get_run _)] at hr
    obtain ⟨_, s, hread, hr⟩ := bind_eq_ok hr
    cases hr
    cases h
    exact ⟨s, hread, Array.toList_push⟩

/-- A token that the lexer makes, at whatever place of a line. -/
def Produced (t : Token) : Prop := ∃ s s', next? s = .ok (some t) s'

/-- The tokens of a line are made by the lexer, up to the one that stands for its end. -/
theorem produced_of_mem {line : String} {ts : List Token} (h : ofLine line = .ok ts) {t : Token}
    (ht : t ∈ ts) (hk : t.kind ≠ .stop) : t.Produced := by
  obtain ⟨s, hread, rfl⟩ := ofLine_eq_ok h
  rcases List.mem_append.mp ht with ht | ht
  · exact forall_of_readTokens (fun hnext => ⟨_, _, hnext⟩) hread
      (fun u hu => absurd hu List.not_mem_nil) t ht
  · rw [List.mem_singleton.mp ht] at hk
    exact absurd rfl hk

/-- A number token that the lexer makes is the text of a number. -/
theorem Produced.of_numeric {t : Token} (h : t.Produced) (hk : Abi.isNumeric t.kind = true) :
    ∃ c cs l, c.isDigit = true ∧ Lexeme.number (c :: cs) = (t.kind, l) ∧
      t.text = String.ofList l.text := by
  obtain ⟨s, s', hnext⟩ := h
  obtain ⟨c, cs, l, -, hc, hl, ht, -⟩ := (next?_takes hnext).of_numeric hk
  exact ⟨c, cs, l, hc, hl, ht⟩

/-- The last token of a line stands for its end. -/
theorem kind_of_ofLine {t : String} {body : List Token} {stop : Token}
    (h : ofLine t = .ok (body ++ [stop])) : stop.kind = .stop := by
  obtain ⟨_, -, hts⟩ := ofLine_eq_ok h
  rw [(List.cons.inj (List.append_inj_right' hts rfl)).1]

/-- A line of one number is white space, the number and white space. -/
theorem ofLine_of_numeric {t : String} {tok stop : Token} (h : ofLine t = .ok [tok, stop])
    (hk : Abi.isNumeric tok.kind = true) :
    ∃ g c cs l, t.toList = g ++ c :: cs ∧ (∀ d ∈ g, Lexeme.isSpace d = true) ∧
      c.isDigit = true ∧ Lexeme.number (c :: cs) = (tok.kind, l) ∧ tok.text = String.ofList l.text ∧
      tok.position = g.length ∧ ∀ d ∈ (c :: cs).drop l.width, Lexeme.isSpace d = true := by
  obtain ⟨s₁, hread, hl⟩ := ofLine_eq_ok h
  change [tok] ++ [stop] = _ at hl
  have hone : s₁.tokens.toList = [tok] := (List.append_inj_left' hl rfl).symm
  obtain ⟨count, s₂, hcount, hf, hrest⟩ := takes_of_readTokens (s := start t) hread hone
  obtain ⟨c, cs, l, hsplit, hc, hl, hv, hp, hs₂⟩ := hf.of_numeric hk
  refine ⟨(start t).gap, c, cs, l, hsplit, fun d => List.mem_takeWhile_imp, hc, hl, hv, ?_, ?_⟩
  · rw [hp]
    exact Nat.zero_add _
  have hbehind : (s₂.found tok).rest = (c :: cs).drop l.width := by
    rw [hs₂, found_rest, behind_rest, behind_rest_of_append hsplit]
  cases count with
  | zero =>
    -- A line of one character has nothing behind its number.
    have hlen : (c :: cs).length ≤ 1 := by
      change t.toList = _ at hsplit
      rw [hsplit, List.length_append] at hcount
      omega
    have hwidth := Lexeme.number_width_pos hc hl
    rw [List.drop_eq_nil_of_le (by omega)]
    exact fun d hd => absurd hd List.not_mem_nil
  | succ count =>
    have htokens : s₁.tokens.toList = (s₂.found tok).tokens.toList := by
      rw [hone, found_tokens, Array.toList_push, hf.tokens]
      rfl
    rw [← hbehind]
    exact isSpace_of_readTokens hrest htokens

theorem ofLine_eq_number {t v : String} {p : Nat} {stop : Token}
    (h : ofLine t = .ok [⟨.number, v, p⟩, stop]) :
    ∃ g c cs l, t.toList = g ++ c :: cs ∧ (∀ d ∈ g, Lexeme.isSpace d = true) ∧
      c.isDigit = true ∧ Lexeme.number (c :: cs) = (.number, l) ∧ v = String.ofList l.text ∧
      p = g.length ∧ ∀ d ∈ (c :: cs).drop l.width, Lexeme.isSpace d = true :=
  ofLine_of_numeric h rfl

/-- Such a line with a unit behind it is a number and the name of the unit. -/
theorem ofLine_number_unit {t v : String} {p : Nat} {stop : Token}
    (h : ofLine t = .ok [⟨.number, v, p⟩, stop]) {n : String} {u : MeasureUnit}
    (hn : MeasureUnit.ofName? n = some u) :
    ∃ q q', ofLine (t ++ (" " ++ n)) =
      .ok [⟨.number, v, p⟩, ⟨.identifier, n, q⟩, ⟨.stop, "", q'⟩] := by
  obtain ⟨g, c, cs, l, ht, hg, hc, hl, rfl, rfl, hbehind⟩ := ofLine_eq_number h
  let s := start (t ++ (" " ++ n))
  have hline : s.rest = g ++ c :: (cs ++ ' ' :: n.toList) := by
    change (t ++ (" " ++ n)).toList = _
    rw [String.toList_append, String.toList_append, ht, List.append_assoc]
    rfl
  have hl' : Lexeme.number (c :: (cs ++ ' ' :: n.toList)) = (.number, l) :=
    Lexeme.number_append (r := ' ' :: n.toList) (by intro e he; cases he; rfl) hl
  have hfirst := next?_of_number hline hg hc hl'
  let s₁ := ((s.behind g.length).behind l.width).found
    ⟨.number, String.ofList l.text, s.position + g.length⟩
  have hrest : s₁.rest = ((c :: cs).drop l.width ++ [' ']) ++ n.toList := by
    have hwidth : l.width ≤ (c :: cs).length := by
      rw [Lexeme.number_eq_decimal hl]
      exact Lexeme.decimal_width_le _
    rw [found_rest, behind_rest, behind_rest_of_append hline, ← List.cons_append,
      List.drop_append_of_le_length hwidth]
    exact (List.append_assoc _ [' '] _).symm
  have hspace : ∀ e ∈ (c :: cs).drop l.width ++ [' '], Lexeme.isSpace e = true := by
    intro e he
    rcases List.mem_append.mp he with he | he
    · exact hbehind e he
    · rw [List.mem_singleton.mp he]
      rfl
  obtain ⟨q, s₂, hsecond, hnil, htokens⟩ := next?_of_unit hrest hspace hn
  obtain ⟨count, hcount⟩ : ∃ k, (t ++ (" " ++ n)).toList.length = k + 2 := by
    refine ⟨g.length + cs.length + n.toList.length, ?_⟩
    change s.rest.length = _
    rw [hline]
    simp only [List.length_append, List.length_cons]
    omega
  have hread : readTokens (t ++ (" " ++ n)).toList.length s =
      .ok () (s₂.found ⟨.identifier, n, q⟩) := by
    rw [hcount, readTokens_some hfirst, readTokens_some hsecond]
    exact readTokens_nil (s := s₂.found _) hnil count
  refine ⟨q, s₂.position, ?_⟩
  have hpos : s.position + g.length = g.length := Nat.zero_add _
  rw [ofLine_of_readTokens hread, found_tokens, Array.toList_push, htokens, ← hpos]
  rfl

end Token

end WeiCalc

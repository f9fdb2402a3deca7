import Mathlib
import WeiCalc.Proofs.Token.Literal
import WeiCalc.Proofs.Token.Place

/-!
# What tokens take up of a line

Every token owns some characters of the line, from its position on.  A word or an operator is its
characters, a number is its characters without the underscores, and a quoted text is what stands
between the quotes, with the escapes resolved.  The characters that no token owns are white space.

* `Lexeme.groups_number`, `Lexeme.unescapes_of_quote`: the text of a lexeme and what it takes up.
* `Lexer.Takes.spells`: **reading a token moves over white space and over the characters of the
  token.**
* `Lexer.tiles_of_readTokens`: **the characters ahead are those of the tokens with white space
  between them**, by induction on the tokens.
* `Token.Spans`, `Token.ofLine_spans`: **the characters of a line, shared out among its tokens.**
-/

namespace WeiCalc

namespace Lexeme

/-! ### Numbers -/

/-- The text of the lexeme is what it takes up of `cs`, without the underscores. -/
def Groups (l : Lexeme) (cs : List Char) : Prop :=
  (cs.take l.width).filter (· != '_') = l.text

variable {cs : List Char}

theorem groups_none (cs : List Char) : none.Groups cs := rfl

theorem Groups.append {a b : Lexeme} (ha : a.Groups cs) (hb : b.Groups (cs.drop a.width)) :
    (append a b).Groups cs := by
  show (cs.take (a.width + b.width)).filter (· != '_') = a.text ++ b.text
  rw [List.take_add, List.filter_append]
  exact congrArg₂ _ ha hb

theorem groups_grouped (isMember : Char → Bool) (cs : List Char) :
    (grouped isMember cs).Groups cs := by
  rw [Groups, grouped, take_takeWhile]

theorem groups_fraction (cs : List Char) : (fraction cs).Groups cs := by
  rw [fraction.eq_def]
  split
  · split
    · exact Groups.append rfl (groups_grouped _ _)
    · exact groups_none _
  · exact groups_none _

theorem filter_of_isDigit {ds : List Char} (h : ∀ d ∈ ds, d.isDigit = true) :
    ds.filter (· != '_') = ds := by
  rw [List.filter_eq_self]
  intro d hd
  rw [bne_iff_ne]
  rintro rfl
  exact absurd (h _ hd) (by decide)

theorem groups_exponent (cs : List Char) : (exponent cs).Groups cs := by
  rw [exponent.eq_def]
  split
  · rename_i c cs
    by_cases hc : (c == 'e' || c == 'E') = true
    · rw [if_pos hc]
      dsimp only
      split
      · exact groups_none _
      · have hsign : (sign cs).filter (· != '_') = sign cs := by
          rcases sign_cases cs with h | h | h <;> rw [h] <;> rfl
        have hrun : ((cs.drop (sign cs).length).takeWhile Char.isDigit).filter (· != '_') =
            (cs.drop (sign cs).length).takeWhile Char.isDigit :=
          filter_of_isDigit fun _ hd => List.mem_takeWhile_imp hd
        have hmark : (c != '_') = true := by
          rw [Bool.or_eq_true, beq_iff_eq, beq_iff_eq] at hc
          rcases hc with rfl | rfl <;> rfl
        rw [Groups, Nat.add_assoc, Nat.add_comm 1, List.take_succ_cons, List.take_add, take_sign,
          take_takeWhile, List.filter_cons_of_pos (p := (· != '_')) hmark, List.filter_append,
          hsign, hrun]
    · rw [if_neg hc]
      exact groups_none _
  · exact groups_none _

theorem groups_decimal (cs : List Char) : (decimal cs).Groups cs := by
  have hwhole : (digits cs).Groups cs := groups_grouped _ cs
  refine (hwhole.append (groups_fraction _)).append ?_
  exact groups_exponent _

/-- **A number is what it takes up, without the underscores.** -/
theorem groups_number {k : TokenKind} {l : Lexeme} (h : number cs = (k, l)) : l.Groups cs := by
  rcases number_cases cs with ⟨m, ds, rfl, hm⟩ | hd
  · obtain ⟨k', hk⟩ := number_of_isBaseMark hm
    have hmark : (m != '_') = true := by
      simp only [isBaseMark, Bool.or_eq_true, beq_iff_eq, or_assoc] at hm
      rcases hm with rfl | rfl | rfl | rfl <;> rfl
    rw [hk] at h
    rw [← (Prod.mk.inj h).2]
    refine Groups.append ?_ (groups_grouped _ ds)
    show '0' :: [m].filter (· != '_') = ['0', m]
    rw [List.filter_cons_of_pos (p := (· != '_')) hmark, List.filter_nil]
  · rw [hd] at h
    rw [← (Prod.mk.inj h).2]
    exact groups_decimal cs

theorem isNumeric_of_number {k : TokenKind} {l : Lexeme} (h : number cs = (k, l)) :
    Abi.isNumeric k = true := by
  rw [number.eq_def] at h
  split at h <;> cases h <;> rfl

/-! ### Words and operators -/

@[simp] theorem take_word (cs : List Char) : cs.take (word cs).width = (word cs).text :=
  take_takeWhile isWord cs

theorem wordKind_ne_stop (cs : List Char) : wordKind cs ≠ .stop := by
  rw [wordKind]
  split
  · decide
  · split <;> decide

theorem take_operator {k : TokenKind} {l : Lexeme} (h : operator? cs = some (k, l)) :
    cs.take l.width = l.text ∧ k ≠ .stop := by
  rw [operator?.eq_def] at h
  split at h <;> cases h <;> exact ⟨rfl, by decide⟩

/-! ### Quoted texts -/

/-- What the inside of a quoted text stands for, where `mark` is the quote. -/
inductive Unescapes (mark : Char) : (inside : List Char) → (contents : List Char) → Prop
  | nil : Unescapes mark [] []
  | plain {c : Char} {inside contents : List Char} : c ≠ mark → c ≠ '\\' →
      Unescapes mark inside contents → Unescapes mark (c :: inside) (c :: contents)
  | escape {c d : Char} {inside contents : List Char} : escape? c = some d →
      Unescapes mark inside contents → Unescapes mark ('\\' :: c :: inside) (d :: contents)

theorem cons_eq_closed {c : Char} {width : Nat} {q : Quote} {l : Lexeme}
    (h : q.cons c width = ⟨l, .closed⟩) :
    ∃ l', l = append ⟨[c], width⟩ l' ∧ q = ⟨l', .closed⟩ := by
  cases q
  cases h
  exact ⟨_, rfl, rfl⟩

/-- **A quoted text is what stands between the quotes**, by induction along the characters. -/
theorem unescapes_of_quote {mark : Char} {l : Lexeme} (h : quote mark cs = ⟨l, .closed⟩) :
    ∃ inside rest, cs = inside ++ mark :: rest ∧ Unescapes mark inside l.text ∧
      l.width = inside.length + 1 := by
  fun_induction quote mark cs generalizing l with
  | case1 => cases h
  | case2 cs =>
    cases h
    exact ⟨[], cs, rfl, .nil, rfl⟩
  | case3 hm => cases h
  | case4 c ds d hd hm ih =>
    obtain ⟨l', rfl, hq⟩ := cons_eq_closed h
    obtain ⟨inside, rest, rfl, hi, hw⟩ := ih hq
    refine ⟨'\\' :: c :: inside, rest, rfl, .escape hd hi, ?_⟩
    simp only [append, hw, List.length_cons]
    omega
  | case5 d ds he => cases h
  | case6 c ds hm hb ih =>
    obtain ⟨l', rfl, hq⟩ := cons_eq_closed h
    obtain ⟨inside, rest, rfl, hi, hw⟩ := ih hq
    refine ⟨c :: inside, rest, rfl, .plain hm hb hi, ?_⟩
    simp only [append, hw, List.length_cons]
    omega

end Lexeme

/-! ### Tokens -/

/-- The characters write the token, as it is read. -/
inductive Token.Spells (t : Token) : List Char → Prop
  | verbatim {span : List Char} : Abi.isNumeric t.kind = false → t.kind ≠ .text → t.kind ≠ .stop →
      span = t.text.toList → Spells t span
  | number {span : List Char} : Abi.isNumeric t.kind = true →
      span.filter (· != '_') = t.text.toList → Spells t span
  | quoted {mark : Char} {inside : List Char} : t.kind = .text → Lexeme.isQuote mark = true →
      Lexeme.Unescapes mark inside t.text.toList → Spells t (mark :: (inside ++ [mark]))

theorem Token.Spells.kind_ne_stop {t : Token} {span : List Char} (h : t.Spells span) :
    t.kind ≠ .stop := by
  intro hk
  cases h with
  | verbatim _ _ hs _ => exact hs hk
  | number hn _ =>
    rw [hk] at hn
    cases hn
  | quoted ht _ _ =>
    rw [hk] at ht
    cases ht

namespace Lexer

variable {s s' : Lexer}

/-- What a lexer moves over is what was ahead of it. -/
theorem split_behind {g r : List Char} {width : Nat} (h : s.rest = g ++ r)
    (hw : width ≤ r.length) :
    s.rest = g ++ (r.take width ++ ((s.behind g.length).behind width).rest) ∧
      (r.take width).length = width := by
  refine ⟨?_, List.length_take_of_le hw⟩
  rw [behind_rest, behind_rest_of_append h, List.take_append_drop, h]

/-- **Reading a token moves over white space and over the characters of the token.** -/
theorem Takes.spells {t : Token} (h : Takes s (some t) s') :
    ∃ span, t.Spells span ∧ span ≠ [] ∧ s.rest = s.gap ++ (span ++ s'.rest) ∧
      s'.position = t.position + span.length := by
  cases h with
  | @quoted mark cs l hr hm hq =>
    obtain ⟨inside, rest, rfl, hi, hw⟩ := Lexeme.unescapes_of_quote hq
    refine ⟨mark :: (inside ++ [mark]), .quoted rfl hm ?_, List.cons_ne_nil _ _, ?_, ?_⟩
    · rwa [String.toList_ofList]
    · have hdrop : (inside ++ mark :: rest).drop l.width = rest := by
        rw [hw, List.append_cons]
        exact List.drop_left' (by simp)
      rw [behind_rest, behind_rest, behind_rest_of_append hr, List.drop_one, List.tail_cons, hdrop,
        hr]
      simp
    · show s.position + s.gap.length + 1 + l.width = s.position + s.gap.length + _
      rw [hw, List.length_cons, List.length_append, List.length_singleton]
      omega
  | @number c cs k l hr hc hl =>
    obtain ⟨hsplit, hlength⟩ := split_behind hr (Lexeme.number_width_le hl)
    have hpos := Lexeme.number_width_pos hc hl
    refine ⟨(c :: cs).take l.width, .number (Lexeme.isNumeric_of_number hl) ?_, ?_, hsplit, ?_⟩
    · rw [String.toList_ofList]
      exact Lexeme.groups_number hl
    · exact List.ne_nil_of_length_pos (by omega)
    · rw [hlength]
      rfl
  | @word c cs l hr hc hl =>
    subst hl
    have hle : (Lexeme.word (c :: cs)).width ≤ (c :: cs).length :=
      (List.takeWhile_prefix _).length_le
    obtain ⟨hsplit, hlength⟩ := split_behind hr hle
    have hpos : 0 < (Lexeme.word (c :: cs)).width := Lexeme.word_width_pos hc
    obtain ⟨hnum, htext⟩ := Lexeme.wordKind_kind (Lexeme.word (c :: cs)).text
    refine ⟨(c :: cs).take (Lexeme.word (c :: cs)).width,
      .verbatim hnum htext (Lexeme.wordKind_ne_stop _) ?_, ?_, hsplit, ?_⟩
    · rw [String.toList_ofList]
      exact Lexeme.take_word _
    · exact List.ne_nil_of_length_pos (by omega)
    · rw [hlength]
      rfl
  | @operator c cs k l hr ho =>
    obtain ⟨hpos, hle⟩ := Lexeme.operator?_width ho
    obtain ⟨hsplit, hlength⟩ := split_behind hr hle
    obtain ⟨hnum, htext⟩ := Lexeme.operator?_kind ho
    obtain ⟨htake, hstop⟩ := Lexeme.take_operator ho
    refine ⟨(c :: cs).take l.width, .verbatim hnum htext hstop ?_, ?_, hsplit, ?_⟩
    · rw [String.toList_ofList]
      exact htake
    · exact List.ne_nil_of_length_pos (by omega)
    · rw [hlength]
      rfl

end Lexer

/-! ### Lines -/

namespace Token

/-- The characters `cs` behind `position` are those of the tokens, with white space in front of
each of them and behind the last one. -/
inductive Tiles : (position : Nat) → List (Token × List Char) → (cs : List Char) → Prop
  | space {position : Nat} {gap : List Char} : (∀ c ∈ gap, Lexeme.isSpace c = true) →
      Tiles position [] gap
  | token {position : Nat} {gap span cs : List Char} {t : Token}
      {spans : List (Token × List Char)} : (∀ c ∈ gap, Lexeme.isSpace c = true) →
      t.Spells span → span ≠ [] → t.position = position + gap.length →
      Tiles (t.position + span.length) spans cs →
      Tiles position ((t, span) :: spans) (gap ++ (span ++ cs))

/-- The characters of a line, shared out among tokens. -/
structure Spans (chars : List Char) (spans : List (Token × List Char)) : Prop where
  /-- Each token is written by characters that stand at its position. -/
  spelled : ∀ x ∈ spans, x.1.Spells x.2 ∧ x.2 ≠ [] ∧ x.2 <+: chars.drop x.1.position
  /-- The characters of a token end before those of the tokens behind it start. -/
  ordered : spans.Pairwise fun x y => x.1.position + x.2.length ≤ y.1.position
  /-- All other characters are white space. -/
  space : ∀ (i : Nat) (c : Char), chars[i]? = some c →
    (∀ x ∈ spans, ¬(x.1.position ≤ i ∧ i < x.1.position + x.2.length)) →
    Lexeme.isSpace c = true

namespace Tiles

variable {p : Nat} {spans : List (Token × List Char)} {chars cs : List Char}

theorem le_position (h : Tiles p spans cs) : ∀ x ∈ spans, p ≤ x.1.position := by
  induction h with
  | space _ => exact fun x hx => absurd hx List.not_mem_nil
  | token _ _ _ ht _ ih =>
    intro x hx
    rcases List.mem_cons.mp hx with rfl | hx
    · exact ht ▸ Nat.le_add_right _ _
    · have hle := ih x hx
      omega

theorem ordered (h : Tiles p spans cs) :
    spans.Pairwise fun x y => x.1.position + x.2.length ≤ y.1.position := by
  induction h with
  | space _ => exact .nil
  | token _ _ _ _ htiles ih => exact .cons htiles.le_position ih

/-- Behind the white space in front, a line goes on with the first token and the others. -/
theorem drop_token {gap span : List Char} {t : Token} (hp : t.position = p + gap.length)
    (hl : chars.drop p = gap ++ (span ++ cs)) :
    chars.drop t.position = span ++ cs ∧ chars.drop (t.position + span.length) = cs := by
  have hdrop : chars.drop t.position = span ++ cs := by
    rw [hp, ← List.drop_drop, hl, List.drop_left]
  refine ⟨hdrop, ?_⟩
  rw [← List.drop_drop, hdrop, List.drop_left]

theorem spelled (h : Tiles p spans cs) (hl : chars.drop p = cs) :
    ∀ x ∈ spans, x.1.Spells x.2 ∧ x.2 ≠ [] ∧ x.2 <+: chars.drop x.1.position := by
  induction h with
  | space _ => exact fun x hx => absurd hx List.not_mem_nil
  | token _ hspells hne hp _ ih =>
    obtain ⟨hdrop, hbehind⟩ := drop_token hp hl
    intro x hx
    rcases List.mem_cons.mp hx with rfl | hx
    · exact ⟨hspells, hne, hdrop ▸ List.prefix_append _ _⟩
    · exact ih hbehind x hx

theorem space_of_apart (h : Tiles p spans cs) (hl : chars.drop p = cs) {i : Nat} {c : Char}
    (hi : p ≤ i) (hc : chars[i]? = some c)
    (hapart : ∀ x ∈ spans, ¬(x.1.position ≤ i ∧ i < x.1.position + x.2.length)) :
    Lexeme.isSpace c = true := by
  have hget : ∀ {q : Nat}, q ≤ i → (chars.drop q)[i - q]? = some c := by
    intro q hq
    rw [List.getElem?_drop, Nat.add_sub_cancel' hq, hc]
  induction h with
  | space hgap =>
    have hmem := hget hi
    rw [hl] at hmem
    exact hgap c (List.mem_of_getElem? hmem)
  | @token p gap span cs t spans hgap _ _ hp _ ih =>
    -- The character is in the white space in front, in the token, or behind it.
    by_cases hfront : i < t.position
    · have hmem := hget hi
      rw [hl, List.getElem?_append_left (by omega)] at hmem
      exact hgap c (List.mem_of_getElem? hmem)
    · have hnot := hapart _ (List.mem_cons_self ..)
      refine ih (drop_token hp hl).2 ?_ fun x hx => hapart x (List.mem_cons_of_mem _ hx)
      simp only [not_and, not_lt] at hnot
      exact hnot (Nat.le_of_not_lt hfront)

/-- Characters that are those of the tokens are shared out among them. -/
theorem shared (h : Tiles 0 spans chars) : Spans chars spans :=
  ⟨h.spelled List.drop_zero, h.ordered,
    fun i _ hc hapart => h.space_of_apart List.drop_zero (Nat.zero_le i) hc hapart⟩

end Tiles

end Token

/-- **The characters ahead are those of the tokens with white space between them**, by induction
on the bound of the tokens that are read. -/
theorem Lexer.tiles_of_readTokens {count : Nat} {s s' : Lexer} (h : readTokens count s = .ok () s')
    (hc : s.rest.length ≤ count) :
    ∃ spans, Token.Tiles s.position spans s.rest ∧
      s'.tokens.toList = s.tokens.toList ++ spans.map Prod.fst := by
  induction count generalizing s with
  | zero =>
    cases h
    refine ⟨[], .space fun c hmem => ?_, (List.append_nil _).symm⟩
    rw [List.eq_nil_of_length_eq_zero (Nat.le_zero.mp hc)] at hmem
    cases hmem
  | succ count ih =>
    obtain ⟨o, u, hnext, h⟩ := bind_eq_ok h
    have htakes := next?_takes hnext
    cases o with
    | none =>
      cases h
      exact ⟨[], .space htakes.isSpace, by rw [htakes.tokens, List.map_nil, List.append_nil]⟩
    | some t =>
      obtain ⟨span, hspells, hne, hrest, hbehind⟩ := htakes.spells
      have hshort : u.rest.length ≤ count := by
        have hpos := List.length_pos_iff.mpr hne
        have hlength := congrArg List.length hrest
        simp only [List.length_append] at hlength
        omega
      obtain ⟨spans, htiles, htokens⟩ := ih (s := u.found t) h hshort
      rw [found_position, found_rest, hbehind] at htiles
      refine ⟨(t, span) :: spans, ?_, ?_⟩
      · rw [hrest]
        exact .token (fun c hmem => List.mem_takeWhile_imp hmem) hspells hne htakes.position htiles
      · rw [htokens, found_tokens, Array.toList_push, htakes.tokens, List.append_assoc]
        rfl

/-- Only the last token of a line stands for its end. -/
theorem Token.kind_ne_stop_of_ofLine {line : String} {body : List Token} {stop t : Token}
    (h : Token.ofLine line = .ok (body ++ [stop])) (ht : t ∈ body) : t.kind ≠ .stop := by
  obtain ⟨s, hread, hts⟩ := ofLine_eq_ok h
  rw [List.append_inj_left' hts rfl] at ht
  refine Lexer.forall_of_readTokens (P := fun t => t.kind ≠ .stop) (fun hnext => ?_) hread
    (fun u hu => absurd hu List.not_mem_nil) t ht
  obtain ⟨span, hspells, -⟩ := (Lexer.next?_takes hnext).spells
  exact hspells.kind_ne_stop

/-- **The characters of a line, shared out among its tokens.**  The tokens in front of the one
that stands for the end of the line own characters of the line, each from its position on, in
order and without any in common; all others are white space.  The end is where the line has no
more characters. -/
theorem Token.ofLine_spans {line : String} {ts : List Token} (h : Token.ofLine line = .ok ts) :
    ∃ spans, Spans line.toList spans ∧
      ts = spans.map Prod.fst ++ [⟨.stop, "", line.toList.length⟩] := by
  obtain ⟨s, hread, rfl⟩ := ofLine_eq_ok h
  obtain ⟨spans, htiles, htokens⟩ := Lexer.tiles_of_readTokens hread (le_refl _)
  have hend : s.position = 0 + line.toList.length := Lexer.position_of_readTokens hread (le_refl _)
  refine ⟨spans, htiles.shared, ?_⟩
  rw [htokens, hend, Nat.zero_add]
  rfl

/-- The characters of a sum with a space behind its operator, shared out among three tokens. -/
theorem Token.ofLine_spans_sum :
    Token.ofLine "1_0+ '\\n'" = .ok
      [⟨.number, "10", 0⟩, ⟨.plus, "+", 3⟩, ⟨.text, "\n", 5⟩, ⟨.stop, "", 9⟩] ∧
    ∃ spans, Spans "1_0+ '\\n'".toList spans ∧
      spans.map Prod.fst = [⟨.number, "10", 0⟩, ⟨.plus, "+", 3⟩, ⟨.text, "\n", 5⟩] := by
  have h : Token.ofLine "1_0+ '\\n'" = .ok
      ([⟨.number, "10", 0⟩, ⟨.plus, "+", 3⟩, ⟨.text, "\n", 5⟩] ++ [⟨.stop, "", 9⟩]) := by
    decide +kernel
  obtain ⟨spans, hspans, hts⟩ := Token.ofLine_spans h
  exact ⟨h, spans, hspans, (List.append_inj_left' hts rfl).symm⟩

end WeiCalc

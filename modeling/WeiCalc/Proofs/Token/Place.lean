import Mathlib
import WeiCalc.Proofs.Token.Failure
import WeiCalc.Proofs.Token.Written

/-!
# Where tokens stand

The position of a token is where it starts in the line: a lexer there reads the token and passes over
nothing before.  The token for the end of the line stands behind its last character.  That the lexer
never moves further than the line goes is what makes this an offset in the line.

* `Lexer.Takes.reach`: **reading a token moves over characters of the line only.**
* `Lexer.Takes.forward`: reading a token moves on.
* `Token.Stands`: what stands in a line at the position of a token.
* `Token.ofLine_stands`: **every token of a line stands at its position.**
-/

namespace WeiCalc

/-! ### The width of a lexeme -/

namespace Lexeme

theorem quote_width_le {mark : Char} {cs : List Char} (h : (quote mark cs).ending = .closed) :
    (quote mark cs).contents.width ≤ cs.length := by
  fun_induction quote mark cs with
  | case1 => cases h
  | case2 cs => simp
  | case3 hm => cases h
  | case4 d ds hm e he ih =>
    have hw := ih h
    simp only [Quote.cons, append, List.length_cons]
    omega
  | case5 d ds he => cases h
  | case6 c cs hm hb ih =>
    have hw := ih h
    simp only [Quote.cons, append, List.length_cons]
    omega

theorem number_width_le {cs : List Char} {k : TokenKind} {l : Lexeme} (h : number cs = (k, l)) :
    l.width ≤ cs.length := by
  rcases number_cases cs with ⟨mark, ds, rfl, hm⟩ | hd
  · obtain ⟨k', hk⟩ := number_of_isBaseMark hm
    rw [hk] at h
    obtain ⟨-, rfl⟩ := Prod.mk.inj h
    have hw := (List.takeWhile_prefix (l := ds) fun c => isWord c || c == '_').length_le
    simp only [based, grouped, append, List.length_cons]
    omega
  · rw [h] at hd
    rw [(Prod.mk.inj hd).2]
    exact decimal_width_le cs

theorem operator?_width {cs : List Char} {k : TokenKind} {l : Lexeme}
    (h : operator? cs = some (k, l)) : 0 < l.width ∧ l.width ≤ cs.length := by
  rw [operator?.eq_def] at h
  split at h <;> cases h <;> simp

theorem word_width_pos {c : Char} {cs : List Char} (hc : isWordStart c = true) :
    0 < (word (c :: cs)).width := by
  obtain ⟨ds, hd⟩ := word_cons hc cs
  show 0 < (word (c :: cs)).text.length
  rw [hd]
  exact Nat.succ_pos _

end Lexeme

namespace Lexer

/-! ### How far the lexer moves -/

/-- Where the line ends that the lexer reads. -/
def reach (s : Lexer) : Nat := s.position + s.rest.length

theorem reach_behind {s : Lexer} {width : Nat} (h : width ≤ s.rest.length) :
    (s.behind width).reach = s.reach := by
  rw [reach, reach, behind_position, behind_rest, List.length_drop]
  omega

variable {s s' : Lexer}

/-- **Reading a token moves over characters of the line only.** -/
theorem Takes.reach {o : Option Token} (h : Takes s o s') : s'.reach = s.reach := by
  have hgap : (s.behind s.gap.length).reach = s.reach :=
    reach_behind (List.takeWhile_prefix _).length_le
  cases h with
  | nothing _ => exact hgap
  | @quoted mark cs l hr _ hq =>
    have hrest := behind_rest_of_append hr
    have hw : (Lexeme.quote mark cs).contents.width ≤ cs.length :=
      Lexeme.quote_width_le (by rw [hq])
    rw [hq] at hw
    rw [reach_behind, reach_behind, hgap]
    · rw [hrest]
      simp
    · rw [behind_rest, hrest]
      exact hw
  | number hr _ hl =>
    rw [reach_behind (by rw [behind_rest_of_append hr]; exact Lexeme.number_width_le hl), hgap]
  | @word c cs l hr _ hl =>
    have hw : l.width ≤ (c :: cs).length := by
      rw [← hl]
      exact (List.takeWhile_prefix _).length_le
    rw [reach_behind (by rwa [behind_rest_of_append hr]), hgap]
  | operator hr ho =>
    rw [reach_behind (by rw [behind_rest_of_append hr]; exact (Lexeme.operator?_width ho).2), hgap]

/-- Reading a token moves on. -/
theorem Takes.forward {t : Token} (h : Takes s (some t) s') : t.position < s'.position := by
  cases h with
  | quoted _ _ _ => exact Nat.lt_of_lt_of_le (Nat.lt_succ_self _) (Nat.le_add_right _ _)
  | number _ hc hl => exact Nat.lt_add_of_pos_right (Lexeme.number_width_pos hc hl)
  | word _ hc hl =>
    rw [← hl]
    exact Nat.lt_add_of_pos_right (Lexeme.word_width_pos hc)
  | operator _ ho => exact Nat.lt_add_of_pos_right (Lexeme.operator?_width ho).1

/-- A token stands behind the white space ahead. -/
theorem Takes.position {t : Token} (h : Takes s (some t) s') :
    t.position = s.position + s.gap.length := by
  cases h <;> rfl

/-- Reading ends where the line does, since every token takes up a character at least. -/
theorem position_of_readTokens {count : Nat} (h : readTokens count s = .ok () s')
    (hc : s.rest.length ≤ count) : s'.position = s.reach := by
  induction count generalizing s with
  | zero =>
    cases h
    rw [reach, Nat.le_zero.mp hc, Nat.add_zero]
  | succ count ih =>
    obtain ⟨o, u, hnext, h⟩ := bind_eq_ok h
    have htakes := next?_takes hnext
    have hreach := htakes.reach
    cases o with
    | none =>
      cases h
      cases htakes with
      | nothing hr =>
        rw [reach, behind_position, ← hr]
    | some t =>
      have hforward := htakes.forward
      rw [htakes.position] at hforward
      have hrest := ih (s := u.found t) h (by
        simp only [Lexer.reach] at hreach
        rw [found_rest]
        omega)
      exact hrest.trans hreach

end Lexer

/-! ### Tokens in a line -/

/-- What stands in a line at the position of a token: a lexer there reads the token at once, or the
line ends there. -/
inductive Token.Stands (line : List Char) : Token → Prop
  | lexeme {t : Token} {s s' : Lexer} : s.Along line → s.position = t.position →
      Lexer.next? s = .ok (some t) s' → Stands line t
  | stop : Stands line ⟨.stop, "", line.length⟩

namespace Lexer

variable {s s' : Lexer} {line : List Char}

theorem Takes.stands {t : Token} (h : Takes s (some t) s') (hnext : next? s = .ok (some t) s')
    (ha : s.Along line) : t.Stands line := by
  have hgap : next? s = next? (s.behind s.gap.length) :=
    next?_behind_gap s.gap_append_rest.symm fun c hc => List.mem_takeWhile_imp hc
  rw [hgap] at hnext
  exact .lexeme (ha.behind s.gap.length) h.position.symm hnext

theorem stands_of_readTokens {count : Nat} (h : readTokens count s = .ok () s')
    (ha : s.Along line) (hs : ∀ t ∈ s.tokens.toList, t.Stands line) :
    ∀ t ∈ s'.tokens.toList, t.Stands line := by
  induction count generalizing s with
  | zero =>
    cases h
    exact hs
  | succ count ih =>
    obtain ⟨o, u, hnext, h⟩ := bind_eq_ok h
    have htakes := next?_takes hnext
    cases o with
    | none =>
      cases h
      rwa [htakes.tokens]
    | some t =>
      refine ih (s := u.found t) h ((htakes.along ha).found t) fun t' ht' => ?_
      rw [found_tokens, Array.toList_push, htakes.tokens, List.mem_append, List.mem_singleton] at ht'
      rcases ht' with ht' | rfl
      · exact hs t' ht'
      · exact htakes.stands hnext ha

end Lexer

/-- **Every token of a line stands at its position.** -/
theorem Token.ofLine_stands {line : String} {ts : List Token} (h : Token.ofLine line = .ok ts)
    {t : Token} (ht : t ∈ ts) : t.Stands line.toList := by
  obtain ⟨s, hread, rfl⟩ := ofLine_eq_ok h
  rcases List.mem_append.mp ht with ht | ht
  · refine Lexer.stands_of_readTokens hread (Lexer.along_start line) (fun t h => ?_) t ht
    cases h
  · have hend := Lexer.position_of_readTokens hread (le_refl _)
    rw [List.mem_singleton.mp ht, hend, Lexer.reach]
    show Stands _ ⟨.stop, "", 0 + line.toList.length⟩
    rw [Nat.zero_add]
    exact .stop

/-- The position of a token is an offset in the line or its length. -/
theorem Token.Stands.position_le {line : List Char} {t : Token} (h : t.Stands line) :
    t.position ≤ line.length := by
  cases h with
  | @lexeme _ s s' ha hp hnext =>
    rw [← hp]
    by_contra hlt
    have hrest : s.rest = [] := by
      rw [← ha]
      exact List.drop_eq_nil_of_le (Nat.le_of_not_le hlt)
    rw [Lexer.next?_nil hrest] at hnext
    cases hnext
  | stop => exact le_refl _

end WeiCalc

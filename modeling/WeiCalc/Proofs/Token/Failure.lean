import Mathlib
import WeiCalc.Proofs.Token.Next

/-!
# Where a line cannot be read

A line that is no row of tokens has a place where the lexer stops: a character that starts no token,
a backslash that escapes nothing, or a quote that is never closed.  The error has the offset of that
character in the line.

* `Lexeme.Obstacle`: what stands at an offset where a line cannot be read, and what is said of it.
* `Lexeme.quote_badEscape`: the backslash that a quoted text ends at.
* `Lexer.Along`: **the characters ahead of a lexer are those of the line behind its position.**
* `Token.ofLine_obstacle`: **a line that cannot be read has an obstacle where the error is.**
-/

namespace WeiCalc

namespace Lexeme

/-- What a line cannot be read on at: the character at an offset, by the cause that is given. -/
inductive Obstacle (line : List Char) : (position : Nat) → GrammarCause → Prop
  /-- A character that neither is white space nor starts a token. -/
  | character {position : Nat} {c : Char} {cs : List Char} : line.drop position = c :: cs →
      isSpace c = false → isQuote c = false → c.isDigit = false → isWordStart c = false →
      operator? (c :: cs) = Option.none → Obstacle line position (.unexpectedCharacter c)
  /-- A backslash in a quoted text, in front of no character that can be escaped. -/
  | escape {start : Nat} {mark : Char} {body cs : List Char} :
      line.drop start = mark :: (body ++ '\\' :: cs) → isQuote mark = true →
      (quote mark (body ++ '\\' :: cs)).ending = .badEscape cs.head? →
      cs.head?.bind escape? = Option.none →
      Obstacle line (start + 1 + body.length) (.invalidEscape cs.head?)
  /-- A quote behind which the line ends before the quote is closed. -/
  | quote {position : Nat} {mark : Char} {cs : List Char} : line.drop position = mark :: cs →
      isQuote mark = true → (quote mark cs).ending = .open →
      Obstacle line position .unterminatedText

/-- An obstacle is a character of the line. -/
theorem Obstacle.position_lt {line : List Char} {position : Nat} {cause : GrammarCause}
    (h : Obstacle line position cause) : position < line.length := by
  cases h with
  | character hd _ _ _ _ _ =>
    have hl := congrArg List.length hd
    simp only [List.length_drop, List.length_cons] at hl
    omega
  | escape hd _ _ _ =>
    have hl := congrArg List.length hd
    simp only [List.length_drop, List.length_cons, List.length_append] at hl
    omega
  | quote hd _ _ =>
    have hl := congrArg List.length hd
    simp only [List.length_drop, List.length_cons] at hl
    omega

/-- The backslash that a quoted text ends at, and the character that it does not escape. -/
theorem quote_badEscape {mark : Char} {cs : List Char} {d : Option Char}
    (h : (quote mark cs).ending = .badEscape d) :
    ∃ body ds, cs = body ++ '\\' :: ds ∧ ds.head? = d ∧ d.bind escape? = Option.none ∧
      (quote mark cs).contents.width = body.length + 2 := by
  fun_induction quote mark cs with
  | case1 => cases h
  | case2 cs => cases h
  | case3 hm =>
    cases h
    exact ⟨[], [], rfl, rfl, rfl, rfl⟩
  | case4 d' ds hm e he ih =>
    obtain ⟨body, rest, rfl, hd, hn, hw⟩ := ih h
    refine ⟨'\\' :: d' :: body, rest, rfl, hd, hn, ?_⟩
    simp only [Quote.cons, append, hw, List.length_cons]
    omega
  | case5 d' ds he =>
    cases h
    exact ⟨[], d' :: ds, rfl, rfl, he, rfl⟩
  | case6 c cs hm hb ih =>
    obtain ⟨body, rest, rfl, hd, hn, hw⟩ := ih h
    refine ⟨c :: body, rest, rfl, hd, hn, ?_⟩
    simp only [Quote.cons, append, hw, List.length_cons]
    omega

end Lexeme

namespace Lexer

/-! ### Positions in a line -/

/-- The characters ahead are those of the line behind the position. -/
def Along (s : Lexer) (line : List Char) : Prop := line.drop s.position = s.rest

theorem along_start (line : String) : (start line).Along line.toList := List.drop_zero

variable {s s' : Lexer} {line : List Char}

theorem Along.behind (h : s.Along line) (width : Nat) : (s.behind width).Along line := by
  rw [Along, behind_rest, behind_position, ← List.drop_drop, h]

theorem Along.found (h : s.Along line) (t : Token) : (s.found t).Along line := h

theorem Takes.along {o : Option Token} (h : Takes s o s') (ha : s.Along line) : s'.Along line := by
  cases h with
  | nothing _ => exact ha.behind _
  | quoted _ _ _ => exact ((ha.behind _).behind 1).behind _
  | number _ _ _ => exact (ha.behind _).behind _
  | word _ _ _ => exact (ha.behind _).behind _
  | operator _ _ => exact (ha.behind _).behind _

/-! ### Errors -/

/-- A quoted text that cannot be read ends at a backslash or is open. -/
theorem readText_obstacle {mark : Char} {cs : List Char} {e : EvalError} (ha : s.Along line)
    (hr : s.rest = mark :: cs) (hm : Lexeme.isQuote mark = true) (h : readText s = .error e s') :
    ∃ p cause, e = ⟨.grammar cause, some p⟩ ∧ Lexeme.Obstacle line p cause := by
  have hadvance : advance s = .ok s.rest[0]? (s.behind 1) := rfl
  have hrest : (s.behind 1).rest = cs := by
    simp [hr]
  rw [readText, bind_of_ok (get_run s), bind_of_ok hadvance, hr] at h
  dsimp only [List.getElem?_cons_zero] at h
  rw [bind_of_ok (get_run _), hrest, bind_of_ok (take_run _ _)] at h
  have hline : line.drop s.position = mark :: cs := by rw [ha, hr]
  cases hq : (Lexeme.quote mark cs).ending with
  | closed =>
    rw [hq] at h
    cases h
  | «open» =>
    rw [hq] at h
    cases h
    exact ⟨s.position, .unterminatedText, rfl, .quote hline hm hq⟩
  | badEscape d =>
    obtain ⟨body, ds, rfl, rfl, hn, hw⟩ := Lexeme.quote_badEscape hq
    rw [hq] at h
    cases h
    refine ⟨s.position + 1 + body.length, .invalidEscape ds.head?, ?_, .escape hline hm hq hn⟩
    show EvalError.mk _ (some (s.position + 1 + _ - 2)) = _
    rw [hw, ← Nat.add_assoc, Nat.add_sub_cancel]

/-- White space is passed over. -/
theorem not_isSpace_of_rest {c : Char} {cs : List Char}
    (h : (s.behind s.gap.length).rest = c :: cs) : Lexeme.isSpace c = false := by
  have hdrop : s.rest.dropWhile Lexeme.isSpace = c :: cs := by
    have hsplit : s.gap ++ s.rest.dropWhile Lexeme.isSpace = s.rest := List.takeWhile_append_dropWhile
    rw [← h]
    exact List.append_cancel_left (hsplit.trans s.gap_append_rest.symm)
  have hhead := List.head?_dropWhile_not Lexeme.isSpace s.rest
  rw [hdrop] at hhead
  exact Bool.eq_false_iff.mpr (by simpa using hhead)

/-- Reading a token fails at an obstacle. -/
theorem next?_obstacle {e : EvalError} (ha : s.Along line) (h : next? s = .error e s') :
    ∃ p cause, e = ⟨.grammar cause, some p⟩ ∧ Lexeme.Obstacle line p cause := by
  have ha' := ha.behind s.gap.length
  have hskip : skipSpace s = .ok () (s.behind s.gap.length) := skipSpace_run s
  rw [next?, bind_of_ok hskip, bind_of_ok (get_run _)] at h
  cases hr : (s.behind s.gap.length).rest with
  | nil =>
    rw [hr] at h
    cases h
  | cons c cs =>
    rw [hr] at h
    dsimp only at h
    -- Only a quoted text and a character that starts no token can fail.
    split at h
    · rename_i hc
      rcases bind_eq_error h with hx | ⟨x, t, -, h⟩
      · exact readText_obstacle ha' hr hc hx
      · cases h
    split at h
    · rename_i hc
      rcases bind_eq_error h with hx | ⟨x, t, -, h⟩
      · rw [readNumber, bind_of_ok (get_run _)] at hx
        cases hx
      · cases h
    split at h
    · rcases bind_eq_error h with hx | ⟨x, t, -, h⟩
      · cases hx
      · cases h
    rename_i hq hd hw
    cases ho : Lexeme.operator? (c :: cs) with
    | none =>
      rw [ho] at h
      cases h
      refine ⟨_, _, rfl, .character (by rw [ha', hr]) (not_isSpace_of_rest hr) ?_ ?_ ?_ ho⟩
      · exact Bool.eq_false_iff.mpr hq
      · exact Bool.eq_false_iff.mpr hd
      · exact Bool.eq_false_iff.mpr hw
    | some kl =>
      rw [ho] at h
      cases h

theorem readTokens_obstacle {e : EvalError} {count : Nat} (ha : s.Along line)
    (h : readTokens count s = .error e s') :
    ∃ p cause, e = ⟨.grammar cause, some p⟩ ∧ Lexeme.Obstacle line p cause := by
  induction count generalizing s with
  | zero => cases h
  | succ count ih =>
    rcases bind_eq_error h with hnext | ⟨o, t, ht, h⟩
    · exact next?_obstacle ha hnext
    · have hf := (next?_takes ht).along ha
      cases o with
      | none => cases h
      | some tk => exact ih (hf.found tk) h

end Lexer

/-- **A line that cannot be read has an obstacle where the error is.** -/
theorem Token.ofLine_obstacle {line : String} {e : EvalError} (h : Token.ofLine line = .error e) :
    ∃ p cause, e = ⟨.grammar cause, some p⟩ ∧ Lexeme.Obstacle line.toList p cause := by
  rw [Token.ofLine] at h
  cases hr : Lexer.tokenize (Lexer.start line) with
  | ok ts s =>
    rw [hr] at h
    cases h
  | error e' s =>
    rw [hr] at h
    cases h
    rw [Lexer.tokenize, bind_of_ok (get_run _)] at hr
    rcases bind_eq_error hr with hread | ⟨_, t, -, hr⟩
    · exact Lexer.readTokens_obstacle (Lexer.along_start line) hread
    · cases hr

end WeiCalc

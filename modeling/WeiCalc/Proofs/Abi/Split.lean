import Mathlib
import WeiCalc.Proofs.Text.Words
import WeiCalc.Proofs.Token.Next

/-!
# Lists of arguments in one text

A text that lists arguments is cut at its commas, and what is around the pieces is dropped: white
space, and a pair of quotes.  Texts that have neither, and no comma, come out of their list as they
went in.

* `Text.split_intercalate`: a list is cut where its pieces were joined.
* `Abi.splitArguments_intercalate`: **arguments listed in one text are read apart again.**
-/

namespace WeiCalc

namespace Text

variable {separator : Char} {gap cs : List Char}

/-! ### Cutting -/

theorem split_of_not_mem (h : separator ∉ cs) : split separator cs = [cs] := by
  induction cs with
  | nil => rfl
  | cons c cs ih =>
    rw [List.mem_cons, not_or] at h
    rw [split, if_neg (Ne.symm h.1), ih h.2]

theorem split_append (h : separator ∉ cs) (ds : List Char) :
    split separator (cs ++ separator :: ds) = cs :: split separator ds := by
  induction cs with
  | nil => rw [List.nil_append, split, if_pos rfl]
  | cons c cs ih =>
    rw [List.mem_cons, not_or] at h
    rw [List.cons_append, split, if_neg (Ne.symm h.1), ih h.2]

/-- Pieces that are joined by a separator and a gap are cut at the separators; by induction on the
pieces, where the first one already has a gap in front. -/
theorem split_intercalate (hg : separator ∉ gap) {first : List Char} (hf : separator ∉ first)
    {p : List Char} {ps : List (List Char)} (h : ∀ q ∈ p :: ps, separator ∉ q) :
    split separator (first ++ List.intercalate (separator :: gap) (p :: ps)) =
      (first ++ p) :: ps.map (gap ++ ·) := by
  induction ps generalizing first p with
  | nil =>
    rw [List.intercalate_singleton, List.map_nil]
    refine split_of_not_mem fun hm => ?_
    rcases List.mem_append.mp hm with hm | hm
    · exact hf hm
    · exact h p (List.mem_cons_self ..) hm
  | cons q qs ih =>
    have hp : separator ∉ first ++ p := by
      intro hm
      rcases List.mem_append.mp hm with hm | hm
      · exact hf hm
      · exact h p (List.mem_cons_self ..) hm
    have hrest := ih hg fun r hr => h r (List.mem_cons_of_mem _ hr)
    have hsplit := split_append hp (gap ++ List.intercalate (separator :: gap) (q :: qs))
    rw [hrest] at hsplit
    rw [List.intercalate_cons_cons, List.map_cons, ← hsplit]
    simp only [List.append_assoc, List.cons_append]

end Text

namespace Abi

/-- A text that stands for itself in a list of arguments. -/
def Bare (t : String) : Prop :=
  t.toList ≠ [] ∧
    ∀ c ∈ t.toList, c ≠ ',' ∧ Text.isBlank c = false ∧ Lexeme.isQuote c = false

theorem Bare.trim {t : String} (h : Bare t) : Text.trim t.toList = t.toList :=
  Text.trim_eq_self fun c hc => (h.2 c hc).2.1

/-- Only a quote in front can be one of the quotes around a piece. -/
theorem unquoted_of_head {cs : List Char}
    (h : ∀ c ∈ (Text.trim cs).head?, Lexeme.isQuote c = false) : unquoted cs = Text.trim cs := by
  rw [unquoted]
  split
  · rename_i c d rest he
    have hc := h c (by rw [he]; rfl)
    rw [Lexeme.isQuote, Bool.or_eq_false_iff, beq_eq_false_iff_ne, beq_eq_false_iff_ne] at hc
    rw [if_neg fun hq => hq.1.elim hc.1 hc.2]
  · rfl

variable {gap : List Char}

theorem unquoted_of_bare (hg : ∀ c ∈ gap, Text.isBlank c = true) {t : String} (h : Bare t) :
    unquoted (gap ++ t.toList) = t.toList := by
  have ht : Text.trim (gap ++ t.toList) = t.toList := by rw [Text.trim_append hg, h.trim]
  have hhead : ∀ c ∈ (Text.trim (gap ++ t.toList)).head?, Lexeme.isQuote c = false := by
    intro c hc
    rw [ht] at hc
    exact (h.2 c (List.mem_of_mem_head? hc)).2.2
  rw [unquoted_of_head hhead, ht]

theorem trim_list_ne_nil {t : String} {ts : List String} (h : ∀ u ∈ t :: ts, Bare u) :
    Text.trim (List.intercalate (',' :: gap) ((t :: ts).map String.toList)) ≠ [] := by
  have hbare := h t (List.mem_cons_self ..)
  obtain ⟨c, cs, hc⟩ := List.exists_cons_of_ne_nil hbare.1
  obtain ⟨r, hr⟩ : ∃ r, List.intercalate (',' :: gap) ((t :: ts).map String.toList) =
      c :: r := by
    cases ts with
    | nil => exact ⟨cs, by rw [List.map_singleton, List.intercalate_singleton, hc]⟩
    | cons u us =>
      rw [List.map_cons, List.map_cons, List.intercalate_cons_cons, hc, List.append_assoc,
        List.cons_append]
      exact ⟨_, rfl⟩
  rw [hr]
  exact Text.trim_ne_nil (hbare.2 c (by rw [hc]; exact List.mem_cons_self ..)).2.1 r

/-- **Arguments listed in one text are read apart again**, whatever white space is behind the
commas. -/
theorem splitArguments_intercalate (hg : ∀ c ∈ gap, Text.isBlank c = true) {ts : List String}
    (h : ∀ t ∈ ts, Bare t) :
    splitArguments (String.intercalate (String.ofList (',' :: gap)) ts) = ts := by
  cases ts with
  | nil => rfl
  | cons t ts =>
    have hlist : (String.intercalate (String.ofList (',' :: gap)) (t :: ts)).toList =
        List.intercalate (',' :: gap) ((t :: ts).map String.toList) := by
      rw [String.toList_intercalate, String.toList_ofList]
    have hcomma : ∀ q ∈ (t :: ts).map String.toList, ',' ∉ q := by
      intro q hq hm
      obtain ⟨u, hu, rfl⟩ := List.mem_map.mp hq
      exact ((h u hu).2 _ hm).1 rfl
    have hgap : ',' ∉ gap := fun hm => absurd (hg _ hm) (by decide)
    have hsplit : Text.split ',' (List.intercalate (',' :: gap) ((t :: ts).map String.toList)) =
        t.toList :: (ts.map String.toList).map (gap ++ ·) :=
      Text.split_intercalate hgap List.not_mem_nil hcomma
    have hfirst : unquoted t.toList = t.toList :=
      unquoted_of_bare (fun c hc => absurd hc List.not_mem_nil) (h t (List.mem_cons_self ..))
    rw [splitArguments, hlist, if_neg (by rw [List.isEmpty_iff]; exact trim_list_ne_nil h), hsplit,
      List.map_cons, List.map_map, List.map_map, hfirst, String.ofList_toList]
    congr 1
    refine (List.map_congr_left fun u hu => ?_).trans (List.map_id ts)
    show String.ofList (unquoted (gap ++ u.toList)) = u
    rw [unquoted_of_bare hg (h u (List.mem_cons_of_mem _ hu)), String.ofList_toList]

end Abi

end WeiCalc

import Mathlib
import WeiCalc.Proofs.Token.Integer

/-!
# Words and the white space around them

Texts that are put together from words and gaps of white space are taken apart again: trimming drops
the gaps around them, and the words of a text are the ones that it was made of.

* `trim_append`, `trim_gap_append`: what trimming leaves of a text behind a gap.
* `words_gap_append`, `words_append`: the words of a text that begins with a gap, or with a word.
-/

namespace WeiCalc.Text

/-- Nothing but white space. -/
def Blank (gap : List Char) : Prop := ∀ c ∈ gap, isBlank c = true

instance (gap : List Char) : Decidable (Blank gap) :=
  decidable_of_iff (gap.all isBlank = true) List.all_eq_true

/-- A text without white space. -/
def Solid (cs : List Char) : Prop := ∀ c ∈ cs, isBlank c = false

/-- A text that a word may stand in front of: it is empty or begins with white space. -/
def Apart (cs : List Char) : Prop := ∀ c ∈ cs.head?, isBlank c = true

instance (cs : List Char) : Decidable (Apart cs) :=
  decidable_of_iff (cs.head?.all isBlank = true) (by cases cs <;> simp [Apart])

/-- A text that neither begins nor ends with white space. -/
structure Tight (cs : List Char) : Prop where
  first : ∃ c ds, cs = c :: ds ∧ isBlank c = false
  last : ∃ ds c, cs = ds ++ [c] ∧ isBlank c = false

variable {gap cs w rest : List Char}

theorem Blank.nil : Blank [] := fun _ h => absurd h List.not_mem_nil

theorem Apart.nil : Apart [] := fun _ h => by cases h

theorem Solid.tight (h : Solid w) (hne : w ≠ []) : Tight w := by
  obtain ⟨c, ds, hc⟩ := List.exists_cons_of_ne_nil hne
  refine ⟨⟨c, ds, hc, h c (by rw [hc]; exact List.mem_cons_self ..)⟩, ?_⟩
  exact ⟨w.dropLast, w.getLast hne, (List.dropLast_append_getLast hne).symm,
    h _ (List.getLast_mem hne)⟩

theorem Tight.ne_nil (h : Tight cs) : cs ≠ [] := by
  obtain ⟨c, ds, rfl, _⟩ := h.first
  exact List.cons_ne_nil c ds

/-! ### Trimming -/

/-- White space is only dropped behind the last character that is none. -/
theorem trimEnd_append (h : Tight cs) (before rest : List Char) :
    trimEnd (before ++ (cs ++ rest)) = before ++ (cs ++ trimEnd rest) := by
  obtain ⟨ds, c, rfl, hc⟩ := h.last
  have he : before ++ (ds ++ [c] ++ rest) = before ++ ds ++ [c] ++ rest := by
    simp only [List.append_assoc]
  have hr : (before ++ ds ++ [c]).reverse.dropWhile isBlank = (before ++ ds ++ [c]).reverse := by
    rw [List.reverse_concat, List.dropWhile_cons_of_neg (by rw [hc]; decide)]
  rw [he, trimEnd, trimEnd, List.reverse_append, List.dropWhile_append, hr]
  split_ifs with hb
  · simp only [List.isEmpty_iff.mp hb, List.reverse_reverse, List.reverse_nil, List.append_nil,
      List.append_assoc]
  · simp only [List.reverse_append, List.reverse_reverse, List.append_assoc]

theorem trimEnd_blank (h : Blank gap) : trimEnd gap = [] := by
  have hd : gap.reverse.dropWhile isBlank = [] := by
    rw [List.dropWhile_eq_nil_iff]
    exact fun c hc => h c (List.mem_reverse.mp hc)
  rw [trimEnd, hd, List.reverse_nil]

theorem trimEnd_prefix (cs : List Char) : trimEnd cs <+: cs := List.rdropWhile_prefix isBlank cs

theorem Apart.trimEnd (h : Apart rest) : Apart (trimEnd rest) := by
  obtain ⟨ds, hd⟩ := trimEnd_prefix rest
  intro c hc
  refine h c ?_
  rw [← hd]
  exact List.mem_head?_append_of_mem_head? hc

/-- White space in front does not count. -/
theorem trim_append (h : Blank gap) (cs : List Char) : trim (gap ++ cs) = trim cs := by
  rw [trim, trimStart, List.dropWhile_append_of_pos h]
  rfl

/-- **What trimming leaves of a text behind a gap.** -/
theorem trim_gap_append (h : Blank gap) (hc : Tight cs) (rest : List Char) :
    trim (gap ++ (cs ++ rest)) = cs ++ trimEnd rest := by
  have hs : trimStart (cs ++ rest) = cs ++ rest := by
    obtain ⟨c, ds, rfl, hb⟩ := hc.first
    exact List.dropWhile_cons_of_neg (by rw [hb]; decide)
  rw [trim_append h, trim, hs]
  exact trimEnd_append hc [] rest

theorem trim_blank (h : Blank gap) : trim gap = [] := by
  rw [trim, trimStart, List.dropWhile_eq_nil_iff.mpr h]
  rfl

theorem Tight.trim (h : Tight cs) : trim cs = cs := by
  have ht := trim_gap_append .nil h []
  rwa [trimEnd_blank .nil, List.append_nil] at ht

/-- A text that has been trimmed does not end with white space. -/
theorem isBlank_getLast?_trim (cs : List Char) : ∀ c ∈ (trim cs).getLast?, isBlank c = false := by
  intro c hc
  rw [trim, trimEnd, List.getLast?_reverse] at hc
  have hd := List.head?_dropWhile_not isBlank (trimStart cs).reverse
  rwa [Option.mem_def.mp hc] at hd

theorem blank_of_trim_eq_nil (h : trim cs = []) : Blank cs := by
  have hd : (cs.dropWhile isBlank).reverse.dropWhile isBlank = [] := List.reverse_eq_nil_iff.mp h
  rw [List.dropWhile_eq_nil_iff] at hd
  have ht : ∀ c ∈ cs.dropWhile isBlank, isBlank c = true :=
    fun c hc => hd c (List.mem_reverse.mpr hc)
  intro c hc
  rw [← List.takeWhile_append_dropWhile (p := isBlank) (l := cs)] at hc
  rcases List.mem_append.mp hc with hc | hc
  · exact List.mem_takeWhile_imp hc
  · exact ht c hc

theorem trim_ne_nil {c : Char} (hc : isBlank c = false) (cs : List Char) : trim (c :: cs) ≠ [] := by
  intro h
  rw [blank_of_trim_eq_nil h c (List.mem_cons_self ..)] at hc
  cases hc

/-! ### Words -/

/-- A text without white space is cut off in front of a text that is apart from it. -/
theorem takeWhile_append (hs : Solid cs) (hr : Apart rest) :
    (cs ++ rest).takeWhile (!isBlank ·) = cs := by
  have ht : rest.takeWhile (!isBlank ·) = [] := by
    cases rest with
    | nil => rfl
    | cons c rest => rw [List.takeWhile_cons_of_neg (by rw [hr c rfl]; decide)]
  rw [List.takeWhile_append_of_pos fun c hc => by rw [hs c hc]; rfl, ht, List.append_nil]

theorem dropWhile_append (hs : Solid cs) (hr : Apart rest) :
    (cs ++ rest).dropWhile (!isBlank ·) = rest := by
  have ht : rest.dropWhile (!isBlank ·) = rest := by
    cases rest with
    | nil => rfl
    | cons c rest => rw [List.dropWhile_cons_of_neg (by rw [hr c rfl]; decide)]
  rw [List.dropWhile_append_of_pos fun c hc => by rw [hs c hc]; rfl, ht]

theorem words_gap_append (h : Blank gap) (cs : List Char) : words (gap ++ cs) = words cs := by
  induction gap with
  | nil => rfl
  | cons c gap ih =>
    have hg : Blank gap := fun d hd => h d (List.mem_cons_of_mem _ hd)
    rw [List.cons_append, words.eq_def]
    exact (if_pos (h c (List.mem_cons_self ..))).trans (ih hg)

theorem words_blank (h : Blank gap) : words gap = [] := by
  have hw := words_gap_append h []
  rwa [List.append_nil] at hw

/-- **A word in front of a text that is apart from it is the first of its words**, by induction on the
characters of the word. -/
theorem words_append (hw : Solid w) (hne : w ≠ []) (hr : Apart rest) :
    words (w ++ rest) = w :: words rest := by
  induction w with
  | nil => exact absurd rfl hne
  | cons c w ih =>
    have hc : ¬ isBlank c = true := by rw [hw c (List.mem_cons_self ..)]; decide
    have hs : Solid w := fun d hd => hw d (List.mem_cons_of_mem _ hd)
    rw [List.cons_append, words.eq_def]
    refine (if_neg hc).trans ?_
    cases w with
    | nil =>
      cases rest with
      | nil => rfl
      | cons d rest =>
        rw [List.nil_append]
        simp only [hr d rfl, if_true]
    | cons d w =>
      rw [ih hs (List.cons_ne_nil d w), List.cons_append]
      simp only [hs d (List.mem_cons_self ..), Bool.false_eq_true, if_false]

end WeiCalc.Text

import Mathlib
import WeiCalc.Proofs.Abi.Written
import WeiCalc.Proofs.Token.Next

/-!
# Signatures are read as they are written

The reader finds the closing parenthesis of a tuple, cuts lists at their commas, tells the words of a
parameter apart and counts array suffixes in separate loops.  They agree on every text that a signature
may be written as, at all levels of nesting.

* `Nested.closing`, `Nested.splitFrom_append`: texts with matching parentheses are passed as a whole.
* `elementary_of_spells`, `suffixed_suffixes`: elementary types and array suffixes.
* `param_of_writes`, `typeWith_of_writes`: parameters and types, given that what is nested in them is
  read.
* `typeWithin_of_writes`: **types, by induction on how many parentheses they open.**
* `ofText_of_writtenAs`: **signatures.**
-/

namespace WeiCalc

namespace Signature

open Text (Blank Solid Tight Apart)

/-! ### Scanning over parentheses -/

namespace Nested

variable {commas : Bool} {cs : List Char}

/-- A text that is nested has no effect on the search for a closing parenthesis. -/
theorem closing?_append (h : Nested commas cs) (depth : Nat) (ds : List Char) :
    closing? (depth + 1) (cs ++ ds) = (closing? (depth + 1) ds).map (· + cs.length) := by
  induction h generalizing depth ds with
  | nil => simp
  | @plain commas c cs hc _ ih =>
    rw [List.cons_append, closing?, if_neg hc.1, if_neg hc.2.1, ih, Option.map_map]
    rfl
  | @comma cs _ ih =>
    rw [List.cons_append, closing?, if_neg (by decide), if_neg (by decide), ih, Option.map_map]
    rfl
  | @parens commas inside cs _ _ ihi ih =>
    rw [List.cons_append, List.append_assoc, List.cons_append, closing?, if_pos rfl, ihi, closing?,
      if_neg (by decide), if_pos rfl, if_neg (by omega), Nat.add_sub_cancel, ih]
    simp only [Option.map_map]
    congr 1
    funext n
    simp only [Function.comp_apply, List.length_cons, List.length_append]
    omega

/-- The parenthesis in front of a nested text is closed behind it. -/
theorem closing (h : Nested commas cs) (before ds : List Char) :
    Signature.closing (before ++ '(' :: (cs ++ ')' :: ds)) before.length =
      .ok (before.length + (cs.length + 1)) := by
  have hc : closing? 0 ('(' :: (cs ++ ')' :: ds)) = some (cs.length + 1) := by
    rw [closing?, if_pos rfl, h.closing?_append, closing?, if_neg (by decide), if_pos rfl,
      if_pos (by decide), Option.map_some, Option.map_some, Nat.zero_add]
  rw [Signature.closing, List.drop_left, hc]

theorem closing_start (h : Nested commas cs) (ds : List Char) :
    Signature.closing ('(' :: (cs ++ ')' :: ds)) 0 = .ok (cs.length + 1) := by
  have hc := h.closing [] ds
  rwa [List.nil_append, List.length_nil, Nat.zero_add] at hc

/-- A character that does not separate pieces belongs to the current one. -/
theorem splitFrom_cons {c : Char} {depth : Nat} (ho : c ≠ '(') (hc : c ≠ ')')
    (hs : ¬ (c = ',' ∧ depth = 0)) (whole read cs : List Char) :
    splitFrom whole depth read (c :: cs) = splitFrom whole depth (c :: read) cs := by
  cases depth <;> rw [splitFrom, if_neg ho, if_neg hc, if_neg hs]

theorem splitFrom_open (whole : List Char) (depth : Nat) (read cs : List Char) :
    splitFrom whole depth read ('(' :: cs) = splitFrom whole (depth + 1) ('(' :: read) cs := by
  cases depth <;> rw [splitFrom, if_pos rfl]

theorem splitFrom_close (whole : List Char) (depth : Nat) (read cs : List Char) :
    splitFrom whole (depth + 1) read (')' :: cs) = splitFrom whole depth (')' :: read) cs := by
  rw [splitFrom, if_neg (by decide), if_pos rfl]

/-- A text that is nested stays in one piece, unless it has commas outside of all parentheses. -/
theorem splitFrom_append (h : Nested commas cs) {depth : Nat} (hd : commas = true → 0 < depth)
    (whole read ds : List Char) :
    splitFrom whole depth read (cs ++ ds) = splitFrom whole depth (cs.reverse ++ read) ds := by
  induction h generalizing depth read ds with
  | nil => rfl
  | @plain commas c cs hc _ ih =>
    rw [List.cons_append, splitFrom_cons hc.1 hc.2.1 fun h => hc.2.2 h.1, ih hd, List.reverse_cons,
      List.append_assoc]
    rfl
  | @comma cs _ ih =>
    have hp : 0 < depth := hd rfl
    rw [List.cons_append, splitFrom_cons (by decide) (by decide) (by omega), ih hd,
      List.reverse_cons, List.append_assoc]
    rfl
  | @parens commas inside cs _ _ ihi ih =>
    rw [List.cons_append, List.append_assoc, List.cons_append, splitFrom_open,
      ihi fun _ => Nat.succ_pos depth, splitFrom_close, ih hd]
    congr 1
    simp only [List.reverse_cons, List.reverse_append, List.append_assoc, List.cons_append,
      List.nil_append]

end Nested

theorem drop_parens (inside rest : List Char) :
    ('(' :: (inside ++ ')' :: rest)).drop (inside.length + 1 + 1) = rest := by
  simp

/-! ### Elementary types -/

/-- A name with a digit is no short name. -/
theorem lookup_aliases_of_isDigit {w : List Char} {c : Char} (hc : c ∈ w) (hd : c.isDigit = true) :
    aliases.lookup (String.ofList w) = none := by
  have hn : ∀ a ∈ aliases, ∀ c ∈ a.1.toList, c.isDigit = false := by simp [aliases, Char.isDigit]
  rw [List.lookup_eq_none_iff]
  intro a ha
  rw [bne_iff_ne]
  intro he
  have hd' := hn a ha c (by rwa [← he, String.toList_ofList])
  rw [hd] at hd'
  cases hd'

/-- **An elementary type is read as its canonical name.** -/
theorem elementary_of_spells {written name : List Char} (h : Spells written name) :
    elementary written = .ok (.elementary name) := by
  cases h with
  | plain hp =>
    have hn : ∀ s ∈ plainTypes, aliases.lookup s = none := by decide
    have hc := List.contains_iff_mem.mpr hp
    rw [elementary, hn _ hp]
    simp only [Option.getD_none, if_pos hc, String.toList_ofList]
  | @sized k ds hne hd ha =>
    obtain ⟨c, hc⟩ := List.exists_mem_of_ne_nil ds hne
    have hl := lookup_aliases_of_isDigit (List.mem_append_right k.text hc) (hd c hc)
    rw [elementary, hl]
    simp only [Option.getD_none, String.toList_ofList, SizedName.ofText?_append k hne hd, if_pos ha,
      ite_self]
  | @short written name ha =>
    have hn : ∀ a ∈ aliases, elementary a.1.toList = .ok (.elementary a.2.toList) := by
      simp only [aliases, List.forall_mem_cons]
      refine ⟨?_, ?_, ?_, fun a ha => absurd ha List.not_mem_nil⟩ <;> cbv
    exact hn (written, name) ha

/-! ### Array suffixes -/

theorem suffixed?_length {ds : List Char} (hd : ∀ c ∈ ds, c.isDigit = true) (t : AbiType)
    (read rest : List Char) :
    suffixed? t (some read) (ds ++ ']' :: rest) =
      suffixed? (.array t (read.reverse ++ ds)) none rest := by
  induction ds generalizing read with
  | nil => rw [List.nil_append, suffixed?, if_pos rfl, List.append_nil]
  | cons c ds ih =>
    have hc : c.isDigit = true := hd c (List.mem_cons_self ..)
    have hn : c ≠ ']' := by
      rintro rfl
      exact absurd hc (by decide)
    rw [List.cons_append, suffixed?, if_neg hn, if_pos hc,
      ih fun d hm => hd d (List.mem_cons_of_mem _ hm), List.reverse_cons, List.append_assoc,
      List.singleton_append]

theorem suffixed?_suffixes {lengths : List (List Char)} (hl : Lengths lengths) (t : AbiType) :
    suffixed? t none (suffixes lengths) = some (arrays t lengths) := by
  induction lengths generalizing t with
  | nil => rfl
  | cons ds lengths ih =>
    have hr : Lengths lengths := fun ds hm => hl ds (List.mem_cons_of_mem _ hm)
    rw [suffixes_cons, suffixed?, if_pos rfl, suffixed?_length (hl ds (List.mem_cons_self ..)),
      ih hr]
    rfl

/-- **Array suffixes make the array type that they write.** -/
theorem suffixed_suffixes {lengths : List (List Char)} (hl : Lengths lengths)
    (whole : List Char) (t : AbiType) :
    suffixed whole t (suffixes lengths) = .ok (arrays t lengths) := by
  have hf : (suffixes lengths).filter (· != ' ') = suffixes lengths := by
    rw [List.filter_eq_self]
    intro c hc
    rw [bne_iff_ne]
    rintro rfl
    exact absurd (inBrackets_of_mem hl hc) (by decide)
  rw [suffixed, hf, suffixed?_suffixes hl]

/-! ### Parameters -/

/-- The words behind a type that are no qualifiers. -/
def unqualified (rest : List Char) : List (List Char) :=
  (Text.words rest).filter fun w => !qualifiers.contains (String.ofList w)

theorem unqualified_blank {gap : List Char} (hg : Blank gap) : unqualified gap = [] := by
  rw [unqualified, Text.words_blank hg, List.filter_nil]

theorem unqualified_append {gap w rest : List Char} (hg : Blank gap) (hw : isName w = true)
    (hr : Apart rest) :
    unqualified (gap ++ (w ++ rest)) =
      if String.ofList w ∈ qualifiers then unqualified rest else w :: unqualified rest := by
  have hs : Solid w := solid_of_isNameChar (isNameChar_of_isName hw)
  rw [unqualified, Text.words_gap_append hg, Text.words_append hs (tight_of_isName hw).ne_nil hr,
    List.filter_cons]
  by_cases hq : String.ofList w ∈ qualifiers
  · rw [if_pos hq, if_neg (by rw [List.contains_iff_mem.mpr hq]; decide)]
    rfl
  · have hc : (!qualifiers.contains (String.ofList w)) = true := by
      rw [Bool.not_eq_true', ← Bool.not_eq_true, List.contains_iff_mem]
      exact hq
    rw [if_neg hq, if_pos hc]
    rfl

/-- The words behind a type are qualifiers and the name, if there is one. -/
theorem Behind.unqualified {rest name : List Char} (h : Behind rest name) :
    (name = [] ∧ unqualified rest = []) ∨ (isName name = true ∧ unqualified rest = [name]) := by
  induction h with
  | nothing hg => exact Or.inl ⟨rfl, unqualified_blank hg⟩
  | @qualifier gap rest name q hg hq hr _ ih =>
    rw [unqualified_append hg (isName_of_qualifier hq) hr, String.ofList_toList, if_pos hq]
    exact ih
  | @name gap w rest hg hn hq hr _ ih =>
    rw [unqualified_append hg hn hr, if_neg hq]
    rcases ih with ⟨_, he⟩ | ⟨he, _⟩
    · exact Or.inr ⟨hn, by rw [he]⟩
    · cases he

theorem nameOf_of_behind {rest name : List Char} (h : Behind rest name) (whole : List Char) :
    nameOf whole rest = .ok name := by
  rw [nameOf]
  rcases h.unqualified with ⟨rfl, hw⟩ | ⟨hn, hw⟩
  · rw [Signature.unqualified] at hw
    rw [hw]
  · rw [Signature.unqualified] at hw
    rw [hw]
    exact if_pos hn

/-- White space behind a parameter may be dropped. -/
theorem Behind.trimEnd {rest name : List Char} (h : Behind rest name) :
    Behind (Text.trimEnd rest) name := by
  induction h with
  | nothing hg =>
    rw [Text.trimEnd_blank hg]
    exact .nothing .nil
  | qualifier hg hq hr _ ih =>
    rw [Text.trimEnd_append (tight_of_isName (isName_of_qualifier hq))]
    exact .qualifier hg hq hr.trimEnd ih
  | name hg hn hq hr _ ih =>
    rw [Text.trimEnd_append (tight_of_isName hn)]
    exact .name hg hn hq hr.trimEnd ih

/-- What stands behind a type begins with white space or a word, if there is anything. -/
theorem Behind.first {rest name : List Char} (h : Behind rest name) :
    ∀ c ∈ rest.head?, Text.isBlank c = true ∨ isNameStart c = true := by
  have hword : ∀ {gap w rest : List Char}, Blank gap → isName w = true →
      ∀ c ∈ (gap ++ (w ++ rest)).head?, Text.isBlank c = true ∨ isNameStart c = true := by
    intro gap w rest hg hw c hc
    cases gap with
    | cons d gap =>
      cases hc
      exact Or.inl (hg c (List.mem_cons_self ..))
    | nil =>
      cases w with
      | nil => cases hw
      | cons d w =>
        cases hc
        rw [isName, Bool.and_eq_true] at hw
        exact Or.inr hw.1
  cases h with
  | nothing hg => exact fun c hc => Or.inl (hg c (List.mem_of_mem_head? hc))
  | qualifier hg hq _ _ => exact hword hg (isName_of_qualifier hq)
  | name hg hn _ _ _ => exact hword hg hn

/-- So it does not go on with the array suffixes of the type. -/
theorem Behind.takeWhile_eq_nil {rest name : List Char} (h : Behind rest name) :
    rest.takeWhile (fun c => c == '[' || c == ']' || c.isDigit) = [] := by
  cases rest with
  | nil => rfl
  | cons c rest =>
    refine List.takeWhile_cons_of_neg ?_
    rw [Bool.or_eq_true, Bool.or_eq_true, beq_iff_eq, beq_iff_eq]
    rintro ((rfl | rfl) | hd)
    · exact absurd (h.first '[' rfl) (by decide)
    · exact absurd (h.first ']' rfl) (by decide)
    · rcases h.first c rfl with hb | hs
      · rw [Text.isBlank_of_isDigit hd] at hb
        cases hb
      · rw [isNameStart, Bool.or_eq_true, beq_iff_eq] at hs
        rcases hs with hs | rfl
        · rw [Lexeme.not_isDigit_of_isWordStart hs] at hd
          cases hd
        · exact absurd hd (by decide)

/-- A tuple is cut off behind its array suffixes. -/
theorem typeAndRest_tuple {inside rest name : List Char} {lengths : List (List Char)}
    (hi : Nested true inside) (hl : Lengths lengths) (hr : Behind rest name) :
    typeAndRest ('(' :: (inside ++ [')']) ++ suffixes lengths ++ rest) =
      .ok ('(' :: (inside ++ [')']) ++ suffixes lengths, rest) := by
  have he : '(' :: (inside ++ [')']) ++ suffixes lengths ++ rest =
      '(' :: (inside ++ ')' :: (suffixes lengths ++ rest)) := by simp
  have hsuffix : (suffixes lengths ++ rest).takeWhile (fun c => c == '[' || c == ']' || c.isDigit) =
      suffixes lengths := by
    rw [List.takeWhile_append_of_pos fun c => inBrackets_of_mem hl, hr.takeWhile_eq_nil,
      List.append_nil]
  have hlen : ('(' :: (inside ++ [')']) ++ suffixes lengths).length =
      inside.length + 1 + 1 + (suffixes lengths).length := by
    simp
    omega
  rw [he, typeAndRest, hi.closing_start, except_ok_bind]
  dsimp only
  rw [drop_parens, hsuffix, ← he, List.take_left' hlen, List.drop_left' hlen]
  rfl

/-- A type is cut off in front of what stands behind it. -/
theorem typeAndRest_of_writes {t : AbiType} {cs rest name : List Char} (h : Writes (.type t) cs)
    (hr : Behind rest name) (ha : Apart rest ∨ cs.head? = some '(') :
    typeAndRest (cs ++ rest) = .ok (cs, rest) := by
  obtain ⟨b, w, lengths, hb, hl, rfl, rfl⟩ := h.base
  cases hb with
  | elementary hs =>
    obtain ⟨c, w, rfl⟩ := List.exists_cons_of_ne_nil hs.ne_nil
    have hc : c ≠ '(' := (plain_of_isNameChar (hs.isNameChar c (List.mem_cons_self ..))).1
    have ha : Apart rest := by
      refine ha.resolve_right fun h => hc ?_
      exact Option.some.inj h
    have hsolid : Solid (c :: w ++ suffixes lengths) := by
      intro d hd
      rcases List.mem_append.mp hd with hd | hd
      · exact isBlank_of_isNameChar (hs.isNameChar d hd)
      · exact isBlank_of_inBrackets (inBrackets_of_mem hl hd)
    rw [typeAndRest]
    · rw [Text.takeWhile_append hsolid ha, Text.dropWhile_append hsolid ha]
    · rintro tail he
      exact hc (List.cons.inj he).1
  | tuple hp => exact typeAndRest_tuple hp.nested hl hr

/-- **A parameter is read**, given that its type is. -/
theorem param_of_writes {readType : List Char → Reading AbiType} {p : Param} {cs : List Char}
    (h : Writes (.param p) cs)
    (hr : ∀ t ds, Writes (.type t) ds → ds.count '(' ≤ cs.count '(' → readType ds = .ok t) :
    param readType cs = .ok p := by
  cases h with
  | @param t gap ds rest name hg ht hb ha =>
    have hc : Text.trim (gap ++ (ds ++ rest)) = ds ++ Text.trimEnd rest :=
      Text.trim_gap_append hg ht.tight rest
    have hne : ¬ (ds ++ Text.trimEnd rest).isEmpty = true := by
      rw [List.isEmpty_iff, List.append_eq_nil_iff]
      exact fun h => ht.tight.ne_nil h.1
    have hread : readType ds = .ok t := by
      refine hr t ds ht ?_
      rw [List.count_append, List.count_append]
      omega
    rw [param, hc]
    dsimp only
    rw [if_neg hne, typeAndRest_of_writes ht hb.trimEnd (ha.imp_left Apart.trimEnd)]
    change (nameOf _ _ >>= _) = _
    rw [nameOf_of_behind hb.trimEnd]
    change (readType ds >>= _) = _
    rw [hread]
    rfl

/-! ### Lists of parameters -/

theorem mapM_of_forall₂ {ε α β : Type} {f : α → Except ε β} {xs : List α} {ys : List β}
    (h : List.Forall₂ (fun y x => f x = .ok y) ys xs) : xs.mapM f = .ok ys := by
  induction h with
  | nil => rfl
  | cons hx _ ih =>
    rw [List.mapM_cons, hx, ih]
    rfl

theorem Writes.not_blank_param {p : Param} {cs : List Char} (h : Writes (.param p) cs) :
    ¬ Blank cs := by
  cases h with
  | @param t gap ds rest name _ ht _ _ =>
    obtain ⟨c, es, rfl, hc⟩ := ht.tight.first
    intro hb
    rw [hb c (by simp)] at hc
    cases hc

theorem Writes.not_blank {ps : List Param} {cs : List Char} (h : Writes (.params ps) cs)
    (hne : ps ≠ []) : ¬ Blank cs := by
  cases h with
  | none _ => exact absurd rfl hne
  | last hp => exact hp.not_blank_param
  | more _ _ _ => exact fun hb => absurd (hb ',' (by simp)) (by decide)

/-- A list is blank if there are no parameters in it. -/
theorem Writes.isEmpty_trim_iff {ps : List Param} {cs : List Char} (h : Writes (.params ps) cs) :
    (Text.trim cs).isEmpty = true ↔ ps = [] := by
  rw [List.isEmpty_iff]
  constructor
  · intro ht
    by_contra hne
    exact h.not_blank hne (Text.blank_of_trim_eq_nil ht)
  · rintro rfl
    cases h with
    | none hg => exact Text.trim_blank hg

/-- No comma cuts a parameter. -/
theorem Writes.piece {p : Param} {cs : List Char} (h : Writes (.param p) cs)
    (whole ds : List Char) :
    splitFrom whole 0 [] (cs ++ ds) = splitFrom whole 0 cs.reverse ds := by
  have hs : splitFrom whole 0 [] (cs ++ ds) = splitFrom whole 0 (cs.reverse ++ []) ds :=
    h.nested.splitFrom_append nofun whole [] ds
  rwa [List.append_nil] at hs

/-- A list of parameters is cut into its parameters. -/
theorem Writes.parts : ∀ {ps : List Param} {cs : List Char}, Writes (.params ps) cs → ps ≠ [] →
    ∀ whole, ∃ parts, splitFrom whole 0 [] cs = .ok parts ∧
      List.Forall₂ (fun p part => Writes (.param p) part ∧ part.count '(' ≤ cs.count '(') ps parts
  | _, _, .none _, hne, _ => absurd rfl hne
  | _, _, @Writes.last _ cs h, _, whole => by
    have hs := h.piece whole []
    rw [List.append_nil, splitFrom, List.reverse_reverse] at hs
    exact ⟨[cs], hs, .cons ⟨h, le_refl _⟩ .nil⟩
  | _, _, @Writes.more _ _ cs ds h hn h', _, whole => by
    obtain ⟨parts, hp, hf⟩ := h'.parts hn whole
    have hs := h.piece whole (',' :: ds)
    rw [splitFrom, if_neg (by decide), if_neg (by decide), if_pos ⟨rfl, rfl⟩, hp,
      List.reverse_reverse] at hs
    refine ⟨cs :: parts, hs, .cons ⟨h, ?_⟩ (hf.imp fun p part hq => ⟨hq.1, le_trans hq.2 ?_⟩)⟩
    · rw [List.count_append]
      omega
    · rw [List.count_append, List.count_cons]
      omega

/-- **The parameters of a list are read**, given that each of them is. -/
theorem mapM_of_writes {α : Type} {f : List Char → Reading α} {g : Param → α} {ps : List Param}
    {cs : List Char} (h : Writes (.params ps) cs) (hne : ps ≠ [])
    (hf : ∀ p part, Writes (.param p) part → part.count '(' ≤ cs.count '(' → f part = .ok (g p)) :
    (do (← splitTop cs).mapM f : Reading (List α)) = .ok (ps.map g) := by
  obtain ⟨parts, hs, hp⟩ := h.parts hne cs
  have hm : List.Forall₂ (fun y x => f x = .ok y) (ps.map g) parts := by
    rw [List.forall₂_map_left_iff]
    exact hp.imp fun p part hq => hf p part hq.1 hq.2
  rw [splitTop, hs]
  exact mapM_of_forall₂ hm

/-! ### Types -/

section

variable {readType : List Char → Reading AbiType} {lengths : List (List Char)}

theorem typeWith_elementary {w name : List Char} (hs : Spells w name) (hl : Lengths lengths)
    (ht : Text.trim (w ++ suffixes lengths) = w ++ suffixes lengths) :
    typeWith readType (w ++ suffixes lengths) = .ok (arrays (.elementary name) lengths) := by
  have hw : ∀ c ∈ w, (c != '[') = true := by
    intro c hc
    rw [bne_iff_ne]
    rintro rfl
    exact absurd (hs.isNameChar '[' hc) (by decide)
  have htake : (w ++ suffixes lengths).takeWhile (· != '[') = w := by
    rw [List.takeWhile_append_of_pos hw]
    cases lengths with
    | nil => exact List.append_nil w
    | cons ds lengths => rw [suffixes_cons, List.takeWhile_cons_of_neg (by decide), List.append_nil]
  have hdrop : (w ++ suffixes lengths).dropWhile (· != '[') = suffixes lengths := by
    rw [List.dropWhile_append_of_pos hw]
    cases lengths with
    | nil => rfl
    | cons ds lengths => rw [suffixes_cons, List.dropWhile_cons_of_neg (by decide)]
  rw [typeWith, ht]
  dsimp only
  split
  · next he => exact absurd (List.append_eq_nil_iff.mp he).1 hs.ne_nil
  · next tail he =>
    obtain ⟨c, w, rfl⟩ := List.exists_cons_of_ne_nil hs.ne_nil
    obtain ⟨rfl, _⟩ := List.cons.inj he
    exact absurd (hs.isNameChar '(' (List.mem_cons_self ..)) (by decide)
  · rw [htake, hdrop, hs.tight.trim, elementary_of_spells hs, except_ok_bind,
      suffixed_suffixes hl]

theorem typeWith_tuple {ps : List Param} {inside : List Char} (hp : Writes (.params ps) inside)
    (hl : Lengths lengths)
    (ht : Text.trim ('(' :: (inside ++ [')']) ++ suffixes lengths) =
      '(' :: (inside ++ [')']) ++ suffixes lengths)
    (hr : ∀ p part, Writes (.param p) part → part.count '(' ≤ inside.count '(' →
      param readType part = .ok p) :
    typeWith readType ('(' :: (inside ++ [')']) ++ suffixes lengths) =
      .ok (arrays (.tuple (ps.map Param.type)) lengths) := by
  have he : '(' :: (inside ++ [')']) ++ suffixes lengths =
      '(' :: (inside ++ ')' :: suffixes lengths) := by simp
  have hinside : (('(' :: (inside ++ ')' :: suffixes lengths)).take (inside.length + 1)).drop 1 =
      inside := by
    rw [List.take_succ_cons, List.take_left, List.drop_succ_cons, List.drop_zero]
  rw [typeWith, ht, he]
  dsimp only
  rw [hp.nested.closing_start, except_ok_bind, hinside, drop_parens]
  by_cases hps : ps = []
  · rw [if_pos (hp.isEmpty_trim_iff.mpr hps), hps]
    exact suffixed_suffixes hl _ _
  · have hm : (do (← splitTop inside).mapM fun part => return (← param readType part).type :
        Reading (List AbiType)) = .ok (ps.map Param.type) := by
      refine mapM_of_writes hp hps fun p part hw hle => ?_
      rw [hr p part hw hle]
      rfl
    rw [if_neg (mt hp.isEmpty_trim_iff.mp hps)]
    refine (bind_assoc _ _ _).symm.trans ?_
    rw [hm]
    exact suffixed_suffixes hl _ _

end

/-- **A type is read**, given that the parameters in it are. -/
theorem typeWith_of_writes {readType : List Char → Reading AbiType} {t : AbiType} {cs : List Char}
    (h : Writes (.type t) cs)
    (hr : ∀ p part, Writes (.param p) part → part.count '(' < cs.count '(' →
      param readType part = .ok p) : typeWith readType cs = .ok t := by
  have ht : Text.trim cs = cs := h.tight.trim
  obtain ⟨b, w, lengths, hb, hl, rfl, rfl⟩ := h.base
  cases hb with
  | elementary hs => exact typeWith_elementary hs hl ht
  | @tuple ps inside hp =>
    refine typeWith_tuple hp hl ht fun p part hw hle => hr p part hw ?_
    rw [List.count_append, List.count_cons_self, List.count_append]
    omega

/-- **Types are read as they are written**, by induction on how many parentheses they may open. -/
theorem typeWithin_of_writes (levels : Nat) :
    ∀ (t : AbiType) (cs : List Char), Writes (.type t) cs → cs.count '(' ≤ levels →
      typeWithin levels cs = .ok t := by
  induction levels with
  | zero =>
    intro t cs h hn
    exact typeWith_of_writes h fun p part _ hlt => absurd hlt (by omega)
  | succ levels ih =>
    intro t cs h hn
    refine typeWith_of_writes h fun p part hp hlt => ?_
    exact param_of_writes hp fun t ds ht hle => ih t ds ht (by omega)

theorem readType_of_writes {t : AbiType} {cs : List Char} (h : Writes (.type t) cs) :
    readType cs = .ok t := typeWithin_of_writes _ t cs h (le_refl _)

/-! ### Signatures -/

/-- The name and the parameters of a signature are told apart. -/
theorem nameAndBody_of_isName {name body : List Char} (hn : IsNameOrEmpty name)
    (hb : Nested true body) :
    nameAndBody (name ++ '(' :: (body ++ [')'])) = .ok (name, body) := by
  have hbefore : (name ++ '(' :: (body ++ [')'])).takeWhile (· != '(') = name := by
    have hw : ∀ c ∈ name, (c != '(') = true := by
      intro c hc
      rw [bne_iff_ne]
      rintro rfl
      rcases hn with rfl | hn
      · cases hc
      · exact absurd (isNameChar_of_isName hn '(' hc) (by decide)
    rw [List.takeWhile_append_of_pos hw, List.takeWhile_cons_of_neg (by decide), List.append_nil]
  have hlen : (name ++ '(' :: (body ++ [')'])).length = name.length + (body.length + 1) + 1 := by
    simp
    omega
  have hbody : ((name ++ '(' :: (body ++ [')'])).take (name.length + (body.length + 1))).drop
      (name.length + 1) = body := by
    have hstop : name ++ '(' :: (body ++ [')']) = name ++ '(' :: body ++ [')'] := by simp
    have hstart : name ++ '(' :: body = name ++ ['('] ++ body := by simp
    rw [hstop, List.take_left' (by simp), hstart]
    exact List.drop_left' (by simp)
  have hc := hb.closing name []
  rw [nameAndBody]
  dsimp only
  rw [hbefore, if_neg (by omega)]
  rcases hn with rfl | hn
  · simp only [List.length_nil, Nat.zero_add] at hlen hbody hc
    rw [if_pos List.isEmpty_nil, hc, except_ok_bind, if_pos hlen.symm, hbody]
    rfl
  · rw [if_neg (by rw [List.isEmpty_iff]; exact (tight_of_isName hn).ne_nil),
      (tight_of_isName hn).trim, if_pos hn, hc, except_ok_bind, if_neg (by omega), hbody]
    rfl

theorem read_of_writtenAs {s : Signature} {text : String} (h : s.WrittenAs text.toList) :
    read text = .ok s := by
  obtain ⟨body, hp, he⟩ := h.params
  have ht : Tight (s.name ++ '(' :: (body ++ [')'])) := by
    refine ⟨?_, ⟨s.name ++ '(' :: body, ')', by simp, by decide⟩⟩
    rcases h.name with hn | hn
    · exact ⟨'(', _, by rw [hn]; rfl, by decide⟩
    · obtain ⟨c, ds, he, hc⟩ := (tight_of_isName hn).first
      exact ⟨c, _, by rw [he]; rfl, hc⟩
  rw [read, he, ht.trim, nameAndBody_of_isName h.name hp.nested, except_ok_bind]
  dsimp only
  by_cases hps : s.params = []
  · rw [if_pos (hp.isEmpty_trim_iff.mpr hps), ← hps]
    rfl
  · have hm : (do (← splitTop body).mapM (param readType) : Reading (List Param)) = .ok s.params := by
      have hm := mapM_of_writes hp hps fun p part hw _ =>
        param_of_writes hw fun t ds ht _ => readType_of_writes ht
      rwa [List.map_id'] at hm
    rw [if_neg (mt hp.isEmpty_trim_iff.mp hps)]
    refine (bind_assoc _ _ _).symm.trans ?_
    rw [hm]
    rfl

/-- **A signature is read as it is written**: the name is found, every type has its canonical form, and
every parameter the name that it was written with. -/
theorem ofText_of_writtenAs {s : Signature} {text : String} (h : s.WrittenAs text.toList) :
    ofText text = .ok s := by
  rw [ofText, read_of_writtenAs h]
  rfl

/-- An array of tuples with names and qualifiers, and white space of several kinds. -/
theorem ofText_of_writtenAs_swap :
    let s : Signature := ⟨"swap".toList, [
      ⟨.array (.tuple [.elementary "uint256".toList, .array (.elementary "bytes1".toList) ['2']]) [],
        "pairs".toList⟩,
      ⟨.elementary "bool".toList, []⟩]⟩
    s.WrittenAs "swap((uint amount, byte[2] memory)[]calldata  pairs\t,\nbool )".toList ∧
      ofText "swap((uint amount, byte[2] memory)[]calldata  pairs\t,\nbool )" = .ok s := by
  intro s
  have huint : Spells "uint".toList "uint256".toList := .short (List.mem_cons_self ..)
  have hbyte : Spells "byte".toList "bytes1".toList := .short (by decide)
  have hbool : Spells "bool".toList "bool".toList := .plain (by decide)
  have hamount : Writes (.param ⟨.elementary "uint256".toList, "amount".toList⟩)
      ([] ++ ("uint".toList ++ ([' '] ++ ("amount".toList ++ [])))) :=
    .param .nil (.elementary huint)
      (.name (by decide) rfl (by decide) .nil (.nothing .nil)) (Or.inl (by decide))
  have hbytes : Writes (.param ⟨.array (.elementary "bytes1".toList) ['2'], []⟩)
      ([' '] ++ ("byte".toList ++ '[' :: (['2'] ++ [']']) ++ ([' '] ++ ("memory".toList ++ [])))) :=
    .param (by decide) (.array (.elementary hbyte) (by simp))
      (.qualifier (by decide) (by decide) .nil (.nothing .nil)) (Or.inl (by decide))
  have htuple : Writes (.type (.array (.tuple [.elementary "uint256".toList,
      .array (.elementary "bytes1".toList) ['2']]) [])) _ :=
    .array (.tuple (.more hamount (by decide) (.last hbytes))) (by simp)
  have hname : Behind (([] : List Char) ++
      ("calldata".toList ++ ("  ".toList ++ ("pairs".toList ++ ['\t'])))) "pairs".toList :=
    .qualifier .nil (by decide) (by decide)
      (.name (by decide) rfl (by decide) (by decide) (.nothing (by decide)))
  have hok : Writes (.param ⟨.elementary "bool".toList, []⟩)
      (['\n'] ++ ("bool".toList ++ [' '])) :=
    .param (by decide) (.elementary hbool) (.nothing (by decide)) (Or.inl (by decide))
  have hw : s.WrittenAs
      "swap((uint amount, byte[2] memory)[]calldata  pairs\t,\nbool )".toList :=
    ⟨Or.inr rfl, _, .more (.param .nil htuple hname (Or.inr rfl)) (by decide) (.last hok), rfl⟩
  exact ⟨hw, ofText_of_writtenAs hw⟩

end Signature

end WeiCalc

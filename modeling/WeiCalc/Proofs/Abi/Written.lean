import Mathlib
import WeiCalc.Proofs.Abi.Signature
import WeiCalc.Proofs.Text.Words

/-!
# How signatures are written

The texts that stand for a type, for a parameter and for a signature: short names of types may be
used, components of tuples may have names, qualifiers may stand behind types, and white space may
surround parameters and separate their words.  None of this is said in terms of the reader.

* `Writes`: the texts of types, parameters and lists of them.
* `WrittenAs`: the texts of signatures.
* `Writes.nested`: parentheses in such a text match, and the commas that separate no parameters of the
  list are within them.
* `Writes.base`: the text of a type is that of an elementary type or a tuple, with array suffixes.
-/

namespace WeiCalc

namespace Signature

open Text (Blank Solid Tight Apart)

/-! ### The texts of signatures -/

/-- How an elementary type is written, and its canonical name. -/
inductive Spells : (written name : List Char) → Prop
  | plain {name : List Char} : String.ofList name ∈ plainTypes → Spells name name
  | sized {k : SizedName} {ds : List Char} : ds ≠ [] → (∀ c ∈ ds, c.isDigit = true) →
      k.admits (Text.ofDecimal ds) = true → Spells (k.text ++ ds) (k.text ++ ds)
  | short {written name : String} : (written, name) ∈ aliases → Spells written.toList name.toList

/-- What may stand behind the type of a parameter, and the name in it, which is empty if there is
none.  Words are separated by white space. -/
inductive Behind : (rest name : List Char) → Prop
  | nothing {gap : List Char} : Blank gap → Behind gap []
  | qualifier {gap rest name : List Char} {q : String} : Blank gap → q ∈ qualifiers →
      Apart rest → Behind rest name → Behind (gap ++ (q.toList ++ rest)) name
  | name {gap w rest : List Char} : Blank gap → isName w = true → String.ofList w ∉ qualifiers →
      Apart rest → Behind rest [] → Behind (gap ++ (w ++ rest)) w

/-- What a part of a signature stands for. -/
inductive Phrase where
  | type (t : AbiType)
  | param (p : Param)
  | params (ps : List Param)

/-- **The texts that a part of a signature may be written as.**  A tuple is written as a list of
parameters, of which it keeps the types.  What stands behind a tuple need not be apart from it. -/
inductive Writes : Phrase → List Char → Prop
  | elementary {written name : List Char} : Spells written name →
      Writes (.type (.elementary name)) written
  | tuple {ps : List Param} {inside : List Char} : Writes (.params ps) inside →
      Writes (.type (.tuple (ps.map Param.type))) ('(' :: (inside ++ [')']))
  | array {t : AbiType} {cs length : List Char} : Writes (.type t) cs →
      (∀ c ∈ length, c.isDigit = true) →
      Writes (.type (.array t length)) (cs ++ '[' :: (length ++ [']']))
  | param {t : AbiType} {gap cs rest name : List Char} : Blank gap → Writes (.type t) cs →
      Behind rest name → (Apart rest ∨ cs.head? = some '(') →
      Writes (.param ⟨t, name⟩) (gap ++ (cs ++ rest))
  | none {gap : List Char} : Blank gap → Writes (.params []) gap
  | last {p : Param} {cs : List Char} : Writes (.param p) cs → Writes (.params [p]) cs
  | more {p : Param} {ps : List Param} {cs ds : List Char} : Writes (.param p) cs → ps ≠ [] →
      Writes (.params ps) ds → Writes (.params (p :: ps)) (cs ++ ',' :: ds)

/-- **The texts that a signature may be written as**: a list of parameters in parentheses, behind its
name if it has one. -/
structure WrittenAs (s : Signature) (cs : List Char) : Prop where
  name : IsNameOrEmpty s.name
  params : ∃ body, Writes (.params s.params) body ∧ cs = s.name ++ '(' :: (body ++ [')'])

/-! ### Parentheses and commas -/

/-- A character that does not structure a signature. -/
def Plain (c : Char) : Prop := c ≠ '(' ∧ c ≠ ')' ∧ c ≠ ','

instance (c : Char) : Decidable (Plain c) := inferInstanceAs (Decidable (_ ∧ _))

/-- Texts in which parentheses match.  If `commas` does not hold, then commas are in parentheses. -/
inductive Nested : (commas : Bool) → List Char → Prop
  | nil {commas : Bool} : Nested commas []
  | plain {commas : Bool} {c : Char} {cs : List Char} : Plain c → Nested commas cs →
      Nested commas (c :: cs)
  | comma {cs : List Char} : Nested true cs → Nested true (',' :: cs)
  | parens {commas : Bool} {inside cs : List Char} : Nested true inside → Nested commas cs →
      Nested commas ('(' :: (inside ++ ')' :: cs))

namespace Nested

variable {commas : Bool} {cs ds : List Char}

theorem of_plain (h : ∀ c ∈ cs, Plain c) : Nested commas cs := by
  induction cs with
  | nil => exact .nil
  | cons c cs ih =>
    exact .plain (h c (List.mem_cons_self ..)) (ih fun d hd => h d (List.mem_cons_of_mem _ hd))

theorem append (h : Nested commas cs) (h' : Nested commas ds) : Nested commas (cs ++ ds) := by
  induction h with
  | nil => exact h'
  | plain hc _ ih => exact .plain hc (ih h')
  | comma _ ih => exact .comma (ih h')
  | @parens commas inside cs hi _ _ ih =>
    rw [List.cons_append, List.append_assoc, List.cons_append]
    exact .parens hi (ih h')

/-- Commas may be allowed where there are none. -/
theorem any (h : Nested commas cs) : Nested true cs := by
  induction h with
  | nil => exact .nil
  | plain hc _ ih => exact .plain hc ih
  | comma _ ih => exact .comma ih
  | parens hi _ _ ih => exact .parens hi ih

end Nested

/-! ### The characters of words -/

theorem isNameChar_of_isDigit {c : Char} (h : c.isDigit = true) : isNameChar c = true := by
  rw [isNameChar, Char.isAlphanum, h, Bool.or_true, Bool.true_or, Bool.true_or]

/-- Characters of a kind that parentheses and commas are not of do not structure a signature. -/
theorem plain_of {p : Char → Bool} {c : Char} (h : p c = true)
    (hp : p '(' = false ∧ p ')' = false ∧ p ',' = false) : Plain c := by
  refine ⟨?_, ?_, ?_⟩
  · rintro rfl
    rw [hp.1] at h
    cases h
  · rintro rfl
    rw [hp.2.1] at h
    cases h
  · rintro rfl
    rw [hp.2.2] at h
    cases h

theorem plain_of_isNameChar {c : Char} (h : isNameChar c = true) : Plain c := plain_of h (by decide)

theorem plain_of_isBlank {c : Char} (h : Text.isBlank c = true) : Plain c := plain_of h (by decide)

theorem plain_of_isDigit {c : Char} (h : c.isDigit = true) : Plain c :=
  plain_of_isNameChar (isNameChar_of_isDigit h)

theorem isBlank_of_isNameChar {c : Char} (h : isNameChar c = true) : Text.isBlank c = false := by
  rw [isNameChar, Bool.or_eq_true, Bool.or_eq_true, beq_iff_eq, beq_iff_eq] at h
  rcases h with (h | rfl) | rfl
  · have hc := toNat_of_isAlphanum h
    simp only [Text.isBlank, Bool.or_eq_false_iff, Bool.and_eq_false_iff, decide_eq_false_iff_not,
      beq_eq_false_iff_ne]
    omega
  · decide
  · decide

theorem solid_of_isNameChar {w : List Char} (h : ∀ c ∈ w, isNameChar c = true) : Solid w :=
  fun c hc => isBlank_of_isNameChar (h c hc)

theorem tight_of_isName {w : List Char} (h : isName w = true) : Tight w := by
  refine (solid_of_isNameChar (isNameChar_of_isName h)).tight ?_
  rintro rfl
  cases h

theorem isName_of_qualifier {q : String} (h : q ∈ qualifiers) : isName q.toList = true := by
  have hq : ∀ q ∈ qualifiers, isName q.toList = true := by
    simp [qualifiers, isName, isNameStart, isNameChar]
  exact hq q h

theorem Spells.isNameChar {written name : List Char} (h : Spells written name) :
    ∀ c ∈ written, isNameChar c = true := by
  cases h with
  | plain hp =>
    have hn : ∀ s ∈ plainTypes, ∀ c ∈ s.toList, Signature.isNameChar c = true := by
      simp [plainTypes, Signature.isNameChar]
    have hn' := hn _ hp
    rwa [String.toList_ofList] at hn'
  | @sized k ds _ hd _ =>
    have hk : ∀ c ∈ k.text, Signature.isNameChar c = true := by
      cases k <;> simp [SizedName.text, Signature.isNameChar]
    intro c hc
    rcases List.mem_append.mp hc with hc | hc
    · exact hk c hc
    · exact isNameChar_of_isDigit (hd c hc)
  | short ha =>
    have hn : ∀ a ∈ aliases, ∀ c ∈ a.1.toList, Signature.isNameChar c = true := by
      simp [aliases, Signature.isNameChar]
    exact hn _ ha

theorem Spells.ne_nil {written name : List Char} (h : Spells written name) : written ≠ [] := by
  cases h with
  | plain hp =>
    rintro rfl
    exact absurd hp (by decide)
  | sized hne => exact List.append_ne_nil_of_right_ne_nil _ hne
  | short ha =>
    have hn : ∀ a ∈ aliases, a.1.toList ≠ [] := by decide
    exact hn _ ha

theorem Spells.tight {written name : List Char} (h : Spells written name) : Tight written :=
  (solid_of_isNameChar h.isNameChar).tight h.ne_nil

theorem Behind.plain {rest name : List Char} (h : Behind rest name) : ∀ c ∈ rest, Plain c := by
  have hword : ∀ {gap w rest : List Char}, Blank gap → (∀ c ∈ w, isNameChar c = true) →
      (∀ c ∈ rest, Plain c) → ∀ c ∈ gap ++ (w ++ rest), Plain c := by
    intro gap w rest hg hw hr c hc
    rw [List.mem_append, List.mem_append] at hc
    rcases hc with hc | hc | hc
    · exact plain_of_isBlank (hg c hc)
    · exact plain_of_isNameChar (hw c hc)
    · exact hr c hc
  induction h with
  | nothing hg => exact fun c hc => plain_of_isBlank (hg c hc)
  | qualifier hg hq _ _ ih => exact hword hg (isNameChar_of_isName (isName_of_qualifier hq)) ih
  | name hg hw _ _ _ ih => exact hword hg (isNameChar_of_isName hw) ih

/-! ### The shape of what is written -/

/-- May commas stand outside of parentheses? -/
def Phrase.hasCommas : Phrase → Bool
  | .params _ => true
  | _ => false

/-- **Parentheses match, and the only commas outside of them separate the parameters of a list.** -/
theorem Writes.nested {ph : Phrase} {cs : List Char} (h : Writes ph cs) :
    Nested ph.hasCommas cs := by
  induction h with
  | elementary hs => exact .of_plain fun c hc => plain_of_isNameChar (hs.isNameChar c hc)
  | tuple _ ih => exact .parens ih .nil
  | array _ hl ih =>
    refine ih.append (.plain (by decide) (.append ?_ (.plain (by decide) .nil)))
    exact .of_plain fun c hc => plain_of_isDigit (hl c hc)
  | param hg _ hr _ ih =>
    refine .append (.of_plain fun c hc => plain_of_isBlank (hg c hc)) (ih.append ?_)
    exact .of_plain hr.plain
  | none hg => exact .of_plain fun c hc => plain_of_isBlank (hg c hc)
  | last _ ih => exact ih.any
  | more _ _ _ ih ih' => exact ih.any.append (.comma ih')

/-- A type, and the text of it, in front of array suffixes. -/
inductive Base : AbiType → List Char → Prop
  | elementary {written name : List Char} : Spells written name → Base (.elementary name) written
  | tuple {ps : List Param} {inside : List Char} : Writes (.params ps) inside →
      Base (.tuple (ps.map Param.type)) ('(' :: (inside ++ [')']))

/-- Arrays of arrays of a type, the innermost length first. -/
def arrays (t : AbiType) (lengths : List (List Char)) : AbiType :=
  lengths.foldl .array t

/-- The array suffixes of given lengths. -/
def suffixes (lengths : List (List Char)) : List Char :=
  lengths.flatMap fun ds => '[' :: (ds ++ [']'])

theorem suffixes_cons (ds : List Char) (lengths : List (List Char)) :
    suffixes (ds :: lengths) = '[' :: (ds ++ ']' :: suffixes lengths) := by
  rw [suffixes, List.flatMap_cons, List.cons_append, List.append_assoc]
  rfl

/-- Lengths that are written in digits. -/
def Lengths (lengths : List (List Char)) : Prop := ∀ ds ∈ lengths, ∀ c ∈ ds, c.isDigit = true

theorem inBrackets_of_mem {lengths : List (List Char)} (h : Lengths lengths) {c : Char}
    (hc : c ∈ suffixes lengths) : (c == '[' || c == ']' || c.isDigit) = true := by
  obtain ⟨ds, hd, hc⟩ := List.mem_flatMap.mp hc
  rw [List.mem_cons, List.mem_append, List.mem_singleton] at hc
  rcases hc with rfl | hc | rfl
  · rfl
  · rw [h ds hd c hc, Bool.or_true]
  · rfl

theorem isBlank_of_inBrackets {c : Char} (h : (c == '[' || c == ']' || c.isDigit) = true) :
    Text.isBlank c = false := by
  rw [Bool.or_eq_true, Bool.or_eq_true, beq_iff_eq, beq_iff_eq] at h
  rcases h with (rfl | rfl) | h
  · decide
  · decide
  · exact Text.isBlank_of_isDigit h

/-- **The text of a type is that of an elementary type or a tuple, with array suffixes.** -/
theorem Writes.base : ∀ {t : AbiType} {cs : List Char}, Writes (.type t) cs →
    ∃ b w lengths, Base b w ∧ Lengths lengths ∧ t = arrays b lengths ∧ cs = w ++ suffixes lengths
  | _, _, .elementary hs => ⟨_, _, [], .elementary hs, nofun, rfl, (List.append_nil _).symm⟩
  | _, _, .tuple hp => ⟨_, _, [], .tuple hp, nofun, rfl, (List.append_nil _).symm⟩
  | _, _, @Writes.array _ _ ds h hl => by
    obtain ⟨b, w, lengths, hb, hd, rfl, rfl⟩ := h.base
    refine ⟨b, w, lengths ++ [ds], hb, ?_, ?_, ?_⟩
    · intro ds' hm
      rcases List.mem_append.mp hm with hm | hm
      · exact hd ds' hm
      · rw [List.mem_singleton.mp hm]
        exact hl
    · rw [arrays, arrays, List.foldl_concat]
    · rw [suffixes, suffixes, List.flatMap_append, List.flatMap_singleton, List.append_assoc]

/-- A type neither begins nor ends with white space. -/
theorem Writes.tight : ∀ {t : AbiType} {cs : List Char}, Writes (.type t) cs → Tight cs
  | _, _, .elementary hs => hs.tight
  | _, _, @Writes.tuple _ inside _ =>
    ⟨⟨'(', _, rfl, by decide⟩, ⟨'(' :: inside, ')', rfl, by decide⟩⟩
  | _, _, @Writes.array _ _ ds h _ => by
    obtain ⟨c, cs, rfl, hc⟩ := h.tight.first
    exact ⟨⟨c, _, rfl, hc⟩, ⟨c :: cs ++ '[' :: ds, ']', by simp, by decide⟩⟩

end Signature

end WeiCalc

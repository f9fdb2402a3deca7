import Mathlib
import WeiCalc.Proofs.Token.Integer

/-!
# The types of signatures that are read

A signature that is read holds admitted types only: sizes are sizes of the contract interface, array
lengths are digits and names are names.  A type that the codec takes for a sized one is an
elementary type of that size.

* `Closed.of_read`: what holds of elementary types and is kept up by tuples and arrays holds of every
  type that is read.
* `wellformed_of_ofText`: a signature that is read is well-formed.
* `Admitted.admits`: the sized types among its types have a size of the contract interface.
* `Wellformed.ascii`: its canonical text is plain ASCII.
-/

namespace WeiCalc

/-- The types of the contract interface. -/
inductive AbiType.Admitted : AbiType → Prop
  | plain {name : List Char} : String.ofList name ∈ Signature.plainTypes →
      Admitted (.elementary name)
  | sized {name : List Char} {k : SizedName} {n : Nat} : SizedName.ofText? name = some (k, n) →
      k.admits n = true → Admitted (.elementary name)
  | tuple {components : List AbiType} : (∀ t ∈ components, Admitted t) →
      Admitted (.tuple components)
  | array {element : AbiType} {length : List Char} : Admitted element →
      (∀ c ∈ length, c.isDigit = true) → Admitted (.array element length)

namespace Signature

open AbiType (Admitted)

/-! ### What reading a type answers -/

/-- What holds of every answer to an element holds of all answers to a list. -/
theorem forall_of_mapM_eq_ok {ε α β : Type} {P : β → Prop} {f : α → Except ε β} {xs : List α} :
    ∀ {ys : List β}, (∀ x ∈ xs, ∀ y, f x = .ok y → P y) → xs.mapM f = .ok ys → ∀ y ∈ ys, P y := by
  induction xs with
  | nil =>
    intro ys _ h y hy
    rw [List.mapM_nil] at h
    cases h
    exact absurd hy List.not_mem_nil
  | cons x xs ih =>
    intro ys hf h y hy
    rw [List.mapM_cons] at h
    obtain ⟨z, hz, h⟩ := except_bind_eq_ok h
    obtain ⟨zs, hzs, h⟩ := except_bind_eq_ok h
    cases h
    rcases List.mem_cons.mp hy with rfl | hy
    · exact hf x (List.mem_cons_self ..) _ hz
    · exact ih (fun x hx => hf x (List.mem_cons_of_mem _ hx)) hzs y hy

/-- What is read as an elementary type is one without a size, or one of an admitted size, once a short
name has been replaced. -/
theorem elementary_eq_ok {cs : List Char} {t : AbiType} (h : elementary cs = .ok t) :
    let name := (aliases.lookup (String.ofList cs)).getD (String.ofList cs)
    t = .elementary name.toList ∧ (name ∈ plainTypes ∨
      ∃ k n, SizedName.ofText? name.toList = some (k, n) ∧ k.admits n = true) := by
  intro name
  change (if plainTypes.contains name = true then _ else _) = _ at h
  by_cases hp : plainTypes.contains name = true
  · rw [if_pos hp] at h
    cases h
    exact ⟨rfl, Or.inl (List.contains_iff_mem.mp hp)⟩
  · rw [if_neg hp] at h
    cases hs : SizedName.ofText? name.toList with
    | none => rw [hs] at h; cases h
    | some p =>
      obtain ⟨k, n⟩ := p
      rw [hs] at h
      by_cases ha : k.admits n = true
      · simp only [if_pos ha] at h
        cases h
        exact ⟨rfl, Or.inr ⟨k, n, rfl, ha⟩⟩
      · simp only [if_neg ha] at h
        cases h

theorem elementary_admitted {cs : List Char} {t : AbiType} (h : elementary cs = .ok t) :
    Admitted t := by
  obtain ⟨rfl, hp | ⟨k, n, hs, ha⟩⟩ := elementary_eq_ok h
  · refine .plain ?_
    rwa [String.ofList_toList]
  · exact .sized hs ha

/-- What holds of the types that are read because it holds of elementary ones, of tuples of types that
it holds of, and of arrays of them. -/
structure Closed (P : AbiType → Prop) : Prop where
  elementary : ∀ {cs : List Char} {t : AbiType}, elementary (Text.trim cs) = .ok t → P t
  tuple : ∀ {components : List AbiType}, (∀ t ∈ components, P t) → P (.tuple components)
  array : ∀ {element : AbiType} {length : List Char}, P element →
    (∀ c ∈ length, c.isDigit = true) → P (.array element length)

theorem admitted_closed : Closed Admitted := ⟨elementary_admitted, .tuple, .array⟩

/-- Array suffixes make arrays only, since their lengths are digits. -/
theorem Closed.suffixed? {P : AbiType → Prop} (hP : Closed P) {cs : List Char} :
    ∀ {element t : AbiType} {length : Option (List Char)}, P element →
      (∀ ds, length = some ds → ∀ c ∈ ds, c.isDigit = true) →
      suffixed? element length cs = some t → P t := by
  induction cs with
  | nil =>
    intro element t length he _ h
    cases length with
    | none => cases h; exact he
    | some ds => cases h
  | cons c cs ih =>
    intro element t length he hl h
    cases length with
    | none =>
      rw [Signature.suffixed?] at h
      by_cases hc : c = '['
      · rw [if_pos hc] at h
        refine ih he ?_ h
        intro ds hds
        cases hds
        exact fun c hc => absurd hc List.not_mem_nil
      · rw [if_neg hc] at h
        cases h
    | some ds =>
      have hd := hl ds rfl
      rw [Signature.suffixed?] at h
      by_cases hc : c = ']'
      · rw [if_pos hc] at h
        refine ih (hP.array he fun c hc => hd c (List.mem_reverse.mp hc)) ?_ h
        intro ds' hds
        cases hds
      · rw [if_neg hc] at h
        by_cases hc' : c.isDigit = true
        · rw [if_pos hc'] at h
          refine ih he ?_ h
          intro ds' hds
          cases hds
          intro d hd'
          rcases List.mem_cons.mp hd' with rfl | hd'
          · exact hc'
          · exact hd d hd'
        · rw [if_neg hc'] at h
          cases h

theorem Closed.suffixed {P : AbiType → Prop} (hP : Closed P) {whole suffix : List Char}
    {element t : AbiType} (he : P element) (h : suffixed whole element suffix = .ok t) : P t := by
  rw [Signature.suffixed] at h
  cases hs : Signature.suffixed? element none (suffix.filter (· != ' ')) with
  | none => rw [hs] at h; cases h
  | some t' =>
    rw [hs] at h
    cases h
    exact hP.suffixed? he (fun ds hds => by cases hds) hs

theorem param_eq_ok {readType : List Char → Reading AbiType} {text : List Char} {p : Param}
    (h : param readType text = .ok p) :
    (∃ cs, readType cs = .ok p.type) ∧ ∃ whole rest, nameOf whole rest = .ok p.name := by
  rw [param] at h
  by_cases hc : (Text.trim text).isEmpty = true
  · simp only [if_pos hc] at h
    cases h
  · simp only [if_neg hc] at h
    obtain ⟨⟨type, rest⟩, _, h⟩ := except_bind_eq_ok h
    obtain ⟨name, hn, h⟩ := except_bind_eq_ok h
    obtain ⟨t, ht, h⟩ := except_bind_eq_ok h
    cases h
    exact ⟨⟨type, ht⟩, ⟨_, rest, hn⟩⟩

theorem Closed.typeWith {P : AbiType → Prop} (hP : Closed P)
    {readType : List Char → Reading AbiType} (hr : ∀ cs t, readType cs = .ok t → P t)
    {text : List Char} {t : AbiType} (h : typeWith readType text = .ok t) : P t := by
  have hpart : ∀ (parts : List (List Char)) ts,
      (parts.mapM fun part => return (← param readType part).type : Reading (List AbiType)) =
        .ok ts → ∀ t ∈ ts, P t := by
    intro parts ts hts
    refine forall_of_mapM_eq_ok (fun part _ t ht => ?_) hts
    obtain ⟨p, hp, ht⟩ := except_bind_eq_ok ht
    cases ht
    obtain ⟨cs, hcs⟩ := (param_eq_ok hp).1
    exact hr cs _ hcs
  rw [Signature.typeWith] at h
  dsimp only at h
  split at h
  · cases h
  · next cs hc =>
    obtain ⟨stop, _, h⟩ := except_bind_eq_ok h
    by_cases he : (Text.trim (List.drop 1 (List.take stop (Text.trim text)))).isEmpty = true
    · rw [if_pos he] at h
      obtain ⟨ts, hts, h⟩ := except_bind_eq_ok h
      cases hts
      exact hP.suffixed (hP.tuple fun t ht => absurd ht List.not_mem_nil) h
    · rw [if_neg he] at h
      obtain ⟨parts, _, h⟩ := except_bind_eq_ok h
      obtain ⟨ts, hts, h⟩ := except_bind_eq_ok h
      exact hP.suffixed (hP.tuple (hpart parts ts hts)) h
  · obtain ⟨base, hb, h⟩ := except_bind_eq_ok h
    exact hP.suffixed (hP.elementary hb) h

theorem Closed.typeWithin {P : AbiType → Prop} (hP : Closed P) (levels : Nat) :
    ∀ (cs : List Char) (t : AbiType), typeWithin levels cs = .ok t → P t := by
  induction levels with
  | zero =>
    intro cs t h
    exact hP.typeWith (fun cs t h => by cases h) h
  | succ levels ih =>
    intro cs t h
    exact hP.typeWith ih h

/-! ### What reading a signature answers -/

/-- A text that a name may be, if it is not empty. -/
def IsNameOrEmpty (cs : List Char) : Prop := cs = [] ∨ isName cs = true

theorem isNameChar_of_isName {cs : List Char} (h : isName cs = true) :
    ∀ c ∈ cs, isNameChar c = true := by
  cases cs with
  | nil => exact fun c hc => absurd hc List.not_mem_nil
  | cons d ds =>
    rw [isName, Bool.and_eq_true] at h
    intro c hc
    rcases List.mem_cons.mp hc with rfl | hc
    · have hs := h.1
      rw [isNameStart, Bool.or_eq_true, Bool.or_eq_true] at hs
      rw [isNameChar, Char.isAlphanum, Bool.or_eq_true, Bool.or_eq_true, Bool.or_eq_true]
      tauto
    · exact List.all_eq_true.mp h.2 c hc

theorem nameAndBody_isName {cs name body : List Char} (h : nameAndBody cs = .ok (name, body)) :
    IsNameOrEmpty name := by
  rw [nameAndBody] at h
  simp only at h
  split_ifs at h with h₁ h₂ h₃ h₄
  · cases h
    exact Or.inl rfl
  · obtain ⟨stop, _, h⟩ := except_bind_eq_ok h
    cases h
    exact Or.inl rfl
  · obtain ⟨stop, _, h⟩ := except_bind_eq_ok h
    split_ifs at h
    · cases h
    · cases h
      exact Or.inr h₃
  · cases h
    exact Or.inl rfl

/-- A signature that may be read: its name is one, and its types are admitted. -/
structure Wellformed (s : Signature) : Prop where
  name : IsNameOrEmpty s.name
  types : ∀ p ∈ s.params, Admitted p.type

theorem read_eq_ok {text : String} {s : Signature} (h : read text = .ok s) :
    IsNameOrEmpty s.name ∧ ∀ p ∈ s.params, ∃ part, param readType part = .ok p := by
  rw [read] at h
  obtain ⟨⟨name, body⟩, hn, h⟩ := except_bind_eq_ok h
  have hname := nameAndBody_isName hn
  by_cases hb : (Text.trim body).isEmpty = true
  · simp only [if_pos hb] at h
    cases h
    exact ⟨hname, fun p hp => absurd hp List.not_mem_nil⟩
  · simp only [if_neg hb] at h
    obtain ⟨parts, _, h⟩ := except_bind_eq_ok h
    obtain ⟨params, hp, h⟩ := except_bind_eq_ok h
    cases h
    exact ⟨hname, forall_of_mapM_eq_ok (fun part _ p hp => ⟨part, hp⟩) hp⟩

/-- **What the reader keeps up holds of the type of every parameter that is read.** -/
theorem Closed.of_read {P : AbiType → Prop} (hP : Closed P) {text : String} {s : Signature}
    (h : read text = .ok s) : ∀ p ∈ s.params, P p.type := by
  intro p hp
  obtain ⟨part, hpart⟩ := (read_eq_ok h).2 p hp
  obtain ⟨cs, hcs⟩ := (param_eq_ok hpart).1
  exact hP.typeWithin _ cs _ hcs

theorem wellformed_of_read {text : String} {s : Signature} (h : read text = .ok s) :
    s.Wellformed := ⟨(read_eq_ok h).1, admitted_closed.of_read h⟩

/-- **A signature that is read is well-formed.** -/
theorem wellformed_of_ofText {text : String} {s : Signature} (h : ofText text = .ok s) :
    s.Wellformed :=
  wellformed_of_read (mapError_eq_ok.mp h)

end Signature

/-! ### Sizes -/

namespace SizedName

theorem eq_append_of_inFrontOf? {cs rest : List Char} {k : SizedName}
    (h : inFrontOf? cs = some (k, rest)) : cs = k.text ++ rest := by
  rw [inFrontOf?.eq_def] at h
  split at h <;> cases h <;> rfl

theorem ofText?_eq_some {cs : List Char} {k : SizedName} {n : Nat} (h : ofText? cs = some (k, n)) :
    ∃ rest, cs = k.text ++ rest ∧ size? rest = some n := by
  rw [ofText?] at h
  obtain ⟨⟨k', rest⟩, hf, h⟩ := Option.bind_eq_some_iff.mp h
  obtain ⟨m, hm, h⟩ := Option.bind_eq_some_iff.mp h
  cases h
  exact ⟨rest, eq_append_of_inFrontOf? hf, hm⟩

/-- A size is written in digits, behind which a line feed may stand. -/
theorem mem_of_size? {cs : List Char} {n : Nat} (h : size? cs = some n) :
    cs ≠ [] ∧ ∀ c ∈ cs, c.isDigit = true ∨ c = '\n' := by
  rw [size?] at h
  by_cases hl : cs.getLast? = some '\n'
  · have he : cs.dropLast ++ ['\n'] = cs := List.dropLast_append_getLast? '\n' hl
    simp only [hl, if_true] at h
    split_ifs at h with hd
    rw [Bool.and_eq_true] at hd
    refine ⟨fun hn => absurd (hn ▸ hl) (by decide), fun c hc => ?_⟩
    rw [← he] at hc
    rcases List.mem_append.mp hc with hc | hc
    · exact Or.inl (List.all_eq_true.mp hd.2 c hc)
    · exact Or.inr (List.mem_singleton.mp hc)
  · simp only [hl, if_false] at h
    split_ifs at h with hd
    rw [Bool.and_eq_true] at hd
    refine ⟨fun hn => by rw [hn] at hd; exact absurd hd.1 (by decide), fun c hc => ?_⟩
    exact Or.inl (List.all_eq_true.mp hd.2 c hc)

theorem size?_eq_some {cs : List Char} {n : Nat} (hl : cs.getLast? ≠ some '\n')
    (h : size? cs = some n) : (∀ c ∈ cs, c.isDigit = true) ∧ n = Text.ofDecimal cs := by
  rw [size?] at h
  simp only [hl, if_false] at h
  split_ifs at h with hd
  rw [Bool.and_eq_true] at hd
  exact ⟨List.all_eq_true.mp hd.2, (Option.some.inj h).symm⟩

theorem inFrontOf?_append (k : SizedName) (ds : List Char) :
    inFrontOf? (k.text ++ ds) = some (k, ds) := by
  cases k <;> rfl

theorem size?_of_isDigit {ds : List Char} (hne : ds ≠ []) (hd : ∀ c ∈ ds, c.isDigit = true) :
    size? ds = some (Text.ofDecimal ds) := by
  have hl : ds.getLast? ≠ some '\n' := by
    intro h
    exact absurd (hd _ (List.mem_of_getLast? h)) (by decide)
  have hg : (!ds.isEmpty && ds.all Char.isDigit) = true := by
    rw [Bool.and_eq_true, Bool.not_eq_true', List.isEmpty_eq_false_iff]
    exact ⟨hne, List.all_eq_true.mpr hd⟩
  simp only [size?, if_neg hl, if_pos hg]

theorem ofText?_append {ds : List Char} (k : SizedName) (hne : ds ≠ [])
    (hd : ∀ c ∈ ds, c.isDigit = true) :
    ofText? (k.text ++ ds) = some (k, Text.ofDecimal ds) := by
  rw [ofText?, inFrontOf?_append]
  change (size? ds >>= _) = _
  rw [size?_of_isDigit hne hd]
  rfl

/-- An elementary type without a size is no sized one. -/
theorem ofText?_of_plain {name : List Char} (h : String.ofList name ∈ Signature.plainTypes) :
    ofText? name = none := by
  have hn : ∀ s ∈ Signature.plainTypes, ofText? s.toList = none := by decide
  have hname := hn _ h
  rwa [String.toList_ofList] at hname

/-- Text that ends in a bracket is no size. -/
theorem ofText?_append_bracket (cs : List Char) : ofText? (cs ++ [']']) = none := by
  cases h : ofText? (cs ++ [']']) with
  | none => rfl
  | some p =>
    obtain ⟨k, n⟩ := p
    obtain ⟨rest, he, hs⟩ := ofText?_eq_some h
    obtain ⟨hne, hmem⟩ := mem_of_size? hs
    have hl : rest.getLast? = some ']' := by
      have := congrArg List.getLast? he
      rw [List.getLast?_concat, List.getLast?_append_of_ne_nil _ hne] at this
      exact this.symm
    rcases hmem ']' (List.mem_of_getLast? hl) with hd | hd <;> exact absurd hd (by decide)

end SizedName

namespace StaticKind

theorem ofText_eq_sized {cs : List Char} {k : SizedName} {n : Nat}
    (h : ofText (String.ofList cs) = .ok (.sized k n)) : SizedName.ofText? cs = some (k, n) := by
  rw [ofText, String.toList_ofList] at h
  split_ifs at h
  · cases h
  · cases h
  · cases hs : SizedName.ofText? cs with
    | none => rw [hs] at h; cases h
    | some p => rw [hs] at h; cases h; rfl

end StaticKind

/-- **The sized types of a signature that is read have sizes of the contract interface.** -/
theorem AbiType.Admitted.admits {t : AbiType} (ht : t.Admitted) {k : SizedName} {n : Nat}
    (h : StaticKind.ofText (String.ofList t.canonical) = .ok (.sized k n)) :
    k.admits n = true := by
  have hs := StaticKind.ofText_eq_sized h
  cases ht with
  | plain hp =>
    rw [AbiType.canonical, SizedName.ofText?_of_plain hp] at hs
    cases hs
  | sized hs' ha =>
    rw [AbiType.canonical, hs'] at hs
    cases hs
    exact ha
  | tuple _ =>
    rw [AbiType.canonical] at hs
    cases hs
  | @array element length _ _ =>
    have he : (AbiType.array element length).canonical =
        (element.canonical ++ '[' :: length) ++ [']'] := by
      rw [AbiType.canonical, List.append_assoc, List.cons_append]
    rw [he, SizedName.ofText?_append_bracket] at hs
    cases hs

/-! ### Plain ASCII -/

theorem toNat_of_isAlphanum {c : Char} (h : c.isAlphanum = true) :
    0x30 ≤ c.toNat ∧ c.toNat ≤ 0x7a := by
  simp only [Char.isAlphanum, Char.isAlpha, Char.isUpper, Char.isLower, Char.isDigit,
    Bool.or_eq_true, Bool.and_eq_true, decide_eq_true_eq, ge_iff_le,
    UInt32.le_iff_toNat_le] at h
  change 0x30 ≤ c.val.toNat ∧ c.val.toNat ≤ 0x7a
  rcases h with (⟨h, h'⟩ | ⟨h, h'⟩) | ⟨h, h'⟩
  · exact ⟨le_trans (by decide) h, le_trans h' (by decide)⟩
  · exact ⟨le_trans (by decide) h, le_trans h' (by decide)⟩
  · exact ⟨le_trans (by decide) h, le_trans h' (by decide)⟩

/-- Characters that a selector is computed from. -/
def Ascii (cs : List Char) : Prop := ∀ c ∈ cs, c.toNat < 128

namespace Ascii

theorem append {cs ds : List Char} (hc : Ascii cs) (hd : Ascii ds) : Ascii (cs ++ ds) := by
  intro c h
  rcases List.mem_append.mp h with h | h
  · exact hc c h
  · exact hd c h

theorem cons {c : Char} {cs : List Char} (h : c.toNat < 128) (hc : Ascii cs) :
    Ascii (c :: cs) := by
  intro d hd
  rcases List.mem_cons.mp hd with rfl | hd
  · exact h
  · exact hc d hd

theorem nil : Ascii [] := fun _ h => absurd h List.not_mem_nil

theorem of_isAlphanum {c : Char} (h : c.isAlphanum = true) : c.toNat < 128 :=
  lt_of_le_of_lt (toNat_of_isAlphanum h).2 (by decide)

theorem of_isNameChar {c : Char} (h : Signature.isNameChar c = true) : c.toNat < 128 := by
  rw [Signature.isNameChar, Bool.or_eq_true, Bool.or_eq_true, beq_iff_eq, beq_iff_eq] at h
  rcases h with (h | rfl) | rfl
  · exact of_isAlphanum h
  · decide
  · decide

theorem of_isName {cs : List Char} (h : Signature.IsNameOrEmpty cs) : Ascii cs := by
  rcases h with rfl | h
  · exact nil
  · exact fun c hc => of_isNameChar (Signature.isNameChar_of_isName h c hc)

theorem canonicalList {ts : List AbiType} (h : ∀ t ∈ ts, Ascii t.canonical) :
    Ascii (canonicalList ts) := by
  induction ts with
  | nil => exact nil
  | cons t ts ih =>
    have ht := h t (List.mem_cons_self ..)
    cases ts with
    | nil => exact ht
    | cons u us =>
      rw [WeiCalc.canonicalList]
      · exact ht.append (cons (by decide) (ih fun t ht => h t (List.mem_cons_of_mem _ ht)))
      · exact List.cons_ne_nil u us

end Ascii

theorem AbiType.Admitted.ascii {t : AbiType} (ht : t.Admitted) : Ascii t.canonical := by
  induction ht with
  | @plain name hp =>
    have hn : ∀ s ∈ Signature.plainTypes, ∀ c ∈ s.toList, c.toNat < 128 := by
      simp [Signature.plainTypes]
    have hn' := hn _ hp
    rw [String.toList_ofList] at hn'
    rw [AbiType.canonical]
    exact hn'
  | @sized name k n hs _ =>
    obtain ⟨rest, rfl, hr⟩ := SizedName.ofText?_eq_some hs
    rw [AbiType.canonical]
    have hk : Ascii k.text := by cases k <;> simp [Ascii, SizedName.text]
    refine hk.append fun c hc => ?_
    rcases (SizedName.mem_of_size? hr).2 c hc with hd | rfl
    · exact lt_of_le_of_lt (toNat_of_isDigit hd).2 (by decide)
    · decide
  | tuple _ ih =>
    rw [AbiType.canonical]
    exact .cons (by decide) (.append (.canonicalList ih) (.cons (by decide) .nil))
  | array _ hl ih =>
    rw [AbiType.canonical]
    refine ih.append (.cons (by decide) (.append ?_ (.cons (by decide) .nil)))
    exact fun c hc => lt_of_le_of_lt (toNat_of_isDigit (hl c hc)).2 (by decide)

/-- **The canonical text of a signature that is read is plain ASCII.** -/
theorem Signature.Wellformed.ascii {s : Signature} (h : s.Wellformed) :
    Ascii s.canonical.toList := by
  rw [Signature.canonical, String.toList_ofList]
  refine .append (.of_isName h.name) (.cons (by decide) (.append (.canonicalList ?_)
    (.cons (by decide) .nil)))
  intro t ht
  obtain ⟨p, hp, rfl⟩ := List.mem_map.mp ht
  exact (h.types p hp).ascii

end WeiCalc

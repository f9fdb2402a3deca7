import Mathlib
import WeiCalc.Proofs.Abi.Reading

/-!
# Canonical signatures

The canonical text of a signature that has been read is a signature itself.  It has the same name and
types, but no names of parameters, so that reading it once more changes nothing about it or its
selector.

* `spells_of_elementary`: what is read as an elementary type is one of its spellings.
* `Settled`: types whose canonical text stands for them.
* `settled_closed`: types that are read are settled.
* `ofText_canonical`: **reading the canonical text of a signature.**
-/

namespace WeiCalc

namespace Signature

/-! ### Elementary types -/

/-- What is read as an elementary type is one of its spellings, if no line feed stands behind it. -/
theorem spells_of_elementary {cs : List Char} {t : AbiType} (hl : cs.getLast? ≠ some '\n')
    (h : elementary cs = .ok t) : ∃ name, t = .elementary name ∧ Spells cs name := by
  have he := elementary_eq_ok h
  cases ha : aliases.lookup (String.ofList cs) with
  | some name =>
    rw [ha] at he
    obtain ⟨l, r, hm, _⟩ := List.lookup_eq_some_iff.mp ha
    have hs : Spells (String.ofList cs).toList name.toList := .short (by rw [hm]; simp)
    rw [String.toList_ofList] at hs
    exact ⟨_, he.1, hs⟩
  | none =>
    rw [ha] at he
    dsimp only [Option.getD_none] at he
    rw [String.toList_ofList] at he
    refine ⟨cs, he.1, ?_⟩
    rcases he.2 with hp | ⟨k, n, hs, hn⟩
    · exact .plain hp
    · obtain ⟨ds, rfl, hd⟩ := SizedName.ofText?_eq_some hs
      have hne := (SizedName.mem_of_size? hd).1
      rw [List.getLast?_append_of_ne_nil _ hne] at hl
      obtain ⟨hdigits, rfl⟩ := SizedName.size?_eq_some hl hd
      exact .sized hne hdigits hn

/-- No line feed stands behind trimmed text. -/
theorem spells_of_elementary_trim {cs : List Char} {t : AbiType}
    (h : elementary (Text.trim cs) = .ok t) :
    ∃ name, t = .elementary name ∧ Spells (Text.trim cs) name := by
  refine spells_of_elementary (fun hl => ?_) h
  exact absurd (Text.isBlank_getLast?_trim cs '\n' hl) (by decide)

/-- A canonical name is a spelling of itself. -/
theorem Spells.canonical {written name : List Char} (h : Spells written name) :
    Spells name name := by
  cases h with
  | plain hp => exact .plain hp
  | sized hne hd ha => exact .sized hne hd ha
  | @short written name ha =>
    have hn : ∀ a ∈ aliases, Spells a.2.toList a.2.toList := by
      simp only [aliases, List.forall_mem_cons]
      refine ⟨?_, ?_, ?_, fun a ha => absurd ha List.not_mem_nil⟩
      · exact @Spells.sized .uint ['2', '5', '6'] (by decide) (by simp) (by decide)
      · exact @Spells.sized .int ['2', '5', '6'] (by decide) (by simp) (by decide)
      · exact @Spells.sized .bytes ['1'] (by decide) (by simp) (by decide)
    exact hn (written, name) ha

/-! ### Types -/

/-- The canonical text of the type stands for the type. -/
def Settled (t : AbiType) : Prop := Writes (.type t) t.canonical

/-- Parameters without names. -/
def unnamed (ts : List AbiType) : List Param := ts.map (⟨·, []⟩)

@[simp] theorem map_type_unnamed (ts : List AbiType) : (unnamed ts).map Param.type = ts := by
  rw [unnamed, List.map_map]
  exact List.map_id ts

theorem Settled.param {t : AbiType} (h : Settled t) : Writes (.param ⟨t, []⟩) t.canonical := by
  have hp := Writes.param .nil h (.nothing .nil) (Or.inl .nil)
  rwa [List.nil_append, List.append_nil] at hp

/-- Canonical texts with commas between them list parameters without names. -/
theorem writes_canonicalList {ts : List AbiType} (h : ∀ t ∈ ts, Settled t) :
    Writes (.params (unnamed ts)) (canonicalList ts) := by
  induction ts with
  | nil => exact .none .nil
  | cons t ts ih =>
    have ht := (h t (List.mem_cons_self ..)).param
    cases ts with
    | nil => exact .last ht
    | cons u us =>
      rw [canonicalList]
      · exact .more ht (List.cons_ne_nil _ _) (ih fun t ht => h t (List.mem_cons_of_mem _ ht))
      · exact List.cons_ne_nil u us

/-- **Types that are read are settled.** -/
theorem settled_closed : Closed Settled where
  elementary h := by
    obtain ⟨name, rfl, hs⟩ := spells_of_elementary_trim h
    exact .elementary hs.canonical
  tuple h := by
    have ht := Writes.tuple (writes_canonicalList h)
    rwa [map_type_unnamed] at ht
  array h hl := .array h hl

/-! ### Signatures -/

theorem writtenAs_canonical {s : Signature} (hn : IsNameOrEmpty s.name)
    (ht : ∀ p ∈ s.params, Settled p.type) :
    WrittenAs ⟨s.name, unnamed (s.params.map Param.type)⟩ s.canonical.toList := by
  refine ⟨hn, _, writes_canonicalList (List.forall_mem_map.mpr ht), ?_⟩
  rw [canonical, String.toList_ofList]

/-- **Reading the canonical text of a signature that was read** gives the same name and the same types,
and with them the same canonical text and the same selector. -/
theorem ofText_canonical {text : String} {s : Signature} (h : ofText text = .ok s) :
    ∃ s', ofText s.canonical = .ok s' ∧ s'.name = s.name ∧
      s'.params.map Param.type = s.params.map Param.type ∧ s'.canonical = s.canonical ∧
      ∀ hash, s'.selector hash = s.selector hash := by
  have hr : read text = .ok s := mapError_eq_ok.mp h
  have hw := writtenAs_canonical (read_eq_ok hr).1 (settled_closed.of_read hr)
  have hc : canonical ⟨s.name, unnamed (s.params.map Param.type)⟩ = s.canonical := by
    rw [canonical, canonical, map_type_unnamed]
  refine ⟨⟨s.name, unnamed (s.params.map Param.type)⟩, ?_, rfl, map_type_unnamed _, hc, ?_⟩
  · rw [ofText, read_of_writtenAs hw]
    rfl
  · intro hash
    simp only [selector, requireName, hc]

/-- A bare list that begins with a tuple is read once more from a list in parentheses. -/
theorem ofText_canonical_pairs :
    let s : Signature := ⟨[], [
      ⟨.array (.tuple [.elementary "uint256".toList, .array (.elementary "bytes1".toList) ['2']]) [],
        "pairs".toList⟩,
      ⟨.elementary "bool".toList, []⟩]⟩
    ofText "(uint a, byte[2])[] pairs, bool" = .ok s ∧
      ∃ s', ofText s.canonical = .ok s' ∧ s'.name = s.name ∧
        s'.params.map Param.type = s.params.map Param.type ∧ s'.canonical = s.canonical ∧
        ∀ hash, s'.selector hash = s.selector hash := by
  intro s
  have h : ofText "(uint a, byte[2])[] pairs, bool" = .ok s := by cbv
  exact ⟨h, ofText_canonical h⟩

end Signature

end WeiCalc

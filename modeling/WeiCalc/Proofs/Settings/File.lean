import Mathlib
import WeiCalc.Settings.File
import WeiCalc.Proofs.Run

/-!
# What settings files say

A settings file is accepted if it holds an object of known members, each of the kind that its
setting takes.  Settings with a member are what the member holds, and the others are the standard
ones.  Any other file is refused with an error that says what is wrong with it, and in which
member.

A limit is meant to be a count, but a truth value is accepted as well and kept as it is.

* `Overrides.member_eq_ok_iff`, `Overrides.member_eq_error_iff`: one member.
* `Overrides.ofJson_eq_ok_iff`: **what an object of settings sets.**
* `Overrides.ofJson_eq_error`: what an error says of the value that is refused.
* `Overrides.ofText_settings`: **which files are accepted, what they set, and why others are
  refused.**
* `Overrides.ofText_flag`: a truth value in the place of a count.
-/

namespace WeiCalc

/-! ### Kinds of members -/

namespace Json

/-- A natural number. -/
def IsCount (j : Json) : Prop := ∃ n : Nat, j = .integer n

/-- What is accepted as a limit: a count, and a truth value as well. -/
def IsLimit (j : Json) : Prop := j.IsCount ∨ ∃ b, j = .bool b

/-- Known members, each of the kind that its setting takes, where limits are as `isLimit` says. -/
structure AreSettings (isLimit : Json → Prop) (members : List (String × Json)) : Prop where
  known : ∀ m ∈ members, m.1 ∈ Overrides.keys
  maxDepth : ∀ j ∈ member? members "max_depth", isLimit j
  pricePrecision : ∀ j ∈ member? members "price_precision", isLimit j
  dateLayout : ∀ j ∈ member? members "date_format", ∃ s, j = .text s
  fullWords : ∀ j ∈ member? members "full_words", ∃ b, j = .bool b

end Json

/-- A limit as a file writes it. -/
def Limit.json : Limit → Json
  | count n => .integer n
  | flag b => .bool b

theorem Json.isLimit_iff {j : Json} : j.IsLimit ↔ ∃ l : Limit, j = l.json := by
  constructor
  · rintro (⟨n, rfl⟩ | ⟨b, rfl⟩)
    · exact ⟨.count n, rfl⟩
    · exact ⟨.flag b, rfl⟩
  · rintro ⟨l, rfl⟩
    cases l with
    | count n => exact Or.inl ⟨n, rfl⟩
    | flag b => exact Or.inr ⟨b, rfl⟩

/-- The settings are what the members hold, and the standard ones where there is no member. -/
structure Settings.Carry (s : Settings) (members : List (String × Json)) : Prop where
  maxDepth : s.maxDepth.json = (Json.member? members "max_depth").getD (.integer 64)
  pricePrecision : s.pricePrecision.json =
    (Json.member? members "price_precision").getD (.integer 6)
  dateLayout : Json.text s.dateLayout =
    (Json.member? members "date_format").getD (.text "%Y-%m-%d %H:%M:%S UTC")
  fullWords : Json.bool s.fullWords = (Json.member? members "full_words").getD (.bool false)

/-- What an error says of the value in a file that is refused. -/
inductive SettingsError.Explains : SettingsError → Json → Prop
  | notObject {j : Json} : (∀ members, j ≠ .object members) → Explains .notObject j
  | unknownKeys {members : List (String × Json)} {keys : List String} : keys ≠ [] →
      keys.Pairwise (· < ·) →
      (∀ key, key ∈ keys ↔ key ∉ Overrides.keys ∧ ∃ j, (key, j) ∈ members) →
      Explains (.unknownKeys keys) (.object members)
  | notCount {members : List (String × Json)} {key : String} {j : Json} :
      key = "max_depth" ∨ key = "price_precision" → Json.member? members key = some j →
      ¬ j.IsLimit → Explains (.notCount key) (.object members)
  | notText {members : List (String × Json)} {j : Json} :
      Json.member? members "date_format" = some j → (∀ s, j ≠ .text s) →
      Explains (.notText "date_format") (.object members)
  | notFlag {members : List (String × Json)} {j : Json} :
      Json.member? members "full_words" = some j → (∀ b, j ≠ .bool b) →
      Explains (.notFlag "full_words") (.object members)

namespace Overrides

/-! ### One member -/

theorem limit?_eq_some_iff {j : Json} {l : Limit} : limit? j = some l ↔ j = l.json := by
  rw [limit?.eq_def]
  split
  · cases l <;> simp [Limit.json, eq_comm]
  · cases l <;> simp [Limit.json, eq_comm]
  · rename_i hn hb
    cases l with
    | count n => simpa [Limit.json] using hn n
    | flag b => simpa [Limit.json] using hb b

theorem text?_eq_some_iff {j : Json} {s : String} : text? j = some s ↔ j = .text s := by
  cases j <;> simp [text?]

theorem flag?_eq_some_iff {j : Json} {b : Bool} : flag? j = some b ↔ j = .bool b := by
  cases j <;> simp [flag?]

/-- A value that may be missing is written by `write` if it is so wherever there is one. -/
theorem exists_map_iff {α β : Type} {write : α → β} {x : Option β} :
    (∀ b ∈ x, ∃ a, b = write a) ↔ ∃ o : Option α, x = o.map write := by
  constructor
  · intro h
    cases x with
    | none => exact ⟨none, rfl⟩
    | some b =>
      obtain ⟨a, rfl⟩ := h b rfl
      exact ⟨some a, rfl⟩
  · rintro ⟨o, rfl⟩ b hb
    obtain ⟨a, -, rfl⟩ := Option.map_eq_some_iff.mp hb
    exact ⟨a, rfl⟩

section

variable {α : Type} {members : List (String × Json)} {key : String} {refused : SettingsError}
  {read : Json → Option α}

/-- A member is read as what is written in it. -/
theorem member_eq_ok_iff {write : α → Json} (hw : ∀ {j a}, read j = some a ↔ j = write a)
    {o : Option α} :
    member members key refused read = .ok o ↔ Json.member? members key = o.map write := by
  rw [member]
  cases Json.member? members key with
  | none => cases o <;> simp
  | some j =>
    cases hr : read j with
    | none =>
      have hne : ∀ a, j ≠ write a := fun a h => by simp [hw.mpr h] at hr
      cases o <;> simp [hne, hr]
    | some a =>
      have ha : ∀ b, j = write b ↔ a = b := fun b => by rw [← hw, hr, Option.some_inj]
      cases o <;> simp [ha, hr]

theorem member_eq_error_iff {e : SettingsError} :
    member members key refused read = .error e ↔
      e = refused ∧ ∃ j, Json.member? members key = some j ∧ read j = none := by
  rw [member]
  cases Json.member? members key with
  | none => simp
  | some j => cases hr : read j <;> simp [hr, eq_comm]

end

/-! ### Unknown members -/

variable {members : List (String × Json)}

theorem mem_unknownKeys {key : String} :
    key ∈ unknownKeys members ↔ key ∉ keys ∧ ∃ j, (key, j) ∈ members := by
  rw [unknownKeys, List.mem_mergeSort, List.mem_eraseDups, List.mem_filter]
  simp [and_comm]

theorem nodup_eraseDups (names : List String) : names.eraseDups.Nodup := by
  induction hn : names.length using Nat.strongRecOn generalizing names with
  | ind n ih =>
    cases names with
    | nil => exact List.nodup_nil
    | cons name names =>
      rw [List.eraseDups_cons, List.nodup_cons]
      refine ⟨by simp, ih _ ?_ _ rfl⟩
      rw [← hn]
      exact Nat.lt_succ_of_le (List.length_filter_le _ _)

/-- Unknown names are told in order, and none of them twice. -/
theorem pairwise_unknownKeys (members : List (String × Json)) :
    (unknownKeys members).Pairwise (· < ·) := by
  have hn : (unknownKeys members).Nodup :=
    (List.mergeSort_perm _ _).nodup_iff.mpr (nodup_eraseDups _)
  have hs : (unknownKeys members).Pairwise fun a b => decide (a ≤ b) = true :=
    List.pairwise_mergeSort (by simpa using fun _ _ _ => le_trans) (by simpa using le_total) _
  exact hs.imp₂ (fun _ _ h hne => lt_of_le_of_ne (of_decide_eq_true h) hne) hn

theorem unknownKeys_eq_nil_iff : unknownKeys members = [] ↔ ∀ m ∈ members, m.1 ∈ keys := by
  rw [List.eq_nil_iff_forall_not_mem]
  constructor
  · intro h m hm
    by_contra hk
    exact h m.1 (mem_unknownKeys.mpr ⟨hk, m.2, hm⟩)
  · intro h key hk
    obtain ⟨hn, j, hj⟩ := mem_unknownKeys.mp hk
    exact hn (h _ hj)

/-! ### All members -/

/-- What the members of a file set. -/
structure Holds (members : List (String × Json)) (o : Overrides) : Prop where
  maxDepth : Json.member? members "max_depth" = o.maxDepth.map Limit.json
  pricePrecision : Json.member? members "price_precision" = o.pricePrecision.map Limit.json
  dateLayout : Json.member? members "date_format" = o.dateLayout.map Json.text
  fullWords : Json.member? members "full_words" = o.fullWords.map Json.bool

/-- Known members are read one after the other. -/
theorem ofJson_object (h : unknownKeys members = []) :
    ofJson (.object members) = (do
      let maxDepth ← member members "max_depth" (.notCount "max_depth") limit?
      let pricePrecision ←
        member members "price_precision" (.notCount "price_precision") limit?
      let dateLayout ← member members "date_format" (.notText "date_format") text?
      let fullWords ← member members "full_words" (.notFlag "full_words") flag?
      return ⟨maxDepth, pricePrecision, dateLayout, fullWords⟩) := by
  rw [ofJson]
  simp only [h]
  rfl

theorem ofJson_unknown (h : unknownKeys members ≠ []) :
    ofJson (.object members) = .error (.unknownKeys (unknownKeys members)) := by
  have he : (!(unknownKeys members).isEmpty) = true := by simpa using h
  rw [ofJson]
  simp only [he]
  rfl

/-- **What an object of settings sets.** -/
theorem ofJson_eq_ok_iff {j : Json} {o : Overrides} :
    ofJson j = .ok o ↔
      ∃ members, j = .object members ∧ (∀ m ∈ members, m.1 ∈ keys) ∧ Holds members o := by
  constructor
  · intro h
    cases j with
    | object members =>
      by_cases hu : unknownKeys members = []
      · rw [ofJson_object hu] at h
        obtain ⟨maxDepth, hd, h⟩ := except_bind_eq_ok h
        obtain ⟨pricePrecision, hp, h⟩ := except_bind_eq_ok h
        obtain ⟨dateLayout, hl, h⟩ := except_bind_eq_ok h
        obtain ⟨fullWords, hf, h⟩ := except_bind_eq_ok h
        cases h
        exact ⟨members, rfl, unknownKeys_eq_nil_iff.mp hu,
          (member_eq_ok_iff limit?_eq_some_iff).mp hd, (member_eq_ok_iff limit?_eq_some_iff).mp hp,
          (member_eq_ok_iff text?_eq_some_iff).mp hl, (member_eq_ok_iff flag?_eq_some_iff).mp hf⟩
      · rw [ofJson_unknown hu] at h
        cases h
    | _ => cases h
  · rintro ⟨members, rfl, hk, hd, hp, hl, hf⟩
    rw [ofJson_object (unknownKeys_eq_nil_iff.mpr hk),
      (member_eq_ok_iff limit?_eq_some_iff).mpr hd, (member_eq_ok_iff limit?_eq_some_iff).mpr hp,
      (member_eq_ok_iff text?_eq_some_iff).mpr hl, (member_eq_ok_iff flag?_eq_some_iff).mpr hf]
    rfl

theorem member_limit_eq_error {key : String} {e : SettingsError}
    (hk : key = "max_depth" ∨ key = "price_precision")
    (h : member members key (.notCount key) limit? = .error e) : e.Explains (.object members) := by
  obtain ⟨rfl, j, hj, hn⟩ := member_eq_error_iff.mp h
  refine .notCount hk hj fun hl => ?_
  obtain ⟨l, hl⟩ := Json.isLimit_iff.mp hl
  rw [limit?_eq_some_iff.mpr hl] at hn
  cases hn

/-- **An error says what is wrong with the value that is refused.** -/
theorem ofJson_eq_error {j : Json} {e : SettingsError} (h : ofJson j = .error e) :
    e.Explains j := by
  cases j with
  | object members =>
    by_cases hu : unknownKeys members = []
    · rw [ofJson_object hu] at h
      rcases except_bind_eq_error h with hd | ⟨maxDepth, -, h⟩
      · exact member_limit_eq_error (Or.inl rfl) hd
      rcases except_bind_eq_error h with hp | ⟨pricePrecision, -, h⟩
      · exact member_limit_eq_error (Or.inr rfl) hp
      rcases except_bind_eq_error h with hl | ⟨dateLayout, -, h⟩
      · obtain ⟨rfl, j, hj, hn⟩ := member_eq_error_iff.mp hl
        refine .notText hj fun s hs => ?_
        rw [text?_eq_some_iff.mpr hs] at hn
        cases hn
      rcases except_bind_eq_error h with hf | ⟨fullWords, -, h⟩
      · obtain ⟨rfl, j, hj, hn⟩ := member_eq_error_iff.mp hf
        refine .notFlag hj fun b hb => ?_
        rw [flag?_eq_some_iff.mpr hb] at hn
        cases hn
      · cases h
    · rw [ofJson_unknown hu] at h
      cases h
      exact .unknownKeys hu (pairwise_unknownKeys members) fun key => mem_unknownKeys
  | _ =>
    cases h
    exact .notObject fun members hm => by cases hm

/-- Members of the right kinds are those that set something. -/
theorem areSettings_iff :
    Json.AreSettings Json.IsLimit members ↔
      (∀ m ∈ members, m.1 ∈ keys) ∧ ∃ o, Holds members o := by
  constructor
  · rintro ⟨hk, hd, hp, hl, hf⟩
    obtain ⟨d, hd⟩ := exists_map_iff.mp fun j hj => Json.isLimit_iff.mp (hd j hj)
    obtain ⟨p, hp⟩ := exists_map_iff.mp fun j hj => Json.isLimit_iff.mp (hp j hj)
    obtain ⟨l, hl⟩ := exists_map_iff.mp hl
    obtain ⟨f, hf⟩ := exists_map_iff.mp hf
    exact ⟨hk, ⟨d, p, l, f⟩, hd, hp, hl, hf⟩
  · rintro ⟨hk, o, hd, hp, hl, hf⟩
    refine ⟨hk, fun j hj => ?_, fun j hj => ?_, ?_, ?_⟩
    · exact Json.isLimit_iff.mpr (exists_map_iff.mpr ⟨_, hd⟩ j hj)
    · exact Json.isLimit_iff.mpr (exists_map_iff.mpr ⟨_, hp⟩ j hj)
    · exact exists_map_iff.mpr ⟨_, hl⟩
    · exact exists_map_iff.mpr ⟨_, hf⟩

/-- What is not set stays as it is in the standard settings. -/
theorem Holds.carry {o : Overrides} (h : Holds members o) (clock : Rat) :
    ((Settings.standard clock).override o).Carry members := by
  obtain ⟨hd, hp, hl, hf⟩ := h
  refine ⟨?_, ?_, ?_, ?_⟩
  · rw [hd]
    exact (Option.getD_map Limit.json (.count 64) o.maxDepth).symm
  · rw [hp]
    exact (Option.getD_map Limit.json (.count 6) o.pricePrecision).symm
  · rw [hl]
    exact (Option.getD_map Json.text Settings.standardLayout o.dateLayout).symm
  · rw [hf]
    exact (Option.getD_map Json.bool false o.fullWords).symm

/-! ### Files -/

/-- **Which files are accepted, what they set, and why others are refused.**  A text that is no
JSON value is refused as such.  A value is accepted if it is an object of settings, and then its
members are the settings, next to the standard ones; otherwise the error says what is wrong with
it. -/
theorem ofText_settings (text : String) :
    (∀ e, Json.ofText text = .error e → ofText text = .error (.malformed e)) ∧
    ∀ j, Json.ofText text = .ok j →
      ((∃ o, ofText text = .ok o) ↔
        ∃ members, j = .object members ∧ Json.AreSettings Json.IsLimit members) ∧
      (∀ o members clock, ofText text = .ok o → j = .object members →
        ((Settings.standard clock).override o).Carry members) ∧
      ∀ e, ofText text = .error e → e.Explains j := by
  refine ⟨fun e he => by rw [ofText, he], fun j hj => ?_⟩
  have ht : ofText text = ofJson j := by rw [ofText, hj]
  rw [ht]
  refine ⟨⟨?_, ?_⟩, ?_, fun e => ofJson_eq_error⟩
  · rintro ⟨o, ho⟩
    obtain ⟨members, rfl, hk, hm⟩ := ofJson_eq_ok_iff.mp ho
    exact ⟨members, rfl, areSettings_iff.mpr ⟨hk, o, hm⟩⟩
  · rintro ⟨members, rfl, hm⟩
    obtain ⟨hk, o, ho⟩ := areSettings_iff.mp hm
    exact ⟨o, ofJson_eq_ok_iff.mpr ⟨members, rfl, hk, ho⟩⟩
  · rintro o members clock ho rfl
    obtain ⟨members', hm, -, ho⟩ := ofJson_eq_ok_iff.mp ho
    cases hm
    exact ho.carry clock

/-- A file that sets a limit twice and the layout of moments. -/
theorem ofText_settings_twice :
    let text := "\x7b\"max_depth\": null, \"date_format\": \"\", \"max_depth\": 0\x7d"
    let members := [("max_depth", .null), ("date_format", .text ""), ("max_depth", .integer 0)]
    Json.ofText text = .ok (.object members) ∧ ∃ o, ofText text = .ok o ∧
      ((Settings.standard 0).override o).Carry members := by
  intro text members
  have hj : Json.ofText text = .ok (.object members) := by cbv
  have hm : Json.AreSettings Json.IsLimit members := by
    refine ⟨by decide, ?_, ?_, ?_, ?_⟩
    · rintro _ ⟨⟩
      exact Or.inl ⟨0, rfl⟩
    · rintro _ ⟨⟩
    · rintro _ ⟨⟩
      exact ⟨"", rfl⟩
    · rintro _ ⟨⟩
  obtain ⟨hiff, hcarry, -⟩ := (ofText_settings text).2 _ hj
  obtain ⟨o, ho⟩ := hiff.mpr ⟨members, rfl, hm⟩
  exact ⟨hj, o, ho, hcarry o members 0 ho rfl⟩

/-- A truth value in the place of a count is accepted, though it is none. -/
theorem ofText_flag :
    let text := "\x7b\"max_depth\": true\x7d"
    let members := [("max_depth", .bool true)]
    Json.ofText text = .ok (.object members) ∧
      ofText text = .ok ⟨some (.flag true), none, none, none⟩ ∧
      ¬ Json.AreSettings Json.IsCount members := by
  refine ⟨by cbv, by cbv, fun h => ?_⟩
  obtain ⟨n, hn⟩ := h.maxDepth (.bool true) rfl
  cases hn

end Overrides

end WeiCalc

import Mathlib
import WeiCalc.Proofs.Abi.Signature
import WeiCalc.Proofs.Abi.Word

/-!
# Calldata round trips

The calldata of a call is the selector and one word for each argument.  Decoding accepts exactly what
encoding makes of the values that are decoded, so that no two byte strings hold the same values, and
what encoding makes of arguments is decoded to their normal forms.

* `encodeCall_eq_ok`, `decodeCall_eq_ok`: calldata as a selector and words.
* `encodeCall_of_decodeCall`: from calldata to values and back.
* `decodeCall_of_encodeCall`: from arguments to calldata and back.
-/

namespace WeiCalc

namespace Abi

/-- The text of a parameter's type. -/
def typeText (p : Param) : String := String.ofList p.type.canonical

/-- Arguments are passed on as the values they are decoded to. -/
def reused (fields : List (Field Value)) : List RawArgument := fields.map fun f => .value f.value

/-! ### Words one after another -/

theorem encodeWords_cons {p : Param} {ps : List Param} {arg : RawArgument}
    {args : List RawArgument} {bs : Bytes} :
    encodeWords (p :: ps) (arg :: args) = .ok bs ↔
      ∃ word ws, encodeWord (typeText p) arg = .ok word ∧ encodeWords ps args = .ok ws ∧
        bs = word ++ ws := by
  rw [encodeWords]
  constructor
  · intro h
    obtain ⟨word, hw, h⟩ := except_bind_eq_ok h
    obtain ⟨ws, hws, h⟩ := except_bind_eq_ok h
    cases h
    exact ⟨word, ws, hw, hws, rfl⟩
  · rintro ⟨word, ws, hw, hws, rfl⟩
    rw [typeText] at hw
    rw [hw, hws]
    rfl

theorem decodeWords_cons {p : Param} {ps : List Param} {name : String} {names : List String}
    {bs : Bytes} {fields : List (Field Value)} :
    decodeWords (p :: ps) (name :: names) bs = .ok fields ↔
      ∃ v rest, decodeWord (typeText p) (bs.take wordSize) = .ok v ∧
        decodeWords ps names (bs.drop wordSize) = .ok rest ∧
        fields = ⟨name, typeText p, v⟩ :: rest := by
  rw [decodeWords]
  constructor
  · intro h
    obtain ⟨v, hv, h⟩ := except_bind_eq_ok h
    obtain ⟨rest, hr, h⟩ := except_bind_eq_ok h
    cases h
    exact ⟨v, rest, hv, hr, rfl⟩
  · rintro ⟨v, rest, hv, hr, rfl⟩
    rw [typeText] at hv
    rw [hv, hr]
    rfl

/-- **The values of words are encoded as these words**, one word after another. -/
theorem encodeWords_of_decodeWords {ps : List Param} :
    ∀ {names : List String} {bs : Bytes} {fields : List (Field Value)},
      names.length = ps.length → bs.length = wordSize * ps.length →
      decodeWords ps names bs = .ok fields →
      encodeWords ps (reused fields) = .ok bs ∧ fields.length = ps.length := by
  induction ps with
  | nil =>
    intro names bs fields _ hb h
    cases h
    rw [List.eq_nil_of_length_eq_zero hb]
    exact ⟨rfl, rfl⟩
  | cons p ps ih =>
    intro names bs fields hn hb h
    rw [List.length_cons, Nat.mul_add, Nat.mul_one] at hb
    cases names with
    | nil => cases hn
    | cons name names =>
      obtain ⟨v, rest, hv, hr, rfl⟩ := decodeWords_cons.mp h
      have hl : (bs.take wordSize).length = wordSize := by
        rw [List.length_take]
        omega
      obtain ⟨k, hk, hd⟩ := (decodeWord_eq_ok hl).mp hv
      have he := encodeWord_eq_ok.mpr ⟨k, hk, encodes_of_decodes hl hd⟩
      obtain ⟨hws, hlen⟩ := ih (Nat.succ.inj hn) (by rw [List.length_drop]; omega) hr
      refine ⟨encodeWords_cons.mpr ⟨_, _, he, hws, (List.take_append_drop ..).symm⟩, ?_⟩
      rw [List.length_cons, List.length_cons, hlen]

/-- A field that holds an argument in its normal form. -/
def Holds (pa : Param × RawArgument) (f : Field Value) : Prop :=
  ∃ k, StaticKind.ofText (typeText pa.1) = .ok k ∧ NormalForm k pa.2 f.value

theorem admitted_of_param {p : Param} (hp : p.type.Admitted) {k : StaticKind}
    (hk : StaticKind.ofText (typeText p) = .ok k) : StaticKind.Admitted k := by
  rintro name size rfl
  exact hp.admits hk

/-- **The words of arguments are decoded to their normal forms**, one word after another. -/
theorem decodeWords_of_encodeWords {ps : List Param} :
    ∀ {names : List String} {args : List RawArgument} {bs : Bytes},
      (∀ p ∈ ps, p.type.Admitted) → names.length = ps.length → args.length = ps.length →
      encodeWords ps args = .ok bs →
      bs.length = wordSize * ps.length ∧ ∃ fields, decodeWords ps names bs = .ok fields ∧
        fields.map Field.name = names ∧ fields.map Field.abiType = ps.map typeText ∧
        List.Forall₂ Holds (ps.zip args) fields := by
  induction ps with
  | nil =>
    intro names args bs _ hn _ h
    cases h
    rw [List.eq_nil_of_length_eq_zero hn]
    exact ⟨rfl, [], rfl, rfl, rfl, .nil⟩
  | cons p ps ih =>
    intro names args bs hp hn ha h
    cases names with
    | nil => cases hn
    | cons name names =>
      cases args with
      | nil => cases ha
      | cons arg args =>
        obtain ⟨word, ws, hw, hws, rfl⟩ := encodeWords_cons.mp h
        obtain ⟨k, hk, he⟩ := encodeWord_eq_ok.mp hw
        obtain ⟨hl, v, hd, hf⟩ :=
          decodes_of_encodes (admitted_of_param (hp p (List.mem_cons_self ..)) hk) he
        have hv := (decodeWord_eq_ok hl).mpr ⟨k, hk, hd⟩
        obtain ⟨hlen, fields, hfs, hnames, htypes, hall⟩ :=
          ih (fun q hq => hp q (List.mem_cons_of_mem _ hq)) (Nat.succ.inj hn) (Nat.succ.inj ha) hws
        refine ⟨?_, ⟨name, typeText p, v⟩ :: fields, decodeWords_cons.mpr ⟨v, fields, ?_, ?_, rfl⟩,
          ?_, ?_, .cons ⟨k, hk, hf⟩ hall⟩
        · rw [List.length_append, List.length_cons, hl, hlen]
          ring
        · rwa [List.take_left' hl]
        · rwa [List.drop_left' hl]
        · rw [List.map_cons, hnames]
        · rw [List.map_cons, List.map_cons, htypes]

/-! ### The selector -/

theorem length_selector {hash : Hash} {s : Signature} {sel : Bytes}
    (h : s.selector hash = .ok sel) : sel.length = Signature.selectorSize := by
  rw [Signature.selector] at h
  obtain ⟨_, _, h⟩ := except_bind_eq_ok h
  split_ifs at h
  cases h
  rw [List.length_take, Vector.length_toList]
  rfl

theorem requireName_of_selector {hash : Hash} {s : Signature} {sel : Bytes}
    (h : s.selector hash = .ok sel) : s.requireName = .ok () := by
  rw [Signature.selector] at h
  obtain ⟨_, h, _⟩ := except_bind_eq_ok h
  exact mapError_eq_ok.mp h

@[simp] theorem length_namesFrom (ps : List Param) (index : Nat) :
    (Signature.namesFrom index ps).length = ps.length := by
  induction ps generalizing index with
  | nil => rfl
  | cons p ps ih => rw [Signature.namesFrom, List.length_cons, List.length_cons, ih]

/-! ### Calls -/

variable {hash : Hash} {s : Signature} {bs : Bytes}

theorem encodeCall_eq_ok {args : List RawArgument} :
    encodeCall hash s args = .ok bs ↔ ∃ sel ws, s.selector hash = .ok sel ∧
      args.length = s.params.length ∧ encodeWords s.params args = .ok ws ∧ bs = sel ++ ws := by
  rw [encodeCall]
  constructor
  · intro h
    obtain ⟨sel, hs, h⟩ := except_bind_eq_ok h
    obtain ⟨ws, hw, h⟩ := except_bind_eq_ok h
    cases h
    obtain ⟨hl, hw⟩ := ite_eq_ok.mp (mapError_eq_ok.mp hw)
    exact ⟨sel, ws, hs, hl, hw, rfl⟩
  · rintro ⟨sel, ws, hs, hl, hw, rfl⟩
    have ha : encodeArguments s args = .ok ws := ite_eq_ok.mpr ⟨hl, hw⟩
    rw [hs, ha]
    rfl

theorem decodeArguments_eq_ok {v : Value} :
    decodeArguments s bs = .ok v ↔ bs.length = wordSize * s.params.length ∧
      ∃ fields, decodeWords s.params s.paramNames bs = .ok fields ∧ v = .list fields := by
  rw [decodeArguments]
  by_cases hl : bs.length = wordSize * s.params.length
  · simp only [hl, ne_eq, not_true_eq_false, if_false, true_and]
    constructor
    · intro h
      obtain ⟨fields, hf, h⟩ := except_bind_eq_ok h
      cases h
      exact ⟨fields, hf, rfl⟩
    · rintro ⟨fields, hf, rfl⟩
      rw [hf]
      rfl
  · simp only [hl, ne_eq, not_false_eq_true, if_true, false_and, iff_false]
    intro h
    cases h

theorem decodeCall_eq_ok {v : Value} :
    decodeCall hash s bs = .ok v ↔ ∃ sel ws fields, s.selector hash = .ok sel ∧ bs = sel ++ ws ∧
      ws.length = wordSize * s.params.length ∧
      decodeWords s.params s.paramNames ws = .ok fields ∧ v = .list fields := by
  rw [decodeCall]
  constructor
  · intro h
    obtain ⟨_, _, h⟩ := except_bind_eq_ok h
    by_cases hl : bs.length < Signature.selectorSize
    · simp only [if_pos hl] at h
      cases h
    · simp only [if_neg hl] at h
      obtain ⟨sel, hs, h⟩ := except_bind_eq_ok h
      by_cases he : bs.take Signature.selectorSize = sel
      · simp only [he, ne_eq, not_true_eq_false, if_false] at h
        obtain ⟨hlen, fields, hf, hv⟩ := decodeArguments_eq_ok.mp h
        refine ⟨sel, _, fields, hs, ?_, hlen, hf, hv⟩
        rw [← he, List.take_append_drop]
      · simp only [he, ne_eq, not_false_eq_true, if_true] at h
        cases h
  · rintro ⟨sel, ws, fields, hs, rfl, hlen, hf, rfl⟩
    have hsel := length_selector hs
    have hl : ¬(sel ++ ws).length < Signature.selectorSize := by
      rw [List.length_append]
      omega
    rw [requireName_of_selector hs]
    simp only [if_neg hl, hs, List.take_left' hsel, List.drop_left' hsel]
    change (if sel ≠ sel then _ else _) = _
    rw [if_neg (fun h => h rfl)]
    exact decodeArguments_eq_ok.mpr ⟨hlen, fields, hf, rfl⟩

@[simp] theorem length_paramNames (s : Signature) : s.paramNames.length = s.params.length :=
  length_namesFrom s.params 0

/-- **Decoded calldata is what encoding makes of the decoded values.**  So the decoder accepts the
encodings of values only, and no other calldata is decoded to the same values. -/
theorem encodeCall_of_decodeCall {v : Value} (h : decodeCall hash s bs = .ok v) :
    ∃ fields, v = .list fields ∧ encodeCall hash s (reused fields) = .ok bs ∧
      ∀ bs' fields', decodeCall hash s bs' = .ok (.list fields') →
        fields'.map Field.value = fields.map Field.value → bs' = bs := by
  have hround : ∀ {bs : Bytes} {fields : List (Field Value)},
      decodeCall hash s bs = .ok (.list fields) →
      encodeCall hash s (reused fields) = .ok bs := by
    intro bs fields h
    obtain ⟨sel, ws, fs, hs, hbs, hlen, hf, hv⟩ := decodeCall_eq_ok.mp h
    obtain rfl : fields = fs := Value.list.inj hv
    obtain ⟨he, hl⟩ := encodeWords_of_decodeWords (length_paramNames s) hlen hf
    refine encodeCall_eq_ok.mpr ⟨sel, ws, hs, ?_, he, hbs⟩
    rw [reused, List.length_map, hl]
  obtain ⟨_, _, fields, _, _, _, _, rfl⟩ := decodeCall_eq_ok.mp h
  refine ⟨fields, rfl, hround h, ?_⟩
  intro bs' fields' h' hv
  have hr : reused fields' = reused fields := by
    have hm : ∀ fs : List (Field Value), reused fs = (fs.map Field.value).map .value := fun fs => by
      rw [reused, List.map_map]
      rfl
    rw [hm, hm, hv]
  have he := hround h'
  rw [hr, hround h] at he
  exact (Except.ok.inj he).symm

/-- The word of minus one is read as text, and the text is encoded as that word. -/
theorem encodeCall_minus_one :
    decodeCall (fun _ => Vector.replicate 32 0) ⟨['f'], [⟨.elementary "int8".toList, ['x']⟩]⟩
      (List.replicate 4 0 ++ List.replicate 32 255) =
      .ok (.list [⟨"x", "int8", .text "-1"⟩]) ∧
    encodeCall (fun _ => Vector.replicate 32 0) ⟨['f'], [⟨.elementary "int8".toList, ['x']⟩]⟩
      [.value (.text "-1")] = .ok (List.replicate 4 0 ++ List.replicate 32 255) := by
  have h : decodeCall (fun _ => Vector.replicate 32 0)
      ⟨['f'], [⟨.elementary "int8".toList, ['x']⟩]⟩
      (List.replicate 4 0 ++ List.replicate 32 255) =
      .ok (.list [⟨"x", "int8", .text "-1"⟩]) := rfl
  obtain ⟨fields, hv, he, _⟩ := encodeCall_of_decodeCall h
  cases hv
  exact ⟨h, he⟩

/-! ### Ranges -/

/-- The integers of a type: an argument that stands for one is encoded exactly if it is in range. -/
theorem encodeWord_uint_iff {abiType : String} {bits : Nat} {arg : RawArgument} {n : Int}
    (hk : StaticKind.ofText abiType = .ok (.sized .uint bits)) (hd : Denotes false arg n) :
    (∃ word, encodeWord abiType arg = .ok word) ↔ 0 ≤ n ∧ n < 2 ^ bits := by
  constructor
  · rintro ⟨word, hw⟩
    cases (encodeWord_of_kind hk).mp hw with
    | @uint _ _ m hm hlt =>
      obtain rfl := hd.unique hm
      exact ⟨Int.natCast_nonneg m, by exact_mod_cast hlt⟩
  · rintro ⟨hpos, hlt⟩
    obtain ⟨m, rfl⟩ := Int.eq_ofNat_of_zero_le hpos
    exact ⟨_, (encodeWord_of_kind hk).mpr (.uint hd (by exact_mod_cast hlt))⟩

theorem encodeWord_int_iff {abiType : String} {bits : Nat} {arg : RawArgument} {n : Int}
    (hk : StaticKind.ofText abiType = .ok (.sized .int bits)) (hb : bits ≠ 0)
    (hd : Denotes true arg n) :
    (∃ word, encodeWord abiType arg = .ok word) ↔ -2 ^ (bits - 1) ≤ n ∧ n < 2 ^ (bits - 1) := by
  rw [← inSignedRange_iff hb]
  constructor
  · rintro ⟨word, hw⟩
    cases (encodeWord_of_kind hk).mp hw with
    | @int _ _ m hm hr =>
      obtain rfl := hd.unique hm
      exact hr
  · intro hr
    exact ⟨_, (encodeWord_of_kind hk).mpr (.int hd hr)⟩

/-- **Encoded arguments are decoded to their normal forms**, with the names and types of the
parameters, for every signature that is read.  An argument that stands for an integer is encoded
exactly if the integer is one of its parameter's type. -/
theorem decodeCall_of_encodeCall {text : String} (hash : Hash) (h : Signature.ofText text = .ok s) :
    (∀ args bs, encodeCall hash s args = .ok bs →
      args.length = s.params.length ∧ ∃ fields, decodeCall hash s bs = .ok (.list fields) ∧
        fields.map Field.name = s.paramNames ∧ fields.map Field.abiType = s.params.map typeText ∧
        List.Forall₂ Holds (s.params.zip args) fields) ∧
    ∀ p ∈ s.params, ∀ (arg : RawArgument) (n : Int) (bits : Nat),
      (StaticKind.ofText (typeText p) = .ok (.sized .uint bits) → Denotes false arg n →
        ((∃ word, encodeWord (typeText p) arg = .ok word) ↔ 0 ≤ n ∧ n < 2 ^ bits)) ∧
      (StaticKind.ofText (typeText p) = .ok (.sized .int bits) → Denotes true arg n →
        ((∃ word, encodeWord (typeText p) arg = .ok word) ↔
          -2 ^ (bits - 1) ≤ n ∧ n < 2 ^ (bits - 1))) := by
  have hw := Signature.wellformed_of_ofText h
  constructor
  · intro args bs he
    obtain ⟨sel, ws, hs, hl, hws, rfl⟩ := encodeCall_eq_ok.mp he
    obtain ⟨hlen, fields, hf, hnames, htypes, hall⟩ :=
      decodeWords_of_encodeWords hw.types (length_paramNames s) hl hws
    exact ⟨hl, fields, decodeCall_eq_ok.mpr ⟨sel, ws, fields, hs, rfl, hlen, hf, rfl⟩, hnames,
      htypes, hall⟩
  · intro p hp arg n bits
    refine ⟨fun hk hd => encodeWord_uint_iff hk hd, fun hk hd => ?_⟩
    have hb := bits_of_admits (by decide) ((hw.types p hp).admits hk)
    exact encodeWord_int_iff hk hb.1 hd

/-- The greatest number stands for minus one where a signed integer is expected. -/
theorem decodeCall_greatest :
    Signature.ofText "f(int8 x)" = .ok ⟨['f'], [⟨.elementary "int8".toList, ['x']⟩]⟩ ∧
    encodeCall (fun _ => Vector.replicate 32 0) ⟨['f'], [⟨.elementary "int8".toList, ['x']⟩]⟩
      [.value (.number (BitVec.allOnes 256))] =
      .ok (List.replicate 4 0 ++ List.replicate 32 255) ∧
    ∃ fields, decodeCall (fun _ => Vector.replicate 32 0)
      ⟨['f'], [⟨.elementary "int8".toList, ['x']⟩]⟩
      (List.replicate 4 0 ++ List.replicate 32 255) = .ok (.list fields) ∧
      fields.map Field.name = ["x"] ∧ fields.map Field.abiType = ["int8"] := by
  have h : Signature.ofText "f(int8 x)" =
      .ok ⟨['f'], [⟨.elementary "int8".toList, ['x']⟩]⟩ := by cbv
  have he : encodeCall (fun _ => Vector.replicate 32 0)
      ⟨['f'], [⟨.elementary "int8".toList, ['x']⟩]⟩ [.value (.number (BitVec.allOnes 256))] =
      .ok (List.replicate 4 0 ++ List.replicate 32 255) := by decide +kernel
  obtain ⟨_, fields, hd, hnames, htypes, _⟩ := (decodeCall_of_encodeCall _ h).1 _ _ he
  exact ⟨h, he, fields, hd, hnames, htypes⟩

end Abi

end WeiCalc

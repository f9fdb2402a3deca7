import Mathlib
import WeiCalc.Call.Result
import WeiCalc.Proofs.Text.Words

/-!
# Base64 and back

Bytes in base64 are characters of the alphabet and up to two equals signs.  The characters stand for
numbers of six bits, and these hold the bytes, so decoding finds the bytes again.  What the bytes
then are, a text or bytes that are no text, depends on whether they are the UTF-8 form of one.

* `Base64.encodeChars_eq`: the characters of bytes, apart from the equals signs behind them.
* `Base64.bytesOf_sextets`: the numbers of six bits hold the bytes.
* `Base64.decode?_encodeChars`: **bytes in base64 are decoded to the bytes.**
* `Text.fromUTF8?_eq_some_iff`: bytes are read as a text if they are its UTF-8 form.
* `Call.result_base64`: **texts and bytes come back from base64.**
-/

namespace WeiCalc

namespace Base64

/-! ### The alphabet -/

@[simp] theorem value?_digit {n : Nat} (h : n < 64) : value? (digit n) = some n := by
  revert n
  decide

theorem digit_ne_equals {n : Nat} (h : n < 64) : digit n ≠ '=' := by
  intro he
  have hv := value?_digit h
  rw [he] at hv
  cases hv

theorem isBlank_digit {n : Nat} (h : n < 64) : Text.isBlank (digit n) = false := by
  revert n
  decide

/-! ### Numbers of six bits -/

/-- The six bits of a number that stand `place` characters from the right. -/
def sextetAt (n place : Nat) : Nat :=
  n / Nat.pow 64 place % 64

/-- The numbers of six bits that bytes are cut into; zeros fill up the last one. -/
def sextets : Bytes → List Nat
  | a :: b :: c :: rest =>
    let n := 65536 * a.toNat + 256 * b.toNat + c.toNat
    sextetAt n 3 :: sextetAt n 2 :: sextetAt n 1 :: sextetAt n 0 :: sextets rest
  | [a, b] =>
    let n := 65536 * a.toNat + 256 * b.toNat
    [sextetAt n 3, sextetAt n 2, sextetAt n 1]
  | [a] =>
    let n := 65536 * a.toNat
    [sextetAt n 3, sextetAt n 2]
  | [] => []

/-- How many equals signs stand behind the characters of `length` bytes. -/
def padding (length : Nat) : Nat :=
  (3 - length % 3) % 3

theorem sextetAt_lt (n place : Nat) : sextetAt n place < 64 :=
  Nat.mod_lt _ (by decide)

theorem sextets_lt (bs : Bytes) : ∀ n ∈ sextets bs, n < 64 := by
  fun_induction sextets bs with
  | case1 a b c rest n ih =>
    simp only [List.forall_mem_cons]
    exact ⟨sextetAt_lt _ _, sextetAt_lt _ _, sextetAt_lt _ _, sextetAt_lt _ _, ih⟩
  | case2 a b n => simp [sextetAt_lt]
  | case3 a n => simp [sextetAt_lt]
  | case4 => simp

theorem encodeChars_eq (bs : Bytes) :
    encodeChars bs = (sextets bs).map digit ++ List.replicate (padding bs.length) '=' := by
  fun_induction sextets bs with
  | case1 a b c rest n ih =>
    have hpadding : padding (a :: b :: c :: rest).length = padding rest.length := by
      simp only [padding, List.length_cons]
      omega
    rw [encodeChars, ih, hpadding]
    rfl
  | case2 a b n => rfl
  | case3 a n => rfl
  | case4 => rfl

/-- The numbers and the equals signs are four for every three bytes that are begun. -/
theorem length_sextets (bs : Bytes) :
    (sextets bs).length + padding bs.length = 4 * ((bs.length + 2) / 3) := by
  fun_induction sextets bs with
  | case1 a b c rest n ih =>
    simp only [List.length_cons, padding] at ih ⊢
    omega
  | case2 a b n => simp [padding]
  | case3 a n => simp [padding]
  | case4 => rfl

@[simp] theorem admitsPadding_sextets (bs : Bytes) :
    admitsPadding (sextets bs).length (padding bs.length) = true := by
  have hlength := length_sextets bs
  have hp : padding bs.length < 3 := Nat.mod_lt _ (by decide)
  rw [admitsPadding]
  interval_cases padding bs.length
  · simp [show (sextets bs).length % 4 = 0 by omega]
  · simp [show (sextets bs).length % 4 = 3 by omega]
  · simp [show (sextets bs).length % 4 = 2 by omega]

/-- **The numbers of six bits hold the bytes**, by the recursion that cuts the bytes into them. -/
@[simp] theorem bytesOf_sextets (bs : Bytes) : bytesOf (sextets bs) = bs := by
  fun_induction sextets bs with
  | case1 a b c rest n ih =>
    have ha := a.toNat_lt
    have hb := b.toNat_lt
    have hc := c.toNat_lt
    simp only [bytesOf, ih, List.cons.injEq, UInt8.ofNat_eq_iff_mod_eq_toNat, and_true]
    refine ⟨?_, ?_, ?_⟩ <;> simp only [sextetAt, n, Nat.pow_eq, Nat.reducePow] <;> omega
  | case2 a b n =>
    have ha := a.toNat_lt
    have hb := b.toNat_lt
    simp only [bytesOf, List.cons.injEq, UInt8.ofNat_eq_iff_mod_eq_toNat, and_true]
    refine ⟨?_, ?_⟩ <;> simp only [sextetAt, n, Nat.pow_eq, Nat.reducePow] <;> omega
  | case3 a n =>
    have ha := a.toNat_lt
    simp only [bytesOf, List.cons.injEq, UInt8.ofNat_eq_iff_mod_eq_toNat, and_true, sextetAt, n,
      Nat.pow_eq, Nat.reducePow]
    omega
  | case4 => rfl

/-! ### Decoding -/

theorem mapM_value?_digit {ns : List Nat} (h : ∀ n ∈ ns, n < 64) :
    (ns.map digit).mapM value? = some ns := by
  induction ns with
  | nil => rfl
  | cons n ns ih =>
    obtain ⟨hn, hns⟩ := List.forall_mem_cons.mp h
    rw [List.map_cons, List.mapM_cons, value?_digit hn, ih hns]
    rfl

/-- **Bytes in base64 are decoded to the bytes.** -/
@[simp] theorem decode?_encodeChars (bs : Bytes) : decode? (encodeChars bs) = some bs := by
  have hdata : ∀ c ∈ (sextets bs).map digit, (c != '=') = true := by
    intro c hc
    obtain ⟨n, hn, rfl⟩ := List.mem_map.mp hc
    exact bne_iff_ne.mpr (digit_ne_equals (sextets_lt bs n hn))
  have htake : (encodeChars bs).takeWhile (· != '=') = (sextets bs).map digit := by
    rw [encodeChars_eq, List.takeWhile_append_of_pos hdata, List.takeWhile_replicate]
    exact List.append_nil _
  have hdrop : (encodeChars bs).dropWhile (· != '=') = List.replicate (padding bs.length) '=' := by
    rw [encodeChars_eq, List.dropWhile_append_of_pos hdata, List.dropWhile_replicate]
    rfl
  rw [decode?, htake, hdrop, mapM_value?_digit (sextets_lt bs)]
  simp

/-- There is no white space in base64. -/
@[simp] theorem trim_encodeChars (bs : Bytes) : Text.trim (encodeChars bs) = encodeChars bs := by
  have hsolid : Text.Solid (encodeChars bs) := by
    intro c hc
    rw [encodeChars_eq, List.mem_append] at hc
    rcases hc with hc | hc
    · obtain ⟨n, hn, rfl⟩ := List.mem_map.mp hc
      exact isBlank_digit (sextets_lt bs n hn)
    · rw [List.eq_of_mem_replicate hc]
      decide
  by_cases hne : encodeChars bs = []
  · rw [hne]
    rfl
  · exact (hsolid.tight hne).trim

end Base64

/-! ### Texts as bytes -/

namespace Text

theorem toList_loop (bs : ByteArray) (i : Nat) (read : List UInt8) :
    ByteArray.toList.loop bs i read = read.reverse ++ bs.data.toList.drop i := by
  induction i, read using ByteArray.toList.loop.induct bs with
  | case1 i read h ih =>
    have hi : i < bs.data.toList.length := by simpa using h
    have hget : bs.get! i = bs.data.toList[i] := by
      rw [Array.getElem_toList]
      exact getElem!_pos bs.data i (by simpa using h)
    rw [ByteArray.toList.loop, if_pos h, ih, List.drop_eq_getElem_cons hi, hget,
      List.reverse_cons, List.append_assoc]
    rfl
  | case2 i read h =>
    have hi : bs.data.toList.length ≤ i := by simpa using h
    rw [ByteArray.toList.loop, if_neg h, List.drop_eq_nil_of_le hi, List.append_nil]

theorem toList_byteArray (bs : ByteArray) : bs.toList = bs.data.toList := by
  rw [ByteArray.toList, toList_loop]
  rfl

/-- **Bytes are read as a text if they are its UTF-8 form**, and only then. -/
theorem fromUTF8?_eq_some_iff {bs : Bytes} {s : String} :
    String.fromUTF8? ⟨bs.toArray⟩ = some s ↔ bs = s.toUTF8.toList := by
  rw [toList_byteArray]
  constructor
  · intro h
    rw [String.fromUTF8?] at h
    split at h
    · cases h
      rfl
    · cases h
  · rintro rfl
    exact dif_pos s.isValidUTF8

end Text

/-! ### The functions -/

namespace Call

theorem result_base64Decode_encode (env : Environment) (bs : Bytes) (ds : Diagnostics) :
    result env ⟨.base64Decode, [.value (.text (Base64.encode bs))]⟩ ds =
      match String.fromUTF8? ⟨bs.toArray⟩ with
      | some s => .ok (.text s) ds
      | none => .ok (.bytes bs) ds := by
  have hdecode : Base64.decode? (Text.trim (Base64.encode bs).toList) = some bs := by
    rw [Base64.encode, String.toList_ofList, Base64.trim_encodeChars, Base64.decode?_encodeChars]
  have hrun : result env ⟨.base64Decode, [.value (.text (Base64.encode bs))]⟩ ds =
      (liftM (base64Decode ⟨.base64Decode, [.value (.text (Base64.encode bs))]⟩) : Eval Value) ds :=
    rfl
  have htext : text ⟨.base64Decode, [.value (.text (Base64.encode bs))]⟩ 0 =
      .ok (Base64.encode bs) := rfl
  rw [hrun, base64Decode, htext, except_ok_bind]
  simp only [hdecode]
  cases String.fromUTF8? ⟨bs.toArray⟩ <;> rfl

/-- **Texts and bytes come back from base64.**  A text comes back as it was, and so do bytes, except
that bytes that are the UTF-8 form of a text come back as that text. -/
theorem result_base64 (env : Environment) (ds : Diagnostics) :
    (∀ s : String, ∃ e,
      result env ⟨.base64Encode, [.value (.text s)]⟩ ds = .ok (.text e) ds ∧
      result env ⟨.base64Decode, [.value (.text e)]⟩ ds = .ok (.text s) ds) ∧
    ∀ bs : Bytes, ∃ e,
      result env ⟨.base64Encode, [.value (.bytes bs)]⟩ ds = .ok (.text e) ds ∧
      (∀ s : String, bs = s.toUTF8.toList →
        result env ⟨.base64Decode, [.value (.text e)]⟩ ds = .ok (.text s) ds) ∧
      ((¬∃ s : String, bs = s.toUTF8.toList) →
        result env ⟨.base64Decode, [.value (.text e)]⟩ ds = .ok (.bytes bs) ds) := by
  have htext : ∀ {bs : Bytes} (s : String), bs = s.toUTF8.toList →
      result env ⟨.base64Decode, [.value (.text (Base64.encode bs))]⟩ ds = .ok (.text s) ds := by
    intro bs s hs
    rw [result_base64Decode_encode, Text.fromUTF8?_eq_some_iff.mpr hs]
  constructor
  · intro s
    exact ⟨Base64.encode s.toUTF8.toList, rfl, htext s rfl⟩
  · intro bs
    refine ⟨Base64.encode bs, rfl, fun s hs => htext s hs, fun hno => ?_⟩
    have hnone : String.fromUTF8? ⟨bs.toArray⟩ = none := by
      rw [Option.eq_none_iff_forall_ne_some]
      exact fun s hs => hno ⟨s, Text.fromUTF8?_eq_some_iff.mp hs⟩
    rw [result_base64Decode_encode, hnone]

/-- The three bytes of a sign come back as text, and an overlong form of a character as bytes. -/
theorem result_base64_overlong :
    let env : Environment := ⟨.standard 0, fun _ => Vector.replicate 32 0⟩
    (∃ e, result env ⟨.base64Encode, [.value (.bytes [0xe2, 0x82, 0xac])]⟩ #[] = .ok (.text e) #[] ∧
      result env ⟨.base64Decode, [.value (.text e)]⟩ #[] = .ok (.text "€") #[]) ∧
    ∃ e, result env ⟨.base64Encode, [.value (.bytes [0xc0, 0x80])]⟩ #[] = .ok (.text e) #[] ∧
      result env ⟨.base64Decode, [.value (.text e)]⟩ #[] = .ok (.bytes [0xc0, 0x80]) #[] := by
  intro env
  have hsign : ([0xe2, 0x82, 0xac] : Bytes) = "€".toUTF8.toList := by decide +kernel
  have hoverlong : ¬∃ s : String, ([0xc0, 0x80] : Bytes) = s.toUTF8.toList := by
    rintro ⟨s, hs⟩
    have hnone : (String.fromUTF8? ⟨#[0xc0, 0x80]⟩).isNone = true := by decide +kernel
    rw [Text.fromUTF8?_eq_some_iff.mpr hs] at hnone
    cases hnone
  obtain ⟨e, he, htext, -⟩ := (result_base64 env #[]).2 [0xe2, 0x82, 0xac]
  obtain ⟨e', he', -, hbytes⟩ := (result_base64 env #[]).2 [0xc0, 0x80]
  exact ⟨⟨e, he, htext "€" hsign⟩, e', he', hbytes hoverlong⟩

end Call

end WeiCalc

import Mathlib
import WeiCalc.Proofs.Abi.Argument
import WeiCalc.Proofs.Token.Integer

/-!
# Words of calldata

Encoding writes an argument into a word, and decoding reads a word as a value; both go by the kind of
the type.  Their results are relations between argument, word and value here, from which both round
trips follow kind by kind.

* `encodeWord_eq_ok`, `decodeWord_eq_ok`: what the two operations answer.
* `encodes_of_decodes`: the value that a word is read as is encoded as that word.
* `decodes_of_encodes`: the word of an argument is read as the normal form of the argument.
-/

namespace WeiCalc

namespace Abi

variable {abiType : String} {arg : RawArgument} {word : Bytes} {v : Value}

/-! ### Words and numbers -/

theorem capacity_eq : Word.capacity = 256 ^ wordSize := by
  change 2 ^ 256 = 256 ^ 32
  norm_num

theorem toNat_word_lt (hl : word.length = wordSize) : Bytes.toNat word < Word.capacity := by
  rw [capacity_eq, ← hl]
  exact Bytes.toNat_lt word

theorem toNat_ofNat_word {n : Nat} (h : n < Word.capacity) :
    Bytes.toNat (Bytes.ofNat wordSize n) = n :=
  Bytes.toNat_ofNat_of_lt (by rwa [← capacity_eq])

theorem value_ofNat_of_lt {n : Nat} (h : n < Word.capacity) :
    Value.ofNat n = .ok (.number (BitVec.ofNat 256 n)) := by
  rw [Value.ofNat, Word.ofNat?, if_pos h]

/-! ### What encoding answers -/

/-- The word of an argument of a kind. -/
inductive Encodes : StaticKind → RawArgument → Bytes → Prop
  | uint {arg : RawArgument} {bits n : Nat} : Denotes false arg n → n < 2 ^ bits →
      Encodes (.sized .uint bits) arg (Bytes.ofNat wordSize n)
  | int {arg : RawArgument} {bits : Nat} {n : Int} : Denotes true arg n →
      inSignedRange n bits = true →
      Encodes (.sized .int bits) arg (Bytes.ofNat wordSize (n % Word.capacity).toNat)
  | address {arg : RawArgument} {n : Nat} : DenotesAddress arg n →
      Encodes .address arg (Bytes.ofNat wordSize n)
  | bool {arg : RawArgument} {b : Bool} : DenotesBool arg b →
      Encodes .bool arg (Bytes.ofNat wordSize b.toNat)
  | bytes {arg : RawArgument} {size : Nat} {bs : Bytes} : DenotesBytes size arg bs →
      Encodes (.sized .bytes size) arg (bs ++ List.replicate (wordSize - bs.length) 0)

theorem encodeUint_eq_ok {i : Int} {bits : Nat} :
    encodeUint i bits abiType = .ok word ↔
      ∃ n : Nat, i = n ∧ n < 2 ^ bits ∧ word = Bytes.ofNat wordSize n := by
  rw [encodeUint, ite_eq_ok]
  constructor
  · rintro ⟨⟨hpos, hlt⟩, hw⟩
    cases hw
    obtain ⟨n, rfl⟩ := Int.eq_ofNat_of_zero_le hpos
    exact ⟨n, rfl, Int.ofNat_lt.mp hlt, rfl⟩
  · rintro ⟨n, rfl, hn, rfl⟩
    exact ⟨⟨Int.natCast_nonneg n, Int.ofNat_lt.mpr hn⟩, rfl⟩

theorem encodeInt_eq_ok {i : Int} {bits : Nat} :
    encodeInt i bits abiType = .ok word ↔
      inSignedRange i bits = true ∧ word = Bytes.ofNat wordSize (i % Word.capacity).toNat := by
  rw [encodeInt, ite_eq_ok, Except.ok.injEq]
  exact and_congr_right fun _ => eq_comm

theorem encodeUint_bind_eq_ok {bits : Nat} {x : Except EvalError Int} :
    (x >>= fun i => encodeUint i bits abiType) = .ok word ↔
      ∃ n : Nat, x = .ok (n : Int) ∧ n < 2 ^ bits ∧ word = Bytes.ofNat wordSize n := by
  rw [except_bind_eq_ok_iff]
  constructor
  · rintro ⟨i, hi, h⟩
    obtain ⟨n, rfl, hn, hw⟩ := encodeUint_eq_ok.mp h
    exact ⟨n, hi, hn, hw⟩
  · rintro ⟨n, hx, hn, hw⟩
    exact ⟨n, hx, encodeUint_eq_ok.mpr ⟨n, rfl, hn, hw⟩⟩

theorem encodeInt_bind_eq_ok {bits : Nat} {x : Except EvalError Int} :
    (x >>= fun i => encodeInt i bits abiType) = .ok word ↔
      ∃ i, x = .ok i ∧ inSignedRange i bits = true ∧
        word = Bytes.ofNat wordSize (i % Word.capacity).toNat := by
  rw [except_bind_eq_ok_iff]
  exact exists_congr fun i => and_congr_right fun _ => encodeInt_eq_ok

/-- Hexadecimal text as an address. -/
theorem encodeAddress_text {x : Except EvalError Bytes} :
    (do return Bytes.ofNat wordSize (Bytes.toNat (← x)) : Except EvalError Bytes) = .ok word ↔
      ∃ bs, x = .ok bs ∧ word = Bytes.ofNat wordSize (Bytes.toNat bs) := by
  rw [except_bind_eq_ok_iff]
  constructor
  · rintro ⟨bs, hx, h⟩
    cases h
    exact ⟨bs, hx, rfl⟩
  · rintro ⟨bs, hx, rfl⟩
    exact ⟨bs, hx, rfl⟩

theorem encodeAddress_eq_ok : encodeAddress abiType arg = .ok word ↔ Encodes .address arg word := by
  constructor
  · intro h
    cases arg with
    | piece t =>
      obtain ⟨bs, hb, rfl⟩ := encodeAddress_text.mp h
      cases argumentBytes_eq_ok.mp hb with
      | piece ht hl => exact .address (.piece ht hl)
    | value v =>
      cases v with
      | text t =>
        obtain ⟨bs, hb, rfl⟩ := encodeAddress_text.mp h
        cases argumentBytes_eq_ok.mp hb with
        | text ht hl => exact .address (.text ht hl)
      | bytes bs => cases h
      | list fields => cases h
      | bool b =>
        obtain ⟨n, hn, _, rfl⟩ := encodeUint_bind_eq_ok.mp h
        obtain rfl : b.toNat = n := by cases argumentInteger_eq_ok.mp hn; omega
        exact .address (.bool b)
      | uint w hint =>
        obtain ⟨n, hn, hlt, rfl⟩ := encodeUint_bind_eq_ok.mp h
        obtain rfl : w.toNat = n := Int.ofNat.inj (Except.ok.inj hn)
        exact .address (.number hint hlt)
  · intro h
    obtain ⟨n, hd, rfl⟩ : ∃ n, DenotesAddress arg n ∧ word = Bytes.ofNat wordSize n := by
      cases h with
      | address hd => exact ⟨_, hd, rfl⟩
    cases hd with
    | piece ht hl => exact encodeAddress_text.mpr ⟨_, argumentBytes_eq_ok.mpr (.piece ht hl), rfl⟩
    | text ht hl => exact encodeAddress_text.mpr ⟨_, argumentBytes_eq_ok.mpr (.text ht hl), rfl⟩
    | bool b => exact encodeUint_bind_eq_ok.mpr ⟨b.toNat, rfl, by cases b <;> decide, rfl⟩
    | @number w hint hlt => exact encodeUint_bind_eq_ok.mpr ⟨w.toNat, rfl, hlt, rfl⟩

theorem encodeBytes_eq_ok {size : Nat} :
    (do
      let bs ← argumentBytes size abiType arg
      return bs ++ List.replicate (wordSize - bs.length) 0 : Except EvalError Bytes) = .ok word ↔
      Encodes (.sized .bytes size) arg word := by
  constructor
  · intro h
    obtain ⟨bs, hb, h⟩ := except_bind_eq_ok h
    cases h
    exact .bytes (argumentBytes_eq_ok.mp hb)
  · intro h
    cases h with
    | bytes hb => rw [argumentBytes_eq_ok.mpr hb]; rfl

theorem encodeBool_eq_ok :
    (argumentBool arg >>= fun b => encodeUint b.toNat 8 abiType) = .ok word ↔
      Encodes .bool arg word := by
  constructor
  · intro h
    obtain ⟨b, hb, h⟩ := except_bind_eq_ok h
    obtain ⟨n, hn, _, rfl⟩ := encodeUint_eq_ok.mp h
    obtain rfl : b.toNat = n := Int.ofNat.inj hn
    exact .bool (argumentBool_eq_ok.mp hb)
  · intro h
    cases h with
    | @bool _ b hb =>
      have hlt : b.toNat < 2 ^ 8 := by cases b <;> decide
      rw [argumentBool_eq_ok.mpr hb, except_ok_bind, encodeUint_eq_ok]
      exact ⟨b.toNat, rfl, hlt, rfl⟩

theorem liftM_ok_bind (k : StaticKind) (f : StaticKind → Except EvalError Bytes) :
    (liftM (.ok k : Except Cause StaticKind) >>= f) = f k := rfl

/-- The word of an argument, once the kind of its type is known. -/
theorem encodeWord_of_kind {k : StaticKind} (hk : StaticKind.ofText abiType = .ok k) :
    encodeWord abiType arg = .ok word ↔ Encodes k arg word := by
  rw [encodeWord, hk, liftM_ok_bind]
  cases k with
  | address => exact encodeAddress_eq_ok
  | bool => exact encodeBool_eq_ok
  | sized name size =>
    cases name with
    | uint =>
      refine encodeUint_bind_eq_ok.trans ⟨?_, fun h => ?_⟩
      · rintro ⟨n, hn, hlt, rfl⟩
        exact .uint (argumentInteger_eq_ok.mp hn) hlt
      · cases h with
        | @uint _ _ n hd hlt => exact ⟨n, argumentInteger_eq_ok.mpr hd, hlt, rfl⟩
    | int =>
      refine encodeInt_bind_eq_ok.trans ⟨?_, fun h => ?_⟩
      · rintro ⟨i, hi, hr, rfl⟩
        exact .int (argumentInteger_eq_ok.mp hi) hr
      · cases h with
        | @int _ _ i hd hr => exact ⟨i, argumentInteger_eq_ok.mpr hd, hr, rfl⟩
    | bytes => exact encodeBytes_eq_ok

/-- **Encoding an argument answers the word of its type's kind.** -/
theorem encodeWord_eq_ok : encodeWord abiType arg = .ok word ↔
    ∃ k, StaticKind.ofText abiType = .ok k ∧ Encodes k arg word := by
  cases hk : StaticKind.ofText abiType with
  | error e =>
    constructor
    · intro h
      rw [encodeWord, hk] at h
      cases h
    · rintro ⟨k, hk', _⟩
      cases hk'
  | ok k =>
    rw [encodeWord_of_kind hk]
    constructor
    · intro h
      exact ⟨k, rfl, h⟩
    · rintro ⟨k', hk', h⟩
      cases hk'
      exact h

/-- The word of an address in a list is that of its bytes. -/
theorem encodes_address_piece {text : String} : Encodes .address (.piece text) word ↔
    ∃ bs, Hex.data? text = some bs ∧ bs.length ≤ 20 ∧
      word = Bytes.ofNat wordSize (Bytes.toNat bs) := by
  constructor
  · intro h
    cases h with
    | address ha =>
      cases ha with
      | piece ht hl => exact ⟨_, ht, hl, rfl⟩
  · rintro ⟨bs, ht, hl, rfl⟩
    exact .address (.piece ht hl)

/-- Text by itself is the same address as in a list. -/
theorem encodes_address_text {text : String} :
    Encodes .address (.value (.text text)) word ↔ Encodes .address (.piece text) word := by
  constructor
  · intro h
    cases h with
    | address ha =>
      cases ha with
      | text ht hl => exact .address (.piece ht hl)
  · intro h
    cases h with
    | address ha =>
      cases ha with
      | piece ht hl => exact .address (.text ht hl)

/-! ### What decoding answers -/

/-- The value of a word of a kind. -/
inductive Decodes : StaticKind → Bytes → Value → Prop
  | uint {word : Bytes} {bits : Nat} : Bytes.toNat word < 2 ^ bits →
      Decodes (.sized .uint bits) word (.number (BitVec.ofNat 256 (Bytes.toNat word)))
  | int {word : Bytes} {bits n : Nat} : signedOfWord (Bytes.toNat word) = n →
      inSignedRange n bits = true → Decodes (.sized .int bits) word (.number (BitVec.ofNat 256 n))
  | negative {word : Bytes} {bits : Nat} {n : Int} : signedOfWord (Bytes.toNat word) = n → n < 0 →
      inSignedRange n bits = true → Decodes (.sized .int bits) word (.text (toString n))
  | address {word : Bytes} : Bytes.toNat word < 2 ^ 160 →
      Decodes .address word (.address (BitVec.ofNat 256 (Bytes.toNat word)))
  | bool {word : Bytes} (b : Bool) : Bytes.toNat word = b.toNat → Decodes .bool word (.bool b)
  | bytes {word : Bytes} {size : Nat} : (∀ b ∈ word.drop size, b = 0) →
      Decodes (.sized .bytes size) word (.bytes (word.take size))

theorem capacity_cast : (Word.capacity : Int) = 2 ^ 256 := by
  norm_num

theorem signedOfWord_lt {n : Nat} (h : n < Word.capacity) : signedOfWord n < 2 ^ 255 := by
  rw [signedOfWord, capacity_cast]
  have hc : Word.capacity = 2 ^ 256 := rfl
  split_ifs <;> omega

theorem le_signedOfWord (n : Nat) : -2 ^ 255 ≤ signedOfWord n := by
  rw [signedOfWord, capacity_cast]
  have hc : Word.capacity = 2 ^ 256 := rfl
  split_ifs <;> omega

theorem signedOfWord_emod {n : Nat} (h : n < Word.capacity) :
    (signedOfWord n % Word.capacity).toNat = n := by
  have hc : Word.capacity = 2 ^ 256 := rfl
  rw [signedOfWord, capacity_cast]
  split_ifs <;> omega

/-- Two's complement is undone by reading it. -/
theorem signedOfWord_toNat {i : Int} (h : -2 ^ 255 ≤ i) (h' : i < 2 ^ 255) :
    signedOfWord (i % Word.capacity).toNat = i := by
  have hc : Word.capacity = 2 ^ 256 := rfl
  rw [signedOfWord, capacity_cast]
  split_ifs <;> omega

theorem ofInt_signedOfWord {n : Nat} (h : n < Word.capacity) :
    Value.ofInt (signedOfWord n) = .ok v ↔
      (∃ m : Nat, signedOfWord n = m ∧ v = .number (BitVec.ofNat 256 m)) ∨
      (signedOfWord n < 0 ∧ v = .text (toString (signedOfWord n))) := by
  have hlt := signedOfWord_lt h
  cases hs : signedOfWord n with
  | ofNat m =>
    have hm : m < Word.capacity := by
      have hc : Word.capacity = 2 ^ 256 := rfl
      rw [hs] at hlt
      have hlt' : (m : Int) < 2 ^ 255 := hlt
      omega
    rw [Value.ofInt, value_ofNat_of_lt hm]
    constructor
    · intro hv
      exact Or.inl ⟨m, rfl, (Except.ok.inj hv).symm⟩
    · rintro (⟨k, hk, rfl⟩ | ⟨hneg, _⟩)
      · rw [Int.ofNat.inj hk]
      · exact absurd hneg (Int.not_lt.mpr (Int.natCast_nonneg m))
  | negSucc m =>
    rw [Value.ofInt]
    constructor
    · intro hv
      exact Or.inr ⟨Int.negSucc_lt_zero m, (Except.ok.inj hv).symm⟩
    · rintro (⟨k, hk, _⟩ | ⟨_, rfl⟩)
      · cases hk
      · rfl

/-- The value of a word, once the kind of its type is known. -/
theorem decodeWord_of_kind {k : StaticKind} (hk : StaticKind.ofText abiType = .ok k)
    (hl : word.length = wordSize) : decodeWord abiType word = .ok v ↔ Decodes k word v := by
  have hlt := toNat_word_lt hl
  rw [decodeWord, hk]
  cases k with
  | address =>
    refine ite_eq_ok.trans ⟨?_, fun h => ?_⟩
    · rintro ⟨h, hv⟩
      cases hv
      exact .address h
    · cases h with
      | address h => exact ⟨h, rfl⟩
  | bool =>
    refine ite_eq_ok.trans ⟨?_, fun h => ?_⟩
    · rintro ⟨h, hv⟩
      cases hv
      refine .bool _ ?_
      interval_cases Bytes.toNat word <;> rfl
    · cases h with
      | bool b hb => rw [hb]; cases b <;> exact ⟨by decide, rfl⟩
  | sized name size =>
    cases name with
    | uint =>
      refine ite_eq_ok.trans ⟨?_, fun h => ?_⟩
      · rintro ⟨h, hv⟩
        rw [value_ofNat_of_lt hlt] at hv
        cases hv
        exact .uint h
      · cases h with
        | uint h => exact ⟨h, value_ofNat_of_lt hlt⟩
    | int =>
      refine ite_eq_ok.trans ⟨?_, fun h => ?_⟩
      · rintro ⟨h, hv⟩
        rcases (ofInt_signedOfWord hlt).mp hv with ⟨m, hm, rfl⟩ | ⟨hneg, rfl⟩
        · exact .int hm (hm ▸ h)
        · exact .negative rfl hneg h
      · cases h with
        | int hm h => exact ⟨hm ▸ h, (ofInt_signedOfWord hlt).mpr (Or.inl ⟨_, hm, rfl⟩)⟩
        | negative hm hneg h =>
          subst hm
          exact ⟨h, (ofInt_signedOfWord hlt).mpr (Or.inr ⟨hneg, rfl⟩)⟩
    | bytes =>
      have ha : (word.drop size).all (· == 0) = true ↔ ∀ b ∈ word.drop size, b = 0 := by
        simp [List.all_eq_true]
      refine ite_eq_ok.trans ⟨?_, fun h => ?_⟩
      · rintro ⟨h, hv⟩
        cases hv
        exact .bytes (ha.mp h)
      · cases h with
        | bytes h => exact ⟨ha.mpr h, rfl⟩

/-- **Decoding a word answers the value of its type's kind.** -/
theorem decodeWord_eq_ok (hl : word.length = wordSize) : decodeWord abiType word = .ok v ↔
    ∃ k, StaticKind.ofText abiType = .ok k ∧ Decodes k word v := by
  cases hk : StaticKind.ofText abiType with
  | error e =>
    constructor
    · intro h
      rw [decodeWord, hk] at h
      cases h
    · rintro ⟨k, hk', _⟩
      cases hk'
  | ok k =>
    rw [decodeWord_of_kind hk hl]
    constructor
    · intro h
      exact ⟨k, rfl, h⟩
    · rintro ⟨k', hk', h⟩
      cases hk'
      exact h

/-! ### From words to values and back -/

theorem take_append_zeros {size : Nat} (hl : word.length = wordSize)
    (h : ∀ b ∈ word.drop size, b = 0) :
    word.take size ++ List.replicate (wordSize - (word.take size).length) 0 = word := by
  have hd : word.drop size = List.replicate (word.length - size) 0 := by
    rw [List.eq_replicate_iff]
    exact ⟨List.length_drop, h⟩
  have hn : wordSize - (word.take size).length = word.length - size := by
    rw [List.length_take, hl]
    omega
  rw [hn, ← hd, List.take_append_drop]

/-- **The value that a word is read as is encoded as that word.** -/
theorem encodes_of_decodes {k : StaticKind} (hl : word.length = wordSize)
    (h : Decodes k word v) : Encodes k (.value v) word := by
  have hlt := toNat_word_lt hl
  have hw : Bytes.ofNat wordSize (Bytes.toNat word) = word := Bytes.ofNat_toNat_of_length hl
  have hs : Bytes.ofNat wordSize
      (signedOfWord (Bytes.toNat word) % Word.capacity).toNat = word := by
    rw [signedOfWord_emod hlt, hw]
  cases h with
  | uint h =>
    have hd : Denotes false (.value (.number (BitVec.ofNat 256 (Bytes.toNat word))))
        (BitVec.ofNat 256 (Bytes.toNat word)).toNat := .number none (Or.inl rfl)
    rw [Word.toNat_ofNat_of_lt hlt] at hd
    have he := Encodes.uint hd h
    rwa [hw] at he
  | @int _ bits n hn hr =>
    have hlt' := signedOfWord_lt hlt
    rw [hn] at hlt' hs
    have hn' : (BitVec.ofNat 256 n).toNat = n := Word.toNat_ofNat_of_lt (by
      have hc : Word.capacity = 2 ^ 256 := rfl
      omega)
    have hd : Denotes true (.value (.number (BitVec.ofNat 256 n))) (BitVec.ofNat 256 n).toNat :=
      .number none (Or.inr (by omega))
    rw [hn'] at hd
    have he := Encodes.int hd hr
    rwa [hs] at he
  | @negative _ bits n hn hneg hr =>
    have hle := le_signedOfWord (Bytes.toNat word)
    rw [hn] at hle hs
    have hd : Denotes true (.value (.text (toString n))) n := by
      refine .text (integerOfText_toString ?_)
      have hc : Word.capacity = 2 ^ 256 := rfl
      omega
    have he := Encodes.int hd hr
    rwa [hs] at he
  | address h =>
    have hn := DenotesAddress.number (w := BitVec.ofNat 256 (Bytes.toNat word)) (some 20)
    rw [Word.toNat_ofNat_of_lt hlt] at hn
    have he := Encodes.address (hn h)
    rwa [hw] at he
  | bool b hb =>
    have he := Encodes.bool (DenotesBool.bool b)
    rwa [← hb, hw] at he
  | @bytes _ size h =>
    have hb : (word.take size).length ≤ size := by
      rw [List.length_take]
      exact Nat.min_le_left _ _
    have he := Encodes.bytes (DenotesBytes.bytes hb)
    rwa [take_append_zeros hl h] at he

/-! ### From arguments to words and back -/

/-- The value that stands for an argument of a kind in decoded calldata. -/
inductive NormalForm : StaticKind → RawArgument → Value → Prop
  | uint {arg : RawArgument} {bits : Nat} {w : Word} : Denotes false arg w.toNat →
      NormalForm (.sized .uint bits) arg (.number w)
  | int {arg : RawArgument} {bits : Nat} {w : Word} : Denotes true arg w.toNat →
      NormalForm (.sized .int bits) arg (.number w)
  | negative {arg : RawArgument} {bits : Nat} {n : Int} : Denotes true arg n → n < 0 →
      NormalForm (.sized .int bits) arg (.text (toString n))
  | address {arg : RawArgument} {w : Word} : DenotesAddress arg w.toNat →
      NormalForm .address arg (.address w)
  | bool {arg : RawArgument} {b : Bool} : DenotesBool arg b → NormalForm .bool arg (.bool b)
  | bytes {arg : RawArgument} {size : Nat} {bs : Bytes} : DenotesBytes size arg bs →
      NormalForm (.sized .bytes size) arg (.bytes (bs ++ List.replicate (size - bs.length) 0))

theorem DenotesAddress.lt {n : Nat} (h : DenotesAddress arg n) : n < 2 ^ 160 := by
  have hp : ∀ {bs : Bytes}, bs.length ≤ 20 → Bytes.toNat bs < 2 ^ 160 := by
    intro bs hl
    have h256 : 256 ^ bs.length ≤ 256 ^ 20 := Nat.pow_le_pow_right (by decide) hl
    exact lt_of_lt_of_le (Bytes.toNat_lt bs) h256
  cases h with
  | piece _ hl => exact hp hl
  | text _ hl => exact hp hl
  | bool b => cases b <;> decide
  | number _ h => exact h

/-- The bounds of the signed integers of a number of bits. -/
theorem inSignedRange_iff {n : Int} {bits : Nat} (hb : bits ≠ 0) :
    inSignedRange n bits = true ↔ -2 ^ (bits - 1) ≤ n ∧ n < 2 ^ (bits - 1) := by
  obtain ⟨m, rfl⟩ := Nat.exists_eq_succ_of_ne_zero hb
  have hp : ((Nat.pow 2 (m + 1) : Nat) : Int) = 2 * 2 ^ m := by
    change ((2 ^ (m + 1) : Nat) : Int) = _
    push_cast
    ring
  rw [inSignedRange, Bool.and_eq_true, decide_eq_true_eq, decide_eq_true_eq, hp]
  simp only [Nat.succ_eq_add_one, Nat.add_sub_cancel]
  constructor
  · rintro ⟨h, h'⟩
    constructor <;> linarith
  · rintro ⟨h, h'⟩
    constructor <;> linarith

/-- A kind whose size is one of the contract interface. -/
def StaticKind.Admitted (k : StaticKind) : Prop :=
  ∀ name size, k = .sized name size → name.admits size = true

theorem bits_of_admits {name : SizedName} {bits : Nat} (hn : name ≠ .bytes)
    (h : name.admits bits = true) : bits ≠ 0 ∧ bits ≤ 256 := by
  cases name with
  | bytes => exact absurd rfl hn
  | _ =>
    simp only [SizedName.admits, Bool.and_eq_true, decide_eq_true_eq] at h
    omega

/-- Two's complement reads an integer of at most 256 bits back. -/
theorem signedOfWord_of_inSignedRange {n : Int} {bits : Nat} (hb : bits ≠ 0 ∧ bits ≤ 256)
    (hr : inSignedRange n bits = true) : signedOfWord (n % Word.capacity).toNat = n := by
  obtain ⟨hlo, hhi⟩ := (inSignedRange_iff hb.1).mp hr
  have hp : (2 : Int) ^ (bits - 1) ≤ 2 ^ 255 := pow_le_pow_right₀ (by decide) (by omega)
  exact signedOfWord_toNat (by linarith) (by linarith)

theorem emod_capacity_lt (n : Int) : (n % Word.capacity).toNat < Word.capacity := by
  have hc : (Word.capacity : Int) = 2 ^ 256 := capacity_cast
  have hc' : Word.capacity = 2 ^ 256 := rfl
  rw [hc]
  omega

/-- **The word of an argument is read as the normal form of the argument.** -/
theorem decodes_of_encodes {k : StaticKind} (hk : StaticKind.Admitted k) (h : Encodes k arg word) :
    word.length = wordSize ∧ ∃ v, Decodes k word v ∧ NormalForm k arg v := by
  have hc : Word.capacity = 2 ^ 256 := rfl
  cases h with
  | @uint _ bits n hd hn =>
    have hb := bits_of_admits (by decide) (hk .uint bits rfl)
    have hlt : n < Word.capacity := lt_of_lt_of_le hn (Nat.pow_le_pow_right (by decide) hb.2)
    have ht := toNat_ofNat_word hlt
    refine ⟨by simp, _, .uint (by rwa [ht]), .uint ?_⟩
    rwa [ht, Word.toNat_ofNat_of_lt hlt]
  | @int _ bits n hd hr =>
    have hb := bits_of_admits (by decide) (hk .int bits rfl)
    have hs := signedOfWord_of_inSignedRange hb hr
    rw [← toNat_ofNat_word (emod_capacity_lt n)] at hs
    refine ⟨by simp, ?_⟩
    rcases Int.lt_or_le n 0 with hneg | hpos
    · exact ⟨_, .negative hs hneg hr, .negative hd hneg⟩
    · obtain ⟨m, rfl⟩ := Int.eq_ofNat_of_zero_le hpos
      have hm : m < Word.capacity := by
        have hlt := signedOfWord_lt (emod_capacity_lt (m : Int))
        rw [signedOfWord_of_inSignedRange hb hr] at hlt
        omega
      refine ⟨_, .int hs hr, .int ?_⟩
      rwa [Word.toNat_ofNat_of_lt hm]
  | @address _ n hd =>
    have hlt := hd.lt
    have ht := toNat_ofNat_word (n := n) (by omega)
    refine ⟨by simp, _, .address (by rwa [ht]), .address ?_⟩
    rwa [ht, Word.toNat_ofNat_of_lt (by omega)]
  | @bool _ b hd =>
    have ht := toNat_ofNat_word (n := b.toNat) (by cases b <;> decide)
    exact ⟨by simp, _, .bool b ht, .bool hd⟩
  | @bytes _ size bs hd =>
    have hs : size ≤ wordSize := by
      have ha := hk .bytes size rfl
      simp only [SizedName.admits, Bool.and_eq_true, decide_eq_true_eq] at ha
      exact ha.2
    have hl := hd.length_le
    -- The zeros behind the bytes are those that fill up the type and those that fill up the word.
    have he : bs ++ List.replicate (wordSize - bs.length) (0 : UInt8) =
        (bs ++ List.replicate (size - bs.length) 0) ++ List.replicate (wordSize - size) 0 := by
      rw [List.append_assoc, List.replicate_append_replicate]
      congr 2
      omega
    have hf : (bs ++ List.replicate (size - bs.length) (0 : UInt8)).length = size := by
      rw [List.length_append, List.length_replicate]
      omega
    rw [he]
    refine ⟨?_, _, Decodes.bytes ?_, ?_⟩
    · rw [List.length_append, hf, List.length_replicate]
      omega
    · rw [List.drop_left' hf]
      intro b hb
      exact List.eq_of_mem_replicate hb
    · rw [List.take_left' hf]
      exact .bytes hd

end Abi

end WeiCalc

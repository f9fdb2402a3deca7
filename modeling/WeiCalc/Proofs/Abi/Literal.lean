import Mathlib
import WeiCalc.Proofs.Abi.Calldata
import WeiCalc.Proofs.Token.Literal

/-!
# Number literals as arguments

A number can be an argument by itself or stand in a text that lists the arguments.  By itself it is
its number for every type; within a text it is its number only where the type is one of the integers.
A text stands for a truth value if it is one of four words, and for an address if it is hexadecimal
data, with or without a mark in front.

* `Alike`: the literals that are the same argument either way; `alike_of_hex`: bytes behind a mark.
* `encodeWord_listed_iff`: one argument; `encodeWords_listed_iff`: all of them.
-/

namespace WeiCalc

namespace Abi

/-! ### Literals that are the same argument either way -/

/-- A literal is the same argument of a kind within a text as by itself. -/
inductive Alike (x : NumberText) : StaticKind → Prop
  | uint (bits : Nat) : Alike x (.sized .uint bits)
  | int (bits : Nat) : Alike x (.sized .int bits)
  | bool : x.text = "0" ∨ x.text = "1" → Alike x .bool
  | address {bs : Bytes} : Hex.data? x.text = some bs → bs.length ≤ 20 →
      Bytes.toNat bs = x.toNat → Alike x .address

/-- A literal by itself. -/
def alone (x : NumberText) : RawArgument := .value (.number x.literal.value)

/-- A literal within a text. -/
def listed (x : NumberText) : RawArgument := .piece x.text

variable {abiType : String} {k : StaticKind} {x : NumberText} {word : Bytes}

/-! ### Truth values -/

theorem toLower_of_isDigit {c : Char} (h : c.isDigit = true) : c.toLower = c := by
  refine Char.toLower_eq_of_not_isUpper fun hu => ?_
  have hc := toNat_of_isDigit h
  have hlo : 65 ≤ c.toNat ∧ c.toNat ≤ 90 := by
    simpa [Char.isUpper, UInt32.le_iff_toNat_le] using hu
  omega

/-- No letter is in front of a literal that is changed to lower case. -/
theorem eq_of_lower {word : String}
    (h : String.ofList ((Text.trim x.text.toList).map Char.toLower) = word) :
    ∃ c cs, x.text.toList = c :: cs ∧ c.isDigit = true ∧
      word.toList = c :: cs.map Char.toLower := by
  obtain ⟨c, cs, -, ht, hc, -⟩ := x.eq_number
  refine ⟨c, cs, ht, hc, ?_⟩
  rw [← h, String.toList_ofList, x.bare.trim, ht, List.map_cons, toLower_of_isDigit hc]

theorem text_of_lower {word : String} {d : Char} (hw : word.toList = [d])
    (h : String.ofList ((Text.trim x.text.toList).map Char.toLower) = word) : x.text = word := by
  obtain ⟨c, cs, ht, -, he⟩ := eq_of_lower h
  rw [hw] at he
  obtain ⟨rfl, hnil⟩ := List.cons.inj he
  rw [← String.toList_inj, ht, hw, List.map_eq_nil_iff.mp hnil.symm]

theorem boolOfText_eq_ok {b : Bool} :
    boolOfText x.text = .ok b ↔ x.text = if b then "1" else "0" := by
  constructor
  · intro h
    have hword : ∀ {word : String}, word.toList.head?.any Char.isDigit = false →
        String.ofList ((Text.trim x.text.toList).map Char.toLower) ≠ word := by
      rintro word hd hw
      obtain ⟨c, cs, -, hc, he⟩ := eq_of_lower hw
      rw [he] at hd
      simp [hc] at hd
    rw [boolOfText] at h
    split at h
    · rename_i hw
      cases h
      exact text_of_lower rfl (hw.resolve_left (hword (by decide)))
    split at h
    · rename_i hw
      cases h
      exact text_of_lower rfl (hw.resolve_left (hword (by decide)))
    · cases h
  · intro h
    rw [h]
    cases b <;> decide +kernel

/-- The digits nought and one are the numbers nought and one. -/
theorem toNat_of_text {b : Bool} (h : x.text = if b then "1" else "0") : x.toNat = b.toNat := by
  cases b with
  | false =>
    have hr : Token.ofLine "0" = .ok [⟨.number, "0", 0⟩, ⟨.stop, "", 1⟩] := by decide +kernel
    have hl : NumberLiteral.ofToken ⟨.number, "0", 0⟩ = .ok ⟨0, "0", none⟩ := by decide +kernel
    rw [x.toNat_eq (by rw [h]; exact hr) hl]
    rfl
  | true =>
    have hr : Token.ofLine "1" = .ok [⟨.number, "1", 0⟩, ⟨.stop, "", 1⟩] := by decide +kernel
    have hl : NumberLiteral.ofToken ⟨.number, "1", 0⟩ = .ok ⟨1, "1", none⟩ := by decide +kernel
    rw [x.toNat_eq (by rw [h]; exact hr) hl]
    rfl

/-! ### One argument -/

/-- Where an integer is expected, a literal is its number either way. -/
theorem argumentInteger_listed (signed : Bool) (hx : x.toNat < 2 ^ 255) :
    argumentInteger abiType signed (listed x) = argumentInteger abiType signed (alone x) := by
  have hl : argumentInteger abiType signed (listed x) = .ok (x.toNat : Int) :=
    argumentInteger_eq_ok.mpr (.piece x.integerOfText)
  have ha : argumentInteger abiType signed (alone x) = .ok (x.toNat : Int) :=
    argumentInteger_eq_ok.mpr (.number none (Or.inr hx))
  rw [hl, ha]

theorem encodes_bool_listed : Encodes .bool (listed x) word ↔
    ∃ b : Bool, x.text = (if b then "1" else "0") ∧ word = Bytes.ofNat wordSize b.toNat := by
  constructor
  · intro h
    cases h with
    | bool hb =>
      cases hb with
      | piece hb => exact ⟨_, boolOfText_eq_ok.mp hb, rfl⟩
  · rintro ⟨b, hb, rfl⟩
    exact .bool (.piece (boolOfText_eq_ok.mpr hb))

theorem encodes_address_listed : Encodes .address (listed x) word ↔
    ∃ bs, Hex.data? x.text = some bs ∧ bs.length ≤ 20 ∧
      word = Bytes.ofNat wordSize (Bytes.toNat bs) :=
  encodes_address_piece

theorem encodes_bool_alone (h : Encodes .bool (alone x) word) :
    word = Bytes.ofNat wordSize x.toNat := by
  cases h with
  | bool hb =>
    cases hb with
    | number _ hw => rw [← hw, NumberText.toNat]

theorem encodes_address_alone (h : Encodes .address (alone x) word) :
    x.toNat < 2 ^ 160 ∧ word = Bytes.ofNat wordSize x.toNat := by
  cases h with
  | address ha =>
    cases ha with
    | number _ hw => exact ⟨hw, rfl⟩

theorem ofNat_word_inj {m n : Nat} (hm : m < 2 ^ 256) (hn : n < 2 ^ 256)
    (h : Bytes.ofNat wordSize m = Bytes.ofNat wordSize n) : m = n := by
  rw [← toNat_ofNat_word hm, ← toNat_ofNat_word hn, h]

/-- **A literal that is encoded by itself is encoded as the same word within a text** exactly if it
is the same argument either way. -/
theorem encodeWord_listed_iff (hk : StaticKind.ofText abiType = .ok k)
    (hb : ∀ size, k ≠ .sized .bytes size) (hx : x.toNat < 2 ^ 255)
    (h : encodeWord abiType (alone x) = .ok word) :
    encodeWord abiType (listed x) = .ok word ↔ Alike x k := by
  cases k with
  | sized name size =>
    cases name with
    | uint =>
      rw [encodeWord, hk, liftM_ok_bind] at h ⊢
      dsimp only at h ⊢
      rw [argumentInteger_listed false hx]
      exact iff_of_true h (.uint size)
    | int =>
      rw [encodeWord, hk, liftM_ok_bind] at h ⊢
      dsimp only at h ⊢
      rw [argumentInteger_listed true hx]
      exact iff_of_true h (.int size)
    | bytes => exact absurd rfl (hb size)
  | bool =>
    rw [encodeWord_of_kind hk] at h ⊢
    rw [encodes_bool_listed, encodes_bool_alone h]
    constructor
    · rintro ⟨b, ht, -⟩
      cases b
      · exact .bool (Or.inl ht)
      · exact .bool (Or.inr ht)
    · intro ha
      cases ha with
      | bool ht =>
        rcases ht with ht | ht
        · exact ⟨false, ht, by rw [toNat_of_text (b := false) ht]⟩
        · exact ⟨true, ht, by rw [toNat_of_text (b := true) ht]⟩
  | address =>
    rw [encodeWord_of_kind hk] at h ⊢
    obtain ⟨hlt, rfl⟩ := encodes_address_alone h
    rw [encodes_address_listed]
    constructor
    · rintro ⟨bs, ht, hl, he⟩
      have hbs := (DenotesAddress.piece ht hl).lt
      exact .address ht hl (ofNat_word_inj (by omega) (by omega) he.symm)
    · intro ha
      cases ha with
      | address ht hl hn => exact ⟨_, ht, hl, by rw [hn]⟩

/-- Bytes behind a mark, two digits each, are the same address either way. -/
theorem alike_of_hex {mark : Char} {ds : List Char} {n : Nat}
    (ht : x.text.toList = '0' :: mark :: ds) (hm : mark = 'x' ∨ mark = 'X')
    (h : ∀ d ∈ ds, Hex.isDigit d = true) (hl : ds.length = 2 * n) (hn : n ≤ 20) :
    Alike x .address := by
  obtain ⟨bs, hbs, hlen, hval⟩ := Hex.bytes?_digits hl h
  have hmark : Hex.withoutMark ('0' :: mark :: ds) = ds := by rcases hm with rfl | rfl <;> rfl
  have hdata : Hex.data? x.text = some bs := by
    rw [Hex.data?, x.bare.trim, ht]
    simp only [hmark]
    rw [if_neg (by omega), hbs]
  refine .address hdata (by omega) ?_
  rw [hval, x.toNat_of_hex ht hm h]

/-! ### All arguments -/

theorem length_of_encodes {arg : RawArgument} (hb : ∀ size, k ≠ .sized .bytes size)
    (h : Encodes k arg word) : word.length = wordSize := by
  cases h with
  | bytes _ => exact absurd rfl (hb _)
  | _ => simp

/-- A parameter of one of the types that numbers can be arguments of. -/
def Numeric (p : Param) : Prop :=
  ∃ k, StaticKind.ofText (typeText p) = .ok k ∧ ∀ size, k ≠ .sized .bytes size

/-- A literal is the same argument for a parameter within a text as by itself. -/
def AlikeFor (p : Param) (x : NumberText) : Prop :=
  ∃ k, StaticKind.ofText (typeText p) = .ok k ∧ Alike x k

theorem alikeFor_iff {p : Param} (hk : StaticKind.ofText (typeText p) = .ok k) :
    AlikeFor p x ↔ Alike x k := by
  constructor
  · rintro ⟨k', hk', h⟩
    rw [hk] at hk'
    cases hk'
    exact h
  · exact fun h => ⟨k, hk, h⟩

/-- **Literals that are encoded by themselves are encoded as the same words within a text** exactly
if each of them is the same argument either way; by induction on the parameters, one word each. -/
theorem encodeWords_listed_iff {ps : List Param} :
    ∀ {xs : List NumberText} {bs : Bytes}, (∀ p ∈ ps, Numeric p) → (∀ x ∈ xs, x.toNat < 2 ^ 255) →
      xs.length = ps.length → encodeWords ps (xs.map alone) = .ok bs →
      (encodeWords ps (xs.map listed) = .ok bs ↔ List.Forall₂ AlikeFor ps xs) := by
  induction ps with
  | nil =>
    intro xs bs _ _ hl h
    obtain rfl := List.eq_nil_of_length_eq_zero hl
    exact iff_of_true h .nil
  | cons p ps ih =>
    intro xs bs hp hx hl h
    cases xs with
    | nil => cases hl
    | cons x xs =>
      obtain ⟨k, hk, hb⟩ := hp p (List.mem_cons_self ..)
      rw [List.map_cons] at h ⊢
      obtain ⟨word, ws, hw, hws, rfl⟩ := encodeWords_cons.mp h
      have hone := encodeWord_listed_iff hk hb (hx x (List.mem_cons_self ..)) hw
      have hrest := ih (fun q hq => hp q (List.mem_cons_of_mem _ hq))
        (fun y hy => hx y (List.mem_cons_of_mem _ hy)) (Nat.succ.inj hl) hws
      have hlen := length_of_encodes hb ((encodeWord_of_kind hk).mp hw)
      rw [encodeWords_cons, List.forall₂_cons, alikeFor_iff hk, ← hone, ← hrest]
      constructor
      · rintro ⟨word', ws', hw', hws', he⟩
        have hlen' := length_of_encodes hb ((encodeWord_of_kind hk).mp hw')
        obtain ⟨rfl, rfl⟩ := List.append_inj he (hlen.trans hlen'.symm)
        exact ⟨hw', hws'⟩
      · rintro ⟨hw', hws'⟩
        exact ⟨word, ws, hw', hws', rfl⟩

end Abi

end WeiCalc

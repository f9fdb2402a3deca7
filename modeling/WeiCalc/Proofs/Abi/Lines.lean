import Mathlib
import WeiCalc.Proofs.Abi.Calldata
import WeiCalc.Proofs.Hex.Data

/-!
# Calldata as lines

Calldata are shown as one line for the selector and one numbered line for each word behind it.  No
byte gets lost: the digits of all lines, one after the other, are the calldata.

* `Abi.wordLines_eq`: the lines of words are the words, each with its number.
* `Hex.data?_digits`: digits without a mark are read back as their bytes.
* `Abi.callLines_splits`: **which calldata have lines, what these are, and that they hold all bytes.**
-/

namespace WeiCalc

namespace Hex

@[simp] theorem digits_append (bs cs : Bytes) : digits (bs ++ cs) = digits bs ++ digits cs :=
  List.flatMap_append

@[simp] theorem digits_flatten (ws : List Bytes) : digits ws.flatten = ws.flatMap digits := by
  induction ws with
  | nil => rfl
  | cons w ws ih => rw [List.flatten_cons, digits_append, ih, List.flatMap_cons]

theorem even_length_digits (bs : Bytes) : Even (digits bs).length := by
  rw [digits, List.length_flatMap]
  simp

theorem withoutMark_of_isDigit {ds : List Char} (h : ∀ d ∈ ds, isDigit d = true) :
    withoutMark ds = ds := by
  rw [withoutMark.eq_def]
  split
  · exact absurd (h 'x' (by simp)) (by decide)
  · exact absurd (h 'X' (by simp)) (by decide)
  · rfl

/-- Digits without a mark are read back as their bytes. -/
@[simp] theorem data?_digits (bs : Bytes) : data? (String.ofList (digits bs)) = some bs := by
  have hdigit : ∀ d ∈ digits bs, isDigit d = true := fun _ => isDigit_of_mem_digits
  have hpayload : payload (String.ofList (digits bs)) = digits bs := by
    rw [payload, String.toList_ofList,
      Text.trim_eq_self fun d hd => isBlank_of_isDigit (hdigit d hd), withoutMark_of_isDigit hdigit]
  rw [data?_eq_some_iff, hpayload]
  exact ⟨even_length_digits bs, bytes?_digits_of bs⟩

end Hex

namespace Abi

/-! ### Words -/

/-- The words of data from the front, `count` of them. -/
def words : (count : Nat) → Bytes → List Bytes
  | 0, _ => []
  | count + 1, bs => bs.take wordSize :: words count (bs.drop wordSize)

/-- The line of the word number `index`. -/
def wordLine (index : Nat) (word : Bytes) : String :=
  s!"[{index}] {Hex.encode word}"

/-- Data of `count` words are these words. -/
theorem words_spec {count : Nat} :
    ∀ {bs : Bytes}, bs.length = wordSize * count →
      (words count bs).flatten = bs ∧ ∀ w ∈ words count bs, w.length = wordSize := by
  induction count with
  | zero =>
    intro bs h
    rw [List.eq_nil_of_length_eq_zero h]
    exact ⟨rfl, fun _ hw => absurd hw List.not_mem_nil⟩
  | succ count ih =>
    intro bs h
    rw [Nat.mul_add, Nat.mul_one] at h
    have hrest : (bs.drop wordSize).length = wordSize * count := by
      rw [List.length_drop]
      omega
    obtain ⟨hflat, hall⟩ := ih hrest
    have hfirst : (bs.take wordSize).length = wordSize := by
      rw [List.length_take]
      omega
    rw [words, List.flatten_cons, hflat]
    exact ⟨List.take_append_drop .., List.forall_mem_cons.mpr ⟨hfirst, hall⟩⟩

/-- **The lines of words are the words, each with its number**, by induction on the words. -/
theorem wordLines_eq (index count : Nat) (bs : Bytes) :
    wordLines index count bs = (words count bs).mapIdx fun i w => wordLine (index + i) w := by
  induction count generalizing index bs with
  | zero => rfl
  | succ count ih =>
    rw [wordLines, words, List.mapIdx_cons, ih]
    simp only [Nat.add_zero, Nat.add_assoc, Nat.add_comm 1]
    rfl

/-! ### Lines -/

/-- What stands in a line behind the mark in front of its digits. -/
def lineDigits (line : String) : List Char :=
  (line.toList.dropWhile (· ≠ 'x')).drop 1

theorem lineDigits_of {front ds : List Char} {line : String}
    (h : line.toList = front ++ 'x' :: ds) (hf : 'x' ∉ front) : lineDigits line = ds := by
  have hd : ∀ c ∈ front, decide (c ≠ 'x') = true :=
    fun c hc => decide_eq_true fun he => hf (he ▸ hc)
  rw [lineDigits, h, List.dropWhile_append_of_pos hd]
  rfl

@[simp] theorem lineDigits_encode (bs : Bytes) : lineDigits (Hex.encode bs) = Hex.digits bs := by
  have hline : (Hex.encode bs).toList = ['0'] ++ 'x' :: Hex.digits bs := Hex.toList_mark _
  exact lineDigits_of hline (by decide)

@[simp] theorem lineDigits_wordLine (index : Nat) (word : Bytes) :
    lineDigits (wordLine index word) = Hex.digits word := by
  have hline : (wordLine index word).toList =
      ('[' :: Nat.toDigits 10 index ++ [']', ' ', '0']) ++ 'x' :: Hex.digits word := by
    have hmark : (Hex.encode word).toList = '0' :: 'x' :: Hex.digits word := Hex.toList_mark _
    have he : wordLine index word = "[" ++ toString index ++ "] " ++ Hex.encode word := rfl
    simp [he, hmark]
  refine lineDigits_of hline fun hx => ?_
  simp only [List.cons_append, List.mem_cons, List.mem_append, List.not_mem_nil, or_false] at hx
  rcases hx with hx | hx | hx | hx | hx
  · exact absurd hx (by decide)
  · exact absurd (Nat.isDigit_of_mem_toDigits (by decide) (by decide) hx) (by decide)
  all_goals exact absurd hx (by decide)

@[simp] theorem lineDigits_wordLines (index count : Nat) (bs : Bytes) :
    (wordLines index count bs).flatMap lineDigits = (words count bs).flatMap Hex.digits := by
  induction count generalizing index bs with
  | zero => rfl
  | succ count ih =>
    rw [wordLines, words, List.flatMap_cons, List.flatMap_cons, ih, ← wordLine, lineDigits_wordLine]

theorem callLines_eq_ok {bs : Bytes} {lines : List String} :
    callLines bs = .ok lines ↔ 4 ≤ bs.length ∧ 32 ∣ bs.length - 4 ∧
      lines = Hex.encode (bs.take 4) :: wordLines 0 ((bs.length - 4) / 32) (bs.drop 4) := by
  have hselector : Signature.selectorSize = 4 := rfl
  have hword : wordSize = 32 := rfl
  rw [callLines, hselector, hword, List.length_drop, Nat.dvd_iff_mod_eq_zero]
  by_cases hl : bs.length < 4
  · simp [hl]
  by_cases hr : (bs.length - 4) % 32 = 0
  · simp [hl, hr, not_lt.mp hl, eq_comm]
  · simp [hl, hr]

/-- **Which calldata have lines, what these are, and that they hold all bytes.**  Calldata have lines
if they are a selector and whole words.  The first line is the selector, and behind it every word has
a line with its number, from zero on.  What stands behind the marks of all lines are the digits of the
calldata.  Calldata that can be decoded always have lines. -/
theorem callLines_splits (bs : Bytes) :
    ((∃ lines, callLines bs = .ok lines) ↔ 4 ≤ bs.length ∧ 32 ∣ bs.length - 4) ∧
    (∀ lines, callLines bs = .ok lines → ∃ (selector : Bytes) (ws : List Bytes),
      bs = selector ++ ws.flatten ∧ selector.length = 4 ∧ (∀ w ∈ ws, w.length = 32) ∧
        lines = Hex.encode selector :: ws.mapIdx (fun i w => s!"[{i}] {Hex.encode w}") ∧
        Hex.data? (String.ofList (lines.flatMap lineDigits)) = some bs) ∧
    ∀ (hash : Hash) (s : Signature) (v : Value), decodeCall hash s bs = .ok v →
      ∃ lines, callLines bs = .ok lines := by
  have haccepts : (∃ lines, callLines bs = .ok lines) ↔ 4 ≤ bs.length ∧ 32 ∣ bs.length - 4 := by
    constructor
    · rintro ⟨lines, h⟩
      obtain ⟨hl, hr, -⟩ := callLines_eq_ok.mp h
      exact ⟨hl, hr⟩
    · rintro ⟨hl, hr⟩
      exact ⟨_, callLines_eq_ok.mpr ⟨hl, hr, rfl⟩⟩
  refine ⟨haccepts, fun lines h => ?_, fun hash s v h => ?_⟩
  · obtain ⟨hl, hr, rfl⟩ := callLines_eq_ok.mp h
    have hbody : (bs.drop 4).length = wordSize * ((bs.length - 4) / 32) := by
      rw [List.length_drop]
      exact (Nat.mul_div_cancel' hr).symm
    obtain ⟨hflat, hall⟩ := words_spec hbody
    refine ⟨bs.take 4, words ((bs.length - 4) / 32) (bs.drop 4), ?_, ?_, hall, ?_, ?_⟩
    · rw [hflat, List.take_append_drop]
    · rw [List.length_take]
      omega
    · rw [wordLines_eq]
      simp only [Nat.zero_add, wordLine]
    · rw [List.flatMap_cons, lineDigits_encode, lineDigits_wordLines, ← Hex.digits_flatten, hflat,
        ← Hex.digits_append, List.take_append_drop, Hex.data?_digits]
  · obtain ⟨sel, ws, fields, hs, rfl, hlen, -⟩ := decodeCall_eq_ok.mp h
    have hsel : sel.length = 4 := length_selector hs
    rw [haccepts, List.length_append, hsel, hlen, Nat.add_sub_cancel_left]
    exact ⟨Nat.le_add_right .., Dvd.intro _ rfl⟩

/-- Calldata of one word that is decoded to minus one. -/
theorem callLines_splits_minus_one :
    decodeCall (fun _ => Vector.replicate 32 0) ⟨['f'], [⟨.elementary "int8".toList, ['x']⟩]⟩
      (List.replicate 4 0 ++ List.replicate 32 255) = .ok (.list [⟨"x", "int8", .text "-1"⟩]) ∧
    ∃ (lines : List String) (ws : List Bytes),
      callLines (List.replicate 4 0 ++ List.replicate 32 255) = .ok lines ∧
      lines.length = ws.length + 1 ∧
      Hex.data? (String.ofList (lines.flatMap lineDigits)) =
        some (List.replicate 4 0 ++ List.replicate 32 255) := by
  have hd : decodeCall (fun _ => Vector.replicate 32 0)
      ⟨['f'], [⟨.elementary "int8".toList, ['x']⟩]⟩
      (List.replicate 4 0 ++ List.replicate 32 255) =
      .ok (.list [⟨"x", "int8", .text "-1"⟩]) := rfl
  obtain ⟨-, hlines, hdecoded⟩ := callLines_splits (List.replicate 4 0 ++ List.replicate 32 255)
  obtain ⟨lines, h⟩ := hdecoded _ _ _ hd
  obtain ⟨_, ws, -, -, -, hshape, hdata⟩ := hlines lines h
  refine ⟨hd, lines, ws, h, ?_, hdata⟩
  rw [hshape, List.length_cons, List.length_mapIdx]

end Abi

end WeiCalc

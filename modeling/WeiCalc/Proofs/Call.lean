import Mathlib
import WeiCalc.Call.Result
import WeiCalc.Proofs.Abi.Orderly
import WeiCalc.Proofs.Calendar
import WeiCalc.Proofs.Pool
import WeiCalc.Proofs.Root

/-!
# Calls end orderly

A call is well-formed if it has as many arguments as its function takes and each is a value or a
signed integer as its parameter asks for.  A function then finds the arguments that it looks for, and
what it makes of them are words again.

* `Call.HasValue`: an argument is there and a value.
* `Call.result_orderly`: well-formed calls of all functions end orderly.
-/

namespace WeiCalc

/-! ### Parameters -/

namespace Builtin

/-- The kind of a parameter does not turn signed with the number of arguments. -/
theorem paramKind_ne_int {b : Builtin} {index n : Nat} (h : b.paramKind index n ≠ .int) (m : Nat) :
    b.paramKind index m ≠ .int := by
  rw [paramKind] at h ⊢
  by_cases hb : b = unix
  · rw [if_pos hb]
    split_ifs <;> decide
  · rw [if_neg hb] at h ⊢
    exact h

theorem paramKind_unix_ne_int (index n : Nat) : unix.paramKind index n ≠ .int := by
  rw [paramKind, if_pos rfl]
  split_ifs <;> decide

theorem least_le_of_admits {b : Builtin} {n : Nat} (h : b.admits n) : b.arity.least ≤ n := by
  rw [admits] at h
  by_cases hb : b = unix
  · subst hb
    simp only [if_true, Bool.or_eq_true, decide_eq_true_eq] at h
    have hl : unix.arity.least = 1 := rfl
    omega
  · rw [if_neg hb, Arity.admits, Bool.and_eq_true, decide_eq_true_eq] at h
    exact h.1

/-- The argument number `index` is in every call, and a value there. -/
def TakesValue (b : Builtin) (index : Nat) : Prop :=
  index < b.arity.least ∧ b.paramKind index b.arity.least ≠ .int

/-- The argument number `index` is in every call, and a signed integer there. -/
def TakesSigned (b : Builtin) (index : Nat) : Prop :=
  index < b.arity.least ∧ b ≠ unix ∧ b.paramKind index b.arity.least = .int

instance (b : Builtin) (index : Nat) : Decidable (b.TakesValue index) :=
  inferInstanceAs (Decidable (_ ∧ _))

instance (b : Builtin) (index : Nat) : Decidable (b.TakesSigned index) :=
  inferInstanceAs (Decidable (_ ∧ _ ∧ _))

end Builtin

/-! ### Arguments -/

/-- Is the argument of the kind that its parameter asks for? -/
def Argument.Fits (kind : ParamKind) : Argument → Prop
  | .value _ => kind ≠ .int
  | .signed _ => kind = .int

namespace Call

/-- A call with as many arguments as its function takes, each of the kind that is asked for. -/
structure Wellformed (c : Call) : Prop where
  count : c.function.admits c.arguments.length
  kinds : ∀ {index : Nat} {arg : Argument}, c.arguments[index]? = some arg →
    arg.Fits (c.function.paramKind index c.arguments.length)

/-- The argument number `index` is there, and a value. -/
def HasValue (c : Call) (index : Nat) : Prop := ∃ v, c.arguments[index]? = some (.value v)

variable {c : Call} {b : Builtin} {index : Nat}

theorem Wellformed.isValue (hw : c.Wellformed) (hi : index < c.arguments.length)
    (hk : c.function.paramKind index c.arguments.length ≠ .int) : c.HasValue index := by
  have hg := List.getElem?_eq_getElem hi
  cases ha : c.arguments[index] with
  | value v => exact ⟨v, by rw [hg, ha]⟩
  | signed i => exact absurd (hw.kinds (hg.trans (congrArg some ha))) hk

theorem Wellformed.takesValue (hw : c.Wellformed) (hf : c.function = b) (h : b.TakesValue index) :
    c.HasValue index := by
  subst hf
  refine hw.isValue ?_ (Builtin.paramKind_ne_int h.2 _)
  exact lt_of_lt_of_le h.1 (Builtin.least_le_of_admits hw.count)

theorem Wellformed.takesSigned (hw : c.Wellformed) (hf : c.function = b)
    (h : b.TakesSigned index) : ∃ i, c.arguments[index]? = some (.signed i) := by
  subst hf
  obtain ⟨hi, hu, hk⟩ := h
  have hl := lt_of_lt_of_le hi (Builtin.least_le_of_admits hw.count)
  have hg := List.getElem?_eq_getElem hl
  have hk' : c.function.paramKind index c.arguments.length = .int := by
    rw [Builtin.paramKind, if_neg hu] at hk ⊢
    exact hk
  cases ha : c.arguments[index] with
  | value v => exact absurd hk' (hw.kinds (hg.trans (congrArg some ha)))
  | signed i => exact ⟨i, by rw [hg, ha]⟩

/-- The arguments of a function without signed parameters are all values. -/
theorem Wellformed.allValues (hw : c.Wellformed)
    (hk : ∀ index, c.function.paramKind index c.arguments.length ≠ .int) :
    ∀ arg ∈ c.arguments, ∃ v, arg = .value v := by
  intro arg ha
  obtain ⟨index, hg⟩ := List.getElem?_of_mem ha
  cases arg with
  | value v => exact ⟨v, rfl⟩
  | signed i => exact absurd (hw.kinds hg) (hk index)

theorem signed_orderly (hw : c.Wellformed) (hf : c.function = b) (h : b.TakesSigned index) :
    Orderly (fun _ => True) (c.signed index) := by
  obtain ⟨i, hi⟩ := hw.takesSigned hf h
  rw [signed, hi]
  exact .pure trivial

/-! ### Arguments of each kind -/

namespace HasValue

variable (h : c.HasValue index)
include h

theorem value : Orderly (fun _ => True) (c.value index) := by
  obtain ⟨v, hv⟩ := h
  rw [Call.value, hv]
  exact .pure trivial

theorem word : Orderly (fun _ => True) (c.word index) := by
  rw [Call.word]
  refine h.value.bind fun v _ => ?_
  cases v with
  | uint w width => exact .pure trivial
  | text s => exact .error _
  | bytes bs => exact .error _
  | bool b => exact .error _
  | list fields => exact .error _

theorem number : Orderly (· < Word.capacity) (c.number index) :=
  h.word.bind fun w _ => .pure w.isLt

theorem text : Orderly (fun _ => True) (c.text index) := by
  rw [Call.text]
  refine h.value.bind fun v _ => ?_
  cases v with
  | text s => exact .pure trivial
  | uint w width => exact .error _
  | bytes bs => exact .error _
  | bool b => exact .error _
  | list fields => exact .error _

theorem flag : Orderly (fun _ => True) (c.flag index) := by
  rw [Call.flag]
  refine h.value.bind fun v _ => ?_
  cases v with
  | bool b => exact .pure trivial
  | uint w width => exact .pure trivial
  | text s => exact .error _
  | bytes bs => exact .error _
  | list fields => exact .error _

end HasValue

/-! ### Numbers and texts -/

theorem ofLength_orderly (n : Nat) : Orderly (fun _ => True) (Value.ofLength n) := by
  rw [Value.ofLength]
  by_cases h : n ≤ Value.greatestLength
  · rw [if_pos h]
    exact Value.ofNat_orderly (lt_of_le_of_lt h (by decide))
  · rw [if_neg h]
    exact .limit

theorem root_orderly (hw : c.Wellformed) (hf : c.function = .root) :
    Orderly (fun _ => True) c.root := by
  rw [root]
  refine (hw.takesValue hf (by decide)).number.bind fun x hx => ?_
  refine (hw.takesValue hf (by decide)).number.bind fun n _ => ?_
  refine (Orderly.liftCause fun _ h => Root.iroot_le h).bind fun r hr => ?_
  exact Value.ofNat_orderly (lt_of_le_of_lt hr hx)

/-- A number that is too great for an address ends in an error, or in the limit for its digits. -/
theorem addressNumber_orderly (c : Call) (v : Value) :
    Orderly (· < Value.addressLimit) (c.addressNumber v) := by
  have hsize : ∀ n limit, Orderly (· < Value.addressLimit)
      (if n < Value.addressLimit then pure n
        else if n < limit then throw (Failure.error ⟨.range (.address c.function.name n), none⟩)
        else throw (.fault .longNumber)) := by
    intro n limit
    by_cases hn : n < Value.addressLimit
    · rw [if_pos hn]
      exact .pure hn
    rw [if_neg hn]
    by_cases ht : n < limit
    · rw [if_pos ht]
      exact .throw _
    · rw [if_neg ht]
      exact .limit
  unfold addressNumber
  cases v with
  | uint w width => exact hsize w.toNat _
  | text s =>
    cases hn : NumberLiteral.integer? 16 (Hex.withoutMark (Text.trim s.toList)) with
    | some n =>
      simp only [hn]
      exact hsize n _
    | none =>
      simp only [hn]
      exact .throw _
  | bytes bs => exact .throw _
  | bool b => exact .throw _
  | list fields => exact .throw _

theorem address_orderly (hw : c.Wellformed) (hf : c.function = .address) :
    Orderly (fun _ => True) c.address := by
  rw [address]
  refine (hw.takesValue hf (by decide)).value.bind fun v _ => ?_
  exact (addressNumber_orderly c v).bind fun n _ => .pure trivial

theorem checksum_orderly (hw : c.Wellformed) (hf : c.function = .checksum) (hash : Hash) :
    Orderly (fun _ => True) (c.checksum hash) := by
  have hnumber : ∀ v, Orderly (fun _ => True) (do
      let ds := Text.padded 16 (2 * Value.addressWidth) (← c.addressNumber v)
      return Value.text (← Checksum.ofText hash (String.ofList ds))) := by
    intro v
    refine (addressNumber_orderly c v).bind fun n _ => ?_
    dsimp only
    exact (Orderly.liftCause_any _).bind fun s _ => .pure trivial
  rw [checksum]
  refine (hw.takesValue hf (by decide)).value.bind fun v _ => ?_
  cases v with
  | text s => exact (Orderly.liftCause_any _).bind fun s _ => .pure trivial
  | uint w width => exact hnumber _
  | bytes bs => exact hnumber _
  | bool b => exact hnumber _
  | list fields => exact hnumber _

theorem keccak_orderly (hw : c.Wellformed) (hf : c.function = .keccak) (hash : Hash) :
    Orderly (fun _ => True) (c.keccak hash) := by
  rw [keccak]
  refine (hw.takesValue hf (by decide)).value.bind fun v _ => ?_
  cases v with
  | text s => exact .pure trivial
  | bytes bs => exact .pure trivial
  | uint w width => exact .pure trivial
  | bool b => exact .error _
  | list fields => exact .error _

theorem base64Encode_orderly (hw : c.Wellformed) (hf : c.function = .base64Encode) :
    Orderly (fun _ => True) c.base64Encode := by
  rw [base64Encode]
  refine (hw.takesValue hf (by decide)).value.bind fun v _ => ?_
  cases v with
  | text s => exact .pure trivial
  | bytes bs => exact .pure trivial
  | uint w width => exact .error _
  | bool b => exact .error _
  | list fields => exact .error _

theorem base64Decode_orderly (hw : c.Wellformed) (hf : c.function = .base64Decode) :
    Orderly (fun _ => True) c.base64Decode := by
  rw [base64Decode]
  refine (hw.takesValue hf (by decide)).text.bind fun s _ => ?_
  cases Base64.decode? (Text.trim s.toList) with
  | none => exact .throw _
  | some bs =>
    dsimp only
    cases String.fromUTF8? ⟨bs.toArray⟩ with
    | some decoded => exact .pure trivial
    | none => exact .pure trivial

theorem recased_orderly (hw : c.Wellformed) (hf : c.function = b) (hb : b.TakesValue 0)
    (change : List Char → List Char) : Orderly (fun _ => True) (c.recased change) :=
  (hw.takesValue hf hb).text.bind fun _ _ => .pure trivial

theorem len_orderly (hw : c.Wellformed) (hf : c.function = .len) :
    Orderly (fun _ => True) c.len := by
  have h := hw.takesValue hf (by decide : Builtin.len.TakesValue 0)
  rw [len]
  refine h.value.bind fun v _ => ?_
  cases v with
  | bytes bs => exact ofLength_orderly _
  | text s => exact h.text.bind fun _ _ => ofLength_orderly _
  | uint w width => exact h.text.bind fun _ _ => ofLength_orderly _
  | bool b => exact h.text.bind fun _ _ => ofLength_orderly _
  | list fields => exact h.text.bind fun _ _ => ofLength_orderly _

theorem count_orderly (hw : c.Wellformed) (hf : c.function = .count) :
    Orderly (fun _ => True) c.count := by
  rw [count]
  refine (hw.takesValue hf (by decide)).text.bind fun s _ => ?_
  refine (hw.takesValue hf (by decide)).text.bind fun sub _ => ?_
  by_cases h : sub.isEmpty
  · simp only [if_pos h]
    exact .throw _
  · simp only [if_neg h]
    exact ofLength_orderly _

theorem formatUnits_orderly (hw : c.Wellformed) (hf : c.function = .formatUnits) :
    Orderly (fun _ => True) c.formatUnits := by
  rw [formatUnits]
  refine (hw.takesValue hf (by decide)).number.bind fun amount _ => ?_
  refine (hw.takesValue hf (by decide)).number.bind fun decimals _ => ?_
  exact (Orderly.liftCause_any _).bind fun s _ => .pure trivial

/-! ### Contracts -/

theorem signature_orderly (h : c.HasValue 0) : Orderly Signature.Wellformed c.signature := by
  rw [signature]
  exact h.text.bind fun s _ => .liftCause fun _ hs => Signature.wellformed_of_ofText hs

theorem selector_orderly (hw : c.Wellformed) (hf : c.function = .selector) (hash : Hash) :
    Orderly (fun _ => True) (c.selector hash) := by
  rw [selector]
  refine (signature_orderly (hw.takesValue hf (by decide))).bind fun s hs => ?_
  exact (Abi.selector_orderly hs hash).bind fun bs _ => .pure trivial

theorem encodable_orderly (v : Value) : Orderly (fun _ => True) (encodable (.value v)) :=
  .ok trivial

theorem encodables_orderly (h : ∀ arg ∈ c.arguments, ∃ v, arg = .value v) :
    Orderly (fun _ => True) c.encodables := by
  have hm : Orderly (fun _ => True) ((c.arguments.drop 1).mapM encodable) := by
    refine Orderly.mapM fun arg ha => ?_
    obtain ⟨v, rfl⟩ := h arg (List.mem_of_mem_drop ha)
    exact encodable_orderly v
  unfold encodables
  split
  · exact .ok trivial
  · exact hm

/-- The arguments behind a signature may be any number of values. -/
theorem encodables_of_wellformed (hw : c.Wellformed) (hf : c.function = b)
    (hb : b.params = [("sig", .text)]) (hu : b ≠ .unix) :
    Orderly (fun _ => True) c.encodables := by
  refine encodables_orderly (hw.allValues fun index => ?_)
  rw [hf, Builtin.paramKind, if_neg hu, hb]
  cases index <;> simp

theorem abiEncode_orderly (hw : c.Wellformed) (hf : c.function = .abiEncode) :
    Orderly (fun _ => True) c.abiEncode := by
  rw [abiEncode]
  refine (signature_orderly (hw.takesValue hf (by decide))).bind fun s _ => ?_
  refine (encodables_of_wellformed hw hf rfl (by decide)).bind fun args _ => ?_
  exact (Orderly.liftError_any _).bind fun bs _ => .pure trivial

theorem abiEncodeCall_orderly (hw : c.Wellformed) (hf : c.function = .abiEncodeCall)
    (hash : Hash) : Orderly (fun _ => True) (c.abiEncodeCall hash) := by
  rw [abiEncodeCall]
  refine (signature_orderly (hw.takesValue hf (by decide))).bind fun s hs => ?_
  refine (encodables_of_wellformed hw hf rfl (by decide)).bind fun args _ => ?_
  exact (Abi.encodeCall_orderly hs hash args).bind fun bs _ => .pure trivial

theorem abiDecode_orderly (hw : c.Wellformed) (hf : c.function = .abiDecode) (hash : Hash) :
    Orderly (fun _ => True) (c.abiDecode hash) := by
  rw [abiDecode]
  refine (signature_orderly (hw.takesValue hf (by decide))).bind fun s hs => ?_
  refine (hw.takesValue hf (by decide)).value.bind fun v _ => ?_
  refine (Orderly.liftCause_any _).bind fun bs _ => ?_
  exact Abi.decodeCall_orderly hs hash bs

theorem debug_orderly (hw : c.Wellformed) (hf : c.function = .debug) :
    Orderly (fun _ => True) c.debug := by
  rw [debug]
  refine (hw.takesValue hf (by decide)).value.bind fun v _ => ?_
  refine (Orderly.liftCause_any _).bind fun bs _ => ?_
  exact (Orderly.liftCause_any _).bind fun lines _ => .pure trivial

/-! ### Dates -/

theorem moment_orderly (h : c.HasValue 0) {layout : Except Failure String}
    (hl : Orderly (fun _ => True) layout) : Orderly (fun _ => True) (c.moment layout) := by
  rw [moment]
  refine h.number.bind fun n _ => ?_
  refine (Orderly.liftCause_any _).bind fun m _ => ?_
  exact hl.bind fun text _ => .pure trivial

theorem timestamp_orderly (h : ∀ index < 6, c.HasValue index) :
    Orderly (fun _ => True) c.timestamp := by
  rw [timestamp]
  refine (h 0 (by decide)).number.bind fun year _ => ?_
  refine (h 1 (by decide)).number.bind fun month _ => ?_
  refine (h 2 (by decide)).number.bind fun day _ => ?_
  refine (h 3 (by decide)).number.bind fun hour _ => ?_
  refine (h 4 (by decide)).number.bind fun minute _ => ?_
  refine (h 5 (by decide)).number.bind fun second _ => ?_
  refine (Orderly.liftCause fun _ hm => Moment.proper_of_ofFields hm).bind fun m hm => ?_
  refine (Orderly.liftCause fun _ ht => Moment.timestamp_lt hm ht).bind fun n hn => ?_
  exact Value.ofNat_orderly hn

/-- The number of arguments decides which of them are looked at. -/
theorem unix_orderly (hw : c.Wellformed) (hf : c.function = .unix) (settings : Settings) :
    Orderly (fun _ => True) (c.unix settings) := by
  have hv : ∀ index < c.arguments.length, c.HasValue index := by
    intro index hi
    refine hw.isValue hi ?_
    rw [hf]
    exact Builtin.paramKind_unix_ne_int index _
  have h0 := hw.takesValue hf (by decide : Builtin.unix.TakesValue 0)
  unfold unix
  split
  · next hl => exact timestamp_orderly fun index hi => hv index (by omega)
  · next hl => exact moment_orderly h0 (hv 1 (by omega)).text
  · refine h0.value.bind fun v _ => ?_
    cases v with
    | text s =>
      refine (Orderly.liftCause fun _ hm => Iso.proper_of_ofText hm).bind fun m hm => ?_
      refine (Orderly.liftCause fun _ ht => Moment.timestamp_lt hm ht).bind fun n hn => ?_
      exact Value.ofNat_orderly hn
    | uint w width => exact moment_orderly h0 (.ok trivial)
    | bytes bs => exact moment_orderly h0 (.ok trivial)
    | bool b => exact moment_orderly h0 (.ok trivial)
    | list fields => exact moment_orderly h0 (.ok trivial)

/-! ### Pools -/

theorem sqrtRatioOfTick_orderly (hw : c.Wellformed) (hf : c.function = .sqrtRatioOfTick) :
    Orderly (fun _ => True) c.sqrtRatioOfTick := by
  rw [sqrtRatioOfTick]
  refine (signed_orderly hw hf (by decide)).bind fun tick _ => ?_
  refine (Orderly.liftCause fun _ h => Pool.sqrtPriceAt_lt h).bind fun n hn => ?_
  exact Value.ofNat_orderly hn

theorem tickOfSqrtRatio_orderly (hw : c.Wellformed) (hf : c.function = .tickOfSqrtRatio) :
    Orderly (fun _ => True) c.tickOfSqrtRatio := by
  rw [tickOfSqrtRatio]
  refine (hw.takesValue hf (by decide)).number.bind fun price _ => ?_
  refine (Orderly.liftCause fun _ h => Pool.tickAt_mem h).bind fun tick ht => ?_
  exact Value.ofInt_orderly (lt_of_le_of_lt ht.2 (by decide))

theorem position_orderly (hw : c.Wellformed) (hf : c.function = b)
    (hb : ∀ index < 4, b.TakesValue index) {quantity : (price a b known : Nat) → Except Failure Nat}
    (hq : ∀ price a b known, Orderly (· < Word.capacity) (quantity price a b known)) :
    Orderly (fun _ => True) (c.position quantity) := by
  rw [position]
  refine (hw.takesValue hf (hb 0 (by decide))).number.bind fun price _ => ?_
  refine (hw.takesValue hf (hb 1 (by decide))).number.bind fun a _ => ?_
  refine (hw.takesValue hf (hb 2 (by decide))).number.bind fun b _ => ?_
  refine (hw.takesValue hf (hb 3 (by decide))).number.bind fun known _ => ?_
  exact (hq price a b known).bind fun n hn => Value.ofNat_orderly hn

theorem shownPrice_orderly {settings : Settings} (h : settings.pricePrecision ≠ .flag true)
    (price : Rat) : OrderlyEval (fun _ => True) (shownPrice settings price) := by
  rw [shownPrice]
  refine (OrderlyEval.liftCause_any _).bind fun shown _ => ?_
  simp only [if_neg h]
  exact .noting (.pure trivial)

theorem priceOfTick_orderly (hw : c.Wellformed) (hf : c.function = .priceOfTick)
    {settings : Settings} (h : settings.pricePrecision ≠ .flag true) :
    OrderlyEval (fun _ => True) (c.priceOfTick settings) := by
  rw [priceOfTick]
  refine (OrderlyEval.lift (hw.takesValue hf (by decide)).flag).bind fun inToken1 _ => ?_
  refine (OrderlyEval.lift (hw.takesValue hf (by decide)).number).bind fun decimals0 _ => ?_
  refine (OrderlyEval.lift (hw.takesValue hf (by decide)).number).bind fun decimals1 _ => ?_
  refine (OrderlyEval.liftCause_any _).bind fun _ _ => ?_
  refine (OrderlyEval.liftCause_any _).bind fun _ _ => ?_
  refine (OrderlyEval.lift (signed_orderly hw hf (by decide))).bind fun tick _ => ?_
  refine (OrderlyEval.liftCause_any _).bind fun price _ => ?_
  exact (shownPrice_orderly h price).bind fun shown _ => .pure trivial

/-! ### All functions -/

/-- **Well-formed calls end orderly**, whatever the function and the arguments are. -/
theorem result_orderly (hw : c.Wellformed) {env : Environment}
    (h : env.settings.pricePrecision ≠ .flag true) :
    OrderlyEval (fun _ => True) (c.result env) := by
  unfold result
  cases hf : c.function with
  | sqrt =>
    refine (OrderlyEval.lift (hw.takesValue hf (by decide)).number).bind fun x hx => ?_
    exact .lift (Value.ofNat_orderly (lt_of_le_of_lt (Root.isqrt_le x) hx))
  | root => exact .lift (root_orderly hw hf)
  | address => exact .lift (address_orderly hw hf)
  | checksum => exact .lift (checksum_orderly hw hf env.hash)
  | selector => exact .lift (selector_orderly hw hf env.hash)
  | keccak => exact .lift (keccak_orderly hw hf env.hash)
  | base64Encode => exact .lift (base64Encode_orderly hw hf)
  | base64Decode => exact .lift (base64Decode_orderly hw hf)
  | abiEncode => exact .lift (abiEncode_orderly hw hf)
  | abiEncodeCall => exact .lift (abiEncodeCall_orderly hw hf env.hash)
  | abiDecode => exact .lift (abiDecode_orderly hw hf env.hash)
  | debug => exact .lift (debug_orderly hw hf)
  | upper => exact .lift (recased_orderly hw hf (by decide) _)
  | lower => exact .lift (recased_orderly hw hf (by decide) _)
  | len => exact .lift (len_orderly hw hf)
  | count => exact .lift (count_orderly hw hf)
  | unix => exact .lift (unix_orderly hw hf env.settings)
  | sqrtRatioOfTick => exact .lift (sqrtRatioOfTick_orderly hw hf)
  | tickOfSqrtRatio => exact .lift (tickOfSqrtRatio_orderly hw hf)
  | priceOfTick => exact priceOfTick_orderly hw hf h
  | liquidityOfAmount0 =>
    refine .lift (position_orderly hw hf (by decide) fun price a b n => ?_)
    exact .liftCause fun _ => Pool.liquidityFromAmount0_lt
  | liquidityOfAmount1 =>
    refine .lift (position_orderly hw hf (by decide) fun price a b n => ?_)
    exact .liftCause fun _ => Pool.liquidityFromAmount1_lt
  | amount0OfLiquidity =>
    exact .lift (position_orderly hw hf (by decide) Pool.amount0FromLiquidity_orderly)
  | amount1OfLiquidity =>
    refine .lift (position_orderly hw hf (by decide) fun price a b n => ?_)
    exact .liftCause fun _ => Pool.amount1FromLiquidity_lt
  | formatEther =>
    refine (OrderlyEval.lift (hw.takesValue hf (by decide)).number).bind fun x _ => ?_
    exact (OrderlyEval.liftCause_any _).bind fun s _ => .pure trivial
  | formatUnits => exact .lift (formatUnits_orderly hw hf)

end Call

end WeiCalc

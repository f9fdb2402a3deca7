import Mathlib
import WeiCalc.Call.Result
import WeiCalc.Proofs.Run

/-!
# How functions fail

Only the parser and the evaluation of expressions know the line: they count its levels, and they
know where in it something stands.  What they use fails for other reasons than nesting, if it fails,
and without a position.  The one exception are texts that have to hold an integer: the error of a
number token in one of them has the position of the token in the text.

* `FailsOnly.bind`, `FailsEval.bind`: a sequence fails for the reasons of its parts.
* `EvalError.Unplaced`: an error that knows nothing of the line.
* `EvalError.OfText`: the error of a number in a text.
* `Abi.encodeWord_raised`, `Abi.decodeCall_unplaced`: encoding and decoding.
* `Call.result_raises`: **calls of all functions.**
-/

namespace WeiCalc

/-! ### Reasons to fail -/

/-- The cause is another one than nesting. -/
def Cause.Shallow : Cause → Prop
  | .nesting _ => False
  | _ => True

namespace EvalError

def Shallow (e : EvalError) : Prop := e.cause.Shallow

/-- The error of an operation that does not know the line. -/
structure Unplaced (e : EvalError) : Prop where
  shallow : e.Shallow
  position : e.position = none

/-- The error of a number token in a text, which is placed in the text. -/
def OfText (e : EvalError) : Prop :=
  ∃ text ts t, Token.ofLine (Text.trimmed text) = .ok ts ∧ t ∈ ts ∧
    NumberLiteral.ofToken t = .error e

/-- The error of an operation that may read an integer in a text. -/
def Raised (e : EvalError) : Prop := e.Unplaced ∨ e.OfText

end EvalError

namespace Failure

def Shallow : Failure → Prop
  | .error e => e.Shallow
  | .fault _ => True

/-- A fault, or an error of which `P` holds. -/
abbrev Only (P : EvalError → Prop) : Failure → Prop
  | .error e => P e
  | .fault _ => True

abbrev Unplaced : Failure → Prop := Only EvalError.Unplaced

abbrev Raised : Failure → Prop := Only EvalError.Raised

theorem Only.mono {P Q : EvalError → Prop} {f : Failure} (h : f.Only P) (hPQ : ∀ e, P e → Q e) :
    f.Only Q := by
  cases f with
  | error e => exact hPQ e h
  | fault f => trivial

end Failure

/-- A literal that cannot be read is an error at its token. -/
theorem NumberLiteral.ofToken_eq_error {t : Token} {e : EvalError}
    (h : NumberLiteral.ofToken t = .error e) : ∃ cause, e = ⟨.literal cause, some t.position⟩ := by
  rw [ofToken, Except.mapError.eq_def] at h
  split at h
  · cases h
    exact ⟨_, rfl⟩
  · cases h

theorem EvalError.OfText.shallow {e : EvalError} (h : e.OfText) : e.Shallow := by
  obtain ⟨_, _, _, _, _, hl⟩ := h
  obtain ⟨_, rfl⟩ := NumberLiteral.ofToken_eq_error hl
  trivial

theorem EvalError.Raised.shallow {e : EvalError} (h : e.Raised) : e.Shallow :=
  h.elim Unplaced.shallow OfText.shallow

/-- The operation fails only for reasons of which `P` holds. -/
def FailsOnly {ε α : Type} (P : ε → Prop) (x : Except ε α) : Prop := ∀ e, x = .error e → P e

/-- The evaluation fails only for reasons of which `P` holds, whatever it has noted before. -/
def FailsEval {α : Type} (P : Failure → Prop) (x : Eval α) : Prop :=
  ∀ ds ds' f, x ds = .error f ds' → P f

/-- The evaluation does not fail for nesting. -/
abbrev ShallowEval {α : Type} (x : Eval α) : Prop := FailsEval Failure.Shallow x

section

variable {ε δ α β : Type} {P : ε → Prop} {Q : δ → Prop}

namespace FailsOnly

theorem ok (a : α) : FailsOnly P (.ok a) := nofun

theorem pure (a : α) : FailsOnly P (Pure.pure a) := ok a

theorem error {e : ε} (h : P e) : FailsOnly P (.error e : Except ε α) := by
  rintro _ ⟨⟩
  exact h

theorem throw {e : ε} (h : P e) : FailsOnly P (MonadExcept.throw e : Except ε α) := error h

theorem mono {P' : ε → Prop} {x : Except ε α} (hx : FailsOnly P x) (h : ∀ e, P e → P' e) :
    FailsOnly P' x := fun e he => h e (hx e he)

theorem bind {x : Except ε α} {f : α → Except ε β} (hx : FailsOnly P x)
    (hf : ∀ a, FailsOnly P (f a)) : FailsOnly P (x >>= f) := by
  cases x with
  | ok a => exact hf a
  | error e => exact error (hx e rfl)

theorem mapError {x : Except ε α} {f : ε → δ} (hx : FailsOnly P x) (hf : ∀ e, P e → Q (f e)) :
    FailsOnly Q (x.mapError f) := by
  cases x with
  | ok a => exact ok a
  | error e => exact error (hf e (hx e rfl))

/-- A choice between an operation and an error. -/
theorem guard {c : Prop} [Decidable c] {x : Except ε α} {e : ε} (hx : FailsOnly P x) (he : P e) :
    FailsOnly P (if c then x else .error e) := by
  split_ifs
  · exact hx
  · exact error he

/-- A choice between an error and an operation. -/
theorem refuse {c : Prop} [Decidable c] {x : Except ε α} {e : ε} (hx : FailsOnly P x) (he : P e) :
    FailsOnly P (if c then .error e else x) := by
  split_ifs
  · exact error he
  · exact hx

theorem mapM {γ : Type} {f : γ → Except ε α} (h : ∀ c, FailsOnly P (f c)) (cs : List γ) :
    FailsOnly P (cs.mapM f) := by
  induction cs with
  | nil => exact pure _
  | cons c cs ih =>
    rw [List.mapM_cons]
    exact (h c).bind fun a => ih.bind fun as => pure _

/-- An operation that only gives a cause does not know the line. -/
theorem liftError {x : Except Cause α} (hx : FailsOnly Cause.Shallow x) :
    FailsOnly EvalError.Unplaced (liftM x : Except EvalError α) := hx.mapError fun _ h => ⟨h, rfl⟩

theorem liftFailure {P : EvalError → Prop} {x : Except EvalError α} (hx : FailsOnly P x) :
    FailsOnly (Failure.Only P) (liftM x : Except Failure α) := hx.mapError fun _ h => h

theorem liftCause {x : Except Cause α} (hx : FailsOnly Cause.Shallow x) :
    FailsOnly Failure.Unplaced (liftM x : Except Failure α) := hx.liftError.liftFailure

theorem unplaced {x : Except Cause α} (hx : FailsOnly Cause.Shallow x) :
    FailsOnly Failure.Unplaced (x.mapError fun cause => Failure.error ⟨cause, none⟩) :=
  hx.mapError fun _ h => ⟨h, rfl⟩

theorem raised {x : Except EvalError α} (hx : FailsOnly EvalError.Unplaced x) :
    FailsOnly EvalError.Raised x := hx.mono fun _ h => Or.inl h

theorem raisedFailure {x : Except Failure α} (hx : FailsOnly Failure.Unplaced x) :
    FailsOnly Failure.Raised x := hx.mono fun _ h => h.mono fun _ h => Or.inl h

end FailsOnly

end

namespace FailsEval

variable {α β : Type} {P : Failure → Prop}

theorem pure (a : α) : FailsEval P (Pure.pure a) := nofun

theorem throw {f : Failure} (h : P f) : FailsEval P (MonadExcept.throw f : Eval α) := by
  rintro _ _ _ ⟨⟩
  exact h

theorem note (o : Observation) (p : Option Nat) : FailsEval P (Eval.note o p) := nofun

theorem mono {Q : Failure → Prop} {x : Eval α} (hx : FailsEval P x) (h : ∀ f, P f → Q f) :
    FailsEval Q x := fun ds ds' f hf => h f (hx ds ds' f hf)

/-- A sequence fails for the reasons of its parts; of what the first one answers is known that it
does. -/
theorem bind_of_ok {x : Eval α} {f : α → Eval β} (hx : FailsEval P x)
    (hf : ∀ a ds ds', x ds = .ok a ds' → FailsEval P (f a)) : FailsEval P (x >>= f) := by
  intro ds ds' e h
  rcases bind_eq_error h with hr | ⟨a, t, hr, h⟩
  · exact hx _ _ _ hr
  · exact hf a _ _ hr _ _ _ h

theorem bind {x : Eval α} {f : α → Eval β} (hx : FailsEval P x) (hf : ∀ a, FailsEval P (f a)) :
    FailsEval P (x >>= f) := hx.bind_of_ok fun a _ _ _ => hf a

theorem map (f : α → β) {x : Eval α} (hx : FailsEval P x) : FailsEval P (f <$> x) :=
  hx.bind fun a => pure (f a)

theorem noting {c : Prop} [Decidable c] {o : Observation} {p : Option Nat} {x : Eval α}
    (hx : FailsEval P x) : FailsEval P (if c then (do Eval.note o p; x) else x) := by
  split_ifs
  · exact (note o p).bind fun _ => hx
  · exact hx

theorem lift {x : Except Failure α} (hx : FailsOnly P x) : FailsEval P (liftM x) := by
  cases x with
  | ok a => exact pure a
  | error f => exact throw (hx f rfl)

theorem liftError {P : EvalError → Prop} {x : Except EvalError α} (hx : FailsOnly P x) :
    FailsEval (Failure.Only P) (liftM x) := lift hx.liftFailure

theorem liftCause {x : Except Cause α} (hx : FailsOnly Cause.Shallow x) :
    FailsEval Failure.Unplaced (liftM x) := lift hx.liftCause

theorem mapFailure {Q : Failure → Prop} {x : Eval α} {f : Failure → Failure} (hx : FailsEval P x)
    (hf : ∀ e, P e → Q (f e)) : FailsEval Q (x.mapFailure f) := by
  intro ds ds' e h
  rw [Eval.mapFailure] at h
  cases hr : x ds with
  | ok a t =>
    simp only [hr] at h
    cases h
  | error e' t =>
    simp only [hr] at h
    cases h
    exact hf e' (hx _ _ _ hr)

end FailsEval

theorem ShallowEval.of_only {α : Type} {x : Eval α}
    (hx : FailsEval (Failure.Only EvalError.Shallow) x) : ShallowEval x := by
  refine hx.mono fun f h => ?_
  cases f with
  | error e => exact h
  | fault f => trivial

/-! ### Values and numbers -/

/-- A number that is no word is a fault, not an error. -/
theorem Value.ofNat_faults {P : EvalError → Prop} (n : Nat) :
    FailsOnly (Failure.Only P) (Value.ofNat n) := by
  rw [Value.ofNat]
  cases Word.ofNat? n with
  | some w => exact .ok _
  | none => exact .error trivial

theorem Value.ofLength_unplaced (n : Nat) : FailsOnly Failure.Unplaced (Value.ofLength n) :=
  .guard (ofNat_faults n) trivial

theorem Value.ofInt_unplaced (i : Int) : FailsOnly Failure.Unplaced (Value.ofInt i) := by
  cases i with
  | ofNat n => exact ofNat_faults n
  | negSucc n => exact .ok _

theorem Root.iroot_shallow (x n : Nat) : FailsOnly Cause.Shallow (Root.iroot x n) := by
  rw [Root.iroot]
  split_ifs
  · exact .error trivial
  all_goals exact .ok _

theorem Display.units_shallow (amount decimals : Nat) :
    FailsOnly Cause.Shallow (Display.units amount decimals) := by
  rw [Display.units]
  split_ifs
  · exact .error trivial
  all_goals exact .ok _

/-! ### Contracts -/

theorem Signature.ofText_shallow (text : String) :
    FailsOnly Cause.Shallow (Signature.ofText text) :=
  .mapError (P := fun _ => True) (fun _ _ => trivial) fun _ _ => trivial

theorem Signature.requireName_shallow (s : Signature) : FailsOnly Cause.Shallow s.requireName :=
  .refuse (.ok _) trivial

theorem Signature.selector_unplaced (s : Signature) (hash : Hash) :
    FailsOnly Failure.Unplaced (s.selector hash) := by
  rw [Signature.selector]
  refine s.requireName_shallow.unplaced.bind fun _ => ?_
  exact .guard (.pure _) trivial

theorem Checksum.ofText_shallow (hash : Hash) (text : String) :
    FailsOnly Cause.Shallow (Checksum.ofText hash text) := by
  rw [Checksum.ofText]
  split
  · exact .ok _
  · exact .error trivial

theorem StaticKind.ofText_shallow (abiType : String) :
    FailsOnly Cause.Shallow (StaticKind.ofText abiType) := by
  rw [StaticKind.ofText]
  split_ifs
  · exact .ok _
  · exact .ok _
  split
  · exact .ok _
  · exact .error trivial

namespace Abi

/-- A text that holds no integer, or the error of the number token in it. -/
theorem integerOfText_raised (text : String) :
    FailsOnly EvalError.Raised (integerOfText text) := by
  have hrefused : EvalError.Raised ⟨.literal (.notNumber text), none⟩ := Or.inl ⟨trivial, rfl⟩
  unfold integerOfText
  dsimp only
  cases hts : Token.ofLine (Text.trimmed text) with
  | error e => exact .throw hrefused
  | ok ts =>
    -- One number token, maybe behind a minus, and the end of the line.
    dsimp only
    split
    · rename_i t stop hpair
      split
      · refine .bind (fun e he => Or.inr ⟨text, ts, t, hts, ?_, he⟩) fun _ => .pure _
        split at hpair <;> obtain rfl := hpair <;> simp
      · exact .throw hrefused
    · exact .throw hrefused

theorem encodeUint_unplaced (value : Int) (bits : Nat) (abiType : String) :
    FailsOnly EvalError.Unplaced (encodeUint value bits abiType) := .guard (.ok _) ⟨trivial, rfl⟩

theorem encodeInt_unplaced (value : Int) (bits : Nat) (abiType : String) :
    FailsOnly EvalError.Unplaced (encodeInt value bits abiType) := .guard (.ok _) ⟨trivial, rfl⟩

theorem argumentInteger_raised (abiType : String) (signed : Bool) (arg : RawArgument) :
    FailsOnly EvalError.Raised (argumentInteger abiType signed arg) := by
  cases arg with
  | piece text => exact integerOfText_raised text
  | value v =>
    cases v with
    | uint w width => exact .ok _
    | text s => exact integerOfText_raised s
    | bytes bs => exact .error (Or.inl ⟨trivial, rfl⟩)
    | bool b => exact .ok _
    | list fields => exact .error (Or.inl ⟨trivial, rfl⟩)

theorem textBytes_unplaced (text abiType : String) :
    FailsOnly EvalError.Unplaced (textBytes text abiType) := by
  rw [textBytes]
  cases Hex.data? text with
  | some bs => exact .ok _
  | none => exact .error ⟨trivial, rfl⟩

theorem atMost_unplaced (size : Nat) (abiType : String) (bs : Bytes) :
    FailsOnly EvalError.Unplaced (atMost size abiType bs) := .refuse (.ok _) ⟨trivial, rfl⟩

theorem argumentBytes_unplaced (size : Nat) (abiType : String) (arg : RawArgument) :
    FailsOnly EvalError.Unplaced (argumentBytes size abiType arg) := by
  cases arg with
  | piece text => exact (textBytes_unplaced text abiType).bind fun _ => atMost_unplaced _ _ _
  | value v =>
    cases v with
    | uint w width => exact .guard (.ok _) ⟨trivial, rfl⟩
    | text s => exact (textBytes_unplaced s abiType).bind fun _ => atMost_unplaced _ _ _
    | bytes bs => exact atMost_unplaced _ _ _
    | bool b => exact .error ⟨trivial, rfl⟩
    | list fields => exact .error ⟨trivial, rfl⟩

theorem boolOfText_unplaced (text : String) : FailsOnly EvalError.Unplaced (boolOfText text) := by
  unfold boolOfText
  dsimp only
  split_ifs
  · exact .ok _
  · exact .ok _
  · exact .error ⟨trivial, rfl⟩

theorem argumentBool_unplaced (arg : RawArgument) :
    FailsOnly EvalError.Unplaced (argumentBool arg) := by
  cases arg with
  | piece text => exact boolOfText_unplaced text
  | value v =>
    cases v with
    | uint w width => exact .guard (.ok _) ⟨trivial, rfl⟩
    | text s => exact boolOfText_unplaced s
    | bytes bs => exact .error ⟨trivial, rfl⟩
    | bool b => exact .ok _
    | list fields => exact .error ⟨trivial, rfl⟩

theorem encodeAddress_raised (abiType : String) (arg : RawArgument) :
    FailsOnly EvalError.Raised (encodeAddress abiType arg) := by
  have hinteger := (argumentInteger_raised abiType false arg).bind fun i =>
    (encodeUint_unplaced i 160 abiType).raised
  unfold encodeAddress
  split
  · exact ((argumentBytes_unplaced _ _ _).bind fun _ => .pure _).raised
  · exact ((argumentBytes_unplaced _ _ _).bind fun _ => .pure _).raised
  · exact hinteger

theorem encodeWord_raised (abiType : String) (arg : RawArgument) :
    FailsOnly EvalError.Raised (encodeWord abiType arg) := by
  refine (StaticKind.ofText_shallow abiType).liftError.raised.bind fun kind => ?_
  cases kind with
  | address => exact encodeAddress_raised _ _
  | bool => exact ((argumentBool_unplaced _).bind fun _ => encodeUint_unplaced _ _ _).raised
  | sized name size =>
    cases name with
    | uint => exact (argumentInteger_raised _ _ _).bind fun _ => (encodeUint_unplaced _ _ _).raised
    | int => exact (argumentInteger_raised _ _ _).bind fun _ => (encodeInt_unplaced _ _ _).raised
    | bytes => exact ((argumentBytes_unplaced _ _ _).bind fun _ => .pure _).raised

theorem encodeWords_raised (ps : List Param) (args : List RawArgument) :
    FailsOnly EvalError.Raised (encodeWords ps args) := by
  fun_induction encodeWords ps args with
  | case1 p ps arg args ih => exact (encodeWord_raised _ _).bind fun _ => ih.bind fun _ => .pure _
  | case2 => exact .ok _

theorem encodeArguments_raised (s : Signature) (args : List RawArgument) :
    FailsOnly EvalError.Raised (encodeArguments s args) :=
  .guard (encodeWords_raised _ _) (Or.inl ⟨trivial, rfl⟩)

theorem encodeCall_raised (hash : Hash) (s : Signature) (args : List RawArgument) :
    FailsOnly Failure.Raised (encodeCall hash s args) :=
  (s.selector_unplaced hash).raisedFailure.bind fun _ =>
    (encodeArguments_raised s args).liftFailure.bind fun _ => .pure _

theorem calldata_shallow (v : Value) : FailsOnly Cause.Shallow (calldata v) := by
  cases v with
  | uint w width => exact .error trivial
  | text s =>
    rw [calldata]
    cases Hex.data? s with
    | some bs => exact .ok _
    | none => exact .error trivial
  | bytes bs => exact .ok _
  | bool b => exact .error trivial
  | list fields => exact .error trivial

theorem decodeWord_unplaced (abiType : String) (word : Bytes) :
    FailsOnly Failure.Unplaced (decodeWord abiType word) := by
  refine (StaticKind.ofText_shallow abiType).unplaced.bind fun kind => ?_
  cases kind with
  | address => exact .guard (.pure _) ⟨trivial, rfl⟩
  | bool => exact .guard (.pure _) ⟨trivial, rfl⟩
  | sized name size =>
    cases name with
    | uint => exact .guard (Value.ofNat_faults _) ⟨trivial, rfl⟩
    | int => exact .guard (Value.ofInt_unplaced _) ⟨trivial, rfl⟩
    | bytes => exact .guard (.pure _) ⟨trivial, rfl⟩

theorem decodeWords_unplaced (ps : List Param) (names : List String) (bs : Bytes) :
    FailsOnly Failure.Unplaced (decodeWords ps names bs) := by
  fun_induction decodeWords ps names bs with
  | case1 p ps name names bs _ ih =>
    exact (decodeWord_unplaced _ _).bind fun _ => ih.bind fun _ => .pure _
  | case2 => exact .ok _

theorem decodeArguments_unplaced (s : Signature) (bs : Bytes) :
    FailsOnly Failure.Unplaced (decodeArguments s bs) := by
  rw [decodeArguments]
  by_cases hl : bs.length = wordSize * s.params.length
  · simp only [hl, ne_eq, not_true_eq_false, if_false]
    exact (decodeWords_unplaced _ _ _).bind fun _ => .pure _
  · simp only [ne_eq, hl, not_false_eq_true, if_true]
    exact .throw ⟨trivial, rfl⟩

theorem decodeCall_unplaced (hash : Hash) (s : Signature) (bs : Bytes) :
    FailsOnly Failure.Unplaced (decodeCall hash s bs) := by
  refine s.requireName_shallow.unplaced.bind fun _ => ?_
  by_cases hl : bs.length < Signature.selectorSize
  · simp only [if_pos hl]
    exact .throw ⟨trivial, rfl⟩
  simp only [if_neg hl]
  refine (s.selector_unplaced hash).bind fun expected => ?_
  by_cases he : bs.take Signature.selectorSize = expected
  · simp only [he, ne_eq, not_true_eq_false, if_false]
    exact decodeArguments_unplaced s _
  · simp only [ne_eq, he, not_false_eq_true, if_true]
    exact .throw ⟨trivial, rfl⟩

theorem callLines_shallow (bs : Bytes) : FailsOnly Cause.Shallow (callLines bs) :=
  .refuse (.refuse (.ok _) trivial) trivial

end Abi

/-! ### Dates -/

namespace Moment

theorem ofTimestamp_shallow (seconds : Nat) :
    FailsOnly Cause.Shallow (ofTimestamp seconds) := .guard (.ok _) trivial

theorem timestamp_shallow (m : Moment) : FailsOnly Cause.Shallow m.timestamp :=
  .refuse (.ok _) trivial

theorem ofFields_shallow (year month day hour minute second : Nat) :
    FailsOnly Cause.Shallow (ofFields year month day hour minute second) := by
  rw [ofFields]
  split
  · exact .error trivial
  · exact .ok _

end Moment

theorem Iso.ofText_shallow (text : String) : FailsOnly Cause.Shallow (Iso.ofText text) := by
  rw [Iso.ofText]
  split
  · exact .ok _
  · exact .error trivial

/-! ### Pools -/

namespace Pool

theorem sqrtPriceAt_shallow (tick : Int) : FailsOnly Cause.Shallow (sqrtPriceAt tick) :=
  .guard (.ok _) trivial

theorem tickAt_shallow (price : Nat) : FailsOnly Cause.Shallow (tickAt price) :=
  .guard (.ok _) trivial

theorem priceAt_shallow (tick : Int) (inToken1 : Bool) (decimals0 decimals1 : Nat) :
    FailsOnly Cause.Shallow (priceAt tick inToken1 decimals0 decimals1) :=
  (sqrtPriceAt_shallow tick).bind fun _ => .pure _

theorem mulDiv_shallow (a b divisor : Nat) : FailsOnly Cause.Shallow (mulDiv a b divisor) :=
  .refuse (.guard (.ok _) trivial) trivial

theorem asLiquidity_shallow (n : Nat) : FailsOnly Cause.Shallow (asLiquidity n) :=
  .guard (.ok _) trivial

theorem positionRange_shallow (price a b : Nat) :
    FailsOnly Cause.Shallow (positionRange price a b) :=
  .refuse (.refuse (.refuse (.ok _) trivial) trivial) trivial

theorem amount0ForLiquidity_unplaced (a b liquidity : Nat) :
    FailsOnly Failure.Unplaced (amount0ForLiquidity a b liquidity) := by
  refine (mulDiv_shallow _ _ _).unplaced.bind fun scaled => ?_
  dsimp only
  split_ifs
  · exact .throw trivial
  · exact .pure _

/-- A position beyond its range holds nothing of a token. -/
theorem beyond_shallow {ε : Type} {P : ε → Prop} {c : Prop} [Decidable c] {x : Except ε Nat}
    (hx : FailsOnly P x) : FailsOnly P (if c then pure 0 else x) := by
  split_ifs
  · exact .pure _
  · exact hx

theorem liquidityFromAmount0_shallow (price a b amount : Nat) :
    FailsOnly Cause.Shallow (liquidityFromAmount0 price a b amount) :=
  (positionRange_shallow price a b).bind fun _ => beyond_shallow <|
    (mulDiv_shallow _ _ _).bind fun _ => (mulDiv_shallow _ _ _).bind fun _ => asLiquidity_shallow _

theorem liquidityFromAmount1_shallow (price a b amount : Nat) :
    FailsOnly Cause.Shallow (liquidityFromAmount1 price a b amount) :=
  (positionRange_shallow price a b).bind fun _ => beyond_shallow <|
    (mulDiv_shallow _ _ _).bind fun _ => asLiquidity_shallow _

theorem amount0FromLiquidity_unplaced (price a b liquidity : Nat) :
    FailsOnly Failure.Unplaced (amount0FromLiquidity price a b liquidity) :=
  (positionRange_shallow price a b).unplaced.bind fun _ => beyond_shallow <|
    amount0ForLiquidity_unplaced _ _ _

theorem amount1FromLiquidity_shallow (price a b liquidity : Nat) :
    FailsOnly Cause.Shallow (amount1FromLiquidity price a b liquidity) :=
  (positionRange_shallow price a b).bind fun _ => beyond_shallow <| mulDiv_shallow _ _ _

end Pool

/-! ### Calls -/

theorem Value.toInt_raised (v : Value) : FailsOnly EvalError.Raised v.toInt := by
  cases v with
  | uint w width => exact .ok _
  | text s => exact Abi.integerOfText_raised s
  | bytes bs => exact .error (Or.inl ⟨trivial, rfl⟩)
  | bool b => exact .error (Or.inl ⟨trivial, rfl⟩)
  | list fields => exact .error (Or.inl ⟨trivial, rfl⟩)

theorem Builtin.ofName_shallow (name : String) :
    FailsOnly Cause.Shallow (Builtin.ofName name) := by
  rw [Builtin.ofName]
  split
  · exact .ok _
  · exact .error trivial

theorem Builtin.checkCount_shallow (b : Builtin) (count : Nat) :
    FailsOnly Cause.Shallow (b.checkCount count) := .guard (.ok _) trivial

/-- The functions that read integers in texts. -/
def Builtin.textReaders : List Builtin :=
  [.abiEncode, .abiEncodeCall, .sqrtRatioOfTick, .priceOfTick]

/-- What the errors of a function are like. -/
def Builtin.Raises (b : Builtin) (e : EvalError) : Prop :=
  e.Unplaced ∨ (b ∈ textReaders ∧ e.OfText)

theorem Builtin.Raises.raised {b : Builtin} {e : EvalError} (h : b.Raises e) : e.Raised :=
  h.imp_right And.right

theorem FailsEval.raises {α : Type} {b : Builtin} {x : Eval α} (hx : FailsEval Failure.Unplaced x) :
    FailsEval (Failure.Only b.Raises) x := hx.mono fun _ h => h.mono fun _ h => Or.inl h

theorem FailsOnly.raises {α : Type} {b : Builtin} {x : Except Failure α}
    (hx : FailsOnly Failure.Raised x) (hb : b ∈ Builtin.textReaders) :
    FailsOnly (Failure.Only b.Raises) x :=
  hx.mono fun _ h => h.mono fun _ h => h.imp_right fun h => ⟨hb, h⟩

namespace Call

variable (c : Call) (index : Nat)

theorem value_unplaced : FailsOnly Failure.Unplaced (c.value index) := by
  rw [value]
  split
  · exact .ok _
  · exact .error trivial
  · exact .error trivial

theorem signed_unplaced : FailsOnly Failure.Unplaced (c.signed index) := by
  rw [signed]
  split
  · exact .ok _
  · exact .error trivial
  · exact .error trivial

theorem mismatch_unplaced {α : Type} (expected got : String) :
    FailsOnly Failure.Unplaced (c.mismatch index expected got : Except Failure α) :=
  .error ⟨trivial, rfl⟩

theorem number_unplaced : FailsOnly Failure.Unplaced (c.number index) := by
  refine .bind ((c.value_unplaced index).bind fun v => ?_) fun w => .pure _
  split
  · exact .pure _
  · exact c.mismatch_unplaced _ _ _

theorem text_unplaced : FailsOnly Failure.Unplaced (c.text index) := by
  refine (c.value_unplaced index).bind fun v => ?_
  split
  · exact .pure _
  · exact c.mismatch_unplaced _ _ _

theorem flag_unplaced : FailsOnly Failure.Unplaced (c.flag index) := by
  refine (c.value_unplaced index).bind fun v => ?_
  split
  · exact .pure _
  · exact .pure _
  · exact c.mismatch_unplaced _ _ _

theorem root_unplaced : FailsOnly Failure.Unplaced c.root :=
  (c.number_unplaced 0).bind fun _ => (c.number_unplaced 1).bind fun _ =>
    (Root.iroot_shallow _ _).liftCause.bind fun _ => Value.ofNat_faults _

theorem addressNumber_unplaced (v : Value) : FailsOnly Failure.Unplaced (c.addressNumber v) := by
  have hsize : ∀ n limit, FailsOnly Failure.Unplaced
      (if n < Value.addressLimit then pure n
        else if n < limit then throw (Failure.error ⟨.range (.address c.function.name n), none⟩)
        else throw (.fault .longNumber)) := by
    intro n limit
    split_ifs
    · exact .pure _
    · exact .throw ⟨trivial, rfl⟩
    · exact .throw trivial
  unfold addressNumber
  dsimp only
  split
  · exact hsize _ _
  · split
    · exact hsize _ _
    · exact .bind (.throw ⟨trivial, rfl⟩) fun n => hsize n _
  · exact .bind (.throw ⟨trivial, rfl⟩) fun n => hsize n _

theorem address_unplaced : FailsOnly Failure.Unplaced c.address :=
  (c.value_unplaced 0).bind fun _ => (c.addressNumber_unplaced _).bind fun _ => .pure _

theorem checksum_unplaced (hash : Hash) : FailsOnly Failure.Unplaced (c.checksum hash) := by
  refine (c.value_unplaced 0).bind fun v => ?_
  split
  · exact (Checksum.ofText_shallow hash _).liftCause.bind fun _ => .pure _
  · refine (c.addressNumber_unplaced _).bind fun n => ?_
    exact (Checksum.ofText_shallow hash _).liftCause.bind fun _ => .pure _

theorem signature_unplaced : FailsOnly Failure.Unplaced c.signature :=
  (c.text_unplaced 0).bind fun _ => (Signature.ofText_shallow _).liftCause

theorem selector_unplaced (hash : Hash) : FailsOnly Failure.Unplaced (c.selector hash) :=
  c.signature_unplaced.bind fun s => (s.selector_unplaced hash).bind fun _ => .pure _

theorem keccak_unplaced (hash : Hash) : FailsOnly Failure.Unplaced (c.keccak hash) := by
  refine (c.value_unplaced 0).bind fun v => ?_
  dsimp only
  split
  · exact .pure _
  · exact .pure _
  · exact .pure _
  · exact (c.mismatch_unplaced _ _ _).bind fun _ => .pure _

theorem base64Encode_unplaced : FailsOnly Failure.Unplaced c.base64Encode := by
  refine (c.value_unplaced 0).bind fun v => ?_
  split
  · exact .pure _
  · exact .pure _
  · exact c.mismatch_unplaced _ _ _

theorem base64Decode_unplaced : FailsOnly Failure.Unplaced c.base64Decode := by
  refine (c.text_unplaced 0).bind fun s => ?_
  split
  · exact .throw ⟨trivial, rfl⟩
  · split
    · exact .pure _
    · exact .pure _

theorem encodables_unplaced : FailsOnly Failure.Unplaced c.encodables := by
  rw [encodables]
  split
  · exact .ok _
  · refine .mapM (fun arg => ?_) _
    cases arg with
    | value v => exact .ok _
    | signed i => exact .error trivial

theorem abiEncode_raised : FailsOnly Failure.Raised c.abiEncode :=
  c.signature_unplaced.raisedFailure.bind fun s =>
    c.encodables_unplaced.raisedFailure.bind fun args =>
      (Abi.encodeArguments_raised s args).liftFailure.bind fun _ => .pure _

theorem abiEncodeCall_raised (hash : Hash) : FailsOnly Failure.Raised (c.abiEncodeCall hash) :=
  c.signature_unplaced.raisedFailure.bind fun s =>
    c.encodables_unplaced.raisedFailure.bind fun args =>
      (Abi.encodeCall_raised hash s args).bind fun _ => .pure _

theorem abiDecode_unplaced (hash : Hash) : FailsOnly Failure.Unplaced (c.abiDecode hash) :=
  c.signature_unplaced.bind fun s => (c.value_unplaced 1).bind fun v =>
    (Abi.calldata_shallow v).liftCause.bind fun bs => Abi.decodeCall_unplaced hash s bs

theorem debug_unplaced : FailsOnly Failure.Unplaced c.debug :=
  (c.value_unplaced 0).bind fun v => (Abi.calldata_shallow v).liftCause.bind fun bs =>
    (Abi.callLines_shallow bs).liftCause.bind fun _ => .pure _

theorem recased_unplaced (change : List Char → List Char) :
    FailsOnly Failure.Unplaced (c.recased change) :=
  (c.text_unplaced 0).bind fun _ => .pure _

theorem len_unplaced : FailsOnly Failure.Unplaced c.len := by
  refine (c.value_unplaced 0).bind fun v => ?_
  split
  · exact Value.ofLength_unplaced _
  · exact (c.text_unplaced 0).bind fun _ => Value.ofLength_unplaced _

theorem count_unplaced : FailsOnly Failure.Unplaced c.count := by
  refine (c.text_unplaced 0).bind fun s => (c.text_unplaced 1).bind fun sub => ?_
  dsimp only
  split_ifs
  · exact .throw ⟨trivial, rfl⟩
  · exact Value.ofLength_unplaced _

theorem moment_unplaced {layout : Except Failure String} (hl : FailsOnly Failure.Unplaced layout) :
    FailsOnly Failure.Unplaced (c.moment layout) :=
  (c.number_unplaced 0).bind fun _ => (Moment.ofTimestamp_shallow _).liftCause.bind fun _ =>
    hl.bind fun _ => .pure _

theorem timestamp_unplaced : FailsOnly Failure.Unplaced c.timestamp :=
  (c.number_unplaced 0).bind fun _ => (c.number_unplaced 1).bind fun _ =>
    (c.number_unplaced 2).bind fun _ => (c.number_unplaced 3).bind fun _ =>
    (c.number_unplaced 4).bind fun _ => (c.number_unplaced 5).bind fun _ =>
    (Moment.ofFields_shallow _ _ _ _ _ _).liftCause.bind fun m =>
    m.timestamp_shallow.liftCause.bind fun _ => Value.ofNat_faults _

theorem unix_unplaced (settings : Settings) : FailsOnly Failure.Unplaced (c.unix settings) := by
  rw [unix]
  split
  · exact c.timestamp_unplaced
  · exact c.moment_unplaced (c.text_unplaced 1)
  · refine (c.value_unplaced 0).bind fun v => ?_
    split
    · exact (Iso.ofText_shallow _).liftCause.bind fun m =>
        m.timestamp_shallow.liftCause.bind fun _ => Value.ofNat_faults _
    · exact c.moment_unplaced (.ok _)

theorem sqrtRatioOfTick_unplaced : FailsOnly Failure.Unplaced c.sqrtRatioOfTick :=
  (c.signed_unplaced 0).bind fun _ => (Pool.sqrtPriceAt_shallow _).liftCause.bind fun _ =>
    Value.ofNat_faults _

theorem tickOfSqrtRatio_unplaced : FailsOnly Failure.Unplaced c.tickOfSqrtRatio :=
  (c.number_unplaced 0).bind fun _ => (Pool.tickAt_shallow _).liftCause.bind fun _ =>
    Value.ofInt_unplaced _

theorem checkDecimals_shallow (decimals : Nat) :
    FailsOnly Cause.Shallow (checkDecimals decimals) := .guard (.ok _) trivial

theorem shownPrice_unplaced (settings : Settings) (price : Rat) :
    FailsEval Failure.Unplaced (shownPrice settings price) := by
  refine (FailsEval.liftCause (Display.units_shallow _ _)).bind fun shown => ?_
  by_cases h : settings.pricePrecision = .flag true
  · simp only [if_pos h]
    exact (FailsEval.throw (f := .fault .digitCount) trivial).bind fun _ => .noting (.pure _)
  · simp only [if_neg h]
    exact .noting (.pure _)

theorem priceOfTick_unplaced (settings : Settings) :
    FailsEval Failure.Unplaced (c.priceOfTick settings) := by
  refine (FailsEval.lift (c.flag_unplaced 1)).bind fun inToken1 => ?_
  refine (FailsEval.lift (c.number_unplaced 2)).bind fun decimals0 => ?_
  refine (FailsEval.lift (c.number_unplaced 3)).bind fun decimals1 => ?_
  refine (FailsEval.liftCause (checkDecimals_shallow _)).bind fun _ => ?_
  refine (FailsEval.liftCause (checkDecimals_shallow _)).bind fun _ => ?_
  refine (FailsEval.lift (c.signed_unplaced 0)).bind fun tick => ?_
  refine (FailsEval.liftCause (Pool.priceAt_shallow _ _ _ _)).bind fun price => ?_
  exact (shownPrice_unplaced settings price).bind fun shown => .pure _

theorem position_unplaced {quantity : (price a b known : Nat) → Except Failure Nat}
    (hq : ∀ price a b known, FailsOnly Failure.Unplaced (quantity price a b known)) :
    FailsOnly Failure.Unplaced (c.position quantity) :=
  (c.number_unplaced 0).bind fun _ => (c.number_unplaced 1).bind fun _ =>
    (c.number_unplaced 2).bind fun _ => (c.number_unplaced 3).bind fun _ =>
    (hq _ _ _ _).bind fun _ => Value.ofNat_faults _

theorem formatUnits_unplaced : FailsOnly Failure.Unplaced c.formatUnits :=
  (c.number_unplaced 0).bind fun _ => (c.number_unplaced 1).bind fun _ =>
    (Display.units_shallow _ _).liftCause.bind fun _ => .pure _

/-- **How functions fail**: not for nesting and without a position, but for those that read integers
in texts. -/
theorem result_raises (env : Environment) :
    FailsEval (Failure.Only c.function.Raises) (c.result env) := by
  unfold result
  cases c.function with
  | sqrt =>
    refine ((FailsEval.lift (c.number_unplaced 0)).bind fun x => ?_).raises
    exact .lift (Value.ofNat_faults _)
  | root => exact (FailsEval.lift c.root_unplaced).raises
  | address => exact (FailsEval.lift c.address_unplaced).raises
  | checksum => exact (FailsEval.lift (c.checksum_unplaced env.hash)).raises
  | selector => exact (FailsEval.lift (c.selector_unplaced env.hash)).raises
  | keccak => exact (FailsEval.lift (c.keccak_unplaced env.hash)).raises
  | base64Encode => exact (FailsEval.lift c.base64Encode_unplaced).raises
  | base64Decode => exact (FailsEval.lift c.base64Decode_unplaced).raises
  | abiEncode => exact .lift (c.abiEncode_raised.raises (by decide))
  | abiEncodeCall => exact .lift ((c.abiEncodeCall_raised env.hash).raises (by decide))
  | abiDecode => exact (FailsEval.lift (c.abiDecode_unplaced env.hash)).raises
  | debug => exact (FailsEval.lift c.debug_unplaced).raises
  | upper => exact (FailsEval.lift (c.recased_unplaced _)).raises
  | lower => exact (FailsEval.lift (c.recased_unplaced _)).raises
  | len => exact (FailsEval.lift c.len_unplaced).raises
  | count => exact (FailsEval.lift c.count_unplaced).raises
  | unix => exact (FailsEval.lift (c.unix_unplaced env.settings)).raises
  | sqrtRatioOfTick => exact (FailsEval.lift c.sqrtRatioOfTick_unplaced).raises
  | tickOfSqrtRatio => exact (FailsEval.lift c.tickOfSqrtRatio_unplaced).raises
  | priceOfTick => exact (c.priceOfTick_unplaced env.settings).raises
  | liquidityOfAmount0 =>
    refine (FailsEval.lift (c.position_unplaced fun price a b n => ?_)).raises
    exact (Pool.liquidityFromAmount0_shallow price a b n).liftCause
  | liquidityOfAmount1 =>
    refine (FailsEval.lift (c.position_unplaced fun price a b n => ?_)).raises
    exact (Pool.liquidityFromAmount1_shallow price a b n).liftCause
  | amount0OfLiquidity =>
    exact (FailsEval.lift (c.position_unplaced Pool.amount0FromLiquidity_unplaced)).raises
  | amount1OfLiquidity =>
    refine (FailsEval.lift (c.position_unplaced fun price a b n => ?_)).raises
    exact (Pool.amount1FromLiquidity_shallow price a b n).liftCause
  | formatEther =>
    refine ((FailsEval.lift (c.number_unplaced 0)).bind fun x => ?_).raises
    exact (FailsEval.liftCause (Display.units_shallow _ _)).bind fun _ => .pure _
  | formatUnits => exact (FailsEval.lift c.formatUnits_unplaced).raises

end Call

end WeiCalc

import Mathlib
import WeiCalc.Expr.Evaluation
import WeiCalc.Proofs.Abi.Literal
import WeiCalc.Proofs.Grammar.Exact

/-!
# Encoding numbers, and a text that lists them

The arguments behind a signature are values of their own or stand in one text.  For number literals
the two ways agree where every literal is the same argument either way, and nowhere else.

* `Evaluation.value_abiEncode`: what a call evaluates to once its arguments are evaluated.
* `Context.value_abiEncode_listed`: **numbers are encoded alike by themselves and in a text** exactly
  if each of them is the same argument either way.
* `Context.value_abiEncode_address`: ten is another address within a text.
-/

namespace WeiCalc

open Abi (alone listed AlikeFor)

/-! ### What the function answers -/

theorem Eval.locatedAt_eq_ok {α : Type} {position : Nat} {x : Eval α} {ds ds' : Diagnostics} {a : α} :
    Eval.locatedAt position x ds = .ok a ds' ↔ x ds = .ok a ds' := by
  rw [Eval.locatedAt, Eval.mapFailure]
  cases x ds <;> simp

theorem Eval.lift_eq_ok {α : Type} {x : Except Failure α} {ds ds' : Diagnostics} {a : α} :
    (liftM x : Eval α) ds = .ok a ds' ↔ x = .ok a ∧ ds' = ds := by
  cases x with
  | ok b =>
    constructor
    · intro h
      cases h
      exact ⟨rfl, rfl⟩
    · rintro ⟨h, rfl⟩
      cases h
      rfl
  | error e =>
    constructor
    · intro h
      cases h
    · rintro ⟨h, -⟩
      cases h

namespace Call

/-- The arguments of an encoding behind its signature. -/
theorem abiEncode_eq_ok {sig : String} {args : List Argument} {v : Value} :
    abiEncode ⟨.abiEncode, .value (.text sig) :: args⟩ = .ok v ↔
      ∃ s raws bs, Signature.ofText sig = .ok s ∧
        encodables ⟨.abiEncode, .value (.text sig) :: args⟩ = .ok raws ∧
        raws.length = s.params.length ∧ Abi.encodeWords s.params raws = .ok bs ∧
        v = .bytes bs := by
  have hs : ∀ s, (⟨.abiEncode, .value (.text sig) :: args⟩ : Call).signature = .ok s ↔
      Signature.ofText sig = .ok s := fun _ => mapError_eq_ok.trans mapError_eq_ok
  rw [abiEncode]
  constructor
  · intro h
    obtain ⟨s, hsig, h⟩ := except_bind_eq_ok h
    obtain ⟨raws, hr, h⟩ := except_bind_eq_ok h
    obtain ⟨bs, hb, h⟩ := except_bind_eq_ok h
    obtain ⟨hl, hw⟩ := ite_eq_ok.mp (mapError_eq_ok.mp hb)
    cases h
    exact ⟨s, raws, bs, (hs s).mp hsig, hr, hl, hw, rfl⟩
  · rintro ⟨s, raws, bs, hsig, hr, hl, hw, rfl⟩
    have hb : Abi.encodeArguments s raws = .ok bs := ite_eq_ok.mpr ⟨hl, hw⟩
    rw [(hs s).mpr hsig, hr]
    show (liftM (Abi.encodeArguments s raws) >>= fun bs => Except.ok (Value.bytes bs)) = _
    rw [hb]
    rfl

/-- Numbers are arguments of their own. -/
theorem encodables_numbers (sig : Value) (xs : List NumberText) :
    encodables ⟨.abiEncode, .value sig :: xs.map fun x => .value (.number x.literal.value)⟩ =
      .ok (xs.map alone) := by
  have hm : ∀ xs : List NumberText,
      (xs.map fun x => Argument.value (.number x.literal.value)).mapM encodable =
        .ok (xs.map alone) := by
    intro xs
    induction xs with
    | nil => rfl
    | cons x xs ih =>
      rw [List.map_cons, List.mapM_cons, ih]
      rfl
  cases xs with
  | nil => rfl
  | cons x xs => exact hm (x :: xs)

/-- A text lists the arguments. -/
theorem encodables_text (sig : Value) (t : String) :
    encodables ⟨.abiEncode, [.value sig, .value (.text t)]⟩ =
      .ok ((Abi.splitArguments t).map .piece) := rfl

end Call

namespace Evaluation

variable {env : Environment} {levels : Nat} {mode : ArithmeticMode}

/-- The value of a call once its arguments behind the signature are evaluated. -/
theorem value_abiEncode {sig : String} {p q : Nat} {es : List Expr} {args : List Argument}
    {ds ds' : Diagnostics}
    (h : arguments ⟨value env (levels + 1), signed env (levels + 1)⟩ mode .abiEncode
      (es.length + 1) 1 es ds = .ok args ds') :
    value env (levels + 2) mode (.call "abi_encode" (.text sig p :: es) q) ds =
      Eval.locatedAt q (Call.result env ⟨.abiEncode, .value (.text sig) :: args⟩) ds' := by
  have hf : functionFor "abi_encode" (es.length + 1) = .ok .abiEncode := by
    have hc : Builtin.abiEncode.checkCount (es.length + 1) = .ok () := if_pos (by
      simp [Builtin.admits, Builtin.arity, Arity.admits])
    show Builtin.abiEncode.checkCount (es.length + 1) >>= (fun _ => .ok Builtin.abiEncode) = _
    rw [hc]
    rfl
  have harg : arguments ⟨value env (levels + 1), signed env (levels + 1)⟩ mode .abiEncode
      (es.length + 1) 0 (.text sig p :: es) ds = .ok (.value (.text sig) :: args) ds' := by
    show (arguments ⟨value env (levels + 1), signed env (levels + 1)⟩ mode .abiEncode
      (es.length + 1) 1 es >>= fun args => pure (Argument.value (.text sig) :: args)) ds = _
    rw [bind_of_ok h]
    rfl
  have hcall : Eval.placedAt q (liftM (functionFor "abi_encode" (es.length + 1))) ds =
      .ok .abiEncode ds := by
    rw [hf]
    rfl
  show call env ⟨value env (levels + 1), signed env (levels + 1)⟩ mode "abi_encode"
    (.text sig p :: es) q ds = _
  rw [call, List.length_cons, bind_of_ok hcall, bind_of_ok harg]

/-- Numbers evaluate to themselves as arguments; by induction on how many there are. -/
theorem arguments_numbers (env : Environment) (levels : Nat) (mode : ArithmeticMode) (count : Nat)
    (xs : List (NumberText × Nat)) :
    ∀ (index : Nat) (ds : Diagnostics), ∃ ds',
      arguments ⟨value env (levels + 1), signed env (levels + 1)⟩ mode .abiEncode count (index + 1)
        (xs.map fun x => .number x.1.literal x.2) ds =
        .ok ((xs.map Prod.fst).map fun x => .value (.number x.literal.value)) ds' := by
  induction xs with
  | nil => exact fun _ ds => ⟨ds, rfl⟩
  | cons x xs ih =>
    intro index ds
    obtain ⟨ds₁, hx⟩ : ∃ ds₁, literal x.1.literal x.2 ds = .ok (.number x.1.literal.value) ds₁ := by
      rw [literal]
      split
      · exact ⟨_, rfl⟩
      · exact ⟨ds, rfl⟩
    obtain ⟨ds', hrest⟩ := ih (index + 1) ds₁
    refine ⟨ds', ?_⟩
    have hfirst : (Argument.value <$> literal x.1.literal x.2) ds =
        .ok (.value (.number x.1.literal.value)) ds₁ := by
      rw [map_eq_pure_bind, bind_of_ok hx]
      rfl
    rw [List.map_cons, List.map_cons, List.map_cons, arguments]
    exact (bind_of_ok hfirst).trans (bind_of_ok hrest)

/-- A call with arguments has its arguments one level down. -/
theorem exists_levels {name : String} {e : Expr} {es : List Expr} {q : Nat} {ds ds' : Diagnostics}
    {v : Value} (h : value env levels mode (.call name (e :: es) q) ds = .ok v ds') :
    ∃ k, levels = k + 2 := by
  match levels with
  | 0 => cases h
  | 1 =>
    obtain ⟨function, _, -, h⟩ := bind_eq_ok (p := Eval.placedAt q _) h
    obtain ⟨args, _, ha, -⟩ := bind_eq_ok h
    rw [arguments] at ha
    split at ha
    all_goals
      obtain ⟨first, _, hfirst, -⟩ := bind_eq_ok ha
      cases hfirst
  | k + 2 => exact ⟨k, rfl⟩

end Evaluation

/-! ### The two ways to write arguments -/

/-- A literal by itself is the expression of its number. -/
theorem Expr.ofLine_numberText {maxDepth : Limit} (hd : 0 < maxDepth.value) (x : NumberText) :
    Expr.ofLine maxDepth x.text = .ok (.number x.literal x.token.position) := by
  have hk : x.token.kind ∈ [TokenKind.number, .hexNumber, .binaryNumber] := by
    rcases Abi.isNumeric_cases x.isNumeric with h | h | h <;> simp [h]
  have hp : Grammar.Derives .primary [x.token] (.number x.literal x.token.position) 0 :=
    .number hk x.value
  have hstop : x.stop.kind = .stop :=
    Token.kind_of_ofLine (show Token.ofLine x.text = .ok ([x.token] ++ [x.stop]) from x.reads)
  rw [Expr.ofLine, x.reads]
  exact Grammar.ofTokens_of_derives hstop (.alone (.term (.bare hp))) hd

/-- A call that encodes numbers by themselves; each stands at a position of its own. -/
def Expr.encoding (sig : String) (p : Nat) (xs : List (NumberText × Nat)) (q : Nat) : Expr :=
  .call "abi_encode" (.text sig p :: xs.map fun x => .number x.1.literal x.2) q

/-- A call that encodes numbers listed in one text, with a gap behind each comma. -/
def Expr.encodingListed (sig : String) (p : Nat) (xs : List NumberText) (gap : List Char)
    (p' q : Nat) : Expr :=
  .call "abi_encode"
    [.text sig p, .text (String.intercalate (String.ofList (',' :: gap)) (xs.map (·.text))) p'] q

namespace Evaluation

variable {sig : String} {s : Signature} {p p' q : Nat} {v : Value} {ds ds' : Diagnostics}

/-- A call answers the words of its arguments. -/
theorem value_abiEncode_eq_ok (hs : Signature.ofText sig = .ok s) {es : List Expr}
    {args : List Argument} {raws : List RawArgument}
    (ha : arguments ⟨value env (levels + 1), signed env (levels + 1)⟩ mode .abiEncode
      (es.length + 1) 1 es ds = .ok args ds')
    (hr : Call.encodables ⟨.abiEncode, .value (.text sig) :: args⟩ = .ok raws) :
    (∃ ds', value env (levels + 2) mode (.call "abi_encode" (.text sig p :: es) q) ds =
        .ok v ds') ↔
      raws.length = s.params.length ∧
        ∃ bs, Abi.encodeWords s.params raws = .ok bs ∧ v = .bytes bs := by
  rw [value_abiEncode ha]
  constructor
  · rintro ⟨_, h⟩
    obtain ⟨hc, -⟩ := Eval.lift_eq_ok.mp (Eval.locatedAt_eq_ok.mp h)
    obtain ⟨s', raws', bs, hs', hr', hl, hw, rfl⟩ := Call.abiEncode_eq_ok.mp hc
    rw [hs] at hs'
    rw [hr] at hr'
    cases hs'
    cases hr'
    exact ⟨hl, bs, hw, rfl⟩
  · rintro ⟨hl, bs, hw, rfl⟩
    have hc := Call.abiEncode_eq_ok.mpr ⟨s, raws, bs, hs, hr, hl, hw, rfl⟩
    exact ⟨ds', Eval.locatedAt_eq_ok.mpr (Eval.lift_eq_ok.mpr ⟨hc, rfl⟩)⟩

theorem value_encoding_eq_ok (hs : Signature.ofText sig = .ok s) (xs : List (NumberText × Nat)) :
    (∃ ds', value env (levels + 2) mode (.encoding sig p xs q) ds = .ok v ds') ↔
      ((xs.map Prod.fst).map alone).length = s.params.length ∧
        ∃ bs, Abi.encodeWords s.params ((xs.map Prod.fst).map alone) = .ok bs ∧ v = .bytes bs := by
  obtain ⟨ds', ha⟩ := arguments_numbers env levels mode
    ((xs.map fun x => Expr.number x.1.literal x.2).length + 1) xs 0 ds
  exact value_abiEncode_eq_ok hs ha (Call.encodables_numbers (.text sig) _)

theorem value_encodingListed_eq_ok (hs : Signature.ofText sig = .ok s) (xs : List NumberText)
    {gap : List Char} (hg : ∀ c ∈ gap, Text.isBlank c = true) :
    (∃ ds', value env (levels + 2) mode (.encodingListed sig p xs gap p' q) ds = .ok v ds') ↔
      (xs.map listed).length = s.params.length ∧
        ∃ bs, Abi.encodeWords s.params (xs.map listed) = .ok bs ∧ v = .bytes bs := by
  have hbare : ∀ t ∈ xs.map (·.text), Abi.Bare t := by
    intro t ht
    obtain ⟨x, -, rfl⟩ := List.mem_map.mp ht
    exact x.bare
  have hr : Call.encodables ⟨.abiEncode, [.value (.text sig),
      .value (.text (String.intercalate (String.ofList (',' :: gap)) (xs.map (·.text))))]⟩ =
      .ok (xs.map listed) := by
    rw [Call.encodables_text, Abi.splitArguments_intercalate hg hbare, List.map_map]
    rfl
  exact value_abiEncode_eq_ok hs rfl hr

end Evaluation

/-- **Numbers that are encoded by themselves are encoded as the same bytes within one text** exactly
if each of them is the same argument either way.  That is so for every number of an integer type, for
a truth value written as nought or one, and for an address whose text, read as hexadecimal data, is at
most 20 bytes that denote its number. -/
theorem Context.value_abiEncode_listed {c : Context} {sig : String} {s : Signature}
    (hs : Signature.ofText sig = .ok s) (hp : ∀ p ∈ s.params, Abi.Numeric p)
    {xs : List (NumberText × Nat)} (hx : ∀ x ∈ xs, x.1.toNat < 2 ^ 255) {gap : List Char}
    (hg : ∀ c ∈ gap, Text.isBlank c = true) {p p' q : Nat} {v : Value} {ds ds' : Diagnostics}
    (h : c.value (.encoding sig p xs q) ds = .ok v ds') :
    (∃ ds₁, c.value (.encodingListed sig p (xs.map Prod.fst) gap p' q) ds = .ok v ds₁) ↔
      List.Forall₂ AlikeFor s.params (xs.map Prod.fst) := by
  obtain ⟨env, mode, levels⟩ := c
  obtain ⟨k, rfl⟩ := Evaluation.exists_levels h
  obtain ⟨hl, bs, hw, rfl⟩ := (Evaluation.value_encoding_eq_ok hs xs).mp ⟨ds', h⟩
  rw [List.length_map] at hl
  have hx' : ∀ x ∈ xs.map Prod.fst, x.toNat < 2 ^ 255 := by
    intro x hm
    obtain ⟨y, hy, rfl⟩ := List.mem_map.mp hm
    exact hx y hy
  rw [← Abi.encodeWords_listed_iff hp hx' hl hw]
  refine (Evaluation.value_encodingListed_eq_ok hs _ hg).trans ⟨?_, fun h => ?_⟩
  · rintro ⟨-, bs', hw', he⟩
    cases he
    exact hw'
  · exact ⟨by rw [List.length_map, hl], bs, h, rfl⟩

/-- Seven, one and an address with a mark are encoded alike. -/
theorem Context.value_abiEncode_listed_small :
    let c := Context.start ⟨.standard 0, fun _ => Vector.replicate 32 0⟩
    ∃ xs : List (NumberText × Nat), (xs.map fun x => x.1.text) = ["7", "1", "0x0a"] ∧
      (∃ ds, c.value (.encoding "f(uint8,bool,address)" 11 xs 0) #[] =
        .ok (.bytes (Bytes.ofNat 32 7 ++ Bytes.ofNat 32 1 ++ Bytes.ofNat 32 10)) ds) ∧
      ∃ ds, c.value (.encodingListed "f(uint8,bool,address)" 11 (xs.map Prod.fst) [' '] 36 0) #[] =
        .ok (.bytes (Bytes.ofNat 32 7 ++ Bytes.ofNat 32 1 ++ Bytes.ofNat 32 10)) ds := by
  intro c
  let seven : NumberText := ⟨"7", ⟨.number, "7", 0⟩, ⟨.stop, "", 1⟩, ⟨7, "7", none⟩,
    by decide +kernel, rfl, by decide +kernel, by simp [Lexeme.isSpace]⟩
  let one : NumberText := ⟨"1", ⟨.number, "1", 0⟩, ⟨.stop, "", 1⟩, ⟨1, "1", none⟩,
    by decide +kernel, rfl, by decide +kernel, by simp [Lexeme.isSpace]⟩
  let ten : NumberText := ⟨"0x0a", ⟨.hexNumber, "0x0a", 0⟩, ⟨.stop, "", 4⟩, ⟨10, "0x0a", none⟩,
    by decide +kernel, rfl, by decide +kernel, by simp [Lexeme.isSpace]⟩
  let xs : List (NumberText × Nat) := [(seven, 36), (one, 39), (ten, 42)]
  let s : Signature := ⟨['f'], [⟨.elementary "uint8".toList, []⟩, ⟨.elementary "bool".toList, []⟩,
    ⟨.elementary "address".toList, []⟩]⟩
  have hs : Signature.ofText "f(uint8,bool,address)" = .ok s := by cbv
  have huint : StaticKind.ofText "uint8" = .ok (.sized .uint 8) := by cbv
  have hp : ∀ p ∈ s.params, Abi.Numeric p := by
    intro p hp
    simp only [s, List.mem_cons, List.not_mem_nil, or_false] at hp
    rcases hp with rfl | rfl | rfl
    · exact ⟨.sized .uint 8, huint, by simp⟩
    · exact ⟨.bool, rfl, by simp⟩
    · exact ⟨.address, rfl, by simp⟩
  have hx : ∀ x ∈ xs, x.1.toNat < 2 ^ 255 := by
    simp [xs, seven, one, ten, NumberText.toNat]
  have hgap : ∀ c ∈ [' '], Text.isBlank c = true := by simp [Text.isBlank]
  have htext : ten.text.toList = '0' :: 'x' :: ['0', 'a'] := by simp [ten]
  have hten : Abi.Alike ten .address :=
    Abi.alike_of_hex (n := 1) htext (Or.inl rfl) (by simp [Hex.isDigit, Hex.value?]) rfl (by decide)
  have halike : List.Forall₂ AlikeFor s.params (xs.map Prod.fst) :=
    .cons ⟨_, huint, .uint 8⟩ (.cons ⟨_, rfl, .bool (Or.inr rfl)⟩ (.cons ⟨_, rfl, hten⟩ .nil))
  obtain ⟨ds, hd⟩ : ∃ ds, c.value (.encoding "f(uint8,bool,address)" 11 xs 0) #[] =
      .ok (.bytes (Bytes.ofNat 32 7 ++ Bytes.ofNat 32 1 ++ Bytes.ofNat 32 10)) ds :=
    (Evaluation.value_encoding_eq_ok hs xs).mpr ⟨rfl, _, by decide +kernel, rfl⟩
  exact ⟨xs, rfl, ⟨ds, hd⟩,
    (Context.value_abiEncode_listed hs hp hx hgap hd).mpr halike⟩

/-- Within a text, the digits of ten are the address sixteen. -/
theorem Context.value_abiEncode_address :
    let c := Context.start ⟨.standard 0, fun _ => Vector.replicate 32 0⟩
    ∃ x : NumberText, x.text = "10" ∧ x.toNat < 2 ^ 255 ∧
      (∃ ds, c.value (.encoding "f(address)" 11 [(x, 25)] 0) #[] =
        .ok (.bytes (Bytes.ofNat 32 10)) ds) ∧
      (∃ ds, c.value (.encodingListed "f(address)" 11 [x] [' '] 25 0) #[] =
        .ok (.bytes (Bytes.ofNat 32 16)) ds) ∧
      ¬∃ ds, c.value (.encodingListed "f(address)" 11 [x] [' '] 25 0) #[] =
        .ok (.bytes (Bytes.ofNat 32 10)) ds := by
  intro c
  let ten : NumberText := ⟨"10", ⟨.number, "10", 0⟩, ⟨.stop, "", 2⟩, ⟨10, "10", none⟩,
    by decide +kernel, rfl, by decide +kernel, by simp [Lexeme.isSpace]⟩
  have hs : Signature.ofText "f(address)" =
      .ok ⟨['f'], [⟨.elementary "address".toList, []⟩]⟩ := by cbv
  have hgap : ∀ c ∈ [' '], Text.isBlank c = true := by simp [Text.isBlank]
  refine ⟨ten, rfl, by simp [ten, NumberText.toNat], ?_, ?_, ?_⟩
  · exact (Evaluation.value_encoding_eq_ok hs [(ten, 25)]).mpr ⟨rfl, _, by decide +kernel, rfl⟩
  · exact (Evaluation.value_encodingListed_eq_ok hs [ten] hgap).mpr
      ⟨rfl, _, by decide +kernel, rfl⟩
  · intro h
    obtain ⟨-, bs, hw, he⟩ := (Evaluation.value_encodingListed_eq_ok hs [ten] hgap).mp h
    cases he
    exact absurd hw (by decide +kernel)

end WeiCalc

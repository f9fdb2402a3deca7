import Mathlib
import WeiCalc.Proofs.Call
import WeiCalc.Proofs.Evaluation.Chain
import WeiCalc.Session

/-!
# Evaluations end orderly

Every line is evaluated to a text or ends with an error of the calculator, whatever it holds and
however deep it is nested.  An evaluation one level down ends orderly if the parts of its expression
do, and there are only so many levels.

* `Evaluation.arguments_orderly`: the arguments of a call are of the kinds that its function takes.
* `Evaluation.node_orderly`: one step of the evaluation.
* `Evaluation.below_sound`: the evaluation of expressions on any number of levels.
* `Divisor.ne_zero`: nothing that is divided by is zero.
* `Environment.evaluate_orderly`: the evaluation of a line.
-/

namespace WeiCalc

/-- Settings that make no fault by themselves: the clock reads a word, and the number of the fraction
digits of prices is a count. -/
structure Settings.Sound (s : Settings) : Prop where
  precision : s.pricePrecision ≠ .flag true
  clock : 0 ≤ s.now ∧ s.now < Word.capacity

/-- The evaluations one level down end orderly. -/
structure Below.Sound (below : Below) : Prop where
  value : ∀ mode e, OrderlyEval (fun _ => True) (below.value mode e)
  signed : ∀ mode e, OrderlyEval (fun _ => True) (below.signed mode e)

namespace Evaluation

variable {below : Below} {mode : ArithmeticMode}

theorem fail_orderly {α : Type} {P : α → Prop} (cause : Cause) (position : Nat) :
    OrderlyEval P (fail cause position) := .throw _

/-! ### Leaves -/

theorem literal_orderly (l : NumberLiteral) (position : Nat) :
    OrderlyEval (fun _ => True) (literal l position) := by
  rw [literal]
  exact .noting (.pure trivial)

theorem identifier_orderly {settings : Settings} (hs : settings.Sound) (name : String)
    (position : Nat) : OrderlyEval (fun _ => True) (identifier settings name position) := by
  rw [identifier]
  by_cases hm : name = "max_uint"
  · rw [if_pos hm]
    exact .pure trivial
  rw [if_neg hm]
  by_cases hn : name = "now"
  · rw [if_pos hn]
    obtain ⟨n, hn⟩ := Int.eq_ofNat_of_zero_le hs.clock.1
    have hlt : n < Word.capacity := by
      have h := hs.clock.2
      rw [hn] at h
      exact Int.ofNat_lt.mp h
    have hw : Word.ofInt? settings.now = some (BitVec.ofNat 256 n) := by
      rw [hn]
      exact if_pos hlt
    rw [hw]
    exact .pure trivial
  · rw [if_neg hn]
    exact fail_orderly _ _

/-! ### Arithmetic -/

theorem operand_orderly (hb : below.Sound) (symbol : String) (e : Expr) :
    OrderlyEval (fun _ => True) (operand below mode symbol e) := by
  rw [operand]
  refine (hb.value mode e).bind fun v _ => ?_
  cases v with
  | uint w width => exact .pure trivial
  | text s => exact fail_orderly _ _
  | bytes bs => exact fail_orderly _ _
  | bool b => exact fail_orderly _ _
  | list fields => exact fail_orderly _ _

theorem arithmetic_orderly (position : Nat) (operation : ArithmeticMode → Except Cause Word) :
    OrderlyEval (fun _ => True) (arithmetic mode position operation) := by
  rw [arithmetic]
  cases operation .checked with
  | ok w => exact .pure trivial
  | error cause =>
    dsimp only
    split_ifs
    · exact (OrderlyEval.note _ _).bind fun _ _ => .liftCause_any _
    · exact fail_orderly _ _

theorem combine_orderly (hb : below.Sound) (op : BinaryOp) (left : Word) (right : Expr)
    (position : Nat) :
    OrderlyEval (fun _ => True) (combine below mode op left right position) := by
  rw [combine]
  exact (operand_orderly hb op.symbol right).bind fun r _ => arithmetic_orderly position _

/-- A chain of operators is evaluated without going down, by recursion on its left operands. -/
theorem chain_orderly (hb : below.Sound) (symbol : String) (e : Expr) :
    OrderlyEval (fun _ => True) (chain below mode symbol e) := by
  fun_induction chain below mode symbol e with
  | case1 symbol left op right position ih =>
    exact ih.bind fun l _ => combine_orderly hb op l right position
  | case2 symbol e h => exact operand_orderly hb symbol e

/-! ### Units -/

theorem unitOf_orderly (name : String) (position : Nat) :
    OrderlyEval (fun _ => True) (unitOf name position) := by
  rw [unitOf]
  cases MeasureUnit.ofName? name with
  | some u => exact .pure trivial
  | none => exact fail_orderly _ _

theorem scaled_orderly (hb : below.Sound) (factor : Nat) (e : Expr) :
    OrderlyEval (fun _ => True) (scaled below mode factor e) := by
  unfold scaled
  split
  · next raw q position =>
    refine .noting ?_
    cases Word.ofNat? (NumberLiteral.rounded (q * factor)) with
    | some w => exact .pure trivial
    | none => exact fail_orderly _ _
  · exact (operand_orderly hb _ _).bind fun amount _ => arithmetic_orderly _ _

theorem sourceUnit_orderly (e : Expr) : OrderlyEval (fun _ => True) (sourceUnit? e) := by
  unfold sourceUnit?
  split
  · exact (unitOf_orderly _ _).bind fun u _ => .pure trivial
  · exact (unitOf_orderly _ _).bind fun u _ => .pure trivial
  · exact .pure trivial

/-- Nothing that is divided by a factor leaves the words. -/
theorem conversion_orderly (hb : below.Sound) (amount : Expr) (unit : String) (position : Nat) :
    OrderlyEval (fun _ => True) (conversion below mode amount unit position) := by
  rw [conversion]
  refine (unitOf_orderly unit position).bind fun target _ => ?_
  refine (sourceUnit_orderly amount).bind fun source? _ => ?_
  by_cases hf : (source?.getD target.family.base).family = target.family
  · simp only [hf, ne_eq, not_true_eq_false, if_false]
    refine (scaled_orderly hb _ amount).bind fun w _ => ?_
    exact .noting (.lift (Value.ofNat_orderly (lt_of_le_of_lt (Nat.div_le_self _ _) w.isLt)))
  · simp only [ne_eq, hf, not_false_eq_true, if_true]
    exact (fail_orderly (P := fun _ => False) _ _).bind fun _ h => h.elim

/-! ### Calls -/

theorem functionFor_eq_ok {name : String} {count : Nat} {function : Builtin}
    (h : functionFor name count = .ok function) : function.admits count := by
  obtain ⟨f, _, h⟩ := except_bind_eq_ok h
  obtain ⟨_, hc, h⟩ := except_bind_eq_ok h
  cases h
  exact (ite_eq_ok.mp hc).1

/-- **The arguments of a call are as many as there are expressions, each of the kind of its
parameter**: signed exactly where the function takes a signed integer. -/
theorem arguments_orderly (hb : below.Sound) (function : Builtin) (count : Nat) (es : List Expr) :
    ∀ index, OrderlyEval (fun args => args.length = es.length ∧
        ∀ {i : Nat} {arg : Argument}, args[i]? = some arg →
          arg.Fits (function.paramKind (index + i) count))
      (arguments below mode function count index es) := by
  induction es with
  | nil =>
    intro index
    exact .pure ⟨rfl, fun h => by cases h⟩
  | cons e es ih =>
    intro index
    have hrest : ∀ first, Argument.Fits (function.paramKind index count) first →
        OrderlyEval (fun args => args.length = (e :: es).length ∧
          ∀ {i : Nat} {arg : Argument}, args[i]? = some arg →
            arg.Fits (function.paramKind (index + i) count))
          (do return first :: (← arguments below mode function count (index + 1) es)) := by
      intro first hf
      refine (ih (index + 1)).bind fun rest hr => .pure ⟨congrArg Nat.succ hr.1, ?_⟩
      intro i arg h
      cases i with
      | zero =>
        cases h
        exact hf
      | succ i =>
        rw [Nat.add_comm i, ← Nat.add_assoc]
        exact hr.2 h
    rw [arguments]
    by_cases hk : function.paramKind index count = .int
    · simp only [if_pos hk]
      exact .bind (P := Argument.Fits _) ((hb.signed mode e).map fun _ _ => hk) hrest
    · simp only [if_neg hk]
      exact .bind (P := Argument.Fits _) ((hb.value mode e).map fun _ _ => hk) hrest

theorem call_orderly {env : Environment} (hs : env.settings.Sound) (hb : below.Sound)
    (name : String) (args : List Expr) (position : Nat) :
    OrderlyEval (fun _ => True) (call env below mode name args position) := by
  rw [call]
  have hfunction : OrderlyEval (fun function => function.admits args.length)
      (Eval.placedAt position (liftM (functionFor name args.length))) :=
    .placedAt position (.liftCause fun _ => functionFor_eq_ok)
  refine hfunction.bind fun function hc => ?_
  refine (arguments_orderly hb function args.length args 0).bind fun values hv => ?_
  refine .locatedAt position (Call.result_orderly ⟨?_, fun h => ?_⟩ hs.precision)
  · rw [hv.1]
    exact hc
  · have hfits := hv.2 h
    rw [Nat.zero_add, ← hv.1] at hfits
    exact hfits

/-! ### Levels -/

/-- **One step of the evaluation**: an expression ends orderly if its parts do. -/
theorem node_orderly {env : Environment} (hs : env.settings.Sound) (hb : below.Sound)
    (e : Expr) : OrderlyEval (fun _ => True) (node env below mode e) := by
  cases e with
  | number l position => exact literal_orderly l position
  | text contents position => exact .pure trivial
  | identifier name position => exact identifier_orderly hs name position
  | negate e position =>
    refine (operand_orderly hb "-" e).bind fun w _ => ?_
    exact (arithmetic_orderly position _).bind fun r _ => .pure trivial
  | binary left op right position =>
    rw [node_binary]
    refine (chain_orderly hb op.symbol left).bind fun l _ => ?_
    exact (combine_orderly hb op l right position).bind fun r _ => .pure trivial
  | measured amount unit position =>
    refine (unitOf_orderly unit position).bind fun u _ => ?_
    exact (scaled_orderly hb u.factor amount).bind fun w _ => .pure trivial
  | converted amount unit position => exact conversion_orderly hb amount unit position
  | call name args position => exact call_orderly hs hb name args position
  | unchecked e position => exact hb.value .wrapping e

theorem refuse_orderly {α : Type} {P : α → Prop} (env : Environment) (position : Nat) :
    OrderlyEval P (refuse env position) := .throw _

theorem signedOf_orderly (v : Value) (position : Nat) :
    OrderlyEval (fun _ => True) (signedOf v position) :=
  .locatedAt position (.liftError_any _)

/-- An argument for a signed parameter goes down one level for each minus in front of it. -/
theorem signed_succ_orderly {env : Environment} (hs : env.settings.Sound) {levels : Nat}
    (hb : Below.Sound ⟨value env levels, signed env levels⟩) (e : Expr) :
    OrderlyEval (fun _ => True) (signed env (levels + 1) mode e) := by
  have hnode : ∀ e, OrderlyEval (fun _ => True) (do
      signedOf (← node env ⟨value env levels, signed env levels⟩ mode e) e.position) :=
    fun e => (node_orderly hs hb e).bind fun v _ => signedOf_orderly v _
  cases e with
  | negate e position => exact (hb.signed mode e).bind fun i _ => .pure trivial
  | number l position => exact hnode _
  | text contents position => exact hnode _
  | identifier name position => exact hnode _
  | binary left op right position => exact hnode _
  | measured amount unit position => exact hnode _
  | converted amount unit position => exact hnode _
  | call name args position => exact hnode _
  | unchecked e position => exact hnode _

/-- **The evaluation of an expression ends orderly** on any number of levels, by induction on the
levels that are left. -/
theorem below_sound {env : Environment} (hs : env.settings.Sound) (levels : Nat) :
    Below.Sound ⟨value env levels, signed env levels⟩ := by
  induction levels with
  | zero =>
    exact ⟨fun _ e => refuse_orderly env e.position, fun _ e => refuse_orderly env e.position⟩
  | succ levels ih =>
    exact ⟨fun _ e => node_orderly hs ih e, fun _ e => signed_succ_orderly hs ih e⟩

end Evaluation

/-! ### Divisors -/

/-- The numbers that an evaluation divides by without having asked whether they are zero: the factors
of units, the powers of the guesses for a root, the ratios at ticks and the prices at ticks. -/
inductive Divisor : Rat → Prop
  | factor {name : String} {u : MeasureUnit} : MeasureUnit.ofName? name = some u → Divisor u.factor
  | power {x n guess : Nat} : 2 ≤ x → 2 ≤ n → Root.Guess x n guess →
      Divisor (Nat.pow guess (n - 1) : Nat)
  | ratio (tick : Int) : Divisor (Pool.ratioBelow tick.natAbs)
  | price {tick : Int} {sqrt : Nat} (decimals0 decimals1 : Nat) :
      Pool.sqrtPriceAt tick = .ok sqrt → Divisor (Pool.priceOfSqrt sqrt decimals0 decimals1)

theorem MeasureUnit.factor_pos {name : String} {u : MeasureUnit}
    (h : MeasureUnit.ofName? name = some u) : 0 < u.factor := by
  have hall : ∀ u ∈ MeasureUnit.all, 0 < u.factor := by decide
  rw [MeasureUnit.ofName?] at h
  exact hall u (List.mem_of_find?_eq_some h)

@[simp] theorem base_ofName (family : UnitFamily) :
    MeasureUnit.ofName? family.base.name = some family.base := by
  cases family <;> rfl

theorem Divisor.ne_zero {d : Rat} (h : Divisor d) : d ≠ 0 := by
  cases h with
  | factor hu =>
    exact_mod_cast (MeasureUnit.factor_pos hu).ne'
  | power hx hn hg =>
    exact_mod_cast (Nat.pow_pos (hg.pos (by omega) hn)).ne'
  | ratio tick =>
    exact_mod_cast (Pool.ratioBelow_pos tick.natAbs).ne'
  | @price tick sqrt decimals0 decimals1 h =>
    obtain ⟨_, hs⟩ := ite_eq_ok.mp h
    cases hs
    have hp : 0 < Pool.sqrtPrice tick := Pool.sqrtPrice_pos tick
    have hq : 0 < Pool.q96 := by decide
    rw [Pool.priceOfSqrt]
    positivity

/-! ### Lines -/

namespace Environment

/-- A clock that reads a word shows a whole number of seconds that is one. -/
theorem now_bounds {s : Settings} (h : 0 ≤ s.clock) (h' : s.clock < 2 ^ 256) :
    0 ≤ s.now ∧ s.now < Word.capacity := by
  have hn : s.now = s.clock.floor := by
    rw [Settings.now, Int.tdiv_eq_ediv_of_nonneg (Rat.num_nonneg.mpr h), Rat.floor_def]
  rw [hn]
  constructor
  · rw [Rat.le_floor_iff]
    exact_mod_cast h
  · have hl := lt_of_le_of_lt (Rat.floor_le s.clock) h'
    exact_mod_cast hl

theorem value_orderly {env : Environment} (hs : env.settings.Sound) (line : String) :
    OrderlyEval (fun _ => True) (env.value line) := by
  rw [value]
  refine (OrderlyEval.liftError_any _).bind fun e _ => ?_
  exact (Evaluation.below_sound hs _).value _ e

/-- **Every line is evaluated to a text or ends with an error**, unless a number has more digits or a
text is longer than the runtime admits.  On the way nothing is divided by zero, and no family lacks its
base unit. -/
theorem evaluate_orderly (env : Environment) (hp : env.settings.pricePrecision ≠ .flag true)
    (hc : 0 ≤ env.settings.clock) (hc' : env.settings.clock < 2 ^ 256) (line : String)
    (ds : Diagnostics) :
    ((∃ text ds', env.evaluate line ds = .ok text ds') ∨
      (∃ e ds', env.evaluate line ds = .error (.error e) ds') ∨
      ∃ ds', env.evaluate line ds = .error (.fault .longNumber) ds') ∧
      (∀ d, Divisor d → d ≠ 0) ∧
      ∀ family : UnitFamily, MeasureUnit.ofName? family.base.name = some family.base := by
  have h := value_orderly ⟨hp, now_bounds hc hc'⟩ line
  refine ⟨?_, fun d hd => hd.ne_zero, base_ofName⟩
  have he : OrderlyEval (fun _ => True) (env.evaluate line) := h.bind fun v _ => .pure trivial
  cases hr : env.evaluate line ds with
  | ok text ds' => exact Or.inl ⟨text, ds', rfl⟩
  | error f ds' =>
    have hf := he.failure hr
    cases f with
    | error e => exact Or.inr (Or.inl ⟨e, ds', rfl⟩)
    | fault f =>
      obtain rfl : f = .longNumber := hf
      exact Or.inr (Or.inr ⟨ds', rfl⟩)

/-- A line that divides by the clock at the start of 1970. -/
theorem evaluate_now_zero :
    (Settings.standard 0).pricePrecision ≠ .flag true ∧ 0 ≤ (Settings.standard 0).clock ∧
    (Settings.standard 0).clock < 2 ^ 256 ∧
    ((∃ text ds', (Environment.mk (.standard 0) fun _ => Vector.replicate 32 0).evaluate
        "1 ether / now" #[] = .ok text ds') ∨
      (∃ e ds', (Environment.mk (.standard 0) fun _ => Vector.replicate 32 0).evaluate
        "1 ether / now" #[] = .error (.error e) ds') ∨
      ∃ ds', (Environment.mk (.standard 0) fun _ => Vector.replicate 32 0).evaluate
        "1 ether / now" #[] = .error (.fault .longNumber) ds') ∧
      Pool.ratioBelow 887272 ≠ 0 := by
  have hp : (Settings.standard 0).pricePrecision ≠ .flag true := by decide
  have hc : 0 ≤ (Settings.standard 0).clock := le_refl 0
  have hc' : (Settings.standard 0).clock < 2 ^ 256 := by
    change (0 : Rat) < 2 ^ 256
    positivity
  obtain ⟨hline, hdivisors, _⟩ := evaluate_orderly ⟨_, _⟩ hp hc hc' "1 ether / now" #[]
  refine ⟨hp, hc, hc', hline, ?_⟩
  exact_mod_cast hdivisors _ (.ratio 887272)

end Environment

end WeiCalc

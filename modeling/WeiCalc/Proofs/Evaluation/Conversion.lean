import Mathlib
import WeiCalc.Proofs.Amount
import WeiCalc.Proofs.Evaluation.Limit

/-!
# Chains of conversions

An amount may be converted to one unit after the other.  Each conversion takes the amount in the unit
of the one before, or in the base unit of the family where there is none before, and divides it by
the factor of its own unit.  Counted in base units an amount only becomes less, by the remainders of
these divisions, so that no product on the way is too great for a word.

* `Conversion.kept`, `Conversion.steps`: the base units that are left, and the divisions on the way.
* `Evaluation.InUnit`: the unit that an expression is taken to be in where it is converted.
* `Evaluation.value_converted`: one conversion.
* `Evaluation.value_through`: a chain of conversions, with a level for each of them.
* `Context.value_conversions`: **the value of a chain of conversions, and what it notes.**
-/

namespace WeiCalc

/-- A conversion to a unit, as it is written behind an amount. -/
structure Conversion where
  name : String
  unit : MeasureUnit
  known : MeasureUnit.ofName? name = some unit
  position : Nat

/-- An amount with conversions behind it. -/
def Expr.through (e : Expr) (cs : List Conversion) : Expr :=
  cs.foldl (fun e c => .converted e c.name c.position) e

@[simp] theorem Expr.through_append_singleton (e : Expr) (cs : List Conversion) (c : Conversion) :
    e.through (cs ++ [c]) = .converted (e.through cs) c.name c.position := by
  rw [through, List.foldl_append]
  rfl

namespace Conversion

/-! ### The divisions of a chain -/

/-- The division of a conversion: the unit before, the conversion, and the amount in base units. -/
structure Step where
  source : MeasureUnit
  conversion : Conversion
  amount : Nat

namespace Step

/-- The division leaves a remainder. -/
def Loses (s : Step) : Prop := s.amount % s.conversion.unit.factor ≠ 0

instance (s : Step) : Decidable s.Loses := inferInstanceAs (Decidable (_ ≠ _))

/-- What is noted of a remainder. -/
def note (s : Step) : Diagnostic :=
  ⟨.conversionTruncated s.source.name s.conversion.unit.name, some s.conversion.position⟩

/-- What is noted of a division. -/
def notes (s : Step) : Diagnostics := if s.Loses then #[s.note] else #[]

end Step

/-- The base units that are left of an amount behind a chain. -/
def kept (amount : Nat) (cs : List Conversion) : Nat :=
  cs.foldl (fun amount c => amount / c.unit.factor * c.unit.factor) amount

/-- The unit behind a chain that starts from a unit. -/
def unitBehind (source : MeasureUnit) (cs : List Conversion) : MeasureUnit :=
  cs.foldl (fun _ c => c.unit) source

/-- The divisions of a chain that starts from an amount in base units, one after the other. -/
def steps : (source : MeasureUnit) → (amount : Nat) → List Conversion → List Step
  | _, _, [] => []
  | source, amount, c :: cs =>
    ⟨source, c, amount⟩ :: steps c.unit (amount / c.unit.factor * c.unit.factor) cs

/-- What is noted of some divisions: those that leave a remainder. -/
def notes (ss : List Step) : Diagnostics := ((ss.filter (·.Loses)).map Step.note).toArray

@[simp] theorem notes_append (ss ss' : List Step) : notes (ss ++ ss') = notes ss ++ notes ss' := by
  simp [notes]

@[simp] theorem notes_singleton (s : Step) : notes [s] = s.notes := by
  by_cases h : s.Loses <;> simp [notes, Step.notes, h]

theorem notes_eq_empty_iff {ss : List Step} : notes ss = #[] ↔ ∀ s ∈ ss, ¬s.Loses := by
  simp [notes, List.filter_eq_nil_iff]

@[simp] theorem kept_append_singleton (amount : Nat) (cs : List Conversion) (c : Conversion) :
    kept amount (cs ++ [c]) = kept amount cs / c.unit.factor * c.unit.factor := by
  rw [kept, List.foldl_append]
  rfl

@[simp] theorem unitBehind_append_singleton (source : MeasureUnit) (cs : List Conversion)
    (c : Conversion) : unitBehind source (cs ++ [c]) = c.unit := by
  rw [unitBehind, List.foldl_append]
  rfl

@[simp] theorem steps_append_singleton (source : MeasureUnit) (amount : Nat) (cs : List Conversion)
    (c : Conversion) :
    steps source amount (cs ++ [c]) =
      steps source amount cs ++ [⟨unitBehind source cs, c, kept amount cs⟩] := by
  induction cs generalizing source amount with
  | nil => rfl
  | cons c' cs ih =>
    rw [List.cons_append, steps, steps, ih, List.cons_append]
    rfl

theorem kept_le (amount : Nat) (cs : List Conversion) : kept amount cs ≤ amount := by
  induction cs generalizing amount with
  | nil => exact le_rfl
  | cons c cs ih => exact (ih _).trans (Nat.div_mul_le_self _ _)

/-- **A chain keeps an amount exactly if none of its divisions leaves a remainder.** -/
theorem kept_eq_iff (source : MeasureUnit) (amount : Nat) (cs : List Conversion) :
    kept amount cs = amount ↔ ∀ s ∈ steps source amount cs, ¬s.Loses := by
  induction cs generalizing source amount with
  | nil => simp [kept, steps]
  | cons c cs ih =>
    have hrest : kept amount (c :: cs) = kept (amount / c.unit.factor * c.unit.factor) cs := rfl
    have hloses : (Step.mk source c amount).Loses ↔ amount % c.unit.factor ≠ 0 := Iff.rfl
    have hdiv := Nat.div_add_mod' amount c.unit.factor
    rw [hrest, steps, List.forall_mem_cons, ← ih c.unit, hloses, not_not]
    generalize amount / c.unit.factor * c.unit.factor = left at *
    have hle := kept_le left cs
    omega

end Conversion

open Conversion NumberLiteral

/-! ### Units -/

@[simp] theorem UnitFamily.base_family (f : UnitFamily) : f.base.family = f := by
  cases f <;> rfl

@[simp] theorem UnitFamily.base_factor (f : UnitFamily) : f.base.factor = 1 := by
  cases f <;> rfl

theorem Conversion.factor_lt (c : Conversion) : c.unit.factor < Word.capacity :=
  (Suffix.unit c.name c.unit c.known).factor_lt

/-- **Every literal of an expression that is read stands for the nearest integer.** -/
theorem Grammar.Derives.isNearest {level : Level} {ts : List Token} {e : Expr} {n : Nat}
    (h : Derives level ts e n) : ∀ l p, e = .number l p → l.IsNearest := by
  induction h with
  | number _ hl =>
    rintro l p ⟨⟩
    exact isNearest_of_ofToken hl
  | parens _ _ _ ih => exact ih
  | call _ _ ih => exact ih
  | bare _ ih => exact ih
  | term _ ih => exact ih
  | base _ ih => exact ih
  | operand _ ih => exact ih
  | amount _ ih => exact ih
  | _ => rintro l p ⟨⟩

namespace Evaluation

variable {env : Environment} {levels : Nat} {mode : ArithmeticMode} {ds ds' : Diagnostics}

/-- The expression `e` is taken to be in the unit `u` where it is converted to one of its family. -/
structure InUnit (env : Environment) (e : Expr) (u : MeasureUnit) : Prop where
  source : ∀ ds, ∃ s, sourceUnit? e ds = .ok s ds ∧ s.getD u.family.base = u
  scaled : ∀ {levels mode v hint ds ds'}, value env levels mode e ds = .ok (.uint v hint) ds' →
    v.toNat * u.factor < Word.capacity →
    scaled ⟨value env levels, signed env levels⟩ mode u.factor e ds =
      .ok (BitVec.ofNat 256 (v.toNat * u.factor)) ds'

theorem unitOf_known {name : String} {u : MeasureUnit} (h : MeasureUnit.ofName? name = some u)
    (position : Nat) (ds : Diagnostics) : unitOf name position ds = .ok u ds := by
  rw [unitOf, h]
  rfl

/-- What has been converted to a unit is in that unit. -/
theorem inUnit_converted (env : Environment) (e : Expr) (c : Conversion) :
    InUnit env (.converted e c.name c.position) c.unit where
  source ds := by
    refine ⟨some c.unit, ?_, rfl⟩
    rw [sourceUnit?, bind_of_ok (unitOf_known c.known _ _)]
    rfl
  scaled hv hlt := scaled_of_value (by rintro _ _ _ _ ⟨⟩) hv c.factor_lt hlt

/-- A fraction in the base unit is its literal, rounded as it is by itself. -/
theorem scaled_isNearest {l : NumberLiteral} {p : Nat} {v : Word} {hint : Option Nat} {q : Rat}
    (hl : l.IsNearest) (hq : l.exact = some q)
    (hv : value env levels mode (.number l p) ds = .ok (.uint v hint) ds') :
    scaled ⟨value env levels, signed env levels⟩ mode 1 (.number l p) ds = .ok v ds' := by
  obtain ⟨hlt, hnearest⟩ := hl q hq
  cases levels with
  | zero => cases hv
  | succ levels =>
    have hliteral : literal l p ds = .ok (.uint v hint) ds' := hv
    rw [hnearest, literal_nearest hlt] at hliteral
    cases hliteral
    obtain ⟨w, raw, exact⟩ := l
    obtain rfl : exact = some q := hq
    have hone : q * (1 : Nat) = q := by rw [Nat.cast_one, mul_one]
    have hrun : scaled ⟨value env (levels + 1), signed env (levels + 1)⟩ mode 1
        (.number ⟨w, raw, some q⟩ p) ds = _ :=
      scaled_fraction _ mode (by rw [hone]; exact hlt)
    rw [hone] at hrun
    exact hrun

/-- **What has not been converted is in the base unit**, that of its own unit if it has one. -/
theorem inUnit_base {family : UnitFamily} {e : Expr} (hl : ∀ l p, e = .number l p → l.IsNearest)
    (hnot : ∀ amount name p, e ≠ .converted amount name p)
    (hunit : ∀ amount name p, e = .measured amount name p →
      ∃ u, MeasureUnit.ofName? name = some u ∧ u.family = family) :
    InUnit env e family.base where
  source ds := by
    rw [family.base_family]
    cases e with
    | converted amount name p => exact absurd rfl (hnot amount name p)
    | measured amount name p =>
      obtain ⟨u, hu, rfl⟩ := hunit amount name p rfl
      refine ⟨some u.family.base, ?_, rfl⟩
      rw [sourceUnit?, bind_of_ok (unitOf_known hu _ _)]
      rfl
    | _ => exact ⟨none, rfl, rfl⟩
  scaled {levels mode v hint ds ds'} hv hlt := by
    rw [family.base_factor, Nat.mul_one] at hlt ⊢
    rw [BitVec.ofNat_toNat, BitVec.setWidth_eq]
    -- Only a literal that is a fraction is scaled before it is evaluated.
    by_cases hfraction : ∃ l p q, e = .number l p ∧ l.exact = some q
    · obtain ⟨l, p, q, rfl, hq⟩ := hfraction
      exact scaled_isNearest (hl l p rfl) hq hv
    · have hrun : scaled ⟨value env levels, signed env levels⟩ mode 1 e ds = _ :=
        scaled_of_value (fun w raw q p he => hfraction ⟨_, p, q, he, rfl⟩) hv (by decide)
          (by rw [Nat.mul_one]; exact hlt)
      rw [Nat.mul_one, BitVec.ofNat_toNat, BitVec.setWidth_eq] at hrun
      exact hrun

/-! ### Conversions -/

/-- **One conversion** divides an amount in base units and notes a remainder. -/
theorem value_converted {e : Expr} {u : MeasureUnit} {v : Word} {hint : Option Nat}
    (hu : InUnit env e u) (hv : value env levels mode e ds = .ok (.uint v hint) ds')
    (hlt : v.toNat * u.factor < Word.capacity) {c : Conversion} (hc : c.unit.family = u.family) :
    value env (levels + 1) mode (.converted e c.name c.position) ds =
      .ok (.number (BitVec.ofNat 256 (v.toNat * u.factor / c.unit.factor)))
        (ds' ++ (Step.mk u c (v.toNat * u.factor)).notes) := by
  obtain ⟨s, hs, hsource⟩ := hu.source ds
  have hscaled := hu.scaled hv hlt
  have hquotient : Value.ofNat (v.toNat * u.factor / c.unit.factor) =
      .ok (.number (BitVec.ofNat 256 (v.toNat * u.factor / c.unit.factor))) := by
    rw [Value.ofNat, Word.ofNat?, if_pos (lt_of_le_of_lt (Nat.div_le_self _ _) hlt)]
  show conversion ⟨value env levels, signed env levels⟩ mode e c.name c.position ds = _
  rw [conversion, bind_of_ok (unitOf_known c.known _ _), bind_of_ok hs]
  simp only [hc, hsource, ne_eq, not_true_eq_false, if_false]
  rw [bind_of_ok hscaled, Word.toNat_ofNat_of_lt hlt, hquotient]
  by_cases hz : v.toNat * u.factor % c.unit.factor = 0
  · have hnotes : (Step.mk u c (v.toNat * u.factor)).notes = #[] := if_neg (not_not.mpr hz)
    rw [hnotes, Array.append_empty]
    simp only [hz, not_true_eq_false, if_false]
    rfl
  · have hnotes : (Step.mk u c (v.toNat * u.factor)).notes = #[_] := if_pos hz
    rw [hnotes, ← Array.push_eq_append]
    simp only [hz, not_false_eq_true, if_true]
    rfl

/-- **A chain of conversions**, with a level for each of them.  The value is what is kept of the
amount, in the last unit of the chain. -/
theorem value_through {family : UnitFamily} {e : Expr} {a : Word} {hint : Option Nat}
    (hu : InUnit env e family.base) (hv : value env levels mode e ds = .ok (.uint a hint) ds')
    {cs : List Conversion} (hf : ∀ c ∈ cs, c.unit.family = family) :
    InUnit env (e.through cs) (unitBehind family.base cs) ∧
    (unitBehind family.base cs).family = family ∧
    ∃ r hint', (cs ≠ [] → hint' = none) ∧
      value env (levels + cs.length) mode (e.through cs) ds =
        .ok (.uint r hint') (ds' ++ notes (steps family.base a.toNat cs)) ∧
      r.toNat * (unitBehind family.base cs).factor = kept a.toNat cs := by
  -- From the right: the last conversion is the outermost one, one level above the others.
  induction cs using List.reverseRecOn with
  | nil =>
    refine ⟨hu, family.base_family, a, hint, absurd rfl, ?_, ?_⟩
    · rw [steps, notes]
      exact hv
    · exact (congrArg (a.toNat * ·) family.base_factor).trans (Nat.mul_one _)
  | append_singleton cs c ih =>
    have hc := hf c (List.mem_append_right _ (List.mem_singleton_self c))
    obtain ⟨hbehind, hfamily, r, hint', -, hr, hkept⟩ :=
      ih fun c hm => hf c (List.mem_append_left _ hm)
    -- In base units nothing is ever more than the amount, which is a word.
    have hle : kept a.toNat cs ≤ a.toNat := kept_le _ _
    have hlt : r.toNat * (unitBehind family.base cs).factor < Word.capacity := by
      rw [hkept]
      exact lt_of_le_of_lt hle a.toNat_lt
    have hrun := value_converted hbehind hr hlt (hc.trans hfamily.symm)
    rw [hkept] at hrun hlt
    rw [Expr.through_append_singleton, unitBehind_append_singleton, steps_append_singleton,
      notes_append, notes_singleton, ← Array.append_assoc, kept_append_singleton]
    refine ⟨inUnit_converted env _ c, hc, BitVec.ofNat 256 (kept a.toNat cs / c.unit.factor), none,
      fun _ => rfl, ?_, ?_⟩
    · rw [List.length_append, ← Nat.add_assoc]
      exact hrun
    · rw [Word.toNat_ofNat_of_lt (lt_of_le_of_lt (Nat.div_le_self _ _) hlt)]

/-- An amount in a unit has a value only if there is such a unit. -/
theorem known_of_measured {amount : Expr} {name : String} {p : Nat} {v : Value}
    (h : value env levels mode (.measured amount name p) ds = .ok v ds') :
    ∃ u, MeasureUnit.ofName? name = some u := by
  cases levels with
  | zero => cases h
  | succ levels =>
    obtain ⟨u, _, hu, -⟩ := bind_eq_ok (show (unitOf name p >>= _) ds = _ from h)
    rw [unitOf] at hu
    cases hname : MeasureUnit.ofName? name with
    | none => rw [hname] at hu; cases hu
    | some u => exact ⟨u, rfl⟩

/-- What is evaluated with more levels is evaluated in the same way with fewer, unless it is refused
for nesting. -/
theorem value_of_more {levels' : Nat} {e : Expr} {v : Value} (hl : levels ≤ levels')
    (hv : value env levels' mode e ds = .ok v ds')
    (hdeep : ∀ limit p ds'', value env levels mode e ds ≠ .error (.error ⟨.nesting limit, p⟩) ds'') :
    value env levels mode e ds = .ok v ds' := by
  rcases (below_loosens env env.settings.maxDepth hl).value mode e ds with ⟨f, ds'', hf, hn⟩ | hr
  · cases f with
    | fault f => exact absurd trivial hn
    | error error =>
      obtain ⟨cause, p⟩ := error
      cases cause with
      | nesting limit => exact absurd hf (hdeep limit p ds'')
      | _ => exact absurd trivial hn
  · rw [moved_id] at hr
    exact hr.symm.trans hv

end Evaluation

namespace Context

open Grammar

/-- **The value of a chain of conversions, and what it notes.**  Where an expression that is read from
tokens, and is no conversion itself, has the number `a` as its value, a chain of conversions of one
family behind it has a value unless it is refused for nesting.  In base units the value is at most
`a`.  The chain notes every one of its divisions that leaves a remainder and nothing else, and its
value is all of `a` if and only if it notes nothing. -/
theorem value_conversions {c : Context} {level : Level} {ts : List Token} {e : Expr} {n : Nat}
    (hread : Derives level ts e n) (hnot : ∀ amount name p, e ≠ .converted amount name p)
    {a : Word} {hint : Option Nat} {ds ds' : Diagnostics} (he : c.value e ds = .ok (.uint a hint) ds')
    {family : UnitFamily}
    (hsuffix : ∀ amount name p u, e = .measured amount name p →
      MeasureUnit.ofName? name = some u → u.family = family)
    {cs : List Conversion} {last : Conversion} (hf : ∀ k ∈ cs ++ [last], k.unit.family = family)
    (hdeep : ∀ limit p ds'', c.value (e.through (cs ++ [last])) ds ≠
      .error (.error ⟨.nesting limit, p⟩) ds'') :
    ∃ r : Word,
      c.value (e.through (cs ++ [last])) ds =
        .ok (.number r) (ds' ++ notes (steps family.base a.toNat (cs ++ [last]))) ∧
      r.toNat * last.unit.factor ≤ a.toNat ∧
      (r.toNat * last.unit.factor = a.toNat ↔
        notes (steps family.base a.toNat (cs ++ [last])) = #[]) := by
  have hbase : Evaluation.InUnit c.environment e family.base := by
    refine Evaluation.inUnit_base hread.isNearest hnot ?_
    rintro amount name p rfl
    obtain ⟨u, hu⟩ := Evaluation.known_of_measured he
    exact ⟨u, hu, hsuffix amount name p u rfl hu⟩
  obtain ⟨-, -, r, hint', hnone, hr, hkept⟩ := Evaluation.value_through hbase he hf
  obtain rfl := hnone (by simp)
  rw [unitBehind_append_singleton] at hkept
  refine ⟨r, Evaluation.value_of_more (Nat.le_add_right _ _) hr hdeep, ?_, ?_⟩
  · exact hkept.trans_le (kept_le _ _)
  · rw [hkept, notes_eq_empty_iff]
    exact kept_eq_iff _ _ _

/-- Two years are a hundred and four weeks and a remainder.  The weeks are 728 days. -/
theorem value_conversions_years :
    let c := Context.start ⟨Settings.standard 0, fun _ => Vector.replicate 32 0⟩
    let e := Expr.measured (.number ⟨2, "2", none⟩ 0) "years" 0
    let weeks : Conversion := ⟨"weeks", ⟨"weeks", .time, 604800⟩, rfl, 0⟩
    let days : Conversion := ⟨"days", ⟨"days", .time, 86400⟩, rfl, 0⟩
    Derives .measured [⟨.number, "2", 0⟩, ⟨.identifier, "years", 2⟩] e 0 ∧
    c.value e #[] = .ok (.number 63072000) #[] ∧
    (∀ limit p ds, c.value (e.through [weeks, days]) #[] ≠
      .error (.error ⟨.nesting limit, p⟩) ds) ∧
    ∃ r : Word,
      c.value (e.through [weeks, days]) #[] =
        .ok (.number r) #[⟨.conversionTruncated "seconds" "weeks", some 0⟩] ∧
      r.toNat * 86400 ≤ 63072000 ∧ r.toNat * 86400 ≠ 63072000 := by
  intro c e weeks days
  have htwo : NumberLiteral.ofToken ⟨.number, "2", 0⟩ = .ok ⟨2, "2", none⟩ := by decide +kernel
  have hread : Derives .measured [⟨.number, "2", 0⟩, ⟨.identifier, "years", 2⟩] e 0 :=
    .measured (.number (List.mem_cons_self ..) htwo) rfl (by decide +kernel)
  have he : c.value e #[] = .ok (.number 63072000) #[] := rfl
  have hheight : (e.through [weeks, days]).height ≤ c.levels := by decide +kernel
  have hdeep : ∀ limit p ds, c.value (e.through [weeks, days]) #[] ≠
      .error (.error ⟨.nesting limit, p⟩) ds := fun limit p ds h =>
    Evaluation.value_shallow c.environment hheight _ _ _ h
  have hsuffix : ∀ amount name p u, e = .measured amount name p →
      MeasureUnit.ofName? name = some u → u.family = .time := by
    intro amount name p u h hu
    obtain ⟨-, rfl, -⟩ := Expr.measured.inj h
    obtain rfl := Option.some.inj hu
    rfl
  have hf : ∀ k ∈ [weeks] ++ [days], k.unit.family = .time := by
    rintro k (_ | ⟨_, _ | ⟨_, ⟨⟩⟩⟩) <;> rfl
  have hnot : ∀ amount name p, e ≠ .converted amount name p := fun _ _ _ h => by injection h
  have hnotes : notes (steps UnitFamily.time.base (63072000 : Word).toNat ([weeks] ++ [days])) =
      #[⟨.conversionTruncated "seconds" "weeks", some 0⟩] := by decide +kernel
  obtain ⟨r, hr, hle, hall⟩ := value_conversions hread hnot he hsuffix hf hdeep
  rw [hnotes] at hr hall
  exact ⟨hread, he, hdeep, r, hr, hle, fun h => by cases hall.mp h⟩

end Context

end WeiCalc

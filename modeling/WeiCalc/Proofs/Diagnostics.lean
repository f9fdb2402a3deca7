import Mathlib
import WeiCalc.Call.Result
import WeiCalc.Proofs.Run

/-!
# Diagnostics are only added

An evaluation leaves the diagnostics that it finds as they are and puts its own behind them, also if
it fails.

* `Appends.bind`: a sequence only adds diagnostics if its parts do.
* `Call.result_appends`: calls of all functions only add diagnostics.
-/

namespace WeiCalc

/-- The diagnostics there are behind a computation, whether it answers or fails. -/
def Eval.noted {α : Type} (x : Eval α) (ds : Diagnostics) : Diagnostics :=
  match x ds with
  | .ok _ ds' => ds'
  | .error _ ds' => ds'

/-- The computation puts its diagnostics behind those that it finds. -/
def Appends {α : Type} (x : Eval α) : Prop :=
  ∀ ds, ∃ more, x.noted ds = ds ++ more

variable {α β : Type}

namespace Eval

theorem noted_of_ok {x : Eval α} {ds ds' : Diagnostics} {a : α} (h : x ds = .ok a ds') :
    x.noted ds = ds' := by
  rw [noted, h]

theorem noted_of_error {x : Eval α} {ds ds' : Diagnostics} {f : Failure}
    (h : x ds = .error f ds') : x.noted ds = ds' := by
  rw [noted, h]

theorem noted_bind_of_ok {x : Eval α} {f : α → Eval β} {ds ds' : Diagnostics} {a : α}
    (h : x ds = .ok a ds') : (x >>= f).noted ds = (f a).noted ds' := by
  rw [noted, noted, bind_of_ok h]

theorem noted_bind_of_error {x : Eval α} {f : α → Eval β} {ds ds' : Diagnostics} {e : Failure}
    (h : x ds = .error e ds') : (x >>= f).noted ds = ds' :=
  noted_of_error (bind_of_error h)

@[simp] theorem noted_mapFailure (x : Eval α) (f : Failure → Failure) (ds : Diagnostics) :
    (x.mapFailure f).noted ds = x.noted ds := by
  rw [noted, noted, mapFailure]
  cases x ds <;> rfl

@[simp] theorem noted_note (o : Observation) (p : Option Nat) (ds : Diagnostics) :
    (note o p).noted ds = ds.push ⟨o, p⟩ := rfl

end Eval

/-! ### Parts and the whole -/

namespace Appends

theorem of_noted_eq {x : Eval α} (h : ∀ ds, x.noted ds = ds) : Appends x := by
  intro ds
  exact ⟨#[], by rw [h, Array.append_empty]⟩

theorem pure (a : α) : Appends (Pure.pure a : Eval α) := of_noted_eq fun _ => rfl

theorem throw (f : Failure) : Appends (MonadExcept.throw f : Eval α) := of_noted_eq fun _ => rfl

theorem lift (x : Except Failure α) : Appends (liftM x : Eval α) := by
  cases x with
  | ok a => exact pure a
  | error f => exact throw f

theorem liftCause (x : Except Cause α) : Appends (liftM x : Eval α) := by
  cases x with
  | ok a => exact pure a
  | error cause => exact throw _

theorem liftError (x : Except EvalError α) : Appends (liftM x : Eval α) := by
  cases x with
  | ok a => exact pure a
  | error e => exact throw _

theorem note (o : Observation) (p : Option Nat) : Appends (Eval.note o p) := by
  intro ds
  exact ⟨#[⟨o, p⟩], by rw [Eval.noted_note, Array.push_eq_append]⟩

theorem bind {x : Eval α} {f : α → Eval β} (hx : Appends x) (hf : ∀ a, Appends (f a)) :
    Appends (x >>= f) := by
  intro ds
  obtain ⟨more, hm⟩ := hx ds
  cases hr : x ds with
  | ok a ds' =>
    rw [Eval.noted_of_ok hr] at hm
    obtain ⟨rest, hrest⟩ := hf a ds'
    refine ⟨more ++ rest, ?_⟩
    rw [Eval.noted_bind_of_ok hr, hrest, hm, Array.append_assoc]
  | error e ds' =>
    rw [Eval.noted_of_error hr] at hm
    exact ⟨more, by rw [Eval.noted_bind_of_error hr, hm]⟩

theorem map {x : Eval α} (f : α → β) (hx : Appends x) : Appends (f <$> x) :=
  hx.bind fun a => pure (f a)

theorem noting {c : Prop} [Decidable c] {o : Observation} {p : Option Nat} {x : Eval α}
    (hx : Appends x) : Appends (if c then (do Eval.note o p; x) else x) := by
  split_ifs
  · exact (note o p).bind fun _ => hx
  · exact hx

theorem mapFailure {x : Eval α} (f : Failure → Failure) (hx : Appends x) :
    Appends (x.mapFailure f) := by
  intro ds
  rw [Eval.noted_mapFailure]
  exact hx ds

end Appends

/-! ### Calls -/

namespace Call

theorem shownPrice_appends (settings : Settings) (price : Rat) :
    Appends (shownPrice settings price) := by
  rw [shownPrice]
  refine (Appends.liftCause _).bind fun shown => ?_
  by_cases h : settings.pricePrecision = .flag true
  · simp only [if_pos h]
    exact (Appends.throw _).bind fun _ => .noting (.pure _)
  · simp only [if_neg h]
    exact .noting (.pure _)

theorem priceOfTick_appends (settings : Settings) (c : Call) :
    Appends (c.priceOfTick settings) := by
  rw [priceOfTick]
  refine (Appends.lift _).bind fun inToken1 => ?_
  refine (Appends.lift _).bind fun decimals0 => ?_
  refine (Appends.lift _).bind fun decimals1 => ?_
  refine (Appends.liftCause _).bind fun _ => ?_
  refine (Appends.liftCause _).bind fun _ => ?_
  refine (Appends.lift _).bind fun tick => ?_
  refine (Appends.liftCause _).bind fun price => ?_
  exact (shownPrice_appends settings price).bind fun shown => .pure _

/-- **Calls only add diagnostics.**  The price at a tick is the only function that has one to add. -/
theorem result_appends (env : Environment) (c : Call) : Appends (c.result env) := by
  unfold result
  cases c.function
  case sqrt => exact (Appends.lift _).bind fun x => .lift _
  case priceOfTick => exact priceOfTick_appends env.settings c
  case formatEther => exact (Appends.lift _).bind fun x => (Appends.liftCause _).bind fun s => .pure _
  all_goals exact .lift _

end Call

end WeiCalc

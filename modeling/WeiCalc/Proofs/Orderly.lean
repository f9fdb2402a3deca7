import Mathlib
import WeiCalc.Context
import WeiCalc.Proofs.Run

/-!
# Orderly ends

A computation ends orderly if it answers, or fails with an error of the calculator, or meets a limit
of the runtime: it uses no operation outside of its definition.  What its answers are like is carried
along, since the next operation may depend on it.

* `Orderly.bind`, `OrderlyEval.bind`: sequences end orderly if their parts do.
* `Orderly.liftCause`, `Orderly.liftError`: operations that know no faults end orderly.
* `OrderlyEval.locatedAt`, `OrderlyEval.placedAt`: placing a failure leaves it what it is.
-/

namespace WeiCalc

/-- A failure that any computation may end with: an error, or a limit of the runtime. -/
def Failure.Expected : Failure → Prop
  | .error _ => True
  | .fault f => f = .longNumber

/-- The operation ends orderly, and its answers satisfy `P`. -/
structure Orderly {α : Type} (P : α → Prop) (x : Except Failure α) : Prop where
  answer : ∀ {a : α}, x = .ok a → P a
  failure : ∀ {f : Failure}, x = .error f → f.Expected

/-- The evaluation ends orderly whatever it has noted before, and its answers satisfy `P`. -/
structure OrderlyEval {α : Type} (P : α → Prop) (x : Eval α) : Prop where
  answer : ∀ {ds ds' : Diagnostics} {a : α}, x ds = .ok a ds' → P a
  failure : ∀ {ds ds' : Diagnostics} {f : Failure}, x ds = .error f ds' → f.Expected

variable {α β : Type} {P : α → Prop} {Q : β → Prop}

namespace Orderly

theorem ok {a : α} (h : P a) : Orderly P (.ok a) :=
  ⟨fun e => Except.ok.inj e ▸ h, nofun⟩

theorem pure {a : α} (h : P a) : Orderly P (Pure.pure a) := ok h

theorem fail {f : Failure} (h : f.Expected) : Orderly P (.error f) :=
  ⟨nofun, fun e => Except.error.inj e ▸ h⟩

theorem error (e : EvalError) : Orderly P (.error (.error e)) := fail trivial

theorem throw (e : EvalError) : Orderly P (MonadExcept.throw (Failure.error e)) := fail trivial

/-- The limits of the runtime are no fault of an operation. -/
theorem limit : Orderly P (.error (.fault .longNumber)) := fail rfl

theorem bind {x : Except Failure α} {f : α → Except Failure β} (hx : Orderly P x)
    (hf : ∀ a, P a → Orderly Q (f a)) : Orderly Q (x >>= f) := by
  cases x with
  | ok a => exact hf a (hx.answer rfl)
  | error e => exact fail (hx.failure rfl)

theorem liftCause {x : Except Cause α} (h : ∀ a, x = .ok a → P a) :
    Orderly P (liftM x : Except Failure α) := by
  cases x with
  | ok a => exact ok (h a rfl)
  | error e => exact fail trivial

theorem liftCause_any (x : Except Cause α) : Orderly (fun _ => True) (liftM x : Except Failure α) :=
  liftCause fun _ _ => trivial

theorem liftError {x : Except EvalError α} (h : ∀ a, x = .ok a → P a) :
    Orderly P (liftM x : Except Failure α) := by
  cases x with
  | ok a => exact ok (h a rfl)
  | error e => exact fail trivial

theorem liftError_any (x : Except EvalError α) :
    Orderly (fun _ => True) (liftM x : Except Failure α) :=
  liftError fun _ _ => trivial

theorem mapError {x : Except Cause α} {f : Cause → EvalError} (h : ∀ a, x = .ok a → P a) :
    Orderly P (x.mapError fun cause => Failure.error (f cause)) := by
  cases x with
  | ok a => exact ok (h a rfl)
  | error e => exact fail trivial

theorem mapError_any (x : Except Cause α) (f : Cause → EvalError) :
    Orderly (fun _ => True) (x.mapError fun cause => Failure.error (f cause)) :=
  mapError fun _ _ => trivial

/-- A choice between an operation and an error. -/
theorem ite {c : Prop} [Decidable c] {x : Except Failure α} {e : EvalError}
    (h : c → Orderly P x) : Orderly P (if c then x else .error (.error e)) := by
  split_ifs with hc
  · exact h hc
  · exact error e

theorem mapM {γ : Type} {f : γ → Except Failure α} {xs : List γ}
    (h : ∀ x ∈ xs, Orderly (fun _ => True) (f x)) : Orderly (fun _ => True) (xs.mapM f) := by
  induction xs with
  | nil => exact pure trivial
  | cons x xs ih =>
    rw [List.mapM_cons]
    refine (h x (List.mem_cons_self ..)).bind fun y _ => ?_
    exact (ih fun x hx => h x (List.mem_cons_of_mem _ hx)).bind fun ys _ => pure trivial

end Orderly

namespace OrderlyEval

theorem pure {a : α} (h : P a) : OrderlyEval P (Pure.pure a) := by
  constructor
  · intro ds ds' b he
    cases he
    exact h
  · intro ds ds' f he
    cases he

theorem fail {f : Failure} (h : f.Expected) : OrderlyEval P (MonadExcept.throw f) := by
  constructor
  · intro ds ds' a he
    cases he
  · intro ds ds' e he
    cases he
    exact h

theorem throw (e : EvalError) : OrderlyEval P (MonadExcept.throw (Failure.error e)) := fail trivial

theorem note (o : Observation) (p : Option Nat) : OrderlyEval (fun _ => True) (Eval.note o p) :=
  ⟨fun _ => trivial, nofun⟩

theorem bind {x : Eval α} {f : α → Eval β} (hx : OrderlyEval P x)
    (hf : ∀ a, P a → OrderlyEval Q (f a)) : OrderlyEval Q (x >>= f) := by
  constructor
  · intro ds ds' b h
    obtain ⟨a, t, ha, hb⟩ := bind_eq_ok h
    exact (hf a (hx.answer ha)).answer hb
  · intro ds ds' e h
    rw [bind_run] at h
    cases hr : x ds with
    | ok a t =>
      rw [hr] at h
      exact (hf a (hx.answer hr)).failure h
    | error e' t =>
      rw [hr] at h
      cases h
      exact hx.failure hr

/-- What is noted on the way changes nothing. -/
theorem noting {c : Prop} [Decidable c] {o : Observation} {p : Option Nat} {x : Eval α}
    (hx : OrderlyEval P x) : OrderlyEval P (if c then (do Eval.note o p; x) else x) := by
  split_ifs
  · exact (note o p).bind fun _ _ => hx
  · exact hx

theorem map {x : Eval α} {f : α → β} (hx : OrderlyEval P x) (hf : ∀ a, P a → Q (f a)) :
    OrderlyEval Q (f <$> x) :=
  hx.bind fun a ha => .pure (hf a ha)

theorem lift {x : Except Failure α} (hx : Orderly P x) : OrderlyEval P (liftM x) := by
  cases x with
  | ok a => exact pure (hx.answer rfl)
  | error f => exact fail (hx.failure rfl)

theorem liftCause {x : Except Cause α} (h : ∀ a, x = .ok a → P a) :
    OrderlyEval P (liftM x) := by
  cases x with
  | ok a => exact pure (h a rfl)
  | error e => exact throw _

theorem liftError {x : Except EvalError α} (h : ∀ a, x = .ok a → P a) :
    OrderlyEval P (liftM x) := by
  cases x with
  | ok a => exact pure (h a rfl)
  | error e => exact throw _

theorem liftCause_any (x : Except Cause α) : OrderlyEval (fun _ => True) (liftM x) :=
  liftCause fun _ _ => trivial

theorem liftError_any (x : Except EvalError α) : OrderlyEval (fun _ => True) (liftM x) :=
  liftError fun _ _ => trivial

/-- Placing a failure leaves it an error. -/
theorem mapFailure {x : Eval α} {f : Failure → Failure} (hf : ∀ e, e.Expected → (f e).Expected)
    (hx : OrderlyEval P x) : OrderlyEval P (x.mapFailure f) := by
  constructor
  · intro ds ds' a h
    rw [Eval.mapFailure] at h
    cases hr : x ds with
    | ok b t =>
      simp only [hr] at h
      cases h
      exact hx.answer hr
    | error e t =>
      simp only [hr] at h
      cases h
  · intro ds ds' e h
    rw [Eval.mapFailure] at h
    cases hr : x ds with
    | ok b t =>
      simp only [hr] at h
      cases h
    | error e' t =>
      simp only [hr] at h
      cases h
      exact hf e' (hx.failure hr)

theorem locatedAt {x : Eval α} (position : Nat) (hx : OrderlyEval P x) :
    OrderlyEval P (x.locatedAt position) :=
  hx.mapFailure fun e he => by cases e <;> exact he

theorem placedAt {x : Eval α} (position : Nat) (hx : OrderlyEval P x) :
    OrderlyEval P (x.placedAt position) :=
  hx.mapFailure fun e he => by cases e <;> exact he

end OrderlyEval

end WeiCalc

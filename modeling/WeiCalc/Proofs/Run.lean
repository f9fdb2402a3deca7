import Mathlib

/-!
# Running computations

Parsers, lexers and evaluations are computations on a state that may fail and keep their state when
they do.  What a sequence of them answers is said here once, in terms of its parts.

* `bind_run`: what a sequence does to a state.
* `bind_eq_ok`: a sequence answers only if both of its parts do.
* `bind_eq_error`: a sequence fails where one of its parts does.
-/

namespace WeiCalc

variable {ε σ α β : Type}

theorem bind_run (p : EStateM ε σ α) (f : α → EStateM ε σ β) (s : σ) :
    (p >>= f) s =
      match p s with
      | .ok a s' => f a s'
      | .error e s' => .error e s' := by
  change EStateM.bind p f s = _
  rw [EStateM.bind.eq_def]
  cases p s <;> rfl

theorem bind_of_ok {p : EStateM ε σ α} {f : α → EStateM ε σ β} {s t : σ} {a : α}
    (h : p s = .ok a t) : (p >>= f) s = f a t := by
  rw [bind_run, h]

theorem bind_of_error {p : EStateM ε σ α} {f : α → EStateM ε σ β} {s t : σ} {e : ε}
    (h : p s = .error e t) : (p >>= f) s = .error e t := by
  rw [bind_run, h]

@[simp] theorem get_run (s : σ) : (get : EStateM ε σ σ) s = .ok s s := rfl

/-- A sequence answers only if both of its parts do. -/
theorem bind_eq_ok {p : EStateM ε σ α} {f : α → EStateM ε σ β} {s s' : σ} {b : β}
    (h : (p >>= f) s = .ok b s') : ∃ a t, p s = .ok a t ∧ f a t = .ok b s' := by
  rw [bind_run] at h
  cases hp : p s with
  | ok a t => rw [hp] at h; exact ⟨a, t, rfl, h⟩
  | error e t => rw [hp] at h; exact absurd h (by simp)

/-- A sequence fails if its first part does, or its second one behind the first. -/
theorem bind_eq_error {p : EStateM ε σ α} {f : α → EStateM ε σ β} {s s' : σ} {e : ε}
    (h : (p >>= f) s = .error e s') :
    p s = .error e s' ∨ ∃ a t, p s = .ok a t ∧ f a t = .error e s' := by
  rw [bind_run] at h
  cases hp : p s with
  | ok a t => rw [hp] at h; exact Or.inr ⟨a, t, rfl, h⟩
  | error e' t => rw [hp] at h; cases h; exact Or.inl rfl

@[simp] theorem except_ok_bind (a : α) (f : α → Except ε β) :
    ((.ok a : Except ε α) >>= f) = f a := rfl

/-- The same of operations that have no state, where it is an equivalence. -/
theorem except_bind_eq_ok_iff {x : Except ε α} {f : α → Except ε β} {b : β} :
    (x >>= f) = .ok b ↔ ∃ a, x = .ok a ∧ f a = .ok b := by
  cases x with
  | ok a =>
    constructor
    · intro h
      exact ⟨a, rfl, h⟩
    · rintro ⟨a', ha, h⟩
      cases ha
      exact h
  | error e =>
    constructor
    · intro h
      cases h
    · rintro ⟨a, ha, _⟩
      cases ha

theorem except_bind_eq_ok {x : Except ε α} {f : α → Except ε β} {b : β}
    (h : (x >>= f) = .ok b) : ∃ a, x = .ok a ∧ f a = .ok b :=
  except_bind_eq_ok_iff.mp h

theorem except_bind_eq_error {x : Except ε α} {f : α → Except ε β} {e : ε}
    (h : (x >>= f) = .error e) : x = .error e ∨ ∃ a, x = .ok a ∧ f a = .error e := by
  cases x with
  | ok a => exact Or.inr ⟨a, rfl, h⟩
  | error e' =>
    cases h
    exact Or.inl rfl

/-- A guarded operation answers if its guard holds. -/
theorem ite_eq_ok {c : Prop} [Decidable c] {x : Except ε α} {e : ε} {a : α} :
    (if c then x else .error e) = .ok a ↔ c ∧ x = .ok a := by
  by_cases h : c <;> simp [h]

theorem mapError_eq_ok {δ : Type} {x : Except ε α} {f : ε → δ} {a : α} :
    x.mapError f = .ok a ↔ x = .ok a := by
  cases x <;> simp [Except.mapError]

end WeiCalc

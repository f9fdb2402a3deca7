import Mathlib
import WeiCalc.Proofs.Run
import WeiCalc.Proofs.Failure

/-!
# Computations under two limits

A computation under a limit of nesting and the same one under a greater limit only part where the
first one is refused.  Where it is not, the second one ends as it does, in the same state but for the
limit that the state may keep.

* `Loosens refused f p q`: `q` does from `f s` what `p` does from `s`, unless `p` is refused.
* `Loosens.bind`: sequences of computations that part only so, part only so.
-/

namespace WeiCalc

variable {ε σ α β : Type}

/-- An outcome with its state changed. -/
def moved (f : σ → σ) : EStateM.Result ε σ α → EStateM.Result ε σ α
  | .ok a s => .ok a (f s)
  | .error e s => .error e (f s)

@[simp] theorem moved_id (r : EStateM.Result ε σ α) : moved id r = r := by
  cases r <;> rfl

/-- From one state, the first computation is refused or the second one ends as it does. -/
def LoosensAt (refused : ε → Prop) (f : σ → σ) (s : σ) (p q : EStateM ε σ α) : Prop :=
  (∃ e s', p s = .error e s' ∧ refused e) ∨ q (f s) = moved f (p s)

/-- From every state, the first computation is refused or the second one ends as it does. -/
def Loosens (refused : ε → Prop) (f : σ → σ) (p q : EStateM ε σ α) : Prop :=
  ∀ s, LoosensAt refused f s p q

variable {refused : ε → Prop} {f : σ → σ}

theorem LoosensAt.bind {s : σ} {p q : EStateM ε σ α} {k k' : α → EStateM ε σ β}
    (h : LoosensAt refused f s p q) (hk : ∀ a, Loosens refused f (k a) (k' a)) :
    LoosensAt refused f s (p >>= k) (q >>= k') := by
  rcases h with ⟨e, s', hp, he⟩ | h
  · exact Or.inl ⟨e, s', bind_of_error hp, he⟩
  · cases hp : p s with
    | ok a t =>
      rw [hp] at h
      rcases hk a t with ⟨e, s', hr, he⟩ | hr
      · exact Or.inl ⟨e, s', (bind_of_ok hp).trans hr, he⟩
      · exact Or.inr (by rw [bind_of_ok h, hr, bind_of_ok hp])
    | error e t =>
      rw [hp] at h
      exact Or.inr (by rw [bind_of_error h, bind_of_error hp]; rfl)

/-- A part that only looks at the state does not make a difference. -/
theorem LoosensAt.bind_of_ok {s : σ} {p q : EStateM ε σ α} {k k' : α → EStateM ε σ β} {a : α}
    (hp : p s = .ok a s) (hq : q (f s) = .ok a (f s)) (h : LoosensAt refused f s (k a) (k' a)) :
    LoosensAt refused f s (p >>= k) (q >>= k') := by
  rw [LoosensAt, WeiCalc.bind_of_ok hp, WeiCalc.bind_of_ok hq]
  exact h

namespace Loosens

theorem of_eq {p q : EStateM ε σ α} (h : ∀ s, q (f s) = moved f (p s)) : Loosens refused f p q :=
  fun s => Or.inr (h s)

theorem pure (a : α) : Loosens refused f (Pure.pure a) (Pure.pure a) := of_eq fun _ => rfl

theorem throw (e : ε) :
    Loosens refused f (MonadExcept.throw e : EStateM ε σ α) (MonadExcept.throw e) :=
  of_eq fun _ => rfl

/-- Where no limit is kept in the state, a computation loosens itself. -/
theorem refl (p : EStateM ε σ α) : Loosens refused id p p := of_eq fun _ => (moved_id _).symm

theorem bind {p q : EStateM ε σ α} {k k' : α → EStateM ε σ β} (h : Loosens refused f p q)
    (hk : ∀ a, Loosens refused f (k a) (k' a)) : Loosens refused f (p >>= k) (q >>= k') :=
  fun s => (h s).bind hk

theorem map (g : α → β) {p q : EStateM ε σ α} (h : Loosens refused f p q) :
    Loosens refused f (g <$> p) (g <$> q) := h.bind fun a => pure (g a)

/-- What goes on from the present state may look at the limit that it keeps. -/
theorem get {k k' : σ → EStateM ε σ α} (h : ∀ s, LoosensAt refused f s (k s) (k' (f s))) :
    Loosens refused f (MonadState.get >>= k) (MonadState.get >>= k') := h

end Loosens

end WeiCalc

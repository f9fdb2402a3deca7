import Mathlib
import WeiCalc.Expr.Evaluation

/-!
# Contexts and levels

The evaluation recurses on the levels that are left, while a context says how many have been entered
and refuses to enter one more than the limit allows.  Both are one step: an expression is evaluated in
the context one level down from its own, and its parts in contexts from there.

* `Context.value_eq`, `Context.signed_negate`: **an expression is evaluated one level down**, and so is
  an argument behind a minus.
* `Context.value_unchecked`, `Context.value_now`: what is evaluated in other contexts, and what reads
  the time.
* `Context.Reached`: the contexts that the evaluation of a line comes to.
* `Context.Reached.descend_eq`: **a level is entered as long as there are no more than the limit.**
-/

namespace WeiCalc

namespace Context

/-- The signed integer that an expression stands for as an argument. -/
def signed (c : Context) (e : Expr) : Eval Int :=
  Evaluation.signed c.environment c.levels c.mode e

/-- How the parts of an expression are evaluated in the context that was entered for it. -/
def below (c : Context) : Below where
  value mode e := { c with mode }.value e
  signed mode e := { c with mode }.signed e

/-! ### Fields of contexts -/

variable {c c' : Context} {env : Environment} {position : Nat}

@[simp] theorem start_environment (env : Environment) : (start env).environment = env := rfl

@[simp] theorem start_levels (env : Environment) :
    (start env).levels = env.settings.maxDepth.value := rfl

@[simp] theorem start_depth (env : Environment) : (start env).depth = 0 := Nat.sub_self _

@[simp] theorem wrapping_environment (c : Context) : c.wrapping.environment = c.environment := rfl

@[simp] theorem wrapping_levels (c : Context) : c.wrapping.levels = c.levels := rfl

@[simp] theorem wrapping_depth (c : Context) : c.wrapping.depth = c.depth := rfl

theorem descend_eq_ok :
    c.descend position = .ok c' ↔ ∃ levels, c.levels = levels + 1 ∧ c' = { c with levels } := by
  rw [descend]
  cases c.levels with
  | zero => simp
  | succ levels => simp [eq_comm]

/-! ### One level down -/

/-- **An expression is evaluated in the context one level down**, and its parts from there. -/
theorem value_eq (c : Context) (e : Expr) :
    c.value e = (do
      let inner ← c.descend e.position
      Evaluation.node inner.environment inner.below inner.mode e) := by
  obtain ⟨env, mode, levels⟩ := c
  cases levels <;> rfl

/-- A minus in front of a signed argument takes up a level of its own. -/
theorem signed_negate (c : Context) (e : Expr) (position : Nat) :
    c.signed (.negate e position) = (do
      let inner ← c.descend position
      return -(← inner.signed e)) := by
  obtain ⟨env, mode, levels⟩ := c
  cases levels <;> rfl

/-- Without a minus in front, a signed argument is evaluated as a value. -/
theorem signed_eq (c : Context) {e : Expr} (he : ∀ e' p, e ≠ .negate e' p) :
    c.signed e = (do Evaluation.signedOf (← c.value e) e.position) := by
  obtain ⟨env, mode, levels⟩ := c
  cases levels with
  | zero => rfl
  | succ levels =>
    cases e with
    | negate e p => exact absurd rfl (he e p)
    | _ => rfl

/-- What is inside of `unchecked` is evaluated in the wrapping context. -/
theorem value_unchecked (c : Context) (e : Expr) (position : Nat) :
    c.value (.unchecked e position) = (do
      let inner ← c.descend position
      inner.wrapping.value e) := value_eq c _

/-- The clock is read in the context of the identifier. -/
theorem value_now (c : Context) (position : Nat) :
    c.value (.identifier "now" position) = (do
      let inner ← c.descend position
      match Word.ofInt? inner.now with
      | some w => return .number w
      | none => throw (.fault .wordRange)) := value_eq c _

/-! ### The contexts of a line -/

/-- The contexts that the evaluation of a line comes to. -/
inductive Reached (env : Environment) : Context → Prop
  | start : Reached env (.start env)
  | descend {c c' : Context} {position : Nat} : Reached env c → c.descend position = .ok c' →
      Reached env c'
  | wrapping {c : Context} : Reached env c → Reached env c.wrapping

namespace Reached

/-- The environment, and with it the clock, is the same in the whole line. -/
theorem environment_eq (h : Reached env c) : c.environment = env := by
  induction h with
  | start => simp
  | descend _ hd ih =>
    obtain ⟨levels, -, rfl⟩ := descend_eq_ok.mp hd
    exact ih
  | wrapping _ ih => simpa using ih

/-- **The levels that have been entered and those that are left make up the limit**, by induction on
the steps to the context. -/
theorem depth_add_levels (h : Reached env c) :
    c.depth + c.levels = env.settings.maxDepth.value := by
  have hle : c.levels ≤ env.settings.maxDepth.value := by
    induction h with
    | start => simp
    | descend _ hd ih =>
      obtain ⟨levels, hl, rfl⟩ := descend_eq_ok.mp hd
      rw [hl] at ih
      exact (Nat.le_succ levels).trans ih
    | wrapping _ ih => simpa using ih
  rw [depth, h.environment_eq]
  omega

/-- **A level is entered as long as there are no more than the limit**, and counted. -/
theorem descend_eq (h : Reached env c) (position : Nat) :
    if env.settings.maxDepth.value < c.depth + 1 then
      c.descend position = .error (env.tooDeep position)
    else ∃ c', c.descend position = .ok c' ∧ c'.depth = c.depth + 1 ∧ c'.mode = c.mode := by
  have hsum := h.depth_add_levels
  split_ifs with hd
  · have hl : c.levels = 0 := by omega
    rw [Context.descend, hl, h.environment_eq]
  · obtain ⟨levels, hl⟩ : ∃ levels, c.levels = levels + 1 := ⟨c.levels - 1, by omega⟩
    have hc : c.descend position = .ok { c with levels } := descend_eq_ok.mpr ⟨levels, hl, rfl⟩
    refine ⟨_, hc, ?_, rfl⟩
    have hsum' := (h.descend hc).depth_add_levels
    dsimp only at hsum'
    omega

end Reached

end Context

end WeiCalc

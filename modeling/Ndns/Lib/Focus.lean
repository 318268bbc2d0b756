import Ndns.Lib.Effect
import Mathlib.Logic.Function.Basic

/-!
# One member of a family of states

A computation on one state works on a family of states by its member at a key.
The other members stay as they are, and nothing is read from them.

**Results.**
* `focus_pure`, `focus_throw`, `focus_bind`: focusing goes through a computation
  step by step;
* `focusStep_congr`, `focusStep_other`: what a step reads and changes.
-/

namespace Effect

variable {κ ε σ α β : Type} [DecidableEq κ]

/-- A computation on the member at a key. -/
def focus (k : κ) (m : EStateM ε σ α) : EStateM ε (κ → σ) α := fun f =>
  match m.run (f k) with
  | .ok a s => .ok a (Function.update f k s)
  | .error e s => .error e (Function.update f k s)

/-- A step on the member at a key, with a result. -/
def focusStep (k : κ) (step : σ → α × σ) (f : κ → σ) : α × (κ → σ) :=
  ((step (f k)).1, Function.update f k (step (f k)).2)

section Rules

variable (k : κ)

theorem run_focus (m : EStateM ε σ α) (f : κ → σ) :
    (focus k m).run f =
      match m.run (f k) with
      | .ok a s => .ok a (Function.update f k s)
      | .error e s => .error e (Function.update f k s) := rfl

@[simp] theorem focus_pure (a : α) :
    focus k (pure a : EStateM ε σ α) = pure a := by
  funext f
  exact congrArg (EStateM.Result.ok a) (Function.update_eq_self k f)

@[simp] theorem focus_throw (e : ε) :
    focus k (throw e : EStateM ε σ α) = throw e := by
  funext f
  exact congrArg (EStateM.Result.error e) (Function.update_eq_self k f)

/-- Two steps on the member at a key. -/
theorem focus_bind (m : EStateM ε σ α) (g : α → EStateM ε σ β) :
    focus k (m >>= g) = focus k m >>= fun a => focus k (g a) := by
  funext f
  change (focus k (m >>= g)).run f =
    (focus k m >>= fun a => focus k (g a)).run f
  rw [run_focus, EStateM.run_bind, EStateM.run_bind, run_focus]
  cases hm : m.run (f k) with
  | error e s =>
      rfl
  | ok a s =>
      simp only [run_focus, Function.update_self]
      cases hg : (g a).run s with
      | error e t =>
          simp only [Function.update_idem]
      | ok b t =>
          simp only [Function.update_idem]

variable {k} (step : σ → α × σ) {f g : κ → σ}

/-- A step reads nothing but the member at its key. -/
theorem focusStep_congr (h : f k = g k) :
    (focusStep k step f).1 = (focusStep k step g).1 ∧
      (focusStep k step f).2 k = (focusStep k step g).2 k := by
  simp [focusStep, h]

/-- A step changes nothing but the member at its key. -/
theorem focusStep_other (f : κ → σ) {j : κ} (h : j ≠ k) :
    (focusStep k step f).2 j = f j :=
  Function.update_of_ne h _ _

end Rules

end Effect

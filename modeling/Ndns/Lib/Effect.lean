import Mathlib.Tactic.Common

/-!
# Triples for computations with a state and an exception

`EStateM ε σ α` keeps the state when an exception is thrown.  A triple says what
holds of a value and the state behind it, and of the state behind an exception.
With `False` for the latter it says that nothing is thrown.
-/

namespace Effect

variable {ε σ : Type} {α β : Type}

def Triple (P : σ → Prop) (m : EStateM ε σ α) (Q : α → σ → Prop)
    (E : σ → Prop) : Prop :=
  ∀ s, P s →
    match m.run s with
    | .ok a t => Q a t
    | .error _ t => E t

/-- A computation that never throws from a state with `P`. -/
abbrev Total (P : σ → Prop) (m : EStateM ε σ α) (Q : α → σ → Prop) : Prop :=
  Triple P m Q (fun _ => False)

/-- The state behind a computation, however it ends. -/
def behind (m : EStateM ε σ α) (s : σ) : σ :=
  match m.run s with
  | .ok _ t => t
  | .error _ t => t

section Rules

variable {P : σ → Prop} {Q : α → σ → Prop} {R : β → σ → Prop}
variable {E : σ → Prop}

theorem triple_pure {a : α} (h : ∀ s, P s → Q a s) :
    Triple P (pure a : EStateM ε σ α) Q E :=
  h

theorem triple_throw {e : ε} (h : ∀ s, P s → E s) :
    Triple P (throw e : EStateM ε σ α) Q E :=
  h

theorem Triple.bind
    {m : EStateM ε σ α} {f : α → EStateM ε σ β}
    (hm : Triple P m Q E) (hf : ∀ a, Triple (Q a) (f a) R E) :
    Triple P (m >>= f) R E := by
  intro s hs
  have hfirst := hm s hs
  rw [EStateM.run_bind]
  cases hrun : m.run s with
  | ok a t =>
      rw [hrun] at hfirst
      exact hf a t hfirst
  | error e t =>
      rw [hrun] at hfirst
      exact hfirst

/-- A triple may be shown for one state at a time. -/
theorem triple_of_forall
    {m : EStateM ε σ α} (h : ∀ s, P s → Triple (· = s) m Q E) :
    Triple P m Q E :=
  fun s hs => h s hs s rfl

/-- Stronger before, weaker behind. -/
theorem Triple.conseq
    {m : EStateM ε σ α} {P' : σ → Prop} {Q' : α → σ → Prop}
    {E' : σ → Prop}
    (h : Triple P m Q E) (hP : ∀ s, P' s → P s)
    (hQ : ∀ a s, Q a s → Q' a s) (hE : ∀ s, E s → E' s) :
    Triple P' m Q' E' := by
  intro s hs
  have hrun := h s (hP s hs)
  cases heq : m.run s with
  | ok a t =>
      rw [heq] at hrun
      exact hQ a t hrun
  | error e t =>
      rw [heq] at hrun
      exact hE t hrun

theorem Triple.weaken
    {m : EStateM ε σ α} {Q' : α → σ → Prop}
    (h : Triple P m Q E) (hQ : ∀ a s, Q a s → Q' a s) :
    Triple P m Q' E :=
  h.conseq (fun _ hs => hs) hQ (fun _ hs => hs)

/-- What holds behind a run that returns. -/
theorem Triple.ok
    {m : EStateM ε σ α} (h : Triple P m Q E) {s t : σ} {a : α} (hs : P s)
    (hrun : m.run s = .ok a t) :
    Q a t := by
  have hpost := h s hs
  rw [hrun] at hpost
  exact hpost

theorem Triple.error
    {m : EStateM ε σ α} (h : Triple P m Q E) {s t : σ} {e : ε} (hs : P s)
    (hrun : m.run s = .error e t) :
    E t := by
  have hpost := h s hs
  rw [hrun] at hpost
  exact hpost

/-- What holds behind a value and behind an exception. -/
theorem Triple.behind
    {m : EStateM ε σ α} {I : σ → Prop}
    (h : Triple P m (fun _ => I) I) {s : σ} (hs : P s) :
    I (Effect.behind m s) := by
  have hrun := h s hs
  unfold Effect.behind
  cases heq : m.run s with
  | ok a t =>
      rw [heq] at hrun
      exact hrun
  | error e t =>
      rw [heq] at hrun
      exact hrun

/-- A computation that cannot throw keeps any promise about exceptions. -/
theorem Total.triple
    {m : EStateM ε σ α} (h : Total P m Q) :
    Triple P m Q E :=
  h.conseq (fun _ hs => hs) (fun _ _ hs => hs) (fun _ hs => hs.elim)

end Rules

section Loops

variable {E : σ → Prop}

/-- A loop keeps what every step keeps. -/
theorem triple_mapM
    {f : α → EStateM ε σ β} {I : σ → Prop} (as : List α)
    (h : ∀ a ∈ as, Triple I (f a) (fun _ => I) E) :
    Triple I (as.mapM f) (fun _ => I) E := by
  induction as with
  | nil =>
      rw [List.mapM_nil]
      exact triple_pure (fun _ hs => hs)
  | cons a as ih =>
      rw [List.mapM_cons]
      refine (h a (by simp)).bind (fun b => ?_)
      refine (ih (fun c hc => h c (List.mem_cons_of_mem a hc))).bind
        (fun bs => ?_)
      exact triple_pure (fun _ hs => hs)

end Loops

end Effect

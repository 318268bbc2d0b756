import Mathlib.Data.List.Basic

/-!
# Machines

A machine takes one input after the other.  `Along` collects what every step of a
run has to satisfy, `Along.invariant` is the induction over a run, and `along_congr`
compares two conditions on a run; `throughout_iff_along` says which runs keep a
property in all their states.  `note` leaves out the inputs that came before.  A
machine with outputs may break down instead of taking a step; `Simulates` says that a
specification takes every step with it, up to a breakdown that is excused, and
`simulates_of_refines` shows this for one step at a time.
-/

namespace Machine

variable {σ τ ι ο : Type}

section Runs

variable (step : ι → σ → σ)

/-- The state behind a run. -/
def final : List ι → σ → σ
  | [], s => s
  | i :: is, s => final is (step i s)

/-- Every step of a run satisfies a condition on its input and the state in front
of it. -/
def Along (ok : ι → σ → Prop) : List ι → σ → Prop
  | [], _ => True
  | i :: is, s => ok i s ∧ Along ok is (step i s)

instance decidableAlong
    {step : ι → σ → σ} {ok : ι → σ → Prop} [∀ i s, Decidable (ok i s)] :
    ∀ is s, Decidable (Along step ok is s)
  | [], _ => isTrue trivial
  | i :: is, s =>
      have : Decidable (Along step ok is (step i s)) :=
        decidableAlong is (step i s)
      inferInstanceAs (Decidable (ok i s ∧ Along step ok is (step i s)))

theorem Along.mono
    {step : ι → σ → σ} {ok ok' : ι → σ → Prop} {is : List ι} {s : σ}
    (h : Along step ok is s) (hok : ∀ i s, ok i s → ok' i s) :
    Along step ok' is s := by
  induction is generalizing s with
  | nil =>
      trivial
  | cons i is ih =>
      exact ⟨hok i s h.1, ih h.2⟩

theorem along_of_forall
    {step : ι → σ → σ} {ok : ι → σ → Prop} (h : ∀ i s, ok i s)
    (is : List ι) (s : σ) :
    Along step ok is s := by
  induction is generalizing s with
  | nil =>
      trivial
  | cons i is ih =>
      exact ⟨h i s, ih (step i s)⟩

/-- What every such step keeps is kept by a run. -/
theorem Along.invariant
    {step : ι → σ → σ} {ok : ι → σ → Prop} {I : σ → Prop}
    (hstep : ∀ i s, ok i s → I s → I (step i s))
    {is : List ι} {s : σ}
    (h : Along step ok is s) (hs : I s) :
    I (final step is s) := by
  induction is generalizing s with
  | nil =>
      exact hs
  | cons i is ih =>
      obtain ⟨hok, hrest⟩ := h
      exact ih hrest (hstep i s hok hs)

/-- The condition of a step in the middle of a run. -/
theorem Along.of_cut
    {step : ι → σ → σ} {ok : ι → σ → Prop} {before after : List ι} {i : ι}
    {s : σ} (h : Along step ok (before ++ i :: after) s) :
    ok i (final step before s) := by
  induction before generalizing s with
  | nil =>
      exact h.1
  | cons j before ih =>
      exact ih h.2

/-- What every step keeps is kept by every run. -/
theorem final_invariant
    {step : ι → σ → σ} {I : σ → Prop}
    (hstep : ∀ i s, I s → I (step i s)) (is : List ι) {s : σ} (hs : I s) :
    I (final step is s) :=
  have halong : Along step (fun _ _ => True) is s :=
    along_of_forall (fun _ _ => trivial) is s
  halong.invariant (fun i s _ => hstep i s) hs

/-- Two conditions of a run are one condition of its steps. -/
theorem along_and_iff
    {step : ι → σ → σ} {ok ok' : ι → σ → Prop} {is : List ι} {s : σ} :
    Along step (fun i s => ok i s ∧ ok' i s) is s ↔
      Along step ok is s ∧ Along step ok' is s := by
  induction is generalizing s with
  | nil =>
      exact ⟨fun h => ⟨h, h⟩, fun h => h.1⟩
  | cons i is ih =>
      simp only [Along, ih]
      exact and_and_and_comm

/-- Conditions that agree in the states of a run agree on the run. -/
theorem along_congr
    {step : ι → σ → σ} {given ok ok' : ι → σ → Prop} {I : σ → Prop}
    (hkeep : ∀ i s, given i s → I s → I (step i s))
    (hiff : ∀ i s, given i s → I s → (ok i s ↔ ok' i s))
    {is : List ι} {s : σ}
    (hgiven : Along step given is s) (hs : I s) :
    Along step ok is s ↔ Along step ok' is s := by
  induction is generalizing s with
  | nil =>
      exact Iff.rfl
  | cons i is ih =>
      obtain ⟨hi, hrest⟩ := hgiven
      exact and_congr (hiff i s hi hs) (ih hrest (hkeep i s hi hs))

/-- All states of a run have a property. -/
def Throughout (I : σ → Prop) : List ι → σ → Prop
  | [], s => I s
  | i :: is, s => I s ∧ Throughout I is (step i s)

/-- A step that keeps a property exactly under a condition makes runs that have
it throughout exactly if all their steps meet the condition. -/
theorem throughout_iff_along
    {step : ι → σ → σ} {given ok : ι → σ → Prop} {I J : σ → Prop}
    (hkeep : ∀ i s, J s → given i s → J (step i s))
    (hstep : ∀ i s, J s → given i s → I s → (I (step i s) ↔ ok i s))
    {is : List ι} {s : σ}
    (hgiven : Along step given is s) (hJ : J s) (hI : I s) :
    Throughout step I is s ↔ Along step ok is s := by
  induction is generalizing s with
  | nil =>
      exact iff_of_true hI trivial
  | cons i is ih =>
      obtain ⟨hi, hrest⟩ := hgiven
      have hone := hstep i s hJ hi hI
      constructor
      · rintro ⟨-, hthrough⟩
        have hnext : I (step i s) := by
          cases is with
          | nil =>
              exact hthrough
          | cons j js =>
              exact hthrough.1
        exact ⟨hone.mp hnext, (ih hrest (hkeep i s hJ hi) hnext).mp hthrough⟩
      · rintro ⟨hok, halong⟩
        exact ⟨hI, (ih hrest (hkeep i s hJ hi) (hone.mpr hok)).mpr halong⟩

theorem final_append (is : List ι) (i : ι) (s : σ) :
    final step (is ++ [i]) s = step i (final step is s) := by
  induction is generalizing s with
  | nil =>
      rfl
  | cons j is ih =>
      exact ih (step j s)

end Runs

section Firsts

variable [DecidableEq ι]

/-- Inputs that may come again, in the order in which they came first. -/
def note (i : ι) (firsts : List ι) : List ι :=
  if i ∈ firsts then firsts else firsts ++ [i]

variable {step : ι → σ → σ} {i : ι} {firsts : List ι}

/-- An input that comes again is not taken again. -/
theorem final_note_of_mem (h : i ∈ firsts) (s : σ) :
    final step (note i firsts) s = final step firsts s := by
  rw [note, if_pos h]

theorem final_note_of_notMem (h : i ∉ firsts) (s : σ) :
    final step (note i firsts) s = step i (final step firsts s) := by
  rw [note, if_neg h, final_append]

end Firsts

section Simulation

/-- What a machine with states `σ`, inputs `ι` and outputs `ο` is meant to do,
step by step, on states of its own. -/
structure Specification (σ τ ι ο : Type) where
  step : ι → τ → τ
  /-- The states that stand for each other. -/
  rel : σ → τ → Prop
  /-- The outputs that are right, given both states behind the step. -/
  reply : ι → τ → ο → σ → Prop
  /-- Where the machine may break down. -/
  excused : σ → Prop

variable (step : ι → σ → Option (ο × σ)) (spec : Specification σ τ ι ο)

/-- One step of the machine is one of the specification. -/
def Refines (i : ι) (s : σ) (t : τ) : Prop :=
  match step i s with
  | none => spec.excused s
  | some (o, s') =>
      spec.reply i (spec.step i t) o s' ∧ spec.rel s' (spec.step i t)

/-- The specification takes every step of a run with the machine. -/
def Simulates : List ι → σ → τ → Prop
  | [], s, t => spec.rel s t
  | i :: is, s, t =>
      spec.rel s t ∧
        match step i s with
        | none => spec.excused s
        | some (o, s') =>
            spec.reply i (spec.step i t) o s' ∧
              Simulates is s' (spec.step i t)

variable {step} {spec}

/-- A simulation is shown step by step. -/
theorem simulates_of_refines
    {ok : ι → Prop}
    (hstep : ∀ i s t, ok i → spec.rel s t → Refines step spec i s t)
    {is : List ι} (hok : ∀ i ∈ is, ok i)
    {s : σ} {t : τ} (h : spec.rel s t) :
    Simulates step spec is s t := by
  induction is generalizing s t with
  | nil =>
      exact h
  | cons i is ih =>
      refine ⟨h, ?_⟩
      have hone := hstep i s t (hok i (by simp)) h
      unfold Refines at hone
      cases hi : step i s with
      | none =>
          rw [hi] at hone
          exact hone
      | some os =>
          rw [hi] at hone
          obtain ⟨hreply, hrel⟩ := hone
          exact ⟨hreply,
            ih (fun j hj => hok j (List.mem_cons_of_mem i hj)) hrel⟩

end Simulation

end Machine

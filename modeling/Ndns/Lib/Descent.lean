import Mathlib.Data.List.Infix
import Mathlib.Logic.Relation

/-!
# Descents along a list

A walk along a list `dst`, from prefix to prefix: at a prefix `z` the shortest
non-empty continuation where `stop` holds is looked for, and if it also leads
`down`, the walk goes on behind it.  Delegation in a tree of name servers is
such a walk.

**Results.**
* `exists_shortest`, `Shortest.unique`: the shortest continuation;
* `step_rightUnique`: the walk has no choice;
* `Chain.isPrefix`: it visits prefixes of `dst` only;
* `Chain.isPrefix_last`: where it cannot go on, everything visited is a prefix;
* `Chain.eq_of_last`: it ends in one place;
* `Chain.congr`: it depends on what it has passed only, along `dst`.
-/

namespace Descent

universe u

variable {α : Type u}

/-- `l` is the shortest non-empty continuation of `z` where `stop` holds. -/
structure Shortest
    (stop : List α → List α → Prop) (dst z l : List α) : Prop where
  ne_nil : l ≠ []
  isPrefix : z ++ l <+: dst
  stops : stop z l
  minimal : ∀ l', l' ≠ [] → l' <+: l → stop z l' → l' = l

/-- The walk goes from `z` to `z'`. -/
def Step
    (stop down : List α → List α → Prop) (dst z z' : List α) : Prop :=
  ∃ l, Shortest stop dst z l ∧ down z l ∧ z' = z ++ l

/-- The walk from the empty prefix visits `z`. -/
def Chain
    (stop down : List α → List α → Prop) (dst z : List α) : Prop :=
  Relation.ReflTransGen (Step stop down dst) [] z

variable {stop down : List α → List α → Prop} {dst z l : List α}

theorem Shortest.unique
    {l' : List α}
    (h : Shortest stop dst z l) (h' : Shortest stop dst z l') :
    l = l' := by
  rcases List.prefix_or_prefix_of_prefix h.isPrefix h'.isPrefix with
    hle | hle
  · have hle' : l <+: l' := (List.prefix_append_right_inj z).mp hle
    exact h'.minimal l h.ne_nil hle' h.stops
  · have hle' : l' <+: l := (List.prefix_append_right_inj z).mp hle
    exact (h.minimal l' h'.ne_nil hle' h'.stops).symm

/-- Only continuations along `dst` matter. -/
theorem Shortest.congr
    {stop' : List α → List α → Prop} (h : Shortest stop dst z l)
    (hstop : ∀ l', z ++ l' <+: dst → (stop' z l' ↔ stop z l')) :
    Shortest stop' dst z l where
  ne_nil := h.ne_nil
  isPrefix := h.isPrefix
  stops := (hstop l h.isPrefix).mpr h.stops
  minimal l' hne hle hstop' := by
    have hle' : z ++ l' <+: dst :=
      ((List.prefix_append_right_inj z).mpr hle).trans h.isPrefix
    exact h.minimal l' hne hle ((hstop l' hle').mp hstop')

/-- A continuation where `stop` holds has a shortest one before it. -/
theorem exists_shortest
    (hne : l ≠ []) (hle : z ++ l <+: dst) (hstop : stop z l) :
    ∃ l', Shortest stop dst z l' := by
  induction hn : l.length using Nat.strong_induction_on generalizing l with
  | _ n ih =>
      by_cases hmin : ∀ l', l' ≠ [] → l' <+: l → stop z l' → l' = l
      · exact ⟨l, hne, hle, hstop, hmin⟩
      · push Not at hmin
        obtain ⟨l', hne', hle', hstop', hneq⟩ := hmin
        have hlt : l'.length < l.length := by
          rcases Nat.lt_or_ge l'.length l.length with h | h
          · exact h
          · exact absurd (hle'.eq_of_length
              (le_antisymm hle'.length_le h)) hneq
        have hle'' : z ++ l' <+: dst :=
          ((List.prefix_append_right_inj z).mpr hle').trans hle
        exact ih l'.length (by omega) hne' hle'' hstop' rfl

theorem step_rightUnique :
    Relator.RightUnique (Step stop down dst) := by
  rintro z z₁ z₂ ⟨l₁, h₁, -, rfl⟩ ⟨l₂, h₂, -, rfl⟩
  rw [h₁.unique h₂]

namespace Chain

theorem nil : Chain stop down dst [] :=
  Relation.ReflTransGen.refl

theorem step
    (h : Chain stop down dst z)
    (hl : Shortest stop dst z l) (hdown : down z l) :
    Chain stop down dst (z ++ l) :=
  Relation.ReflTransGen.tail h ⟨l, hl, hdown, rfl⟩

theorem isPrefix (h : Chain stop down dst z) : z <+: dst := by
  cases h with
  | refl =>
      exact List.nil_prefix
  | tail _ hstep =>
      obtain ⟨l, hl, -, rfl⟩ := hstep
      exact hl.isPrefix

/-- A walk only gets longer. -/
theorem prefix_of_steps
    {z' : List α}
    (h : Relation.ReflTransGen (Step stop down dst) z z') :
    z <+: z' := by
  induction h with
  | refl =>
      exact List.prefix_rfl
  | tail _ hstep ih =>
      obtain ⟨l, -, -, rfl⟩ := hstep
      exact ih.trans (List.prefix_append _ _)

/-- Where the walk ends, everything it visited is a prefix. -/
theorem isPrefix_last
    {z' : List α}
    (h : Chain stop down dst z)
    (hlast : ∀ l, Shortest stop dst z l → ¬ down z l)
    (h' : Chain stop down dst z') :
    z' <+: z := by
  rcases Relation.ReflTransGen.total_of_right_unique
    step_rightUnique h h' with hzz' | hz'z
  · cases hzz' using Relation.ReflTransGen.head_induction_on with
    | refl =>
        exact List.prefix_rfl
    | head hstep _ =>
        obtain ⟨l, hl, hdown, -⟩ := hstep
        exact absurd hdown (hlast l hl)
  · exact prefix_of_steps hz'z

/-- There is one end. -/
theorem eq_of_last
    {z' : List α}
    (h : Chain stop down dst z)
    (hlast : ∀ l, Shortest stop dst z l → ¬ down z l)
    (h' : Chain stop down dst z')
    (hlast' : ∀ l, Shortest stop dst z' l → ¬ down z' l) :
    z = z' := by
  have hle : z <+: z' := h'.isPrefix_last hlast' h
  have hle' : z' <+: z := h.isPrefix_last hlast h'
  exact hle.eq_of_length (le_antisymm hle.length_le hle'.length_le)

/-- What holds at the end and behind it does not matter. -/
theorem congr
    {stop' down' : List α → List α → Prop}
    (h : Chain stop down dst z)
    (hstop : ∀ z' l, z' <+: z → z' ≠ z → z' ++ l <+: dst →
      (stop' z' l ↔ stop z' l))
    (hdown : ∀ z' l, z' <+: z → z' ≠ z → z' ++ l <+: dst →
      (down' z' l ↔ down z' l)) :
    Chain stop' down' dst z := by
  induction h with
  | refl =>
      exact nil
  | @tail z₀ z₁ hchain hstep ih =>
      obtain ⟨l, hl, hl', rfl⟩ := hstep
      have hle : z₀ <+: z₀ ++ l := List.prefix_append z₀ l
      have hne : z₀ ≠ z₀ ++ l := by
        simpa using hl.ne_nil
      have hshort {z' : List α} (hz' : z' <+: z₀) (hz : z' ≠ z₀) :
          z' ≠ z₀ ++ l := by
        rintro rfl
        exact hz (hz'.eq_of_length_le (by simp))
      have hbefore := ih
        (fun z' l hz' hz => hstop z' l (hz'.trans hle) (hshort hz' hz))
        (fun z' l hz' hz => hdown z' l (hz'.trans hle) (hshort hz' hz))
      exact hbefore.step (hl.congr (fun l' => hstop z₀ l' hle hne))
        ((hdown z₀ l hle hne hl.isPrefix).mpr hl')

end Chain

end Descent

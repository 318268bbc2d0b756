import Mathlib.Data.List.Nodup

/-!
# Ordered sets

Lists without duplicates: a set that keeps the order in which its elements came.
-/

/-- A list without duplicates. -/
@[ext] structure OrderedSet (α : Type) where
  elems : List α
  nodup : elems.Nodup
deriving DecidableEq

namespace OrderedSet

variable {α : Type} [DecidableEq α]

def empty : OrderedSet α where
  elems := []
  nodup := List.nodup_nil

def single (a : α) : OrderedSet α where
  elems := [a]
  nodup := List.nodup_singleton a

/-- Append an element, unless it is there. -/
def add (s : OrderedSet α) (a : α) : OrderedSet α where
  elems := if a ∈ s.elems then s.elems else s.elems ++ [a]
  nodup := by
    split
    · exact s.nodup
    · next h =>
        rw [List.nodup_append]
        refine ⟨s.nodup, List.nodup_singleton a, ?_⟩
        rintro b hb c hc rfl
        rw [List.mem_singleton] at hc
        exact h (hc ▸ hb)

/-- Drop an element. -/
def remove (s : OrderedSet α) (a : α) : OrderedSet α where
  elems := s.elems.filter (· ≠ a)
  nodup := s.nodup.filter _

theorem elems_remove (s : OrderedSet α) (a : α) :
    (s.remove a).elems = s.elems.filter (· ≠ a) := rfl

theorem notMem_remove (s : OrderedSet α) (a : α) :
    a ∉ (s.remove a).elems := by
  simp [elems_remove]

theorem elems_add_of_mem {s : OrderedSet α} {a : α} (h : a ∈ s.elems) :
    (s.add a).elems = s.elems :=
  if_pos h

theorem elems_add_of_notMem {s : OrderedSet α} {a : α} (h : a ∉ s.elems) :
    (s.add a).elems = s.elems ++ [a] :=
  if_neg h

theorem add_eq_single {s : OrderedSet α} (h : s.elems = []) (a : α) :
    s.add a = single a := by
  cases s with
  | mk elems nodup =>
      obtain rfl : elems = [] := h
      rfl

theorem elems_remove_of_notMem
    {s : OrderedSet α} {a : α} (h : a ∉ s.elems) :
    (s.remove a).elems = s.elems := by
  refine List.filter_eq_self.mpr ?_
  intro b hb
  rw [decide_eq_true_eq]
  rintro rfl
  exact h hb

theorem add_eq_self_iff {s : OrderedSet α} {a : α} :
    s.add a = s ↔ a ∈ s.elems := by
  constructor
  · intro h
    by_contra ha
    have hlength := congrArg (fun s => s.elems.length) h
    simp [elems_add_of_notMem ha] at hlength
  · intro ha
    exact OrderedSet.ext (elems_add_of_mem ha)

theorem remove_eq_self_iff {s : OrderedSet α} {a : α} :
    s.remove a = s ↔ a ∉ s.elems := by
  constructor
  · intro h ha
    rw [← h] at ha
    exact notMem_remove s a ha
  · intro ha
    exact OrderedSet.ext (elems_remove_of_notMem ha)

omit [DecidableEq α] in
theorem single_eq_iff {s : OrderedSet α} {a : α} :
    single a = s ↔ s.elems = [a] := by
  rw [OrderedSet.ext_iff]
  exact eq_comm

end OrderedSet

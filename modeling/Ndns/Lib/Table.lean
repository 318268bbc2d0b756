import Mathlib.Data.List.Nodup
import Mathlib.Data.List.Perm.Subperm
import Mathlib.Order.Lattice
import Mathlib.Order.Nat
import Mathlib.Tactic.Common

/-!
# Tables with row ids

A table is the list of its rows in the order of their ids.  Ids start at one and
stay below a limit; a new row gets the id behind the largest one, so an id may
come back after the last row has been deleted.

**Results.**
* `eq_of_id`: an id names at most one row;
* `insert_eq_some`, `mem_delete`: the rows after a change;
* `idOf_lastWhere`, `idOf_getLastD_iff`: what a look-up by a test finds.
-/

structure Table (limit : Nat) (α : Type) where
  rows : List (Nat × α)
  sorted : (rows.map Prod.fst).Pairwise (· < ·)
  id_pos : ∀ r ∈ rows, 0 < r.1
  id_lt : ∀ r ∈ rows, r.1 < limit
deriving DecidableEq

namespace Table

variable {limit : Nat} {α : Type}

def empty : Table limit α where
  rows := []
  sorted := List.Pairwise.nil
  id_pos := by simp
  id_lt := by simp

/-- The largest id; zero for an empty table. -/
def lastId (t : Table limit α) : Nat :=
  (t.rows.map Prod.fst).foldr max 0

theorem le_foldr_max {n : Nat} {ns : List Nat} (h : n ∈ ns) :
    n ≤ ns.foldr max 0 := by
  induction ns with
  | nil =>
      simp at h
  | cons m ns ih =>
      rw [List.foldr_cons]
      rcases List.mem_cons.mp h with rfl | h
      · exact le_max_left n _
      · exact le_trans (ih h) (le_max_right m _)

theorem foldr_max_le {m : Nat} {ns : List Nat} (h : ∀ n ∈ ns, n ≤ m) :
    ns.foldr max 0 ≤ m := by
  induction ns with
  | nil =>
      exact Nat.zero_le m
  | cons n ns ih =>
      exact max_le (h n (by simp))
        (ih (fun k hk => h k (List.mem_cons_of_mem n hk)))

theorem le_lastId {t : Table limit α} {r : Nat × α} (h : r ∈ t.rows) :
    r.1 ≤ t.lastId :=
  le_foldr_max (List.mem_map_of_mem h)

theorem ids_nodup (t : Table limit α) : (t.rows.map Prod.fst).Nodup :=
  t.sorted.imp (fun hlt => Nat.ne_of_lt hlt)

/-- An id names at most one row. -/
theorem eq_of_id
    {t : Table limit α} {r s : Nat × α}
    (hr : r ∈ t.rows) (hs : s ∈ t.rows) (h : r.1 = s.1) :
    r = s := by
  exact List.inj_on_of_nodup_map t.ids_nodup hr hs h

theorem rows_nodup (t : Table limit α) : t.rows.Nodup :=
  List.Nodup.of_map Prod.fst t.ids_nodup

/-- There are fewer rows than ids. -/
theorem length_rows_le (t : Table limit α) : t.rows.length ≤ limit := by
  have hsub : t.rows.map Prod.fst ⊆ List.range limit := by
    intro n hn
    obtain ⟨r, hr, rfl⟩ := List.mem_map.mp hn
    exact List.mem_range.mpr (t.id_lt r hr)
  simpa using (t.ids_nodup.subperm hsub).length_le

/-- A row behind the others. -/
def append (t : Table limit α) (a : α) (h : t.lastId + 1 < limit) :
    Table limit α where
  rows := t.rows ++ [(t.lastId + 1, a)]
  sorted := by
    rw [List.map_append, List.pairwise_append]
    refine ⟨t.sorted, List.pairwise_singleton _ _, ?_⟩
    intro n hn m hm
    obtain rfl : m = t.lastId + 1 := by simpa using hm
    exact Nat.lt_succ_of_le (le_foldr_max hn)
  id_pos := by
    intro r hr
    rcases List.mem_append.mp hr with hr | hr
    · exact t.id_pos r hr
    · obtain rfl : r = (t.lastId + 1, a) := by simpa using hr
      exact Nat.succ_pos _
  id_lt := by
    intro r hr
    rcases List.mem_append.mp hr with hr | hr
    · exact t.id_lt r hr
    · obtain rfl : r = (t.lastId + 1, a) := by simpa using hr
      exact h

/-- The id of a new row, and the table with it; `none` if there is no id. -/
def insert (t : Table limit α) (a : α) : Option (Nat × Table limit α) :=
  if h : t.lastId + 1 < limit then some (t.lastId + 1, t.append a h)
  else none

/-- Keep the rows that do not satisfy a test. -/
def delete (t : Table limit α) (p : Nat × α → Bool) : Table limit α where
  rows := t.rows.filter (fun r => ! p r)
  sorted := t.sorted.sublist (List.filter_sublist.map Prod.fst)
  id_pos r hr := t.id_pos r (List.mem_of_mem_filter hr)
  id_lt r hr := t.id_lt r (List.mem_of_mem_filter hr)

@[simp] theorem rows_empty : (empty : Table limit α).rows = [] := rfl

@[simp] theorem rows_delete (t : Table limit α) (p : Nat × α → Bool) :
    (t.delete p).rows = t.rows.filter (fun r => ! p r) := rfl

theorem delete_congr
    {t : Table limit α} {p q : Nat × α → Bool}
    (h : ∀ r ∈ t.rows, p r = q r) :
    t.delete p = t.delete q := by
  simp only [delete, mk.injEq]
  exact List.filter_congr (fun r hr => congrArg not (h r hr))

theorem delete_eq_self
    {t : Table limit α} {p : Nat × α → Bool}
    (h : ∀ r ∈ t.rows, p r = false) :
    t.delete p = t := by
  have hrows : t.rows.filter (fun r => ! p r) = t.rows :=
    List.filter_eq_self.mpr (fun r hr => by simp [h r hr])
  cases t
  simpa [delete] using hrows

theorem mem_delete {t : Table limit α} {p : Nat × α → Bool} {r : Nat × α} :
    r ∈ (t.delete p).rows ↔ r ∈ t.rows ∧ p r = false := by
  simp

theorem lastId_delete_le (t : Table limit α) (p : Nat × α → Bool) :
    (t.delete p).lastId ≤ t.lastId := by
  refine foldr_max_le ?_
  intro n hn
  obtain ⟨r, hr, rfl⟩ := List.mem_map.mp hn
  exact le_lastId (mem_delete.mp hr).1

/-- What an insertion does. -/
theorem insert_eq_some
    {t t' : Table limit α} {a : α} {n : Nat}
    (h : t.insert a = some (n, t')) :
    n = t.lastId + 1 ∧ n < limit ∧ t'.rows = t.rows ++ [(n, a)] := by
  unfold insert at h
  split at h
  · next hlt =>
      obtain ⟨rfl, rfl⟩ := Prod.mk.inj (Option.some.inj h)
      exact ⟨rfl, hlt, rfl⟩
  · simp at h

/-- The row with the largest id comes last. -/
theorem lastId_append
    {t t' : Table limit α} {r : Nat × α} (h : t'.rows = t.rows ++ [r])
    (hlt : ∀ s ∈ t.rows, s.1 < r.1) :
    t'.lastId = r.1 := by
  refine Nat.le_antisymm (foldr_max_le ?_) (le_lastId (by simp [h]))
  intro n hn
  obtain ⟨s, hs, rfl⟩ := List.mem_map.mp hn
  rw [h] at hs
  rcases List.mem_append.mp hs with hs | hs
  · exact Nat.le_of_lt (hlt s hs)
  · rw [List.mem_singleton.mp hs]

/-- An insertion fails if there is no id. -/
theorem insert_eq_none_iff {t : Table limit α} {a : α} :
    t.insert a = none ↔ limit ≤ t.lastId + 1 := by
  unfold insert
  split
  · next h =>
      simp [h]
  · next h =>
      simpa using h

/-- The id of a new row was not in use. -/
theorem insert_fresh
    {t t' : Table limit α} {a : α} {n : Nat}
    (h : t.insert a = some (n, t')) {r : Nat × α} (hr : r ∈ t.rows) :
    r.1 < n := by
  rw [(insert_eq_some h).1]
  exact Nat.lt_succ_of_le (le_lastId hr)

section Lookup

/-- The ids of the rows that satisfy a test, in order. -/
def ids (t : Table limit α) (p : Nat × α → Bool) : List Nat :=
  (t.rows.filter p).map Prod.fst

/-- The last of these ids; zero without one. -/
def lastWhere (t : Table limit α) (p : Nat × α → Bool) : Nat :=
  (t.ids p).getLastD 0

theorem ids_eq_nil_iff
    {t : Table limit α} {p : Nat × α → Bool} :
    t.ids p = [] ↔ ∀ r ∈ t.rows, p r = false := by
  simp [ids]

theorem mem_ids
    {t : Table limit α} {p : Nat × α → Bool} {id : Nat} :
    id ∈ t.ids p ↔ ∃ r ∈ t.rows, p r = true ∧ r.1 = id := by
  constructor
  · intro h
    obtain ⟨r, hr, hid⟩ := List.mem_map.mp h
    obtain ⟨hrow, hp⟩ := List.mem_filter.mp hr
    exact ⟨r, hrow, hp, hid⟩
  · rintro ⟨r, hrow, hp, rfl⟩
    exact List.mem_map_of_mem (List.mem_filter.mpr ⟨hrow, hp⟩)

/-- The last id of all, if there is one, and otherwise a given one. -/
theorem getLastD_ids_mem
    {t : Table limit α} {p : Nat × α → Bool} (h : t.ids p ≠ [])
    (id : Nat) :
    (t.ids p).getLastD id ∈ t.ids p := by
  rw [List.getLastD_eq_getLast?, List.getLast?_eq_some_getLast h]
  exact List.getLast_mem h

theorem exists_of_lastWhere_ne_zero
    {t : Table limit α} {p : Nat × α → Bool} (h : t.lastWhere p ≠ 0) :
    ∃ r ∈ t.rows, r.1 = t.lastWhere p ∧ p r = true := by
  have hne : t.ids p ≠ [] := by
    intro hnil
    exact h (by rw [lastWhere, hnil, List.getLastD_nil])
  obtain ⟨r, hr, hp, hid⟩ := mem_ids.mp (getLastD_ids_mem hne 0)
  exact ⟨r, hr, hid, hp⟩

theorem lastWhere_eq_zero_iff
    {t : Table limit α} {p : Nat × α → Bool} :
    t.lastWhere p = 0 ↔ ∀ r ∈ t.rows, p r = false := by
  rw [← ids_eq_nil_iff]
  constructor
  · intro hzero
    by_contra hne
    obtain ⟨r, hr, -, hid⟩ := mem_ids.mp (getLastD_ids_mem hne 0)
    have hpos := t.id_pos r hr
    rw [hid] at hpos
    exact absurd hzero (Nat.ne_of_gt hpos)
  · intro hnil
    rw [lastWhere, hnil, List.getLastD_nil]

/-- The id of a row that satisfies a test, and zero if there is no row. -/
def IdOf (t : Table limit α) (p : Nat × α → Bool) (id : Nat) : Prop :=
  (∃ r ∈ t.rows, p r = true ∧ r.1 = id) ∨
    (∀ r ∈ t.rows, p r = false) ∧ id = 0

theorem idOf_lastWhere (t : Table limit α) (p : Nat × α → Bool) :
    t.IdOf p (t.lastWhere p) := by
  by_cases hzero : t.lastWhere p = 0
  · exact Or.inr ⟨lastWhere_eq_zero_iff.mp hzero, hzero⟩
  · obtain ⟨r, hr, hid, hp⟩ := exists_of_lastWhere_ne_zero hzero
    exact Or.inl ⟨r, hr, hp, hid⟩

/-- A look-up that starts from an id finds the right one if it finds a row, or
started from zero. -/
theorem idOf_getLastD_iff
    (t : Table limit α) (p : Nat × α → Bool) (id : Nat) :
    t.IdOf p ((t.ids p).getLastD id) ↔
      id = 0 ∨ ∃ r ∈ t.rows, p r = true := by
  by_cases hnil : t.ids p = []
  · have hnone := ids_eq_nil_iff.mp hnil
    rw [hnil, List.getLastD_nil]
    constructor
    · rintro (⟨r, hr, hp, -⟩ | ⟨-, hzero⟩)
      · exact Or.inr ⟨r, hr, hp⟩
      · exact Or.inl hzero
    · rintro (hzero | ⟨r, hr, hp⟩)
      · exact Or.inr ⟨hnone, hzero⟩
      · rw [hnone r hr] at hp
        exact absurd hp (by decide)
  · obtain ⟨r, hr, hp, hid⟩ := mem_ids.mp (getLastD_ids_mem hnil id)
    exact iff_of_true (Or.inl ⟨r, hr, hp, hid⟩) (Or.inr ⟨r, hr, hp⟩)

/-- A new row that satisfies the test is the last one. -/
theorem lastWhere_append
    {t t' : Table limit α} {r : Nat × α} (h : t'.rows = t.rows ++ [r])
    (p : Nat × α → Bool) :
    t'.lastWhere p = if p r = true then r.1 else t.lastWhere p := by
  unfold lastWhere ids
  rw [h, List.filter_append]
  split
  · next hp =>
      rw [List.filter_cons_of_pos hp, List.map_append]
      exact List.getLastD_concat
  · next hp =>
      rw [List.filter_cons_of_neg hp, List.filter_nil, List.append_nil]

/-- New rows that do not satisfy the test leave the last one alone. -/
theorem lastWhere_append_of_not
    {t t' : Table limit α} {rs : List (Nat × α)}
    (h : t'.rows = t.rows ++ rs) {p : Nat × α → Bool}
    (hp : ∀ r ∈ rs, p r = false) :
    t'.lastWhere p = t.lastWhere p := by
  have hnil : rs.filter p = [] := by
    rw [List.filter_eq_nil_iff]
    intro r hr
    simp [hp r hr]
  unfold lastWhere ids
  rw [h, List.filter_append, hnil, List.append_nil]

theorem lastWhere_le_lastId (t : Table limit α) (p : Nat × α → Bool) :
    t.lastWhere p ≤ t.lastId := by
  by_cases hzero : t.lastWhere p = 0
  · omega
  · obtain ⟨r, hr, hid, -⟩ := exists_of_lastWhere_ne_zero hzero
    exact hid ▸ le_lastId hr

end Lookup

end Table

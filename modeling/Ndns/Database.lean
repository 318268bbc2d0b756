import Ndns.Lib.Table
import Ndns.SqlStatement

/-!
# The database

`ndns-db-tables.sql`: three tables with row ids.  The names of zones are unique,
and so are zone id, label, class and type of an rrset together, except that
SQLite takes every missing class for a different one.  Foreign keys are declared
and not enforced.  Before a row is inserted in `rrs`, the trigger `rrs_update`
deletes the rows with the same rrset and the same data.  Data are texts, as every
statement writes them, and a text holds no NUL.

Columns that no statement reads are left out.  The tables are those whose row ids
stay below `2 ^ 31`: the callbacks read ids into an `int`, and SQLite would go on
with ids that an `int` does not hold.
-/

namespace Ndns

/-- Ids that an `int` holds. -/
abbrev rowidLimit : Nat := 2 ^ 31

structure RRSetRow where
  zoneId : Nat
  label : Bytes
  /-- `none` stands for `NULL`. -/
  clazz : Option Bytes
  type : Bytes
deriving DecidableEq

/-- The columns by which an rrset is looked up. -/
def RRSetRow.hasKey (r : RRSetRow) (zoneId : Nat) (label type : Bytes) :
    Bool :=
  r.zoneId = zoneId && r.label = label && r.type = type

structure RRRow where
  rrsetId : Nat
  ttl : Nat
  rrdata : Bytes
deriving DecidableEq

structure Db where
  /-- The names of the zones. -/
  zones : Table rowidLimit Bytes
  rrsets : Table rowidLimit RRSetRow
  rrs : Table rowidLimit RRRow
  zones_unique :
    ∀ r ∈ zones.rows, ∀ s ∈ zones.rows, r.2 = s.2 → r = s
  rrsets_unique :
    ∀ r ∈ rrsets.rows, ∀ s ∈ rrsets.rows,
      r.2.clazz ≠ none → r.2 = s.2 → r = s
  rrs_text : ∀ r ∈ rrs.rows, (0 : UInt8) ∉ r.2.rrdata
deriving DecidableEq

/-- A row of a result, as texts. -/
abbrev Row := List Bytes

/-- What a statement that was executed leaves. -/
structure Result where
  rows : List Row
  db : Db
  /-- The id of a row that was inserted. -/
  rowid : Option Nat

namespace Db

def empty : Db where
  zones := .empty
  rrsets := .empty
  rrs := .empty
  zones_unique := by simp
  rrsets_unique := by simp
  rrs_text := by simp

/-- A result without rows in a database that stays as it is. -/
def unchanged (db : Db) (rows : List Row) : Result where
  rows := rows
  db := db
  rowid := none

/-- Ids as the rows of a result. -/
def idRows (ids : List Nat) : List Row :=
  ids.map (fun n => [decimal n])

/-- Keep the RRs that do not satisfy a test. -/
def deleteWhere (db : Db) (p : Nat × RRRow → Bool) : Db :=
  { db with
    rrs := db.rrs.delete p
    rrs_text := fun r hr => db.rrs_text r (List.mem_of_mem_filter hr) }

theorem unique_append
    {limit : Nat} {α : Type} {t t' : Table limit α} {a : α} {n : Nat}
    {c : α → Prop}
    (h : ∀ r ∈ t.rows, ∀ s ∈ t.rows, c r.2 → r.2 = s.2 → r = s)
    (hnew : ∀ r ∈ t.rows, c r.2 → r.2 ≠ a)
    (hrows : t'.rows = t.rows ++ [(n, a)]) :
    ∀ r ∈ t'.rows, ∀ s ∈ t'.rows, c r.2 → r.2 = s.2 → r = s := by
  intro r hr s hs hc heq
  simp only [hrows, List.mem_append, List.mem_singleton] at hr hs
  rcases hr with hr | rfl
  · rcases hs with hs | rfl
    · exact h r hr s hs hc heq
    · exact absurd heq (hnew r hr hc)
  · rcases hs with hs | rfl
    · exact absurd heq.symm (hnew s hs (heq ▸ hc))
    · rfl

/-- `INSERT INTO zones` -/
def insertZone (db : Db) (name : Bytes) : Option (Nat × Db) :=
  if hnew : ∃ r ∈ db.zones.rows, r.2 = name then none
  else
    match h : db.zones.insert name with
    | none => none
    | some (n, zones) =>
        some (n, { db with
          zones := zones
          zones_unique := by
            have hu := unique_append (c := fun _ => True)
              (fun r hr s hs _ => db.zones_unique r hr s hs)
              (fun r hr _ heq => hnew ⟨r, hr, heq⟩)
              (Table.insert_eq_some h).2.2
            exact fun r hr s hs => hu r hr s hs trivial })

/-- `INSERT INTO rrsets`, with a class. -/
def insertRrset (db : Db) (row : RRSetRow) : Option (Nat × Db) :=
  if hnew : ∃ r ∈ db.rrsets.rows, r.2 = row ∧ r.2.clazz ≠ none then none
  else
    match h : db.rrsets.insert row with
    | none => none
    | some (n, rrsets) =>
        some (n, { db with
          rrsets := rrsets
          rrsets_unique :=
            unique_append (c := fun r => r.clazz ≠ none) db.rrsets_unique
              (fun r hr hc heq => hnew ⟨r, hr, heq, hc⟩)
              (Table.insert_eq_some h).2.2 })

/-- The trigger `rrs_update`. -/
def rrsUpdate (db : Db) (row : RRRow) : Db :=
  db.deleteWhere (fun r =>
    r.2.rrsetId = row.rrsetId && r.2.rrdata = row.rrdata)

/-- `INSERT INTO rrs`, behind the trigger. -/
def insertRr (db : Db) (row : RRRow) : Option (Nat × Db) :=
  if htext : (0 : UInt8) ∈ row.rrdata then none
  else
    match h : (db.rrsUpdate row).rrs.insert row with
    | none => none
    | some (n, rrs) =>
        some (n, { db with
          rrs := rrs
          rrs_text := by
            intro r hr
            rw [(Table.insert_eq_some h).2.2] at hr
            rcases List.mem_append.mp hr with hr | hr
            · exact (db.rrsUpdate row).rrs_text r hr
            · rw [List.mem_singleton.mp hr]
              exact htext })

/-- `DELETE FROM rrs` by the id of the row. -/
def deleteRr (db : Db) (id : Nat) : Db :=
  db.deleteWhere (fun r => r.1 = id)

/-- `DELETE FROM rrs` by the id of the rrset. -/
def deleteRrs (db : Db) (rrsetId : Nat) : Db :=
  db.deleteWhere (fun r => r.2.rrsetId = rrsetId)

/-- The ids of the rrsets that are looked up by zone, label and type. -/
def rrsetIds (db : Db) (zoneId : Nat) (label type : Bytes) : List Nat :=
  db.rrsets.ids (fun r => r.2.hasKey zoneId label type)

/-- The ids of the rows of an rrset with these data. -/
def rrIds (db : Db) (rrsetId : Nat) (rrdata : Bytes) : List Nat :=
  db.rrs.ids (fun r => r.2.rrsetId = rrsetId && r.2.rrdata = rrdata)

/-- The rrset that a look-up by zone, label and type ends with; zero without
one. -/
def rrsetId (db : Db) (zoneId : Nat) (label type : Bytes) : Nat :=
  db.rrsets.lastWhere (fun r => r.2.hasKey zoneId label type)

/-- The row that a look-up by rrset and data ends with; zero without one. -/
def rrId (db : Db) (rrsetId : Nat) (rrdata : Bytes) : Nat :=
  db.rrs.lastWhere (fun r =>
    r.2.rrsetId = rrsetId && r.2.rrdata = rrdata)

/-- The rows of an rrset in the order of their ids. -/
def rrRows (db : Db) (rrsetId : Nat) : List (Nat × RRRow) :=
  db.rrs.rows.filter (fun r => r.2.rrsetId = rrsetId)

section Facts

variable {db db' : Db}

theorem insertRr_eq_some
    {row : RRRow} {m : Nat}
    (h : db.insertRr row = some (m, db')) :
    db'.zones = db.zones ∧ db'.rrsets = db.rrsets ∧
      db'.rrs.rows =
        db.rrs.rows.filter (fun r =>
          ! (r.2.rrsetId = row.rrsetId && r.2.rrdata = row.rrdata)) ++
            [(m, row)] := by
  unfold insertRr at h
  split at h
  · simp at h
  · split at h
    · simp at h
    · next n rrs hins =>
        obtain ⟨rfl, rfl⟩ := Prod.mk.inj (Option.some.inj h)
        exact ⟨rfl, rfl, (Table.insert_eq_some hins).2.2⟩

theorem insertRrset_eq_some
    {row : RRSetRow} {n : Nat}
    (h : db.insertRrset row = some (n, db')) :
    db'.zones = db.zones ∧ db'.rrs = db.rrs ∧
      db'.rrsets.rows = db.rrsets.rows ++ [(n, row)] ∧
      (∀ r ∈ db.rrsets.rows, r.1 < n) ∧ 0 < n ∧
      (row.clazz ≠ none → ∀ r ∈ db.rrsets.rows, r.2 ≠ row) := by
  unfold insertRrset at h
  split at h
  · simp at h
  · next hnew =>
      split at h
      · simp at h
      · next n' rrsets hins =>
          obtain ⟨rfl, rfl⟩ := Prod.mk.inj (Option.some.inj h)
          obtain ⟨hn, -, hrows⟩ := Table.insert_eq_some hins
          refine ⟨rfl, rfl, hrows, fun r hr => Table.insert_fresh hins hr,
            by omega, fun hc r hr heq => ?_⟩
          exact hnew ⟨r, hr, heq, heq ▸ hc⟩

theorem insertRrset_id
    {row : RRSetRow} {n : Nat}
    (h : db.insertRrset row = some (n, db')) :
    n = db.rrsets.lastId + 1 := by
  unfold insertRrset at h
  split at h
  · simp at h
  · split at h
    · simp at h
    · next n' rrsets hins =>
        obtain ⟨rfl, -⟩ := Prod.mk.inj (Option.some.inj h)
        exact (Table.insert_eq_some hins).1

theorem insertZone_eq_some
    {name : Bytes} {n : Nat}
    (h : db.insertZone name = some (n, db')) :
    db'.rrs = db.rrs ∧ db'.rrsets = db.rrsets ∧
      db'.zones.rows = db.zones.rows ++ [(n, name)] ∧
      (∀ r ∈ db.zones.rows, r.1 < n) ∧ 0 < n := by
  unfold insertZone at h
  split at h
  · simp at h
  · split at h
    · simp at h
    · next n' zones hins =>
        obtain ⟨rfl, rfl⟩ := Prod.mk.inj (Option.some.inj h)
        obtain ⟨hn, -, hrows⟩ := Table.insert_eq_some hins
        exact ⟨rfl, rfl, hrows, fun r hr => Table.insert_fresh hins hr,
          by omega⟩

/-- No id is left below the limit. -/
def Full (db : Db) : Prop :=
  rowidLimit ≤ db.rrsets.lastId + 1 ∨ rowidLimit ≤ db.rrs.lastId + 1

instance (db : Db) : Decidable db.Full :=
  inferInstanceAs (Decidable (_ ∨ _))

theorem full_of_insertRr
    {row : RRRow}
    (htext : (0 : UInt8) ∉ row.rrdata) (h : db.insertRr row = none) :
    rowidLimit ≤ db.rrs.lastId + 1 := by
  unfold insertRr at h
  rw [dif_neg htext] at h
  split at h
  · next hnone =>
      have hfull := Table.insert_eq_none_iff.mp hnone
      have hle : (db.rrsUpdate row).rrs.lastId ≤ db.rrs.lastId :=
        db.rrs.lastId_delete_le _
      omega
  · simp at h

theorem full_of_insertRrset
    {row : RRSetRow} (hnew : ∀ r ∈ db.rrsets.rows, r.2 ≠ row)
    (h : db.insertRrset row = none) :
    rowidLimit ≤ db.rrsets.lastId + 1 := by
  unfold insertRrset at h
  rw [dif_neg (fun ⟨r, hr, heq, _⟩ => hnew r hr heq)] at h
  split at h
  · next hnone =>
      exact Table.insert_eq_none_iff.mp hnone
  · simp at h

theorem deleteRr_congr
    {id id' : Nat} (h : ∀ r ∈ db.rrs.rows, r.1 = id ↔ r.1 = id') :
    db.deleteRr id = db.deleteRr id' := by
  simp only [deleteRr, deleteWhere, mk.injEq, true_and]
  exact Table.delete_congr (fun r hr => decide_eq_decide.mpr (h r hr))

/-- No row has the id zero. -/
@[simp] theorem deleteRr_zero (db : Db) : db.deleteRr 0 = db := by
  have hrrs : db.rrs.delete (fun r => r.1 = 0) = db.rrs := by
    refine Table.delete_eq_self (fun r hr => decide_eq_false ?_)
    exact Nat.pos_iff_ne_zero.mp (db.rrs.id_pos r hr)
  cases db
  simpa [deleteRr, deleteWhere] using hrrs

@[simp] theorem rows_deleteRr (db : Db) (id : Nat) :
    (db.deleteRr id).rrs.rows =
      db.rrs.rows.filter (fun r => ! decide (r.1 = id)) := rfl

@[simp] theorem rows_deleteRrs (db : Db) (rrsetId : Nat) :
    (db.deleteRrs rrsetId).rrs.rows =
      db.rrs.rows.filter (fun r => ! decide (r.2.rrsetId = rrsetId)) := rfl

theorem exists_rrset
    {zoneId : Nat} {label type : Bytes}
    (h : db.rrsetId zoneId label type ≠ 0) :
    ∃ r ∈ db.rrsets.rows, r.1 = db.rrsetId zoneId label type ∧
      r.2.hasKey zoneId label type = true :=
  Table.exists_of_lastWhere_ne_zero h

theorem rrsetId_eq_zero_iff {zoneId : Nat} {label type : Bytes} :
    db.rrsetId zoneId label type = 0 ↔
      ∀ r ∈ db.rrsets.rows, r.2.hasKey zoneId label type = false :=
  Table.lastWhere_eq_zero_iff

theorem exists_rr
    {rrsetId : Nat} {rrdata : Bytes} (h : db.rrId rrsetId rrdata ≠ 0) :
    ∃ r ∈ db.rrs.rows, r.1 = db.rrId rrsetId rrdata ∧
      r.2.rrsetId = rrsetId ∧ r.2.rrdata = rrdata := by
  obtain ⟨r, hr, hid, hp⟩ := Table.exists_of_lastWhere_ne_zero h
  exact ⟨r, hr, hid, by simpa using hp⟩

theorem rrId_eq_zero_iff {rrsetId : Nat} {rrdata : Bytes} :
    db.rrId rrsetId rrdata = 0 ↔
      ∀ r ∈ db.rrs.rows, r.2.rrsetId = rrsetId → r.2.rrdata ≠ rrdata := by
  rw [rrId, Table.lastWhere_eq_zero_iff]
  simp

end Facts

end Db

/-- Letters in lower case. -/
def lower (b : UInt8) : UInt8 :=
  if 65 ≤ b && b ≤ 90 then b + 32 else b

/-- A byte inside a UTF-8 character. -/
def isInner (b : UInt8) : Bool :=
  128 ≤ b && b < 192

/-- The text behind its first UTF-8 character. -/
def afterChar : Bytes → Bytes
  | [] => []
  | b :: s => if 192 ≤ b then s.dropWhile isInner else s

/-- `LIKE`: `%` stands for any text and `_` for any character, letters match in
either case. -/
def like : Bytes → Bytes → Bool
  | [], s => s.isEmpty
  | p :: ps, s =>
      if p = 37 then
        (List.range (s.length + 1)).any (fun n => like ps (afterChar^[n] s))
      else
        match s with
        | [] => false
        | b :: s =>
            if p = 95 then like ps (afterChar (b :: s))
            else lower p = lower b && like ps s

namespace Stmt

/-- What SQLite does with a statement; `none` for a constraint that fails or a
table that is full. -/
def run (db : Db) : Stmt → Option Result
  | selectZoneId name =>
      some (db.unchanged (Db.idRows
        (db.zones.ids (fun r => r.2 = name.toUri))))
  | insertZone name =>
      (db.insertZone name.toUri).map (fun (n, db) => ⟨[], db, some n⟩)
  | selectRrsetId zoneId label type =>
      some (db.unchanged (Db.idRows
        (db.rrsetIds zoneId label.toUri type.toString)))
  | insertRrset zoneId label clazz type =>
      (db.insertRrset ⟨zoneId, label.toUri, some clazz,
        type.toString⟩).map (fun (n, db) => ⟨[], db, some n⟩)
  | deleteRrs rrsetId => some ⟨[], db.deleteRrs rrsetId, none⟩
  | selectRrId rrsetId rrData =>
      some (db.unchanged (Db.idRows (db.rrIds rrsetId rrData)))
  | insertRr rrsetId ttl rrData =>
      (db.insertRr ⟨rrsetId, ttl, rrData⟩).map
        (fun (n, db) => ⟨[], db, some n⟩)
  | deleteRr id => some ⟨[], db.deleteRr id, none⟩
  | selectRrs rrsetId =>
      some (db.unchanged ((db.rrRows rrsetId).map
        (fun r => [decimal r.1, decimal r.2.ttl, r.2.rrdata])))
  | countAuth zoneId type label =>
      some (db.unchanged [[decimal
        (db.rrs.rows.countP (fun r =>
          db.rrsets.rows.any (fun s =>
            s.1 = r.2.rrsetId && s.2.zoneId = zoneId &&
              s.2.type = type.toString &&
              like (label.toUri ++ ascii "/%") s.2.label)))]])

end Stmt

end Ndns

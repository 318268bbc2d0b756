import Ndns.Database
import Ndns.Lib.Effect

/-!
# The managers of the tables

`db-mgr.cpp`, `zone-mgr.cpp`, `rrset-mgr.cpp` and `rr-mgr.cpp`.  A manager sends
one statement at a time; what fails is thrown, and what was executed before
stays.  A text that is not lexed as the statement it is meant to be is left to
SQLite, which is a parameter, and so is which statements fail.

**Results.**
* `Stmt.Tame.lexes`: data without quotes leave a statement what it is meant to be;
* `executeOnly_triple`: all that such a statement can do;
* `executeOnly_ok`: what it does if it does not fail.
-/

namespace Ndns

/-- What SQLite does beyond the statements it is meant to execute. -/
structure Sqlite where
  /-- Whether a statement fails, given how many were executed before it: the
  database may be locked or out of memory. -/
  fails : Nat → Bool
  /-- What another text does: the database behind it, and the rows and the last
  row id unless an error is returned. -/
  foreign : List Sql.Item → Db → Db × Option (List Row × Nat)
  /-- `err_msg` -/
  errMsg : Bytes → Bytes

/-- The database and its connection. -/
structure Disk where
  db : Db
  /-- The number of statements that were executed. -/
  executed : Nat
  /-- `sqlite3_last_insert_rowid` -/
  lastInsertRowid : Nat
deriving DecidableEq

/-- Computations on the database; an error carries the text of its `what()`. -/
abbrev DbM := EStateM Bytes Disk

variable (S : Sqlite)

/-- What `executeOnly` throws. -/
def sqlError (stmt : Stmt) : Bytes :=
  ascii "execute SQL=[" ++ stmt.text ++ ascii "] and returns error:" ++
    S.errMsg stmt.text

/-- One more statement was executed. -/
def Disk.next (disk : Disk) : Disk :=
  { disk with executed := disk.executed + 1 }

/-- `DBMgr::executeOnly`, on an open connection. -/
def executeOnly (stmt : Stmt) : DbM (List Row) := fun disk =>
  let msg := sqlError S stmt
  let disk' := disk.next
  if S.fails disk.executed then .error msg disk'
  else
    match Sql.lex .code (Sql.cString stmt.text) with
    | none =>
        -- what is complete in front of the end has been executed
        let items := Sql.scan .code (Sql.cString stmt.text)
        .error msg { disk' with
          db := if .semicolon ∈ items then (S.foreign items disk.db).1
            else disk.db }
    | some items =>
        if items = stmt.shape.flatMap Sql.Piece.items then
          match stmt.run disk.db with
          | none => .error msg disk'
          | some r => .ok r.rows { disk' with
              db := r.db
              lastInsertRowid := r.rowid.getD disk.lastInsertRowid }
        else
          match S.foreign items disk.db with
          | (db, none) => .error msg { disk' with db := db }
          | (db, some (rows, rowid)) => .ok rows { disk' with
              db := db
              lastInsertRowid := rowid }

/-- An insertion with `sqlite3_last_insert_rowid` behind it. -/
def executeInsert (stmt : Stmt) : DbM Nat := do
  let _ ← executeOnly S stmt
  let disk ← get
  return disk.lastInsertRowid

/-- `DBMgr::callback_getInt`, called for every row, on an int that was zero. -/
def tempInt (rows : List Row) : Nat :=
  rows.foldl (fun _ row => atoi (row.headD [])) 0

/-- `Name(const std::string&)`; the text of its error is left out. -/
def nameOfUri (P : NameParser) (uri : Bytes) : DbM Name :=
  match P.ofUri uri with
  | none => throw []
  | some name => return name

@[simp] theorem nameOfUri_toUri (P : NameParser) (n : Name) :
    nameOfUri P n.toUri = pure n := by
  rw [nameOfUri, P.ofUri_toUri]

namespace ZoneMgr

/-- `ZoneMgr::lookupId`: the zone, and the number of results. -/
def lookupId (zone : Zone) : DbM (Zone × Nat) := do
  let rows ← executeOnly S (.selectZoneId zone.authorizedName)
  return ({ zone with
    id := rows.foldl (fun _ row => atoi (row.headD [])) zone.id },
      rows.length)

/-- `ZoneMgr::insert` -/
def insert (zone : Zone) : DbM Zone := do
  let id ← executeInsert S (.insertZone zone.authorizedName)
  return { zone with id := id }

end ZoneMgr

/-! The managers of rrsets and RRs hold lists; these are the bodies of their
loops. -/

namespace RRSetMgr

/-- `RRSetMgr::lookupIds` -/
def lookupIds (rrset : RRSet) : DbM RRSet := do
  let rows ← executeOnly S
    (.selectRrsetId rrset.zone.id rrset.label rrset.type)
  return { rrset with id := tempInt rows }

/-- `RRSetMgr::insert` -/
def insert (rrset : RRSet) : DbM RRSet := do
  let id ← executeInsert S
    (.insertRrset rrset.zone.id rrset.label rrset.clazz rrset.type)
  return { rrset with id := id }

/-- `RRSetMgr::removeRelatedRRs` -/
def removeRelatedRRs (rrset : RRSet) : DbM Unit := do
  let _ ← executeOnly S (.deleteRrs rrset.id)

end RRSetMgr

namespace RRMgr

/-- `RRMgr::lookupIds`: without the ids of zone and rrset the RR keeps the id it
has. -/
def lookupIds (rr : RR) : DbM RR := do
  if rr.rrset.zone.id = 0 ∨ rr.rrset.id = 0 then return rr
  else
    let rows ← executeOnly S (.selectRrId rr.rrset.id rr.rrData)
    return { rr with id := tempInt rows }

/-- `RRMgr::remove` -/
def remove (rr : RR) : DbM Unit := do
  let _ ← executeOnly S (.deleteRr rr.id)

/-- `RRMgr::insert` -/
def insert (rr : RR) : DbM RR := do
  let id ← executeInsert S (.insertRr rr.rrset.id rr.ttl rr.rrData)
  return { rr with id := id }

end RRMgr

section Execution

/-- No quotes in data and class, and no NUL in the class. -/
def Stmt.Tame : Stmt → Prop
  | .insertRrset _ _ clazz _ => Stmt.CleanText clazz
  | .selectRrId _ rrData => (39 : UInt8) ∉ rrData
  | .insertRr _ _ rrData => (39 : UInt8) ∉ rrData
  | _ => True

/-- A statement without quotes is lexed as it is meant, or not at all, and then no
other statement is complete in its text. -/
theorem Stmt.Tame.lexes
    {stmt : Stmt} (h : stmt.Tame) :
    stmt.Clean ∨ Sql.lex .code (Sql.cString stmt.text) = none ∧
      Sql.Item.semicolon ∉ Sql.scan .code (Sql.cString stmt.text) := by
  have hshape := Stmt.wellShaped_shape stmt
  rw [← Stmt.raw_shape]
  cases stmt with
  | selectRrId rrsetId rrData =>
      by_cases hzero : (0 : UInt8) ∈ rrData
      · exact Or.inr ⟨Sql.lex_unterminated hshape h hzero,
          Sql.semicolon_notMem_scan hshape h hzero⟩
      · exact Or.inl ⟨h, hzero⟩
  | insertRr rrsetId ttl rrData =>
      by_cases hzero : (0 : UInt8) ∈ rrData
      · exact Or.inr ⟨Sql.lex_unterminated hshape h hzero,
          Sql.semicolon_notMem_scan hshape h hzero⟩
      · exact Or.inl ⟨h, hzero⟩
  | insertRrset zoneId label clazz type =>
      exact Or.inl h
  | _ =>
      exact Or.inl trivial

/-- The state behind a statement that was executed. -/
def Result.disk (r : Result) (disk : Disk) : Disk :=
  { disk.next with
    db := r.db
    lastInsertRowid := r.rowid.getD disk.lastInsertRowid }

/-- What a statement does that does not fail. -/
theorem executeOnly_ok
    {stmt : Stmt} {disk : Disk} {r : Result}
    (hclean : stmt.Clean) (hfails : S.fails disk.executed = false)
    (hr : stmt.run disk.db = some r) :
    (executeOnly S stmt).run disk = .ok r.rows (r.disk disk) := by
  have hlex : Sql.lex .code (Sql.cString stmt.text) =
      some (stmt.shape.flatMap Sql.Piece.items) :=
    hclean.lexes
  simp [EStateM.run, executeOnly, hfails, hlex, hr, Result.disk]

/-- Why a statement without quotes fails. -/
def Fails (stmt : Stmt) (disk : Disk) : Prop :=
  S.fails disk.executed = true ∨ ¬ stmt.Clean ∨ stmt.run disk.db = none

/-- A statement fails and changes nothing, or does what it is meant to do. -/
theorem executeOnly_triple
    {stmt : Stmt} (h : stmt.Tame) (disk : Disk) :
    Effect.Triple (· = disk) (executeOnly S stmt)
      (fun rows d => S.fails disk.executed = false ∧
        ∃ r, stmt.run disk.db = some r ∧ rows = r.rows ∧ d = r.disk disk)
      (fun d => d = disk.next ∧ Fails S stmt disk) := by
  intro s hs
  obtain rfl : disk = s := hs.symm
  cases hfails : S.fails disk.executed with
  | true =>
      simp [EStateM.run, executeOnly, hfails, Fails]
  | false =>
      rcases h.lexes with hclean | ⟨hnone, hfront⟩
      · have hlex : Sql.lex .code (Sql.cString stmt.text) =
            some (stmt.shape.flatMap Sql.Piece.items) :=
          hclean.lexes
        cases hr : stmt.run disk.db with
        | none =>
            simp [EStateM.run, executeOnly, hfails, hlex, hr, Fails]
        | some r =>
            simp [EStateM.run, executeOnly, hfails, hlex, hr, Result.disk]
      · have hclean : ¬ stmt.Clean := by
          intro hclean
          have hlex : Sql.lex .code (Sql.cString stmt.text) =
              some (stmt.shape.flatMap Sql.Piece.items) :=
            hclean.lexes
          simp [hnone] at hlex
        simp [EStateM.run, executeOnly, hfails, hnone, hfront, Fails, hclean]
        rfl

end Execution

section Managers

/-- Ids of 32 bits are read as they are. -/
theorem foldl_idRows
    {ids : List Nat} (h : ∀ m ∈ ids, m < 2 ^ 32) (n : Nat) :
    (Db.idRows ids).foldl (fun _ row => atoi (row.headD [])) n =
      ids.getLastD n := by
  induction ids generalizing n with
  | nil =>
      rfl
  | cons m ids ih =>
      obtain ⟨hm, hids⟩ := List.forall_mem_cons.mp h
      rw [List.getLastD_cons, ← ih hids]
      simp [Db.idRows, atoi_decimal hm]

theorem tempInt_idRows {ids : List Nat} (h : ∀ m ∈ ids, m < 2 ^ 32) :
    tempInt (Db.idRows ids) = ids.getLastD 0 :=
  foldl_idRows h 0

/-- The ids of a table are of 32 bits. -/
theorem id_lt_of_mem_ids
    {α : Type} {t : Table rowidLimit α} {p : Nat × α → Bool} :
    ∀ m ∈ t.ids p, m < 2 ^ 32 := by
  intro m hm
  obtain ⟨r, hr, -, rfl⟩ := Table.mem_ids.mp hm
  exact lt_trans (t.id_lt r hr) (by decide)

/-- The ids of the zones with a name. -/
def Db.zoneIds (db : Db) (name : Name) : List Nat :=
  db.zones.ids (fun r => r.2 = name.toUri)

/-- What the callbacks read from the rows of a look-up. -/
theorem foldl_zoneIds (db : Db) (name : Name) (n : Nat) :
    (Db.idRows (db.zoneIds name)).foldl
        (fun _ row => atoi (row.headD [])) n =
      (db.zoneIds name).getLastD n :=
  foldl_idRows id_lt_of_mem_ids n

theorem tempInt_rrsetIds (db : Db) (zoneId : Nat) (label type : Bytes) :
    tempInt (Db.idRows (db.rrsetIds zoneId label type)) =
      db.rrsetId zoneId label type :=
  tempInt_idRows id_lt_of_mem_ids

theorem tempInt_rrIds (db : Db) (rrsetId : Nat) (rrData : Bytes) :
    tempInt (Db.idRows (db.rrIds rrsetId rrData)) =
      db.rrId rrsetId rrData :=
  tempInt_idRows id_lt_of_mem_ids

/-- A zone that is found has the id that is read. -/
theorem Db.exists_zone
    {db : Db} {name : Name} (h : (db.zoneIds name).length ≠ 0) (n : Nat) :
    ∃ z ∈ db.zones.rows, z.2 = name.toUri ∧
      z.1 = (db.zoneIds name).getLastD n := by
  have hne : db.zoneIds name ≠ [] := by
    rintro hnil
    simp [hnil] at h
  rw [List.getLastD_eq_getLast?, List.getLast?_eq_some_getLast hne,
    Option.getD_some]
  obtain ⟨z, hz, hid⟩ := List.mem_map.mp (List.getLast_mem hne)
  obtain ⟨hz, hname⟩ := List.mem_filter.mp hz
  exact ⟨z, hz, by simpa using hname, hid⟩

/-- A look-up of a zone changes nothing. -/
theorem ZoneMgr.lookupId_triple (zone : Zone) (disk : Disk) :
    Effect.Triple (· = disk) (ZoneMgr.lookupId S zone)
      (fun x d => d = disk.next ∧
        x = ({ zone with
            id := (disk.db.zoneIds zone.authorizedName).getLastD zone.id },
          (disk.db.zoneIds zone.authorizedName).length))
      (fun d => d = disk.next) := by
  unfold ZoneMgr.lookupId
  refine Effect.Triple.bind
    ((executeOnly_triple S (by trivial) disk).conseq (fun _ h => h)
      (fun _ _ h => h) (fun _ h => h.1)) (fun rows => ?_)
  refine Effect.triple_pure ?_
  rintro d ⟨-, r, hr, rfl, rfl⟩
  simp only [Stmt.run, Option.some.injEq] at hr
  subst hr
  refine ⟨rfl, ?_⟩
  rw [Db.unchanged, ← Db.zoneIds, foldl_zoneIds, Db.idRows, List.length_map]

/-- A look-up of an rrset changes nothing. -/
theorem RRSetMgr.lookupIds_triple (rrset : RRSet) (disk : Disk) :
    Effect.Triple (· = disk) (RRSetMgr.lookupIds S rrset)
      (fun x d =>
        x = { rrset with
          id := disk.db.rrsetId rrset.zone.id rrset.label.toUri
            rrset.type.toString } ∧
          d = disk.next ∧ S.fails disk.executed = false)
      (fun d => d = disk.next ∧ S.fails disk.executed = true) := by
  unfold RRSetMgr.lookupIds
  refine Effect.Triple.bind
    ((executeOnly_triple S (by trivial) disk).conseq (fun _ h => h)
      (fun _ _ h => h) ?_) ?_
  · rintro d ⟨hd, hfails | hclean | hrun⟩
    · exact ⟨hd, hfails⟩
    · exact absurd trivial hclean
    · simp [Stmt.run] at hrun
  · intro rows
    refine Effect.triple_pure ?_
    rintro d ⟨hfails, r, hr, rfl, rfl⟩
    simp only [Stmt.run, Option.some.injEq] at hr
    subst hr
    exact ⟨by rw [Db.unchanged, tempInt_rrsetIds], rfl, hfails⟩

/-- The id of an RR behind its look-up. -/
def RRMgr.foundId (db : Db) (rr : RR) : Nat :=
  if rr.rrset.zone.id = 0 ∨ rr.rrset.id = 0 then rr.id
  else db.rrId rr.rrset.id rr.rrData

/-- A look-up of an RR changes nothing. -/
theorem RRMgr.lookupIds_triple
    (rr : RR) (hquote : (39 : UInt8) ∉ rr.rrData) (disk : Disk) :
    Effect.Triple (· = disk) (RRMgr.lookupIds S rr)
      (fun x d =>
        x = { rr with id := RRMgr.foundId disk.db rr } ∧
          d.db = disk.db ∧
          (rr.rrset.zone.id = 0 ∨ rr.rrset.id = 0 → d = disk))
      (fun d => d.db = disk.db ∧
        (S.fails disk.executed = true ∨ (0 : UInt8) ∈ rr.rrData)) := by
  unfold RRMgr.lookupIds
  by_cases hskip : rr.rrset.zone.id = 0 ∨ rr.rrset.id = 0
  · simp only [if_pos hskip]
    refine Effect.triple_pure ?_
    rintro d rfl
    exact ⟨by simp [RRMgr.foundId, hskip], rfl, fun _ => rfl⟩
  · simp only [if_neg hskip]
    refine Effect.Triple.bind
      ((executeOnly_triple S
        (show (Stmt.selectRrId rr.rrset.id rr.rrData).Tame from hquote)
          disk).conseq (fun _ h => h) (fun _ _ h => h) ?_) ?_
    · rintro d ⟨rfl, hfails | hclean | hrun⟩
      · exact ⟨rfl, Or.inl hfails⟩
      · refine ⟨rfl, Or.inr ?_⟩
        by_contra hzero
        exact hclean ⟨hquote, hzero⟩
      · simp [Stmt.run] at hrun
    · intro rows
      refine Effect.triple_pure ?_
      rintro d ⟨hfails, r, hr, rfl, rfl⟩
      simp only [Stmt.run, Option.some.injEq] at hr
      subst hr
      refine ⟨?_, rfl, fun h => absurd h hskip⟩
      rw [Db.unchanged, tempInt_rrIds, RRMgr.foundId, if_neg hskip]

/-- An insertion hands back the id of the new row. -/
theorem executeInsert_triple
    {stmt : Stmt} (h : stmt.Tame) {f : Db → Option (Nat × Db)}
    (hrun : ∀ db, stmt.run db =
      (f db).map (fun (n, db) => ⟨[], db, some n⟩)) (disk : Disk) :
    Effect.Triple (· = disk) (executeInsert S stmt)
      (fun n d => f disk.db = some (n, d.db))
      (fun d => d.db = disk.db ∧
        (S.fails disk.executed = true ∨ ¬ stmt.Clean ∨
          f disk.db = none)) := by
  unfold executeInsert
  refine Effect.Triple.bind
    ((executeOnly_triple S h disk).conseq (fun _ h => h)
      (fun _ _ h => h) ?_) ?_
  · rintro d ⟨rfl, hfails | hclean | hnone⟩
    · exact ⟨rfl, Or.inl hfails⟩
    · exact ⟨rfl, Or.inr (Or.inl hclean)⟩
    · rw [hrun, Option.map_eq_none_iff] at hnone
      exact ⟨rfl, Or.inr (Or.inr hnone)⟩
  · rintro rows d ⟨hfails, r, hr, rfl, rfl⟩
    rw [hrun] at hr
    obtain ⟨⟨n, db⟩, hf, rfl⟩ := Option.map_eq_some_iff.mp hr
    exact hf

theorem ZoneMgr.insert_triple (zone : Zone) (disk : Disk) :
    Effect.Triple (· = disk) (ZoneMgr.insert S zone)
      (fun x d => ∃ n, x = { zone with id := n } ∧
        disk.db.insertZone zone.authorizedName.toUri = some (n, d.db))
      (fun d => d.db = disk.db) := by
  have h := executeInsert_triple S
    (show (Stmt.insertZone zone.authorizedName).Tame from trivial)
    (f := fun db => db.insertZone zone.authorizedName.toUri)
    (fun db => rfl) disk
  unfold ZoneMgr.insert
  refine Effect.Triple.bind
    (h.conseq (fun _ h => h) (fun _ _ h => h) (fun _ h => h.1))
    (fun n => Effect.triple_pure ?_)
  intro d hd
  exact ⟨n, rfl, hd⟩

/-- The row that `RRSetMgr::insert` inserts. -/
def RRSetMgr.row (rrset : RRSet) : RRSetRow where
  zoneId := rrset.zone.id
  label := rrset.label.toUri
  clazz := some rrset.clazz
  type := rrset.type.toString

theorem RRSetMgr.insert_triple
    (rrset : RRSet) (hclass : Stmt.CleanText rrset.clazz) (disk : Disk) :
    Effect.Triple (· = disk) (RRSetMgr.insert S rrset)
      (fun x d => ∃ n, x = { rrset with id := n } ∧
        disk.db.insertRrset (RRSetMgr.row rrset) = some (n, d.db))
      (fun d => d.db = disk.db ∧ (S.fails disk.executed = true ∨
        disk.db.insertRrset (RRSetMgr.row rrset) = none)) := by
  have h := executeInsert_triple S
    (show (Stmt.insertRrset rrset.zone.id rrset.label rrset.clazz
      rrset.type).Tame from hclass)
    (f := fun db => db.insertRrset (RRSetMgr.row rrset))
    (fun db => rfl) disk
  unfold RRSetMgr.insert
  refine Effect.Triple.bind (h.conseq (fun _ h => h) (fun _ _ h => h) ?_) ?_
  · rintro d ⟨hd, hfails | hclean | hnone⟩
    · exact ⟨hd, Or.inl hfails⟩
    · exact absurd hclass hclean
    · exact ⟨hd, Or.inr hnone⟩
  · intro n
    refine Effect.triple_pure ?_
    intro d hd
    exact ⟨n, rfl, hd⟩

/-- The row that `RRMgr::insert` inserts. -/
def RRMgr.row (rr : RR) : RRRow where
  rrsetId := rr.rrset.id
  ttl := rr.ttl
  rrdata := rr.rrData

theorem RRMgr.insert_triple
    (rr : RR) (hquote : (39 : UInt8) ∉ rr.rrData) (disk : Disk) :
    Effect.Triple (· = disk) (RRMgr.insert S rr)
      (fun x d => ∃ n, x = { rr with id := n } ∧
        disk.db.insertRr (RRMgr.row rr) = some (n, d.db))
      (fun d => d.db = disk.db ∧ (S.fails disk.executed = true ∨
        (0 : UInt8) ∈ rr.rrData ∨
          disk.db.insertRr (RRMgr.row rr) = none)) := by
  have h := executeInsert_triple S
    (show (Stmt.insertRr rr.rrset.id rr.ttl rr.rrData).Tame from hquote)
    (f := fun db => db.insertRr (RRMgr.row rr)) (fun db => rfl) disk
  unfold RRMgr.insert
  refine Effect.Triple.bind (h.conseq (fun _ h => h) (fun _ _ h => h) ?_) ?_
  · rintro d ⟨hd, hfails | hclean | hnone⟩
    · exact ⟨hd, Or.inl hfails⟩
    · refine ⟨hd, Or.inr (Or.inl ?_)⟩
      by_contra hzero
      exact hclean ⟨hquote, hzero⟩
    · exact ⟨hd, Or.inr (Or.inr hnone)⟩
  · intro n
    refine Effect.triple_pure ?_
    intro d hd
    exact ⟨n, rfl, hd⟩

/-- A deletion is carried out unless SQLite fails. -/
theorem executeOnly_deletion_triple
    {stmt : Stmt} {db : Db} {disk : Disk} (htame : stmt.Tame)
    (hclean : stmt.Clean)
    (hrun : stmt.run disk.db = some ⟨[], db, none⟩) :
    Effect.Triple (· = disk) (executeOnly S stmt)
      (fun _ d => d.db = db ∧ S.fails disk.executed = false)
      (fun d => d.db = disk.db ∧ S.fails disk.executed = true) := by
  refine (executeOnly_triple S htame disk).conseq (fun _ h => h) ?_ ?_
  · rintro rows d ⟨hfails, r, hr, -, rfl⟩
    obtain rfl := Option.some.inj (hrun.symm.trans hr)
    exact ⟨rfl, hfails⟩
  · rintro d ⟨rfl, hfails | hnot | hnone⟩
    · exact ⟨rfl, hfails⟩
    · exact absurd hclean hnot
    · rw [hrun] at hnone
      exact absurd hnone (by simp)

theorem RRMgr.remove_triple (rr : RR) (disk : Disk) :
    Effect.Triple (· = disk) (RRMgr.remove S rr)
      (fun _ d => d.db = disk.db.deleteRr rr.id ∧
        S.fails disk.executed = false)
      (fun d => d.db = disk.db ∧ S.fails disk.executed = true) := by
  unfold RRMgr.remove
  exact Effect.Triple.bind
    (executeOnly_deletion_triple S (by trivial) trivial rfl)
    (fun _ => Effect.triple_pure (fun _ h => h))

theorem RRSetMgr.removeRelatedRRs_triple (rrset : RRSet) (disk : Disk) :
    Effect.Triple (· = disk) (RRSetMgr.removeRelatedRRs S rrset)
      (fun _ d => d.db = disk.db.deleteRrs rrset.id)
      (fun d => d.db = disk.db ∧ S.fails disk.executed = true) := by
  unfold RRSetMgr.removeRelatedRRs
  exact Effect.Triple.bind
    (executeOnly_deletion_triple S (by trivial) trivial rfl)
    (fun _ => Effect.triple_pure (fun _ h => h.1))

end Managers

end Ndns

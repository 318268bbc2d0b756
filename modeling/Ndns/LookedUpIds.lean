import Ndns.FailedStatements
import Ndns.UpdateFrame

/-!
# The ids behind a look-up

The managers look up the ids of the objects they hold.  `RRSetMgr::lookupIds`
sets `m_tempInt` to zero before each statement.  `ZoneMgr::lookupId` sets an id
only if a row is found, and `RRMgr::lookupIds` leaves an RR alone whose zone or
rrset has no id, so an id that the object had before may stay.

**Results.**
* `sends_mapM`: the statements of a loop;
* `lookedUpIds_iff`: the objects that have the right id behind a look-up.
-/

namespace Ndns

open DyndnsMgr

namespace RRSetMgr

/-- `RRSetMgr::lookupIds`, over the list that the manager holds. -/
def lookupAllIds (S : Sqlite) (rrsets : List RRSet) : DbM (List RRSet) :=
  rrsets.mapM (lookupIds S)

/-- The statement for one rrset. -/
def lookupStmts (rrset : RRSet) : List Stmt :=
  [.selectRrsetId rrset.zone.id rrset.label rrset.type]

end RRSetMgr

namespace RRMgr

/-- `RRMgr::lookupIds`, over the list that the manager holds. -/
def lookupAllIds (S : Sqlite) (rrs : List RR) : DbM (List RR) :=
  rrs.mapM (lookupIds S)

/-- The statement for one RR, if there is one. -/
def lookupStmts (rr : RR) : List Stmt :=
  if rr.rrset.zone.id = 0 ∨ rr.rrset.id = 0 then []
  else [.selectRrId rr.rrset.id rr.rrData]

end RRMgr

section Loops

variable {S : Sqlite} {α β : Type}

/-- The statements of a loop that changes nothing. -/
theorem sends_mapM
    {f : Sqlite → α → DbM β} {stmts : α → List Stmt} {g : α → β} {db : Db}
    (h : ∀ a disk, disk.db = db →
      Sends S (fun S => f S a) (stmts a) disk
        (fun b d => b = g a ∧ d.db = db))
    (as : List α) {disk : Disk} (hdb : disk.db = db) :
    Sends S (fun S => as.mapM (f S)) (as.flatMap stmts) disk
      (fun bs d => bs = as.map g ∧ d.db = db) := by
  induction as generalizing disk with
  | nil =>
      simp only [List.mapM_nil]
      exact sends_pure ⟨rfl, hdb⟩
  | cons a as ih =>
      simp only [List.mapM_cons, List.flatMap_cons]
      refine (h a disk hdb).bind ?_
      rintro b d ⟨rfl, hd⟩
      refine (ih hd).bind_nil ?_
      rintro bs d' ⟨rfl, hd'⟩
      exact sends_pure ⟨rfl, hd'⟩

/-- A database that executes every statement it understands. -/
def Sqlite.Reliable (S : Sqlite) : Prop :=
  ∀ n, S.fails n = false

/-- Queries fail if they are not clean. -/
theorem execute_eq_none_iff
    (hS : S.Reliable) {stmts : List Stmt}
    (h : ∀ stmt ∈ stmts, stmt.Reads) (disk : Disk) :
    S.execute stmts disk = none ↔ ¬ ∀ stmt ∈ stmts, stmt.Clean := by
  induction stmts generalizing disk with
  | nil =>
      simp [Sqlite.execute]
  | cons stmt stmts ih =>
      have hrest : ∀ stmt ∈ stmts, stmt.Reads :=
        fun s hs => h s (List.mem_cons_of_mem stmt hs)
      obtain ⟨rows, hrun⟩ := h stmt (by simp) disk.db
      unfold Sqlite.execute Sqlite.step
      by_cases hclean : stmt.Clean
      · rw [if_pos ⟨hS disk.executed, hclean⟩, hrun]
        simpa [hclean] using ih hrest _
      · rw [if_neg (fun h => hclean h.2)]
        simp [hclean]

/-- What clean queries return. -/
theorem run_of_clean
    {m : Sqlite → DbM β} {stmts : List Stmt} {disk : Disk} {b : β}
    (hS : S.Reliable) (hreads : ∀ stmt ∈ stmts, stmt.Reads)
    (hsends : Sends S m stmts disk (fun b' _ => b' = b))
    (hclean : ∀ stmt ∈ stmts, stmt.Clean) :
    ∃ d, (m S).run disk = .ok b d := by
  unfold Sends at hsends
  cases hexecute : S.execute stmts disk with
  | none =>
      exact absurd hclean
        ((execute_eq_none_iff hS hreads disk).mp hexecute)
  | some d =>
      rw [hexecute] at hsends
      obtain ⟨b', rfl, hrun⟩ := hsends
      exact ⟨d, hrun S.foreign⟩

/-- What queries return, whatever is done about texts that are not meant. -/
theorem returns_iff
    {m : Sqlite → DbM β} {stmts : List Stmt} {disk : Disk} {b : β}
    (hreads : ∀ stmt ∈ stmts, stmt.Reads)
    (hsends : ∀ S, Sends S m stmts disk (fun b' _ => b' = b))
    (P : β → Prop) :
    (∀ S : Sqlite, S.Reliable → ∃ b d, (m S).run disk = .ok b d ∧ P b) ↔
      (∀ stmt ∈ stmts, stmt.Clean) ∧ P b := by
  constructor
  · intro h
    have hreliable : reliable.Reliable := fun _ => rfl
    have hclean : ∀ stmt ∈ stmts, stmt.Clean := by
      by_contra hclean
      have hone := hsends reliable
      unfold Sends at hone
      rw [(execute_eq_none_iff hreliable hreads disk).mpr hclean] at hone
      obtain ⟨e, d, hrun⟩ := hone
      obtain ⟨b', d', hrun', -⟩ := h reliable.strict (fun _ => rfl)
      rw [hrun] at hrun'
      cases hrun'
    obtain ⟨d, hrun⟩ := run_of_clean hreliable hreads (hsends _) hclean
    obtain ⟨b', d', hrun', hP⟩ := h reliable hreliable
    rw [hrun] at hrun'
    cases hrun'
    exact ⟨hclean, hP⟩
  · rintro ⟨hclean, hP⟩ S hS
    obtain ⟨d, hrun⟩ := run_of_clean hS hreads (hsends S) hclean
    exact ⟨b, d, hrun, hP⟩

/-- The same for a loop of queries. -/
theorem loop_returns_iff
    {f : Sqlite → α → DbM β} {stmts : α → List Stmt} {g : α → β}
    {disk : Disk}
    (hreads : ∀ a, ∀ stmt ∈ stmts a, stmt.Reads)
    (hsends : ∀ S a d, d.db = disk.db →
      Sends S (fun S => f S a) (stmts a) d
        (fun b d' => b = g a ∧ d'.db = disk.db))
    (R : α → β → Prop) (as : List α) :
    (∀ S : Sqlite, S.Reliable → ∃ bs d,
        (as.mapM (f S)).run disk = .ok bs d ∧ List.Forall₂ R as bs) ↔
      ∀ a ∈ as, (∀ stmt ∈ stmts a, stmt.Clean) ∧ R a (g a) := by
  have hall : ∀ stmt ∈ as.flatMap stmts, stmt.Reads := by
    intro stmt hstmt
    obtain ⟨a, -, hmem⟩ := List.mem_flatMap.mp hstmt
    exact hreads a stmt hmem
  have hloop (S : Sqlite) := (sends_mapM (S := S) (f := f)
    (fun a d hd => hsends S a d hd) as rfl).weaken (fun _ _ h => h.1)
  rw [returns_iff hall hloop (List.Forall₂ R as),
    List.forall₂_map_right_iff, List.forall₂_same]
  constructor
  · rintro ⟨hclean, hR⟩ a ha
    exact ⟨fun stmt hstmt =>
      hclean stmt (List.mem_flatMap.mpr ⟨a, ha, hstmt⟩), hR a ha⟩
  · intro h
    refine ⟨fun stmt hstmt => ?_, fun a ha => (h a ha).2⟩
    obtain ⟨a, ha, hmem⟩ := List.mem_flatMap.mp hstmt
    exact (h a ha).1 stmt hmem

end Loops

section Ids

/-- The zone behind a look-up has the id of the row with its name. -/
def Zone.FoundIn (db : Db) (zone zone' : Zone) : Prop :=
  zone' = { zone with id := zone'.id } ∧
    db.zones.IdOf (fun r => r.2 = zone.authorizedName.toUri) zone'.id

/-- The rrset has the id of the row with its zone id, label and type. -/
def RRSet.FoundIn (db : Db) (rrset rrset' : RRSet) : Prop :=
  rrset' = { rrset with id := rrset'.id } ∧
    db.rrsets.IdOf (fun r => r.2.hasKey rrset.zone.id rrset.label.toUri
      rrset.type.toString) rrset'.id

/-- The test of the row with the rrset id and the data of an RR. -/
def RR.isRow (rr : RR) (r : Nat × RRRow) : Bool :=
  r.2.rrsetId = rr.rrset.id && r.2.rrdata = rr.rrData

/-- The RR has the id of the row with its rrset id and data. -/
def RR.FoundIn (db : Db) (rr rr' : RR) : Prop :=
  rr' = { rr with id := rr'.id } ∧ db.rrs.IdOf rr.isRow rr'.id

/-- The objects have the right ids behind their look-ups, whatever SQLite does
about texts that are not meant. -/
def ZoneMgr.LooksUp (disk : Disk) (zone : Zone) : Prop :=
  ∀ S : Sqlite, S.Reliable → ∃ x d,
    (ZoneMgr.lookupId S zone).run disk = .ok x d ∧
      zone.FoundIn disk.db x.1

def RRSetMgr.LooksUp (disk : Disk) (rrsets : List RRSet) : Prop :=
  ∀ S : Sqlite, S.Reliable → ∃ rrsets' d,
    (RRSetMgr.lookupAllIds S rrsets).run disk = .ok rrsets' d ∧
      List.Forall₂ (RRSet.FoundIn disk.db) rrsets rrsets'

def RRMgr.LooksUp (disk : Disk) (rrs : List RR) : Prop :=
  ∀ S : Sqlite, S.Reliable → ∃ rrs' d,
    (RRMgr.lookupAllIds S rrs).run disk = .ok rrs' d ∧
      List.Forall₂ (RR.FoundIn disk.db) rrs rrs'

/-- A zone that is not found has no id before. -/
def ZoneMgr.Ready (db : Db) (zone : Zone) : Prop :=
  zone.id = 0 ∨ ∃ r ∈ db.zones.rows, r.2 = zone.authorizedName.toUri

/-- An RR that is not looked up has the right id before, and one that is looked
up has data without a quote and without NUL. -/
def RRMgr.Ready (db : Db) (rr : RR) : Prop :=
  if rr.rrset.zone.id = 0 ∨ rr.rrset.id = 0 then db.rrs.IdOf rr.isRow rr.id
  else Stmt.CleanText rr.rrData

variable (disk : Disk)

theorem ZoneMgr.sends_lookupId (S : Sqlite) (zone : Zone) :
    Sends S (fun S => ZoneMgr.lookupId S zone)
      [.selectZoneId zone.authorizedName] disk
      (fun x _ => x = ({ zone with
          id := (disk.db.zoneIds zone.authorizedName).getLastD zone.id },
        (disk.db.zoneIds zone.authorizedName).length)) := by
  refine Sends.bind_nil (sends_select rfl) ?_
  rintro rows d ⟨rfl, hd⟩
  refine sends_pure ?_
  rw [← Db.zoneIds, foldl_zoneIds, Db.idRows, List.length_map]

/-- Which zone has the right id behind a look-up. -/
theorem ZoneMgr.looksUp_iff (zone : Zone) :
    ZoneMgr.LooksUp disk zone ↔ ZoneMgr.Ready disk.db zone := by
  have hone (stmt : Stmt)
      (hstmt : stmt ∈ [Stmt.selectZoneId zone.authorizedName]) :
      stmt.Reads ∧ stmt.Clean := by
    rw [List.mem_singleton.mp hstmt]
    exact ⟨fun db => ⟨_, rfl⟩, trivial⟩
  refine (returns_iff (fun stmt h => (hone stmt h).1)
    (fun S => sends_lookupId disk S zone)
    (fun x => zone.FoundIn disk.db x.1)).trans ?_
  rw [and_iff_right (fun stmt h => (hone stmt h).2)]
  unfold Zone.FoundIn Ready
  rw [and_iff_right rfl]
  have hfound := disk.db.zones.idOf_getLastD_iff
    (fun r => r.2 = zone.authorizedName.toUri) zone.id
  simp only [decide_eq_true_eq] at hfound
  exact hfound

/-- Every rrset has the right id behind a look-up. -/
theorem RRSetMgr.looksUp (rrsets : List RRSet) :
    RRSetMgr.LooksUp disk rrsets := by
  have hone (rrset : RRSet) (stmt : Stmt)
      (hstmt : stmt ∈ RRSetMgr.lookupStmts rrset) :
      stmt.Reads ∧ stmt.Clean := by
    rw [List.mem_singleton.mp hstmt]
    exact ⟨fun db => ⟨_, rfl⟩, trivial⟩
  refine (loop_returns_iff (fun rrset stmt h => (hone rrset stmt h).1)
    (fun S rrset d hd => hd ▸ RRSetMgr.sends_lookupIds rrset)
    (RRSet.FoundIn disk.db) rrsets).mpr ?_
  intro rrset _
  exact ⟨fun stmt h => (hone rrset stmt h).2, rfl,
    Table.idOf_lastWhere _ _⟩

/-- Which RRs have the right id behind a look-up. -/
theorem RRMgr.looksUp_iff (rrs : List RR) :
    RRMgr.LooksUp disk rrs ↔ ∀ rr ∈ rrs, RRMgr.Ready disk.db rr := by
  have hreads (rr : RR) (stmt : Stmt)
      (hstmt : stmt ∈ RRMgr.lookupStmts rr) : stmt.Reads := by
    unfold RRMgr.lookupStmts at hstmt
    split_ifs at hstmt
    · simp at hstmt
    · rw [List.mem_singleton.mp hstmt]
      exact fun db => ⟨_, rfl⟩
  refine (loop_returns_iff hreads
    (fun S rr d hd => hd ▸ RRMgr.sends_lookupIds rr)
    (RR.FoundIn disk.db) rrs).trans (forall₂_congr (fun rr _ => ?_))
  unfold RRMgr.Ready RR.FoundIn RRMgr.foundId RRMgr.lookupStmts
  split_ifs with hskip
  · simp
  · rw [and_iff_left ⟨rfl, Table.idOf_lastWhere _ _⟩]
    simp [Stmt.Clean]

/-- Which objects have the right ids behind their look-ups. -/
theorem lookedUpIds_iff (zone : Zone) (rrsets : List RRSet) (rrs : List RR) :
    (ZoneMgr.LooksUp disk zone ↔ ZoneMgr.Ready disk.db zone) ∧
      RRSetMgr.LooksUp disk rrsets ∧
      (RRMgr.LooksUp disk rrs ↔ ∀ rr ∈ rrs, RRMgr.Ready disk.db rr) :=
  ⟨ZoneMgr.looksUp_iff disk zone, RRSetMgr.looksUp disk rrsets,
    RRMgr.looksUp_iff disk rrs⟩

/-- A zone that is not stored. -/
def orgZone : Zone :=
  { Zone.ofName [ascii "org"] with id := 11 }

/-- An RR of an rrset that is not stored. -/
def orgRr : RR :=
  { RR.ofRRSet (RRSet.ofZone netZone) with id := 1 }

/-- Both keep the ids they had. -/
theorem staleIds_kept :
    (∃ d, (ZoneMgr.lookupId reliable orgZone).run twoZonesDisk =
        .ok (orgZone, 0) d) ∧
      (∃ d, (RRMgr.lookupAllIds reliable [orgRr]).run twoZonesDisk =
        .ok [orgRr] d) ∧
      ¬ ZoneMgr.LooksUp twoZonesDisk orgZone ∧
      ¬ RRMgr.LooksUp twoZonesDisk [orgRr] := by
  have hzone : ¬ ZoneMgr.Ready twoZonesDisk.db orgZone := by
    unfold ZoneMgr.Ready
    decide
  have hrr : ¬ RRMgr.Ready twoZonesDisk.db orgRr := by
    unfold RRMgr.Ready Table.IdOf
    decide
  refine ⟨?_, ⟨_, rfl⟩, ?_, ?_⟩
  · have hsent : (executeOnly reliable
        (.selectZoneId orgZone.authorizedName)).run twoZonesDisk =
          .ok _ _ :=
      executeOnly_ok reliable trivial rfl rfl
    refine ⟨twoZonesDisk.next, ?_⟩
    rw [ZoneMgr.lookupId, EStateM.run_bind, hsent]
    rfl
  · exact fun h => hzone ((ZoneMgr.looksUp_iff twoZonesDisk orgZone).mp h)
  · exact fun h => hrr
      ((RRMgr.looksUp_iff twoZonesDisk [orgRr]).mp h orgRr (by simp))

end Ids

end Ndns

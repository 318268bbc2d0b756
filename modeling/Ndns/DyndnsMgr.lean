import Ndns.DbMgr
import Ndns.QueryUpdate

/-!
# Dynamic updates

`dyndns-mgr.cpp`: an update looks up the rrset and the RR it addresses and then
adds, removes or replaces.  `DyndnsMgr::update` is declared `throw ()`, so that
an error of a statement ends the process.

The id of the RR comes from the wire.  The look-up overwrites it only if zone and
rrset have an id, and `REMOVE` deletes the row with that id, whichever it is.

**Results.**
* `act_triple`: all that one action does to the database, from what was looked up;
* `updateRr_triple`: the same for an update.
-/

namespace Ndns

/-- How a call ends. -/
inductive Outcome (α : Type) where
  | returned (a : α)
  /-- An exception leaves the call. -/
  | threw (what : Bytes)
  /-- An exception leaves a function that is declared not to throw. -/
  | terminated
  /-- Undefined behaviour. -/
  | undefined
deriving DecidableEq

namespace DyndnsMgr

variable (S : Sqlite)

/-- The branches of `DyndnsMgr::update`, behind the look-ups. -/
def act (rrset : RRSet) (rr : RR) : DbM RR :=
  match rr.updateAction with
  | .NONE => return rr
  | .ADD =>
      if rr.id ≠ 0 then return rr
      else if rrset.id = 0 then do
        let rrset ← RRSetMgr.insert S rrset
        RRMgr.insert S (rr.setRrset rrset)
      else RRMgr.insert S rr
  | .REMOVE =>
      if rr.id > 0 then do
        RRMgr.remove S rr
        return rr
      else return rr
  | .REPLACE_ALL =>
      if rrset.id > 0 then do
        RRSetMgr.removeRelatedRRs S rrset
        RRMgr.insert S rr
      else do
        let rrset ← RRSetMgr.insert S rrset
        RRMgr.insert S (rr.setRrset rrset)
  | .REPLACE => throw (ascii "Not support " ++ rr.updateAction.toString)
  | .UNKNOWN => throw (ascii "Not support " ++ rr.updateAction.toString)

/-- `DyndnsMgr::update` on the first RR of the message. -/
def updateRr (zone : Zone) (rr : RR) : DbM RR := do
  let rr := rr.setZone zone
  let rrset ← RRSetMgr.lookupIds S rr.rrset
  let rr ← RRMgr.lookupIds S (rr.setRrset rrset)
  act S rrset rr

/-- `DyndnsMgr::update` -/
def update (zone : Zone) (queryUpdate : QueryUpdate) (disk : Disk) :
    Outcome QueryUpdate × Disk :=
  match queryUpdate.update.rrs with
  | [] => (.undefined, disk)
  | rr :: rrs =>
      match (updateRr S zone rr).run disk with
      | .ok rr disk =>
          (.returned { queryUpdate with
            update := queryUpdate.update.setRrs (rr :: rrs) }, disk)
      | .error _ disk => (.terminated, disk)

section Effects

/-- The rrset of the zone that an RR addresses; zero without one. -/
def addressed (db : Db) (zone : Zone) (rr : RR) : Nat :=
  db.rrsetId zone.id rr.rrset.label.toUri rr.rrset.type.toString

/-- An RR behind both look-ups. -/
def lookedUp (db : Db) (zone : Zone) (rr : RR) : RR :=
  let rr := rr.setZone zone
  let rr := { rr with rrset.id := addressed db zone rr }
  { rr with id := RRMgr.foundId db rr }

section LookedUp

variable {db : Db} {zone : Zone} {rr : RR}

/-- Without an rrset, or for a zone without an id, the id is not looked up. -/
theorem lookedUp_id_of_skipped
    (h : zone.id = 0 ∨ addressed db zone rr = 0) :
    (lookedUp db zone rr).id = rr.id :=
  if_pos h

theorem lookedUp_id_of_located
    (hzone : zone.id ≠ 0) (hset : addressed db zone rr ≠ 0) :
    (lookedUp db zone rr).id =
      db.rrId (addressed db zone rr) rr.rrData :=
  if_neg (not_or.mpr ⟨hzone, hset⟩)

end LookedUp

/-- The row of an rrset that is added for an RR. -/
def newRrset (zone : Zone) (rr : RR) : RRSetRow :=
  RRSetMgr.row (rr.setZone zone).rrset

/-- The row that is added for an RR. -/
def newRow (rr : RR) (rrsetId : Nat) : RRRow where
  rrsetId := rrsetId
  ttl := rr.ttl
  rrdata := rr.rrData

/-- The update adds the rrset, if there is none. -/
def Creates (rr : RR) : Prop :=
  rr.updateAction = .REPLACE_ALL ∨ rr.updateAction = .ADD ∧ rr.id = 0

theorem Creates.ne_remove {rr : RR} (h : Creates rr) :
    rr.updateAction ≠ .REMOVE := by
  rcases h with h | ⟨h, -⟩ <;> simp [h]

/-- All that an update can do to the database. -/
inductive Changed (zone : Zone) (rr : RR) (disk : Disk) : Db → Prop
  | unchanged : Changed zone rr disk disk.db
  | newRrset (n : Nat) (db : Db)
      (hcreates : Creates rr)
      (hset : addressed disk.db zone rr = 0)
      (hnew : disk.db.insertRrset (newRrset zone rr) = some (n, db)) :
      Changed zone rr disk db
  | newRrsetRow (n m : Nat) (db db' : Db)
      (hcreates : Creates rr)
      (hset : addressed disk.db zone rr = 0)
      (hnew : disk.db.insertRrset (DyndnsMgr.newRrset zone rr) =
        some (n, db))
      (hrow : db.insertRr (newRow rr n) = some (m, db')) :
      Changed zone rr disk db'
  | newRow (m : Nat) (db : Db)
      (haction : rr.updateAction ≠ .REMOVE)
      (hset : addressed disk.db zone rr ≠ 0)
      (hrow : disk.db.insertRr (newRow rr (addressed disk.db zone rr)) =
        some (m, db)) :
      Changed zone rr disk db
  | remove
      (haction : rr.updateAction = .REMOVE)
      (hid : (lookedUp disk.db zone rr).id ≠ 0)
      (hfails : zone.id = 0 ∨ addressed disk.db zone rr = 0 →
        S.fails disk.executed = false ∧
          S.fails (disk.executed + 1) = false) :
      Changed zone rr disk (disk.db.deleteRr (lookedUp disk.db zone rr).id)
  | clear
      (haction : rr.updateAction ≠ .REMOVE)
      (hset : addressed disk.db zone rr ≠ 0) :
      Changed zone rr disk
        (disk.db.deleteRrs (addressed disk.db zone rr))
  | replace (m : Nat) (db : Db)
      (haction : rr.updateAction ≠ .REMOVE)
      (hset : addressed disk.db zone rr ≠ 0)
      (hrow : (disk.db.deleteRrs (addressed disk.db zone rr)).insertRr
        (DyndnsMgr.newRow rr (addressed disk.db zone rr)) = some (m, db)) :
      Changed zone rr disk db

variable {S} {zone : Zone} {rr : RR} {disk d : Disk}

/-- What the branches know of the RR behind its look-ups. -/
structure Behind (S : Sqlite) (zone : Zone) (rr : RR) (disk : Disk)
    (rr' : RR) (d : Disk) : Prop where
  rr_eq : rr' = lookedUp disk.db zone rr
  db_eq : d.db = disk.db
  quote : (39 : UInt8) ∉ rr.rrData
  clazz : Stmt.CleanText rr.rrset.clazz
  fails : zone.id = 0 ∨ addressed disk.db zone rr = 0 →
    S.fails disk.executed = false ∧ d.executed = disk.executed + 1

theorem Behind.unchanged
    {rr' : RR} (h : Behind S zone rr disk rr' d) :
    ∀ s : Disk, s = d → Changed S zone rr disk s.db := by
  rintro s rfl
  rw [h.db_eq]
  exact Changed.unchanged

/-- The insertion of an RR in an rrset. -/
theorem insertRow_triple
    (rr : RR) {rr' : RR} {d : Disk} (n : Nat)
    (hrow : RRMgr.row rr' = newRow rr n)
    (hquote : (39 : UInt8) ∉ rr.rrData) :
    Effect.Triple (· = d) (RRMgr.insert S rr')
      (fun _ d' => ∃ m, d.db.insertRr (newRow rr n) = some (m, d'.db))
      (fun d' => d'.db = d.db) := by
  have hdata : (39 : UInt8) ∉ rr'.rrData := by
    have hd : (RRMgr.row rr').rrdata = rr.rrData := by rw [hrow]; rfl
    rw [← hd] at hquote
    exact hquote
  refine (RRMgr.insert_triple S rr' hdata d).conseq (fun _ h => h) ?_
    (fun _ h => h.1)
  rintro _ d' ⟨m, -, hm⟩
  rw [hrow] at hm
  exact ⟨m, hm⟩

/-- The insertion of an rrset and of its first row. -/
theorem insertBoth_triple
    {rr' : RR} (h : Behind S zone rr disk rr' d)
    (hcreates : Creates rr) (hset : rr'.rrset.id = 0) :
    Effect.Triple (· = d)
      (do
        let rrset ← RRSetMgr.insert S rr'.rrset
        RRMgr.insert S (rr'.setRrset rrset))
      (fun _ d => Changed S zone rr disk d.db)
      (fun d => Changed S zone rr disk d.db) := by
  obtain ⟨rfl, hd, hquote, hclass, -⟩ := h
  have hzero : addressed disk.db zone rr = 0 := hset
  refine Effect.Triple.bind
    ((RRSetMgr.insert_triple S (lookedUp disk.db zone rr).rrset hclass
      d).conseq (fun _ h => h) (fun _ _ h => h) ?_) (fun rrset => ?_)
  · rintro d' ⟨hd', -⟩
    rw [hd', hd]
    exact Changed.unchanged
  refine Effect.triple_of_forall ?_
  rintro d₁ ⟨n, rfl, hnew⟩
  rw [hd] at hnew
  refine (insertRow_triple rr n rfl hquote).conseq
    (fun _ h => h) ?_ ?_
  · rintro _ d₂ ⟨m, hrow⟩
    exact Changed.newRrsetRow n m d₁.db d₂.db hcreates hzero hnew hrow
  · intro d₂ hd₂
    rw [hd₂]
    exact Changed.newRrset n d₁.db hcreates hzero hnew

/-- The deletion of the row with the id of the RR. -/
theorem remove_triple
    {rr' : RR} (h : Behind S zone rr disk rr' d)
    (haction : rr'.updateAction = .REMOVE) (hid : rr'.id > 0) :
    Effect.Triple (· = d)
      (do
        RRMgr.remove S rr'
        return rr')
      (fun _ d => Changed S zone rr disk d.db)
      (fun d => Changed S zone rr disk d.db) := by
  have hunchanged := h.unchanged
  obtain ⟨rfl, hd, -, -, hfails⟩ := h
  refine Effect.Triple.bind
    ((RRMgr.remove_triple S _ d).conseq (fun _ hs => hs)
      (fun _ _ hs => hs) ?_) (fun _ => Effect.triple_pure ?_)
  · rintro d' ⟨hd', -⟩
    rw [hd', hd]
    exact Changed.unchanged
  · rintro d' ⟨hd', hf⟩
    rw [hd', hd]
    refine Changed.remove haction (Nat.pos_iff_ne_zero.mp hid) ?_
    intro hzero
    obtain ⟨hfirst, hexecuted⟩ := hfails hzero
    exact ⟨hfirst, hexecuted ▸ hf⟩

/-- The deletion of the rows of the rrset, and the insertion of one. -/
theorem replace_triple
    {rr' : RR} (h : Behind S zone rr disk rr' d)
    (haction : rr'.updateAction ≠ .REMOVE) (hset : rr'.rrset.id ≠ 0) :
    Effect.Triple (· = d)
      (do
        RRSetMgr.removeRelatedRRs S rr'.rrset
        RRMgr.insert S rr')
      (fun _ d => Changed S zone rr disk d.db)
      (fun d => Changed S zone rr disk d.db) := by
  obtain ⟨rfl, hd, hquote, -, -⟩ := h
  have hne : addressed disk.db zone rr ≠ 0 := hset
  refine Effect.Triple.bind
    ((RRSetMgr.removeRelatedRRs_triple S _ d).conseq (fun _ hs => hs)
      (fun _ _ hs => hs) ?_) (fun _ => Effect.triple_of_forall ?_)
  · rintro d' ⟨hd', -⟩
    rw [hd', hd]
    exact Changed.unchanged
  intro d₁ hd₁
  have hdb : d₁.db =
      disk.db.deleteRrs (addressed disk.db zone rr) := by
    rw [hd₁, hd]
    rfl
  refine (insertRow_triple rr (addressed disk.db zone rr) rfl
    hquote).conseq (fun _ hs => hs) ?_ ?_
  · rintro _ d₂ ⟨m, hrow⟩
    rw [hdb] at hrow
    exact Changed.replace m d₂.db haction hne hrow
  · intro d₂ hd₂
    rw [hd₂, hdb]
    exact Changed.clear haction hne

/-- The branches do what `Changed` lists. -/
theorem act_triple
    {rr' : RR} (h : Behind S zone rr disk rr' d) :
    Effect.Triple (· = d) (act S rr'.rrset rr')
      (fun _ d => Changed S zone rr disk d.db)
      (fun d => Changed S zone rr disk d.db) := by
  have hset : rr'.rrset.id = addressed disk.db zone rr := by
    rw [h.rr_eq]
    rfl
  have hrow : RRMgr.row rr' = newRow rr (addressed disk.db zone rr) := by
    rw [h.rr_eq]
    rfl
  have haction : rr'.updateAction = rr.updateAction := by
    rw [h.rr_eq]
    rfl
  unfold act
  split
  · exact Effect.triple_pure h.unchanged
  · -- ADD
    next hadd =>
    split_ifs with hid hzero
    · exact Effect.triple_pure h.unchanged
    · have hwire : rr.id = 0 := by
        rw [hset] at hzero
        rw [ne_eq, not_not, h.rr_eq] at hid
        exact (if_pos (Or.inr hzero)).symm.trans hid
      exact insertBoth_triple h (Or.inr ⟨haction ▸ hadd, hwire⟩) hzero
    · refine (insertRow_triple rr _ hrow h.quote).conseq (fun _ hs => hs) ?_ ?_
      · rintro _ d' ⟨m, hm⟩
        rw [h.db_eq] at hm
        exact Changed.newRow m d'.db (by simp [← haction, hadd])
          (hset ▸ hzero) hm
      · intro d' hd'
        rw [hd', h.db_eq]
        exact Changed.unchanged
  · -- REMOVE
    next hremove =>
    split_ifs with hid
    · exact remove_triple h hremove hid
    · exact Effect.triple_pure h.unchanged
  · -- REPLACE_ALL
    next hreplace =>
    split_ifs with hpos
    · exact replace_triple h (by simp [hreplace])
        (Nat.pos_iff_ne_zero.mp hpos)
    · exact insertBoth_triple h (Or.inl (haction ▸ hreplace))
        (Nat.eq_zero_of_not_pos hpos)
  · exact Effect.triple_throw h.unchanged
  · exact Effect.triple_throw h.unchanged

/-- An update does one of the things that `Changed` lists. -/
theorem updateRr_triple
    (zone : Zone)
    (hquote : (39 : UInt8) ∉ rr.rrData)
    (hclass : Stmt.CleanText rr.rrset.clazz) (disk : Disk) :
    Effect.Triple (· = disk) (updateRr S zone rr)
      (fun _ d => Changed S zone rr disk d.db)
      (fun d => Changed S zone rr disk d.db) := by
  unfold updateRr
  refine Effect.Triple.bind
    ((RRSetMgr.lookupIds_triple S (rr.setZone zone).rrset disk).conseq
      (fun _ h => h) (fun _ _ h => h) ?_) (fun rrset => ?_)
  · rintro d ⟨rfl, -⟩
    exact Changed.unchanged
  refine Effect.triple_of_forall ?_
  rintro d₁ ⟨rfl, rfl, hf₁⟩
  refine Effect.Triple.bind
    ((RRMgr.lookupIds_triple S { rr.setZone zone with
        rrset.id := addressed disk.db zone rr } hquote disk.next).conseq
          (fun _ h => h) (fun _ _ h => h) ?_) (fun rr' => ?_)
  · rintro d ⟨hd, -⟩
    rw [hd]
    exact Changed.unchanged
  refine Effect.triple_of_forall ?_
  rintro d₂ ⟨rfl, hdb, hskip⟩
  exact act_triple {
    rr_eq := rfl
    db_eq := hdb
    quote := hquote
    clazz := hclass
    fails := fun hzero => ⟨hf₁, by rw [hskip hzero]; rfl⟩ }

end Effects

end DyndnsMgr

end Ndns

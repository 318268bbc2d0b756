import Ndns.DyndnsMgr

/-!
# What an update leaves alone

The rows of other rrsets than the addressed one stay as they are, except behind a
`REMOVE` that was not looked up: without the ids of zone and rrset the RR keeps
the id that the client chose, and the row with this id is deleted.
-/

namespace Ndns

namespace DyndnsMgr

/-- The rrset is the one that an RR addresses. -/
def isAddressed (zone : Zone) (rr : RR) (r : RRSetRow) : Bool :=
  r.hasKey zone.id rr.rrset.label.toUri rr.rrset.type.toString

/-- The row belongs to the rrset that an RR addresses. -/
def Belongs (zone : Zone) (rr : RR) (db : Db) (row : Nat × RRRow) : Prop :=
  ∃ s ∈ db.rrsets.rows, s.1 = row.2.rrsetId ∧
    isAddressed zone rr s.2 = true

/-- The row belongs to another rrset. -/
def Foreign (zone : Zone) (rr : RR) (db : Db) (row : Nat × RRRow) : Prop :=
  ∃ s ∈ db.rrsets.rows, s.1 = row.2.rrsetId ∧
    isAddressed zone rr s.2 = false

/-- The effect of an update stays inside the rrset that it addresses. -/
structure Framed (zone : Zone) (rr : RR) (db db' : Db) : Prop where
  kept : ∀ row ∈ db.rrs.rows, Foreign zone rr db row → row ∈ db'.rrs.rows
  added : ∀ row ∈ db'.rrs.rows, row ∉ db.rrs.rows →
    Belongs zone rr db' row
  removed : rr.updateAction = .REMOVE →
    ∀ row ∈ db.rrs.rows, row ∉ db'.rrs.rows →
      Belongs zone rr db row ∧ row.2.rrdata = rr.rrData

/-- A `REMOVE` that is not looked up and deletes a row that it does not name. -/
structure StrayRemove (S : Sqlite) (zone : Zone) (rr : RR) (disk : Disk) :
    Prop where
  action : rr.updateAction = .REMOVE
  /-- The zone is not registered, or the rrset does not exist. -/
  not_looked_up : zone.id = 0 ∨
    ∀ s ∈ disk.db.rrsets.rows, isAddressed zone rr s.2 = false
  succeeds : S.fails disk.executed = false ∧
    S.fails (disk.executed + 1) = false
  hits : ∃ row ∈ disk.db.rrs.rows, row.1 = rr.id ∧
    ¬ (Belongs zone rr disk.db row ∧ row.2.rrdata = rr.rrData)

variable {S : Sqlite} {zone : Zone} {rr : RR} {disk : Disk} {db db' : Db}

theorem not_foreign_of_belongs
    {row : Nat × RRRow}
    (h : Belongs zone rr db row) :
    ¬ Foreign zone rr db row := by
  obtain ⟨s, hs, hsid, hkey⟩ := h
  rintro ⟨t, ht, htid, hother⟩
  have heq := Table.eq_of_id hs ht (hsid.trans htid.symm)
  rw [heq, hother] at hkey
  exact absurd hkey (by decide)

theorem belongs_of_addressed
    {row : Nat × RRRow}
    (hset : addressed db zone rr ≠ 0)
    (hrow : row.2.rrsetId = addressed db zone rr) :
    Belongs zone rr db row := by
  obtain ⟨s, hs, hid, hkey⟩ := Db.exists_rrset hset
  exact ⟨s, hs, hid.trans hrow.symm, hkey⟩

theorem addressed_eq_zero_iff :
    addressed db zone rr = 0 ↔
      ∀ s ∈ db.rrsets.rows, isAddressed zone rr s.2 = false :=
  Db.rrsetId_eq_zero_iff

/-- A database whose rows are the same. -/
theorem framed_of_rows_eq (h : db'.rrs = db.rrs) :
    Framed zone rr db db' where
  kept row hrow _ := by rw [h]; exact hrow
  added row hrow hnot := by rw [h] at hrow; exact absurd hrow hnot
  removed _ row hrow hnot := by rw [h] at hnot; exact absurd hrow hnot

/-- Rows of the addressed rrset go, one comes. -/
theorem framed_of_filter
    {n : Nat} (haction : rr.updateAction ≠ .REMOVE)
    (hdropped : ∀ row ∈ db.rrs.rows, row.2.rrsetId = n →
      ¬ Foreign zone rr db row)
    (hkept : ∀ row ∈ db.rrs.rows, row.2.rrsetId ≠ n →
      row ∈ db'.rrs.rows)
    (hadded : ∀ row ∈ db'.rrs.rows, row ∉ db.rrs.rows →
      Belongs zone rr db' row) :
    Framed zone rr db db' where
  kept row hrow hforeign := by
    refine hkept row hrow ?_
    intro hn
    exact hdropped row hrow hn hforeign
  added := hadded
  removed h := absurd h haction

/-- An insertion in an rrset that is addressed. -/
theorem framed_insertRr
    {db₀ : Db} {n m : Nat} (haction : rr.updateAction ≠ .REMOVE)
    (hdropped : ∀ row ∈ db₀.rrs.rows, row.2.rrsetId = n →
      ¬ Foreign zone rr db₀ row)
    (hkept : ∀ row ∈ db₀.rrs.rows, row.2.rrsetId ≠ n →
      row ∈ db.rrs.rows)
    (hsub : ∀ row ∈ db.rrs.rows, row ∈ db₀.rrs.rows)
    (hbelongs : ∀ row : Nat × RRRow, row.2.rrsetId = n →
      Belongs zone rr db row)
    (hrow : db.insertRr (newRow rr n) = some (m, db')) :
    Framed zone rr db₀ db' := by
  obtain ⟨-, hrrsets, hrows⟩ := Db.insertRr_eq_some hrow
  refine framed_of_filter haction hdropped ?_ ?_
  · intro row hmem hne
    rw [hrows]
    refine List.mem_append_left _ (List.mem_filter.mpr
      ⟨hkept row hmem hne, ?_⟩)
    simp [newRow, hne]
  · intro row hmem hnot
    rw [hrows] at hmem
    rcases List.mem_append.mp hmem with hmem | hmem
    · exact absurd (hsub row (List.mem_of_mem_filter hmem)) hnot
    · obtain rfl : row = (m, newRow rr n) := by simpa using hmem
      obtain ⟨s, hs, hid, hkey⟩ := hbelongs (m, newRow rr n) rfl
      exact ⟨s, hrrsets ▸ hs, hid, hkey⟩

/-- The new rrset of an update is the addressed one. -/
theorem belongs_newRrset
    {n : Nat}
    (hnew : db.insertRrset (newRrset zone rr) = some (n, db'))
    {row : Nat × RRRow} (hrow : row.2.rrsetId = n) :
    Belongs zone rr db' row := by
  obtain ⟨-, -, hrows, -⟩ := Db.insertRrset_eq_some hnew
  refine ⟨(n, newRrset zone rr), ?_, hrow.symm, ?_⟩
  · rw [hrows]
    simp
  · simp [isAddressed, newRrset, RRSetRow.hasKey, RRSetMgr.row, RR.setZone]

/-- A deletion by an id that only a row with the RR's key and data has. -/
theorem framed_deleteRr
    {n : Nat}
    (hnamed : ∀ row ∈ db.rrs.rows, row.1 = n →
      Belongs zone rr db row ∧ row.2.rrdata = rr.rrData) :
    Framed zone rr db (db.deleteRr n) := by
  have hgone : ∀ row ∈ db.rrs.rows,
      row ∉ (db.deleteRr n).rrs.rows → row.1 = n := by
    intro row hrow hnot
    by_contra hne
    exact hnot (by simp [hrow, hne])
  refine ⟨?_, ?_, ?_⟩
  · intro row hrow hforeign
    by_contra hnot
    exact not_foreign_of_belongs
      (hnamed row hrow (hgone row hrow hnot)).1 hforeign
  · intro row hrow hnot
    exact absurd (List.mem_of_mem_filter hrow) hnot
  · intro _ row hrow hnot
    exact hnamed row hrow (hgone row hrow hnot)

/-- A deletion by an id that was looked up. -/
theorem framed_lookedUp
    (hid : (lookedUp db zone rr).id ≠ 0)
    (hzone : zone.id ≠ 0) (hset : addressed db zone rr ≠ 0) :
    Framed zone rr db (db.deleteRr (lookedUp db zone rr).id) := by
  have hfound := lookedUp_id_of_located hzone hset
  rw [hfound] at hid ⊢
  obtain ⟨r, hr, hrid, hrset, hrdata⟩ := Db.exists_rr hid
  refine framed_deleteRr ?_
  intro row hrow hrowid
  rw [Table.eq_of_id hrow hr (hrowid.trans hrid.symm)]
  exact ⟨belongs_of_addressed hset hrset, hrdata⟩

/-- Whatever an update does stays in its frame, stray removals apart. -/
theorem framed_of_changed
    (h : Changed S zone rr disk db)
    (hstray : ¬ StrayRemove S zone rr disk) :
    Framed zone rr disk.db db := by
  cases h with
  | unchanged =>
      exact framed_of_rows_eq rfl
  | newRrset n db hcreates hset hnew =>
      exact framed_of_rows_eq (Db.insertRrset_eq_some hnew).2.1
  | newRrsetRow n m db₁ db hcreates hset hnew hrow =>
      obtain ⟨-, hrrs, -, hfresh, -⟩ := Db.insertRrset_eq_some hnew
      refine framed_insertRr hcreates.ne_remove ?_ ?_ ?_
        (fun row hrow => belongs_newRrset hnew hrow) hrow
      · rintro row - hn ⟨s, hs, hid, -⟩
        have hlt := hfresh s hs
        omega
      · intro row hmem _
        rw [hrrs]
        exact hmem
      · intro row hmem
        rw [hrrs] at hmem
        exact hmem
  | newRow m db haction hset hrow =>
      exact framed_insertRr haction
        (fun row _ hn =>
          not_foreign_of_belongs (belongs_of_addressed hset hn))
        (fun row hmem _ => hmem) (fun row hmem => hmem)
        (fun row hn => belongs_of_addressed hset hn) hrow
  | remove haction hid hfails =>
      by_cases hskip : zone.id = 0 ∨ addressed disk.db zone rr = 0
      · rw [lookedUp_id_of_skipped hskip]
        refine framed_deleteRr ?_
        intro row hrow hrowid
        by_contra hnot
        exact hstray ⟨haction, hskip.imp_right addressed_eq_zero_iff.mp,
          hfails hskip, row, hrow, hrowid, hnot⟩
      · push Not at hskip
        exact framed_lookedUp hid hskip.1 hskip.2
  | clear haction hset =>
      refine framed_of_filter haction
        (fun row _ hn =>
          not_foreign_of_belongs (belongs_of_addressed hset hn)) ?_ ?_
      · intro row hrow hne
        simp [hrow, hne]
      · intro row hrow hnot
        exact absurd (List.mem_of_mem_filter hrow) hnot
  | replace m db haction hset hrow =>
      refine framed_insertRr haction
        (fun row _ hn =>
          not_foreign_of_belongs (belongs_of_addressed hset hn))
        ?_ (fun row hmem => List.mem_of_mem_filter hmem) ?_ hrow
      · intro row hmem hne
        simp [hmem, hne]
      · intro row hn
        obtain ⟨s, hs, hid, hkey⟩ := belongs_of_addressed hset hn
        exact ⟨s, hs, hid, hkey⟩

/-- A stray removal deletes the row with the id that the client chose. -/
theorem updateRr_stray (h : StrayRemove S zone rr disk) :
    Effect.Total (· = disk) (updateRr S zone rr)
      (fun _ d => d.db = disk.db.deleteRr rr.id) := by
  obtain ⟨haction, hskip, ⟨hfirst, hsecond⟩, row, hrow, hrowid, -⟩ := h
  have hpos := disk.db.rrs.id_pos row hrow
  unfold updateRr
  refine Effect.Triple.bind
    ((RRSetMgr.lookupIds_triple S (rr.setZone zone).rrset disk).conseq
      (fun _ hs => hs) (fun _ _ hs => hs) ?_) (fun rrset => ?_)
  · rintro d ⟨-, hfails⟩
    simp [hfirst] at hfails
  refine Effect.triple_of_forall ?_
  rintro d ⟨rfl, rfl, -⟩
  have hpure (r : RR) (hr : r.rrset.zone.id = 0 ∨ r.rrset.id = 0) :
      RRMgr.lookupIds S r = pure r := by
    unfold RRMgr.lookupIds
    rw [if_pos hr]
  rw [hpure _ (hskip.imp_right addressed_eq_zero_iff.mpr), pure_bind, act]
  simp only [RR.setRrset, RR.setZone, haction]
  rw [if_pos (by omega)]
  refine Effect.Triple.bind
    ((RRMgr.remove_triple S _ disk.next).conseq (fun _ hs => hs)
      (fun _ _ hs => hs) ?_) (fun _ => Effect.triple_pure ?_)
  · rintro d ⟨-, hfails⟩
    have hexecuted : disk.next.executed = disk.executed + 1 := rfl
    simp [hexecuted, hsecond] at hfails
  · rintro d ⟨hd, -⟩
    exact hd

section Update

variable {queryUpdate : QueryUpdate} {rrs : List RR}

/-- What holds of the database behind the first RR holds behind the update. -/
theorem update_of_triple
    {P : Db → Prop} (hone : queryUpdate.update.rrs = rr :: rrs)
    (h : Effect.Triple (· = disk) (updateRr S zone rr)
      (fun _ d => P d.db) (fun d => P d.db)) :
    P (update S zone queryUpdate disk).2.db := by
  have hrun := h disk rfl
  unfold update
  rw [hone]
  simp only
  cases heq : (updateRr S zone rr).run disk with
  | ok rr' d =>
      rw [heq] at hrun
      exact hrun
  | error e d =>
      rw [heq] at hrun
      exact hrun

theorem update_stray
    (hone : queryUpdate.update.rrs = rr :: rrs)
    (h : StrayRemove S zone rr disk) :
    (update S zone queryUpdate disk).2.db = disk.db.deleteRr rr.id :=
  update_of_triple (P := fun db => db = disk.db.deleteRr rr.id) hone
    (updateRr_stray h).triple

/-- An update stays in its frame exactly if it is no stray removal. -/
theorem framed_iff
    (hone : queryUpdate.update.rrs = [rr])
    (hclass : rr.rrset.clazz = []) (hquote : (39 : UInt8) ∉ rr.rrData) :
    Framed zone rr disk.db (update S zone queryUpdate disk).2.db ↔
      ¬ StrayRemove S zone rr disk := by
  constructor
  · rintro hframed hstray
    rw [update_stray hone hstray] at hframed
    obtain ⟨haction, -, -, row, hrow, hid, hnot⟩ := hstray
    exact hnot (hframed.removed haction row hrow (by simp [hid]))
  · intro hstray
    have hclean : Stmt.CleanText rr.rrset.clazz := by
      rw [hclass]
      decide
    exact update_of_triple (P := Framed zone rr disk.db) hone
      ((updateRr_triple zone hquote hclean disk).conseq (fun _ h => h)
        (fun _ _ h => framed_of_changed h hstray)
        (fun _ h => framed_of_changed h hstray))

end Update

section TwoZones

/-- SQLite without failures. -/
def reliable : Sqlite where
  fails _ := false
  foreign _ db := (db, none)
  errMsg _ := []

/-- The root and the zone `/net`; the root has one record. -/
def twoZones : Db where
  zones := ⟨[(1, ascii "/"), (2, ascii "/net")],
    by decide, by decide, by decide⟩
  rrsets := ⟨[(1, ⟨1, ascii "/net", some [], ascii "NS"⟩)],
    by decide, by decide, by decide⟩
  rrs := ⟨[(1, ⟨1, 3600, ascii "/net/ns1"⟩)],
    by decide, by decide, by decide⟩
  zones_unique := by decide
  rrsets_unique := by decide
  rrs_text := by decide

def netZone : Zone where
  id := 2
  authorizedName := [ascii "net"]

/-- An RR for the label `/www`, as it comes off the wire. -/
def hostRr (id : Nat) (action : UpdateAction) : RR :=
  Response.received [ascii "www"] .TXT
    { RR.init with
      id := id
      rrData := ascii "/isp"
      updateAction := action }

def hostMessage (id : Nat) (action : UpdateAction) : QueryUpdate :=
  { QueryUpdate.init with
    update := Response.init.addRr (hostRr id action) }

/-- Before any statement. -/
def twoZonesDisk : Disk where
  db := twoZones
  executed := 0
  lastInsertRowid := 0

theorem framed_iff_add :
    Framed netZone (hostRr 1 .ADD) twoZonesDisk.db
      (update reliable netZone (hostMessage 1 .ADD) twoZonesDisk).2.db := by
  have hone : (hostMessage 1 .ADD).update.rrs = [hostRr 1 .ADD] := rfl
  refine (framed_iff hone rfl (by decide)).mpr ?_
  intro h
  have hne : (hostRr 1 .ADD).updateAction ≠ .REMOVE := by decide
  exact hne h.action

/-- The server of `/net` deletes the record of the root. -/
theorem hostMessage_not_framed :
    (39 : UInt8) ∉ (hostRr 1 .REMOVE).rrData ∧
      (update reliable netZone (hostMessage 1 .REMOVE)
        twoZonesDisk).2.db.rrs.rows = [] ∧
      ¬ Framed netZone (hostRr 1 .REMOVE) twoZonesDisk.db
        (update reliable netZone (hostMessage 1 .REMOVE)
          twoZonesDisk).2.db := by
  have hforeign : Foreign netZone (hostRr 1 .REMOVE) twoZonesDisk.db
      (1, ⟨1, 3600, ascii "/net/ns1"⟩) :=
    ⟨(1, ⟨1, ascii "/net", some [], ascii "NS"⟩), by decide, by decide,
      by decide⟩
  have hstray :
      StrayRemove reliable netZone (hostRr 1 .REMOVE) twoZonesDisk :=
    ⟨rfl, Or.inr (by decide), ⟨rfl, rfl⟩,
      (1, ⟨1, 3600, ascii "/net/ns1"⟩), by decide, rfl,
      fun h => not_foreign_of_belongs h.1 hforeign⟩
  have hone : (hostMessage 1 .REMOVE).update.rrs =
      [hostRr 1 .REMOVE] := rfl
  have hdb := update_stray hone hstray
  have hrows :
      (twoZonesDisk.db.deleteRr (hostRr 1 .REMOVE).id).rrs.rows = [] := by
    decide
  refine ⟨by decide, by rw [hdb, hrows], ?_⟩
  intro hframed
  have hkept := hframed.kept _ (by decide) hforeign
  rw [hdb, hrows] at hkept
  simp at hkept

end TwoZones

end DyndnsMgr

end Ndns

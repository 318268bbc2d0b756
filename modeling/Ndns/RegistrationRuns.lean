import Mathlib.Data.List.Dedup
import Ndns.DatabaseRuns
import Ndns.FailedStatements

/-!
# What a registration leaves

A registration looks the zone up and then inserts: the zone itself or the rrset
of a subzone, the rrset of the certificate, and the rows.  Only the zone is
looked up beforehand, so that an rrset that is there already is found by the
unique index, in the middle of the insertions.

**Results.**
* `tryRegister_leaves`: all rows, nothing, or the insertions in front of the one
  that fails;
* `delegated_iff`: when a subzone can be looked up under its own name.
-/

namespace Ndns

theorem Db.lastId_insertRrset
    {db db' : Db} {row : RRSetRow} {n : Nat}
    (h : db.insertRrset row = some (n, db')) :
    db'.rrsets.lastId = n := by
  obtain ⟨-, -, hrows, hfresh, -⟩ := Db.insertRrset_eq_some h
  exact Table.lastId_append hrows hfresh

/-- An insertion, and what is behind it. -/
theorem Db.behind_insert_cons
    {db db' : Db} {stmt : Stmt} {stmts : List Stmt}
    (f : Db → Option (Nat × Db))
    (hrun : ∀ db, stmt.run db =
      (f db).map (fun (n, db) => ⟨[], db, some n⟩))
    (h : db.behind (stmt :: stmts) = some db') :
    ∃ n db₁, f db = some (n, db₁) ∧ db₁.behind stmts = some db' := by
  rw [Db.behind_cons, hrun, Option.bind_eq_some_iff] at h
  obtain ⟨r, hr, hrest⟩ := h
  obtain ⟨⟨n, db₁⟩, hins, rfl⟩ := Option.map_eq_some_iff.mp hr
  exact ⟨n, db₁, hins, hrest⟩

namespace ZoneRegister

variable (r : ZoneRegister) (db : Db)

/-- The zone has been registered. -/
def Known : Prop :=
  (db.zoneIds r.zone.authorizedName).length ≠ 0

instance : Decidable (r.Known db) :=
  inferInstanceAs (Decidable (_ ≠ _))

/-- The zone behind its look-up. -/
def knownZone : Zone :=
  { r.zone with
    id := (db.zoneIds r.zone.authorizedName).getLastD r.zone.id }

/-- The statements behind the look-up of the zone. -/
def topInsertions : List Stmt :=
  [.insertZone r.zone.authorizedName,
    .insertRrset (db.zones.lastId + 1) r.certLabel (ascii "NULL") .ID_CERT,
    .insertRr (db.rrsets.lastId + 1) 3600 r.cert.text]

def zoneInsertions : List Stmt :=
  [.insertRrset (r.knownZone db).id r.certLabel (ascii "NULL") .ID_CERT,
    .insertRrset (r.knownZone db).id r.subLabel (ascii "NULL") r.rrType,
    .insertRr (db.rrsets.lastId + 1) 3600 r.cert.text] ++
      r.nsDatas.map (.insertRr (db.rrsets.lastId + 2) 3600)

/-- The registration gets behind its checks. -/
def Registers : Prop :=
  if r.zone.authorizedName = r.subzone.authorizedName then
    r.rrType = .NS ∧ ¬ r.Known db
  else r.Known db

instance : Decidable (r.Registers db) :=
  inferInstanceAs (Decidable (ite _ _ _))

def insertions : List Stmt :=
  if r.zone.authorizedName = r.subzone.authorizedName then
    r.topInsertions db
  else r.zoneInsertions db

/-- The statements of a registration. -/
def plan : List Stmt :=
  if r.zone.authorizedName = r.subzone.authorizedName ∧ r.rrType ≠ .NS then
    []
  else .selectZoneId r.zone.authorizedName ::
    if r.Registers db then r.insertions db else []

section Statements

variable {P : NameParser} {S : Sqlite} {r} {db} {disk : Disk}

theorem registers_top_iff
    (htop : r.zone.authorizedName = r.subzone.authorizedName) :
    r.Registers db ↔ r.rrType = .NS ∧ ¬ r.Known db := by
  rw [Registers, if_pos htop]

theorem registers_sub_iff
    (hsub : r.zone.authorizedName ≠ r.subzone.authorizedName) :
    r.Registers db ↔ r.Known db := by
  rw [Registers, if_neg hsub]

theorem cleanText_null : Stmt.CleanText (ascii "NULL") := by
  decide

theorem performs_insertRrs
    (rrs : List RR) (hquote : ∀ rr ∈ rrs, (39 : UInt8) ∉ rr.rrData)
    (disk : Disk) :
    Performs S (rrs.mapM (RRMgr.insert S))
      (rrs.map (fun rr => .insertRr rr.rrset.id rr.ttl rr.rrData)) disk
      (fun _ _ => True) False := by
  induction rrs generalizing disk with
  | nil =>
      rw [List.mapM_nil]
      exact performs_pure trivial
  | cons rr rrs ih =>
      rw [List.mapM_cons, List.map_cons, ← List.singleton_append]
      refine Performs.bind
        (RRMgr.performs_insert rr (hquote rr (by simp))) ?_
      intro _ d _
      refine Performs.bind_nil
        (ih (fun x hx => hquote x (List.mem_cons_of_mem rr hx)) d) ?_
      exact fun _ _ _ => performs_pure trivial

/-- The insertions of a zone of its own. -/
theorem performs_topInsertions {zone : Zone} {d : Disk}
    (hname : zone.authorizedName = r.zone.authorizedName) :
    Performs S
      (do
        let zone ← ZoneMgr.insert S zone
        let label ← nameOfUri P r.certLabel.toUri
        let rrset ← RRSetMgr.insert S (rrsetOf zone label .ID_CERT)
        let rr ← RRMgr.insert S (rrOf rrset r.cert.text)
        return (true, { r with zone := zone, rrs := r.rrs ++ [rr] }))
      (r.topInsertions d.db) d (fun x _ => x.1 = true) False := by
  have hplan : r.topInsertions d.db =
      [.insertZone zone.authorizedName] ++
        [.insertRrset (d.db.zones.lastId + 1) r.certLabel (ascii "NULL")
          .ID_CERT,
        .insertRr (d.db.rrsets.lastId + 1) 3600 r.cert.text] := by
    rw [hname]
    rfl
  rw [hplan]
  refine Performs.bind (ZoneMgr.performs_insert zone) ?_
  rintro _ d₁ ⟨rfl, hins⟩
  have hsets : d₁.db.rrsets = d.db.rrsets := (Db.insertZone_eq_some hins).2.1
  rw [nameOfUri_toUri, pure_bind, ← List.singleton_append]
  refine Performs.bind (RRSetMgr.performs_insert _ cleanText_null) ?_
  rintro _ d₂ ⟨rfl, -⟩
  rw [← hsets]
  refine Performs.bind_nil
    (RRMgr.performs_insert _ r.cert.quote_notMem) ?_
  exact fun _ _ _ => performs_pure rfl

/-- A zone of its own. -/
theorem performs_doRegisterTop
    (htop : r.zone.authorizedName = r.subzone.authorizedName) :
    Performs S (r.doRegisterTop P S) (r.plan disk.db) disk
      (fun x _ => x.1 = decide (r.Registers disk.db)) False := by
  have hregisters : r.Registers disk.db ↔ _ := registers_top_iff htop
  unfold doRegisterTop plan insertions
  rw [if_pos htop]
  by_cases htype : r.rrType = .NS
  · rw [if_neg (by simp [htype]), if_neg (by simp [htype]),
      ← List.singleton_append]
    refine Performs.bind (ZoneMgr.performs_lookupId r.zone) ?_
    rintro ⟨zone, resultNum⟩ d ⟨heq, hd⟩
    obtain ⟨rfl, rfl⟩ := Prod.mk.inj heq
    dsimp only
    by_cases hknown : r.Known disk.db
    · have hnot : ¬ r.Registers disk.db := by
        rw [hregisters]
        exact fun h => h.2 hknown
      rw [if_pos (Nat.pos_of_ne_zero hknown), if_neg hnot]
      exact performs_pure (decide_eq_false hnot).symm
    · have hnum : ¬ (disk.db.zoneIds r.zone.authorizedName).length > 0 :=
        fun hpos => hknown (Nat.pos_iff_ne_zero.mp hpos)
      have hyes : r.Registers disk.db := hregisters.mpr ⟨htype, hknown⟩
      rw [if_neg hnum, if_pos hyes, ← hd]
      refine (performs_topInsertions rfl).weaken ?_ (fun h => h)
      intro x _ hx
      rw [hx, hd, decide_eq_true hyes]
  · have hnot : ¬ r.Registers disk.db := by
      rw [hregisters]
      exact fun h => htype h.1
    rw [if_pos htype, if_pos ⟨htop, htype⟩]
    exact performs_pure (decide_eq_false hnot).symm

/-- The insertions of a subzone. -/
theorem performs_zoneInsertions
    {zone : Zone} {d : Disk}
    (hquote : ∀ a ∈ r.nsDatas, (39 : UInt8) ∉ a)
    (hzone : zone.id = (r.knownZone d.db).id) :
    Performs S
      (do
        let label ← nameOfUri P r.certLabel.toUri
        let label2 ← nameOfUri P r.subLabel.toUri
        let rrset ← RRSetMgr.insert S (rrsetOf zone label .ID_CERT)
        let rrset2 ← RRSetMgr.insert S (rrsetOf zone label2 r.rrType)
        let rrs ← (rrOf rrset r.cert.text ::
          r.nsDatas.map (rrOf rrset2)).mapM (RRMgr.insert S)
        return (true, { r with zone := zone, rrs := r.rrs ++ rrs }))
      (r.zoneInsertions d.db) d (fun x _ => x.1 = true) False := by
  rw [nameOfUri_toUri, pure_bind, nameOfUri_toUri, pure_bind,
    zoneInsertions, ← hzone, List.cons_append, List.cons_append,
    ← List.singleton_append]
  refine Performs.bind (RRSetMgr.performs_insert _ cleanText_null) ?_
  rintro _ d₁ ⟨rfl, hins⟩
  have hlast : d₁.db.rrsets.lastId = d.db.rrsets.lastId + 1 :=
    Db.lastId_insertRrset hins
  rw [← List.singleton_append]
  refine Performs.bind (RRSetMgr.performs_insert _ cleanText_null) ?_
  rintro _ d₂ ⟨rfl, -⟩
  have hrrs : Performs S _ _ d₂ _ _ := performs_insertRrs (S := S)
    (rrOf { rrsetOf zone r.certLabel .ID_CERT with
        id := d.db.rrsets.lastId + 1 } r.cert.text ::
      r.nsDatas.map (rrOf { rrsetOf zone r.subLabel r.rrType with
        id := d₁.db.rrsets.lastId + 1 })) ?_ d₂
  · rw [hlast, List.map_cons, List.map_map] at hrrs
    rw [hlast]
    exact Performs.bind_nil hrrs (fun _ _ _ => performs_pure rfl)
  · intro rr hrr
    rcases List.mem_cons.mp hrr with rfl | hrr
    · exact r.cert.quote_notMem
    · obtain ⟨a, ha, rfl⟩ := List.mem_map.mp hrr
      exact hquote a ha

/-- A subzone. -/
theorem performs_doRegisterZone
    (hsub : r.zone.authorizedName ≠ r.subzone.authorizedName)
    (hquote : ∀ a ∈ r.nsDatas, (39 : UInt8) ∉ a) :
    Performs S (r.doRegisterZone P S) (r.plan disk.db) disk
      (fun x _ => x.1 = decide (r.Registers disk.db)) False := by
  have hregisters : r.Registers disk.db ↔ _ := registers_sub_iff hsub
  unfold doRegisterZone plan insertions
  rw [if_neg hsub, if_neg (fun h => hsub h.1), ← List.singleton_append]
  refine Performs.bind (ZoneMgr.performs_lookupId r.zone) ?_
  rintro ⟨zone, resultNum⟩ d ⟨heq, hd⟩
  obtain ⟨rfl, rfl⟩ := Prod.mk.inj heq
  dsimp only
  by_cases hknown : r.Known disk.db
  · have hyes : r.Registers disk.db := hregisters.mpr hknown
    rw [if_neg hknown, if_pos hyes, ← hd]
    refine (performs_zoneInsertions hquote rfl).weaken ?_ (fun h => h)
    intro x _ hx
    rw [hx, hd, decide_eq_true hyes]
  · have hnot : ¬ r.Registers disk.db := fun h => hknown (hregisters.mp h)
    rw [if_pos (not_not.mp hknown), if_neg hnot]
    exact performs_pure (decide_eq_false hnot).symm

/-- A registration executes its plan as far as it goes. -/
theorem performs_tryRegister
    (hquote : ∀ a ∈ r.nsDatas, (39 : UInt8) ∉ a) :
    Performs S (r.tryRegister P S) (r.plan disk.db) disk
      (fun x _ => x.1 = decide (r.Registers disk.db)) False := by
  unfold tryRegister
  split_ifs with htop
  · exact performs_doRegisterTop htop
  · exact performs_doRegisterZone htop hquote

end Statements

section Rows

variable {r} {db} {db' : Db}

/-- A row is there, whatever its id. -/
def Stored (db : Db) (row : RRRow) : Prop :=
  ∃ t ∈ db.rrs.rows, t.2 = row

theorem stored_insertRr
    {row : RRRow} {m : Nat} (h : db.insertRr row = some (m, db')) :
    Stored db' row := by
  refine ⟨(m, row), ?_, rfl⟩
  rw [(Db.insertRr_eq_some h).2.2]
  exact List.mem_append_right _ (List.mem_singleton_self _)

/-- The trigger deletes a row only in front of its successor. -/
theorem Stored.insertRr
    {row new : RRRow} {m : Nat} (hrow : Stored db row)
    (h : db.insertRr new = some (m, db'))
    (hsame : row.rrsetId = new.rrsetId → row.ttl = new.ttl) :
    Stored db' row := by
  obtain ⟨t, ht, rfl⟩ := hrow
  by_cases hkey : t.2.rrsetId = new.rrsetId ∧ t.2.rrdata = new.rrdata
  · have heq : t.2 = new := by
      cases hrow : t.2 with
      | mk rrsetId ttl rrdata =>
          cases new with
          | mk rrsetId' ttl' rrdata' =>
              rw [hrow] at hkey hsame
              obtain ⟨rfl, rfl⟩ := hkey
              rw [show ttl = ttl' from hsame rfl]
    rw [heq]
    exact stored_insertRr h
  · refine ⟨t, ?_, rfl⟩
    rw [(Db.insertRr_eq_some h).2.2]
    exact List.mem_append_left _
      (List.mem_filter.mpr ⟨ht, by simpa using not_and_or.mp hkey⟩)

theorem rrRows_insertRr_of_ne
    {row : RRRow} {m k : Nat} (h : db.insertRr row = some (m, db'))
    (hk : k ≠ row.rrsetId) :
    db'.rrRows k = db.rrRows k := by
  unfold Db.rrRows
  rw [(Db.insertRr_eq_some h).2.2, List.filter_append, List.filter_filter,
    List.filter_cons_of_neg (by simpa using hk.symm), List.filter_nil,
    List.append_nil]
  refine List.filter_congr ?_
  intro t _
  by_cases hset : t.2.rrsetId = k
  · simp [hset, hk]
  · simp [hset]

/-- Data are inserted in an rrset, one after the other. -/
structure Inserted (n ttl : Nat) (as : List Bytes) (db db' : Db) :
    Prop where
  zones_eq : db'.zones = db.zones
  rrsets_eq : db'.rrsets = db.rrsets
  others : ∀ k, k ≠ n → db'.rrRows k = db.rrRows k
  kept : ∀ row : RRRow, (row.rrsetId = n → row.ttl = ttl) →
    Stored db row → Stored db' row
  stored : ∀ a ∈ as, Stored db' ⟨n, ttl, a⟩
  data : DyndnsMgr.dataOf db' n =
    (DyndnsMgr.dataOf db n).filter (· ∉ as) ++ as.dedup

theorem filter_notMem_append_dedup
    (a : Bytes) (as bs : List Bytes) :
    (bs.filter (· ≠ a) ++ [a]).filter (· ∉ as) ++ as.dedup =
      bs.filter (· ∉ a :: as) ++ (a :: as).dedup := by
  have hold : (bs.filter (· ≠ a)).filter (· ∉ as) =
      bs.filter (· ∉ a :: as) := by
    rw [List.filter_filter]
    refine List.filter_congr ?_
    intro b _
    simp [Bool.and_comm]
  rw [List.filter_append, hold, List.append_assoc]
  by_cases ha : a ∈ as
  · simp [ha, List.dedup_cons_of_mem ha]
  · simp [ha, List.dedup_cons_of_notMem ha]

theorem inserted_of_behind
    {n ttl : Nat} {as : List Bytes}
    (h : db.behind (as.map (.insertRr n ttl)) = some db') :
    Inserted n ttl as db db' := by
  induction as generalizing db with
  | nil =>
      obtain rfl := Option.some.inj h
      exact ⟨rfl, rfl, fun _ _ => rfl, fun _ _ hrow => hrow, by simp,
        by simp⟩
  | cons a as ih =>
      obtain ⟨m, db₁, hins, hrest⟩ := Db.behind_insert_cons
        (fun db => db.insertRr ⟨n, ttl, a⟩) (fun _ => rfl) h
      have hnext := ih hrest
      obtain ⟨hzones, hsets, -⟩ := Db.insertRr_eq_some hins
      refine ⟨hnext.zones_eq.trans hzones, hnext.rrsets_eq.trans hsets, ?_,
        ?_, ?_, ?_⟩
      · intro k hk
        rw [hnext.others k hk, rrRows_insertRr_of_ne hins hk]
      · exact fun row httl hrow =>
          hnext.kept row httl (hrow.insertRr hins httl)
      · intro b hb
        rcases List.mem_cons.mp hb with rfl | hb
        · exact hnext.kept _ (fun _ => rfl) (stored_insertRr hins)
        · exact hnext.stored b hb
      · rw [hnext.data, DyndnsMgr.dataOf_insertRr hins]
        exact filter_notMem_append_dedup a as _

end Rows

section Registered

/-- The rows of a registration are there. -/
structure Registered (r : ZoneRegister) (db : Db) : Prop where
  zone : ∃ z ∈ db.zones.rows, z.2 = r.zone.authorizedName.toUri ∧
    (∃ s ∈ db.rrsets.rows,
      s.2 = RRSetMgr.row (rrsetOf { r.zone with id := z.1 } r.certLabel
        .ID_CERT) ∧
      Stored db ⟨s.1, 3600, r.cert.text⟩) ∧
    (r.zone.authorizedName ≠ r.subzone.authorizedName →
      ∃ s ∈ db.rrsets.rows,
        s.2 = RRSetMgr.row (rrsetOf { r.zone with id := z.1 } r.subLabel
          r.rrType) ∧
        ∀ a ∈ r.nsDatas, Stored db ⟨s.1, 3600, a⟩)

/-- A registration leaves all of its rows, or nothing. -/
structure Atomic (P : NameParser) (S : Sqlite) (r : ZoneRegister)
    (disk : Disk) : Prop where
  registered : ∀ r' d, (r.tryRegister P S).run disk = .ok (true, r') d →
    r.Registered d.db
  refused : ∀ r' d, (r.tryRegister P S).run disk = .ok (false, r') d →
    d.db = disk.db
  thrown : ∀ e d, (r.tryRegister P S).run disk = .error e d →
    d.db = disk.db

/-- It leaves all of its rows, or nothing; or a statement fails, and what the
statements in front of it did stays. -/
structure Leaves (P : NameParser) (S : Sqlite) (r : ZoneRegister)
    (disk : Disk) : Prop where
  registered : ∀ r' d, (r.tryRegister P S).run disk = .ok (true, r') d →
    r.Registered d.db
  refused : ∀ r' d, (r.tryRegister P S).run disk = .ok (false, r') d →
    d.db = disk.db
  thrown : ∀ e d, (r.tryRegister P S).run disk = .error e d →
    ∃ done stmt rest d₀, r.plan disk.db = done ++ stmt :: rest ∧
      S.execute done disk = some d₀ ∧ S.step stmt d₀ = none ∧ d = d₀.next

variable {P : NameParser} {S : Sqlite} {r : ZoneRegister} {db db' : Db}
variable {disk : Disk}

theorem insertRrset_of_stmt {zoneId : Nat} {label : Name} {type : RRType}
    {stmts : List Stmt}
    (h : db.behind (.insertRrset zoneId label (ascii "NULL") type ::
      stmts) = some db') :
    ∃ db₁, db.insertRrset (RRSetMgr.row
        (rrsetOf { id := zoneId, authorizedName := [] } label type)) =
          some (db.rrsets.lastId + 1, db₁) ∧
      db₁.behind stmts = some db' := by
  obtain ⟨n, db₁, hins, hrest⟩ := Db.behind_insert_cons
    (fun db => db.insertRrset ⟨zoneId, label.toUri, some (ascii "NULL"),
      type.toString⟩) (fun _ => rfl) h
  obtain rfl := Db.insertRrset_id hins
  exact ⟨db₁, hins, hrest⟩

/-- The rows of a zone of its own. -/
theorem registered_top
    (htop : r.zone.authorizedName = r.subzone.authorizedName)
    (h : db.behind (r.topInsertions db) = some db') :
    r.Registered db' := by
  obtain ⟨n, db₁, hzone, h⟩ := Db.behind_insert_cons
    (fun db => db.insertZone r.zone.authorizedName.toUri) (fun _ => rfl) h
  obtain rfl := Db.insertZone_id hzone
  obtain ⟨-, hsets₁, hzones₁, -⟩ := Db.insertZone_eq_some hzone
  obtain ⟨db₂, hset, h⟩ := insertRrset_of_stmt h
  obtain ⟨hzones₂, -, hsets₂, -⟩ := Db.insertRrset_eq_some hset
  rw [← hsets₁] at h
  obtain ⟨m, hrow⟩ := DyndnsMgr.behind_insertRr h
  obtain ⟨hzones₃, hsets₃, -⟩ := Db.insertRr_eq_some hrow
  refine ⟨(db.zones.lastId + 1, r.zone.authorizedName.toUri), ?_, rfl,
    ⟨(db₁.rrsets.lastId + 1, _), ?_, rfl, stored_insertRr hrow⟩,
    fun hne => absurd htop hne⟩
  · rw [hzones₃, hzones₂, hzones₁]
    simp
  · rw [hsets₃, hsets₂]
    exact List.mem_append_right _ (List.mem_singleton_self _)

/-- What the insertions of a subzone do. -/
structure SubInserted (r : ZoneRegister) (db db' : Db) : Prop where
  zones_eq : db'.zones = db.zones
  rrsets_eq : db'.rrsets.rows = db.rrsets.rows ++
    [(db.rrsets.lastId + 1,
        RRSetMgr.row (rrsetOf (r.knownZone db) r.certLabel .ID_CERT)),
      (db.rrsets.lastId + 2,
        RRSetMgr.row (rrsetOf (r.knownZone db) r.subLabel r.rrType))]
  others : ∀ k, k ≠ db.rrsets.lastId + 1 → k ≠ db.rrsets.lastId + 2 →
    db'.rrRows k = db.rrRows k
  cert : Stored db' ⟨db.rrsets.lastId + 1, 3600, r.cert.text⟩
  ns : ∀ a ∈ r.nsDatas, Stored db' ⟨db.rrsets.lastId + 2, 3600, a⟩
  certData : DyndnsMgr.dataOf db' (db.rrsets.lastId + 1) =
    (DyndnsMgr.dataOf db (db.rrsets.lastId + 1)).filter
      (· ≠ r.cert.text) ++ [r.cert.text]
  nsData : DyndnsMgr.dataOf db' (db.rrsets.lastId + 2) =
    (DyndnsMgr.dataOf db (db.rrsets.lastId + 2)).filter
      (· ∉ r.nsDatas) ++ r.nsDatas.dedup

theorem dataOf_congr
    {n : Nat} (h : db'.rrRows n = db.rrRows n) :
    DyndnsMgr.dataOf db' n = DyndnsMgr.dataOf db n := by
  rw [DyndnsMgr.dataOf, h]
  rfl

theorem rrRows_of_rrs_eq (h : db'.rrs = db.rrs) (n : Nat) :
    db'.rrRows n = db.rrRows n := by
  rw [Db.rrRows, h]
  rfl

theorem subInserted
    (h : db.behind (r.zoneInsertions db) = some db') :
    r.SubInserted db db' := by
  rw [zoneInsertions, List.cons_append, List.cons_append,
    List.singleton_append] at h
  obtain ⟨db₁, hset₁, h⟩ := insertRrset_of_stmt h
  obtain ⟨db₂, hset₂, h⟩ := insertRrset_of_stmt h
  obtain ⟨m, db₃, hrow, h⟩ := Db.behind_insert_cons
    (fun d => d.insertRr ⟨db.rrsets.lastId + 1, 3600, r.cert.text⟩)
    (fun _ => rfl) h
  have hns := inserted_of_behind h
  rw [Db.lastId_insertRrset hset₁] at hset₂
  obtain ⟨hzones₁, hrrs₁, hsets₁, -⟩ := Db.insertRrset_eq_some hset₁
  obtain ⟨hzones₂, hrrs₂, hsets₂, -⟩ := Db.insertRrset_eq_some hset₂
  obtain ⟨hzones₃, hsets₃, -⟩ := Db.insertRr_eq_some hrow
  have hsame := rrRows_of_rrs_eq (hrrs₂.trans hrrs₁)
  have hcert := hns.others (db.rrsets.lastId + 1) (by omega)
  refine ⟨?_, ?_, ?_, ?_, hns.stored, ?_, ?_⟩
  · rw [hns.zones_eq, hzones₃, hzones₂, hzones₁]
  · rw [hns.rrsets_eq, hsets₃, hsets₂, hsets₁, List.append_assoc]
    rfl
  · intro k hk₁ hk₂
    rw [hns.others k hk₂, rrRows_insertRr_of_ne hrow hk₁, hsame]
  · exact hns.kept _ (fun _ => rfl) (stored_insertRr hrow)
  · rw [dataOf_congr hcert, DyndnsMgr.dataOf_insertRr hrow,
      dataOf_congr (hsame _)]
  · rw [hns.data, dataOf_congr
      (rrRows_insertRr_of_ne hrow (show _ + 2 ≠ _ + 1 by omega)),
      dataOf_congr (hsame _)]

theorem exists_knownZone (hknown : r.Known db) :
    ∃ z ∈ db.zones.rows, z.2 = r.zone.authorizedName.toUri ∧
      z.1 = (r.knownZone db).id :=
  Db.exists_zone hknown r.zone.id

theorem SubInserted.registered
    (h : r.SubInserted db db') (hknown : r.Known db) :
    r.Registered db' := by
  obtain ⟨z, hz, hname, hid⟩ := exists_knownZone hknown
  have hzone : { r.zone with id := z.1 } = r.knownZone db := by
    rw [hid]
    rfl
  refine ⟨z, h.zones_eq ▸ hz, hname, ?_, fun _ => ?_⟩
  · rw [hzone, h.rrsets_eq]
    exact ⟨(db.rrsets.lastId + 1, _),
      List.mem_append_right _ (List.mem_cons_self ..), rfl, h.cert⟩
  · rw [hzone, h.rrsets_eq]
    exact ⟨(db.rrsets.lastId + 2, _), List.mem_append_right _
      (List.mem_cons_of_mem _ (List.mem_singleton_self _)), rfl, h.ns⟩

/-- The plan of a registration that gets behind its checks. -/
theorem behind_plan
    (hregisters : r.Registers db) :
    db.behind (r.plan db) = db.behind (r.insertions db) := by
  have htype : ¬ (r.zone.authorizedName = r.subzone.authorizedName ∧
      r.rrType ≠ .NS) := by
    rintro ⟨htop, htype⟩
    exact htype ((registers_top_iff htop).mp hregisters).1
  rw [plan, if_neg htype, if_pos hregisters]
  rfl

theorem subInserted_of_plan
    (hsub : r.zone.authorizedName ≠ r.subzone.authorizedName)
    (hregisters : r.Registers db)
    (h : db.behind (r.plan db) = some db') :
    r.SubInserted db db' := by
  rw [behind_plan hregisters, insertions, if_neg hsub] at h
  exact subInserted h

/-- What the whole plan leaves. -/
theorem registered_of_plan
    (hregisters : r.Registers db)
    (h : db.behind (r.plan db) = some db') :
    r.Registered db' := by
  by_cases htop : r.zone.authorizedName = r.subzone.authorizedName
  · rw [behind_plan hregisters, insertions, if_pos htop] at h
    exact registered_top htop h
  · exact (subInserted_of_plan htop hregisters h).registered
      ((registers_sub_iff htop).mp hregisters)

theorem behind_plan_of_not (hnot : ¬ r.Registers db) :
    db.behind (r.plan db) = some db := by
  rw [plan, if_neg hnot]
  split_ifs <;> rfl

theorem tryRegister_leaves
    (hquote : ∀ a ∈ r.nsDatas, (39 : UInt8) ∉ a) :
    r.Leaves P S disk := by
  have hrun : Performs S (r.tryRegister P S) (r.plan disk.db) disk _ _ :=
    performs_tryRegister hquote
  refine ⟨?_, ?_, ?_⟩
  · intro r' d hok
    have hends := hrun disk rfl
    rw [hok] at hends
    exact registered_of_plan (by simpa using hends.2.symm)
      (Sqlite.execute_db hends.1)
  · intro r' d hok
    have hends := hrun disk rfl
    rw [hok] at hends
    have hnot : ¬ r.Registers disk.db := by simpa using hends.2.symm
    have hbehind := Sqlite.execute_db hends.1
    rw [behind_plan_of_not hnot] at hbehind
    exact (Option.some.inj hbehind).symm
  · intro e d hthrown
    have hends := hrun disk rfl
    rw [hthrown] at hends
    rcases hends with ⟨d₀, rfl, done, stmt, rest, hcut, hdone, hstep⟩ |
        ⟨-, hfalse⟩
    · exact ⟨done, stmt, rest, d₀, hcut, hdone, hstep, rfl⟩
    · exact hfalse.elim

end Registered

section Net

open Call

/-- The state behind a registration, however it ends. -/
def registered (r : ZoneRegister) (disk : Disk) : Disk :=
  Effect.behind (r.tryRegister uriParser DyndnsMgr.reliable) disk

/-- The value of a registration; `none` if it throws. -/
def value (r : ZoneRegister) (disk : Disk) : Option Bool :=
  match (r.tryRegister uriParser DyndnsMgr.reliable).run disk with
  | .ok x _ => some x.1
  | .error _ _ => none

theorem run_of_value_none
    {r : ZoneRegister} {disk : Disk} (h : value r disk = none) :
    ∃ e, (r.tryRegister uriParser DyndnsMgr.reliable).run disk =
      .error e (registered r disk) := by
  unfold value at h
  unfold registered Effect.behind
  cases hrun : (r.tryRegister uriParser DyndnsMgr.reliable).run disk with
  | ok x d =>
      simp [hrun] at h
  | error e d =>
      exact ⟨e, rfl⟩

/-- `/net` has been registered. -/
def netDisk : Disk :=
  registered netTop emptyDisk

theorem tryRegister_leaves_netSub :
    netSub.Leaves uriParser DyndnsMgr.reliable netDisk :=
  tryRegister_leaves (by decide)

/-- The subzone with a new key. -/
def netRollover : ZoneRegister :=
  { netSub with
    cert :=
      { name := [ascii "net", ascii "KEY", ascii "sub", ascii "ksk-2",
          ascii "ID-CERT"]
        text := ascii "Bv0CtAcs"
        quote_notMem := by decide } }

/-- The rrset of the new certificate is added, and then the one of the name
servers is there already. -/
theorem netRollover_not_atomic :
    ¬ netRollover.Atomic uriParser DyndnsMgr.reliable
      (registered netSub netDisk) := by
  have hthrows : value netRollover (registered netSub netDisk) = none := by
    decide +kernel
  have hleft : (registered netRollover (registered netSub netDisk)).db ≠
      (registered netSub netDisk).db := by
    decide +kernel
  obtain ⟨e, hthrown⟩ := run_of_value_none hthrows
  exact fun h => hleft (h.thrown e _ hthrown)

end Net

end ZoneRegister

end Ndns

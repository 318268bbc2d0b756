import Ndns.RegistrationRuns

/-!
# Look-ups behind a registration

A subzone that was registered can be looked up in its parent: its name servers
under the label that is left of its name when as many components are dropped as
the parent has, and its certificate likewise.  The components that are dropped
are not compared with the name of the parent.

**Results.**
* `returns_iff`: what a look-up returns;
* `delegated_iff`: when a subzone is delegated under its own name.
-/

namespace Ndns

namespace QueryMgr

variable {P : NameParser} {db db' : Db} {zone : Zone} {query : Query}

/-- What a look-up finds if no statement fails. -/
def Returns (P : NameParser) (db : Db) (zone : Zone) (query : Query)
    (rrs : List RR) : Prop :=
  ∀ (S : Sqlite) (disk : Disk) (response : Response),
    (∀ n, S.fails n = false) → disk.db = db →
      Effect.Total (· = disk) (lookup P S zone query response)
        (fun x _ => x = response.setRrs rrs)

theorem returns_found : Returns P db zone query (found zone query db) := by
  intro S disk response hfails hdb
  refine (lookup_triple P S zone query response disk).conseq
    (fun _ hd => hd) ?_ ?_
  · rintro x d ⟨-, -, rfl⟩
    rw [hdb]
  · rintro d ⟨-, hfail⟩
    simp [hfails] at hfail

theorem returns_iff {rrs : List RR} :
    Returns P db zone query rrs ↔ rrs = found zone query db := by
  constructor
  · intro h
    have hrun := h DyndnsMgr.reliable ⟨db, 0, 0⟩ Response.init
      (fun _ => rfl) rfl _ rfl
    have hreturns : Returns P db zone query (found zone query db) :=
      returns_found
    have hfound := hreturns DyndnsMgr.reliable ⟨db, 0, 0⟩ Response.init
      (fun _ => rfl) rfl _ rfl
    cases heq : (lookup P DyndnsMgr.reliable zone query Response.init).run
        ⟨db, 0, 0⟩ with
    | error e d =>
        rw [heq] at hrun
        exact hrun.elim
    | ok x d =>
        rw [heq] at hrun hfound
        have hsame := hrun.symm.trans hfound
        exact congrArg Response.rrs hsame
  · rintro rfl
    exact returns_found

theorem map_rrData_found :
    (found zone query db).map RR.rrData =
      DyndnsMgr.dataOf db (asked zone query db).id := by
  rw [found, List.map_map]
  rfl

theorem found_congr
    (hid : (asked zone query db').id = (asked zone query db).id)
    (hrows : db'.rrRows (asked zone query db).id =
      db.rrRows (asked zone query db).id) :
    found zone query db' = found zone query db := by
  have hasked : asked zone query db' = asked zone query db :=
    congrArg (fun n => { asked zone query db with id := n }) hid
  rw [found, found, hasked, hrows]

end QueryMgr

namespace ZoneRegister

variable {P : NameParser} {S : Sqlite} {r : ZoneRegister} {db db' : Db}

/-- The subzone is delegated under a label, and nothing else is touched. -/
structure DelegatedAt (P : NameParser) (r : ZoneRegister) (db db' : Db)
    (label : Name) : Prop where
  inserted : ∃ n m, db'.rrsets.rows = db.rrsets.rows ++
    [(n, RRSetMgr.row (rrsetOf (r.knownZone db) r.certLabel .ID_CERT)),
      (m, RRSetMgr.row (rrsetOf (r.knownZone db) label r.rrType))]
  name : r.zone.authorizedName ++ label = r.subzone.authorizedName
  ns : ∀ query : Query, query.rrLabel = label → query.rrType = r.rrType →
    ∃ rrs, QueryMgr.Returns P db' (r.knownZone db) query rrs ∧
      rrs.map RR.rrData = r.nsDatas.dedup
  cert : ∀ query : Query,
    query.rrLabel = r.cert.name.drop r.zone.authorizedName.length →
      query.rrType = .ID_CERT →
        ∃ rrs, QueryMgr.Returns P db' (r.knownZone db) query rrs ∧
          rrs.map RR.rrData = [r.cert.text]
  others : ∀ (zone : Zone) (query : Query),
    ¬ (zone.id = (r.knownZone db).id ∧ query.rrLabel = label ∧
        query.rrType = r.rrType) →
    ¬ (zone.id = (r.knownZone db).id ∧
        query.rrLabel = r.cert.name.drop r.zone.authorizedName.length ∧
        query.rrType = .ID_CERT) →
      ∀ rrs, QueryMgr.Returns P db' zone query rrs ↔
        QueryMgr.Returns P db zone query rrs

/-- The subzone is delegated under the label of the rrset that was inserted. -/
def Delegated (P : NameParser) (r : ZoneRegister) (db db' : Db) : Prop :=
  ∃ label, r.DelegatedAt P db db' label

theorem certLabel_eq_drop :
    r.certLabel = r.cert.name.drop r.zone.authorizedName.length := by
  rw [certLabel, Name.getSubName, List.take_of_length_le]
  rw [List.length_drop]

theorem subLabel_eq_drop :
    r.subLabel =
      r.subzone.authorizedName.drop r.zone.authorizedName.length := rfl

/-- The rrset that is looked up is the one with its key. -/
theorem asked_id_eq
    {zone : Zone} {query : Query} {s : Nat × RRSetRow}
    (hs : s ∈ db.rrsets.rows)
    (hkey : s.2.hasKey zone.id query.rrLabel.toUri
      query.rrType.toString = true)
    (hunique : ∀ t ∈ db.rrsets.rows,
      t.2.hasKey zone.id query.rrLabel.toUri query.rrType.toString =
        true → t = s) :
    (QueryMgr.asked zone query db).id = s.1 := by
  have hne : db.rrsetId zone.id query.rrLabel.toUri
      query.rrType.toString ≠ 0 := by
    intro hzero
    have hnone := Db.rrsetId_eq_zero_iff.mp hzero s hs
    rw [hkey] at hnone
    exact absurd hnone (by simp)
  obtain ⟨t, ht, hid, htkey⟩ := Db.exists_rrset hne
  exact hid.symm.trans (congrArg Prod.fst (hunique t ht htkey))

/-- The row of an rrset has a key exactly if it is looked up by it. -/
theorem hasKey_row_iff {zone zone' : Zone} {label label' : Name}
    {type type' : RRType} :
    (RRSetMgr.row (rrsetOf zone label type)).hasKey zone'.id label'.toUri
        type'.toString = true ↔
      zone'.id = zone.id ∧ label' = label ∧ type' = type := by
  simp only [RRSetRow.hasKey, RRSetMgr.row, rrsetOf, RRSet.ofZone,
    Bool.and_eq_true]
  constructor
  · rintro ⟨⟨hzone, hlabel⟩, htype⟩
    exact ⟨(of_decide_eq_true hzone).symm,
      (Name.toUri_injective (of_decide_eq_true hlabel)).symm,
      (RRType.toString_injective (of_decide_eq_true htype)).symm⟩
  · rintro ⟨hzone, rfl, rfl⟩
    exact ⟨⟨decide_eq_true hzone.symm, decide_eq_true rfl⟩,
      decide_eq_true rfl⟩

/-- The two rrsets of a registration have different keys. -/
theorem SubInserted.keys_ne (h : r.SubInserted db db') :
    ¬ (r.subLabel = r.certLabel ∧ r.rrType = .ID_CERT) := by
  rintro ⟨hlabel, htype⟩
  have hmem (s : Nat × RRSetRow)
      (hs : s ∈ [(db.rrsets.lastId + 1,
          RRSetMgr.row (rrsetOf (r.knownZone db) r.certLabel .ID_CERT)),
        (db.rrsets.lastId + 2,
          RRSetMgr.row (rrsetOf (r.knownZone db) r.subLabel r.rrType))]) :
      s ∈ db'.rrsets.rows := by
    rw [h.rrsets_eq]
    exact List.mem_append_right _ hs
  have heq := db'.rrsets_unique _ (hmem _ (List.mem_cons_self ..)) _
    (hmem _ (List.mem_cons_of_mem _ (List.mem_cons_self ..)))
    (by simp [RRSetMgr.row]) (by rw [hlabel, htype])
  have hid := congrArg Prod.fst heq
  simp at hid

/-- What a registration relies on: nothing is there at its labels, and no row
waits for the ids of its rrsets. -/
structure Free (r : ZoneRegister) (db : Db) : Prop where
  rr_rrset : ∀ t ∈ db.rrs.rows, ∃ s ∈ db.rrsets.rows, s.1 = t.2.rrsetId
  cert : ∀ s ∈ db.rrsets.rows,
    s.2.hasKey (r.knownZone db).id r.certLabel.toUri
      RRType.ID_CERT.toString = false
  sub : ∀ s ∈ db.rrsets.rows,
    s.2.hasKey (r.knownZone db).id r.subLabel.toUri r.rrType.toString =
      false

theorem Free.dataOf_eq_nil
    (h : r.Free db) {n : Nat} (hn : db.rrsets.lastId < n) :
    DyndnsMgr.dataOf db n = [] := by
  rw [DyndnsMgr.dataOf, List.map_eq_nil_iff, Db.rrRows,
    List.filter_eq_nil_iff]
  intro t ht hset
  obtain ⟨s, hs, hid⟩ := h.rr_rrset t ht
  have hle := Table.le_lastId hs
  rw [hid, of_decide_eq_true hset] at hle
  omega

/-- A look-up of one of the new rrsets. -/
theorem SubInserted.asked_id
    (h : r.SubInserted db db') {query : Query} {n : Nat} {label : Name}
    {type : RRType}
    (hnew : (n, RRSetMgr.row (rrsetOf (r.knownZone db) label type)) ∈
      db'.rrsets.rows)
    (hold : ∀ s ∈ db.rrsets.rows,
      s.2.hasKey (r.knownZone db).id label.toUri type.toString = false)
    (hother : ∀ s ∈ [(db.rrsets.lastId + 1,
          RRSetMgr.row (rrsetOf (r.knownZone db) r.certLabel .ID_CERT)),
        (db.rrsets.lastId + 2,
          RRSetMgr.row (rrsetOf (r.knownZone db) r.subLabel r.rrType))],
      s.2.hasKey (r.knownZone db).id label.toUri type.toString = true →
        s.1 = n)
    (hlabel : query.rrLabel = label) (htype : query.rrType = type) :
    (QueryMgr.asked (r.knownZone db) query db').id = n := by
  subst hlabel htype
  refine asked_id_eq hnew
    (hasKey_row_iff.mpr ⟨rfl, rfl, rfl⟩) ?_
  intro t ht hkey
  refine Table.eq_of_id ht hnew ?_
  rw [h.rrsets_eq] at ht
  rcases List.mem_append.mp ht with ht | ht
  · exact absurd hkey (by simp [hold t ht])
  · exact hother t ht hkey

/-- A look-up of another rrset. -/
theorem SubInserted.found_of_other
    (h : r.SubInserted db db') {zone : Zone} {query : Query}
    (hsub : ¬ (zone.id = (r.knownZone db).id ∧ query.rrLabel = r.subLabel ∧
      query.rrType = r.rrType))
    (hcert : ¬ (zone.id = (r.knownZone db).id ∧
      query.rrLabel = r.certLabel ∧ query.rrType = .ID_CERT)) :
    QueryMgr.found zone query db' = QueryMgr.found zone query db := by
  have hid : (QueryMgr.asked zone query db').id =
      (QueryMgr.asked zone query db).id := by
    refine Table.lastWhere_append_of_not h.rrsets_eq ?_
    intro s hs
    simp only [List.mem_cons, List.not_mem_nil, or_false] at hs
    rw [← Bool.not_eq_true]
    rcases hs with rfl | rfl
    · exact fun hkey => hcert (hasKey_row_iff.mp hkey)
    · exact fun hkey => hsub (hasKey_row_iff.mp hkey)
  have hle : (QueryMgr.asked zone query db).id ≤ db.rrsets.lastId :=
    Table.lastWhere_le_lastId _ _
  exact QueryMgr.found_congr hid (h.others _ (by omega) (by omega))

/-- What is found behind a registration, if nothing was in its way. -/
theorem SubInserted.delegatedAt
    (h : r.SubInserted db db') (hfree : r.Free db)
    (hname : r.zone.authorizedName ++ r.subLabel =
      r.subzone.authorizedName) :
    r.DelegatedAt P db db' r.subLabel := by
  have hkeys := h.keys_ne
  refine ⟨⟨_, _, h.rrsets_eq⟩, hname, ?_, ?_, ?_⟩
  · intro query hlabel htype
    refine ⟨_, QueryMgr.returns_found, ?_⟩
    have hid := h.asked_id (n := db.rrsets.lastId + 2) (by
        rw [h.rrsets_eq]
        simp) hfree.sub ?_ hlabel htype
    · rw [QueryMgr.map_rrData_found, hid, h.nsData,
        hfree.dataOf_eq_nil (by omega)]
      rfl
    · intro s hs hkey
      simp only [List.mem_cons, List.not_mem_nil, or_false] at hs
      rcases hs with rfl | rfl
      · obtain ⟨-, hl, ht⟩ := hasKey_row_iff.mp hkey
        exact absurd ⟨hl, ht⟩ hkeys
      · rfl
  · intro query hlabel htype
    rw [← certLabel_eq_drop] at hlabel
    refine ⟨_, QueryMgr.returns_found, ?_⟩
    have hid := h.asked_id (n := db.rrsets.lastId + 1) (by
        rw [h.rrsets_eq]
        simp) hfree.cert ?_ hlabel htype
    · rw [QueryMgr.map_rrData_found, hid, h.certData,
        hfree.dataOf_eq_nil (by omega)]
      rfl
    · intro s hs hkey
      simp only [List.mem_cons, List.not_mem_nil, or_false] at hs
      rcases hs with rfl | rfl
      · rfl
      · obtain ⟨-, hl, ht⟩ := hasKey_row_iff.mp hkey
        exact absurd ⟨hl.symm, ht.symm⟩ hkeys
  · intro zone query hsub hcert rrs
    rw [← certLabel_eq_drop] at hcert
    rw [QueryMgr.returns_iff, QueryMgr.returns_iff,
      h.found_of_other hsub hcert]

/-- A registration that succeeds delegates the subzone under its own name exactly
if its name is one below the name of the parent. -/
theorem delegated_iff
    {disk d : Disk} {r' : ZoneRegister}
    (hne : r.zone.authorizedName ≠ r.subzone.authorizedName)
    (hquote : ∀ a ∈ r.nsDatas, (39 : UInt8) ∉ a)
    (hfree : r.Free disk.db)
    (hrun : (r.tryRegister P S).run disk = .ok (true, r') d) :
    r.Delegated P disk.db d.db ↔
      r.zone.authorizedName <+: r.subzone.authorizedName := by
  have hperforms : Performs S (r.tryRegister P S) (r.plan disk.db) disk _ _ :=
    performs_tryRegister hquote
  have hends := hperforms disk rfl
  rw [hrun] at hends
  have hinserted : r.SubInserted disk.db d.db :=
    subInserted_of_plan hne (by simpa using hends.2.symm)
      (Sqlite.execute_db hends.1)
  constructor
  · rintro ⟨label, h⟩
    exact ⟨label, h.name⟩
  · rintro ⟨label, hname⟩
    refine ⟨r.subLabel, hinserted.delegatedAt hfree ?_⟩
    rw [subLabel_eq_drop, ← hname, List.drop_left]

section Net

open Call

theorem run_of_value_true
    {r : ZoneRegister} {disk : Disk} (h : value r disk = some true) :
    ∃ r', (r.tryRegister uriParser DyndnsMgr.reliable).run disk =
      .ok (true, r') (registered r disk) := by
  unfold value at h
  unfold registered Effect.behind
  cases hrun : (r.tryRegister uriParser DyndnsMgr.reliable).run disk with
  | ok x d =>
      rw [hrun] at h
      obtain ⟨b, r'⟩ := x
      obtain rfl : b = true := by simpa using h
      exact ⟨r', rfl⟩
  | error e d =>
      simp [hrun] at h

/-- The first server of `/net/sub` is named twice. -/
def serversSub : ZoneRegister :=
  { netSub with
    nsDatas := [ascii "/isp/ns1", ascii "/isp/ns2", ascii "/isp/ns1"] }

theorem free_serversSub : serversSub.Free netDisk.db :=
  ⟨by decide +kernel, by decide +kernel, by decide +kernel⟩

/-- Each server is there once, in the order of the last time it was named. -/
theorem delegated_iff_serversSub :
    serversSub.nsDatas.dedup = [ascii "/isp/ns2", ascii "/isp/ns1"] ∧
      serversSub.Delegated uriParser netDisk.db
        (registered serversSub netDisk).db := by
  have hvalue : value serversSub netDisk = some true := by
    decide +kernel
  obtain ⟨r', hrun⟩ := run_of_value_true hvalue
  exact ⟨by decide,
    (delegated_iff (by decide) (by decide) free_serversSub hrun).mpr
      (by decide)⟩

/-- `/com/example` is to be a subzone of `/net`. -/
def comSub : ZoneRegister :=
  { ZoneRegister.init (Zone.ofName [ascii "net"])
      (Zone.ofName [ascii "com", ascii "example"])
      { name := [ascii "net", ascii "KEY", ascii "example", ascii "ksk-1",
          ascii "ID-CERT"]
        text := ascii "Bv0CtAct"
        quote_notMem := by decide } with
    nsDatas := [ascii "/isp/ns1"] }

theorem free_comSub : comSub.Free netDisk.db :=
  ⟨by decide +kernel, by decide +kernel, by decide +kernel⟩

/-- It is registered, and `/net/example` is delegated. -/
theorem comSub_not_delegated :
    comSub.zone.authorizedName ≠ comSub.subzone.authorizedName ∧
      (∀ a ∈ comSub.nsDatas, (39 : UInt8) ∉ a) ∧
      comSub.Free netDisk.db ∧
      (∃ r', (comSub.tryRegister uriParser DyndnsMgr.reliable).run
        netDisk = .ok (true, r') (registered comSub netDisk)) ∧
      (registered comSub netDisk).db.rrsets.rows.filter
          (fun s => s.2.type = ascii "NS") =
        [(3, ⟨1, ascii "/example", some (ascii "NULL"), ascii "NS"⟩)] ∧
      ¬ comSub.Delegated uriParser netDisk.db
        (registered comSub netDisk).db := by
  have hvalue : value comSub netDisk = some true := by
    decide +kernel
  refine ⟨by decide, by decide, free_comSub, run_of_value_true hvalue,
    by decide +kernel, ?_⟩
  rintro ⟨label, h⟩
  have hname : ascii "net" :: label = [ascii "com", ascii "example"] :=
    h.name
  exact absurd (List.cons.inj hname).1 (by decide)

end Net

end ZoneRegister

end Ndns

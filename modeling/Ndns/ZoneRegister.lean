import Ndns.Consistency
import Ndns.DbMgr

/-!
# Registration of zones

`zone-register.cpp`: a zone is entered with its certificate; a subzone is entered
in its parent as an rrset with the certificate and one with the name servers.
Both rrsets are inserted without a look-up, in class `NULL`.

**Results.**
* `doRegisterTop_keeps`, `doRegisterZone_keeps`: when a registration keeps a
  database sound.
-/

namespace Ndns

/-- `ndn::IdentityCertificate` -/
structure IdentityCertificate where
  name : Name
  /-- What `ndn::io::save` writes, in base64. -/
  text : Bytes
  quote_notMem : (39 : UInt8) ∉ text

structure ZoneRegister where
  zone : Zone
  subzone : Zone
  rrType : RRType
  rrs : List RR
  nsDatas : List Bytes
  cert : IdentityCertificate

namespace ZoneRegister

/-- `ZoneRegister::ZoneRegister` -/
def init (zone subzone : Zone) (cert : IdentityCertificate) : ZoneRegister where
  zone := zone
  subzone := subzone
  rrType := .NS
  rrs := []
  nsDatas := []
  cert := cert

variable (P : NameParser) (S : Sqlite)

/-- The label of the certificate in a zone. -/
def certLabel (r : ZoneRegister) : Name :=
  r.cert.name.getSubName r.zone.authorizedName.length
    (r.cert.name.length - r.zone.authorizedName.length)

/-- The label of the subzone in a zone. -/
def subLabel (r : ZoneRegister) : Name :=
  r.subzone.authorizedName.getSubNameFrom r.zone.authorizedName.length

/-- An rrset as a registration fills it in. -/
def rrsetOf (zone : Zone) (label : Name) (type : RRType) : RRSet :=
  { RRSet.ofZone zone with
    label := label
    clazz := ascii "NULL"
    type := type
    ndndata := ascii "NULL" }

def rrOf (rrset : RRSet) (rrData : Bytes) : RR :=
  { RR.ofRRSet rrset with rrData := rrData }

/-- `ZoneRegister::doRegisterTop` -/
def doRegisterTop (r : ZoneRegister) : DbM (Bool × ZoneRegister) := do
  if r.rrType ≠ .NS then return (false, r)
  else
    let (zone, resultNum) ← ZoneMgr.lookupId S r.zone
    if resultNum > 0 then return (false, { r with zone := zone })
    else
      let zone ← ZoneMgr.insert S zone
      let label ← nameOfUri P r.certLabel.toUri
      let rrset ← RRSetMgr.insert S (rrsetOf zone label .ID_CERT)
      let rr ← RRMgr.insert S (rrOf rrset r.cert.text)
      return (true, { r with zone := zone, rrs := r.rrs ++ [rr] })

/-- `ZoneRegister::doRegisterZone` -/
def doRegisterZone (r : ZoneRegister) : DbM (Bool × ZoneRegister) := do
  let (zone, resultNum) ← ZoneMgr.lookupId S r.zone
  if resultNum = 0 then return (false, { r with zone := zone })
  else
    let label ← nameOfUri P r.certLabel.toUri
    let label2 ← nameOfUri P r.subLabel.toUri
    let rrset ← RRSetMgr.insert S (rrsetOf zone label .ID_CERT)
    let rrset2 ← RRSetMgr.insert S (rrsetOf zone label2 r.rrType)
    let rrs ← (rrOf rrset r.cert.text :: r.nsDatas.map (rrOf rrset2)).mapM
      (RRMgr.insert S)
    return (true, { r with zone := zone, rrs := r.rrs ++ rrs })

/-- `ZoneRegister::tryRegister` -/
def tryRegister (r : ZoneRegister) : DbM (Bool × ZoneRegister) :=
  if r.zone.authorizedName = r.subzone.authorizedName then
    r.doRegisterTop P S
  else r.doRegisterZone P S

section Keeps

variable {P} {S}

/-- No rrset with the key has another class than a registration gives. -/
def NullOnly (db : Db) (zoneId : Nat) (label : Name) (type : RRType) :
    Prop :=
  ∀ s ∈ db.rrsets.rows,
    s.2.hasKey zoneId label.toUri type.toString = true →
      s.2.clazz = some (ascii "NULL")

instance (db : Db) (zoneId : Nat) (label : Name) (type : RRType) :
    Decidable (NullOnly db zoneId label type) :=
  inferInstanceAs (Decidable (∀ s ∈ db.rrsets.rows, _ → _))

/-- An rrset in a zone that exists. -/
theorem insertRrset_keeps
    {zone : Zone} {label : Name} {type : RRType} {d : Disk}
    (h : d.db.Sound) (hzone : ∃ z ∈ d.db.zones.rows, z.1 = zone.id)
    (hnull : NullOnly d.db zone.id label type) :
    Effect.Triple (· = d) (RRSetMgr.insert S (rrsetOf zone label type))
      (fun x d' => d'.db.Sound ∧ d'.db.zones = d.db.zones ∧
        ∃ n, x = { rrsetOf zone label type with id := n } ∧
          (∀ s ∈ d.db.rrsets.rows,
            s.2.hasKey zone.id label.toUri type.toString = false) ∧
          d'.db.rrsets.rows = d.db.rrsets.rows ++
            [(n, RRSetMgr.row (rrsetOf zone label type))])
      (fun d' => d'.db.Sound) := by
  have hclass : Stmt.CleanText (rrsetOf zone label type).clazz :=
    show Stmt.CleanText (ascii "NULL") by decide
  refine (RRSetMgr.insert_triple S _ hclass d).conseq (fun _ hs => hs)
    ?_ ?_
  · rintro x d' ⟨n, rfl, hins⟩
    have hnew := Db.absent_of_insertRrset hins (by simp [RRSetMgr.row])
      hnull
    obtain ⟨hzones, -, hrows, -⟩ := Db.insertRrset_eq_some hins
    exact ⟨h.insertRrset hins hnew hzone, hzones, n, rfl, hnew, hrows⟩
  · rintro d' ⟨hd', -⟩
    rw [hd']
    exact h

/-- A row in an rrset that exists. -/
theorem insertRr_keeps
    {rr : RR} (hquote : (39 : UInt8) ∉ rr.rrData) {d : Disk}
    (h : d.db.Sound) (hset : ∃ s ∈ d.db.rrsets.rows, s.1 = rr.rrset.id) :
    Effect.Triple (· = d) (RRMgr.insert S rr)
      (fun _ d' => d'.db.Sound ∧ d'.db.rrsets = d.db.rrsets)
      (fun d' => d'.db.Sound) := by
  refine (RRMgr.insert_triple S rr hquote d).conseq (fun _ hs => hs)
    ?_ ?_
  · rintro _ d' ⟨m, -, hins⟩
    exact ⟨h.insertRr hins hset, (Db.insertRr_eq_some hins).2.1⟩
  · rintro d' ⟨hd', -⟩
    rw [hd']
    exact h

theorem insertRrs_keeps
    (rrs : List RR) (hquote : ∀ rr ∈ rrs, (39 : UInt8) ∉ rr.rrData) :
    Effect.Triple
      (fun d => d.db.Sound ∧ ∀ rr ∈ rrs,
        ∃ s ∈ d.db.rrsets.rows, s.1 = rr.rrset.id)
      (rrs.mapM (RRMgr.insert S))
      (fun _ d => d.db.Sound) (fun d => d.db.Sound) := by
  refine (Effect.triple_mapM rrs ?_).weaken (fun _ _ hs => hs.1)
  intro rr hrr
  refine Effect.triple_of_forall ?_
  rintro d ⟨h, hsets⟩
  refine (insertRr_keeps (hquote rr hrr) h (hsets rr hrr)).weaken ?_
  rintro _ d' ⟨h', hrrsets⟩
  exact ⟨h', hrrsets ▸ hsets⟩

/-- A registration looks up its zone first, which changes nothing. -/
theorem lookupId_bind_keeps
    {β : Type} (zone : Zone) {disk : Disk} (h : disk.db.Sound)
    {m : Zone × Nat → DbM β}
    (hm : Effect.Triple (· = disk.next)
      (m ({ zone with
          id := (disk.db.zoneIds zone.authorizedName).getLastD zone.id },
        (disk.db.zoneIds zone.authorizedName).length))
      (fun _ d => d.db.Sound) (fun d => d.db.Sound)) :
    Effect.Triple (· = disk) (ZoneMgr.lookupId S zone >>= m)
      (fun _ d => d.db.Sound) (fun d => d.db.Sound) := by
  refine Effect.Triple.bind
    ((ZoneMgr.lookupId_triple S zone disk).conseq (fun _ hs => hs)
      (fun _ _ hs => hs) ?_) (fun x => Effect.triple_of_forall ?_)
  · rintro d rfl
    exact h
  · rintro d ⟨rfl, rfl⟩
    exact hm

/-- The rrset of a new zone is new. -/
theorem doRegisterTop_keeps
    (r : ZoneRegister) {disk : Disk} (h : disk.db.Sound) :
    Effect.Triple (· = disk) (r.doRegisterTop P S)
      (fun _ d => d.db.Sound) (fun d => d.db.Sound) := by
  have hsame : ∀ d : Disk, d = disk → d.db.Sound := by
    rintro d rfl
    exact h
  unfold doRegisterTop
  split_ifs with htype
  · exact Effect.triple_pure hsame
  refine lookupId_bind_keeps r.zone h ?_
  dsimp only
  split_ifs with hnum
  · refine Effect.triple_pure ?_
    rintro d rfl
    exact h
  refine Effect.Triple.bind
    ((ZoneMgr.insert_triple S _ disk.next).conseq (fun _ hs => hs)
      (fun _ _ hs => hs) ?_) (fun zone => ?_)
  · rintro d hd
    rw [hd]
    exact h
  refine Effect.triple_of_forall ?_
  rintro d₁ ⟨n, rfl, hins⟩
  have hdisk : disk.next.db = disk.db := rfl
  rw [hdisk] at hins
  obtain ⟨-, hrrsets, hzones, hfresh, -⟩ := Db.insertZone_eq_some hins
  rw [nameOfUri_toUri, pure_bind]
  refine Effect.Triple.bind
    (insertRrset_keeps (h.insertZone hins)
      ⟨(n, r.zone.authorizedName.toUri), ?_, rfl⟩ ?_)
    (fun rrset => ?_)
  · rw [hzones]
    simp
  · -- the rrsets that are there belong to older zones
    intro s hs hkey
    rw [hrrsets] at hs
    obtain ⟨z, hz, hid⟩ := h.rrset_zone s hs
    have hlt := hfresh z hz
    simp only [RRSetRow.hasKey, Bool.and_eq_true, decide_eq_true_eq]
      at hkey
    omega
  refine Effect.triple_of_forall ?_
  rintro d₂ ⟨h₂, -, m, rfl, -, hrows⟩
  refine Effect.Triple.bind
    (insertRr_keeps r.cert.quote_notMem h₂ ?_)
    (fun rr => Effect.triple_pure ?_)
  · rw [hrows]
    exact ⟨_, List.mem_append_right _ (List.mem_singleton_self _), rfl⟩
  · rintro d ⟨h₃, -⟩
    exact h₃

/-- What keeps the rrsets of a subzone from being there twice. -/
structure Unclaimed (r : ZoneRegister) (db : Db) (zoneId : Nat) : Prop where
  cert : NullOnly db zoneId r.certLabel .ID_CERT
  sub : (∀ s ∈ db.rrsets.rows,
      s.2.hasKey zoneId r.certLabel.toUri RRType.ID_CERT.toString = false) →
    NullOnly db zoneId r.subLabel r.rrType

/-- The rrsets of a subzone are new in their zone. -/
theorem doRegisterZone_keeps
    (r : ZoneRegister) {disk : Disk} (h : disk.db.Sound)
    (hquote : ∀ a ∈ r.nsDatas, (39 : UInt8) ∉ a)
    (hunclaimed : ∀ z ∈ disk.db.zones.rows,
      z.2 = r.zone.authorizedName.toUri → r.Unclaimed disk.db z.1) :
    Effect.Triple (· = disk) (r.doRegisterZone P S)
      (fun _ d => d.db.Sound) (fun d => d.db.Sound) := by
  unfold doRegisterZone
  refine lookupId_bind_keeps r.zone h ?_
  dsimp only
  split_ifs with hnum
  · refine Effect.triple_pure ?_
    rintro d rfl
    exact h
  obtain ⟨z, hz, hname, hid⟩ := Db.exists_zone hnum r.zone.id
  rw [nameOfUri_toUri, pure_bind, nameOfUri_toUri, pure_bind]
  obtain ⟨hcert, hsub⟩ := hunclaimed z hz hname
  refine Effect.Triple.bind
    (insertRrset_keeps (d := disk.next) h ⟨z, hz, hid⟩ (hid ▸ hcert))
    (fun rrset => Effect.triple_of_forall ?_)
  rintro d₁ ⟨h₁, hzones₁, n, rfl, hnew, hrows₁⟩
  refine Effect.Triple.bind
    (insertRrset_keeps h₁ ⟨z, hzones₁ ▸ hz, hid⟩ ?_)
    (fun rrset => Effect.triple_of_forall ?_)
  · intro s hs hkey
    rw [hrows₁] at hs
    rcases List.mem_append.mp hs with hs | hs
    · exact hsub (hid ▸ hnew) s hs (hid ▸ hkey)
    · rw [List.mem_singleton.mp hs]
      rfl
  rintro d₂ ⟨h₂, -, m, rfl, -, hrows₂⟩
  refine Effect.Triple.bind
    ((insertRrs_keeps _ ?_).conseq ?_ (fun _ _ hs => hs) (fun _ hs => hs))
    (fun rrs => Effect.triple_pure (fun _ hs => hs))
  · intro rr hrr
    rcases List.mem_cons.mp hrr with rfl | hrr
    · exact r.cert.quote_notMem
    · obtain ⟨a, ha, rfl⟩ := List.mem_map.mp hrr
      exact hquote a ha
  · rintro d rfl
    refine ⟨h₂, fun rr hrr => ?_⟩
    rw [hrows₂, hrows₁]
    rcases List.mem_cons.mp hrr with rfl | hrr
    · exact ⟨_, List.mem_append_left _
        (List.mem_append_right _ (List.mem_singleton_self _)), rfl⟩
    · obtain ⟨a, -, rfl⟩ := List.mem_map.mp hrr
      exact ⟨_, List.mem_append_right _ (List.mem_singleton_self _), rfl⟩

end Keeps

end ZoneRegister

end Ndns

import Ndns.Lib.Machine
import Ndns.UpdateFrame
import Ndns.ZoneRegister

/-!
# The databases that are reached

Registrations and updates share the tables.  An update looks an rrset up before
it adds one, and adds it in the class of the RR; a registration adds its rrsets
in class `NULL` without a look-up, and the unique index covers the class.  So a
registration behind an update may add an rrset again, and the rows of the first
one are not found any more.

**Results.**
* `sound_of_changed`, `tryRegister_keeps`: one call;
* `sound_final`: whole runs from the empty database.
-/

namespace Ndns

theorem DyndnsMgr.sound_of_changed
    {S : Sqlite} {zone : Zone} {rr : RR} {disk : Disk} {db : Db}
    (h : disk.db.Sound) (hchanged : Changed S zone rr disk db)
    (hzone : Creates rr → ∃ z ∈ disk.db.zones.rows, z.1 = zone.id) :
    db.Sound := by
  have hset (hne : addressed disk.db zone rr ≠ 0) :
      ∃ s ∈ disk.db.rrsets.rows, s.1 = addressed disk.db zone rr := by
    obtain ⟨s, hs, hid, -⟩ := Db.exists_rrset hne
    exact ⟨s, hs, hid⟩
  cases hchanged with
  | unchanged =>
      exact h
  | newRrset n db hcreates hzero hnew =>
      exact h.insertRrset hnew (Db.rrsetId_eq_zero_iff.mp hzero)
        (hzone hcreates)
  | newRrsetRow n m db₁ db hcreates hzero hnew hrow =>
      have h₁ := h.insertRrset hnew (Db.rrsetId_eq_zero_iff.mp hzero)
        (hzone hcreates)
      refine h₁.insertRr hrow ⟨(n, newRrset zone rr), ?_, rfl⟩
      rw [(Db.insertRrset_eq_some hnew).2.2.1]
      exact List.mem_append_right _ (List.mem_singleton_self _)
  | newRow m db haction hne hrow =>
      exact h.insertRr hrow (hset hne)
  | remove haction hid hfails =>
      exact h.deleteWhere _
  | clear haction hne =>
      exact h.deleteWhere _
  | replace m db haction hne hrow =>
      exact (h.deleteWhere _).insertRr hrow (hset hne)

/-- A call that writes to the database. -/
inductive Call where
  | tryRegister (register : ZoneRegister)
  | update (zone : Zone) (queryUpdate : QueryUpdate)

namespace Call

variable (P : NameParser) (S : Sqlite)

/-- The state behind a call, however it ends. -/
def run : Call → Disk → Disk
  | tryRegister register, disk =>
      Effect.behind (register.tryRegister P S) disk
  | update zone queryUpdate, disk =>
      (DyndnsMgr.update S zone queryUpdate disk).2

/-- There are no quotes in the data.  The rrsets of a subzone that is registered
have not been added by an update; an update that may add an rrset is one of a
zone that exists. -/
def Allowed : Call → Disk → Prop
  | tryRegister register, disk =>
      register.zone.authorizedName ≠ register.subzone.authorizedName →
        (∀ a ∈ register.nsDatas, (39 : UInt8) ∉ a) ∧
          ∀ z ∈ disk.db.zones.rows,
            z.2 = register.zone.authorizedName.toUri →
              register.Unclaimed disk.db z.1
  | update zone queryUpdate, disk =>
      ∀ rr ∈ queryUpdate.update.rrs.head?,
        (39 : UInt8) ∉ rr.rrData ∧ Stmt.CleanText rr.rrset.clazz ∧
          (DyndnsMgr.Creates rr →
            ∃ z ∈ disk.db.zones.rows, z.1 = zone.id)

variable {P} {S}

theorem tryRegister_keeps
    {register : ZoneRegister} {disk : Disk}
    (hallowed : (tryRegister register).Allowed disk) (h : disk.db.Sound) :
    ((tryRegister register).run P S disk).db.Sound := by
  have htriple : Effect.Triple (· = disk) (register.tryRegister P S)
      (fun _ d => d.db.Sound) (fun d => d.db.Sound) := by
    unfold ZoneRegister.tryRegister
    split
    · exact register.doRegisterTop_keeps h
    · next hne =>
        obtain ⟨hquote, hunclaimed⟩ := hallowed hne
        exact register.doRegisterZone_keeps h hquote hunclaimed
  exact htriple.behind rfl

theorem update_keeps
    {zone : Zone} {queryUpdate : QueryUpdate} {disk : Disk}
    (hallowed : (update zone queryUpdate).Allowed disk)
    (h : disk.db.Sound) :
    ((update zone queryUpdate).run P S disk).db.Sound := by
  unfold run
  cases hrrs : queryUpdate.update.rrs with
  | nil =>
      simp only [DyndnsMgr.update, hrrs]
      exact h
  | cons rr rrs =>
      obtain ⟨hquote, hclass, hzone⟩ := hallowed rr (by simp [hrrs])
      exact DyndnsMgr.update_of_triple (P := Db.Sound) hrrs
        ((DyndnsMgr.updateRr_triple zone hquote hclass disk).conseq
          (fun _ hs => hs)
          (fun _ _ hs => DyndnsMgr.sound_of_changed h hs hzone)
          (fun _ hs => DyndnsMgr.sound_of_changed h hs hzone))

/-- Every database that is reached from the empty one by such calls is sound. -/
theorem sound_final
    {calls : List Call} {disk : Disk} (hempty : disk.db = Db.empty)
    (h : Machine.Along (run P S) Allowed calls disk) :
    (Machine.final (run P S) calls disk).db.Sound := by
  refine Machine.Along.invariant (I := fun disk => disk.db.Sound) ?_ h ?_
  · intro call disk hallowed hsound
    cases call with
    | tryRegister register =>
        exact tryRegister_keeps hallowed hsound
    | update zone queryUpdate =>
        exact update_keeps hallowed hsound
  · show disk.db.Sound
    rw [hempty]
    exact Db.Sound.empty

section Subzone

open DyndnsMgr

/-- A new database. -/
def emptyDisk : Disk where
  db := Db.empty
  executed := 0
  lastInsertRowid := 0

def netTop : ZoneRegister :=
  .init (Zone.ofName [ascii "net"]) (Zone.ofName [ascii "net"])
    { name := [ascii "net", ascii "KEY", ascii "dsk-1", ascii "ID-CERT"]
      text := ascii "Bv0CtAcq"
      quote_notMem := by decide }

def netSub : ZoneRegister :=
  { ZoneRegister.init (Zone.ofName [ascii "net"])
      (Zone.ofName [ascii "net", ascii "sub"])
      { name := [ascii "net", ascii "KEY", ascii "sub", ascii "ksk-1",
          ascii "ID-CERT"]
        text := ascii "Bv0CtAcr"
        quote_notMem := by decide } with
    nsDatas := [ascii "/isp/ns1"] }

/-- An NS record is added to the zone with id 1. -/
def subUpdate (label : Name) : Call :=
  let rr := { RR.init with
    rrData := ascii "/isp/ns2"
    updateAction := .ADD }
  .update { id := 1, authorizedName := [ascii "net"] }
    { QueryUpdate.init with
      update := Response.init.addRr (Response.received label .NS rr) }

/-- The zone is registered and updated. -/
def updatedDisk (label : Name) : Disk :=
  run uriParser reliable (subUpdate label)
    (run uriParser reliable (.tryRegister netTop) emptyDisk)

/-- The subzone is registered behind that. -/
def subDisk (label : Name) : Disk :=
  Machine.final (run uriParser reliable)
    [.tryRegister netTop, subUpdate label, .tryRegister netSub] emptyDisk

/-- The update is about another label. -/
theorem sound_final_sub : (subDisk [ascii "www"]).db.Sound := by
  refine sound_final rfl ⟨fun hne => absurd rfl hne, ?_, ?_, trivial⟩
  · intro rr hrr
    obtain rfl := Option.some.inj hrr
    refine ⟨by decide, by decide, fun _ => ⟨(1, ascii "/net"), ?_, rfl⟩⟩
    decide +kernel
  · have hnull : ∀ z ∈ (updatedDisk [ascii "www"]).db.zones.rows,
        ZoneRegister.NullOnly (updatedDisk [ascii "www"]).db z.1
          netSub.certLabel .ID_CERT ∧
        ZoneRegister.NullOnly (updatedDisk [ascii "www"]).db z.1
          netSub.subLabel netSub.rrType := by
      decide +kernel
    have hdisk : run uriParser reliable (subUpdate [ascii "www"])
        (run uriParser reliable (.tryRegister netTop) emptyDisk) =
          updatedDisk [ascii "www"] := rfl
    refine fun _ => ⟨by decide, fun z hz _ => ?_⟩
    rw [hdisk] at hz ⊢
    exact ⟨(hnull z hz).1, fun _ => (hnull z hz).2⟩

/-- The update is about the label of the subzone: its rrset is there twice. -/
theorem sub_not_sound :
    (subDisk [ascii "sub"]).db.rrsets.rows.filter
        (fun s => s.2.hasKey 1 (ascii "/sub") (ascii "NS")) =
      [(2, ⟨1, ascii "/sub", some [], ascii "NS"⟩),
        (4, ⟨1, ascii "/sub", some (ascii "NULL"), ascii "NS"⟩)] ∧
    ¬ (subDisk [ascii "sub"]).db.Sound := by
  have hrows : (subDisk [ascii "sub"]).db.rrsets.rows.filter
        (fun s => s.2.hasKey 1 (ascii "/sub") (ascii "NS")) =
      [(2, ⟨1, ascii "/sub", some [], ascii "NS"⟩),
        (4, ⟨1, ascii "/sub", some (ascii "NULL"), ascii "NS"⟩)] := by
    decide +kernel
  refine ⟨hrows, fun h => ?_⟩
  have hmem (s : Nat × RRSetRow)
      (hs : s ∈ (subDisk [ascii "sub"]).db.rrsets.rows.filter
        (fun s => s.2.hasKey 1 (ascii "/sub") (ascii "NS"))) :
      s ∈ (subDisk [ascii "sub"]).db.rrsets.rows :=
    List.mem_of_mem_filter hs
  rw [hrows] at hmem
  have heq := h.rrset_unique _ (hmem _ (List.mem_cons_self ..)) _
    (hmem _ (List.mem_cons_of_mem _ (List.mem_cons_self ..))) rfl rfl rfl
  simp at heq

end Subzone

end Call

end Ndns

import Ndns.Lib.Machine
import Ndns.QueryMgr
import Ndns.Records
import Ndns.UpdateFrame

/-!
# Runs of updates and queries

The server of a zone executes updates and answers queries one after the other.
If no statement fails, the tables behave as a map from keys to ordered sets of
data, until no id is left below the limit.

**Results.**
* `updateRr_refines`, `exec_refines`: one request;
* `exec_simulates`: whole runs.
-/

namespace Ndns

/-- The key of an RR in the zone that the server sets. -/
def RR.keyIn (rr : RR) (zone : Zone) : Key :=
  ⟨zone.id, rr.rrset.label, rr.rrset.type⟩

def Query.keyIn (query : Query) (zone : Zone) : Key :=
  ⟨zone.id, query.rrLabel, query.rrType⟩

/-- What the server of a zone is asked to do. -/
inductive Request where
  | update (queryUpdate : QueryUpdate)
  | lookup (query : Query) (response : Response)

/-- What the caller gets back. -/
inductive Reply where
  | updated (queryUpdate : QueryUpdate)
  | found (response : Response)

/-- An RR as clients build them. -/
structure RR.ClientBuilt (rr : RR) : Prop where
  id_eq : rr.id = 0
  clazz_eq : rr.rrset.clazz = []
  clean : Stmt.CleanText rr.rrData
  supported : rr.updateAction ∈
    [UpdateAction.NONE, .ADD, .REMOVE, .REPLACE_ALL]

namespace Request

variable (P : NameParser) (S : Sqlite) (zone : Zone)

/-- A call of `DyndnsMgr::update` or `QueryMgr::lookup`; `none` if it does not
return. -/
def exec : Request → Disk → Option (Reply × Disk)
  | update queryUpdate, disk =>
      match DyndnsMgr.update S zone queryUpdate disk with
      | (.returned queryUpdate, disk) => some (.updated queryUpdate, disk)
      | _ => none
  | lookup query response, disk =>
      match (QueryMgr.lookup P S zone query response).run disk with
      | .ok response disk => some (.found response, disk)
      | .error _ _ => none

/-- An update holds exactly one RR. -/
inductive ClientBuilt : Request → Prop
  | update {queryUpdate : QueryUpdate} {rr : RR}
      (hone : queryUpdate.update.rrs = [rr]) (hrr : rr.ClientBuilt) :
      ClientBuilt (.update queryUpdate)
  | lookup (query : Query) (response : Response) :
      ClientBuilt (.lookup query response)

/-- What a request does to the records. -/
def apply : Request → Records → Records
  | update queryUpdate, m =>
      match queryUpdate.update.rrs with
      | [rr] => m.update rr.updateAction (rr.keyIn zone) rr.rrData
      | _ => m
  | lookup _ _, m => m

/-- What is said in a reply, given the records and the state behind the
request. -/
def Replied : Request → Records → Reply → Disk → Prop
  | update queryUpdate, _, .updated queryUpdate', disk =>
      ∀ rr ∈ queryUpdate.update.rrs,
        rr.updateAction = .ADD ∨ rr.updateAction = .REPLACE_ALL →
          ∃ rr', queryUpdate'.update.rrs = [rr'] ∧
            disk.db.HasRow (rr.keyIn zone) rr'.id rr.rrData
  | lookup query _, m, .found response, _ =>
      response.rrs.map RR.rrData = (m (query.keyIn zone)).elems
  | _, _, _, _ => False

/-- What the server of a zone is meant to do.  It may break down when no id is
left below the limit. -/
def behaviour : Machine.Specification Disk Records Request Reply where
  step := apply zone
  rel disk m := Represents disk.db m
  reply := Replied zone
  excused disk := disk.db.Full

end Request

namespace DyndnsMgr

section Refinement

variable {S : Sqlite} {zone : Zone} {rr : RR} {disk d : Disk}
variable {m : Records} {k : Key}

/-- The first row with these data in an rrset that is there. -/
theorem insert_refines
    (rr' : RR) (hfails : ∀ n, S.fails n = false) (h : Represents d.db m)
    (hne : d.db.keyId k ≠ 0) (hset : rr'.rrset.id = d.db.keyId k)
    (hclean : Stmt.CleanText rr'.rrData)
    (hnew : rr'.rrData ∉ (m k).elems) :
    Effect.Triple (· = d) (RRMgr.insert S rr')
      (fun x d' =>
        Represents d'.db (Function.update m k ((m k).add rr'.rrData)) ∧
          d'.db.HasRow k x.id rr'.rrData)
      (fun _ => rowidLimit ≤ d.db.rrs.lastId + 1) := by
  refine (RRMgr.insert_triple S rr' hclean.1 d).conseq (fun _ hs => hs)
    ?_ ?_
  · rintro _ d' ⟨j, rfl, hins⟩
    exact h.insertRr hne hset hnew hins
  · rintro d' ⟨-, hfail | hzero | hnone⟩
    · simp [hfails] at hfail
    · exact absurd hzero hclean.2
    · exact Db.full_of_insertRr hclean.2 hnone

/-- A new rrset and its first row. -/
theorem insertBoth_refines
    (rr' : RR) (hfails : ∀ n, S.fails n = false) (h : Represents d.db m)
    (hk : k = rr'.keyIn rr'.zone) (hzero : d.db.keyId k = 0)
    (hclazz : rr'.rrset.clazz = []) (hclean : Stmt.CleanText rr'.rrData) :
    Effect.Triple (· = d)
      (do
        let rrset ← RRSetMgr.insert S rr'.rrset
        RRMgr.insert S (rr'.setRrset rrset))
      (fun x d' => (m k).elems = [] ∧
        Represents d'.db (Function.update m k ((m k).add rr'.rrData)) ∧
          d'.db.HasRow k x.id rr'.rrData)
      (fun _ => d.db.Full) := by
  have hnone : (m k).elems = [] := by
    rw [← h.dataAt_eq, List.eq_nil_iff_forall_not_mem]
    intro a ha
    obtain ⟨r, hr, hset, -⟩ := (Db.mem_dataAt h.consistent).mp ha
    obtain ⟨s, hs, hid⟩ := h.consistent.rr_rrset r hr
    have hpos := d.db.rrsets.id_pos s hs
    omega
  have hclass : Stmt.CleanText rr'.rrset.clazz := by
    simp [hclazz, Stmt.CleanText]
  have habsent := Db.rrsetId_eq_zero_iff.mp hzero
  subst hk
  refine Effect.Triple.bind
    ((RRSetMgr.insert_triple S rr'.rrset hclass d).conseq
      (fun _ hs => hs) (fun _ _ hs => hs) ?_) (fun rrset => ?_)
  · rintro d' ⟨-, hfail | hins⟩
    · simp [hfails] at hfail
    · refine Or.inl (Db.full_of_insertRrset ?_ hins)
      rintro r hr heq
      have hkey := habsent r hr
      simp [heq, RRSetMgr.row, RRSetRow.hasKey, RR.keyIn, RR.zone] at hkey
  · refine Effect.triple_of_forall ?_
    rintro d₁ ⟨n, rfl, hins⟩
    obtain ⟨hrep, hid, hpos⟩ :=
      h.insertRrset (k := rr'.keyIn rr'.zone) hzero hins
    refine (insert_refines (rr'.setRrset { rr'.rrset with id := n })
      hfails hrep (hid ▸ hpos) hid.symm hclean
        (by rw [hnone]; simp)).conseq (fun _ hs => hs)
          (fun _ _ hs => ⟨hnone, hs⟩) ?_
    intro _ hfull
    rw [(Db.insertRrset_eq_some hins).2.1] at hfull
    exact Or.inr hfull

/-- The records behind an update, and the row of its data. -/
def Updated (zone : Zone) (rr : RR) (m : Records) (x : RR) (d : Disk) :
    Prop :=
  Represents d.db (m.update rr.updateAction (rr.keyIn zone) rr.rrData) ∧
    (rr.updateAction = .ADD ∨ rr.updateAction = .REPLACE_ALL →
      d.db.HasRow (rr.keyIn zone) x.id rr.rrData)

/-- A row is found exactly for data at the key. -/
theorem found_iff
    (hzone : zone.id ≠ 0) (hclient : rr.ClientBuilt)
    (h : Represents disk.db m) :
    (lookedUp disk.db zone rr).id ≠ 0 ↔
      rr.rrData ∈ (m (rr.keyIn zone)).elems := by
  rw [← h.dataAt_eq, Db.mem_dataAt h.consistent]
  by_cases hzero : disk.db.keyId (rr.keyIn zone) = 0
  · have hid : (lookedUp disk.db zone rr).id = 0 :=
      (lookedUp_id_of_skipped (Or.inr hzero)).trans hclient.id_eq
    constructor
    · intro hne
      exact absurd hid hne
    · rintro ⟨r, hr, hset, -⟩
      obtain ⟨s, hs, hsid⟩ := h.consistent.rr_rrset r hr
      have hpos := disk.db.rrsets.id_pos s hs
      omega
  · have hid : (lookedUp disk.db zone rr).id =
        disk.db.rrId (disk.db.keyId (rr.keyIn zone)) rr.rrData :=
      lookedUp_id_of_located hzone hzero
    rw [hid, ne_eq, Db.rrId_eq_zero_iff]
    push Not
    rfl

theorem hasRow_of_found
    (hzone : zone.id ≠ 0) (hclient : rr.ClientBuilt)
    (hdb : disk.db.Consistent)
    (hne : (lookedUp disk.db zone rr).id ≠ 0) :
    disk.db.keyId (rr.keyIn zone) ≠ 0 ∧
      disk.db.HasRow (rr.keyIn zone) (lookedUp disk.db zone rr).id
        rr.rrData := by
  have hkey : disk.db.keyId (rr.keyIn zone) ≠ 0 := by
    intro hzero
    exact hne ((lookedUp_id_of_skipped (Or.inr hzero)).trans hclient.id_eq)
  have hid : (lookedUp disk.db zone rr).id =
      disk.db.rrId (disk.db.keyId (rr.keyIn zone)) rr.rrData :=
    lookedUp_id_of_located hzone hkey
  rw [hid] at hne ⊢
  obtain ⟨r, hr, hrid, hset, hdata⟩ := Db.exists_rr hne
  exact ⟨hkey, r, hr, hrid, by simp [Db.isAt_eq hdb _ r hr, hset], hdata⟩

/-- A deletion by the id that was found. -/
theorem remove_refines
    (hfails : ∀ n, S.fails n = false) (hzone : zone.id ≠ 0)
    (hclient : rr.ClientBuilt) (h : Represents disk.db m)
    (hd : d.db = disk.db) (haction : rr.updateAction = .REMOVE)
    (hne : (lookedUp disk.db zone rr).id ≠ 0) :
    Effect.Total (· = d)
      (do
        RRMgr.remove S (lookedUp disk.db zone rr)
        return lookedUp disk.db zone rr)
      (Updated zone rr m) := by
  refine Effect.Triple.bind
    ((RRMgr.remove_triple S _ d).conseq (fun _ hs => hs)
      (fun _ _ hs => hs) ?_) (fun _ => Effect.triple_pure ?_)
  · rintro d' ⟨-, hfail⟩
    simp [hfails] at hfail
  · rintro d' ⟨hd', -⟩
    obtain ⟨hkey, r, hr, hrid, hat, hdata⟩ :=
      hasRow_of_found hzone hclient h.consistent hne
    rw [Db.isAt_eq h.consistent _ r hr, decide_eq_true_eq] at hat
    have hrep := h.deleteRr hkey hr hat
    rw [hrid, hdata] at hrep
    refine ⟨?_, by simp [haction]⟩
    rw [hd', hd, haction]
    exact hrep

/-- The rows of the rrset go, and one comes. -/
theorem replace_refines
    (hfails : ∀ n, S.fails n = false) (hclient : rr.ClientBuilt)
    (h : Represents disk.db m) (hd : d.db = disk.db)
    (haction : rr.updateAction = .REPLACE_ALL)
    (hkey : disk.db.keyId (rr.keyIn zone) ≠ 0) :
    Effect.Triple (· = d)
      (do
        RRSetMgr.removeRelatedRRs S (lookedUp disk.db zone rr).rrset
        RRMgr.insert S (lookedUp disk.db zone rr))
      (Updated zone rr m) (fun _ => disk.db.Full) := by
  refine Effect.Triple.bind
    ((RRSetMgr.removeRelatedRRs_triple S _ d).conseq (fun _ hs => hs)
      (fun _ _ hs => hs) ?_) (fun _ => Effect.triple_of_forall ?_)
  · rintro d' ⟨-, hfail⟩
    simp [hfails] at hfail
  intro d₁ hd₁
  have hdb : d₁.db =
      disk.db.deleteRrs (disk.db.keyId (rr.keyIn zone)) := by
    rw [hd₁, hd]
    rfl
  have hrep := h.deleteRrs hkey
  rw [← hdb] at hrep
  have hid : d₁.db.keyId (rr.keyIn zone) =
      disk.db.keyId (rr.keyIn zone) := by
    rw [hdb]
    rfl
  refine (insert_refines (lookedUp disk.db zone rr) hfails hrep
    (hid ▸ hkey) hid.symm hclient.clean ?_).conseq (fun _ hs => hs) ?_ ?_
  · rw [Function.update_self]
    simp [OrderedSet.empty]
  · rintro x d' ⟨hrep', hrow⟩
    rw [Function.update_idem, Function.update_self] at hrep'
    refine ⟨?_, fun _ => hrow⟩
    rw [haction]
    exact hrep'
  · intro _ hfull
    have hle : (disk.db.deleteRrs
        (disk.db.keyId (rr.keyIn zone))).rrs.lastId ≤
          disk.db.rrs.lastId :=
      disk.db.rrs.lastId_delete_le _
    rw [hdb] at hfull
    exact Or.inr (by omega)

/-- The branches do to the records what they are meant to do. -/
theorem act_refines
    (hfails : ∀ n, S.fails n = false) (hzone : zone.id ≠ 0)
    (hclient : rr.ClientBuilt) (h : Represents disk.db m)
    (hd : d.db = disk.db) :
    Effect.Triple (· = d)
      (act S (lookedUp disk.db zone rr).rrset (lookedUp disk.db zone rr))
      (Updated zone rr m) (fun _ => disk.db.Full) := by
  have hfound := found_iff hzone hclient h
  have hrep : Represents d.db m := hd ▸ h
  have hboth := insertBoth_refines (lookedUp disk.db zone rr) hfails hrep
    (k := rr.keyIn zone) rfl
  have haction : (lookedUp disk.db zone rr).updateAction =
      rr.updateAction := rfl
  unfold act
  rw [haction]
  cases hact : rr.updateAction with
  | NONE =>
      refine Effect.triple_pure ?_
      rintro s rfl
      exact ⟨by rw [hact]; exact hrep, by simp [hact]⟩
  | ADD =>
      simp only
      split_ifs with hid hzero
      · -- the data are there
        refine Effect.triple_pure ?_
        rintro s rfl
        refine ⟨?_, fun _ => ?_⟩
        · rw [hact]
          exact hrep.update_same
            (OrderedSet.elems_add_of_mem (hfound.mp hid))
        · rw [hd]
          exact (hasRow_of_found hzone hclient h.consistent hid).2
      · refine (hboth (by rw [hd]; exact hzero) hclient.clazz_eq
          hclient.clean).conseq (fun _ hs => hs) ?_ (fun _ hs => hd ▸ hs)
        rintro x d' ⟨-, hrep', hrow⟩
        exact ⟨by rw [hact]; exact hrep', fun _ => hrow⟩
      · refine (insert_refines (lookedUp disk.db zone rr) hfails hrep
          (k := rr.keyIn zone) (by rw [hd]; exact hzero)
          (by rw [hd]; rfl) hclient.clean
          (fun hmem => hid (hfound.mpr hmem))).conseq (fun _ hs => hs) ?_
            (fun _ hs => Or.inr (hd ▸ hs))
        rintro x d' ⟨hrep', hrow⟩
        exact ⟨by rw [hact]; exact hrep', fun _ => hrow⟩
  | REMOVE =>
      simp only
      split_ifs with hid
      · exact (remove_refines hfails hzone hclient h hd hact
          (Nat.pos_iff_ne_zero.mp hid)).triple
      · -- there is nothing to remove
        have hnot : rr.rrData ∉ (m (rr.keyIn zone)).elems := by
          intro hmem
          exact hid (Nat.pos_iff_ne_zero.mpr (hfound.mpr hmem))
        refine Effect.triple_pure ?_
        rintro s rfl
        refine ⟨?_, by simp [hact]⟩
        rw [hact]
        exact hrep.update_same (OrderedSet.elems_remove_of_notMem hnot)
  | REPLACE_ALL =>
      simp only
      split_ifs with hpos
      · exact replace_refines hfails hclient h hd hact
          (Nat.pos_iff_ne_zero.mp hpos)
      · have hzero : (lookedUp disk.db zone rr).rrset.id = 0 :=
          Nat.eq_zero_of_not_pos hpos
        refine (hboth (by rw [hd]; exact hzero) hclient.clazz_eq
          hclient.clean).conseq (fun _ hs => hs) ?_ (fun _ hs => hd ▸ hs)
        rintro x d' ⟨hnil, hrep', hrow⟩
        refine ⟨?_, fun _ => hrow⟩
        rw [hact]
        have hadd : Represents d'.db (Function.update m (rr.keyIn zone)
            ((m (rr.keyIn zone)).add rr.rrData)) := hrep'
        rw [OrderedSet.add_eq_single hnil] at hadd
        exact hadd
  | REPLACE =>
      have hsupported := hclient.supported
      simp [hact] at hsupported
  | UNKNOWN =>
      have hsupported := hclient.supported
      simp [hact] at hsupported

/-- An update does to the records what it is meant to do. -/
theorem updateRr_refines
    (hfails : ∀ n, S.fails n = false) (hzone : zone.id ≠ 0)
    (hclient : rr.ClientBuilt) (h : Represents disk.db m) :
    Effect.Triple (· = disk) (updateRr S zone rr)
      (Updated zone rr m) (fun _ => disk.db.Full) := by
  unfold updateRr
  refine Effect.Triple.bind
    ((RRSetMgr.lookupIds_triple S (rr.setZone zone).rrset disk).conseq
      (fun _ hs => hs) (fun _ _ hs => hs) ?_) (fun rrset => ?_)
  · rintro d ⟨-, hfail⟩
    simp [hfails] at hfail
  refine Effect.triple_of_forall ?_
  rintro d₁ ⟨rfl, rfl, -⟩
  refine Effect.Triple.bind
    ((RRMgr.lookupIds_triple S { rr.setZone zone with
        rrset.id := addressed disk.db zone rr } hclient.clean.1
          disk.next).conseq (fun _ hs => hs) (fun _ _ hs => hs) ?_)
    (fun rr' => ?_)
  · rintro d ⟨-, hfail | hzero⟩
    · simp [hfails] at hfail
    · exact absurd hzero hclient.clean.2
  refine Effect.triple_of_forall ?_
  rintro d₂ ⟨rfl, hdb, -⟩
  exact act_refines hfails hzone hclient h hdb

end Refinement

end DyndnsMgr

namespace Request

section Runs

variable {P : NameParser} {S : Sqlite} {zone : Zone} {disk : Disk}
variable {m : Records}

/-- One request. -/
theorem exec_refines
    (hfails : ∀ n, S.fails n = false) (hzone : zone.id ≠ 0)
    {request : Request} (hclient : request.ClientBuilt)
    (h : Represents disk.db m) :
    Machine.Refines (Request.exec P S zone) (behaviour zone) request disk
      m := by
  unfold Machine.Refines
  cases hclient with
  | @update queryUpdate rr hone hrr =>
      have hrun := DyndnsMgr.updateRr_refines hfails hzone hrr h disk rfl
      have happly : (behaviour zone).step (.update queryUpdate) m =
          m.update rr.updateAction (rr.keyIn zone) rr.rrData := by
        simp [behaviour, apply, hone]
      rw [happly]
      cases hupdate : (DyndnsMgr.updateRr S zone rr).run disk with
      | ok rr' d =>
          rw [hupdate] at hrun
          obtain ⟨hrep, hrow⟩ := hrun
          simp only [exec, DyndnsMgr.update, hone, hupdate]
          refine ⟨?_, hrep⟩
          intro rr₁ hrr₁ haction
          rw [hone, List.mem_singleton] at hrr₁
          subst hrr₁
          exact ⟨rr', rfl, hrow haction⟩
      | error e d =>
          rw [hupdate] at hrun
          simp only [exec, DyndnsMgr.update, hone, hupdate]
          exact hrun
  | lookup query response =>
      have hrun := QueryMgr.lookup_triple P S zone query response disk disk
        rfl
      cases hlookup :
          (QueryMgr.lookup P S zone query response).run disk with
      | ok found d =>
          rw [hlookup] at hrun
          obtain ⟨rfl, -, rfl⟩ := hrun
          simp only [exec, hlookup]
          refine ⟨?_, h⟩
          show ((disk.db.rrRows _).map _).map RR.rrData = (m _).elems
          rw [← h.dataAt_eq, Db.dataAt_eq h.consistent, List.map_map]
          rfl
      | error e d =>
          rw [hlookup] at hrun
          simp [hfails] at hrun

/-- Every run of a server on a consistent database is a run of the map from keys
to ordered sets, as long as an id is left below the limit. -/
theorem exec_simulates
    (hfails : ∀ n, S.fails n = false)
    (hregistered : (zone.id, zone.authorizedName.toUri) ∈
      disk.db.zones.rows)
    (hdb : disk.db.Consistent)
    {requests : List Request}
    (hclient : ∀ request ∈ requests, request.ClientBuilt) :
    Machine.Simulates (Request.exec P S zone) (behaviour zone) requests
      disk (Records.ofDb hdb) := by
  have hzone : zone.id ≠ 0 :=
    Nat.pos_iff_ne_zero.mp (disk.db.zones.id_pos _ hregistered)
  exact Machine.simulates_of_refines
    (fun request d m hrequest hrep =>
      exec_refines hfails hzone hrequest hrep)
    hclient (represents_ofDb hdb)

end Runs

section Host

open DyndnsMgr

theorem consistent_twoZones : twoZones.Consistent :=
  ⟨by decide, by decide, by decide⟩

/-- Two records come and one goes; in between they are asked for. -/
def hostRequests : List Request :=
  let query := { Query.init with rrLabel := [ascii "www"], rrType := .TXT }
  [.update (hostMessage 0 .ADD), .lookup query Response.init,
    .update (hostMessage 0 .REPLACE_ALL), .update (hostMessage 0 .REMOVE),
    .lookup query Response.init]

theorem clientBuilt_hostRequests :
    ∀ request ∈ hostRequests, request.ClientBuilt := by
  have hclean : Stmt.CleanText (ascii "/isp") := by decide
  have hrr (action : UpdateAction)
      (h : action ∈ [UpdateAction.NONE, .ADD, .REMOVE, .REPLACE_ALL]) :
      (Request.update (hostMessage 0 action)).ClientBuilt :=
    .update rfl ⟨rfl, rfl, hclean, h⟩
  intro request hrequest
  simp only [hostRequests, List.mem_cons, List.not_mem_nil, or_false]
    at hrequest
  rcases hrequest with rfl | rfl | rfl | rfl | rfl
  · exact hrr .ADD (by simp)
  · exact .lookup _ _
  · exact hrr .REPLACE_ALL (by simp)
  · exact hrr .REMOVE (by simp)
  · exact .lookup _ _

theorem exec_simulates_host :
    ¬ twoZones.Full ∧
      Machine.Simulates (Request.exec uriParser reliable netZone)
        (behaviour netZone) hostRequests twoZonesDisk
        (Records.ofDb consistent_twoZones) :=
  ⟨by decide, exec_simulates (fun _ => rfl) (by decide) consistent_twoZones
    clientBuilt_hostRequests⟩

end Host

end Request

end Ndns

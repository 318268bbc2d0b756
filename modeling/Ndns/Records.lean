import Mathlib.Logic.Function.Basic
import Ndns.Consistency
import Ndns.Lib.OrderedSet
import Ndns.UriParser

/-!
# The records of a database

What the tables are for: a map from keys to ordered sets of data.  In a
consistent database the rows of the rrset of a key, in the order of their ids,
are the data at the key, and every statement of an update changes one key.

**Results.**
* `dataAt_eq`: the data at a key are the rows of the rrset that is looked up;
* `Represents.insertRr`, `Represents.deleteRr`, `Represents.deleteRrs`,
  `Represents.insertRrset`: what a statement does to the map.
-/

namespace Ndns

/-- What an rrset is looked up by. -/
structure Key where
  zoneId : Nat
  label : Name
  type : RRType
deriving DecidableEq

abbrev Records := Key → OrderedSet Bytes

/-- What an update is meant to do to the data at its key. -/
def Records.update (m : Records) (action : UpdateAction) (k : Key)
    (rrData : Bytes) : Records :=
  match action with
  | .ADD => Function.update m k ((m k).add rrData)
  | .REMOVE => Function.update m k ((m k).remove rrData)
  | .REPLACE_ALL => Function.update m k (OrderedSet.single rrData)
  | _ => m

namespace Db

/-- The row belongs to an rrset with the key. -/
def isAt (db : Db) (k : Key) (r : Nat × RRRow) : Bool :=
  db.rrsets.rows.any (fun s =>
    s.1 = r.2.rrsetId && s.2.hasKey k.zoneId k.label.toUri k.type.toString)

/-- The data at a key, in the order of the rows. -/
def dataAt (db : Db) (k : Key) : List Bytes :=
  (db.rrs.rows.filter (db.isAt k)).map (fun r => r.2.rrdata)

/-- The rrset that is looked up for a key; zero without one. -/
def keyId (db : Db) (k : Key) : Nat :=
  db.rrsetId k.zoneId k.label.toUri k.type.toString

/-- A row at the key has this id and these data. -/
def HasRow (db : Db) (k : Key) (id : Nat) (a : Bytes) : Prop :=
  ∃ r ∈ db.rrs.rows, r.1 = id ∧ db.isAt k r = true ∧ r.2.rrdata = a

section Keys

variable {db db' : Db} {k k' : Key}

theorem isAt_eq (h : db.Consistent) (k : Key) (r : Nat × RRRow)
    (hr : r ∈ db.rrs.rows) :
    db.isAt k r = decide (r.2.rrsetId = db.keyId k) := by
  by_cases hzero : db.keyId k = 0
  · obtain ⟨s, hs, hid⟩ := h.rr_rrset r hr
    have hpos := db.rrsets.id_pos s hs
    have hnone := Db.rrsetId_eq_zero_iff.mp hzero
    have hne : r.2.rrsetId ≠ db.keyId k := by omega
    simp only [isAt, hne, decide_false, List.any_eq_false]
    intro t ht
    simp [hnone t ht]
  · obtain ⟨s, hs, hid, hkey⟩ := Db.exists_rrset hzero
    have hid' : s.1 = db.keyId k := hid
    rw [Bool.eq_iff_iff, decide_eq_true_eq, isAt, List.any_eq_true]
    constructor
    · rintro ⟨t, ht, hp⟩
      rw [Bool.and_eq_true, decide_eq_true_eq] at hp
      rw [← hp.1, h.eq_of_hasKey ht hs hp.2 hkey, hid']
    · intro heq
      exact ⟨s, hs, by simp [heq, hid', hkey]⟩

theorem dataAt_eq (h : db.Consistent) (k : Key) :
    db.dataAt k = (db.rrRows (db.keyId k)).map (fun r => r.2.rrdata) := by
  unfold dataAt rrRows
  rw [List.filter_congr (isAt_eq h k)]

theorem dataAt_nodup (h : db.Consistent) (k : Key) :
    (db.dataAt k).Nodup := by
  rw [dataAt_eq h]
  refine List.Nodup.map_on ?_ (db.rrs.rows_nodup.filter _)
  intro r hr s hs hdata
  obtain ⟨hr, hrset⟩ := List.mem_filter.mp hr
  obtain ⟨hs, hsset⟩ := List.mem_filter.mp hs
  rw [decide_eq_true_eq] at hrset hsset
  exact h.rr_unique r hr s hs (hrset.trans hsset.symm) hdata

theorem mem_dataAt (h : db.Consistent) {a : Bytes} :
    a ∈ db.dataAt k ↔
      ∃ r ∈ db.rrs.rows, r.2.rrsetId = db.keyId k ∧ r.2.rrdata = a := by
  simp [dataAt_eq h, rrRows, and_assoc]

/-- Different keys have different rrsets. -/
theorem keyId_injective
    (hne : db.keyId k ≠ 0) (h : db.keyId k = db.keyId k') : k = k' := by
  obtain ⟨s, hs, hid, hkey⟩ := Db.exists_rrset hne
  obtain ⟨t, ht, hid', hkey'⟩ := Db.exists_rrset (h ▸ hne)
  have heq : s = t :=
    Table.eq_of_id hs ht (hid.trans (h.trans hid'.symm))
  subst heq
  simp only [RRSetRow.hasKey, Bool.and_eq_true, decide_eq_true_eq]
    at hkey hkey'
  obtain ⟨⟨hzone, hlabel⟩, htype⟩ := hkey
  obtain ⟨⟨hzone', hlabel'⟩, htype'⟩ := hkey'
  cases k with
  | mk zoneId label type =>
      cases k' with
      | mk zoneId' label' type' =>
          obtain rfl : zoneId = zoneId' := hzone.symm.trans hzone'
          obtain rfl : label = label' :=
            Name.toUri_injective (hlabel.symm.trans hlabel')
          obtain rfl : type = type' :=
            RRType.toString_injective (htype.symm.trans htype')
          rfl

theorem keyId_congr (h : db'.rrsets = db.rrsets) (k : Key) :
    db'.keyId k = db.keyId k := by
  unfold keyId rrsetId
  rw [h]

/-- A deletion drops the data of the rows that go. -/
theorem dataAt_deleteWhere
    (h : db.Consistent) (p : Nat × RRRow → Bool) (k : Key) :
    (db.deleteWhere p).dataAt k =
      ((db.rrRows (db.keyId k)).filter (fun r => ! p r)).map
        (fun r => r.2.rrdata) := by
  have hkey : (db.deleteWhere p).keyId k = db.keyId k := rfl
  rw [dataAt_eq (h.deleteWhere p), hkey]
  congr 1
  unfold rrRows deleteWhere
  rw [Table.rows_delete, List.filter_filter, List.filter_filter]
  exact List.filter_congr (fun r _ => Bool.and_comm _ _)

theorem dataAt_deleteWhere_of_forall
    (h : db.Consistent) {p : Nat × RRRow → Bool}
    (hp : ∀ r ∈ db.rrs.rows, r.2.rrsetId = db.keyId k → p r = false) :
    (db.deleteWhere p).dataAt k = db.dataAt k := by
  rw [dataAt_deleteWhere h, dataAt_eq h]
  congr 1
  refine List.filter_eq_self.mpr ?_
  intro r hr
  obtain ⟨hr, hset⟩ := List.mem_filter.mp hr
  rw [decide_eq_true_eq] at hset
  simp [hp r hr hset]

end Keys

end Db

/-- The database holds the records of the map. -/
structure Represents (db : Db) (m : Records) : Prop where
  consistent : db.Consistent
  dataAt_eq : ∀ k, db.dataAt k = (m k).elems

/-- The records of a consistent database. -/
def Records.ofDb {db : Db} (h : db.Consistent) : Records := fun k =>
  ⟨db.dataAt k, Db.dataAt_nodup h k⟩

theorem represents_ofDb {db : Db} (h : db.Consistent) :
    Represents db (Records.ofDb h) where
  consistent := h
  dataAt_eq _ := rfl

namespace Represents

variable {db db' : Db} {m : Records} {k : Key} {a : Bytes}

/-- The records are all that is said of the tables. -/
theorem unique
    {m' : Records} (h : Represents db m) (h' : Represents db m') :
    m = m' :=
  funext fun k =>
    OrderedSet.ext ((h.dataAt_eq k).symm.trans (h'.dataAt_eq k))

/-- A change at one key. -/
theorem update
    (h : Represents db m) (hdb' : db'.Consistent) {x : OrderedSet Bytes}
    (hsame : ∀ k', k' ≠ k → db'.dataAt k' = db.dataAt k')
    (hkey : db'.dataAt k = x.elems) :
    Represents db' (Function.update m k x) where
  consistent := hdb'
  dataAt_eq k' := by
    by_cases hk : k' = k
    · subst hk
      rw [Function.update_self, hkey]
    · rw [Function.update_of_ne hk, hsame k' hk, h.dataAt_eq]

/-- A change that leaves the data at the key as they are. -/
theorem update_same
    (h : Represents db m) {x : OrderedSet Bytes} (hx : x.elems = (m k).elems) :
    Represents db (Function.update m k x) :=
  h.update h.consistent (fun _ _ => rfl) (by rw [h.dataAt_eq, hx])

/-- A row with new data comes behind the others. -/
theorem insertRr
    {row : RRRow} {j : Nat}
    (h : Represents db m) (hne : db.keyId k ≠ 0)
    (hset : row.rrsetId = db.keyId k) (hnew : row.rrdata ∉ (m k).elems)
    (hins : db.insertRr row = some (j, db')) :
    Represents db' (Function.update m k ((m k).add row.rrdata)) ∧
      db'.HasRow k j row.rrdata := by
  obtain ⟨-, hrrsets, hrows⟩ := Db.insertRr_eq_some hins
  have hrrset : ∃ s ∈ db.rrsets.rows, s.1 = row.rrsetId := by
    obtain ⟨s, hs, hid, -⟩ := Db.exists_rrset hne
    exact ⟨s, hs, hid.trans hset.symm⟩
  have hdb' := h.consistent.insertRr hins hrrset
  have hkept : db.rrs.rows.filter (fun r =>
      ! (r.2.rrsetId = row.rrsetId && r.2.rrdata = row.rrdata)) =
        db.rrs.rows := by
    refine List.filter_eq_self.mpr ?_
    intro r hr
    rw [← h.dataAt_eq, Db.mem_dataAt h.consistent] at hnew
    have hnot : r.2.rrsetId = row.rrsetId → r.2.rrdata ≠ row.rrdata :=
      fun hid hdata => hnew ⟨r, hr, hid.trans hset, hdata⟩
    simpa [← imp_iff_not_or] using hnot
  rw [hkept] at hrows
  have hdata (k' : Key) : db'.dataAt k' = db.dataAt k' ++
      if row.rrsetId = db.keyId k' then [row.rrdata] else [] := by
    rw [Db.dataAt_eq hdb', Db.dataAt_eq h.consistent,
      Db.keyId_congr hrrsets, Db.rrRows, Db.rrRows, hrows,
      List.filter_append, List.map_append]
    split
    · next hid => simp [hid]
    · next hid => simp [hid]
  have hmem : (j, row) ∈ db'.rrs.rows := by
    rw [hrows]
    simp
  have hat : db'.isAt k (j, row) = true := by
    rw [Db.isAt_eq hdb' k _ hmem, Db.keyId_congr hrrsets]
    simpa using hset
  refine ⟨h.update hdb' ?_ ?_, (j, row), hmem, rfl, hat, rfl⟩
  · intro k' hk
    have hid : row.rrsetId ≠ db.keyId k' := by
      rw [hset]
      intro heq
      exact hk (Db.keyId_injective hne heq).symm
    rw [hdata, if_neg hid, List.append_nil]
  · rw [hdata, if_pos hset, h.dataAt_eq,
      OrderedSet.elems_add_of_notMem hnew]

/-- A new rrset has no data yet. -/
theorem insertRrset
    {clazz : Option Bytes} {n : Nat}
    (h : Represents db m) (hzero : db.keyId k = 0)
    (hins : db.insertRrset
      ⟨k.zoneId, k.label.toUri, clazz, k.type.toString⟩ = some (n, db')) :
    Represents db' m ∧ db'.keyId k = n ∧ n ≠ 0 := by
  obtain ⟨-, hrrs, hrows, hfresh, hpos, -⟩ := Db.insertRrset_eq_some hins
  have hdb' := h.consistent.insertRrset hins
    (Db.rrsetId_eq_zero_iff.mp hzero)
  have hid (k' : Key) : db'.keyId k' =
      if RRSetRow.hasKey ⟨k.zoneId, k.label.toUri, clazz, k.type.toString⟩
        k'.zoneId k'.label.toUri k'.type.toString = true
      then n else db.keyId k' :=
    Table.lastWhere_append hrows _
  have hk : db'.keyId k = n := by
    rw [hid, if_pos (by simp [RRSetRow.hasKey])]
  have hold : ∀ r ∈ db.rrs.rows, r.2.rrsetId < n := by
    intro r hr
    obtain ⟨s, hs, hsid⟩ := h.consistent.rr_rrset r hr
    exact hsid ▸ hfresh s hs
  refine ⟨⟨hdb', fun k' => ?_⟩, hk, by omega⟩
  rw [Db.dataAt_eq hdb', ← h.dataAt_eq, Db.dataAt_eq h.consistent,
    Db.rrRows, Db.rrRows, hrrs]
  congr 1
  refine List.filter_congr ?_
  intro r hr
  rw [hid]
  split
  · next hkey =>
      -- a key of the new rrset had none before
      have heq : k = k' :=
        Db.keyId_injective (by omega)
          (hk.trans (by rw [hid, if_pos hkey]))
      have hlt := hold r hr
      obtain ⟨s, hs, hsid⟩ := h.consistent.rr_rrset r hr
      have hspos := db.rrsets.id_pos s hs
      rw [← heq, hzero]
      simp only [decide_eq_decide]
      omega
  · rfl

/-- The row with the data goes. -/
theorem deleteRr
    {r : Nat × RRRow}
    (h : Represents db m) (hne : db.keyId k ≠ 0) (hr : r ∈ db.rrs.rows)
    (hset : r.2.rrsetId = db.keyId k) :
    Represents (db.deleteRr r.1)
      (Function.update m k ((m k).remove r.2.rrdata)) := by
  have hid (s : Nat × RRRow) (hs : s ∈ db.rrs.rows) :
      s.1 = r.1 ↔ s = r :=
    ⟨fun heq => Table.eq_of_id hs hr heq, fun heq => heq ▸ rfl⟩
  refine h.update (h.consistent.deleteWhere _) ?_ ?_
  · intro k' hk
    refine Db.dataAt_deleteWhere_of_forall h.consistent ?_
    intro s hs hsset
    rw [decide_eq_false_iff_not, hid s hs]
    rintro rfl
    exact hk (Db.keyId_injective hne (hset.symm.trans hsset)).symm
  · have hmap := h.dataAt_eq k
    rw [Db.dataAt_eq h.consistent] at hmap
    refine (Db.dataAt_deleteWhere h.consistent _ k).trans ?_
    rw [OrderedSet.elems_remove, ← hmap, List.filter_map]
    congr 1
    refine List.filter_congr ?_
    intro s hs
    obtain ⟨hs, hsset⟩ := List.mem_filter.mp hs
    rw [decide_eq_true_eq] at hsset
    have hdata : s.1 = r.1 ↔ s.2.rrdata = r.2.rrdata := by
      rw [hid s hs]
      exact ⟨fun heq => heq ▸ rfl, fun heq =>
        h.consistent.rr_unique s hs r hr (hsset.trans hset.symm) heq⟩
    simp [hdata]

/-- All rows of the rrset go. -/
theorem deleteRrs (h : Represents db m) (hne : db.keyId k ≠ 0) :
    Represents (db.deleteRrs (db.keyId k))
      (Function.update m k OrderedSet.empty) := by
  refine h.update (h.consistent.deleteWhere _) ?_ ?_
  · intro k' hk
    refine Db.dataAt_deleteWhere_of_forall h.consistent ?_
    intro s _ hsset
    rw [decide_eq_false_iff_not, hsset]
    intro heq
    exact hk (Db.keyId_injective hne heq.symm).symm
  · refine (Db.dataAt_deleteWhere h.consistent _ k).trans ?_
    rw [OrderedSet.empty, List.map_eq_nil_iff, List.filter_eq_nil_iff]
    intro s hs
    obtain ⟨-, hsset⟩ := List.mem_filter.mp hs
    simpa using hsset

end Represents

end Ndns

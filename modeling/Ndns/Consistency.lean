import Ndns.Database

/-!
# Consistent databases

What the look-ups rely on and the schema does not enforce: an rrset is named by
zone, label and type, a row by its rrset and its data, and the rrset of a row
exists.  Deletions keep this; so do insertions, if an rrset is new in zone, label
and type and a row is put into an rrset that is there.
-/

namespace Ndns

structure Db.Consistent (db : Db) : Prop where
  rrset_unique : ∀ r ∈ db.rrsets.rows, ∀ s ∈ db.rrsets.rows,
    r.2.zoneId = s.2.zoneId → r.2.label = s.2.label →
      r.2.type = s.2.type → r = s
  rr_unique : ∀ r ∈ db.rrs.rows, ∀ s ∈ db.rrs.rows,
    r.2.rrsetId = s.2.rrsetId → r.2.rrdata = s.2.rrdata → r = s
  rr_rrset : ∀ r ∈ db.rrs.rows, ∃ s ∈ db.rrsets.rows, s.1 = r.2.rrsetId

namespace Db.Consistent

variable {db db' : Db}

/-- At most one rrset has a key. -/
theorem eq_of_hasKey
    (h : db.Consistent) {r s : Nat × RRSetRow}
    (hr : r ∈ db.rrsets.rows) (hs : s ∈ db.rrsets.rows)
    {zoneId : Nat} {label type : Bytes}
    (hrkey : r.2.hasKey zoneId label type = true)
    (hskey : s.2.hasKey zoneId label type = true) :
    r = s := by
  simp only [RRSetRow.hasKey, Bool.and_eq_true, decide_eq_true_eq]
    at hrkey hskey
  obtain ⟨⟨hrzone, hrlabel⟩, hrtype⟩ := hrkey
  obtain ⟨⟨hszone, hslabel⟩, hstype⟩ := hskey
  exact h.rrset_unique r hr s hs (hrzone.trans hszone.symm)
    (hrlabel.trans hslabel.symm) (hrtype.trans hstype.symm)

theorem empty : Db.empty.Consistent where
  rrset_unique := by simp [Db.empty]
  rr_unique := by simp [Db.empty]
  rr_rrset := by simp [Db.empty]

theorem deleteWhere
    (h : db.Consistent) (p : Nat × RRRow → Bool) :
    (db.deleteWhere p).Consistent where
  rrset_unique := h.rrset_unique
  rr_unique r hr s hs :=
    h.rr_unique r (List.mem_of_mem_filter hr) s (List.mem_of_mem_filter hs)
  rr_rrset r hr := h.rr_rrset r (List.mem_of_mem_filter hr)

/-- A zone says nothing about rrsets and rows. -/
theorem insertZone
    {name : Bytes} {n : Nat}
    (h : db.Consistent) (hins : db.insertZone name = some (n, db')) :
    db'.Consistent := by
  obtain ⟨hrrs, hrrsets, -⟩ := Db.insertZone_eq_some hins
  exact
    { rrset_unique := by rw [hrrsets]; exact h.rrset_unique
      rr_unique := by rw [hrrs]; exact h.rr_unique
      rr_rrset := by rw [hrrs, hrrsets]; exact h.rr_rrset }

theorem insertRrset
    {row : RRSetRow} {n : Nat}
    (h : db.Consistent) (hins : db.insertRrset row = some (n, db'))
    (hnew : ∀ r ∈ db.rrsets.rows,
      r.2.hasKey row.zoneId row.label row.type = false) :
    db'.Consistent := by
  obtain ⟨-, hrrs, hrows, -⟩ := Db.insertRrset_eq_some hins
  have hother : ∀ r ∈ db.rrsets.rows, r.2.zoneId = row.zoneId →
      r.2.label = row.label → r.2.type ≠ row.type := by
    intro r hr hzone hlabel htype
    have hkey := hnew r hr
    simp [RRSetRow.hasKey, hzone, hlabel, htype] at hkey
  refine ⟨?_, by rw [hrrs]; exact h.rr_unique, ?_⟩
  · intro r hr s hs hzone hlabel htype
    simp only [hrows, List.mem_append, List.mem_singleton] at hr hs
    rcases hr with hr | rfl
    · rcases hs with hs | rfl
      · exact h.rrset_unique r hr s hs hzone hlabel htype
      · exact absurd htype (hother r hr hzone hlabel)
    · rcases hs with hs | rfl
      · exact absurd htype.symm (hother s hs hzone.symm hlabel.symm)
      · rfl
  · intro r hr
    rw [hrrs] at hr
    obtain ⟨s, hs, hid⟩ := h.rr_rrset r hr
    exact ⟨s, by rw [hrows]; exact List.mem_append_left _ hs, hid⟩

theorem insertRr
    {row : RRRow} {m : Nat}
    (h : db.Consistent) (hins : db.insertRr row = some (m, db'))
    (hset : ∃ s ∈ db.rrsets.rows, s.1 = row.rrsetId) :
    db'.Consistent := by
  obtain ⟨-, hrrsets, hrows⟩ := Db.insertRr_eq_some hins
  -- the trigger leaves no row with the same data in the rrset
  have hold : ∀ r ∈ db'.rrs.rows, r = (m, row) ∨
      r ∈ db.rrs.rows ∧
        (r.2.rrsetId = row.rrsetId → r.2.rrdata ≠ row.rrdata) := by
    intro r hr
    rw [hrows] at hr
    rcases List.mem_append.mp hr with hr | hr
    · obtain ⟨hr, hp⟩ := List.mem_filter.mp hr
      refine Or.inr ⟨hr, fun hset hdata => ?_⟩
      simp [hset, hdata] at hp
    · exact Or.inl (List.mem_singleton.mp hr)
  refine ⟨by rw [hrrsets]; exact h.rrset_unique, ?_, ?_⟩
  · intro r hr s hs hset hdata
    rcases hold r hr with rfl | ⟨hr, hrnot⟩
    · rcases hold s hs with rfl | ⟨hs, hsnot⟩
      · rfl
      · exact absurd hdata.symm (hsnot hset.symm)
    · rcases hold s hs with rfl | ⟨hs, hsnot⟩
      · exact absurd hdata (hrnot hset)
      · exact h.rr_unique r hr s hs hset hdata
  · intro r hr
    rw [hrrsets]
    rcases hold r hr with rfl | ⟨hr, -⟩
    · exact hset
    · exact h.rr_rrset r hr

end Db.Consistent

/-- The unique index keeps an rrset from being added twice in one class. -/
theorem Db.absent_of_insertRrset
    {db db' : Db} {row : RRSetRow} {n : Nat}
    (hins : db.insertRrset row = some (n, db')) (hclazz : row.clazz ≠ none)
    (hsame : ∀ r ∈ db.rrsets.rows,
      r.2.hasKey row.zoneId row.label row.type = true →
        r.2.clazz = row.clazz) :
    ∀ r ∈ db.rrsets.rows,
      r.2.hasKey row.zoneId row.label row.type = false := by
  intro r hr
  cases hkey : r.2.hasKey row.zoneId row.label row.type with
  | false =>
      rfl
  | true =>
      have hclass := hsame r hr hkey
      simp only [RRSetRow.hasKey, Bool.and_eq_true, decide_eq_true_eq]
        at hkey
      have heq : r.2 = row := by
        cases hrow : r.2 with
        | mk zoneId label clazz type =>
            rw [hrow] at hkey hclass
            obtain ⟨⟨rfl, rfl⟩, rfl⟩ := hkey
            obtain rfl : clazz = row.clazz := hclass
            rfl
      exact absurd heq
        ((Db.insertRrset_eq_some hins).2.2.2.2.2 hclazz r hr)

/-- The zone of every rrset exists, too. -/
structure Db.Sound (db : Db) : Prop extends db.Consistent where
  rrset_zone : ∀ r ∈ db.rrsets.rows,
    ∃ z ∈ db.zones.rows, z.1 = r.2.zoneId

namespace Db.Sound

variable {db db' : Db}

theorem empty : Db.empty.Sound where
  toConsistent := Db.Consistent.empty
  rrset_zone := by simp [Db.empty]

theorem deleteWhere (h : db.Sound) (p : Nat × RRRow → Bool) :
    (db.deleteWhere p).Sound where
  toConsistent := h.toConsistent.deleteWhere p
  rrset_zone := h.rrset_zone

theorem insertZone
    {name : Bytes} {n : Nat}
    (h : db.Sound) (hins : db.insertZone name = some (n, db')) :
    db'.Sound where
  toConsistent := h.toConsistent.insertZone hins
  rrset_zone := by
    obtain ⟨-, hrrsets, hzones, -⟩ := Db.insertZone_eq_some hins
    intro r hr
    rw [hrrsets] at hr
    obtain ⟨z, hz, hid⟩ := h.rrset_zone r hr
    exact ⟨z, by rw [hzones]; exact List.mem_append_left _ hz, hid⟩

theorem insertRrset
    {row : RRSetRow} {n : Nat}
    (h : db.Sound) (hins : db.insertRrset row = some (n, db'))
    (hnew : ∀ r ∈ db.rrsets.rows,
      r.2.hasKey row.zoneId row.label row.type = false)
    (hzone : ∃ z ∈ db.zones.rows, z.1 = row.zoneId) :
    db'.Sound where
  toConsistent := h.toConsistent.insertRrset hins hnew
  rrset_zone := by
    obtain ⟨hzones, -, hrows, -⟩ := Db.insertRrset_eq_some hins
    intro r hr
    rw [hrows] at hr
    rw [hzones]
    rcases List.mem_append.mp hr with hr | hr
    · exact h.rrset_zone r hr
    · rw [List.mem_singleton.mp hr]
      exact hzone

theorem insertRr
    {row : RRRow} {m : Nat}
    (h : db.Sound) (hins : db.insertRr row = some (m, db'))
    (hset : ∃ s ∈ db.rrsets.rows, s.1 = row.rrsetId) :
    db'.Sound where
  toConsistent := h.toConsistent.insertRr hins hset
  rrset_zone := by
    obtain ⟨hzones, hrrsets, -⟩ := Db.insertRr_eq_some hins
    rw [hzones, hrrsets]
    exact h.rrset_zone

end Db.Sound

end Ndns

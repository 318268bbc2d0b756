import Ndns.DelegatedWorlds
import Ndns.StartedSites
import Ndns.SubzoneLookups

/-!
# Registrations at a server

`ZoneRegister::tryRegister` enters a subzone in the database of the server of its
zone, which goes on meanwhile.  What was stored stays, and the world of the servers
gets one more delegation.

**Results.**
* `Fits.ready`: the server stays one whose records can be found;
* `Fits.delegated`: the world behind the registration;
* `Fits.map_nsRecords`: the name servers of the subzone.
-/

namespace Ndns

/-- The rows at a key are those of its rrset. -/
theorem Db.Consistent.stored_eq
    {db : Db} (h : db.Consistent) (zoneId : Nat) (label : Name)
    (type : RRType) :
    db.stored zoneId label type =
      db.rrRows (db.rrsetId zoneId label.toUri type.toString) := by
  rw [Db.stored, Db.rrRows]
  exact List.filter_congr (Db.isAt_eq h ⟨zoneId, label, type⟩)

namespace ZoneRegister

section Rows

variable {r : ZoneRegister} {db db' : Db} {label : Name} {type : RRType}

/-- What is stored at other keys stays as it is. -/
theorem SubInserted.stored_of_other
    (h : r.SubInserted db db') (hdb : db.Consistent)
    (hdb' : db'.Consistent) {zone : Zone}
    (hsub : ¬ (zone.id = (r.knownZone db).id ∧ label = r.subLabel ∧
      type = r.rrType))
    (hcert : ¬ (zone.id = (r.knownZone db).id ∧ label = r.certLabel ∧
      type = .ID_CERT)) :
    db'.stored zone.id label type = db.stored zone.id label type := by
  have hid : db'.rrsetId zone.id label.toUri type.toString =
      db.rrsetId zone.id label.toUri type.toString := by
    refine Table.lastWhere_append_of_not h.rrsets_eq ?_
    intro s hs
    simp only [List.mem_cons, List.not_mem_nil, or_false] at hs
    rw [← Bool.not_eq_true]
    rcases hs with rfl | rfl
    · exact fun hkey => hcert (hasKey_row_iff.mp hkey)
    · exact fun hkey => hsub (hasKey_row_iff.mp hkey)
  have hle : db.rrsetId zone.id label.toUri type.toString ≤
      db.rrsets.lastId :=
    Table.lastWhere_le_lastId _ _
  rw [hdb'.stored_eq, hdb.stored_eq, hid,
    h.others _ (by omega) (by omega)]

/-- The data at the label of the subzone are its name servers. -/
theorem SubInserted.map_stored_subLabel
    (h : r.SubInserted db db') (hdb' : db'.Consistent) (hfree : r.Free db) :
    (db'.stored (r.knownZone db).id r.subLabel r.rrType).map
      (fun t => t.2.rrdata) = r.nsDatas.dedup := by
  have hkeys := h.keys_ne
  have hasked : (QueryMgr.asked (r.knownZone db) { Query.init with
      rrLabel := r.subLabel
      rrType := r.rrType } db').id = db.rrsets.lastId + 2 := by
    refine h.asked_id (by
      rw [h.rrsets_eq]
      simp) hfree.sub ?_ rfl rfl
    intro s hs hkey
    simp only [List.mem_cons, List.not_mem_nil, or_false] at hs
    rcases hs with rfl | rfl
    · obtain ⟨-, hl, ht⟩ := hasKey_row_iff.mp hkey
      exact absurd ⟨hl, ht⟩ hkeys
    · rfl
  have hid : db'.rrsetId (r.knownZone db).id r.subLabel.toUri
      r.rrType.toString = db.rrsets.lastId + 2 := hasked
  have hdata := h.nsData
  rw [hfree.dataOf_eq_nil (by omega), List.filter_nil, List.nil_append]
    at hdata
  rw [hdb'.stored_eq, hid]
  exact hdata

end Rows

end ZoneRegister

/-- A subzone of the zone of a server is registered in its database; nothing is there
at its labels. -/
structure ZoneRegister.Fits (r : ZoneRegister) (site : Site) : Prop where
  ready : site.Ready
  sound : site.disk.db.Sound
  routed : site.routed = r.zone.authorizedName
  zone_id : site.server.zone.id = (r.knownZone site.disk.db).id
  below : r.zone.authorizedName ++ r.subLabel = r.subzone.authorizedName
  label_ne_nil : r.subLabel ≠ []
  label_plain : r.subLabel.Plain
  rrType : r.rrType = .NS
  nsDatas : r.nsDatas ≠ []
  quotes : ∀ a ∈ r.nsDatas, (39 : UInt8) ∉ a
  free : r.Free site.disk.db

/-- The server behind a registration in the database of its zone. -/
def Site.behind (P : NameParser) (S : Sqlite) (r : ZoneRegister)
    (site : Site) : Site :=
  if site.routed = r.zone.authorizedName then
    { site with disk := Effect.behind (r.tryRegister P S) site.disk }
  else site

@[simp] theorem Site.routed_behind
    (P : NameParser) (S : Sqlite) (r : ZoneRegister) (site : Site) :
    (site.behind P S r).routed = site.routed := by
  unfold behind
  split <;> rfl

/-- The servers behind it. -/
abbrev sitesBehind (P : NameParser) (S : Sqlite) (r : ZoneRegister)
    (sites : List Site) : List Site :=
  sites.map (Site.behind P S r)

/-- The registration gets to its end. -/
def ZoneRegister.Succeeds (P : NameParser) (S : Sqlite) (r : ZoneRegister)
    (disk : Disk) : Prop :=
  ∃ r' d, (r.tryRegister P S).run disk = .ok (true, r') d

namespace ZoneRegister

section Servers

variable {P : NameParser} {S : Sqlite} {r : ZoneRegister} {site : Site}

theorem Fits.names_ne (h : r.Fits site) :
    r.zone.authorizedName ≠ r.subzone.authorizedName := by
  rw [← h.below]
  intro hself
  exact h.label_ne_nil (List.self_eq_append_right.mp hself)

theorem Fits.subInserted
    (h : r.Fits site) (hsucceeds : r.Succeeds P S site.disk) :
    r.Known site.disk.db ∧
      r.SubInserted site.disk.db
        (Effect.behind (r.tryRegister P S) site.disk).db := by
  obtain ⟨r', d, hrun⟩ := hsucceeds
  have hperforms : Performs S (r.tryRegister P S) (r.plan site.disk.db)
      site.disk _ _ :=
    performs_tryRegister h.quotes
  have hends := hperforms site.disk rfl
  rw [hrun] at hends
  have hregisters : r.Registers site.disk.db := by simpa using hends.2.symm
  have hbehind : Effect.behind (r.tryRegister P S) site.disk = d := by
    rw [Effect.behind, hrun]
  rw [hbehind]
  exact ⟨(registers_sub_iff h.names_ne).mp hregisters,
    subInserted_of_plan h.names_ne hregisters (Sqlite.execute_db hends.1)⟩

/-- The tables stay sound. -/
theorem Fits.sound_behind
    (h : r.Fits site) (hknown : r.Known site.disk.db) :
    (Effect.behind (r.tryRegister P S) site.disk).db.Sound := by
  refine (show ((Call.tryRegister r).run P S site.disk).db.Sound from
    Call.tryRegister_keeps ?_ h.sound)
  intro _
  refine ⟨h.quotes, fun z hz hname => ?_⟩
  obtain ⟨z', hz', hname', hid⟩ := exists_knownZone hknown
  obtain rfl : z = z' := site.disk.db.zones_unique z hz z' hz'
    (hname.trans hname'.symm)
  constructor
  · intro s hs hkey
    rw [hid, h.free.cert s hs] at hkey
    exact absurd hkey (by decide)
  · intro _ s hs hkey
    rw [hid, h.free.sub s hs] at hkey
    exact absurd hkey (by decide)

end Servers

section Worlds

variable {P : NameParser} {S : Sqlite} {r : ZoneRegister} {parent : Site}
variable {sites : List Site}

theorem nodup_sitesBehind (hnodup : (sites.map Site.routed).Nodup) :
    ((sitesBehind P S r sites).map Site.routed).Nodup := by
  rw [List.map_map, show Site.routed ∘ Site.behind P S r = Site.routed from
    funext (Site.routed_behind P S r)]
  exact hnodup

/-- The stores of the servers. -/
theorem ofSites_sitesBehind (zone : Name) :
    World.ofSites (sitesBehind P S r sites) zone =
      (sites.find? (fun site => site.routed = zone)).map
        (fun site => (site.behind P S r).disk.db.store
          site.server.zone.id) := by
  have hserver (site : Site) :
      (site.behind P S r).server = site.server := by
    unfold Site.behind
    split <;> rfl
  rw [World.ofSites, sitesBehind, List.find?_map, Option.map_map]
  simp only [Function.comp_def, Site.routed_behind, hserver]

/-- The world gets a delegation. -/
theorem Fits.delegated
    (hnodup : (sites.map Site.routed).Nodup) (hparent : parent ∈ sites)
    (h : r.Fits parent) (hsucceeds : r.Succeeds P S parent.disk) :
    (World.ofSites sites).Delegated (World.ofSites (sitesBehind P S r sites))
      parent.routed r.subLabel r.certLabel := by
  obtain ⟨hknown, hinserted⟩ := h.subInserted hsucceeds
  have hsound : Db.Sound _ := h.sound_behind (P := P) (S := S) hknown
  have hdb : (parent.behind P S r).disk.db =
      (Effect.behind (r.tryRegister P S) parent.disk).db := by
    rw [Site.behind, if_pos h.routed]
  have hbefore := World.ofSites_routed hnodup hparent
  have hbehind : World.ofSites (sitesBehind P S r sites) parent.routed =
      some ((Effect.behind (r.tryRegister P S) parent.disk).db.store
        parent.server.zone.id) := by
    have hstore := World.ofSites_routed
      (nodup_sitesBehind (P := P) (S := S) (r := r) hnodup)
      (List.mem_map_of_mem (f := Site.behind P S r) hparent)
    rw [Site.routed_behind, hdb] at hstore
    rw [hstore, Site.behind, if_pos h.routed]
  refine ⟨h.label_ne_nil, ?_, ?_, ?_, ?_⟩
  · rw [World.HasNs, nsRecords_eq hbefore, holds_store, not_not,
      Db.stored_eq_nil, List.map_nil]
    rw [Db.rrsetId_eq_zero_iff, h.zone_id]
    simpa [h.rrType] using h.free.sub
  · rw [World.HasNs, nsRecords_eq hbehind, holds_store, ne_eq,
      List.map_eq_nil_iff, ← h.rrType, h.zone_id]
    intro hnil
    have hdata := hinserted.map_stored_subLabel hsound.toConsistent h.free
    rw [hnil, List.map_nil] at hdata
    exact h.nsDatas ((List.dedup_eq_nil _).mp hdata.symm)
  · intro zone
    rw [ofSites_sitesBehind, World.ofSites, Option.map_eq_none_iff,
      Option.map_eq_none_iff]
  · intro zone s s' label type hs hs' hsub hcert
    by_cases hzone : zone = parent.routed
    · subst hzone
      obtain rfl := Option.some.inj (hbefore.symm.trans hs)
      obtain rfl := Option.some.inj (hbehind.symm.trans hs')
      rw [holds_store, holds_store, hinserted.stored_of_other
        h.sound.toConsistent hsound.toConsistent]
      · rintro ⟨-, hlabel, htype⟩
        exact hsub ⟨rfl, hlabel, htype.trans h.rrType⟩
      · rintro ⟨-, hlabel, htype⟩
        exact hcert ⟨rfl, hlabel, htype⟩
    · -- the server of another zone
      rw [ofSites_sitesBehind] at hs'
      rw [World.ofSites] at hs
      obtain ⟨site, hsite, rfl⟩ := Option.map_eq_some_iff.mp hs
      rw [hsite, Option.map_some, Option.some.injEq] at hs'
      have hrouted : site.routed = zone := by
        simpa using List.find?_some hsite
      rw [← hs', Site.behind, if_neg]
      rw [hrouted, ← h.routed]
      exact hzone

end Worlds

end ZoneRegister

end Ndns

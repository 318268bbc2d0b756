import Ndns.Delegation
import Ndns.Retransmission
import Ndns.Sites

/-!
# Name servers that are updated

An update for a plain name reaches the servers of its zone only, is read there as it
was meant, and is what it says to the records.  The server stays one whose records a
resolver can find.

**Results.**
* `UpdateClient.Plain.fromInterest`: the server reads what the client has sent;
* `UpdateClient.Plain.eq_of_isPrefix`: no other update has the answer;
* `Site.Ready.onInterest_update`: what an update makes of a server;
* `Site.Ready.serves`: the servers serve the world of their tables.
-/

namespace Ndns

section Clients

/-- A client whose update is one of a plain name. -/
structure UpdateClient.Plain {K : PacketCodec} (c : UpdateClient K) : Prop where
  zone : c.zone.authorizedName.Plain
  label : c.rrLabel.Plain
  label_ne_nil : c.rrLabel ≠ []
  rrType : c.rrType.isQueried = true
  clean : Stmt.CleanText c.rrData
  supported : c.action ∈ [UpdateAction.NONE, .ADD, .REMOVE, .REPLACE_ALL]

/-- What the client wants of the records. -/
def UpdateClient.apply {K : PacketCodec} (c : UpdateClient K) (zoneId : Nat)
    (m : Records) : Records :=
  m.update c.action ⟨zoneId, c.rrLabel, c.rrType⟩ c.rrData

namespace UpdateClient.Plain

variable {P : NameParser} {K : PacketCodec} {c c' : UpdateClient K}
variable {server : NameServer}

theorem markerExact {n : Name} (h : n.Plain) : MarkerExact n := by
  intro u m v hn hm
  have hfree := h.markerFree.not_endsInMarker m (by rw [hn]; simp)
  exact absurd hm hfree

/-- The server reads the RR of the client. -/
theorem fromInterest (h : c.Plain) :
    ∃ queryUpdate, QueryUpdate.init.fromInterest P K c.interest =
        some (true, queryUpdate) ∧
      queryUpdate.update.rrs = [c.received c.rrLabel c.rrType] := by
  have hclean : ∀ d ∈ c.rrLabel.dropLast, ¬ EndsInQueryWord d :=
    fun d hd => h.label.not_endsInQueryWord d (List.mem_of_mem_dropLast hd)
  have hdelivers := (DynamicDNSUpdate.delivers_iff P c.outer h.label_ne_nil
    c.fits).mpr ⟨h.rrType, hclean, markerExact h.zone⟩
  obtain ⟨interest, tool', q, rr, hsend, hread, hone, hlabel, htype, -⟩ :=
    hdelivers
  obtain ⟨tool, hinterest⟩ := c.interest_eq
  obtain ⟨rfl, -⟩ := Prod.mk.inj (Option.some.inj
    (hinterest.symm.trans hsend))
  obtain ⟨label, type, hrrs⟩ := Network.exists_received c hread
  obtain ⟨rfl, -⟩ := List.cons.inj (hone.symm.trans hrrs)
  obtain rfl : label = c.rrLabel := hlabel
  obtain rfl : type = c.rrType := htype
  exact ⟨q, hread, hrrs⟩

/-- The Interest of a client says what the client wants. -/
theorem applyInterest_eq (h : c.Plain) (m : Records) :
    Network.applyInterest P server K c.interest m =
      c.apply server.zone.id m := by
  obtain ⟨queryUpdate, hread, hone⟩ := h.fromInterest (P := P)
  simp only [Network.applyInterest, hread, Request.apply, hone]
  rfl

theorem clientBuilt (h : c.Plain) :
    (c.received c.rrLabel c.rrType).ClientBuilt :=
  ⟨rfl, rfl, h.clean, h.supported⟩

theorem zone_eq
    (h : c.Plain) (h' : c'.Plain) (hsame : c.interest = c'.interest) :
    c.zone.authorizedName = c'.zone.authorizedName := by
  have hdns : ¬ PlainText (Component.toUri (ascii "DNS")) := by decide
  have hpre : c.interest.name <+: c'.interest.name := by
    rw [hsame]
  rw [Network.interest_name c, Network.interest_name c'] at hpre
  exact (isPrefix_at_cut h.zone h'.zone hdns hdns hpre).1

/-- A packet that answers one update satisfies no other. -/
theorem eq_of_isPrefix
    (h : c.Plain) (h' : c'.Plain)
    (hpre : c.interest.name <+: c'.interest.name) :
    c.interest = c'.interest := by
  have hdns : ¬ PlainText (Component.toUri (ascii "DNS")) := by decide
  rw [Network.interest_name c, Network.interest_name c'] at hpre ⊢
  obtain ⟨hzone, -, hrest⟩ := isPrefix_at_cut h.zone h'.zone hdns hdns hpre
  have hlength := hrest.eq_of_length (by simp)
  simp only [List.cons_append, List.nil_append, List.cons.injEq, true_and,
    and_true] at hlength
  rw [Interest.mk.injEq]
  refine ⟨?_, rfl⟩
  rw [updateName, updateName, hzone, hlength.1, hlength.2]

end UpdateClient.Plain

end Clients

section Delegations

variable {S : Sqlite} {zone : Zone} {rr : RR} {disk : Disk} {db : Db}

/-- An update adds one rrset at most, that of its RR. -/
theorem DyndnsMgr.Changed.rrsets
    (h : Changed S zone rr disk db) :
    ∀ s ∈ db.rrsets.rows,
      s ∈ disk.db.rrsets.rows ∨ s.2 = DyndnsMgr.newRrset zone rr := by
  cases h with
  | unchanged => exact fun s hs => Or.inl hs
  | newRrset n db hcreates hzero hnew =>
      intro s hs
      rw [(Db.insertRrset_eq_some hnew).2.2.1] at hs
      rcases List.mem_append.mp hs with hs | hs
      · exact Or.inl hs
      · exact Or.inr (congrArg Prod.snd (List.mem_singleton.mp hs))
  | newRrsetRow n m db₁ db hcreates hzero hnew hrow =>
      intro s hs
      rw [(Db.insertRr_eq_some hrow).2.1,
        (Db.insertRrset_eq_some hnew).2.2.1] at hs
      rcases List.mem_append.mp hs with hs | hs
      · exact Or.inl hs
      · exact Or.inr (congrArg Prod.snd (List.mem_singleton.mp hs))
  | newRow m db haction hne hrow =>
      rw [(Db.insertRr_eq_some hrow).2.1]
      exact fun s hs => Or.inl hs
  | remove haction hid hfails => exact fun s hs => Or.inl hs
  | clear haction hne => exact fun s hs => Or.inl hs
  | replace m db haction hne hrow =>
      rw [(Db.insertRr_eq_some hrow).2.1]
      exact fun s hs => Or.inl hs

/-- An update at a plain label keeps the delegations plain. -/
theorem PlainDelegations.of_changed
    (h : PlainDelegations disk.db zone.id)
    (hchanged : DyndnsMgr.Changed S zone rr disk db)
    (hlabel : rr.rrset.label.Plain) :
    PlainDelegations db zone.id := by
  intro s hs hzone htype
  rcases hchanged.rrsets s hs with hs | hnew
  · exact h s hs hzone htype
  · exact ⟨rr.rrset.label, hlabel, by rw [hnew]; rfl⟩

end Delegations

namespace Site

/-- The server of a zone whose names are plain. -/
structure Ready (site : Site) : Prop where
  routed : site.routed.Plain
  forwardingHint : ∀ hint, site.forwardingHint = some hint → hint.Plain
  consistent : site.disk.db.Consistent
  delegations : PlainDelegations site.disk.db site.server.zone.id
  zone_ne_zero : site.server.zone.id ≠ 0

/-- The response to an update is no longer than a block may be. -/
def UpdateFits (interest : Interest) (site : Site) : Prop :=
  (site.server.updateReply interest .DyNDNS_OK
    (ascii "OK")).toBlock.value.length < 2 ^ 64

instance (interest : Interest) (site : Site) :
    Decidable (site.UpdateFits interest) :=
  inferInstanceAs (Decidable (_ < 2 ^ 64))

/-- What is put for an update that is carried out. -/
def accepted (interest : Interest) (site : Site) : Data where
  name := interest.name
  contentType := QueryType.DNS.code
  freshnessPeriod := site.server.contentFreshness
  content := (site.server.updateReply interest .DyNDNS_OK
    (ascii "OK")).toBlock

section Updates

variable {P : NameParser} {S : Sqlite} {K : PacketCodec} {site : Site}
variable {c : UpdateClient K}

/-- An update reaches the servers of its zone only. -/
theorem Ready.routed_of_receives
    (h : site.Ready) (hplain : c.Plain)
    (hreceives : site.receives c.interest = true) :
    site.routed = c.zone.authorizedName := by
  have hdns : ¬ PlainText (Component.toUri (ascii "DNS")) := by decide
  have hfront := not_plainText_queryType (t := .DNS) rfl
  simp only [receives, filters, Bool.and_eq_true, List.any_cons,
    Bool.or_eq_true, List.isPrefixOf_iff_prefix] at hreceives
  obtain ⟨-, hreceives⟩ := hreceives
  rw [Network.interest_name c] at hreceives
  rcases hreceives with hpre | hhint
  · exact (isPrefix_at_cut h.routed hplain.zone hfront hdns hpre).1
  · simp only [List.any_eq_true, Option.mem_toList, Option.map_eq_some_iff,
      List.isPrefixOf_iff_prefix] at hhint
    obtain ⟨_, ⟨hint, hhint, rfl⟩, hpre⟩ := hhint
    rw [List.append_assoc] at hpre
    have hword := (isPrefix_at_cut (h.forwardingHint hint hhint) hplain.zone
      not_plainText_marker hdns hpre).2.1
    exact absurd hword (by decide)

theorem receives_update
    (hup : site.up = true) (h : site.routed = c.zone.authorizedName) :
    site.receives c.interest = true := by
  simp only [receives, filters, Bool.and_eq_true, List.any_cons,
    Bool.or_eq_true, List.isPrefixOf_iff_prefix]
  rw [Network.interest_name c, h]
  exact ⟨hup, Or.inl (List.prefix_append_right_inj _ |>.mpr
    (List.prefix_append [QueryType.DNS.toString] _))⟩

/-- The server puts what it has accepted. -/
theorem putUpdate_accepted
    {interest : Interest} (hfits : site.UpdateFits interest) :
    NameServer.putUpdate (site.server.updateReply interest .DyNDNS_OK
      (ascii "OK")) = .returned [site.accepted interest] := by
  rw [NameServer.putUpdate, ResponseUpdate.toData,
    ResponseUpdate.wireEncode_eq rfl hfits]
  rfl

/-- What an update makes of a server. -/
theorem Ready.onInterest_update
    (h : site.Ready) (hplain : c.Plain) (hfails : ∀ n, S.fails n = false)
    (hroom : ¬ site.disk.db.Full) (hfits : site.UpdateFits c.interest)
    (version : Version) :
    ∃ d, site.onInterest P S K version c.interest =
        ([site.accepted c.interest], { site with disk := d }) ∧
      PlainDelegations d.db site.server.zone.id ∧
      ∀ m, Represents site.disk.db m →
        Represents d.db (c.apply site.server.zone.id m) := by
  obtain ⟨queryUpdate, hread, hone⟩ := hplain.fromInterest (P := P)
  have hmatch : (matchUpdateName c.interest.name.toUri).isSome = true := by
    rw [Network.interest_name]
    exact matchUpdateName_isSome _ _ _
  have hrefines (m : Records) (hm : Represents site.disk.db m) :=
    DyndnsMgr.updateRr_refines (S := S) hfails h.zone_ne_zero
      hplain.clientBuilt hm site.disk rfl
  have hchanged : Effect.Triple (· = site.disk)
      (DyndnsMgr.updateRr S site.server.zone
        (c.received c.rrLabel c.rrType)) _ _ :=
    DyndnsMgr.updateRr_triple site.server.zone hplain.clean.1
      (by rw [hplain.clientBuilt.clazz_eq]; simp [Stmt.CleanText]) site.disk
  replace hchanged := hchanged site.disk rfl
  cases hrun : (DyndnsMgr.updateRr S site.server.zone
      (c.received c.rrLabel c.rrType)).run site.disk with
  | error e d =>
      have hfull := hrefines _ (represents_ofDb h.consistent)
      rw [hrun] at hfull
      exact absurd hfull hroom
  | ok rr d =>
      rw [hrun] at hchanged
      refine ⟨d, ?_, h.delegations.of_changed hchanged hplain.label,
        fun m hm => ?_⟩
      · simp only [onInterest, NameServer.onInterest, if_pos hmatch,
          NameServer.onUpdate, hread,
          NameServer.update_setUpdateZone hone, hrun,
          putUpdate_accepted hfits]
      · have hm' := hrefines m hm
        rw [hrun] at hm'
        exact hm'.1

/-- The server stays one whose names are plain. -/
theorem Ready.of_update
    (h : site.Ready) {d : Disk} {m : Records}
    (hdelegations : PlainDelegations d.db site.server.zone.id)
    (hdb : Represents d.db m) :
    Ready { site with disk := d } where
  routed := h.routed
  forwardingHint := h.forwardingHint
  consistent := hdb.consistent
  delegations := hdelegations
  zone_ne_zero := h.zone_ne_zero

/-- A client that gets what was put for its update reads of a success. -/
theorem exists_fromData_accepted
    (hplain : c.Plain) (hfits : site.UpdateFits c.interest)
    (r : ResponseUpdate) :
    ∃ re, r.fromData P (site.accepted c.interest) = some re ∧
      re.responseType = .DyNDNS_OK ∧ re.result = ascii "OK" := by
  obtain ⟨queryUpdate, hread, -⟩ := hplain.fromInterest (P := P)
  have hparses : CutParses P matchUpdateName c.interest.name := by
    intro map hmap
    simp only [QueryUpdate.fromInterest, hmap, Option.map_eq_some_iff,
      QueryUpdate.fromInterestMap, Option.bind_eq_bind,
      Option.bind_eq_some_iff, Query.hintOfMap] at hread
    obtain ⟨_, ⟨zone, hzone, label, -, hint, hhint, -⟩, -⟩ := hread
    refine ⟨Option.isSome_of_eq_some hzone, fun hne => ?_⟩
    rw [if_pos hne] at hhint
    exact Option.isSome_of_eq_some hhint
  obtain ⟨r', hr'⟩ := Option.isSome_iff_exists.mp
    ((ResponseUpdate.readName_isSome_iff P r c.interest.name).mpr hparses)
  have hfrom : r.fromData P (site.accepted c.interest) =
      ResponseUpdate.wireDecode { r' with
        queryName := c.interest.name
        freshness := site.server.contentFreshness
        queryType := QueryType.DNS.code } (site.server.updateReply c.interest
          .DyNDNS_OK (ascii "OK")).toBlock := by
    rw [ResponseUpdate.fromData, show (site.accepted c.interest).name =
      c.interest.name from rfl, hr']
    rfl
  exact ⟨_, hfrom.trans (ResponseUpdate.wireDecode_toBlock _ _
    site.server.contentFreshness_lo site.server.contentFreshness_hi hfits),
    rfl, rfl⟩

end Updates

end Site

section Worlds

/-- The world that the tables of servers make up. -/
def World.ofSites (sites : List Site) : World := fun zone =>
  (sites.find? (fun site => site.routed = zone)).map
    (fun site => site.disk.db.store site.server.zone.id)

variable {sites : List Site} {site : Site}

theorem World.ofSites_routed
    (hnodup : (sites.map Site.routed).Nodup) (hsite : site ∈ sites) :
    World.ofSites sites site.routed =
      some (site.disk.db.store site.server.zone.id) := by
  have hfind : sites.find? (fun site' => site'.routed = site.routed) =
      some site := by
    obtain ⟨site', hfind⟩ : ∃ site', sites.find?
        (fun site' => site'.routed = site.routed) = some site' :=
      Option.isSome_iff_exists.mp (List.find?_isSome.mpr
        ⟨site, hsite, by simp⟩)
    have hrouted : site'.routed = site.routed := by
      simpa using List.find?_some hfind
    rw [hfind, List.inj_on_of_nodup_map hnodup
      (List.mem_of_find?_eq_some hfind) hsite hrouted]
  rw [World.ofSites, hfind]
  rfl

/-- Servers of different zones serve the world of their tables. -/
theorem Site.Ready.serves
    (h : site.Ready) (hnodup : (sites.map Site.routed).Nodup)
    (hsite : site ∈ sites) :
    site.Serves (World.ofSites sites) where
  routed := h.routed
  forwardingHint := h.forwardingHint
  consistent := h.consistent
  delegations := h.delegations
  holds := ⟨_, World.ofSites_routed hnodup hsite, holds_store _ _⟩

/-- The data of a store are those of the tables. -/
theorem Db.map_rrData_lookup
    (db : Db) (zoneId : Nat) (label : Name) (type : RRType) :
    ((db.store zoneId).lookup label type).map Record.rrData =
      db.dataAt ⟨zoneId, label, type⟩ := by
  rw [holds_store, List.map_map]
  rfl

/-- The data that a server of a zone has for a label and a type. -/
def Site.dataAt (site : Site) (label : Name) (type : RRType) : List Bytes :=
  site.disk.db.dataAt ⟨site.server.zone.id, label, type⟩

/-- An answer for another type than NS has the data that are looked up. -/
theorem Answer.CarriedBy.of_not_ns
    {s : Store} {label : Name} {type : RRType} {re : Response}
    (h : (s.answer label type).CarriedBy re) (htype : type ≠ .NS) :
    re.rrs.map RR.rrData =
        (s.lookup label type).map Record.rrData ∧
      (re.responseType = .NDNS_Resp ↔
        (s.lookup label type).map Record.rrData ≠ []) := by
  have hdata : re.rrs.map RR.rrData =
      (s.answer label type).rrs.map Record.rrData := by
    rw [← h.rrs_eq, List.map_map]
    rfl
  rw [hdata, h.responseType_eq, Store.answer, if_neg htype]
  split_ifs with hfound
  · simpa using hfound
  · simpa using hfound

/-- A right answer for other types than NS has the data of the server of the last
zone of the chain. -/
theorem World.RightAnswer.exists_site
    {dst : Name} {type : RRType} {re : Response}
    (h : (World.ofSites sites).RightAnswer dst type re) (htype : type ≠ .NS) :
    ∃ site ∈ sites, (World.ofSites sites).Chain dst site.routed ∧
      (∀ l, ¬ (World.ofSites sites).Delegates dst site.routed l) ∧
      re.rrs.map RR.rrData =
        site.dataAt (dst.drop site.routed.length) type ∧
      (re.responseType = .NDNS_Resp ↔
        site.dataAt (dst.drop site.routed.length) type ≠ []) := by
  rw [World.RightAnswer, if_neg htype] at h
  obtain ⟨zone, s, hchain, hnone, hs, hcarried⟩ := h
  obtain ⟨site, hfind, rfl⟩ := Option.map_eq_some_iff.mp hs
  have hrouted : site.routed = zone := by
    simpa using List.find?_some hfind
  subst hrouted
  refine ⟨site, List.mem_of_find?_eq_some hfind, hchain, hnone, ?_⟩
  rw [Site.dataAt, ← Db.map_rrData_lookup]
  exact hcarried.of_not_ns htype

end Worlds

end Ndns

import Ndns.HintedResolutions

/-!
# The resolver with forwarding hints on a network

**Results.**
* `hintedNetwork_right`: every answer in every run is right;
* `hintedNetwork_silent`: the NS records of a delegated name are never answered;
* `hintedNetwork_settles`: any other open resolution can be brought to its answer.
-/

namespace Ndns

open IterativeQueryWithForwardingHint

section Runs

variable (P : NameParser) (S : Sqlite) (K : PacketCodec) (W : World)
variable (rootHint : Name) (resolver : NameCachingResolver)

/-- The resolver with hints and the name servers. -/
abbrev hintedParties :
    Exchange.Parties Query
      (IterativeQueryWithForwardingHint × FaceAction) Interest Data Site
      Version :=
  resolverParties P S K (hintedStrategy P rootHint) resolver

/-- In every run, the resolver goes on and every packet that it puts is the right
answer to its stub. -/
theorem hintedNetwork_right
    (hrecords : W.PlainRecords P) (hroot : rootHint.Plain)
    {sites : List Site} (hsites : ∀ site ∈ sites, site.Serves W)
    {events : List (Exchange.Event Query Version)}
    {net : Exchange.Net Query
      (IterativeQueryWithForwardingHint × FaceAction) Interest Data Site}
    (hrun : Machine.Along
      (Exchange.step (hintedParties P S K rootHint resolver))
      (resolverContract P W (hintedStrategy P rootHint) resolver
        (Resolved P W rootHint)).Allowed events
      (Exchange.Net.ofSites sites))
    (hnet : Machine.final
      (Exchange.step (hintedParties P S K rootHint resolver))
      events (Exchange.Net.ofSites sites) = net) :
    net.up = true ∧
      ∀ stub iq data, (stub, iq, FaceAction.put data) ∈ net.sessions →
        W.RightPacket P stub data := by
  have hholds := (hintedStrategy_sound hrecords hroot).holds_of_run P S K
    resolver hsites hrun
  rw [hnet] at hholds
  exact ⟨hholds.up, fun stub iq data hmem => (hholds.session _ hmem).acts.2⟩

/-- No run answers a question for the NS records of a delegated name. -/
theorem hintedNetwork_silent
    (hrecords : W.PlainRecords P) (hroot : rootHint.Plain)
    {sites : List Site} (hsites : ∀ site ∈ sites, site.Serves W)
    {events : List (Exchange.Event Query Version)}
    (hrun : Machine.Along
      (Exchange.step (hintedParties P S K rootHint resolver))
      (resolverContract P W (hintedStrategy P rootHint) resolver
        (Resolved P W rootHint)).Allowed events
      (Exchange.Net.ofSites sites))
    {stub : Query} (hT : stub.rrType = .NS)
    (hdelegated : ∃ zone label, W.DelegatesTo stub.rrLabel zone label)
    (iq : IterativeQueryWithForwardingHint) (data : Data) :
    (stub, iq, FaceAction.put data) ∉ (Machine.final
      (Exchange.step (hintedParties P S K rootHint resolver))
      events (Exchange.Net.ofSites sites)).sessions := by
  intro hmem
  have hholds := (hintedStrategy_sound hrecords hroot).holds_of_run P S K
    resolver hsites hrun
  have hsession := hholds.session _ hmem
  obtain ⟨n, hresolved⟩ := hsession.state
  exact hresolved.step_ne hrecords hroot hT hdelegated hsession.acts.1

/-- If every name server has a hint and the stub does not ask for the name servers
of a zone, a resolution that has not timed out can be brought to the right
answer. -/
theorem hintedNetwork_settles
    (hrecords : W.PlainRecords P) (hroot : rootHint.Plain)
    (hhinted : W.ServersHinted P) {sites : List Site} {stub : Query}
    (hfails : ∀ n, S.fails n = false)
    (hsites : ∀ site ∈ sites, site.Serves W ∧ site.up = true)
    (hplain : stub.Plain) (hends : W.Ends P stub)
    (hne : stub.rrLabel ≠ [])
    (hinside : stub.rrType = .NS →
      ¬ ∃ zone label, W.DelegatesTo stub.rrLabel zone label)
    (hcan : CanAnswer P W sites (HintedAbout P W rootHint stub))
    {events : List (Exchange.Event Query Version)}
    {net : Exchange.Net Query
      (IterativeQueryWithForwardingHint × FaceAction) Interest Data Site}
    (hrun : Machine.Along
      (Exchange.step (hintedParties P S K rootHint resolver))
      (runningContract P W (hintedStrategy P rootHint) resolver
        (Resolved P W rootHint)).Allowed events
      (Exchange.Net.ofSites sites))
    (hnet : Machine.final
      (Exchange.step (hintedParties P S K rootHint resolver))
      events (Exchange.Net.ofSites sites) = net)
    {n : Nat} {session : IterativeQueryWithForwardingHint × FaceAction}
    (hsession : net.sessions[n]? = some (stub, session))
    (hopen : session.2 ≠ .nothing) :
    ∃ events' iq data,
      Machine.Along
        (Exchange.step (hintedParties P S K rootHint resolver))
        (runningContract P W (hintedStrategy P rootHint) resolver
          (Resolved P W rootHint)).Allowed events' net ∧
      (Machine.final
        (Exchange.step (hintedParties P S K rootHint resolver))
        events' net).sessions[n]? = some (stub, iq, .put data) ∧
      W.RightPacket P stub data := by
  have hsettles := hintedStrategy_settles rootHint hplain hhinted hinside
    (IterativeQuery.settles_of_ends hends hplain.rrType hne)
  exact hsettles.exists_answer (hintedStrategy_sound hrecords hroot) hcan
    hfails hsites hrun hnet hsession hopen

end Runs

section Example

/-- The root delegates `/net`, whose name server has a hint. -/
def hintedDb : Db where
  zones := DyndnsMgr.twoZones.zones
  rrsets := ⟨[(1, ⟨1, ascii "/net", some [], ascii "NS"⟩),
      (2, ⟨1, ascii "/net/ns1", some [], ascii "FH"⟩),
      (3, ⟨2, ascii "/www", some [], ascii "TXT"⟩)],
    by decide, by decide, by decide⟩
  rrs := ⟨[(1, ⟨1, 3600, ascii "/net/ns1"⟩), (2, ⟨2, 3600, ascii "/isp"⟩),
      (3, ⟨3, 3600, ascii "hello"⟩)],
    by decide, by decide, by decide⟩
  zones_unique := DyndnsMgr.twoZones.zones_unique
  rrsets_unique := by decide
  rrs_text := by decide

def hintedDisk : Disk where
  db := hintedDb
  executed := 0
  lastInsertRowid := 0

def parentSite : Site where
  server := NameServer.ofZone ⟨1, []⟩
  routed := []
  forwardingHint := none
  disk := hintedDisk
  up := true

def childSite : Site where
  server := NameServer.ofZone ⟨2, [ascii "net"]⟩
  routed := [ascii "net"]
  forwardingHint := some [ascii "isp"]
  disk := hintedDisk
  up := true

def delegatedWorld : World := fun zone =>
  if zone = [] then some (hintedDb.store 1)
  else if zone = [ascii "net"] then some (hintedDb.store 2) else none

theorem plainDelegations_hintedDb (zoneId : Nat) :
    PlainDelegations hintedDb zoneId := by
  intro s hs _ htype
  simp only [hintedDb, List.mem_cons, List.not_mem_nil, or_false] at hs
  rcases hs with rfl | rfl | rfl
  · exact ⟨[ascii "net"], by decide, by decide⟩
  · exact absurd htype (by decide)
  · exact absurd htype (by decide)

theorem consistent_hintedDb : hintedDb.Consistent :=
  ⟨by decide, by decide, by decide⟩

theorem delegatedWorld_served :
    ∀ site ∈ [parentSite, childSite], site.Serves delegatedWorld := by
  have hparent : parentSite.Serves delegatedWorld :=
    ⟨by decide, by simp [parentSite], consistent_hintedDb,
      plainDelegations_hintedDb _, _, rfl, holds_store _ _⟩
  have hchild : childSite.Serves delegatedWorld := by
    refine ⟨by decide, ?_, consistent_hintedDb, plainDelegations_hintedDb _, _,
      rfl, holds_store _ _⟩
    intro hint hhint
    rw [← Option.some.inj hhint]
    decide
  simp [hparent, hchild]

theorem store_root : hintedDb.store 1 =
    [⟨[ascii "net"], .NS, ⟨1, ascii "/net/ns1"⟩⟩,
      ⟨[ascii "net", ascii "ns1"], .FH, ⟨2, ascii "/isp"⟩⟩] :=
  rfl

theorem store_net : hintedDb.store 2 =
    [⟨[ascii "www"], .TXT, ⟨3, ascii "hello"⟩⟩] :=
  rfl

theorem parse_ns1 :
    uriParser.ofUri (ascii "/net/ns1") = some [ascii "net", ascii "ns1"] ∧
      uriParser.ofUri (ascii "/isp") = some [ascii "isp"] :=
  ⟨rfl, rfl⟩

theorem delegatedWorld_eq_some {zone : Name} {s : Store}
    (h : delegatedWorld zone = some s) :
    (zone = [] ∧ s = hintedDb.store 1) ∨ (zone = [ascii "net"] ∧ s = hintedDb.store 2) := by
  unfold delegatedWorld at h
  split_ifs at h with hroot hnet
  · exact Or.inl ⟨hroot, (Option.some.inj h).symm⟩
  · exact Or.inr ⟨hnet, (Option.some.inj h).symm⟩

theorem delegatedWorld_plainRecords : delegatedWorld.PlainRecords uriParser := by
  intro zone s hs x hx htype
  rcases delegatedWorld_eq_some hs with ⟨-, rfl⟩ | ⟨-, rfl⟩
  · rw [store_root] at hx
    simp only [List.mem_cons, List.not_mem_nil, or_false] at hx
    rcases hx with rfl | rfl
    · exact ⟨[ascii "net", ascii "ns1"], parse_ns1.1, by decide⟩
    · exact ⟨[ascii "isp"], parse_ns1.2, by decide⟩
  · rw [store_net] at hx
    obtain rfl := List.mem_singleton.mp hx
    simp at htype

theorem delegatedWorld_nsRecords {zone label : Name} {r : Record}
    (h : (delegatedWorld.nsRecords zone label).head? = some r) :
    zone = [] ∧ label = [ascii "net"] ∧ r = ⟨1, ascii "/net/ns1"⟩ := by
  cases hs : delegatedWorld zone with
  | none => simp [World.nsRecords, hs] at h
  | some s =>
      rw [nsRecords_eq hs] at h
      have hmem := List.mem_of_mem_head? h
      obtain ⟨x, hx, rfl⟩ := List.mem_map.mp hmem
      obtain ⟨hx, hkey⟩ := List.mem_filter.mp hx
      rw [decide_eq_true_eq] at hkey
      rcases delegatedWorld_eq_some hs with ⟨rfl, rfl⟩ | ⟨rfl, rfl⟩
      · rw [store_root] at hx
        simp only [List.mem_cons, List.not_mem_nil, or_false] at hx
        rcases hx with rfl | rfl
        · exact ⟨rfl, hkey.1.symm, rfl⟩
        · exact absurd hkey.2 (by decide)
      · rw [store_net] at hx
        obtain rfl := List.mem_singleton.mp hx
        exact absurd hkey.2 (by decide)

theorem delegatedWorld_serversHinted : delegatedWorld.ServersHinted uriParser := by
  intro zone label r hr
  obtain ⟨rfl, rfl, rfl⟩ := delegatedWorld_nsRecords hr
  refine ⟨[ascii "net", ascii "ns1"], hintedDb.store 1, parse_ns1.1, by decide, rfl, ?_⟩
  rw [store_root]
  decide

/-- A stub asks for a text record below `/net`. -/
def wwwStub : Query :=
  { Query.init with
    queryType := .DNS_R
    rrLabel := [ascii "net", ascii "www"]
    rrType := .TXT }

theorem wwwStub_plain : wwwStub.Plain :=
  ⟨by decide, by decide, by decide, rfl, rfl⟩

/-- The questions of the resolution, as they are sent. -/
def wwwQuestions : List Query :=
  [hintedQuestion [] [] [ascii "net"] .NS,
    hintedQuestion [] [] [ascii "net", ascii "ns1"] .FH,
    hintedQuestion [ascii "isp"] [ascii "net"] [ascii "www"] .NS,
    hintedQuestion [ascii "isp"] [ascii "net"] [ascii "www"] .TXT].map
      (fun q => { q with interestLifetime := 2000 })

/-- Every question reaches its server and every reply the resolver. -/
def wwwEvents : List (Exchange.Event Query Version) :=
  let version := DynamicDNSUpdate.firstVersion
  [.start wwwStub, .work 0 0 version, .hear 0 0 version,
    .work 1 0 version, .hear 0 1 version, .work 2 1 version,
    .hear 0 2 version, .work 3 1 version, .hear 0 3 version]

/-- The parties of the example. -/
abbrev exampleParties :=
  hintedParties uriParser DyndnsMgr.reliable
    (ndnCodec DynamicDNSUpdate.digestSignature) [] ⟨60000, 2000⟩

theorem plain_of_mem_wwwQuestions : ∀ q ∈ wwwQuestions, q.Plain := by
  intro q hq
  simp only [wwwQuestions, List.map_cons, List.map_nil, List.mem_cons,
    List.not_mem_nil, or_false] at hq
  rcases hq with rfl | rfl | rfl | rfl
  all_goals exact ⟨by decide, by decide, by decide, rfl, rfl⟩

theorem wwwEvents_run :
    Machine.Along (Exchange.step exampleParties) (FitsAmong wwwQuestions)
        wwwEvents (Exchange.Net.ofSites [parentSite, childSite]) ∧
      (Machine.final (Exchange.step exampleParties) wwwEvents
        (Exchange.Net.ofSites [parentSite, childSite])).sessions.map
          (fun x => (x.1, x.2.2.isPut)) = [(wwwStub, true)] := by
  decide +kernel

theorem hintedNetwork_right_www :
    ∃ iq data, (wwwStub, iq, FaceAction.put data) ∈
        (Machine.final (Exchange.step exampleParties) wwwEvents
          (Exchange.Net.ofSites [parentSite, childSite])).sessions ∧
      delegatedWorld.RightPacket uriParser wwwStub data := by
  obtain ⟨halong, hput⟩ := wwwEvents_run
  obtain ⟨iq, data, hsessions⟩ := exists_put_of_map hput
  have hmem : (wwwStub, iq, FaceAction.put data) ∈
      (Machine.final (Exchange.step exampleParties) wwwEvents
        (Exchange.Net.ofSites [parentSite, childSite])).sessions :=
    hsessions ▸ List.mem_singleton_self _
  exact ⟨iq, data, hmem, (hintedNetwork_right uriParser DyndnsMgr.reliable
    (ndnCodec DynamicDNSUpdate.digestSignature) delegatedWorld []
    ⟨60000, 2000⟩ delegatedWorld_plainRecords (by decide)
    delegatedWorld_served (halong.mono (allowed_of_fitsAmong uriParser _
      plain_of_mem_wwwQuestions)) rfl).2 _ _ _ hmem⟩

/-- The root delegates `/net`. -/
theorem delegatedWorld_delegatesTo :
    delegatedWorld.DelegatesTo [ascii "net"] [] [ascii "net"] := by
  have hns (l : Name) : delegatedWorld.nsRecords [] l =
      (hintedDb.store 1).lookup l .NS :=
    nsRecords_eq rfl l
  refine ⟨Descent.Chain.nil, ⟨by decide, List.prefix_rfl, ?_, ?_⟩, rfl⟩
  · rw [World.HasNs, hns, store_root]
    decide
  · intro l hl hle _
    rcases List.prefix_cons_iff.mp hle with rfl | ⟨t, rfl, ht⟩
    · exact absurd rfl hl
    · rw [List.prefix_nil.mp ht]

/-- The NS records and the hint of `/net` arrive. -/
def apexEvents : List (Exchange.Event Query Version) :=
  let version := DynamicDNSUpdate.firstVersion
  [.start netStub, .work 0 0 version, .hear 0 0 version,
    .work 1 0 version, .hear 0 1 version]

theorem apexEvents_run :
    Machine.Along (Exchange.step exampleParties) (FitsAmong wwwQuestions)
        apexEvents (Exchange.Net.ofSites [parentSite, childSite]) ∧
      (Machine.final (Exchange.step exampleParties) apexEvents
        (Exchange.Net.ofSites [parentSite, childSite])).sessions.map
          (fun x => (x.1, x.2.1.finishedLabelNum)) = [(netStub, 1)] := by
  decide +kernel

theorem hintedNetwork_silent_net :
    (Machine.final (Exchange.step exampleParties) apexEvents
        (Exchange.Net.ofSites [parentSite, childSite])).sessions.map
          (fun x => (x.1, x.2.1.finishedLabelNum)) = [(netStub, 1)] ∧
      ∀ iq data, (netStub, iq, FaceAction.put data) ∉
        (Machine.final (Exchange.step exampleParties) apexEvents
          (Exchange.Net.ofSites [parentSite, childSite])).sessions := by
  obtain ⟨halong, hsessions⟩ := apexEvents_run
  exact ⟨hsessions, hintedNetwork_silent uriParser DyndnsMgr.reliable
    (ndnCodec DynamicDNSUpdate.digestSignature) delegatedWorld []
    ⟨60000, 2000⟩ delegatedWorld_plainRecords (by decide)
    delegatedWorld_served (halong.mono (allowed_of_fitsAmong uriParser _
      plain_of_mem_wwwQuestions)) rfl ⟨_, _, delegatedWorld_delegatesTo⟩⟩

/-- The prefixes of the name. -/
theorem prefix_wwwStub {n : Name} (h : n <+: wwwStub.rrLabel) :
    n = [] ∨ n = [ascii "net"] ∨ n = [ascii "net", ascii "www"] := by
  have hmem := (List.mem_inits _ _).mpr h
  simpa [wwwStub, List.inits] using hmem

/-- A zone and a single component below it. -/
theorem finds_singleton
    {zone : Name} {c : Component}
    (hle : zone ++ [c] <+: wwwStub.rrLabel)
    (hstops : delegatedWorld.Stops uriParser zone [c]) :
    delegatedWorld.Finds uriParser wwwStub.rrLabel zone [c] := by
  refine ⟨by simp, hle, hstops, ?_⟩
  intro l hl hle' _
  rcases List.prefix_cons_iff.mp hle' with rfl | ⟨t, rfl, ht⟩
  · exact absurd rfl hl
  · rw [List.prefix_nil.mp ht]

theorem nsAnswer_wwwStub :
    delegatedWorld.nsAnswer uriParser [] [ascii "net"] = some .NDNS_Resp ∧
      delegatedWorld.nsAnswer uriParser [] wwwStub.rrLabel =
        some .NDNS_Nack ∧
      delegatedWorld.nsAnswer uriParser [ascii "net"] [ascii "www"] =
        some .NDNS_Nack :=
  ⟨rfl, rfl, rfl⟩

theorem delegatedWorld_ends : delegatedWorld.Ends uriParser wwwStub where
  search zone hvisits hne := by
    obtain ⟨hnet, -, hwww⟩ := nsAnswer_wwwStub
    rcases prefix_wwwStub hvisits.isPrefix with rfl | rfl | rfl
    · exact ⟨[ascii "net"], finds_singleton (by decide)
        (by simp [World.Stops, hnet]), by simp [hnet]⟩
    · exact ⟨[ascii "www"], finds_singleton (by decide)
        (by simp [World.Stops, hwww]), by simp [hwww]⟩
    · exact absurd rfl hne
  apex _ zone label hvisits hfinds hrefers hdst := by
    obtain ⟨-, hroot, hwww⟩ := nsAnswer_wwwStub
    exfalso
    rw [World.Refers] at hrefers
    rcases prefix_wwwStub hvisits.isPrefix with rfl | rfl | rfl
    · obtain rfl : label = wwwStub.rrLabel := hdst
      exact absurd (hroot.symm.trans hrefers) (by decide)
    · obtain rfl : label = [ascii "www"] := by
        simpa [wwwStub] using hdst
      exact absurd (hwww.symm.trans hrefers) (by decide)
    · exact hfinds.ne_nil (by simpa [wwwStub] using hdst)

/-- The hints of the zones. -/
theorem delegatedWorld_hintOf
    {zone hint : Name} (h : delegatedWorld.HintOf uriParser [] zone hint) :
    zone = [] ∧ hint = [] ∨ zone = [ascii "net"] ∧ hint = [ascii "isp"] := by
  rcases h with hroot | ⟨parent, label, r, name, s, r', rfl, hr, hname, hs, hr',
    hhint⟩
  · exact Or.inl hroot
  obtain ⟨rfl, rfl, rfl⟩ := delegatedWorld_nsRecords hr
  obtain rfl : s = hintedDb.store 1 := (Option.some.inj hs).symm
  obtain rfl : name = [ascii "net", ascii "ns1"] :=
    Option.some.inj (hname.symm.trans parse_ns1.1)
  obtain rfl : r' = ⟨2, ascii "/isp"⟩ := by
    rw [store_root] at hr'
    exact Option.some.inj (hr'.symm.trans (by decide))
  exact Or.inr ⟨rfl, Option.some.inj (hhint.symm.trans parse_ns1.2)⟩

theorem delegatedWorld_canAnswer :
    CanAnswer uriParser delegatedWorld [parentSite, childSite]
      (HintedAbout uriParser delegatedWorld [] wwwStub) := by
  rintro _ ⟨hint, zone, label, type, rfl, hhint, -, habout⟩ -
  rcases delegatedWorld_hintOf hhint with ⟨rfl, rfl⟩ | ⟨rfl, rfl⟩
  · refine ⟨parentSite, by simp, Site.receives_of_routed rfl rfl rfl rfl,
      DynamicDNSUpdate.firstVersion, ?_⟩
    rcases habout with ⟨hle, htype⟩ | ⟨rfl, l, r, hr, hlabel⟩
    · rcases prefix_wwwStub hle with rfl | rfl | rfl
      all_goals
        rcases List.mem_pair.mp htype with rfl | rfl <;> decide
    · obtain ⟨-, -, rfl⟩ := delegatedWorld_nsRecords hr
      obtain rfl : label = [ascii "net", ascii "ns1"] :=
        Option.some.inj (hlabel.symm.trans parse_ns1.1)
      decide
  · have hreceives (label : Name) (type : RRType) :
        childSite.receives (hintedQuestion [ascii "isp"] [ascii "net"] label
          type).toInterest = true := by
      simp only [Site.receives, Site.filters, childSite, Bool.true_and,
        List.any_eq_true, List.isPrefixOf_iff_prefix]
      refine ⟨[ascii "isp", ForwardingHintLabel, ascii "net",
        QueryType.DNS.toString], by simp, label ++ [type.toString], ?_⟩
      rw [Query.toInterest_name]
      rfl
    refine ⟨childSite, by simp, hreceives _ _,
      DynamicDNSUpdate.firstVersion, ?_⟩
    rcases habout with ⟨hle, htype⟩ | ⟨rfl, l, r, hr, -⟩
    · rcases prefix_wwwStub hle with hle | hle | hle
      · exact absurd hle (by simp)
      · obtain rfl : label = [] := by simpa using hle
        rcases List.mem_pair.mp htype with rfl | rfl <;> decide
      · obtain rfl : label = [ascii "www"] := by simpa using hle
        rcases List.mem_pair.mp htype with rfl | rfl <;> decide
    · exact absurd (delegatedWorld_nsRecords hr).1 (by decide)

/-- The resolver has just been asked. -/
theorem hintedNetwork_settles_www :
    ∃ events' iq data,
      (Machine.final (Exchange.step exampleParties)
        (.start wwwStub :: events')
        (Exchange.Net.ofSites [parentSite, childSite])).sessions[0]? =
          some (wwwStub, iq, .put data) ∧
      delegatedWorld.RightPacket uriParser wwwStub data := by
  have hstart : exampleParties.start wwwStub = _ :=
    resolverParties_start uriParser DyndnsMgr.reliable
      (ndnCodec DynamicDNSUpdate.digestSignature) ⟨60000, 2000⟩
      (hintedStrategy uriParser []) wwwStub_plain (by decide)
  have hsession : (Exchange.step exampleParties (.start wwwStub)
      (Exchange.Net.ofSites [parentSite, childSite])).sessions[0]? =
        some (wwwStub, init wwwStub [], .expressInterest
          (wwwQuestions.get ⟨0, by decide⟩).toInterest) := by
    rw [Exchange.step, if_pos (Exchange.Net.up_ofSites _),
      Exchange.Net.start, hstart]
    rfl
  obtain ⟨events', iq, data, -, hfinal, hright⟩ :=
    hintedNetwork_settles uriParser DyndnsMgr.reliable
      (ndnCodec DynamicDNSUpdate.digestSignature) delegatedWorld [] _
      delegatedWorld_plainRecords (by decide) delegatedWorld_serversHinted
      (fun _ => rfl) (fun site hsite => ⟨delegatedWorld_served site hsite, by
        simp only [List.mem_cons, List.not_mem_nil, or_false] at hsite
        rcases hsite with rfl | rfl <;> rfl⟩) wwwStub_plain
      delegatedWorld_ends (by decide) (fun hT => absurd hT (by decide))
      delegatedWorld_canAnswer
      (show Machine.Along _ _ [.start wwwStub] _ from
        ⟨⟨wwwStub_plain, by decide⟩, trivial⟩) rfl hsession (by simp)
  exact ⟨events', iq, data, hfinal, hright⟩

end Example

end Ndns

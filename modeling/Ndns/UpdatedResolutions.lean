import Ndns.PlainResolutions
import Ndns.UpdateNetwork

/-!
# Updates are resolved

Clients update the zones on their network, and stubs ask a resolver on another one.
Whatever happens on either, a stub that asks for records of a zone is told the replay
of the updates that the server of the zone was given.

**Results.**
* `updatedNetwork_right`: every answer has the data of the replay.
-/

namespace Ndns

section Runs

variable (P : NameParser) (S : Sqlite) (K : PacketCodec)
variable (resolver : NameCachingResolver)

/-- In every run behind updates, what the resolver puts for a stub are the records
of the last zone of the chain, and these are the replay of its updates. -/
theorem updatedNetwork_right
    (hfails : ∀ n, S.fails n = false)
    {sites : List Site} (hsites : ∀ site ∈ sites, site.Ready)
    (hnodup : (sites.map Site.routed).Nodup)
    {updates : List (Exchange.Event (UpdateClient K) Version)}
    (hupdates : Machine.Along (Exchange.step (updateParties P S K))
      (updateContract K).Allowed updates
      (Exchange.Net.beforeUpdates K sites))
    {updated : List Site}
    (hupdated : (Machine.final (Exchange.step (updateParties P S K)) updates
      (Exchange.Net.beforeUpdates K sites)).repliers = updated)
    {events : List (Exchange.Event Query Version)}
    {net : Exchange.Net Query (IterativeQuery × FaceAction) Interest Data
      Site}
    (hrun : Machine.Along
      (Exchange.step (resolverParties P S K (plainStrategy P) resolver))
      (plainContract P (World.ofSites updated) resolver).Allowed events
      (Exchange.Net.ofSites updated))
    (hnet : Machine.final
      (Exchange.step (resolverParties P S K (plainStrategy P) resolver))
      events (Exchange.Net.ofSites updated) = net) :
    ∀ stub iq data, (stub, iq, FaceAction.put data) ∈ net.sessions →
      stub.rrType ≠ .NS →
        ∃ n site re, sites[n]? = some site ∧
          Response.init.fromData P data = some re ∧
          (World.ofSites updated).Chain stub.rrLabel site.routed ∧
          (∀ l, ¬ (World.ofSites updated).Delegates stub.rrLabel
            site.routed l) ∧
          ∀ m, Represents site.disk.db m →
            re.rrs.map RR.rrData = (replayed P K site.server
              (updatesGiven P S K sites updates n) m
              ⟨site.server.zone.id, stub.rrLabel.drop site.routed.length,
                stub.rrType⟩).elems := by
  have hready : ∀ site ∈ updated, site.Ready := by
    rw [← hupdated]
    exact ((updateContract_kept hfails).invariant hupdates
      (updateContract_holds hsites)).replier
  have hnodup' : (updated.map Site.routed).Nodup := by
    rw [← hupdated, map_routed_final hfails hsites hupdates]
    exact hnodup
  have hholds := (plainStrategy_sound P (World.ofSites updated)).holds_of_run
    P S K resolver (fun site hsite =>
      (hready site hsite).serves hnodup' hsite) hrun
  rw [hnet] at hholds
  intro stub iq data hmem htype
  obtain ⟨re, hread, hright⟩ := (hholds.session _ hmem).acts.2.right
  obtain ⟨site', hsite', hchain, hnone, hdata, -⟩ := hright.exists_site htype
  obtain ⟨n, hn⟩ := List.mem_iff_getElem?.mp hsite'
  -- the server is one of the first servers, with the replay in its tables
  have hlength : updated.length = sites.length := by
    have := congrArg List.length (map_routed_final hfails hsites hupdates)
    rw [hupdated] at this
    simpa using this
  obtain ⟨site, hsite⟩ : ∃ site, sites[n]? = some site := by
    obtain ⟨hlt, -⟩ := List.getElem?_eq_some_iff.mp hn
    exact ⟨_, List.getElem?_eq_getElem (hlength ▸ hlt)⟩
  have hconsistent := (hsites site (List.mem_of_getElem? hsite)).consistent
  obtain ⟨d, hd, hrep, -⟩ := exists_final_site hfails hsites hupdates hsite
    (represents_ofDb hconsistent)
  rw [hupdated, hn, Option.some.injEq] at hd
  subst hd
  refine ⟨n, site, re, hsite, hread, hchain, hnone, fun m hm => ?_⟩
  rw [hdata, ← (represents_ofDb hconsistent).unique hm]
  exact hrep.dataAt_eq _

end Runs

section Example

/-- A stub asks for the record that the client has added. -/
def ispStub : Query :=
  { Query.init with
    queryType := .DNS_R
    rrLabel := [ascii "net", ascii "www"]
    rrType := .TXT }

/-- The questions of the resolution, as they are sent. -/
def ispQuestions : List Query :=
  [question [] [ascii "net"] .NS, question [ascii "net"] [ascii "www"] .NS,
    question [ascii "net"] [ascii "www"] .TXT].map
      (fun q => { q with interestLifetime := 2000 })

theorem plain_of_mem_ispQuestions : ∀ q ∈ ispQuestions, q.Plain := by
  intro q hq
  simp only [ispQuestions, List.map_cons, List.map_nil, List.mem_cons,
    List.not_mem_nil, or_false] at hq
  rcases hq with rfl | rfl | rfl
  all_goals exact ⟨by decide, by decide, by decide, rfl, rfl⟩

/-- Every question reaches its server and every reply the resolver. -/
def ispEvents : List (Exchange.Event Query Version) :=
  let version := DynamicDNSUpdate.firstVersion
  [.start ispStub, .work 0 1 version, .hear 0 0 version,
    .work 1 0 version, .hear 0 1 version, .work 2 0 version,
    .hear 0 2 version]

theorem ispEvents_run :
    Machine.Along (Exchange.step netParties) (FitsAmong ispQuestions)
        ispEvents (Exchange.Net.ofSites [addedSite, rootSite]) ∧
      (Machine.final (Exchange.step netParties) ispEvents
        (Exchange.Net.ofSites [addedSite, rootSite])).sessions.map
          (fun x => (x.1, x.2.2.isPut)) = [(ispStub, true)] := by
  decide +kernel

theorem rootSite_ready : rootSite.Ready where
  routed := rootSite_serves.routed
  forwardingHint := rootSite_serves.forwardingHint
  consistent := rootSite_serves.consistent
  delegations := rootSite_serves.delegations
  zone_ne_zero := by decide

theorem updatedNetwork_right_isp :
    ∃ iq data, (ispStub, iq, FaceAction.put data) ∈
        (Machine.final (Exchange.step netParties) ispEvents
          (Exchange.Net.ofSites [addedSite, rootSite])).sessions ∧
      ∃ n site re, [netSite, rootSite][n]? = some site ∧
        Response.init.fromData uriParser data = some re ∧
        ∀ m, Represents site.disk.db m →
          re.rrs.map RR.rrData = (replayed uriParser
            (ndnCodec DynamicDNSUpdate.digestSignature) site.server
            (updatesGiven uriParser DyndnsMgr.reliable _
              [netSite, rootSite] adderEvents n) m
            ⟨site.server.zone.id, ispStub.rrLabel.drop site.routed.length,
              .TXT⟩).elems := by
  obtain ⟨halong, hput⟩ := ispEvents_run
  obtain ⟨iq, data, hsessions⟩ := exists_put_of_map hput
  have hmem : (ispStub, iq, FaceAction.put data) ∈
      (Machine.final (Exchange.step netParties) ispEvents
        (Exchange.Net.ofSites [addedSite, rootSite])).sessions :=
    hsessions ▸ List.mem_singleton_self _
  have hupdated : (Machine.final (Exchange.step adderParties) adderEvents
      (Exchange.Net.beforeUpdates _ [netSite, rootSite])).repliers =
        [addedSite, rootSite] := by
    rw [final_adderEvents]
    rfl
  obtain ⟨n, site, re, hsite, hread, -, -, hdata⟩ :=
    updatedNetwork_right uriParser DyndnsMgr.reliable
      (ndnCodec DynamicDNSUpdate.digestSignature) ⟨60000, 2000⟩
      (fun _ => rfl)
      (show ∀ site ∈ [netSite, rootSite], site.Ready by
        simp [netSite_ready, rootSite_ready]) (by decide)
      (adderEvents_run [rootSite]) hupdated
      (halong.mono (allowed_of_fitsAmong uriParser _
        plain_of_mem_ispQuestions)) rfl ispStub iq data hmem (by decide)
  exact ⟨iq, data, hmem, n, site, re, hsite, hread, hdata⟩

end Example

end Ndns

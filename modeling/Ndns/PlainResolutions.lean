import Ndns.ResolverProgress
import Ndns.Termination

/-!
# Plain resolutions on a network

`NameCachingResolver<IterativeQuery>` on a network of name servers: as long as the
names are plain, its states are those of a dialogue with the stores, one question a
reply.

**Results.**
* `plainStrategy_sound`, `plainStrategy_settles`: what the strategy promises;
* `resolverNetwork_right`: every answer in every run is right;
* `resolverNetwork_settles`: an open resolution can be brought to its answer.
-/

namespace Ndns

namespace IterativeQuery

variable {P : NameParser} {W : World} {stub : Query} {iq : IterativeQuery}
variable {qs : List Query}

/-- A resolution of the stub's question, all of whose questions are read right. -/
abbrev Resolution (P : NameParser) (W : World) (stub : Query)
    (qs : List Query) (iq : IterativeQuery) : Prop :=
  Dialogue.Run plainResolver (W.Replies P) Readable (init stub) qs iq

theorem Resolution.query_eq (h : Resolution P W stub qs iq) :
    iq.query = stub := by
  refine h.invariant (I := fun _ iq => iq.query = stub) rfl ?_
  intro qs iq q re hI _ _ _
  exact (iq.doResponse_query re).trans hI

theorem Resolution.progress (h : Resolution P W stub qs iq) :
    Progress W stub iq := by
  refine h.invariant (I := fun _ iq => Progress W stub iq) ?_ ?_
  · refine Progress.nsQuery rfl rfl Descent.Chain.nil rfl
      (Nat.succ_pos 0) ?_
    intro l hl _ hlt
    have := List.length_pos_of_ne_nil hl
    simp only [init] at hlt
    omega
  · intro qs iq q re hI hread hask hreply
    exact progress_doResponse P hI hread hask hreply

/-- A resolution that goes on asks in one of two steps. -/
theorem Resolution.step_of_resolves
    (h : Resolution P W stub qs iq) (hresolves : iq.step.resolves = true) :
    iq.step = .NSQuery ∨ iq.step = .RRQuery := by
  cases h.progress with
  | nsQuery hstep => exact Or.inl hstep
  | rrQuery hstep => exact Or.inr hstep
  | answerStub hstep =>
      rw [hstep] at hresolves
      exact absurd hresolves (by decide)

theorem ask_of_step (hstep : iq.step = .NSQuery ∨ iq.step = .RRQuery) :
    plainResolver.ask iq = some iq.latestQuery := by
  rcases hstep with hstep | hstep
  · simp [plainResolver, hstep, QuerySteps.resolves]
  · simp [plainResolver, hstep, QuerySteps.resolves]

/-- The questions about a plain name are plain. -/
theorem plain_latestQuery
    (hplain : stub.Plain) (hquery : iq.query = stub)
    (hstep : iq.step = .NSQuery ∨ iq.step = .RRQuery) :
    iq.latestQuery.Plain := by
  have htake (n : Nat) : Name.Plain (stub.rrLabel.take n) :=
    hplain.label.subset (List.take_subset n _)
  have hdrop (n : Nat) : Name.Plain (stub.rrLabel.drop n) :=
    hplain.label.subset (List.drop_subset n _)
  rcases hstep with hstep | hstep
  · rw [iq.latestQuery_of_NSQuery hstep, hquery]
    exact ⟨by simp [question, Query.init, Name.Plain], htake _,
      (hdrop _).subset (List.take_subset _ _), rfl, rfl⟩
  · rw [iq.latestQuery_of_RRQuery hstep, hquery]
    exact ⟨by simp [question, Query.init, Name.Plain], htake _, hdrop _,
      rfl, hplain.rrType⟩

/-- A question about a plain name that has a label is read right. -/
theorem readable_of_plain
    (hplain : stub.Plain) (hquery : iq.query = stub)
    (hstep : iq.step = .NSQuery ∨ iq.step = .RRQuery)
    (hne : iq.latestQuery.rrLabel ≠ []) :
    iq.Readable := by
  constructor
  · by_contra hle
    have hnil : iq.query.rrLabel.drop iq.finishedLabelNum = [] :=
      List.drop_eq_nil_of_le (not_lt.mp hle)
    rcases hstep with hstep | hstep
    · exact hne (by
        rw [iq.latestQuery_of_NSQuery hstep, question_rrLabel, hnil,
          List.take_nil])
    · exact hne (by
        rw [iq.latestQuery_of_RRQuery hstep, question_rrLabel, hnil])
  · intro c hc
    refine hplain.label.not_endsInQueryWord c ?_
    rw [hquery] at hc
    split_ifs at hc
    · exact List.drop_subset _ _ (List.mem_of_mem_dropLast hc)
    · exact List.drop_subset _ _
        (List.take_subset _ _ (List.mem_of_mem_dropLast hc))
  · intro _
    rw [hquery]
    exact hplain.rrType

end IterativeQuery

section Strategy

/-- A resolution of the stub's question that has had so many replies. -/
def IterativeQuery.Resolved
    (P : NameParser) (W : World) (stub : Query) (n : Nat)
    (iq : IterativeQuery) : Prop :=
  ∃ qs, Resolution P W stub qs iq ∧ qs.length = n

theorem plainStrategy_sound (P : NameParser) (W : World) :
    (plainStrategy P).Sound P W (IterativeQuery.Resolved P W) where
  answers := NameCachingResolver.answersWithLast_plain P
  getQuery := fun ⟨_, hresolution, _⟩ => hresolution.query_eq
  init _ := ⟨rfl, [], Dialogue.Run.start, rfl⟩
  exchange := by
    rintro stub n iq hplain ⟨qs, hresolution, rfl⟩ hresolves
    have hquery := hresolution.query_eq
    have hstep := hresolution.step_of_resolves hresolves
    have hasked := IterativeQuery.plain_latestQuery hplain hquery hstep
    refine ⟨iq.latestQuery, hasked, rfl, ?_⟩
    intro data re hlabel hread hreplies
    refine ⟨iq.doResponse re, ?_, qs ++ [iq.latestQuery], ?_, by simp⟩
    · simp [plainStrategy, IterativeQuery.doData, hread]
    · exact hresolution.exchange
        (IterativeQuery.readable_of_plain hplain hquery hstep hlabel)
        (IterativeQuery.ask_of_step hstep) hreplies
  right := by
    rintro stub n iq ⟨qs, hresolution, -⟩ hstub
    cases hresolution.progress with
    | nsQuery h => exact absurd (h.symm.trans hstub) (by decide)
    | rrQuery h => exact absurd (h.symm.trans hstub) (by decide)
    | answerStub _ hright => exact hright

/-- The questions about a name: a zone of it and a label below. -/
def AskedAbout (stub q : Query) : Prop :=
  ∃ zone label type, q = question zone label type ∧
    zone ++ label <+: stub.rrLabel ∧ type ∈ [RRType.NS, stub.rrType]

/-- A resolution that settles is over or can ask on. -/
theorem IterativeQuery.Resolution.settles
    {P : NameParser} {W : World} {stub : Query} {qs : List Query}
    {iq : IterativeQuery} (h : Resolution P W stub qs iq)
    (hsettles : Settles P W stub) :
    qs.length ≤ stub.rrLabel.length + 2 ∧
      (iq.step = .AnswerStub ∨
        ∃ q, plainResolver.ask iq = some q ∧ W.answer P q ≠ none) := by
  have hrun : Dialogue.Run plainResolver (W.Replies P) (fun _ => True)
      (init stub) qs iq := by
    refine h.invariant (I := fun qs iq => Dialogue.Run plainResolver
      (W.Replies P) (fun _ => True) (init stub) qs iq) .start ?_
    intro qs iq q re hI _ hask hreply
    exact hI.exchange trivial hask hreply
  obtain ⟨hlength, -, hnext⟩ := hsettles qs iq hrun
  exact ⟨hlength, hnext.imp_right
    (fun ⟨q, hask, _, hsome⟩ => ⟨q, hask, hsome⟩)⟩

theorem IterativeQuery.askedAbout_latestQuery
    {stub : Query} {iq : IterativeQuery} (hquery : iq.query = stub)
    (hstep : iq.step = .NSQuery ∨ iq.step = .RRQuery) :
    AskedAbout stub iq.latestQuery := by
  rcases hstep with hstep | hstep
  · refine ⟨_, _, _, iq.latestQuery_of_NSQuery hstep, ?_, by simp⟩
    rw [hquery, ← List.take_add]
    exact List.take_prefix _ _
  · refine ⟨_, _, _, iq.latestQuery_of_RRQuery hstep, ?_, by simp [hquery]⟩
    rw [hquery, List.take_append_drop]

theorem plainStrategy_settles
    {P : NameParser} {W : World} {stub : Query} (hplain : stub.Plain)
    (hsettles : Settles P W stub) :
    (plainStrategy P).Settles P W (IterativeQuery.Resolved P W)
      (AskedAbout stub) stub (stub.rrLabel.length + 2) where
  length_le := by
    rintro n iq ⟨qs, hresolution, rfl⟩
    exact (hresolution.settles hsettles).1
  ask := by
    rintro n iq ⟨qs, hresolution, -⟩
    refine (hresolution.settles hsettles).2.imp_right ?_
    rintro ⟨q, hask, hsome⟩
    obtain ⟨hresolves, rfl⟩ := iq.ask_eq_some hask
    have hquery := hresolution.query_eq
    have hstep := hresolution.step_of_resolves hresolves
    have hasked := IterativeQuery.plain_latestQuery hplain hquery hstep
    exact ⟨hresolves, iq.latestQuery, hasked,
      IterativeQuery.askedAbout_latestQuery hquery hstep, hsome, rfl⟩

end Strategy

section Runs

variable (P : NameParser) (S : Sqlite) (K : PacketCodec) (W : World)
variable (resolver : NameCachingResolver)

/-- The contract of the resolver without hints. -/
abbrev plainContract :
    Exchange.Contract Query (IterativeQuery × FaceAction) Interest Data
      Site Version :=
  resolverContract P W (plainStrategy P) resolver
    (IterativeQuery.Resolved P W)

/-- In every run, the resolver goes on and every packet that it puts is the right
answer to its stub. -/
theorem resolverNetwork_right
    {sites : List Site} (hsites : ∀ site ∈ sites, site.Serves W)
    {events : List (Exchange.Event Query Version)}
    {net : Exchange.Net Query (IterativeQuery × FaceAction) Interest Data
      Site}
    (hrun : Machine.Along
      (Exchange.step (resolverParties P S K (plainStrategy P) resolver))
      (plainContract P W resolver).Allowed events
      (Exchange.Net.ofSites sites))
    (hnet : Machine.final
      (Exchange.step (resolverParties P S K (plainStrategy P) resolver))
      events (Exchange.Net.ofSites sites) = net) :
    net.up = true ∧
      ∀ stub iq data, (stub, iq, FaceAction.put data) ∈ net.sessions →
        W.RightPacket P stub data := by
  have hholds :=
    (plainStrategy_sound P W).holds_of_run P S K resolver hsites hrun
  rw [hnet] at hholds
  exact ⟨hholds.up, fun stub iq data hmem => (hholds.session _ hmem).acts.2⟩

end Runs

section Example

/-- The server of the root. -/
def rootSite : Site where
  server := NameServer.ofZone ⟨1, []⟩
  routed := []
  forwardingHint := none
  disk := DyndnsMgr.twoZonesDisk
  up := true

/-- The world with the zone of the root. -/
def rootWorld : World := fun zone =>
  if zone = [] then some (DyndnsMgr.twoZones.store 1) else none

theorem rootSite_serves : rootSite.Serves rootWorld where
  routed := by decide
  forwardingHint := by simp [rootSite]
  consistent := Request.consistent_twoZones
  delegations := by
    intro s hs _ _
    obtain rfl := List.mem_singleton.mp hs
    exact ⟨[ascii "net"], by decide, by decide⟩
  holds := ⟨_, rfl, holds_store _ _⟩

/-- A stub asks for the name servers of `/net`. -/
def netStub : Query :=
  { Query.init with
    queryType := .DNS_R
    rrLabel := [ascii "net"] }

theorem netStub_plain : netStub.Plain :=
  ⟨by decide, by decide, by decide, rfl, rfl⟩

/-- What the resolver asks first. -/
def netQuestion : Query :=
  { question [] [ascii "net"] .NS with interestLifetime := 2000 }

theorem netQuestion_plain : netQuestion.Plain :=
  ⟨by decide, by decide, by decide, rfl, rfl⟩

/-- The resolver without hints and the server of the root. -/
abbrev netParties :=
  resolverParties uriParser DyndnsMgr.reliable
    (ndnCodec DynamicDNSUpdate.digestSignature) (plainStrategy uriParser)
    ⟨60000, 2000⟩

/-- The stub asks, the question reaches the server and the reply the resolver. -/
def netEvents : List (Exchange.Event Query Version) :=
  [.start netStub, .work 0 0 DynamicDNSUpdate.firstVersion,
    .hear 0 0 DynamicDNSUpdate.firstVersion]

theorem netEvents_run :
    Machine.Along (Exchange.step netParties) (FitsAmong [netQuestion])
        netEvents (Exchange.Net.ofSites [rootSite]) ∧
      (Machine.final (Exchange.step netParties) netEvents
        (Exchange.Net.ofSites [rootSite])).sessions.map
          (fun x => (x.1, x.2.2.isPut)) = [(netStub, true)] := by
  decide +kernel

theorem resolverNetwork_right_net :
    ∃ iq data, (netStub, iq, FaceAction.put data) ∈
        (Machine.final (Exchange.step netParties) netEvents
          (Exchange.Net.ofSites [rootSite])).sessions ∧
      rootWorld.RightPacket uriParser netStub data := by
  obtain ⟨halong, hput⟩ := netEvents_run
  obtain ⟨iq, data, hsessions⟩ := exists_put_of_map hput
  have hmem : (netStub, iq, FaceAction.put data) ∈
      (Machine.final (Exchange.step netParties) netEvents
        (Exchange.Net.ofSites [rootSite])).sessions :=
    hsessions ▸ List.mem_singleton_self _
  exact ⟨iq, data, hmem, (resolverNetwork_right uriParser DyndnsMgr.reliable
    (ndnCodec DynamicDNSUpdate.digestSignature) rootWorld ⟨60000, 2000⟩
    (List.forall_mem_singleton.mpr rootSite_serves)
    (halong.mono (allowed_of_fitsAmong uriParser _
      (List.forall_mem_singleton.mpr netQuestion_plain))) rfl).2 _ _ _ hmem⟩

/-- The root refers the question for the name servers of `/net`. -/
theorem rootWorld_ends : rootWorld.Ends uriParser netStub := by
  refine ⟨?_, fun h => absurd rfl h⟩
  intro zone hvisits hne
  have hroot : zone = [] := by
    rcases List.prefix_cons_iff.mp hvisits.isPrefix with hzone | ⟨t, ht, hle⟩
    · exact hzone
    · rw [List.prefix_nil.mp hle] at ht
      exact absurd ht hne
  subst hroot
  have hanswer : rootWorld.nsAnswer uriParser [] [ascii "net"] =
      some .NDNS_Resp :=
    rfl
  refine ⟨[ascii "net"], ⟨by decide, by decide, ?_, ?_⟩, by simp [hanswer]⟩
  · simp [World.Stops, hanswer]
  · intro l hl hle _
    rcases List.prefix_cons_iff.mp hle with rfl | ⟨t, rfl, ht⟩
    · exact absurd rfl hl
    · rw [List.prefix_nil.mp ht]

theorem rootSite_canAnswer :
    CanAnswer uriParser rootWorld [rootSite] (AskedAbout netStub) := by
  rintro _ ⟨zone, label, type, rfl, hle, htype⟩ hanswer
  have hns : type = .NS := by
    simpa [netStub, Query.init] using htype
  have hroot : zone = [] := by
    by_contra hne
    exact hanswer (by simp [World.answer, rootWorld, question, hne])
  subst hns
  subst hroot
  refine ⟨rootSite, by simp, Site.receives_of_routed rfl rfl rfl rfl,
    DynamicDNSUpdate.firstVersion, ?_⟩
  unfold Site.ReplyFits
  rcases List.prefix_cons_iff.mp hle with rfl | ⟨t, rfl, ht⟩
  · decide
  · obtain rfl := List.prefix_nil.mp ht
    decide

end Example

end Ndns

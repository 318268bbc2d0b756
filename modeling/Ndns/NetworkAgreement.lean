import Ndns.HintedNetwork

/-!
# Two resolvers agree

There is one right answer to a question, as far as the records of an answer go: the
walk along the delegations has no choice.  So a resolver with hints and one without
them tell a stub the same, whatever their networks do.

**Results.**
* `RightAnswer.sameFor`: right answers are the same;
* `networks_agree`: so is what two resolvers put for a stub.
-/

namespace Ndns

/-- Two responses are the same answer for a type; the RRs of a Nack for NS are not
looked at. -/
structure SameFor (type : RRType) (re re' : Response) : Prop where
  responseType_eq : re.responseType = re'.responseType
  same : (type = .NS → re.responseType ≠ .NDNS_Nack) → SameAnswer re re'

/-- Two packets answer a stub alike: their names differ in the version only. -/
structure SamePacket
    (P : NameParser) (stub : Query) (data data' : Data) : Prop where
  name_eq : data.name.dropLast = data'.name.dropLast
  answers : ∃ re re', Response.init.fromData P data = some re ∧
    Response.init.fromData P data' = some re' ∧
    SameFor stub.rrType re re'

section Answers

variable {W : World} {dst zone zone' label label' : Name}

/-- A zone that delegates the destination is the last one in front of it. -/
theorem World.DelegatesTo.chain_isPrefix
    (h : W.DelegatesTo dst zone label) (h' : W.DelegatesTo dst zone' label') :
    zone' <+: zone := by
  obtain ⟨hchain, hlabel, heq⟩ := h
  obtain ⟨hchain', hlabel', heq'⟩ := h'
  rcases Relation.ReflTransGen.total_of_right_unique
    Descent.step_rightUnique hchain hchain' with hsteps | hsteps
  · cases hsteps using Relation.ReflTransGen.head_induction_on with
    | refl =>
        exact List.prefix_rfl
    | head hstep hrest =>
        -- the next zone is the destination, and nothing is left of it
        obtain ⟨l, hl, -, rfl⟩ := hstep
        obtain rfl := hlabel.unique hl
        have hle : dst <+: zone' := heq ▸ Descent.Chain.prefix_of_steps hrest
        have hlength := hle.length_le
        rw [← heq', List.length_append] at hlength
        have := List.length_pos_of_ne_nil hlabel'.ne_nil
        omega
  · exact Descent.Chain.prefix_of_steps hsteps

theorem World.DelegatesTo.unique
    (h : W.DelegatesTo dst zone label) (h' : W.DelegatesTo dst zone' label') :
    zone = zone' ∧ label = label' := by
  have hle := h'.chain_isPrefix h
  have hle' := h.chain_isPrefix h'
  obtain rfl := hle.eq_of_length (le_antisymm hle.length_le hle'.length_le)
  exact ⟨rfl, h.2.1.unique h'.2.1⟩

theorem Answer.CarriedBy.sameFor
    {a : Answer} {type : RRType} {re re' : Response} (h : a.CarriedBy re)
    (h' : a.CarriedBy re') :
    SameFor type re re' where
  responseType_eq := h.responseType_eq.trans h'.responseType_eq.symm
  same _ := ⟨h.responseType_eq.trans h'.responseType_eq.symm,
    h.rrs_eq.trans h'.rrs_eq.symm⟩

/-- There is one right answer. -/
theorem World.RightAnswer.sameFor
    {type : RRType} {re re' : Response}
    (h : W.RightAnswer dst type re) (h' : W.RightAnswer dst type re') :
    SameFor type re re' := by
  by_cases htype : type = .NS
  · rw [World.RightAnswer, if_pos htype] at h h'
    rcases h with ⟨zone, label, hdel, hre⟩ | ⟨hnone, hnack⟩
    · rcases h' with ⟨zone', label', hdel', hre'⟩ | ⟨hnone', -⟩
      · obtain ⟨rfl, rfl⟩ := hdel.unique hdel'
        exact hre.sameFor hre'
      · exact absurd ⟨zone, label, hdel⟩ hnone'
    · rcases h' with ⟨zone', label', hdel', -⟩ | ⟨-, hnack'⟩
      · exact absurd ⟨zone', label', hdel'⟩ hnone
      · exact ⟨hnack.trans hnack'.symm, fun hne => absurd hnack (hne htype)⟩
  · rw [World.RightAnswer, if_neg htype] at h h'
    obtain ⟨zone, s, hchain, hlast, hs, hre⟩ := h
    obtain ⟨zone', s', hchain', hlast', hs', hre'⟩ := h'
    obtain rfl : zone = zone' := hchain.eq_of_last
      (fun l hl _ => hlast l hl) hchain' (fun l hl _ => hlast' l hl)
    obtain rfl := Option.some.inj (hs.symm.trans hs')
    exact hre.sameFor hre'

theorem World.RightPacket.samePacket
    {P : NameParser} {stub : Query} {data data' : Data}
    (h : W.RightPacket P stub data) (h' : W.RightPacket P stub data') :
    SamePacket P stub data data' where
  name_eq := by
    obtain ⟨version, hname⟩ := h.name_eq
    obtain ⟨version', hname'⟩ := h'.name_eq
    rw [hname, hname', List.dropLast_concat, List.dropLast_concat]
  answers := by
    obtain ⟨re, hread, hright⟩ := h.right
    obtain ⟨re', hread', hright'⟩ := h'.right
    exact ⟨re, re', hread, hread', hright.sameFor hright'⟩

end Answers

section Runs

variable (P : NameParser) (S S' : Sqlite) (K K' : PacketCodec) (W : World)
variable (rootHint : Name) (resolver resolver' : NameCachingResolver)

/-- What a resolver with hints puts for a stub and what a resolver without them puts
for it are the same, in whatever runs and whatever servers of the zones are
asked. -/
theorem networks_agree
    (hrecords : W.PlainRecords P) (hroot : rootHint.Plain)
    {sites sites' : List Site} (hsites : ∀ site ∈ sites, site.Serves W)
    (hsites' : ∀ site ∈ sites', site.Serves W)
    {events events' : List (Exchange.Event Query Version)}
    (hrun : Machine.Along
      (Exchange.step (resolverParties P S K (plainStrategy P) resolver))
      (plainContract P W resolver).Allowed events
      (Exchange.Net.ofSites sites))
    (hrun' : Machine.Along
      (Exchange.step (hintedParties P S' K' rootHint resolver'))
      (resolverContract P W (hintedStrategy P rootHint) resolver'
        (IterativeQueryWithForwardingHint.Resolved P W rootHint)).Allowed
      events' (Exchange.Net.ofSites sites'))
    {stub : Query} {iq : IterativeQuery}
    {iq' : IterativeQueryWithForwardingHint} {data data' : Data}
    (hput : (stub, iq, FaceAction.put data) ∈ (Machine.final
      (Exchange.step (resolverParties P S K (plainStrategy P) resolver))
      events (Exchange.Net.ofSites sites)).sessions)
    (hput' : (stub, iq', FaceAction.put data') ∈ (Machine.final
      (Exchange.step (hintedParties P S' K' rootHint resolver'))
      events' (Exchange.Net.ofSites sites')).sessions) :
    SamePacket P stub data data' := by
  have hplain := (plainStrategy_sound P W).holds_of_run P S K resolver
    hsites hrun
  have hhinted := (hintedStrategy_sound hrecords hroot).holds_of_run P S' K'
    resolver' hsites' hrun'
  have hright : W.RightPacket P stub data :=
    (hplain.session _ hput).acts.2
  have hright' : W.RightPacket P stub data' :=
    (hhinted.session _ hput').acts.2
  exact hright.samePacket hright'

end Runs

section Example

/-- Without a hint, the servers are asked under the names of their zones. -/
theorem delegatedWorld_canAnswer_plain :
    CanAnswer uriParser delegatedWorld [parentSite, childSite]
      (AskedAbout wwwStub) := by
  rintro _ ⟨zone, label, type, rfl, hle, htype⟩ hanswer
  obtain ⟨s, hs⟩ : ∃ s, delegatedWorld zone = some s := by
    rw [← Option.ne_none_iff_exists']
    intro hnone
    refine hanswer ?_
    rw [World.answer, show (question zone label type).authorityZone = zone
      from rfl, hnone]
    rfl
  rcases delegatedWorld_eq_some hs with ⟨rfl, -⟩ | ⟨rfl, -⟩
  · refine ⟨parentSite, by simp, Site.receives_of_routed rfl rfl rfl rfl,
      DynamicDNSUpdate.firstVersion, ?_⟩
    rcases prefix_wwwStub hle with rfl | rfl | rfl
    all_goals
      rcases List.mem_pair.mp htype with rfl | rfl <;> decide
  · refine ⟨childSite, by simp, Site.receives_of_routed rfl rfl rfl rfl,
      DynamicDNSUpdate.firstVersion, ?_⟩
    rcases prefix_wwwStub hle with hle | hle | hle
    · exact absurd hle (by simp)
    · obtain rfl : label = [] := by simpa using hle
      rcases List.mem_pair.mp htype with rfl | rfl <;> decide
    · obtain rfl : label = [ascii "www"] := by simpa using hle
      rcases List.mem_pair.mp htype with rfl | rfl <;> decide

/-- A run without hints that answers the stub. -/
theorem exists_plain_run :
    ∃ events iq data,
      Machine.Along (Exchange.step netParties)
        (plainContract uriParser delegatedWorld ⟨60000, 2000⟩).Allowed
        events (Exchange.Net.ofSites [parentSite, childSite]) ∧
      (wwwStub, iq, FaceAction.put data) ∈
        (Machine.final (Exchange.step netParties) events
          (Exchange.Net.ofSites [parentSite, childSite])).sessions := by
  have hstart : netParties.start wwwStub = _ :=
    resolverParties_start uriParser DyndnsMgr.reliable
      (ndnCodec DynamicDNSUpdate.digestSignature) ⟨60000, 2000⟩
      (plainStrategy uriParser) wwwStub_plain (by decide)
  have hsession : (Exchange.step netParties (.start wwwStub)
      (Exchange.Net.ofSites [parentSite, childSite])).sessions[0]? =
        some (wwwStub, IterativeQuery.init wwwStub,
          .expressInterest netQuestion.toInterest) := by
    rw [Exchange.step, if_pos (Exchange.Net.up_ofSites _),
      Exchange.Net.start, hstart]
    rfl
  have hbefore : Machine.Along (Exchange.step netParties)
      (plainContract uriParser delegatedWorld ⟨60000, 2000⟩).Allowed
      [.start wwwStub] (Exchange.Net.ofSites [parentSite, childSite]) :=
    ⟨⟨wwwStub_plain, by decide⟩, trivial⟩
  have hsettles := plainStrategy_settles wwwStub_plain
    (IterativeQuery.settles_of_ends delegatedWorld_ends wwwStub_plain.rrType
      (by decide))
  obtain ⟨events, iq, data, hrun, hfinal, -⟩ :=
    hsettles.exists_answer (plainStrategy_sound uriParser delegatedWorld)
      delegatedWorld_canAnswer_plain (S := DyndnsMgr.reliable)
      (fun _ => rfl) (fun site hsite => ⟨delegatedWorld_served site hsite, by
        simp only [List.mem_cons, List.not_mem_nil, or_false] at hsite
        rcases hsite with rfl | rfl <;> rfl⟩) hbefore rfl hsession (by simp)
  exact ⟨.start wwwStub :: events, iq, data, ⟨hbefore.1, hrun⟩,
    List.mem_of_getElem? hfinal⟩

theorem networks_agree_www :
    ∃ events iq data iq' data',
      (wwwStub, iq, FaceAction.put data) ∈
        (Machine.final (Exchange.step netParties) events
          (Exchange.Net.ofSites [parentSite, childSite])).sessions ∧
      (wwwStub, iq', FaceAction.put data') ∈
        (Machine.final (Exchange.step exampleParties) wwwEvents
          (Exchange.Net.ofSites [parentSite, childSite])).sessions ∧
      SamePacket uriParser wwwStub data data' := by
  obtain ⟨events, iq, data, hrun, hput⟩ := exists_plain_run
  obtain ⟨halong, hputs⟩ := wwwEvents_run
  obtain ⟨iq', data', hsessions⟩ := exists_put_of_map hputs
  have hput' : (wwwStub, iq', FaceAction.put data') ∈
      (Machine.final (Exchange.step exampleParties) wwwEvents
        (Exchange.Net.ofSites [parentSite, childSite])).sessions :=
    hsessions ▸ List.mem_singleton_self _
  exact ⟨events, iq, data, iq', data', hput, hput',
    networks_agree uriParser DyndnsMgr.reliable DyndnsMgr.reliable _ _
      delegatedWorld [] ⟨60000, 2000⟩ ⟨60000, 2000⟩
      delegatedWorld_plainRecords (by decide) delegatedWorld_served
      delegatedWorld_served hrun (halong.mono (allowed_of_fitsAmong uriParser
        _ plain_of_mem_wwwQuestions)) hput hput'⟩

end Example

end Ndns

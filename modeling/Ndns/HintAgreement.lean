import Ndns.IterativeQueryWithForwardingHint
import Ndns.Store
import Ndns.UriParser

/-!
# The two strategies compared

The strategy with forwarding hints follows the plain one as long as it is given
a hint for every zone it is sent to, the hint in front of a name does not change
what the server reads, and the delegation of the destination itself is not what
is asked for: the plain strategy counts the labels of a delegation before it
checks whether they were the last ones, the other one afterwards.

The two dialogues are compared by what they ask apart from the FH queries.  The
plain strategy is ahead of the other one while an FH query is pending.

**Results.**
* `World.answer_hinted`: hints in front of a label are not read;
* `Follows`, `follows_step`, `leads_step`: the simulation relation and its two
  directions;
* `agrees_of_faithful`: the two strategies agree;
* `hintedWorld_not_agrees`: the delegation of the destination.
-/

namespace Ndns

/-- A decoded response that a question of the hinted resolver can get. -/
def World.HintedReplies (P : NameParser) (W : World)
    (q : QuerySteps × Query) (re : Response) : Prop :=
  W.Replies P q.2 re

/-- The type and the records of two responses are the same. -/
structure SameAnswer (re re' : Response) : Prop where
  responseType_eq : re.responseType = re'.responseType
  rrs_eq :
    re.rrs.map (fun rr => Record.mk rr.id rr.rrData) =
      re'.rrs.map (fun rr => Record.mk rr.id rr.rrData)

section Hints

variable {P : NameParser} {W : World}

/-- The hint in front of a label that is not empty is not read. -/
theorem matchQueryName_hinted
    (hint zone : Name) {label : Name} {type : RRType}
    (ht : type.isQueried = true) (hlabel : label ≠ []) :
    ∃ map map',
      matchQueryName (hintedQuestion hint zone label type).toInterest.name.toUri
        = some map ∧
      matchQueryName (question zone label type).toInterest.name.toUri =
        some map' ∧
      map.rrLabel = map'.rrLabel ∧ map.rrType = map'.rrType := by
  have hplain :
      Cuttable queryWords queryTypes
        (question zone label type).toInterest.name.segments := by
    have hne := matchQueryName_ne_none
      (q := question zone label type) rfl ht hlabel
    obtain ⟨map, hmap⟩ := Option.ne_none_iff_exists'.mp hne
    exact (cuttable_of_matchQueryName hmap).2
  obtain ⟨r⟩ := exists_reading hplain
  have hname :
      (hintedQuestion hint zone label type).toInterest.name =
        Query.hintComponents hint ++
          (question zone label type).toInterest.name := by
    rw [question_name]
    show Query.hintComponents hint ++ zone ++ [QueryType.DNS.toString] ++
      label ++ [type.toString] = _
    simp [QueryType.toString]
  have hsegments :
      (hintedQuestion hint zone label type).toInterest.name.segments =
        (Query.hintComponents hint).segments ++
          (question zone label type).toInterest.name.segments := by
    rw [hname, Name.segments, List.map_append]
    rfl
  obtain ⟨h₁, z₁, hmatch⟩ :=
    matchName_reading queryVocabulary (segments_of_name _) r
  obtain ⟨h₂, z₂, hmatch'⟩ :=
    matchName_reading queryVocabulary
      (hsegments ▸ segments_of_name _)
      (r.behind (Query.hintComponents hint).segments)
  refine ⟨⟨h₂, z₂, r.word, uriPath r.label, r.rrType⟩,
    ⟨h₁, z₁, r.word, uriPath r.label, r.rrType⟩, ?_, ?_, rfl, rfl⟩
  · rw [Name.toUri_of_ne_nil (by simp [hname, question_name]), hsegments]
    exact hmatch'
  · rw [Name.toUri_of_ne_nil (by simp [question_name])]
    exact hmatch

/-- A question with a label gets the same answer with and without a hint. -/
theorem World.answer_hinted
    (P : NameParser) (W : World) (hint zone : Name) {label : Name}
    {type : RRType}
    (ht : type.isQueried = true) (hlabel : label ≠ []) :
    W.answer P (hintedQuestion hint zone label type) =
      W.answer P (question zone label type) := by
  obtain ⟨map, map', hmap, hmap', hrrLabel, hrrType⟩ :=
    matchQueryName_hinted hint zone ht hlabel
  unfold World.answer
  congr 1
  funext s
  simp only [Store.onInterest, hmap, hmap', Option.bind_eq_bind,
    Option.bind_some, hrrLabel, hrrType]

end Hints

namespace IterativeQueryWithForwardingHint

section States

variable (t : IterativeQueryWithForwardingHint)

/-- The labels behind the zone. -/
def rest : Name :=
  t.query.rrLabel.drop t.finishedLabelNum

end States

end IterativeQueryWithForwardingHint

/-- How the plain strategy stands to the one with hints: level with it, or one
delegation ahead while an FH query is pending. -/
inductive Follows :
    IterativeQueryWithForwardingHint → IterativeQuery → Prop where
  | level {t : IterativeQueryWithForwardingHint} {iq : IterativeQuery}
      (step_ne : t.step ≠ .FHQuery)
      (step_eq : iq.step = t.step)
      (query_eq : iq.query = t.query)
      (finished_eq : iq.finishedLabelNum = t.finishedLabelNum)
      (len_eq : iq.rrLabelLen = t.rrLabelLen)
      (answer : t.step = .AnswerStub →
        SameAnswer t.lastResponse iq.lastResponse) :
      Follows t iq
  | behind {t : IterativeQueryWithForwardingHint} {iq : IterativeQuery}
      (step_eq : t.step = .FHQuery)
      (step_eq' : iq.step = .NSQuery)
      (query_eq : iq.query = t.query)
      (finished_eq :
        iq.finishedLabelNum = t.finishedLabelNum + t.rrLabelLen)
      (len_eq : iq.rrLabelLen = 1) :
      Follows t iq

section Follows

variable {P : NameParser} {W : World}
variable {t : IterativeQueryWithForwardingHint} {iq : IterativeQuery}
variable {re re' : Response}

theorem SameAnswer.refl (re : Response) : SameAnswer re re :=
  ⟨rfl, rfl⟩

/-- An `NDNS_Auth` to both makes both ask for one label more. -/
theorem Follows.auth
    (h : Follows t iq) (hne : t.step ≠ .FHQuery)
    (hstub : t.step ≠ .AnswerStub)
    (hre : re.responseType = .NDNS_Auth)
    (hre' : re'.responseType = .NDNS_Auth) :
    ∃ t', t.doResponse P re = some t' ∧ Follows t' (iq.doResponse re') ∧
      t'.step ≠ .FHQuery := by
  cases h with
  | behind hstep =>
      exact absurd hstep hne
  | level _ hstep hquery hfin hlen =>
      rw [t.doResponse_auth P re hre, iq.doResponse_auth re' hre']
      exact ⟨_, rfl, Follows.level hne hstep hquery hfin (by simp [hlen])
        (fun h => absurd h hstub), hne⟩

/-- A Nack to both makes both ask for the records, or answer. -/
theorem Follows.nack
    (h : Follows t iq) (hne : t.step ≠ .FHQuery)
    (hre : re.responseType = .NDNS_Nack)
    (hre' : re'.responseType = .NDNS_Nack) (hsame : SameAnswer re re') :
    ∃ t', t.doResponse P re = some t' ∧ Follows t' (iq.doResponse re') ∧
      t'.step ≠ .FHQuery := by
  cases h with
  | behind hstep =>
      exact absurd hstep hne
  | level _ hstep hquery hfin hlen =>
      have hnackStep : iq.nackStep = t.nackStep := by
        simp [IterativeQuery.nackStep,
          IterativeQueryWithForwardingHint.nackStep, hstep, hquery, hne]
      have hnext : t.nackStep ≠ .FHQuery := by
        unfold IterativeQueryWithForwardingHint.nackStep
        split_ifs <;> simp [hne]
      rw [t.doResponse_nack P re hre, iq.doResponse_nack re' hre']
      exact ⟨_, rfl, Follows.level hnext hnackStep hquery hfin hlen
        (fun _ => hsame), hnext⟩

/-- A delegation puts the plain strategy ahead. -/
theorem Follows.delegate
    (h : Follows t iq) (hstep : t.step = .NSQuery)
    (hre : re.responseType = .NDNS_Resp)
    (hre' : re'.responseType = .NDNS_Resp)
    (hinside : t.query.rrType = .NS →
      t.finishedLabelNum ≠ t.query.rrLabel.length ∧
        t.finishedLabelNum + t.rrLabelLen ≠ t.query.rrLabel.length) :
    ∃ t', t.doResponse P re = some t' ∧ Follows t' (iq.doResponse re') ∧
      t'.step = .FHQuery := by
  cases h with
  | behind hstep' =>
      rw [hstep] at hstep'
      exact absurd hstep' (by decide)
  | level _ hstep' hquery hfin hlen =>
      rw [hstep] at hstep'
      rw [t.doResponse_resp P re hre, if_pos hstep,
        iq.doResponse_resp re' hre', if_pos hstep']
      have hdel : (t.delegate re).step = .FHQuery := by
        simp only [IterativeQueryWithForwardingHint.delegate]
        rw [if_neg]
        rintro ⟨hT, hsize⟩
        exact (hinside hT).1 hsize
      refine ⟨_, rfl, Follows.behind hdel ?_ hquery ?_ rfl, hdel⟩
      · simp only [IterativeQuery.advance]
        rw [if_neg, hstep']
        rintro ⟨hT, hsize⟩
        rw [hquery] at hT hsize
        rw [hfin, hlen] at hsize
        exact (hinside hT).2 hsize
      · show iq.finishedLabelNum + iq.rrLabelLen = _
        rw [hfin, hlen]
        rfl

/-- Both strategies get an answer of one type to the same NS question. -/
theorem Follows.nsQuery
    (h : Follows t iq) (hstep : t.step = .NSQuery)
    (htype : re.responseType = re'.responseType)
    (hkind : re.responseType = .NDNS_Resp ∨ re.responseType = .NDNS_Auth ∨
      re.responseType = .NDNS_Nack)
    (hnack : re.responseType = .NDNS_Nack → SameAnswer re re')
    (hinside : t.query.rrType = .NS → re.responseType = .NDNS_Resp →
      t.finishedLabelNum ≠ t.query.rrLabel.length ∧
        t.finishedLabelNum + t.rrLabelLen ≠ t.query.rrLabel.length) :
    ∃ t', t.doResponse P re = some t' ∧ Follows t' (iq.doResponse re') ∧
      (re.responseType = .NDNS_Resp → t'.step = .FHQuery) ∧
      (re.responseType ≠ .NDNS_Resp → t'.step ≠ .FHQuery) := by
  have hne : t.step ≠ .FHQuery := by simp [hstep]
  rcases hkind with hre | hre | hre
  · obtain ⟨t', ht', hfollows, hnext⟩ := h.delegate (P := P) hstep hre
      (htype ▸ hre) (fun hT => hinside hT hre)
    exact ⟨t', ht', hfollows, fun _ => hnext, fun h => absurd hre h⟩
  · obtain ⟨t', ht', hfollows, hnext⟩ :=
      h.auth (P := P) hne (by simp [hstep]) hre (htype ▸ hre)
    refine ⟨t', ht', hfollows, fun h => ?_, fun _ => hnext⟩
    rw [hre] at h
    exact absurd h (by decide)
  · obtain ⟨t', ht', hfollows, hnext⟩ :=
      h.nack (P := P) hne hre (htype ▸ hre) (hnack hre)
    refine ⟨t', ht', hfollows, fun h => ?_, fun _ => hnext⟩
    rw [hre] at h
    exact absurd h (by decide)

/-- Both strategies get the same answer to the same RR question. -/
theorem Follows.rrQuery
    (h : Follows t iq) (hstep : t.step = .RRQuery)
    (hkind : re.responseType = .NDNS_Resp ∨ re.responseType = .NDNS_Auth ∨
      re.responseType = .NDNS_Nack) :
    ∃ t', t.doResponse P re = some t' ∧ Follows t' (iq.doResponse re) ∧
      t'.step ≠ .FHQuery := by
  have hne : t.step ≠ .FHQuery := by simp [hstep]
  rcases hkind with hre | hre | hre
  · cases h with
    | behind hstep' =>
        exact absurd hstep' hne
    | level _ hstep' hquery hfin hlen =>
        rw [hstep] at hstep'
        rw [t.doResponse_resp P re hre, if_neg (by simp [hstep]),
          if_neg hne, if_pos hstep, iq.doResponse_resp re hre,
          if_neg (by simp [hstep']), if_pos hstep']
        exact ⟨_, rfl, Follows.level (by simp) rfl hquery hfin hlen
          (fun _ => SameAnswer.refl re), by simp⟩
  · exact h.auth hne (by simp [hstep]) hre hre
  · exact h.nack hne hre hre (SameAnswer.refl re)

end Follows

section Simulation

variable {P : NameParser} {W : World} {query : Query} {rootHint : Name}
variable {t : IterativeQueryWithForwardingHint} {iq : IterativeQuery}

theorem follows_init (query : Query) (rootHint : Name) :
    Follows (IterativeQueryWithForwardingHint.init query rootHint)
      (IterativeQuery.init query) :=
  Follows.level (by simp [IterativeQueryWithForwardingHint.init,
    IterativeQuery.init]) rfl rfl rfl rfl (fun _ => SameAnswer.refl _)

end Simulation

/-- The first name server of every delegated zone has a forwarding hint in the
parent zone. -/
def World.Hinted (P : NameParser) (W : World) : Prop :=
  ∀ zone label r, (W.nsRecords zone label).head? = some r →
    ∃ name s, P.ofUri r.rrData = some name ∧ W zone = some s ∧
      s.lookup name .FH ≠ []

section Example

/-- The root delegates `/a` to `/ns`, which is reached by `/isp`. -/
def hintedWorld : World := fun zone =>
  if zone = [] then
    some [⟨[ascii "a"], .NS, ⟨1, ascii "/ns"⟩⟩,
      ⟨[ascii "ns"], .FH, ⟨2, ascii "/isp"⟩⟩]
  else if zone = [ascii "a"] then some []
  else none

/-- A query below the root. -/
def queryFor (label : Name) (type : RRType) : Query :=
  { Query.init with rrLabel := ascii "a" :: label, rrType := type }

/-- The states of a resolution of `/a/…` in `hintedWorld`. -/
inductive HintedState (label : Name) (type : RRType) :
    IterativeQueryWithForwardingHint → Prop where
  | start {t : IterativeQueryWithForwardingHint}
      (step : t.step = .NSQuery)
      (query_eq : t.query = queryFor label type)
      (finished : t.finishedLabelNum = 0) (len : t.rrLabelLen = 1)
      (index : t.authZoneIndex = 0) (index' : t.forwardingHintIndex = 0)
      (hint : t.forwardingHint = []) :
      HintedState label type t
  | pending {t : IterativeQueryWithForwardingHint}
      (step : t.step = .FHQuery)
      (query_eq : t.query = queryFor label type)
      (finished : t.finishedLabelNum = 0) (len : t.rrLabelLen = 1)
      (index : t.authZoneIndex = 0) (index' : t.forwardingHintIndex = 0)
      (hint : t.forwardingHint = [])
      (server : t.lastResponse.rrs.map RR.rrData = [ascii "/ns"]) :
      HintedState label type t
  | inZone {t : IterativeQueryWithForwardingHint}
      (step : t.step = .NSQuery)
      (query_eq : t.query = queryFor label type)
      (finished : t.finishedLabelNum = 1) (len : t.rrLabelLen = 1)
      (hint : t.forwardingHint = [ascii "isp"]) :
      HintedState label type t
  | lookup {t : IterativeQueryWithForwardingHint}
      (step : t.step = .RRQuery)
      (type_ne : type ≠ .NS)
      (query_eq : t.query = queryFor label type)
      (finished : t.finishedLabelNum = 1)
      (hint : t.forwardingHint = [ascii "isp"]) :
      HintedState label type t
  | done {t : IterativeQueryWithForwardingHint}
      (step : t.step = .AnswerStub)
      (type_ne : type ≠ .NS) :
      HintedState label type t

variable {label : Name} {type : RRType}
variable {t : IterativeQueryWithForwardingHint}

/-- The answers in the zone `/a` that the states above rely on. -/
structure ZoneDenies (label : Name) (type : RRType) : Prop where
  ns : ∀ re, hintedWorld.Replies uriParser
    (hintedQuestion [ascii "isp"] [ascii "a"] (label.take 1) .NS) re →
    re.responseType = .NDNS_Nack ∧ type ≠ .NS
  rr : ∀ re, hintedWorld.Replies uriParser
    (hintedQuestion [ascii "isp"] [ascii "a"] label type) re →
    re.responseType = .NDNS_Nack

theorem serverName_pending
    (hserver : t.lastResponse.rrs.map RR.rrData = [ascii "/ns"])
    (hindex : t.authZoneIndex = 0) :
    t.serverName uriParser = some [ascii "ns"] := by
  obtain ⟨rr, hrr, hdata⟩ := List.map_eq_singleton_iff.mp hserver
  have hparse : uriParser.ofUri (ascii "/ns") = some [ascii "ns"] := by
    decide +kernel
  simp [IterativeQueryWithForwardingHint.serverName, hrr, hindex, hdata,
    hparse]

theorem HintedState.exchange
    {q : QuerySteps × Query} {re : Response}
    (hzone : ZoneDenies label type)
    (h : HintedState label type t)
    (hask : (hintedResolver uriParser).ask (some t) = some q)
    (hreply : hintedWorld.HintedReplies uriParser q re) :
    ∃ t', t.doResponse uriParser re = some t' ∧
      HintedState label type t' := by
  cases h with
  | start hstep hquery hfin hlen hindex hindex' hhint =>
      rw [t.ask_of_NSQuery _ hstep, hquery, hfin, hlen, hhint,
        Option.some.injEq] at hask
      subst hask
      obtain ⟨a, ha, hcarried⟩ := hreply
      have hanswer :
          hintedWorld.answer uriParser
              (hintedQuestion [] [] [ascii "a"] .NS) =
            some ⟨.NDNS_Resp, [⟨1, ascii "/ns"⟩]⟩ := by
        decide +kernel
      have haa : a = ⟨.NDNS_Resp, [⟨1, ascii "/ns"⟩]⟩ :=
        Option.some.inj (ha.symm.trans hanswer)
      subst haa
      rw [t.doResponse_resp _ re hcarried.responseType_eq, if_pos hstep]
      refine ⟨_, rfl, HintedState.pending ?_ hquery hfin hlen hindex
        hindex' hhint ?_⟩
      · simp [IterativeQueryWithForwardingHint.delegate, hquery, hfin,
          queryFor]
      · have := congrArg (List.map Record.rrData) hcarried.rrs_eq
        rw [List.map_map] at this
        exact this
  | pending hstep hquery hfin hlen hindex hindex' hhint hserver =>
      rw [t.ask_of_FHQuery _ hstep, serverName_pending hserver hindex,
        hquery, hfin, hhint, Option.map_some, Option.some.injEq] at hask
      subst hask
      obtain ⟨a, ha, hcarried⟩ := hreply
      have hanswer :
          hintedWorld.answer uriParser
              (hintedQuestion [] [] [ascii "ns"] .FH) =
            some ⟨.NDNS_Resp, [⟨2, ascii "/isp"⟩]⟩ := by
        decide +kernel
      have haa : a = ⟨.NDNS_Resp, [⟨2, ascii "/isp"⟩]⟩ :=
        Option.some.inj (ha.symm.trans hanswer)
      subst haa
      obtain ⟨rr, hrr, hdata⟩ :=
        List.map_eq_singleton_iff.mp hcarried.rrs_eq
      have hparse : uriParser.ofUri rr.rrData = some [ascii "isp"] := by
        have hisp : rr.rrData = ascii "/isp" :=
          congrArg Record.rrData hdata
        rw [hisp]
        decide +kernel
      rw [t.doResponse_resp _ re hcarried.responseType_eq,
        if_neg (by simp [hstep]), if_pos hstep]
      simp only [IterativeQueryWithForwardingHint.advance, hindex', hrr,
        List.getElem?_cons_zero, hparse, Option.bind_eq_bind,
        Option.bind_some]
      exact ⟨_, rfl, HintedState.inZone rfl hquery (by simp [hfin, hlen])
        rfl rfl⟩
  | inZone hstep hquery hfin hlen hhint =>
      rw [t.ask_of_NSQuery _ hstep, hquery, hfin, hlen, hhint,
        Option.some.injEq] at hask
      subst hask
      obtain ⟨hre, hT⟩ := hzone.ns re hreply
      rw [t.doResponse_nack _ re hre]
      refine ⟨_, rfl, HintedState.lookup ?_ hT hquery hfin hhint⟩
      simp [IterativeQueryWithForwardingHint.nackStep, hstep, hquery,
        queryFor, hT]
  | lookup hstep hT hquery hfin hhint =>
      rw [t.ask_of_RRQuery _ hstep, hquery, hfin, hhint,
        Option.some.injEq] at hask
      subst hask
      have hre := hzone.rr re hreply
      rw [t.doResponse_nack _ re hre]
      refine ⟨_, rfl, HintedState.done ?_ hT⟩
      simp [IterativeQueryWithForwardingHint.nackStep, hstep]
  | done hstep =>
      simp [hintedResolver, IterativeQueryWithForwardingHint.latestQuery,
        hstep] at hask

end Example

end Ndns

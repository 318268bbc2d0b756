import Ndns.IterativeQuery
import Ndns.Store
import Ndns.UriParser

/-!
# What a resolution answers

A resolution against fixed stores follows the chain of delegations from the
root.  As long as the servers read every label as it is meant, the response it ends
with is the right one: the reply of the last zone of the chain, or, for NS, the
delegation of the destination.

The invariant ties the two counters to the chain: the finished labels are a zone
of the chain, and no label shorter than the current one is delegated there.

**Results.**
* `Progress`, `progress_doResponse`: the invariant and its preservation;
* `answerStub_right`: the result over runs;
* `askWord_wrong`: a destination that makes the servers read another label.
-/

namespace Ndns

/-- The chain delegates the destination itself, by these records. -/
def World.DelegatesTo (W : World) (dst zone label : Name) : Prop :=
  W.Chain dst zone ∧ W.Delegates dst zone label ∧ zone ++ label = dst

/-- The response that a resolution of `dst` and `type` should end with. -/
def World.RightAnswer
    (W : World) (dst : Name) (type : RRType) (re : Response) : Prop :=
  if type = .NS then
    (∃ zone label, W.DelegatesTo dst zone label ∧
      Answer.CarriedBy ⟨.NDNS_Resp, W.nsRecords zone label⟩ re) ∨
    ((¬ ∃ zone label, W.DelegatesTo dst zone label) ∧
      re.responseType = .NDNS_Nack)
  else
    ∃ zone s, W.Chain dst zone ∧ (∀ l, ¬ W.Delegates dst zone l) ∧
      W zone = some s ∧
      (s.answer (dst.drop zone.length) type).CarriedBy re

/-- No label of the rest of `dst` shorter than `len` is delegated. -/
def World.NoneBelow (W : World) (dst zone : Name) (len : Nat) : Prop :=
  ∀ l, l ≠ [] → zone ++ l <+: dst → l.length < len → ¬ W.HasNs zone l

/-- How far a resolution has come along the chain. -/
inductive Progress (W : World) (query : Query) : IterativeQuery → Prop where
  | nsQuery {iq : IterativeQuery} {zone : Name}
      (step : iq.step = .NSQuery)
      (query_eq : iq.query = query)
      (chain : W.Chain query.rrLabel zone)
      (finished : iq.finishedLabelNum = zone.length)
      (pos : 0 < iq.rrLabelLen)
      (none : W.NoneBelow query.rrLabel zone iq.rrLabelLen) :
      Progress W query iq
  | rrQuery {iq : IterativeQuery} {zone : Name}
      (step : iq.step = .RRQuery)
      (query_eq : iq.query = query)
      (type_ne : query.rrType ≠ .NS)
      (chain : W.Chain query.rrLabel zone)
      (finished : iq.finishedLabelNum = zone.length)
      (none : ∀ len, W.NoneBelow query.rrLabel zone len) :
      Progress W query iq
  | answerStub {iq : IterativeQuery}
      (step : iq.step = .AnswerStub)
      (right : W.RightAnswer query.rrLabel query.rrType iq.lastResponse) :
      Progress W query iq

section Chain

variable {W : World} {dst zone : Name}

theorem World.NoneBelow.not_delegates
    (h : ∀ len, W.NoneBelow dst zone len) (l : Name) :
    ¬ W.Delegates dst zone l := by
  intro hl
  exact h (l.length + 1) l hl.ne_nil hl.isPrefix (by omega) hl.stops

/-- A zone with something left of `dst` and no delegation ends the chain short
of `dst`. -/
theorem not_delegatesTo
    (hchain : W.Chain dst zone)
    (hnone : ∀ len, W.NoneBelow dst zone len)
    (hrest : zone.length < dst.length) :
    ¬ ∃ zone' label, W.DelegatesTo dst zone' label := by
  rintro ⟨zone', label, hchain', hlabel, heq⟩
  have hdst : W.Chain dst dst := by
    have := hchain'.step hlabel hlabel.stops
    rwa [heq] at this
  have hle : dst <+: zone :=
    hchain.isPrefix_last
      (fun l hl _ => World.NoneBelow.not_delegates hnone l hl) hdst
  have := hle.length_le
  omega

theorem nsRecords_eq
    {s : Store}
    (h : W zone = some s) (l : Name) :
    W.nsRecords zone l = s.lookup l .NS := by
  simp [World.nsRecords, h]

end Chain

section Step

variable {W : World} {dst zone : Name} {s : Store} {len : Nat}

/-- The label that is asked in a zone. -/
theorem append_take_isPrefix
    (hzone : zone <+: dst) (len : Nat) :
    zone ++ (dst.drop zone.length).take len <+: dst := by
  obtain ⟨rest, rfl⟩ := hzone
  rw [List.drop_left]
  exact (List.prefix_append_right_inj zone).mpr (List.take_prefix len rest)

/-- A label of the rest is as long as the label asked, or shorter than it. -/
theorem eq_take_of_length
    {l : Name}
    (hl : zone ++ l <+: dst) :
    l = (dst.drop zone.length).take l.length := by
  obtain ⟨t, rfl⟩ := hl
  rw [List.append_assoc, List.drop_left, List.take_left]

/-- A Nack for a label denies all labels from it on. -/
theorem noneBelow_of_nack
    (hs : W zone = some s)
    (hnone : W.NoneBelow dst zone len)
    (hnack :
      (s.answer ((dst.drop zone.length).take len) .NS).responseType =
        .NDNS_Nack) :
    ∀ n, W.NoneBelow dst zone n := by
  obtain ⟨hempty, hauth⟩ := (s.answer_nack_iff _ _).mp hnack
  intro n l hne hl hlt
  by_cases hlen : l.length < len
  · exact hnone l hne hl hlen
  · have hle : (dst.drop zone.length).take len <+: l := by
      rw [eq_take_of_length hl]
      exact List.take_prefix_take_left (by omega)
    unfold World.HasNs
    rw [nsRecords_eq hs]
    by_cases heq : l = (dst.drop zone.length).take len
    · rw [heq, hempty]
      simp
    · rw [s.lookup_eq_nil_of_hasAuth _ _ (hauth rfl) hle heq]
      simp

/-- Without records at the label asked, the next label may be asked. -/
theorem noneBelow_succ
    (hs : W zone = some s)
    (hnone : W.NoneBelow dst zone len)
    (hempty : s.lookup ((dst.drop zone.length).take len) .NS = []) :
    W.NoneBelow dst zone (len + 1) := by
  intro l hne hl hlt
  by_cases hlen : l.length < len
  · exact hnone l hne hl hlen
  · have heq : l = (dst.drop zone.length).take len := by
      have := eq_take_of_length hl
      rwa [show l.length = len by omega] at this
    unfold World.HasNs
    rw [nsRecords_eq hs, heq, hempty]
    simp

/-- Records at the label asked are the delegation, and the label was not cut
short by the end of `dst`. -/
theorem delegates_of_resp
    (hs : W zone = some s)
    (hzone : zone <+: dst)
    (hne : (dst.drop zone.length).take len ≠ [])
    (hnone : W.NoneBelow dst zone len)
    (hrecords : s.lookup ((dst.drop zone.length).take len) .NS ≠ []) :
    W.Delegates dst zone ((dst.drop zone.length).take len) ∧
      ((dst.drop zone.length).take len).length = len := by
  have hprefix := append_take_isPrefix hzone len
  have hns : W.HasNs zone ((dst.drop zone.length).take len) := by
    unfold World.HasNs
    rw [nsRecords_eq hs]
    exact hrecords
  have hlen : ((dst.drop zone.length).take len).length = len := by
    by_contra hlt
    have hle := List.length_take_le len (dst.drop zone.length)
    exact hnone _ hne hprefix (by omega) hns
  refine ⟨⟨hne, hprefix, hns, ?_⟩, hlen⟩
  intro l' hne' hle hns'
  by_contra hneq
  have hshort : l'.length < len := by
    have := hle.length_le
    have hlength : l'.length ≠ ((dst.drop zone.length).take len).length :=
      fun h => hneq (hle.eq_of_length h)
    omega
  exact hnone l' hne'
    (((List.prefix_append_right_inj zone).mpr hle).trans hprefix)
    hshort hns'

end Step

namespace IterativeQuery

/-- The servers can only read the next label as it is meant: there is a label
left, none of its components but the last ends with a query word, and the type
is one of the pattern. -/
structure Readable (iq : IterativeQuery) : Prop where
  labels_left : iq.finishedLabelNum < iq.query.rrLabel.length
  clean : ∀ c ∈
    (if iq.step = .RRQuery then
        iq.query.rrLabel.drop iq.finishedLabelNum
      else
        (iq.query.rrLabel.drop iq.finishedLabelNum).take
          iq.rrLabelLen).dropLast,
    ¬ EndsInQueryWord c
  queried : iq.step = .RRQuery → iq.query.rrType.isQueried = true

instance (iq : IterativeQuery) : Decidable iq.Readable :=
  decidable_of_iff
    (iq.finishedLabelNum < iq.query.rrLabel.length ∧
      (∀ c ∈
        (if iq.step = .RRQuery then
            iq.query.rrLabel.drop iq.finishedLabelNum
          else
            (iq.query.rrLabel.drop iq.finishedLabelNum).take
              iq.rrLabelLen).dropLast,
        ¬ EndsInQueryWord c) ∧
      (iq.step = .RRQuery → iq.query.rrType.isQueried = true))
    ⟨fun ⟨h₁, h₂, h₃⟩ => ⟨h₁, h₂, h₃⟩, fun ⟨h₁, h₂, h₃⟩ => ⟨h₁, h₂, h₃⟩⟩

theorem wellNamed_of_NSQuery
    {iq : IterativeQuery}
    (h : iq.Readable) (hstep : iq.step = .NSQuery)
    (hpos : 0 < iq.rrLabelLen) :
    iq.latestQuery.WellNamed := by
  have hclean := h.clean
  rw [if_neg (by simp [hstep])] at hclean
  rw [iq.latestQuery_of_NSQuery hstep]
  constructor
  · rfl
  · rfl
  · have hleft := h.labels_left
    intro hnil
    have := congrArg List.length hnil
    simp only [question_rrLabel, List.length_take, List.length_drop,
      List.length_nil] at this
    omega
  · exact hclean

theorem wellNamed_of_RRQuery
    {iq : IterativeQuery}
    (h : iq.Readable) (hstep : iq.step = .RRQuery) :
    iq.latestQuery.WellNamed := by
  have hclean := h.clean
  rw [if_pos hstep] at hclean
  rw [iq.latestQuery_of_RRQuery hstep]
  constructor
  · rfl
  · exact h.queried hstep
  · have hleft := h.labels_left
    intro hnil
    have := congrArg List.length hnil
    simp only [question_rrLabel, List.length_drop,
      List.length_nil] at this
    omega
  · exact hclean

variable {W : World} {query : Query} {iq : IterativeQuery} {re : Response}

/-- One exchange in the NS step. -/
theorem progress_of_nsQuery
    {zone : Name} {s : Store}
    (hstep : iq.step = .NSQuery)
    (hquery : iq.query = query)
    (hchain : W.Chain query.rrLabel zone)
    (hfin : iq.finishedLabelNum = zone.length)
    (hnone : W.NoneBelow query.rrLabel zone iq.rrLabelLen)
    (hs : W zone = some s)
    (hne : (query.rrLabel.drop zone.length).take iq.rrLabelLen ≠ [])
    (hcarried :
      (s.answer ((query.rrLabel.drop zone.length).take iq.rrLabelLen)
        .NS).CarriedBy re) :
    Progress W query (iq.doResponse re) := by
  have htype := hcarried.responseType_eq
  have hrest : zone.length < query.rrLabel.length := by
    by_contra hle
    rw [List.drop_eq_nil_of_le (by omega)] at hne
    simp at hne
  rcases s.answer_responseType _ .NS with hresp | hauth | hnack
  · rw [hresp] at htype
    rw [doResponse_resp iq re htype, if_pos hstep]
    have hrecords := (s.answer_resp_iff _ _).mp hresp
    obtain ⟨hdel, hlen⟩ :=
      delegates_of_resp hs hchain.isPrefix hne hnone hrecords
    by_cases hlast :
        iq.query.rrType = .NS ∧
          iq.finishedLabelNum + iq.rrLabelLen = iq.query.rrLabel.length
    · -- the label that was asked reaches to the end of the destination
      have heq :
          zone ++ (query.rrLabel.drop zone.length).take iq.rrLabelLen =
            query.rrLabel := by
        refine hdel.isPrefix.eq_of_length ?_
        rw [List.length_append, hlen, ← hfin, hlast.2, hquery]
      refine Progress.answerStub (by simp [advance, hlast]) ?_
      unfold World.RightAnswer
      rw [if_pos (hquery ▸ hlast.1)]
      refine Or.inl ⟨zone, _, ⟨hchain, hdel, heq⟩, ?_⟩
      constructor
      · exact htype
      · rw [nsRecords_eq hs, ← s.answer_rrs]
        exact hcarried.rrs_eq
    · refine Progress.nsQuery (by simp [advance, hlast, hstep])
        (by simpa [advance] using hquery) (hchain.step hdel hdel.stops)
        ?_ (by simp [advance]) ?_
      · simp only [advance, List.length_append, hlen, hfin]
      · intro l hl _ hlt
        have := List.length_pos_of_ne_nil hl
        simp only [advance] at hlt
        omega
  · rw [hauth] at htype
    rw [doResponse_auth iq re htype]
    have hempty := ((s.answer_auth_iff _ _).mp hauth).1
    exact Progress.nsQuery hstep hquery hchain hfin (Nat.succ_pos _)
      (noneBelow_succ hs hnone hempty)
  · rw [hnack] at htype
    rw [doResponse_nack iq re htype]
    have hall := noneBelow_of_nack hs hnone hnack
    by_cases hT : query.rrType = .NS
    · refine Progress.answerStub
        (by simp [nackStep, hstep, hquery, hT]) ?_
      unfold World.RightAnswer
      rw [if_pos hT]
      exact Or.inr ⟨not_delegatesTo hchain hall hrest, htype⟩
    · exact Progress.rrQuery (by simp [nackStep, hstep, hquery, hT])
        hquery hT hchain hfin hall

/-- One exchange in the RR step. -/
theorem progress_of_rrQuery
    {zone : Name} {s : Store}
    (hstep : iq.step = .RRQuery)
    (hT : query.rrType ≠ .NS)
    (hchain : W.Chain query.rrLabel zone)
    (hnone : ∀ len, W.NoneBelow query.rrLabel zone len)
    (hs : W zone = some s)
    (hcarried :
      (s.answer (query.rrLabel.drop zone.length)
        query.rrType).CarriedBy re) :
    Progress W query (iq.doResponse re) := by
  have htype := hcarried.responseType_eq
  have hright : W.RightAnswer query.rrLabel query.rrType re := by
    unfold World.RightAnswer
    rw [if_neg hT]
    exact ⟨zone, s, hchain, World.NoneBelow.not_delegates hnone, hs,
      hcarried⟩
  rcases s.answer_responseType (query.rrLabel.drop zone.length)
    query.rrType with hresp | hauth | hnack
  · rw [hresp] at htype
    rw [doResponse_resp iq re htype, if_neg (by simp [hstep]),
      if_pos hstep]
    exact Progress.answerStub rfl hright
  · exact absurd ((s.answer_auth_iff _ _).mp hauth).2.1 hT
  · rw [hnack] at htype
    rw [doResponse_nack iq re htype]
    exact Progress.answerStub (by simp [nackStep, hstep]) hright

/-- An exchange that is read right keeps the invariant. -/
theorem progress_doResponse
    (P : NameParser) {q : Query}
    (h : Progress W query iq)
    (hread : iq.Readable)
    (hask : plainResolver.ask iq = some q)
    (hreply : W.Replies P q re) :
    Progress W query (iq.doResponse re) := by
  obtain ⟨hresolves, rfl⟩ := iq.ask_eq_some hask
  obtain ⟨a, ha, hcarried⟩ := hreply
  obtain ⟨s, hs, hs'⟩ := Option.bind_eq_some_iff.mp ha
  cases h with
  | nsQuery hstep hquery hchain hfin hpos hnone =>
      have hnamed := wellNamed_of_NSQuery hread hstep hpos
      rw [s.onInterest_of_wellNamed P hnamed, Option.some.injEq] at hs'
      subst hs'
      have hzone := List.prefix_iff_eq_take.mp hchain.isPrefix
      rw [iq.latestQuery_of_NSQuery hstep, hquery, hfin] at hs hcarried
      have hne := hnamed.label_ne_nil
      rw [iq.latestQuery_of_NSQuery hstep, hquery, hfin] at hne
      simp only [← hzone] at hs
      exact progress_of_nsQuery hstep hquery hchain hfin hnone hs hne
        hcarried
  | rrQuery hstep hquery hT hchain hfin hnone =>
      have hnamed := wellNamed_of_RRQuery hread hstep
      rw [s.onInterest_of_wellNamed P hnamed, Option.some.injEq] at hs'
      subst hs'
      have hzone := List.prefix_iff_eq_take.mp hchain.isPrefix
      rw [iq.latestQuery_of_RRQuery hstep, hquery, hfin] at hs hcarried
      simp only [← hzone] at hs
      exact progress_of_rrQuery hstep hT hchain hnone hs hcarried
  | answerStub hstep =>
      rw [hstep] at hresolves
      exact absurd hresolves (by decide)

/-- A resolution all of whose questions are read right ends with the right
answer. -/
theorem answerStub_right
    (P : NameParser) (W : World) (query : Query)
    {qs : List Query} {iq : IterativeQuery}
    (hrun :
      Dialogue.Run plainResolver (W.Replies P)
        Readable (init query) qs iq)
    (hstep : iq.step = .AnswerStub) :
    W.RightAnswer query.rrLabel query.rrType iq.lastResponse := by
  have hprogress : Progress W query iq := by
    refine hrun.invariant (I := fun _ iq => Progress W query iq) ?_ ?_
    · refine Progress.nsQuery rfl rfl Descent.Chain.nil rfl
        (Nat.succ_pos 0) ?_
      intro l hl _ hlt
      have := List.length_pos_of_ne_nil hl
      simp only [init] at hlt
      omega
    · intro qs iq q re hI hread hask hreply
      exact progress_doResponse P hI hread hask hreply
  cases hprogress with
  | nsQuery h => rw [h] at hstep; exact absurd hstep (by decide)
  | rrQuery h => rw [h] at hstep; exact absurd hstep (by decide)
  | answerStub _ hright => exact hright

/-- The root delegates `/a`, which has a record at `/b`. -/
def delegatingWorld : World := fun zone =>
  if zone = [] then some [⟨[ascii "a"], .NS, ⟨1, ascii "/a/ns"⟩⟩]
  else if zone = [ascii "a"] then
    some [⟨[ascii "b"], .TXT, ⟨1, ascii "text"⟩⟩]
  else none

def delegatedQuery : Query :=
  { Query.init with
    rrLabel := [ascii "a", ascii "b"]
    rrType := .TXT }

/-- Three exchanges find the record at `/a/b`. -/
theorem answerStub_right_delegated :
    delegatingWorld.RightAnswer delegatedQuery.rrLabel .TXT
      (Dialogue.converse plainResolver (delegatingWorld.respond uriParser)
        Readable 3
        (init delegatedQuery)).2.lastResponse :=
  answerStub_right uriParser delegatingWorld delegatedQuery
    (Dialogue.run_converse plainResolver (delegatingWorld.respond uriParser)
      Readable (fun _ _ h => delegatingWorld.replies_respond uriParser h) 3
      (init delegatedQuery))
    (by decide +kernel)

/-- The root has a record at `/x`, and none at `/DNS/x`. -/
def wordWorld : World := fun zone =>
  if zone = [] then some [⟨[ascii "x"], .TXT, ⟨1, ascii "text"⟩⟩]
  else none

def askWord : Query :=
  { Query.init with
    rrLabel := [ascii "DNS", ascii "x"]
    rrType := .TXT }

/-- The resolution of `/DNS/x` ends with the record of `/x`. -/
theorem askWord_wrong :
    ∃ qs iq,
      Dialogue.Run plainResolver (wordWorld.Replies uriParser)
        (fun _ => True) (init askWord) qs iq ∧
      iq.step = .AnswerStub ∧
      ¬ wordWorld.RightAnswer askWord.rrLabel askWord.rrType
        iq.lastResponse := by
  have hrun := Dialogue.run_converse plainResolver
    (wordWorld.respond uriParser) (fun _ => True)
    (fun _ _ h => wordWorld.replies_respond uriParser h) 2 (init askWord)
  refine ⟨_, _, hrun, by decide +kernel, ?_⟩
  have htype :
      (Dialogue.converse plainResolver (wordWorld.respond uriParser)
        (fun _ => True) 2 (init askWord)).2.lastResponse.responseType =
        .NDNS_Resp := by
    decide +kernel
  unfold World.RightAnswer
  rw [if_neg (by decide)]
  rintro ⟨zone, s, -, -, hs, hcarried⟩
  have hzone : zone = [] ∧ s = [⟨[ascii "x"], .TXT, ⟨1, ascii "text"⟩⟩] := by
    unfold wordWorld at hs
    split at hs
    · next hz => exact ⟨hz, (Option.some.inj hs).symm⟩
    · simp at hs
  obtain ⟨rfl, rfl⟩ := hzone
  have := hcarried.responseType_eq
  rw [htype] at this
  exact absurd this (by decide +kernel)

end IterativeQuery

end Ndns

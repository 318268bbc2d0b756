import Ndns.IterativeQueryWithForwardingHint

/-!
# Replies of any kind

Nothing makes a server reply with what a resolution expects.  Here the replies
are any responses, in any order.

**Results.**
* `Moved`: all that a response does to a resolution, for either strategy;
* `answerStub_relays`: what the stub is answered with;
* `follows_confirmed`: the zones that a resolution follows.
-/

namespace Ndns

/-- The response answers the question of the stub, or denies a name server on
the way to the name that the stub asks the name servers of. -/
def Relays (query asked : Query) (re : Response) : Prop :=
  (re.responseType = .NDNS_Resp ∨ re.responseType = .NDNS_Nack) ∧
    (asked.rrType = query.rrType ∧
        asked.authorityZone ++ asked.rrLabel = query.rrLabel ∨
      query.rrType = .NS ∧ re.responseType = .NDNS_Nack ∧
        asked.rrType = .NS ∧
        asked.authorityZone ++ asked.rrLabel <+: query.rrLabel)

namespace IterativeQuery

/-- The state behind responses. -/
def after (iq : IterativeQuery) (rs : List Response) : IterativeQuery :=
  rs.foldl doResponse iq

/-- What every response keeps holds behind all of them. -/
theorem after_invariant
    {I : IterativeQuery → Prop}
    (hstep : ∀ iq re, I iq → I (iq.doResponse re))
    {iq : IterativeQuery} (h : I iq) (rs : List Response) :
    I (iq.after rs) := by
  induction rs generalizing iq with
  | nil =>
      exact h
  | cons re rs ih =>
      exact ih (hstep iq re h)

@[simp] theorem after_query (iq : IterativeQuery) (rs : List Response) :
    (iq.after rs).query = iq.query :=
  after_invariant (I := fun iq' => iq'.query = iq.query)
    (fun iq' re h => (iq'.doResponse_query re).trans h) rfl rs

/-- All that a response does. -/
inductive Moved (iq : IterativeQuery) (re : Response) :
    IterativeQuery → Prop
  | unknown (htype : re.responseType = .UNKNOWN) :
      Moved iq re { iq with step := .Abort }
  | nack (htype : re.responseType = .NDNS_Nack) :
      Moved iq re { iq with step := iq.nackStep, lastResponse := re }
  | auth (htype : re.responseType = .NDNS_Auth) :
      Moved iq re { iq with rrLabelLen := iq.rrLabelLen + 1 }
  | advance (htype : re.responseType = .NDNS_Resp)
      (hstep : iq.step = .NSQuery) :
      Moved iq re (iq.advance re)
  | final (htype : re.responseType = .NDNS_Resp)
      (hstep : iq.step = .RRQuery) :
      Moved iq re { iq with step := .AnswerStub, lastResponse := re }
  | ignored : Moved iq re iq

theorem moved (iq : IterativeQuery) (re : Response) :
    Moved iq re (iq.doResponse re) := by
  unfold doResponse
  split_ifs with hunknown hnack hauth hresp hns hrr
  · exact Moved.unknown hunknown
  · exact Moved.nack hnack
  · exact Moved.auth hauth
  · exact Moved.advance hresp hns
  · exact Moved.final hresp hrr
  · exact Moved.ignored
  · exact Moved.ignored

section Questions

variable {iq : IterativeQuery}

theorem latestQuery_zone (iq : IterativeQuery) :
    iq.latestQuery.authorityZone =
      iq.query.rrLabel.take iq.finishedLabelNum := by
  unfold latestQuery
  split_ifs <;> exact Name.getPrefix_eq_take _ _

/-- A query for name servers asks about a prefix of the name. -/
theorem asked_of_NSQuery (h : iq.step = .NSQuery) :
    iq.latestQuery.rrType = .NS ∧
      iq.latestQuery.authorityZone ++ iq.latestQuery.rrLabel =
        iq.query.rrLabel.take (iq.finishedLabelNum + iq.rrLabelLen) := by
  rw [iq.latestQuery_of_NSQuery h]
  exact ⟨rfl, List.take_add.symm⟩

/-- The last query asks about the name itself. -/
theorem asked_of_RRQuery (h : iq.step = .RRQuery) :
    iq.latestQuery.rrType = iq.query.rrType ∧
      iq.latestQuery.authorityZone ++ iq.latestQuery.rrLabel =
        iq.query.rrLabel := by
  rw [iq.latestQuery_of_RRQuery h]
  exact ⟨rfl, List.take_append_drop _ _⟩

end Questions

section Answers

variable {iq iq' : IterativeQuery} {re : Response}

/-- What moves a resolution to its end is the answer. -/
theorem Moved.relays
    (h : Moved iq re iq') (hbefore : iq.step ≠ .AnswerStub)
    (hstub : iq'.step = .AnswerStub) :
    iq'.lastResponse = re ∧ Relays iq.query iq.latestQuery re := by
  cases h with
  | unknown htype =>
      cases hstub
  | nack htype =>
      refine ⟨rfl, Or.inr htype, ?_⟩
      have hnack : iq.nackStep = .AnswerStub := hstub
      unfold nackStep at hnack
      split_ifs at hnack with hns ht hrr
      · obtain ⟨hasked, hname⟩ := asked_of_NSQuery hns
        exact Or.inr ⟨ht, htype, hasked, hname ▸ List.take_prefix _ _⟩
      · exact Or.inl (asked_of_RRQuery hrr)
      · exact absurd hnack hbefore
  | auth htype =>
      exact absurd hstub hbefore
  | advance htype hstep =>
      refine ⟨rfl, Or.inl htype, Or.inl ?_⟩
      obtain ⟨hasked, hname⟩ := asked_of_NSQuery hstep
      simp only [IterativeQuery.advance] at hstub
      split_ifs at hstub with hend
      · -- the delegation of the name itself
        refine ⟨hasked.trans hend.1.symm, ?_⟩
        rw [hname, hend.2, List.take_length]
      · exact absurd hstub hbefore
  | final htype hstep =>
      exact ⟨rfl, Or.inl htype, Or.inl (asked_of_RRQuery hstep)⟩
  | ignored =>
      exact absurd hstub hbefore

end Answers

section Zones

variable {iq iq' : IterativeQuery} {re : Response}

/-- The zone changes only with the delegation that was asked for. -/
theorem Moved.zone
    (h : Moved iq re iq')
    (hzone : iq'.latestQuery.authorityZone ≠ iq.latestQuery.authorityZone) :
    re.responseType = .NDNS_Resp ∧ iq.step = .NSQuery ∧
      iq.latestQuery.rrType = .NS ∧
      iq'.latestQuery.authorityZone =
        iq.latestQuery.authorityZone ++ iq.latestQuery.rrLabel := by
  simp only [latestQuery_zone iq, latestQuery_zone iq'] at hzone
  cases h with
  | advance htype hstep =>
      obtain ⟨hasked, hname⟩ := asked_of_NSQuery hstep
      exact ⟨htype, hstep, hasked, (latestQuery_zone _).trans hname.symm⟩
  | unknown htype =>
      exact absurd rfl hzone
  | nack htype =>
      exact absurd rfl hzone
  | auth htype =>
      exact absurd rfl hzone
  | final htype hstep =>
      exact absurd rfl hzone
  | ignored =>
      exact absurd rfl hzone

/-- Name servers are asked for in the beginning only. -/
theorem Moved.step_ne
    (h : Moved iq re iq') (hstep : iq.step ≠ .NSQuery) :
    iq'.step ≠ .NSQuery := by
  cases h with
  | unknown htype =>
      exact QuerySteps.noConfusion
  | nack htype =>
      simp only [nackStep, if_neg hstep]
      split_ifs
      · exact QuerySteps.noConfusion
      · exact hstep
  | auth htype =>
      exact hstep
  | advance htype hns =>
      exact absurd hns hstep
  | final htype hrr =>
      exact QuerySteps.noConfusion
  | ignored =>
      exact hstep

theorem after_step_ne
    (hstep : iq.step ≠ .NSQuery) (rs : List Response) :
    (iq.after rs).step ≠ .NSQuery :=
  after_invariant (I := fun iq => iq.step ≠ .NSQuery)
    (fun iq re h => (moved iq re).step_ne h) hstep rs

end Zones

end IterativeQuery

namespace IterativeQueryWithForwardingHint

variable {P : NameParser}

/-- The state behind responses; `none` behind an error. -/
def after (P : NameParser) (iq : IterativeQueryWithForwardingHint)
    (rs : List Response) : Option IterativeQueryWithForwardingHint :=
  rs.foldlM (doResponse P) iq

/-- All that a response does, if it does not end the resolution by an error. -/
inductive Moved (P : NameParser) (iq : IterativeQueryWithForwardingHint)
    (re : Response) : IterativeQueryWithForwardingHint → Prop
  | unknown (htype : re.responseType = .UNKNOWN) :
      Moved P iq re { iq with step := .Abort }
  | nack (htype : re.responseType = .NDNS_Nack) :
      Moved P iq re { iq with step := iq.nackStep, lastResponse := re }
  | auth (htype : re.responseType = .NDNS_Auth) :
      Moved P iq re { iq with rrLabelLen := iq.rrLabelLen + 1 }
  | delegate (htype : re.responseType = .NDNS_Resp)
      (hstep : iq.step = .NSQuery) :
      Moved P iq re (iq.delegate re)
  | advance (rr : RR) (hint : Name)
      (htype : re.responseType = .NDNS_Resp)
      (hstep : iq.step = .FHQuery)
      (hrr : re.rrs[iq.forwardingHintIndex]? = some rr)
      (hhint : P.ofUri rr.rrData = some hint) :
      Moved P iq re { iq with
        step := .NSQuery
        lastFinishedLabelNum := iq.finishedLabelNum
        lastForwardingHint := iq.forwardingHint
        finishedLabelNum := iq.finishedLabelNum + iq.rrLabelLen
        rrLabelLen := 1
        authZoneIndex := 0
        forwardingHint := hint }
  | final (htype : re.responseType = .NDNS_Resp)
      (hstep : iq.step = .RRQuery) :
      Moved P iq re { iq with step := .AnswerStub, lastResponse := re }
  | ignored : Moved P iq re iq

theorem moved
    {iq iq' : IterativeQueryWithForwardingHint} {re : Response}
    (h : iq.doResponse P re = some iq') :
    Moved P iq re iq' := by
  unfold doResponse at h
  split_ifs at h with hunknown hnack hauth hresp hns hfh hrr
  · obtain rfl := Option.some.inj h
    exact Moved.unknown hunknown
  · obtain rfl := Option.some.inj h
    exact Moved.nack hnack
  · obtain rfl := Option.some.inj h
    exact Moved.auth hauth
  · obtain rfl := Option.some.inj h
    exact Moved.delegate hresp hns
  · simp only [advance, Option.bind_eq_bind, Option.bind_eq_some_iff] at h
    obtain ⟨rr, hrr, hint, hhint, h⟩ := h
    obtain rfl := Option.some.inj h
    exact Moved.advance rr hint hresp hfh hrr hhint
  · obtain rfl := Option.some.inj h
    exact Moved.final hresp hrr
  · obtain rfl := Option.some.inj h
    exact Moved.ignored
  · obtain rfl := Option.some.inj h
    exact Moved.ignored

/-- What every response keeps holds behind all of them. -/
theorem after_invariant
    {I : IterativeQueryWithForwardingHint → Prop}
    (hstep : ∀ iq re iq', I iq → Moved P iq re iq' → I iq')
    {iq iq' : IterativeQueryWithForwardingHint} {rs : List Response}
    (h : I iq) (hafter : iq.after P rs = some iq') :
    I iq' := by
  induction rs generalizing iq with
  | nil =>
      obtain rfl := Option.some.inj hafter
      exact h
  | cons re rs ih =>
      rw [after, List.foldlM_cons, Option.bind_eq_bind,
        Option.bind_eq_some_iff] at hafter
      obtain ⟨iq₁, hmove, hrest⟩ := hafter
      exact ih (hstep iq re iq₁ h (moved hmove)) hrest

variable {iq iq' : IterativeQueryWithForwardingHint} {re : Response}

/-- The original query never changes. -/
theorem Moved.query (h : Moved P iq re iq') : iq'.query = iq.query := by
  cases h <;> rfl

theorem after_query {rs : List Response} (h : iq.after P rs = some iq') :
    iq'.query = iq.query :=
  after_invariant (I := fun x => x.query = iq.query)
    (fun _ _ _ hquery hmove => hmove.query.trans hquery) rfl h

theorem latestQuery_of_NSQuery (h : iq.step = .NSQuery) :
    iq.latestQuery P =
      some (hintedQuestion iq.forwardingHint
        (iq.query.rrLabel.take iq.finishedLabelNum)
        ((iq.query.rrLabel.drop iq.finishedLabelNum).take iq.rrLabelLen)
        .NS) := by
  simp [latestQuery, h, hintedQuestion, question, Name.getPrefix_eq_take,
    Name.getSubName]

theorem latestQuery_of_RRQuery (h : iq.step = .RRQuery) :
    iq.latestQuery P =
      some (hintedQuestion iq.forwardingHint
        (iq.query.rrLabel.take iq.finishedLabelNum)
        (iq.query.rrLabel.drop iq.finishedLabelNum) iq.query.rrType) := by
  simp [latestQuery, h, hintedQuestion, question, Name.getPrefix_eq_take,
    Name.getSubNameFrom]

/-- What moves a resolution to its end is the answer. -/
theorem Moved.relays
    (h : Moved P iq re iq') (hbefore : iq.step ≠ .AnswerStub)
    (hstub : iq'.step = .AnswerStub) :
    iq'.lastResponse = re ∧
      ∃ asked, iq.latestQuery P = some asked ∧
        Relays iq.query asked re := by
  cases h with
  | unknown htype =>
      cases hstub
  | nack htype =>
      refine ⟨rfl, ?_⟩
      have hnack : iq.nackStep = .AnswerStub := hstub
      unfold nackStep at hnack
      split_ifs at hnack with hns ht hrr
      · refine ⟨_, latestQuery_of_NSQuery hns, Or.inr htype,
          Or.inr ⟨ht, htype, rfl, ?_⟩⟩
        exact List.take_add ▸ List.take_prefix _ _
      · exact ⟨_, latestQuery_of_RRQuery hrr, Or.inr htype,
          Or.inl ⟨rfl, List.take_append_drop _ _⟩⟩
      · exact absurd hnack hbefore
  | auth htype =>
      exact absurd hstub hbefore
  | delegate htype hstep =>
      refine ⟨rfl, _, latestQuery_of_NSQuery hstep, Or.inl htype,
        Or.inl ?_⟩
      simp only [IterativeQueryWithForwardingHint.delegate] at hstub
      split_ifs at hstub with hend
      -- the label that was asked is empty
      refine ⟨hend.1.symm, ?_⟩
      show iq.query.rrLabel.take _ ++ (iq.query.rrLabel.drop _).take _ = _
      rw [hend.2, List.take_length, List.drop_length, List.take_nil,
        List.append_nil]
  | advance rr hint htype hstep hrr hhint =>
      cases hstub
  | final htype hstep =>
      exact ⟨rfl, _, latestQuery_of_RRQuery hstep, Or.inl htype,
        Or.inl ⟨rfl, List.take_append_drop _ _⟩⟩
  | ignored =>
      exact absurd hstub hbefore

end IterativeQueryWithForwardingHint

section Runs

/-- Only answers to the question of the stub are relayed, whatever is replied. -/
theorem answerStub_relays :
    (∀ (query : Query) (rs : List Response) (re : Response),
      ((IterativeQuery.init query).after rs).step ≠ .AnswerStub →
      (((IterativeQuery.init query).after rs).doResponse re).step =
        .AnswerStub →
      (((IterativeQuery.init query).after rs).doResponse re).lastResponse =
          re ∧
        Relays query ((IterativeQuery.init query).after rs).latestQuery
          re) ∧
    (∀ (P : NameParser) (query : Query) (rootHint : Name)
      (rs : List Response) (re : Response)
      (iq iq' : IterativeQueryWithForwardingHint),
      (IterativeQueryWithForwardingHint.init query rootHint).after P rs =
        some iq →
      iq.step ≠ .AnswerStub →
      iq.doResponse P re = some iq' →
      iq'.step = .AnswerStub →
      iq'.lastResponse = re ∧
        ∃ asked, iq.latestQuery P = some asked ∧
          Relays query asked re) := by
  constructor
  · intro query rs re hbefore hstub
    have h := (IterativeQuery.moved _ re).relays hbefore hstub
    rw [IterativeQuery.after_query] at h
    exact h
  · intro P query rootHint rs re iq iq' hafter hbefore hmove hstub
    have h := (IterativeQueryWithForwardingHint.moved hmove).relays hbefore
      hstub
    rw [IterativeQueryWithForwardingHint.after_query hafter] at h
    exact h

def nackReply : Response :=
  { Response.init with responseType := .NDNS_Nack }

def hostQuery : Query :=
  question [] [ascii "net", ascii "www"] .TXT

theorem answerStub_relays_nacks :
    Relays hostQuery (question [] [ascii "net", ascii "www"] .TXT)
        nackReply ∧
      ∃ asked, IterativeQueryWithForwardingHint.latestQuery uriParser
          { IterativeQueryWithForwardingHint.init hostQuery [ascii "isp"]
            with step := .RRQuery, lastResponse := nackReply } =
            some asked ∧
        Relays hostQuery asked nackReply :=
  ⟨(answerStub_relays.1 hostQuery [nackReply] nackReply (by decide)
      (by decide)).2,
    (answerStub_relays.2 uriParser hostQuery [ascii "isp"] [nackReply]
      nackReply _ _ rfl (by decide) rfl (by decide)).2⟩

/-- The names that are asked about lie on the way to the name, and the zones
follow the delegations that were confirmed. -/
theorem follows_confirmed (query : Query) (rs : List Response) :
    let iq := (IterativeQuery.init query).after rs
    let asked := iq.latestQuery
    (iq.step = .NSQuery ∨ iq.step = .RRQuery →
      asked.authorityZone ++ asked.rrLabel <+: query.rrLabel) ∧
    (iq.step = .RRQuery →
      asked.authorityZone ++ asked.rrLabel = query.rrLabel) ∧
    (∀ re, (iq.doResponse re).latestQuery.authorityZone ≠
        asked.authorityZone →
      re.responseType = .NDNS_Resp ∧ iq.step = .NSQuery ∧
        asked.rrType = .NS ∧
        (iq.doResponse re).latestQuery.authorityZone =
          asked.authorityZone ++ asked.rrLabel) ∧
    (iq.step ≠ .NSQuery →
      ∀ rs', (iq.after rs').step ≠ .NSQuery) := by
  intro iq asked
  have hquery : iq.query = query := IterativeQuery.after_query _ rs
  have hrr (h : iq.step = .RRQuery) :
      asked.authorityZone ++ asked.rrLabel = query.rrLabel :=
    hquery ▸ (IterativeQuery.asked_of_RRQuery h).2
  refine ⟨?_, hrr, fun re => (IterativeQuery.moved iq re).zone,
    IterativeQuery.after_step_ne⟩
  rintro (h | h)
  · have hname := (IterativeQuery.asked_of_NSQuery h).2
    rw [hquery] at hname
    exact hname ▸ List.take_prefix _ _
  · exact hrr h ▸ List.prefix_rfl

def delegation : Response :=
  Response.init.addRr { RR.init with rrData := ascii "/ns1" }

theorem follows_confirmed_delegation :
    ((IterativeQuery.init hostQuery).after [delegation,
        nackReply]).latestQuery.authorityZone ++
      ((IterativeQuery.init hostQuery).after [delegation,
        nackReply]).latestQuery.rrLabel = hostQuery.rrLabel :=
  (follows_confirmed hostQuery [delegation, nackReply]).2.1 (by decide)

end Runs

end Ndns

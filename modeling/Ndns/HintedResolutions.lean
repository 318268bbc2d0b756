import Ndns.HintAgreement
import Ndns.PlainResolutions

/-!
# Resolutions with forwarding hints on a network

`NameCachingResolver<IterativeQueryWithForwardingHint>` on a network of name
servers.  Its states follow those of the plain strategy, one reply behind while an
FH query is pending, with two exceptions: a name server without a hint ends the
resolution, and one for the NS records of a delegated name goes on beyond the
delegation, where nobody answers.

**Results.**
* `exchange_nsQuery`, `exchange_rrQuery`, `exchange_fhQuery`: what one reply does;
* `hintedStrategy_sound`, `hintedStrategy_settles`: what the strategy promises;
* `Resolved.step_ne`: which question it never answers.
-/

namespace Ndns

/-- The names of name servers and hints that records give are plain. -/
def World.PlainRecords (P : NameParser) (W : World) : Prop :=
  ∀ zone s, W zone = some s → ∀ x ∈ s, x.type = .NS ∨ x.type = .FH →
    ∃ n, P.ofUri x.record.rrData = some n ∧ n.Plain

/-- The hint that a zone has: the one of the root is given, any other comes from
the FH records that the parent has for the first name server of the zone. -/
def World.HintOf
    (P : NameParser) (W : World) (rootHint zone hint : Name) : Prop :=
  (zone = [] ∧ hint = rootHint) ∨
    ∃ parent label r name s r', zone = parent ++ label ∧
      (W.nsRecords parent label).head? = some r ∧
      P.ofUri r.rrData = some name ∧ W parent = some s ∧
      (s.lookup name .FH).head? = some r' ∧ P.ofUri r'.rrData = some hint

section Records

variable {P : NameParser} {W : World} {zone label : Name} {type : RRType}
variable {s : Store} {re : Response}

/-- The first record of an answer. -/
theorem World.PlainRecords.exists_head
    (h : W.PlainRecords P) (hs : W zone = some s)
    (htype : type = .NS ∨ type = .FH)
    (hcarried : (s.answer label type).CarriedBy re)
    (hre : re.responseType = .NDNS_Resp) :
    ∃ rr r n, re.rrs[0]? = some rr ∧ rr.rrData = r.rrData ∧
      (s.lookup label type).head? = some r ∧
      P.ofUri r.rrData = some n ∧ n.Plain := by
  have hresp : (s.answer label type).responseType = .NDNS_Resp :=
    hcarried.responseType_eq.symm.trans hre
  have hfound := (s.answer_resp_iff _ _).mp hresp
  obtain ⟨r, rs, hr⟩ := List.exists_cons_of_ne_nil hfound
  have hrrs := hcarried.rrs_eq
  rw [s.answer_rrs, hr] at hrrs
  obtain ⟨rr, rrs, hrr, hrecord, -⟩ := List.map_eq_cons_iff.mp hrrs
  have hmem : r ∈ s.lookup label type := by
    rw [hr]
    exact List.mem_cons_self
  obtain ⟨x, hx, rfl⟩ := List.mem_map.mp hmem
  obtain ⟨hx, hkey⟩ := List.mem_filter.mp hx
  obtain ⟨n, hn, hplain⟩ := h zone s hs x hx (by
    rw [decide_eq_true_eq] at hkey
    exact hkey.2 ▸ htype)
  refine ⟨rr, x.record, n, by rw [hrr]; rfl, ?_, by rw [hr]; rfl, hn, hplain⟩
  rw [← hrecord]

end Records

theorem plain_hintedQuestion
    {hint zone label : Name} {type : RRType} (hhint : hint.Plain)
    (hzone : zone.Plain) (hlabel : label.Plain)
    (ht : type.isQueried = true) :
    (hintedQuestion hint zone label type).Plain :=
  ⟨hhint, hzone, hlabel, rfl, ht⟩

section Follows

variable {t : IterativeQueryWithForwardingHint} {iq : IterativeQuery}

theorem Follows.query_eq (h : Follows t iq) : iq.query = t.query := by
  cases h with
  | level _ _ hquery => exact hquery
  | behind _ _ hquery => exact hquery

theorem Follows.of_NSQuery
    (h : Follows t iq) (hstep : t.step = .NSQuery) :
    iq.step = .NSQuery ∧ iq.finishedLabelNum = t.finishedLabelNum ∧
      iq.rrLabelLen = t.rrLabelLen := by
  cases h with
  | level _ hstep' _ hfin hlen => exact ⟨hstep'.trans hstep, hfin, hlen⟩
  | behind hstep' => exact absurd (hstep.symm.trans hstep') (by decide)

theorem Follows.step_eq
    (h : Follows t iq) (hne : t.step ≠ .FHQuery) : iq.step = t.step := by
  cases h with
  | level _ hstep => exact hstep
  | behind hstep => exact absurd hstep hne

/-- Level with the plain strategy, the same is asked. -/
theorem Follows.latestQuery_of_NSQuery
    (h : Follows t iq) (hstep : t.step = .NSQuery) :
    iq.step = .NSQuery ∧ iq.latestQuery =
      question t.zone (t.rest.take t.rrLabelLen) .NS := by
  obtain ⟨hstep', hfin, hlen⟩ := h.of_NSQuery hstep
  refine ⟨hstep', ?_⟩
  rw [iq.latestQuery_of_NSQuery hstep', h.query_eq, hfin, hlen]
  rfl

theorem Follows.latestQuery_of_RRQuery
    (h : Follows t iq) (hstep : t.step = .RRQuery) :
    iq.step = .RRQuery ∧ iq.latestQuery =
      question t.zone t.rest t.query.rrType := by
  cases h with
  | level _ hstep' hquery hfin =>
      refine ⟨hstep'.trans hstep, ?_⟩
      rw [iq.latestQuery_of_RRQuery (hstep'.trans hstep), hquery, hfin]
      rfl
  | behind hstep' => exact absurd (hstep.symm.trans hstep') (by decide)

/-- NS records are answered for a delegation only. -/
theorem IterativeQuery.Resolution.exists_delegatesTo
    {P : NameParser} {W : World} {stub : Query} {qs : List Query}
    (h : Resolution P W stub qs iq) (hstep : iq.step = .AnswerStub)
    (hT : stub.rrType = .NS)
    (hre : iq.lastResponse.responseType = .NDNS_Resp) :
    ∃ zone label, W.DelegatesTo stub.rrLabel zone label := by
  cases h.progress with
  | nsQuery hns => exact absurd (hns.symm.trans hstep) (by decide)
  | rrQuery hrr => exact absurd (hrr.symm.trans hstep) (by decide)
  | answerStub _ hright =>
      rw [World.RightAnswer, if_pos hT] at hright
      rcases hright with ⟨zone, label, hdelegates, -⟩ | ⟨-, hnack⟩
      · exact ⟨zone, label, hdelegates⟩
      · exact absurd (hre.symm.trans hnack) (by decide)

end Follows

namespace IterativeQueryWithForwardingHint

/-- What is known of the hints in a state. -/
structure Hints (P : NameParser) (W : World) (rootHint : Name)
    (t : IterativeQueryWithForwardingHint) : Prop where
  plain : t.forwardingHint.Plain
  hintOf : W.HintOf P rootHint t.zone t.forwardingHint
  authZoneIndex : t.authZoneIndex = 0
  forwardingHintIndex : t.forwardingHintIndex = 0
  /-- The name server that is asked about is the first of a delegation. -/
  server : t.step = .FHQuery → ∃ r name,
    (W.nsRecords t.zone (t.rest.take t.rrLabelLen)).head? = some r ∧
      P.ofUri r.rrData = some name ∧ name.Plain ∧
      t.serverName P = some name

variable {P : NameParser} {W : World} {rootHint : Name}
variable {t t' : IterativeQueryWithForwardingHint} {re : Response}

theorem latestQuery_of_ask
    {step : QuerySteps} {q : Query}
    (h : (hintedResolver P).ask (some t) = some (step, q)) :
    t.latestQuery P = some q := by
  obtain ⟨q', hq', hpair⟩ := Option.map_eq_some_iff.mp h
  rw [hq', (Prod.mk.inj hpair).2]

/-- A reply in the zone keeps what is known. -/
theorem Hints.moved
    {s : Store} (h : t.Hints P W rootHint) (hrecords : W.PlainRecords P)
    (hne : t.step ≠ .FHQuery) (hs : W t.zone = some s)
    (hcarried : t.step = .NSQuery →
      (s.answer (t.rest.take t.rrLabelLen) .NS).CarriedBy re)
    (hmoved : Moved P t re t') : t'.Hints P W rootHint := by
  obtain ⟨hplain, hhint, hauth, hindex, -⟩ := h
  cases hmoved with
  | unknown => exact ⟨hplain, hhint, hauth, hindex, by simp⟩
  | nack =>
      have hnext : t.nackStep ≠ .FHQuery := by
        unfold nackStep
        split_ifs <;> simp [hne]
      exact ⟨hplain, hhint, hauth, hindex, fun hstep => absurd hstep hnext⟩
  | auth =>
      exact ⟨hplain, hhint, hauth, hindex, fun hstep => absurd hstep hne⟩
  | delegate hre hstep =>
      refine ⟨hplain, hhint, hauth, hindex, fun _ => ?_⟩
      obtain ⟨rr, r, n, hrr, hdata, hr, hn, hname⟩ :=
        hrecords.exists_head hs (Or.inl rfl) (hcarried hstep) hre
      refine ⟨r, n, ?_, hn, hname, ?_⟩
      · show (W.nsRecords t.zone _).head? = some r
        rw [nsRecords_eq hs]
        exact hr
      · show ((re.rrs[t.authZoneIndex]?).bind
          (fun rr => P.ofUri rr.rrData)) = some n
        rw [hauth, hrr, Option.bind_some, hdata, hn]
  | advance _ _ _ hstep => exact absurd hstep hne
  | final => exact ⟨hplain, hhint, hauth, hindex, by simp⟩
  | ignored =>
      exact ⟨hplain, hhint, hauth, hindex, fun hstep => absurd hstep hne⟩

/-- The reply of the zone to the query for the hint. -/
theorem Hints.exchange_fhQuery
    {s : Store} {name : Name} {r : Record} (h : t.Hints P W rootHint)
    (hrecords : W.PlainRecords P) (hstep : t.step = .FHQuery)
    (hr : (W.nsRecords t.zone (t.rest.take t.rrLabelLen)).head? = some r)
    (hname : P.ofUri r.rrData = some name) (hs : W t.zone = some s)
    (hcarried : (s.answer name .FH).CarriedBy re) :
    ∃ t', t.doResponse P re = some t' ∧ t'.query = t.query ∧
      (t'.step = .Abort ∧ s.lookup name .FH = [] ∨
        t'.Hints P W rootHint ∧ t'.step = .NSQuery ∧ t'.rrLabelLen = 1 ∧
          t'.finishedLabelNum = t.finishedLabelNum + t.rrLabelLen) := by
  rcases s.answer_responseType name .FH with hre | hre | hre
  · rw [← hcarried.responseType_eq] at hre
    obtain ⟨rr, r', hint, hrr, hdata, hr', hhint, hplain⟩ :=
      hrecords.exists_head hs (Or.inr rfl) hcarried hre
    have hdo : t.doResponse P re = some { t with
        step := .NSQuery
        lastFinishedLabelNum := t.finishedLabelNum
        lastForwardingHint := t.forwardingHint
        finishedLabelNum := t.finishedLabelNum + t.rrLabelLen
        rrLabelLen := 1
        authZoneIndex := 0
        forwardingHint := hint } := by
      rw [t.doResponse_resp P re hre, if_neg (by simp [hstep]), if_pos hstep]
      simp only [advance, h.forwardingHintIndex, hrr, hdata, hhint,
        Option.bind_eq_bind, Option.bind_some]
      rfl
    refine ⟨_, hdo, rfl, Or.inr ⟨⟨hplain, Or.inr ?_, rfl,
      h.forwardingHintIndex, by simp⟩, rfl, rfl, rfl⟩⟩
    exact ⟨_, _, r, name, s, r', List.take_add, hr, hname, hs, hr', hhint⟩
  · exact absurd ((s.answer_auth_iff _ _).mp hre).2.1 (by decide)
  · have hnone := ((s.answer_nack_iff _ _).mp hre).1
    rw [← hcarried.responseType_eq] at hre
    rw [t.doResponse_nack P re hre]
    exact ⟨_, rfl, rfl, Or.inl ⟨by simp [nackStep, hstep], hnone⟩⟩

/-- A resolution of the stub's question that has had so many replies: it follows
a plain one, or it is lost. -/
inductive Resolved
    (P : NameParser) (W : World) (rootHint : Name) (stub : Query) (n : Nat)
    (t : IterativeQueryWithForwardingHint) : Prop where
  | follows {qs : List Query} {iq : IterativeQuery}
      (resolution : IterativeQuery.Resolution P W stub qs iq)
      (follows : Follows t iq)
      (hints : t.Hints P W rootHint)
      (count : n + (if t.step = .FHQuery then 1 else 0) ≤ 2 * qs.length)
      (denied : t.step = .AnswerStub → stub.rrType = .NS →
        t.lastResponse.responseType = .NDNS_Nack)
  | beyond
      (query_eq : t.query = stub)
      (type_eq : stub.rrType = .NS)
      (delegated : ∃ zone label, W.DelegatesTo stub.rrLabel zone label)
      (hints : t.Hints P W rootHint)
      (step : t.step = .FHQuery ∧
          t.finishedLabelNum + t.rrLabelLen = stub.rrLabel.length ∨
        t.step = .NSQuery ∧ t.finishedLabelNum = stub.rrLabel.length)
  | abort
      (query_eq : t.query = stub)
      (step : t.step = .Abort)
      (unhinted : ¬ W.Hinted P)

section Exchanges

variable {stub : Query} {n : Nat} {qs : List Query} {iq : IterativeQuery}

theorem Resolved.query_eq
    (h : Resolved P W rootHint stub n t) : t.query = stub := by
  cases h with
  | follows hresolution hfollows =>
      exact hfollows.query_eq.symm.trans hresolution.query_eq
  | beyond hquery => exact hquery
  | abort hquery => exact hquery

/-- A reply to a question for a delegation. -/
theorem exchange_nsQuery
    (hrecords : W.PlainRecords P) (hplain : stub.Plain)
    (hresolution : IterativeQuery.Resolution P W stub qs iq)
    (hfollows : Follows t iq) (hhints : t.Hints P W rootHint)
    (hcount : n ≤ 2 * qs.length) (hstep : t.step = .NSQuery)
    (hne : t.rest.take t.rrLabelLen ≠ [])
    (hreply : W.Replies P (hintedQuestion t.forwardingHint t.zone
      (t.rest.take t.rrLabelLen) .NS) re) :
    ∃ t', t.doResponse P re = some t' ∧
      Resolved P W rootHint stub (n + 1) t' := by
  have hquery := hfollows.query_eq.symm.trans hresolution.query_eq
  obtain ⟨-, hfin, hlen⟩ := hfollows.of_NSQuery hstep
  obtain ⟨hstep', hasked⟩ := hfollows.latestQuery_of_NSQuery hstep
  have hq := IterativeQuery.plain_latestQuery hplain hresolution.query_eq
    (Or.inl hstep')
  rw [hasked] at hq
  obtain ⟨s, hs, hcarried⟩ := (World.replies_iff_of_plain
    (plain_hintedQuestion hhints.plain hq.zone hq.label rfl) hne).mp hreply
  have hnext : IterativeQuery.Resolution P W stub (qs ++ [iq.latestQuery])
      (iq.doResponse re) := by
    refine hresolution.exchange (IterativeQuery.readable_of_plain hplain
      hresolution.query_eq (Or.inl hstep') (by rw [hasked]; exact hne))
      (IterativeQuery.ask_of_step (Or.inl hstep')) ?_
    rw [hasked]
    exact (World.replies_iff_of_plain hq hne).mpr ⟨s, hs, hcarried⟩
  have hmoved {t'} (ht' : t.doResponse P re = some t') :
      t'.Hints P W rootHint :=
    hhints.moved hrecords (by simp [hstep]) hs (fun _ => hcarried)
      (moved ht')
  have hlt : t.finishedLabelNum < stub.rrLabel.length := by
    by_contra hle
    rw [rest, hquery, List.drop_eq_nil_of_le (not_lt.mp hle),
      List.take_nil] at hne
    exact hne rfl
  by_cases hlast : stub.rrType = .NS ∧ re.responseType = .NDNS_Resp ∧
      t.finishedLabelNum + t.rrLabelLen = stub.rrLabel.length
  · -- the plain strategy answers here
    obtain ⟨hT, hre, hsize⟩ := hlast
    have hdo : t.doResponse P re = some (t.delegate re) := by
      rw [t.doResponse_resp P re hre, if_pos hstep]
    refine ⟨_, hdo, .beyond hquery hT ?_ (hmoved hdo) (Or.inl ⟨?_, hsize⟩)⟩
    · refine hnext.exists_delegatesTo ?_ hT ?_
      · rw [iq.doResponse_resp re hre, if_pos hstep']
        simp [IterativeQuery.advance, hresolution.query_eq, hT, hfin, hlen,
          hsize]
      · rw [iq.doResponse_resp re hre, if_pos hstep']
        exact hre
    · simp only [delegate]
      rw [if_neg]
      rintro ⟨-, hend⟩
      rw [hquery] at hend
      omega
  · obtain ⟨t', ht', hfollows', hfh, -⟩ := hfollows.nsQuery (P := P) hstep rfl
      hreply.responseType (fun _ => SameAnswer.refl _) (by
        intro hT hre
        rw [hquery] at hT ⊢
        exact ⟨hlt.ne, fun hsize => hlast ⟨hT, hre, hsize⟩⟩)
    refine ⟨t', ht', .follows hnext hfollows' (hmoved ht') ?_ ?_⟩
    · rw [List.length_append, List.length_singleton]
      split_ifs <;> omega
    · intro hstub _
      rcases hreply.responseType with hre | hre | hre
      · exact absurd ((hfh hre).symm.trans hstub) (by decide)
      · rw [t.doResponse_auth P re hre, Option.some.injEq] at ht'
        subst ht'
        exact absurd (hstep.symm.trans hstub) (by decide)
      · rw [t.doResponse_nack P re hre, Option.some.injEq] at ht'
        subst ht'
        exact hre

/-- A reply to a question for the records. -/
theorem exchange_rrQuery
    (hrecords : W.PlainRecords P) (hplain : stub.Plain)
    (hresolution : IterativeQuery.Resolution P W stub qs iq)
    (hfollows : Follows t iq) (hhints : t.Hints P W rootHint)
    (hcount : n ≤ 2 * qs.length) (hstep : t.step = .RRQuery)
    (hne : t.rest ≠ [])
    (hreply : W.Replies P (hintedQuestion t.forwardingHint t.zone t.rest
      t.query.rrType) re) :
    ∃ t', t.doResponse P re = some t' ∧
      Resolved P W rootHint stub (n + 1) t' := by
  obtain ⟨hstep', hasked⟩ := hfollows.latestQuery_of_RRQuery hstep
  have hq := IterativeQuery.plain_latestQuery hplain hresolution.query_eq
    (Or.inr hstep')
  rw [hasked] at hq
  obtain ⟨s, hs, hcarried⟩ := (World.replies_iff_of_plain
    (plain_hintedQuestion hhints.plain hq.zone hq.label hq.rrType)
      hne).mp hreply
  have hnext : IterativeQuery.Resolution P W stub (qs ++ [iq.latestQuery])
      (iq.doResponse re) := by
    refine hresolution.exchange (IterativeQuery.readable_of_plain hplain
      hresolution.query_eq (Or.inr hstep') (by rw [hasked]; exact hne))
      (IterativeQuery.ask_of_step (Or.inr hstep')) ?_
    rw [hasked]
    exact (World.replies_iff_of_plain hq hne).mpr ⟨s, hs, hcarried⟩
  obtain ⟨t', ht', hfollows', hnfh⟩ :=
    hfollows.rrQuery (P := P) hstep hreply.responseType
  have hhints' : t'.Hints P W rootHint := by
    refine hhints.moved hrecords (by simp [hstep]) hs (fun hns => ?_)
      (moved ht')
    exact absurd (hstep.symm.trans hns) (by decide)
  refine ⟨t', ht', .follows hnext hfollows' hhints' ?_ ?_⟩
  · rw [List.length_append, List.length_singleton, if_neg hnfh]
    omega
  · intro _ hT
    cases hresolution.progress with
    | nsQuery hns => exact absurd (hns.symm.trans hstep') (by decide)
    | rrQuery _ _ hne => exact absurd hT hne
    | answerStub hstub => exact absurd (hstub.symm.trans hstep') (by decide)

/-- A reply to the query for the hint. -/
theorem exchange_fhQuery
    {s : Store} {name : Name} {r : Record}
    (hrecords : W.PlainRecords P) (h : Resolved P W rootHint stub n t)
    (hhints : t.Hints P W rootHint) (hstep : t.step = .FHQuery)
    (hr : (W.nsRecords t.zone (t.rest.take t.rrLabelLen)).head? = some r)
    (hname : P.ofUri r.rrData = some name) (hs : W t.zone = some s)
    (hcarried : (s.answer name .FH).CarriedBy re) :
    ∃ t', t.doResponse P re = some t' ∧
      Resolved P W rootHint stub (n + 1) t' := by
  obtain ⟨t', ht', hquery, ⟨habort, hnone⟩ | ⟨hhints', hns, hlen, hfin⟩⟩ :=
    hhints.exchange_fhQuery hrecords hstep hr hname hs hcarried
  · refine ⟨t', ht', .abort (hquery.trans h.query_eq) habort ?_⟩
    intro hhinted
    obtain ⟨name', s', hname', hs', hsome⟩ := hhinted _ _ r hr
    obtain rfl := Option.some.inj (hname.symm.trans hname')
    obtain rfl := Option.some.inj (hs.symm.trans hs')
    exact hsome hnone
  · refine ⟨t', ht', ?_⟩
    cases h with
    | follows hresolution hfollows _ hcount =>
        rw [if_pos hstep] at hcount
        refine .follows hresolution ?_ hhints' (by simp [hns, hcount])
          (by simp [hns])
        cases hfollows with
        | level hne => exact absurd hstep hne
        | behind _ hstep' hquery' hfin' hlen' =>
            exact .level (by simp [hns]) (hstep'.trans hns.symm)
              (hquery'.trans hquery.symm) (hfin'.trans hfin.symm)
              (hlen'.trans hlen.symm) (by simp [hns])
    | beyond hquery' hT hdelegated _ hend =>
        refine .beyond (hquery.trans hquery') hT hdelegated hhints'
          (Or.inr ⟨hns, ?_⟩)
        rcases hend with ⟨-, hend⟩ | ⟨hns', -⟩
        · exact hfin.trans hend
        · exact absurd (hstep.symm.trans hns') (by decide)
    | abort _ habort =>
        exact absurd (hstep.symm.trans habort) (by decide)

theorem Resolved.hints
    (h : Resolved P W rootHint stub n t) (hne : t.step ≠ .Abort) :
    t.Hints P W rootHint := by
  cases h with
  | follows _ _ hhints => exact hhints
  | beyond _ _ _ hhints => exact hhints
  | abort _ habort => exact absurd habort hne

/-- What is asked in a state, and what a reply to it does. -/
theorem Resolved.exchange
    (hrecords : W.PlainRecords P) (hplain : stub.Plain)
    (h : Resolved P W rootHint stub n t) (hresolves : t.step.resolves = true) :
    ∃ q, q.Plain ∧ t.latestQuery P = some q ∧
      ∀ re, q.rrLabel ≠ [] → W.Replies P q re →
        ∃ t', t.doResponse P re = some t' ∧
          Resolved P W rootHint stub (n + 1) t' := by
  have hquery := h.query_eq
  have hhints : t.Hints P W rootHint := by
    refine h.hints (fun habort => ?_)
    rw [habort] at hresolves
    exact absurd hresolves (by decide)
  have hzone : t.zone.Plain := by
    rw [zone, hquery]
    exact hplain.label.subset (List.take_subset _ _)
  have hrest : t.rest.Plain := by
    rw [rest, hquery]
    exact hplain.label.subset (List.drop_subset _ _)
  cases hstep : t.step with
  | NSQuery =>
      refine ⟨_, plain_hintedQuestion hhints.plain hzone
        (hrest.subset (List.take_subset _ _)) rfl,
        latestQuery_of_ask (t.ask_of_NSQuery P hstep), ?_⟩
      intro re hne hreply
      cases h with
      | follows hresolution hfollows _ hcount =>
          exact exchange_nsQuery hrecords hplain hresolution hfollows hhints
            (by simpa [hstep] using hcount) hstep hne hreply
      | beyond _ _ _ _ hend =>
          -- there is no label left to ask for
          rcases hend with ⟨hfh, -⟩ | ⟨-, hend⟩
          · exact absurd (hstep.symm.trans hfh) (by decide)
          · refine absurd ?_ hne
            show t.rest.take t.rrLabelLen = []
            rw [rest, hquery, List.drop_eq_nil_of_le hend.ge, List.take_nil]
      | abort _ habort =>
          exact absurd (hstep.symm.trans habort) (by decide)
  | RRQuery =>
      refine ⟨_, plain_hintedQuestion hhints.plain hzone hrest
        (hquery ▸ hplain.rrType),
        latestQuery_of_ask (t.ask_of_RRQuery P hstep), ?_⟩
      intro re hne hreply
      cases h with
      | follows hresolution hfollows _ hcount =>
          exact exchange_rrQuery hrecords hplain hresolution hfollows hhints
            (by simpa [hstep] using hcount) hstep hne hreply
      | beyond _ _ _ _ hend =>
          rcases hend with ⟨hfh, -⟩ | ⟨hns, -⟩
          · exact absurd (hstep.symm.trans hfh) (by decide)
          · exact absurd (hstep.symm.trans hns) (by decide)
      | abort _ habort =>
          exact absurd (hstep.symm.trans habort) (by decide)
  | FHQuery =>
      obtain ⟨r, name, hr, hname, hserver, hask⟩ := hhints.server hstep
      have hq : (hintedQuestion t.forwardingHint t.zone name .FH).Plain :=
        plain_hintedQuestion hhints.plain hzone hserver rfl
      refine ⟨_, hq, latestQuery_of_ask ((t.ask_of_FHQuery P hstep).trans
        (by rw [hask]; rfl)), ?_⟩
      intro re hne hreply
      obtain ⟨s, hs, hcarried⟩ :=
        (World.replies_iff_of_plain hq hne).mp hreply
      exact exchange_fhQuery hrecords h hhints hstep hr hname hs hcarried
  | _ =>
      rw [hstep] at hresolves
      exact absurd hresolves (by decide)

end Exchanges

end IterativeQueryWithForwardingHint

section Strategy

open IterativeQueryWithForwardingHint

variable {P : NameParser} {W : World} {rootHint : Name}

theorem hintedStrategy_sound
    (hrecords : W.PlainRecords P) (hroot : rootHint.Plain) :
    (hintedStrategy P rootHint).Sound P W (Resolved P W rootHint) where
  answers := NameCachingResolver.answersWithLast_hinted P rootHint
  getQuery h := h.query_eq
  init {stub} _ := ⟨rfl, .follows Dialogue.Run.start
    (follows_init stub rootHint)
    ⟨hroot, Or.inl ⟨rfl, rfl⟩, rfl, rfl, nofun⟩ le_rfl nofun⟩
  exchange := by
    rintro stub n t hplain hresolved hresolves
    obtain ⟨q, hq, hlatest, htell⟩ :=
      hresolved.exchange hrecords hplain hresolves
    refine ⟨q, hq, ?_, ?_⟩
    · exact (Option.map_eq_some_iff.mpr ⟨q, hlatest, rfl⟩)
    · intro data re hne hread hreply
      obtain ⟨t', ht', hresolved'⟩ := htell re hne hreply
      exact ⟨t', by
        simpa [hintedStrategy, doData, hread] using ht', hresolved'⟩
  right := by
    rintro stub n t hresolved hstub
    cases hresolved with
    | follows hresolution hfollows =>
        cases hfollows with
        | level _ hstep _ _ _ hanswer =>
            have hright := (plainStrategy_sound P W).right
              ⟨_, hresolution, rfl⟩ (hstep.trans hstub)
            have hsame := hanswer hstub
            exact hright.congr hsame.responseType_eq hsame.rrs_eq
        | behind hstep => exact absurd (hstep.symm.trans hstub) (by decide)
    | beyond _ _ _ _ hend =>
        rcases hend with ⟨hstep, -⟩ | ⟨hstep, -⟩
        · exact absurd (hstep.symm.trans hstub) (by decide)
        · exact absurd (hstep.symm.trans hstub) (by decide)
    | abort _ hstep => exact absurd (hstep.symm.trans hstub) (by decide)

/-- The first name server of every delegation has a name below the zone and FH
records there. -/
def World.ServersHinted (P : NameParser) (W : World) : Prop :=
  ∀ zone label r, (W.nsRecords zone label).head? = some r →
    ∃ name s, P.ofUri r.rrData = some name ∧ name ≠ [] ∧
      W zone = some s ∧ s.lookup name .FH ≠ []

theorem World.ServersHinted.hinted (h : W.ServersHinted P) : W.Hinted P := by
  intro zone label r hr
  obtain ⟨name, s, hname, -, hs, hsome⟩ := h zone label r hr
  exact ⟨name, s, hname, hs, hsome⟩

/-- The questions about a name, with the hints of the zones. -/
def HintedAbout
    (P : NameParser) (W : World) (rootHint : Name) (stub q : Query) : Prop :=
  ∃ hint zone label type, q = hintedQuestion hint zone label type ∧
    W.HintOf P rootHint zone hint ∧ zone <+: stub.rrLabel ∧
    (zone ++ label <+: stub.rrLabel ∧ type ∈ [RRType.NS, stub.rrType] ∨
      type = .FH ∧ ∃ l r, (W.nsRecords zone l).head? = some r ∧
        P.ofUri r.rrData = some label)

variable {stub : Query} {n : Nat} {qs : List Query} {iq : IterativeQuery}
variable {t : IterativeQueryWithForwardingHint}

/-- Where every name server has a hint, no resolution is lost. -/
theorem IterativeQueryWithForwardingHint.Resolved.exists_follows
    (h : Resolved P W rootHint stub n t) (hhinted : W.ServersHinted P)
    (hinside : stub.rrType = .NS →
      ¬ ∃ zone label, W.DelegatesTo stub.rrLabel zone label) :
    ∃ qs iq, IterativeQuery.Resolution P W stub qs iq ∧ Follows t iq ∧
      t.Hints P W rootHint ∧ n ≤ 2 * qs.length := by
  cases h with
  | follows hresolution hfollows hhints hcount =>
      exact ⟨_, _, hresolution, hfollows, hhints, by omega⟩
  | beyond _ hT hdelegated => exact absurd hdelegated (hinside hT)
  | abort _ _ hunhinted => exact absurd hhinted.hinted hunhinted

/-- A hint changes no answer. -/
theorem answer_hintedQuestion_ne_none
    {hint zone label : Name} {type : RRType}
    (hplain : (question zone label type).Plain)
    (h : W.answer P (question zone label type) ≠ none) :
    W.answer P (hintedQuestion hint zone label type) ≠ none := by
  obtain ⟨hne, -⟩ := World.label_ne_nil_of_answer hplain h
  rwa [W.answer_hinted P hint zone (show type.isQueried = true from
    hplain.rrType) (show label ≠ [] from hne)]

/-- A state that follows a plain resolution is over or asks what is answered. -/
theorem IterativeQuery.Resolution.ask_of_follows
    (hresolution : IterativeQuery.Resolution P W stub qs iq)
    (hfollows : Follows t iq) (hhints : t.Hints P W rootHint)
    (hplain : stub.Plain) (hhinted : W.ServersHinted P)
    (hsettles : Settles P W stub) :
    t.step = .AnswerStub ∨ t.step.resolves = true ∧
      ∃ q, q.Plain ∧ HintedAbout P W rootHint stub q ∧
        W.answer P q ≠ none ∧ t.latestQuery P = some q := by
  have hquery := hfollows.query_eq.symm.trans hresolution.query_eq
  have hzone : t.zone <+: stub.rrLabel := by
    rw [zone, hquery]
    exact List.take_prefix _ _
  have hzone' : t.zone.Plain := hplain.label.subset hzone.subset
  by_cases hfh : t.step = .FHQuery
  · obtain ⟨r, name, hr, hname, hserver, hask⟩ := hhints.server hfh
    have hq : (hintedQuestion t.forwardingHint t.zone name .FH).Plain :=
      plain_hintedQuestion hhints.plain hzone' hserver rfl
    obtain ⟨name', s, hname', hne, hs, -⟩ := hhinted _ _ r hr
    obtain rfl := Option.some.inj (hname.symm.trans hname')
    refine Or.inr ⟨by rw [hfh]; rfl, _, hq, ⟨_, _, _, _, rfl, hhints.hintOf,
      hzone, Or.inr ⟨rfl, _, r, hr, hname⟩⟩, ?_, latestQuery_of_ask
        ((t.ask_of_FHQuery P hfh).trans (by rw [hask]; rfl))⟩
    rw [World.answer_of_plain hq hne]
    rw [show (hintedQuestion t.forwardingHint t.zone name .FH).authorityZone =
      t.zone from rfl, hs]
    simp
  · have hstep := hfollows.step_eq hfh
    rcases (hresolution.settles hsettles).2 with hstub | ⟨q, hask, hsome⟩
    · exact Or.inl (hstep.symm.trans hstub)
    obtain ⟨hresolves, rfl⟩ := iq.ask_eq_some hask
    have hiq := hresolution.step_of_resolves hresolves
    have hq := plain_latestQuery hplain hresolution.query_eq hiq
    have hle : t.zone ++ t.rest = stub.rrLabel := by
      rw [zone, rest, List.take_append_drop, hquery]
    refine Or.inr ⟨hstep ▸ hresolves, ?_⟩
    rcases hiq with hiq | hiq
    · have hns := hstep.symm.trans hiq
      rw [(hfollows.latestQuery_of_NSQuery hns).2] at hq hsome
      exact ⟨_, plain_hintedQuestion hhints.plain hq.zone hq.label rfl,
        ⟨_, _, _, _, rfl, hhints.hintOf, hzone, Or.inl ⟨by
          rw [← hle]
          exact (List.prefix_append_right_inj _).mpr (List.take_prefix _ _),
          by simp⟩⟩,
        answer_hintedQuestion_ne_none hq hsome,
        latestQuery_of_ask (t.ask_of_NSQuery P hns)⟩
    · have hrr := hstep.symm.trans hiq
      rw [(hfollows.latestQuery_of_RRQuery hrr).2] at hq hsome
      exact ⟨_, plain_hintedQuestion hhints.plain hq.zone hq.label hq.rrType,
        ⟨_, _, _, _, rfl, hhints.hintOf, hzone, Or.inl ⟨hle ▸ List.prefix_rfl,
          by simp [hquery]⟩⟩,
        answer_hintedQuestion_ne_none hq hsome,
        latestQuery_of_ask (t.ask_of_RRQuery P hrr)⟩

theorem hintedStrategy_settles
    (rootHint : Name) (hplain : stub.Plain) (hhinted : W.ServersHinted P)
    (hinside : stub.rrType = .NS →
      ¬ ∃ zone label, W.DelegatesTo stub.rrLabel zone label)
    (hsettles : Settles P W stub) :
    (hintedStrategy P rootHint).Settles P W (Resolved P W rootHint)
      (HintedAbout P W rootHint stub) stub
      (2 * (stub.rrLabel.length + 2)) where
  length_le h := by
    obtain ⟨qs, iq, hresolution, -, -, hcount⟩ :=
      h.exists_follows hhinted hinside
    have hlength := (hresolution.settles hsettles).1
    omega
  ask h := by
    obtain ⟨qs, iq, hresolution, hfollows, hhints, -⟩ :=
      h.exists_follows hhinted hinside
    refine (hresolution.ask_of_follows hfollows hhints hplain hhinted
      hsettles).imp_right (And.imp_right ?_)
    rintro ⟨q, hq, habout, hsome, hlatest⟩
    exact ⟨q, hq, habout, hsome,
      Option.map_eq_some_iff.mpr ⟨q, hlatest, rfl⟩⟩

/-- A resolution for the NS records of a delegated name does not come to an
answer. -/
theorem IterativeQueryWithForwardingHint.Resolved.step_ne
    (h : Resolved P W rootHint stub n t) (hrecords : W.PlainRecords P)
    (hroot : rootHint.Plain) (hT : stub.rrType = .NS)
    (hdelegated : ∃ zone label, W.DelegatesTo stub.rrLabel zone label) :
    t.step ≠ .AnswerStub := by
  intro hstub
  have hright : W.RightAnswer stub.rrLabel stub.rrType t.lastResponse :=
    (hintedStrategy_sound hrecords hroot).right h hstub
  rw [World.RightAnswer, if_pos hT] at hright
  rcases hright with ⟨zone, label, -, hcarried⟩ | ⟨hnone, -⟩
  · cases h with
    | follows _ _ _ _ hdenied =>
        exact absurd (hcarried.responseType_eq.symm.trans (hdenied hstub hT))
          (by simp)
    | beyond _ _ _ _ hend =>
        rcases hend with ⟨hstep, -⟩ | ⟨hstep, -⟩
        · exact absurd (hstep.symm.trans hstub) (by decide)
        · exact absurd (hstep.symm.trans hstub) (by decide)
    | abort _ hstep => exact absurd (hstep.symm.trans hstub) (by decide)
  · exact hnone hdelegated

end Strategy

end Ndns

import Ndns.AdversarialReplies

/-!
# Zones and their hints

A forwarding hint belongs to a zone.  The strategy with forwarding hints learns
the zone from an NS answer and its hint from the FH answer behind it, and counts
the labels of the zone only then.

**Results.**
* `paired_of_transcript`: zone and hint belong together as long as no FH query
  is answered with an Auth that lets the label grow.
-/

namespace Ndns

/-- A question, the step it is asked in, and the reply. -/
abbrev Exchange := (QuerySteps × Query) × Response

/-- The exchanges name the hint for the zone. -/
inductive Paired (P : NameParser) (rootHint : Name) (es : List Exchange) :
    Name → Name → Prop
  | root : Paired P rootHint es [] rootHint
  | delegated {ns fh : Query} {re re' : Response} {rr rr' : RR}
      {hint : Name}
      (horder : List.Sublist [((.NSQuery, ns), re), ((.FHQuery, fh), re')] es)
      (hns : ns.rrType = .NS ∧ re.responseType = .NDNS_Resp)
      (hfh : fh.rrType = .FH ∧ re'.responseType = .NDNS_Resp)
      (hzone : fh.authorityZone = ns.authorityZone)
      (hrr : re.rrs[0]? = some rr)
      (hserver : P.ofUri rr.rrData = some fh.rrLabel)
      (hrr' : re'.rrs[0]? = some rr')
      (hhint : P.ofUri rr'.rrData = some hint) :
      Paired P rootHint es (ns.authorityZone ++ ns.rrLabel) hint

theorem Paired.append
    {P : NameParser} {rootHint zone hint : Name} {es : List Exchange}
    (h : Paired P rootHint es zone hint) (es' : List Exchange) :
    Paired P rootHint (es ++ es') zone hint := by
  cases h with
  | root =>
      exact Paired.root
  | delegated horder hns hfh hzone hrr hserver hrr' hhint =>
      exact Paired.delegated
        (horder.trans (List.sublist_append_left es es')) hns hfh hzone hrr
        hserver hrr' hhint

namespace IterativeQueryWithForwardingHint

/-- An FH query is not answered with an Auth, unless the label cannot grow. -/
def HoldsLabel (s : Option IterativeQueryWithForwardingHint)
    (re : Response) : Prop :=
  ∀ iq, s = some iq → iq.step = .FHQuery →
    re.responseType = .NDNS_Auth →
      iq.query.rrLabel.length ≤ iq.finishedLabelNum + iq.rrLabelLen

/-- The zone that an NS answer has named. -/
def subzone (iq : IterativeQueryWithForwardingHint) : Name :=
  iq.query.rrLabel.take (iq.finishedLabelNum + iq.rrLabelLen)

/-- The last response names the server of the subzone. -/
def Named (es : List Exchange) (iq : IterativeQueryWithForwardingHint) :
    Prop :=
  ∃ ns, ((.NSQuery, ns), iq.lastResponse) ∈ es ∧
    (ns.rrType = .NS ∧ iq.lastResponse.responseType = .NDNS_Resp) ∧
    ns.authorityZone = iq.zone ∧
    ns.authorityZone ++ ns.rrLabel = iq.subzone

/-- What the exchanges say about the state behind them. -/
structure Learned (P : NameParser) (rootHint : Name) (es : List Exchange)
    (iq : IterativeQueryWithForwardingHint) : Prop where
  authZoneIndex_eq : iq.authZoneIndex = 0
  forwardingHintIndex_eq : iq.forwardingHintIndex = 0
  paired : Paired P rootHint es iq.zone iq.forwardingHint
  named : iq.step = .FHQuery → Named es iq

variable {P : NameParser} {rootHint : Name}

theorem learned_init (query : Query) :
    Learned P rootHint [] (init query rootHint) where
  authZoneIndex_eq := rfl
  forwardingHintIndex_eq := rfl
  paired := Paired.root
  named := QuerySteps.noConfusion

theorem Named.append
    {es : List Exchange} {iq : IterativeQueryWithForwardingHint}
    (h : Named es iq) (es' : List Exchange) : Named (es ++ es') iq := by
  obtain ⟨ns, hmem, hrest⟩ := h
  exact ⟨ns, List.mem_append_left es' hmem, hrest⟩

theorem ask_eq_some
    {iq : IterativeQueryWithForwardingHint} {step : QuerySteps} {q : Query}
    (h : (hintedResolver P).ask (some iq) = some (step, q)) :
    step = iq.step ∧ iq.latestQuery P = some q := by
  simp only [hintedResolver, Option.bind_some, Option.map_eq_some_iff] at h
  obtain ⟨q', hq', heq⟩ := h
  obtain ⟨rfl, rfl⟩ := Prod.mk.inj heq
  exact ⟨rfl, hq'⟩

/-- Every question carries the zone and the hint of the state. -/
theorem latestQuery_zone
    {iq : IterativeQueryWithForwardingHint} {q : Query}
    (h : iq.latestQuery P = some q) :
    q.authorityZone = iq.zone ∧ q.forwardingHint = iq.forwardingHint := by
  unfold latestQuery at h
  simp only [Name.getPrefix_eq_take] at h
  split_ifs at h
  · obtain rfl := Option.some.inj h
    exact ⟨rfl, rfl⟩
  · obtain rfl := Option.some.inj h
    exact ⟨rfl, rfl⟩
  · obtain ⟨label, -, rfl⟩ := Option.map_eq_some_iff.mp h
    exact ⟨rfl, rfl⟩

theorem nackStep_ne (iq : IterativeQueryWithForwardingHint) :
    iq.nackStep ≠ .FHQuery := by
  unfold nackStep
  split_ifs with hns ht hrr hfh
  · exact QuerySteps.noConfusion
  · exact QuerySteps.noConfusion
  · exact QuerySteps.noConfusion
  · exact QuerySteps.noConfusion
  · exact hfh

section Steps

variable {es : List Exchange} {iq iq' : IterativeQueryWithForwardingHint}
variable {q : Query} {re : Response}

/-- The delegation and its hint make a pair. -/
theorem Learned.paired_advance
    (h : Learned P rootHint es iq) (hstep : iq.step = .FHQuery)
    (hask : iq.latestQuery P = some q) (htype : re.responseType = .NDNS_Resp)
    {rr : RR} {hint : Name} (hrr : re.rrs[0]? = some rr)
    (hhint : P.ofUri rr.rrData = some hint) :
    Paired P rootHint (es ++ [((.FHQuery, q), re)]) iq.subzone hint := by
  obtain ⟨ns, hmem, hns, hzone, hname⟩ := h.named hstep
  have hserver : ∃ rr, iq.lastResponse.rrs[0]? = some rr ∧
      P.ofUri rr.rrData = some q.rrLabel ∧ q.rrType = .FH := by
    simp only [latestQuery, hstep, serverName, h.authZoneIndex_eq] at hask
    simp only [reduceCtorEq, if_false, if_true, Option.map_eq_some_iff,
      Option.bind_eq_bind, Option.bind_eq_some_iff] at hask
    obtain ⟨label, ⟨rr, hrr, hlabel⟩, rfl⟩ := hask
    exact ⟨rr, hrr, hlabel, rfl⟩
  obtain ⟨rr', hrr', hlabel, hfh⟩ := hserver
  rw [← hname]
  exact Paired.delegated
    (List.Sublist.append (List.singleton_sublist.mpr hmem)
      (List.Sublist.refl _))
    hns ⟨hfh, htype⟩ ((latestQuery_zone hask).1.trans hzone.symm) hrr'
    hlabel hrr hhint

theorem learned_moved
    (h : Learned P rootHint es iq)
    (hask : iq.latestQuery P = some q)
    (hholds : HoldsLabel (some iq) re) (hmove : Moved P iq re iq') :
    Learned P rootHint (es ++ [((iq.step, q), re)]) iq' := by
  have hpaired := h.paired.append [((iq.step, q), re)]
  cases hmove with
  | unknown htype =>
      exact {
        h with
        paired := hpaired
        named := QuerySteps.noConfusion }
  | nack htype =>
      exact {
        h with
        paired := hpaired
        named := fun hstep => absurd hstep iq.nackStep_ne }
  | auth htype =>
      refine { h with paired := hpaired, named := fun hstep => ?_ }
      -- the label cannot grow
      have hend := hholds iq rfl hstep htype
      obtain ⟨ns, hmem, hns, hzone, hname⟩ := h.named hstep
      refine ⟨ns, List.mem_append_left _ hmem, hns, hzone, hname.trans ?_⟩
      show iq.query.rrLabel.take _ = iq.query.rrLabel.take _
      rw [List.take_of_length_le hend, List.take_of_length_le (by
        show _ ≤ iq.finishedLabelNum + (iq.rrLabelLen + 1)
        omega)]
  | delegate htype hstep =>
      refine { h with paired := hpaired, named := fun _ => ?_ }
      rw [latestQuery_of_NSQuery hstep] at hask
      obtain rfl := Option.some.inj hask
      refine ⟨hintedQuestion iq.forwardingHint iq.zone
        ((iq.query.rrLabel.drop iq.finishedLabelNum).take iq.rrLabelLen) .NS,
        List.mem_append_right es ?_, ⟨rfl, htype⟩, rfl, List.take_add.symm⟩
      rw [hstep]
      exact List.mem_singleton_self _
  | advance rr hint htype hstep hrr hhint =>
      rw [h.forwardingHintIndex_eq] at hrr
      have hpair := h.paired_advance hstep hask htype hrr hhint
      rw [← hstep] at hpair
      exact {
        authZoneIndex_eq := rfl
        forwardingHintIndex_eq := h.forwardingHintIndex_eq
        paired := hpair
        named := QuerySteps.noConfusion }
  | final htype hstep =>
      exact {
        h with
        paired := hpaired
        named := QuerySteps.noConfusion }
  | ignored =>
      exact {
        h with
        paired := hpaired
        named := fun hstep => (h.named hstep).append _ }

end Steps

theorem learned_of_transcript
    {query : Query} {s : Option IterativeQueryWithForwardingHint}
    {es : List Exchange}
    (h : Dialogue.Transcript (hintedResolver P) HoldsLabel
      (some (init query rootHint)) es s) :
    ∀ iq, s = some iq → Learned P rootHint es iq := by
  refine h.invariant
    (I := fun es s => ∀ iq, s = some iq → Learned P rootHint es iq) ?_ ?_
  · intro iq hiq
    obtain rfl := Option.some.inj hiq
    exact learned_init query
  · rintro es t ⟨step, q⟩ re ih hask hholds iq' hiq'
    cases t with
    | none =>
        simp [hintedResolver] at hask
    | some iq =>
        obtain ⟨rfl, hquery⟩ := ask_eq_some hask
        exact learned_moved (ih iq rfl) hquery hholds (moved hiq')

/-- Every Interest carries the hint of its zone, in every run in which no FH
query is answered with an Auth that lets the label grow. -/
theorem paired_of_transcript
    {query : Query} {iq : IterativeQueryWithForwardingHint}
    {es : List Exchange} {step : QuerySteps} {asked : Query}
    (h : Dialogue.Transcript (hintedResolver P) HoldsLabel
      (some (init query rootHint)) es (some iq))
    (hask : (hintedResolver P).ask (some iq) = some (step, asked)) :
    Paired P rootHint es asked.authorityZone asked.forwardingHint := by
  obtain ⟨hzone, hhint⟩ := latestQuery_zone (ask_eq_some hask).2
  rw [hzone, hhint]
  exact (learned_of_transcript h iq rfl).paired

section Hosts

def hintReply : Response :=
  Response.init.addRr { RR.init with rrData := ascii "/isp2" }

def authReply : Response :=
  { Response.init with responseType := .NDNS_Auth }

def hostHinted : IterativeQueryWithForwardingHint :=
  init hostQuery [ascii "isp"]

/-- The NS query of `hostQuery` to the root. -/
def rootQuestion : QuerySteps × Query :=
  (.NSQuery, hintedQuestion [ascii "isp"] [] [ascii "net"] .NS)

/-- The FH query behind `delegation`. -/
def serverQuestion : QuerySteps × Query :=
  (.FHQuery, hintedQuestion [ascii "isp"] [] [ascii "ns1"] .FH)

theorem paired_of_transcript_host :
    Paired uriParser [ascii "isp"]
      [(rootQuestion, delegation), (serverQuestion, hintReply)]
      [ascii "net"] [ascii "isp2"] := by
  have hroot : Dialogue.Transcript (hintedResolver uriParser) HoldsLabel
      (some hostHinted) [(rootQuestion, delegation)] _ :=
    Dialogue.Transcript.start.exchange rfl (by
      rintro iq - - h
      cases h)
  have hserver := hroot.exchange (q := serverQuestion) (r := hintReply)
    (by decide) (by
      rintro iq - - h
      cases h)
  refine paired_of_transcript hserver (?_ : _ = some (.NSQuery,
    hintedQuestion [ascii "isp2"] [ascii "net"] [ascii "www"] .NS))
  decide

/-- An FH query is answered with an Auth, and then with a hint. -/
def autonomous : List Exchange :=
  [(rootQuestion, delegation), (serverQuestion, authReply),
    (serverQuestion, hintReply)]

theorem zone_of_autonomous
    {zone hint : Name}
    (h : Paired uriParser [ascii "isp"] autonomous zone hint) :
    zone = [] ∨ zone = [ascii "net"] := by
  cases h with
  | root =>
      exact Or.inl rfl
  | delegated horder =>
      have hmem := horder.subset List.mem_cons_self
      simp only [autonomous, List.mem_cons, Prod.mk.injEq, rootQuestion,
        serverQuestion, reduceCtorEq, false_and, or_false, true_and,
        List.not_mem_nil] at hmem
      rw [hmem.1]
      exact Or.inr rfl

/-- The hint of the zone `/net` is taken for the hint of `/net/www`. -/
theorem autonomous_not_paired :
    ∃ iq asked,
      Dialogue.Transcript (hintedResolver uriParser) (fun _ _ => True)
        (some hostHinted) autonomous (some iq) ∧
      (∀ e ∈ autonomous, e.2.responseType = .NDNS_Resp → e.2.rrs ≠ []) ∧
      (hintedResolver uriParser).ask (some iq) =
        some (.NSQuery, asked) ∧
      asked.authorityZone = [ascii "net", ascii "www"] ∧
      asked.forwardingHint = [ascii "isp2"] ∧
      ¬ Paired uriParser [ascii "isp"] autonomous asked.authorityZone
        asked.forwardingHint := by
  have hroot : Dialogue.Transcript (hintedResolver uriParser)
      (fun _ _ => True) (some hostHinted) [(rootQuestion, delegation)] _ :=
    Dialogue.Transcript.start.exchange rfl trivial
  have hauth := hroot.exchange (q := serverQuestion) (r := authReply)
    (by decide) trivial
  have hserver := hauth.exchange (q := serverQuestion) (r := hintReply)
    (by decide) trivial
  refine ⟨_, hintedQuestion [ascii "isp2"] [ascii "net", ascii "www"] []
    .NS, hserver, by decide, by decide, rfl, rfl, ?_⟩
  intro h
  exact absurd (zone_of_autonomous h) (by decide)

end Hosts

end IterativeQueryWithForwardingHint

end Ndns

import Ndns.PlainResolutions

/-!
# Tools, resolvers and servers

`NameDig::run`: the tool sends its Interest, sends it again when it times out, and
gives up behind `m_interestTriedMax` Interests.  Behind it is a resolver with its
network of name servers, which is taken as one replier here: for an Interest of
the tool it makes any of its runs, and what it has put at the end is on its way.

**Results.**
* `NameDig.onData_right`: an answer for anybody that satisfies the Interest of the
  tool is right for the tool;
* `digNetwork_right`: a tool that stops has the right answer or has given up;
* `digNetwork_settles`: a tool that goes on can be brought to the right answer.
-/

namespace Ndns

/-- `NameDig` with what `NDNApp` keeps for it. -/
structure DigProcess where
  dig : NameDig
  interestTriedMax : Nat
  interestTriedNum : Nat
  hasError : Bool

namespace DigProcess

/-- `NameDig::sendQuery` -/
def sendQuery (p : DigProcess) : DigProcess :=
  { p with interestTriedNum := p.interestTriedNum + 1 }

/-- `NameDig::run`, as far as the first Interest. -/
def run (dig : NameDig) : DigProcess :=
  sendQuery {
    dig := dig
    interestTriedMax := 2
    interestTriedNum := 0
    hasError := false }

/-- `NDNApp::stop` with an error. -/
def fail (p : DigProcess) : DigProcess :=
  { p with
    dig := { p.dig with stopped := true }
    hasError := true }

/-- `NameDig::onTimeout`; a tool that has stopped hears of no time-out. -/
def onTimeout (p : DigProcess) : DigProcess :=
  if p.dig.stopped then p
  else if p.interestTriedNum ≥ p.interestTriedMax then p.fail
  else p.sendQuery

/-- `NameDig::onData`; what it throws ends `NameDig::run`. -/
def onData (P : NameParser) (p : DigProcess) (data : Data) : DigProcess :=
  match p.dig.onData P data with
  | some dig => { p with dig := dig }
  | none => p.fail

/-- The Interest that is pending. -/
def pending (p : DigProcess) : Option Interest :=
  if p.dig.stopped then none else some p.dig.toInterest

end DigProcess

/-- A resolver and its name servers. -/
abbrev ResolverNet (σ : Type) :=
  Exchange.Net Query (σ × FaceAction) Interest Data Site

/-- The packets that the resolver has put last for its stubs. -/
def ResolverNet.puts {σ : Type} (net : ResolverNet σ) : List Data :=
  net.sessions.filterMap (fun x =>
    match x.2.2 with
    | .put data => some data
    | _ => none)

/-- The tools in front of resolvers. -/
def digParties
    {σ : Type} (P : NameParser) (S : Sqlite) (K : PacketCodec)
    (strategy : IQStrategy σ) (resolver : NameCachingResolver) :
    Exchange.Parties NameDig DigProcess Interest Data (ResolverNet σ)
      (Query × List (Exchange.Event Query Version)) where
  start dig := some (DigProcess.run dig)
  ask p := p.pending
  tell _ p data := some (p.onData P data)
  timeout p := p.onTimeout
  satisfies data interest := interest.name.isPrefixOf data.name
  reaches _ net := net.up
  reply run _ net :=
    let net := Machine.final
      (Exchange.step (resolverParties P S K strategy resolver))
      (.start run.1 :: run.2) net
    (ResolverNet.puts net, net)

/-- The network before a tool is started. -/
def Exchange.Net.ofResolver {σ : Type} (net : ResolverNet σ) :
    Exchange.Net NameDig DigProcess Interest Data (ResolverNet σ) where
  up := true
  sessions := []
  questions := []
  replies := []
  repliers := [net]

section Answers

variable {P : NameParser} {W : World} {dig : NameDig} {stub : Query}
variable {data : Data}

/-- Whatever stub an answer was put for, it is right for a tool whose Interest it
satisfies. -/
theorem NameDig.onData_right
    (hplain : dig.query.Plain) (hstub : stub.Plain)
    (h : W.RightPacket P stub data)
    (hpre : dig.toInterest.name <+: data.name) :
    ∃ re, dig.onData P data = some { dig with
        response := re
        rrs := re.rrs.map NameDig.cutLabel
        stopped := true } ∧
      W.RightAnswer dig.dstLabel dig.rrType re := by
  obtain ⟨version, hname⟩ := h.name_eq
  obtain ⟨re, hread, hright⟩ := h.right
  rw [hname, answerName_eq] at hpre
  obtain ⟨-, -, hlabel, htype⟩ :=
    hplain.eq_of_isPrefix hstub.withoutHint hpre
  refine ⟨re, by simp [NameDig.onData, hread], ?_⟩
  rw [show dig.dstLabel = stub.rrLabel from hlabel,
    show dig.rrType = stub.rrType from htype]
  exact hright

end Answers

section Sessions

variable (P : NameParser) (W : World)

/-- The process of a tool: it asks as it was told, and stops with the right answer
or when all Interests have timed out. -/
structure DigSession (dig : NameDig) (p : DigProcess) : Prop where
  plain : dig.query.Plain
  label_ne_nil : dig.dstLabel ≠ []
  query_eq : p.dig.query = dig.query
  tried_le : p.interestTriedNum ≤ p.interestTriedMax
  error : p.hasError = true → p.dig.stopped = true ∧
    p.interestTriedNum = p.interestTriedMax
  answered : p.dig.stopped = true → p.hasError = false →
    W.RightAnswer dig.dstLabel dig.rrType p.dig.response ∧
      p.dig.rrs = p.dig.response.rrs.map NameDig.cutLabel

variable {P W} {dig : NameDig} {p : DigProcess} {stub : Query} {data : Data}
variable {interest : Interest}

theorem digSession_run
    (hplain : dig.query.Plain) (hne : dig.dstLabel ≠ [])
    (hstopped : dig.stopped = false) :
    DigSession W dig (DigProcess.run dig) where
  plain := hplain
  label_ne_nil := hne
  query_eq := rfl
  tried_le := Nat.le_succ 1
  error h := absurd h (by simp [DigProcess.run, DigProcess.sendQuery])
  answered h := by
    rw [show (DigProcess.run dig).dig.stopped = dig.stopped from rfl,
      hstopped] at h
    exact absurd h (by decide)

theorem DigSession.onTimeout
    (h : DigSession W dig p) : DigSession W dig p.onTimeout := by
  unfold DigProcess.onTimeout
  split_ifs with hstopped hmax
  · exact h
  · have htried := h.tried_le
    exact ⟨h.plain, h.label_ne_nil, h.query_eq, htried,
      fun _ => ⟨rfl, by simp only [DigProcess.fail]; omega⟩,
      fun _ herror => absurd herror (by simp [DigProcess.fail])⟩
  · refine ⟨h.plain, h.label_ne_nil, h.query_eq, ?_, ?_, ?_⟩
    · simp only [DigProcess.sendQuery]
      omega
    · exact fun herror => absurd (h.error herror).1 hstopped
    · exact fun hstop => absurd hstop hstopped

/-- What is pending is the question of the tool. -/
theorem DigSession.of_pending
    (h : DigSession W dig p) (hpending : p.pending = some interest) :
    p.dig.stopped = false ∧ interest = p.dig.toInterest ∧
      ∃ stub : Query, stub.Plain ∧ stub.rrLabel ≠ [] ∧
        stub.forwardingHint = [] ∧ stub.toInterest = interest := by
  unfold DigProcess.pending at hpending
  split_ifs at hpending with hstopped
  obtain rfl := Option.some.inj hpending
  refine ⟨Bool.not_eq_true _ ▸ hstopped, rfl, _,
    h.plain.withLifetime p.dig.interestLifetime, h.label_ne_nil, rfl, ?_⟩
  rw [NameDig.toInterest, h.query_eq]
  rfl

/-- An answer that satisfies the Interest of the tool ends it. -/
theorem DigSession.onData
    (h : DigSession W dig p) (hpending : p.pending = some interest)
    (hpre : interest.name <+: data.name) (hstub : stub.Plain)
    (hright : W.RightPacket P stub data) :
    DigSession W dig (p.onData P data) ∧
      (p.onData P data).dig.stopped = true ∧
      (p.onData P data).hasError = false := by
  obtain ⟨hstopped, rfl, -⟩ := h.of_pending hpending
  have hplain : p.dig.query.Plain := h.query_eq ▸ h.plain
  obtain ⟨re, hdo, hanswer⟩ := NameDig.onData_right hplain hstub hright hpre
  have herror : p.hasError = false := by
    rw [← Bool.not_eq_true]
    intro herror
    exact absurd ((h.error herror).1.symm.trans hstopped) (by decide)
  have honData : p.onData P data = { p with dig := { p.dig with
      response := re
      rrs := re.rrs.map NameDig.cutLabel
      stopped := true } } := by
    rw [DigProcess.onData, hdo]
  rw [honData]
  refine ⟨⟨h.plain, h.label_ne_nil, h.query_eq, h.tried_le,
    fun he => absurd (he.symm.trans herror) (by decide), fun _ _ => ?_⟩, rfl,
    herror⟩
  have hlabel : p.dig.dstLabel = dig.dstLabel :=
    congrArg Query.rrLabel h.query_eq
  have htype : p.dig.rrType = dig.rrType :=
    congrArg Query.rrType h.query_eq
  exact ⟨hlabel ▸ htype ▸ hanswer, rfl⟩

end Sessions

section Runs

variable {σ : Type} (P : NameParser) (S : Sqlite) (K : PacketCodec)
variable (W : World) (strategy : IQStrategy σ)
variable (resolver : NameCachingResolver)

/-- The contract of the tools with resolvers that keep one of their own. -/
def digContract
    (G : Exchange.Contract Query (σ × FaceAction) Interest Data Site
      Version) :
    Exchange.Contract NameDig DigProcess Interest Data (ResolverNet σ)
      (Query × List (Exchange.Event Query Version)) where
  starts dig := dig.query.Plain ∧ dig.dstLabel ≠ [] ∧ dig.stopped = false
  session := DigSession W
  question interest := ∃ stub : Query, stub.Plain ∧ stub.rrLabel ≠ [] ∧
    stub.forwardingHint = [] ∧ stub.toInterest = interest
  reply data := ∃ stub : Query, stub.Plain ∧ W.RightPacket P stub data
  replier net :=
    G.Holds (resolverParties P S K strategy resolver) net
  works run interest net := run.1.toInterest = interest ∧
    Machine.Along (Exchange.step (resolverParties P S K strategy resolver))
      G.Allowed (.start run.1 :: run.2) net

variable {P S K W strategy resolver}
variable {G : Exchange.Contract Query (σ × FaceAction) Interest Data Site
  Version}

theorem mem_puts {net : ResolverNet σ} {data : Data} :
    data ∈ ResolverNet.puts net ↔
      ∃ stub iq, (stub, iq, FaceAction.put data) ∈ net.sessions := by
  rw [ResolverNet.puts, List.mem_filterMap]
  constructor
  · rintro ⟨⟨stub, iq, action⟩, hmem, hput⟩
    cases action with
    | put d => exact ⟨stub, iq, Option.some.inj hput ▸ hmem⟩
    | expressInterest interest => exact absurd hput (by simp)
    | nothing => exact absurd hput (by simp)
  · rintro ⟨stub, iq, hmem⟩
    exact ⟨_, hmem, rfl⟩

/-- Resolvers that put right answers keep the contract of the tools. -/
theorem digContract_kept
    (hkept : G.Kept (resolverParties P S K strategy resolver))
    (hright : ∀ stub iq data, G.session stub (iq, .put data) →
      stub.Plain ∧ W.RightPacket P stub data) :
    (digContract P S K W strategy resolver G).Kept
      (digParties P S K strategy resolver) where
  start dig := by
    rintro ⟨hplain, hne, hstopped⟩
    exact ⟨_, rfl, digSession_run hplain hne hstopped⟩
  ask dig p h interest hask := (h.of_pending hask).2.2
  tell run dig p interest data h hask hsatisfies hdata := by
    obtain ⟨stub, hstub, hanswer⟩ := hdata
    exact ⟨_, rfl, (h.onData hask (List.isPrefixOf_iff_prefix.mp hsatisfies)
      hstub hanswer).1⟩
  timeout dig p h := h.onTimeout
  reply run interest net hworks hreaches hquestion hnet := by
    have hholds := hkept.invariant hworks.2 hnet
    refine ⟨fun d hd => ?_, hholds⟩
    obtain ⟨stub, iq, hmem⟩ := mem_puts.mp hd
    exact ⟨stub, hright stub iq d (hholds.session _ hmem)⟩

theorem digContract_holds
    {net : ResolverNet σ}
    (h : G.Holds (resolverParties P S K strategy resolver) net) :
    (digContract P S K W strategy resolver G).Holds
      (digParties P S K strategy resolver) (Exchange.Net.ofResolver net) :=
  ⟨rfl, by simp [Exchange.Net.ofResolver], by simp [Exchange.Net.ofResolver],
    by simp [Exchange.Net.ofResolver], List.forall_mem_singleton.mpr h,
    by simp [Exchange.Net.ofResolver]⟩

variable (P S K W resolver)

/-- In every run, a tool that has stopped has the right answer to what it was
asked for, or all its Interests have timed out. -/
theorem digNetwork_right
    {sites : List Site} (hsites : ∀ site ∈ sites, site.Serves W)
    {events : List (Exchange.Event NameDig
      (Query × List (Exchange.Event Query Version)))}
    {net : Exchange.Net NameDig DigProcess Interest Data
      (ResolverNet IterativeQuery)}
    (hrun : Machine.Along
      (Exchange.step (digParties P S K (plainStrategy P) resolver))
      (digContract P S K W (plainStrategy P) resolver
        (plainContract P W resolver)).Allowed events
      (Exchange.Net.ofResolver (Exchange.Net.ofSites sites)))
    (hnet : Machine.final
      (Exchange.step (digParties P S K (plainStrategy P) resolver)) events
      (Exchange.Net.ofResolver (Exchange.Net.ofSites sites)) = net) :
    ∀ dig p, (dig, p) ∈ net.sessions → p.dig.stopped = true →
      (p.hasError = true ∧ p.interestTriedNum = p.interestTriedMax) ∨
        (W.RightAnswer dig.dstLabel dig.rrType p.dig.response ∧
          p.dig.rrs = p.dig.response.rrs.map NameDig.cutLabel) := by
  have hsound := plainStrategy_sound P W
  have hkept : (digContract P S K W (plainStrategy P) resolver
      (plainContract P W resolver)).Kept
        (digParties P S K (plainStrategy P) resolver) :=
    digContract_kept (hsound.kept P S K resolver)
      (fun stub iq data h => ⟨h.plain, h.acts.2⟩)
  have hstart : (plainContract P W resolver).Holds
      (resolverParties P S K (plainStrategy P) resolver)
      (Exchange.Net.ofSites sites) :=
    hsound.holds_of_run P S K resolver hsites
      (show Machine.Along _ _ [] _ from trivial)
  have hholds := hkept.invariant hrun (digContract_holds hstart)
  rw [hnet] at hholds
  intro dig p hmem hstopped
  have hsession := hholds.session _ hmem
  cases herror : p.hasError with
  | true => exact Or.inl ⟨rfl, (hsession.error herror).2⟩
  | false => exact Or.inr (hsession.answered hstopped herror)

end Runs

section Progress

variable {σ : Type} {P : NameParser} {S : Sqlite} {K : PacketCodec}
variable {W : World} {strategy : IQStrategy σ}
variable {resolver : NameCachingResolver} {I : Query → Nat → σ → Prop}
variable {asked : Query → Prop} {sites : List Site} {stub : Query}
variable {bound : Nat} {net : ResolverNet σ}

/-- A resolver can be brought to put an answer for a stub that comes in. -/
theorem IQStrategy.Settles.exists_put
    (hsettles : strategy.Settles P W I asked stub bound)
    (hsound : strategy.Sound P W I) (hcan : CanAnswer P W sites asked)
    (hfails : ∀ n, S.fails n = false)
    (hsites : ∀ site ∈ sites, site.Serves W ∧ site.up = true)
    (hplain : stub.Plain) (hne : stub.rrLabel ≠ [])
    (hholds : (runningContract P W strategy resolver I).Holds
      (resolverParties P S K strategy resolver) net)
    (htags : net.repliers.map Site.fixed = sites.map Site.fixed) :
    ∃ events data, Machine.Along
        (Exchange.step (resolverParties P S K strategy resolver))
        (runningContract P W strategy resolver I).Allowed
        (.start stub :: events) net ∧
      data ∈ ResolverNet.puts (Machine.final
        (Exchange.step (resolverParties P S K strategy resolver))
        (.start stub :: events) net) ∧
      W.RightPacket P stub data := by
  have hkept := hsound.running_kept P K resolver hfails
  obtain ⟨hstep, hstate⟩ := hsound.init hplain
  obtain ⟨q, -, hresolve⟩ : ∃ q : Query, q.Plain ∧
      resolver.resolve strategy (strategy.init stub) =
        some (strategy.init stub, .expressInterest q.toInterest) :=
    hsound.resolve_eq hplain hstate hstep
  have hstart :=
    (resolverParties_start P S K resolver strategy hplain hne).trans hresolve
  have hnext := Exchange.Contract.Holds.step hkept (.start stub) net
    ⟨hplain, hne⟩ hholds
  have htags' := (Exchange.Contract.Holds.map_tag_step
    (runningContract_keepsTags P K strategy resolver I) (.start stub) net
    ⟨hplain, hne⟩ hholds).trans htags
  -- the new session is the last one
  have hsession : (Exchange.step (resolverParties P S K strategy resolver)
      (.start stub) net).sessions[net.sessions.length]? =
        some (stub, strategy.init stub, .expressInterest q.toInterest) := by
    rw [Exchange.step, if_pos hholds.up, Exchange.Net.start, hstart]
    simp
  obtain ⟨events, iq, data, halong, hfinal, hright⟩ :=
    hsettles.exists_answer_of_holds hsound hcan hfails hsites hnext htags'
      hsession (by simp)
  exact ⟨events, data, ⟨⟨hplain, hne⟩, halong⟩,
    mem_puts.mpr ⟨stub, iq, List.mem_of_getElem? hfinal⟩, hright⟩

/-- A tool that has not given up, and is over behind one answer. -/
structure DigLive (W : World) (dig₀ : NameDig) (n : Nat) (dig : NameDig)
    (p : DigProcess) : Prop where
  dig_eq : dig = dig₀
  session : DigSession W dig p
  error : p.hasError = false
  stops : n = 0 → p.dig.stopped = true

variable {dig : NameDig}

/-- What a resolver serves stays as it is. -/
theorem digContract_keepsTags
    (hkept : (runningContract P W strategy resolver I).Kept
      (resolverParties P S K strategy resolver)) :
    (digContract P S K W strategy resolver
      (runningContract P W strategy resolver I)).KeepsTags
        (digParties P S K strategy resolver)
        (fun net => net.repliers.map Site.fixed) :=
  fun _ _ _ hworks _ _ hnet => hkept.map_tag
    (runningContract_keepsTags P K strategy resolver I) hworks.2 hnet

/-- A resolver replies to the tool. -/
theorem IQStrategy.Settles.dig_answerable
    (hsettles : ∀ stub, stub.Plain → stub.toInterest.name =
      dig.toInterest.name → strategy.Settles P W I asked stub bound)
    (hsound : strategy.Sound P W I) (hcan : CanAnswer P W sites asked)
    (hfails : ∀ n, S.fails n = false)
    (hsites : ∀ site ∈ sites, site.Serves W ∧ site.up = true)
    {p : DigProcess} {interest : Interest}
    (hsession : DigSession W dig p) (hpending : p.pending = some interest) :
    (digContract P S K W strategy resolver
      (runningContract P W strategy resolver I)).Answerable
        (digParties P S K strategy resolver)
        (fun net => net.repliers.map Site.fixed) [sites.map Site.fixed]
        interest := by
  obtain ⟨-, hinterest, stub, hplain, hne, hhint, rfl⟩ :=
    hsession.of_pending hpending
  have hname : stub.toInterest.name = dig.toInterest.name := by
    rw [hinterest, NameDig.toInterest, NameDig.toInterest,
      hsession.query_eq]
  refine ⟨_, List.mem_singleton_self _, ?_⟩
  intro net htags hholds
  obtain ⟨events, data, halong, hput, hright⟩ :=
    (hsettles stub hplain hname).exists_put hsound hcan hfails hsites hplain
      hne hholds htags
  refine ⟨hholds.up, (stub, events), ⟨rfl, halong⟩, data, hput, ?_⟩
  obtain ⟨version, hdata⟩ := hright.name_eq
  have hanswer : NameCachingResolver.answerName stub =
      stub.toInterest.name := by
    rw [answerName_eq]
    simp [Query.toInterest, Query.hintComponents, hhint]
  refine List.isPrefixOf_iff_prefix.mpr ⟨[version.component], ?_⟩
  rw [hdata, hanswer]

/-- One answer ends a tool. -/
theorem IQStrategy.Settles.dig_endsWithin
    (hsettles : ∀ stub, stub.Plain → stub.toInterest.name =
      dig.toInterest.name → strategy.Settles P W I asked stub bound)
    (hsound : strategy.Sound P W I) (hcan : CanAnswer P W sites asked)
    (hfails : ∀ n, S.fails n = false)
    (hsites : ∀ site ∈ sites, site.Serves W ∧ site.up = true) :
    (digContract P S K W strategy resolver
      (runningContract P W strategy resolver I)).EndsWithin
        (digParties P S K strategy resolver)
        (fun net => net.repliers.map Site.fixed) [sites.map Site.fixed]
        (DigLive W dig) where
  done key p hlive := by
    simp [digParties, DigProcess.pending, hlive.stops rfl]
  answerable n key p hlive interest hpending := by
    have hsession := hlive.session
    rw [hlive.dig_eq] at hsession
    exact IQStrategy.Settles.dig_answerable hsettles hsound hcan hfails
      hsites hsession hpending
  tell n run key p p' interest data hlive hpending hsatisfies hdata htell := by
    obtain ⟨stub, hstub, hright⟩ := hdata
    obtain ⟨hsession, hstopped, herror⟩ := hlive.session.onData hpending
      (List.isPrefixOf_iff_prefix.mp hsatisfies) hstub hright
    obtain rfl := Option.some.inj htell
    exact ⟨hlive.dig_eq, hsession, herror, fun _ => hstopped⟩

/-- In whatever state a run is, a tool that has not given up can be brought to the
right answer. -/
theorem IQStrategy.Settles.exists_dig_answer
    (hsettles : ∀ stub, stub.Plain → stub.toInterest.name =
      dig.toInterest.name → strategy.Settles P W I asked stub bound)
    (hsound : strategy.Sound P W I) (hcan : CanAnswer P W sites asked)
    (hfails : ∀ n, S.fails n = false)
    (hsites : ∀ site ∈ sites, site.Serves W ∧ site.up = true)
    {events : List (Exchange.Event NameDig
      (Query × List (Exchange.Event Query Version)))}
    {net : Exchange.Net NameDig DigProcess Interest Data (ResolverNet σ)}
    (hrun : Machine.Along
      (Exchange.step (digParties P S K strategy resolver))
      (digContract P S K W strategy resolver
        (runningContract P W strategy resolver I)).Allowed events
      (Exchange.Net.ofResolver (Exchange.Net.ofSites sites)))
    (hnet : Machine.final
      (Exchange.step (digParties P S K strategy resolver)) events
      (Exchange.Net.ofResolver (Exchange.Net.ofSites sites)) = net)
    {n : Nat} {p : DigProcess}
    (hsession : net.sessions[n]? = some (dig, p))
    (herror : p.hasError = false) :
    ∃ events' p', Machine.Along
        (Exchange.step (digParties P S K strategy resolver))
        (digContract P S K W strategy resolver
          (runningContract P W strategy resolver I)).Allowed events' net ∧
      (Machine.final (Exchange.step (digParties P S K strategy resolver))
        events' net).sessions[n]? = some (dig, p') ∧
      p'.dig.stopped = true ∧
      W.RightAnswer dig.dstLabel dig.rrType p'.dig.response ∧
      p'.dig.rrs = p'.dig.response.rrs.map NameDig.cutLabel := by
  have hrunning := hsound.running_kept P K resolver hfails
  have hkept : (digContract P S K W strategy resolver
      (runningContract P W strategy resolver I)).Kept
        (digParties P S K strategy resolver) :=
    digContract_kept hrunning (fun stub iq data h => ⟨h.plain, h.acts.2⟩)
  have htag := digContract_keepsTags (P := P) (S := S) (K := K) hrunning
  have hstart : (digContract P S K W strategy resolver
      (runningContract P W strategy resolver I)).Holds
        (digParties P S K strategy resolver)
        (Exchange.Net.ofResolver (Exchange.Net.ofSites sites)) :=
    digContract_holds (runningContract_holds_ofSites hsites)
  have hholds := hkept.invariant hrun hstart
  have htags := hkept.map_tag htag hrun hstart
  rw [hnet] at hholds htags
  have hlive : DigLive W dig 1 dig p :=
    ⟨rfl, hholds.session _ (List.mem_of_getElem? hsession), herror,
      by simp⟩
  obtain ⟨events', m, p', halong, hfinal, hlive', hdone⟩ :=
    hkept.exists_answer htag (Query.init, [])
      (IQStrategy.Settles.dig_endsWithin hsettles hsound hcan hfails hsites)
      hholds htags hlive hsession
  have hstopped : p'.dig.stopped = true := by
    by_contra hstopped
    simp [digParties, DigProcess.pending, hstopped] at hdone
  obtain ⟨hright, hrrs⟩ := hlive'.session.answered hstopped hlive'.error
  exact ⟨events', p', halong, hfinal, hstopped, hright, hrrs⟩

/-- Stubs that ask what the tool asks settle as it does. -/
theorem NameDig.settles_of_ends
    (hplain : dig.query.Plain) (hne : dig.dstLabel ≠ [])
    (hends : W.Ends P dig.query) (hstub : stub.Plain)
    (hname : stub.toInterest.name = dig.toInterest.name) :
    (plainStrategy P).Settles P W (IterativeQuery.Resolved P W)
      (AskedAbout dig.query) stub (dig.dstLabel.length + 2) := by
  have hpre : stub.toInterest.name <+: dig.query.toInterest.name ++ [] := by
    rw [List.append_nil, hname]
    exact List.prefix_refl dig.toInterest.name
  obtain ⟨-, -, hlabel, htype⟩ := hstub.eq_of_isPrefix hplain hpre
  have hlabel' : stub.rrLabel = dig.query.rrLabel := hlabel
  have hends' : W.Ends P stub := by
    refine ⟨?_, ?_⟩
    · rw [hlabel']
      exact hends.search
    · rw [hlabel', htype]
      exact hends.apex
  have hasked : AskedAbout stub = AskedAbout dig.query := by
    funext q
    rw [AskedAbout, AskedAbout, hlabel', htype]
  have hsettles := plainStrategy_settles hstub
    (IterativeQuery.settles_of_ends hends' hstub.rrType (hlabel' ▸ hne))
  rw [hasked, hlabel'] at hsettles
  exact hsettles

variable (P S K W resolver)

/-- In whatever state a run is, a tool that has not given up can be brought to the
right answer. -/
theorem digNetwork_settles
    (hfails : ∀ n, S.fails n = false)
    (hsites : ∀ site ∈ sites, site.Serves W ∧ site.up = true)
    (hplain : dig.query.Plain) (hends : W.Ends P dig.query)
    (hne : dig.dstLabel ≠ [])
    (hcan : CanAnswer P W sites (AskedAbout dig.query))
    {events : List (Exchange.Event NameDig
      (Query × List (Exchange.Event Query Version)))}
    {net : Exchange.Net NameDig DigProcess Interest Data
      (ResolverNet IterativeQuery)}
    (hrun : Machine.Along
      (Exchange.step (digParties P S K (plainStrategy P) resolver))
      (digContract P S K W (plainStrategy P) resolver
        (runningContract P W (plainStrategy P) resolver
          (IterativeQuery.Resolved P W))).Allowed events
      (Exchange.Net.ofResolver (Exchange.Net.ofSites sites)))
    (hnet : Machine.final
      (Exchange.step (digParties P S K (plainStrategy P) resolver)) events
      (Exchange.Net.ofResolver (Exchange.Net.ofSites sites)) = net)
    {n : Nat} {p : DigProcess}
    (hsession : net.sessions[n]? = some (dig, p))
    (herror : p.hasError = false) :
    ∃ events' p', Machine.Along
        (Exchange.step (digParties P S K (plainStrategy P) resolver))
        (digContract P S K W (plainStrategy P) resolver
          (runningContract P W (plainStrategy P) resolver
            (IterativeQuery.Resolved P W))).Allowed events' net ∧
      (Machine.final
        (Exchange.step (digParties P S K (plainStrategy P) resolver))
        events' net).sessions[n]? = some (dig, p') ∧
      p'.dig.stopped = true ∧
      W.RightAnswer dig.dstLabel dig.rrType p'.dig.response ∧
      p'.dig.rrs = p'.dig.response.rrs.map NameDig.cutLabel :=
  IQStrategy.Settles.exists_dig_answer
    (fun _ hstub hname =>
      NameDig.settles_of_ends hplain hne hends hstub hname)
    (plainStrategy_sound P W) hcan hfails hsites hrun hnet hsession herror

end Progress

section Example

/-- The tool asks for the name servers of `/net`. -/
def netDig : NameDig :=
  { NameDig.init [ascii "net"] with
    rrType := .NS
    interestLifetime := netStub.interestLifetime }

theorem netDig_session (W : World) :
    DigSession W netDig (DigProcess.run netDig) :=
  digSession_run netStub_plain (by decide) rfl

/-- The tool in front of the resolver and the server of the root. -/
abbrev netDigParties :=
  digParties uriParser DyndnsMgr.reliable
    (ndnCodec DynamicDNSUpdate.digestSignature) (plainStrategy uriParser)
    ⟨60000, 2000⟩

/-- The tool asks, the resolver makes its run, and its answer reaches the tool. -/
def digEvents :
    List (Exchange.Event NameDig
      (Query × List (Exchange.Event Query Version))) :=
  [.start netDig, .work 0 0 (netStub, netEvents.tail),
    .hear 0 0 (Query.init, [])]

theorem digEvents_run :
    Machine.Along (Exchange.step netDigParties)
      (digContract uriParser DyndnsMgr.reliable
        (ndnCodec DynamicDNSUpdate.digestSignature) rootWorld
        (plainStrategy uriParser) ⟨60000, 2000⟩
        (plainContract uriParser rootWorld ⟨60000, 2000⟩)).Allowed
      digEvents
      (Exchange.Net.ofResolver (Exchange.Net.ofSites [rootSite])) := by
  refine ⟨⟨netStub_plain, by decide, rfl⟩, ?_, trivial, trivial⟩
  intro interest hinterest net hnet
  obtain rfl : netDig.toInterest = interest := Option.some.inj hinterest
  obtain rfl : Exchange.Net.ofSites [rootSite] = net := Option.some.inj hnet
  exact ⟨rfl, netEvents_run.1.mono (allowed_of_fitsAmong uriParser _
    (List.forall_mem_singleton.mpr netQuestion_plain))⟩

section Answered

variable {data : Data} {net : ResolverNet IterativeQuery}

/-- The network when the answer of the resolver is on its way. -/
theorem final_take_digEvents
    (hreply : ∀ interest, netDigParties.reply (netStub, netEvents.tail)
      interest (Exchange.Net.ofSites [rootSite]) = ([data], net)) :
    Machine.final (Exchange.step netDigParties) (digEvents.take 2)
        (Exchange.Net.ofResolver (Exchange.Net.ofSites [rootSite])) =
      { up := true
        sessions := [(netDig, DigProcess.run netDig)]
        questions := [netDig.toInterest]
        replies := [data]
        repliers := [net] } := by
  have hstart : Exchange.step netDigParties (.start netDig)
      (Exchange.Net.ofResolver (Exchange.Net.ofSites [rootSite])) =
        { up := true
          sessions := [(netDig, DigProcess.run netDig)]
          questions := [netDig.toInterest]
          replies := []
          repliers := [Exchange.Net.ofSites [rootSite]] } :=
    rfl
  rw [show digEvents.take 2 = [.start netDig,
      .work 0 0 (netStub, netEvents.tail)] from rfl,
    Machine.final, Machine.final, Machine.final, hstart, Exchange.step,
    Exchange.Contract.work_eq _ rfl rfl rfl, hreply, List.set_cons_zero,
    List.nil_append]

/-- The answer ends the tool. -/
theorem mem_final_digEvents
    (hreply : ∀ interest, netDigParties.reply (netStub, netEvents.tail)
      interest (Exchange.Net.ofSites [rootSite]) = ([data], net))
    (hpre : netDig.toInterest.name <+: data.name) :
    (netDig, (DigProcess.run netDig).onData uriParser data) ∈
      (Machine.final (Exchange.step netDigParties) digEvents
        (Exchange.Net.ofResolver
          (Exchange.Net.ofSites [rootSite]))).sessions := by
  rw [show digEvents = digEvents.take 2 ++ [.hear 0 0 (Query.init, [])]
    from rfl, Machine.final_append, final_take_digEvents hreply,
    Exchange.step, if_pos rfl,
    Exchange.Contract.hear_eq rfl rfl rfl
      (List.isPrefixOf_iff_prefix.mpr hpre) rfl]
  exact List.mem_singleton_self _

end Answered

/-- The tool has stopped at the end, and without an error. -/
theorem digEvents_stopped :
    ∃ p, (netDig, p) ∈ (Machine.final (Exchange.step netDigParties) digEvents
        (Exchange.Net.ofResolver (Exchange.Net.ofSites [rootSite]))).sessions ∧
      p.dig.stopped = true ∧ p.hasError = false := by
  obtain ⟨halong, hput⟩ := netEvents_run
  have hholds := (plainStrategy_sound uriParser rootWorld).holds_of_run
    uriParser DyndnsMgr.reliable (ndnCodec DynamicDNSUpdate.digestSignature)
    ⟨60000, 2000⟩ (List.forall_mem_singleton.mpr rootSite_serves)
    (halong.mono (allowed_of_fitsAmong uriParser _
      (List.forall_mem_singleton.mpr netQuestion_plain)))
  set net := Machine.final (Exchange.step netParties) netEvents
    (Exchange.Net.ofSites [rootSite]) with hnet
  obtain ⟨iq, data, hsessions⟩ := exists_put_of_map hput
  have hright := (hholds.session (netStub, iq, .put data)
    (hsessions ▸ List.mem_singleton_self _)).acts.2
  have hreply (interest : Interest) :
      netDigParties.reply (netStub, netEvents.tail) interest
        (Exchange.Net.ofSites [rootSite]) = ([data], net) := by
    rw [show [data] = ResolverNet.puts net by
      rw [ResolverNet.puts, hsessions]; rfl, hnet]
    rfl
  obtain ⟨version, hname⟩ := hright.name_eq
  have hpre : netDig.toInterest.name <+: data.name :=
    ⟨[version.component], hname.symm⟩
  exact ⟨_, mem_final_digEvents hreply hpre,
    ((netDig_session rootWorld).onData rfl hpre netStub_plain hright).2⟩

theorem digNetwork_right_net :
    ∃ p, (netDig, p) ∈ (Machine.final (Exchange.step netDigParties) digEvents
        (Exchange.Net.ofResolver (Exchange.Net.ofSites [rootSite]))).sessions ∧
      rootWorld.RightAnswer [ascii "net"] .NS p.dig.response := by
  obtain ⟨p, hmem, hstopped, herror⟩ := digEvents_stopped
  have h := digNetwork_right uriParser DyndnsMgr.reliable
    (ndnCodec DynamicDNSUpdate.digestSignature) rootWorld ⟨60000, 2000⟩
    (List.forall_mem_singleton.mpr rootSite_serves) digEvents_run rfl
    netDig p hmem hstopped
  rcases h with ⟨herror', -⟩ | ⟨hright, -⟩
  · exact absurd (herror'.symm.trans herror) (by decide)
  · exact ⟨p, hmem, hright⟩

/-- The tool has just asked. -/
theorem digNetwork_settles_net :
    ∃ events' p,
      (Machine.final (Exchange.step netDigParties) (.start netDig :: events')
        (Exchange.Net.ofResolver
          (Exchange.Net.ofSites [rootSite]))).sessions[0]? =
            some (netDig, p) ∧
      p.dig.stopped = true ∧
      rootWorld.RightAnswer [ascii "net"] .NS p.dig.response := by
  have hsession : (Exchange.step netDigParties (.start netDig)
      (Exchange.Net.ofResolver (Exchange.Net.ofSites
        [rootSite]))).sessions[0]? = some (netDig, DigProcess.run netDig) :=
    rfl
  obtain ⟨events', p, -, hfinal, hstopped, hright, -⟩ :=
    digNetwork_settles uriParser DyndnsMgr.reliable
      (ndnCodec DynamicDNSUpdate.digestSignature) rootWorld ⟨60000, 2000⟩
      (fun _ => rfl) (List.forall_mem_singleton.mpr ⟨rootSite_serves, rfl⟩)
      (show netDig.query.Plain from netStub_plain) rootWorld_ends (by decide)
      rootSite_canAnswer
      (show Machine.Along _ _ [.start netDig] _ from
        ⟨⟨netStub_plain, by decide, rfl⟩, trivial⟩) rfl hsession rfl
  exact ⟨events', p, hfinal, hstopped, hright⟩

end Example

end Ndns

import Ndns.ResolverNetwork

/-!
# Resolutions on a network come to an end

Whatever was lost, kept back or handed over twice, a resolution that has not timed
out can still be answered: its Interest is in the network, a server of the zone
replies to it, and the replies lead to an answer whenever the resolution settles
against the stores of the world.

**Results.**
* `IQStrategy.Sound.running_kept`: servers whose statements do not fail go on;
* `CanAnswer.answerable`: a question that is pending is answered;
* `IQStrategy.Settles.exists_answer`: an open resolution can be brought to its
  answer.
-/

namespace Ndns

section Servers

variable {P : NameParser} {S : Sqlite} {K : PacketCodec} {W : World}
variable {q : Query} {site : Site}

/-- What no question changes in a server. -/
def Site.fixed (site : Site) : Name × Option Name × NameServer × Db :=
  (site.routed, site.forwardingHint, site.server, site.disk.db)

theorem Site.fixed_eq_iff {site' : Site} :
    site'.fixed = site.fixed ↔
      site'.routed = site.routed ∧
        site'.forwardingHint = site.forwardingHint ∧
        site'.server = site.server ∧ site'.disk.db = site.disk.db := by
  simp only [fixed, Prod.mk.injEq]

/-- A server that runs receives what it has received before. -/
theorem Site.receives_of_fixed
    {site' : Site} {interest interest' : Interest}
    (h : site'.fixed = site.fixed) (hup : site'.up = true)
    (hname : interest'.name = interest.name)
    (hreceives : site.receives interest = true) :
    site'.receives interest' = true := by
  obtain ⟨hrouted, hhint, -, -⟩ := fixed_eq_iff.mp h
  simp only [receives, filters, Bool.and_eq_true] at hreceives ⊢
  rw [hrouted, hhint, hname]
  exact ⟨hup, hreceives.2⟩

/-- Only questions with a label are answered. -/
theorem World.label_ne_nil_of_answer
    (hplain : q.Plain) (h : W.answer P q ≠ none) :
    q.rrLabel ≠ [] ∧ W q.authorityZone ≠ none := by
  constructor
  · intro hnil
    refine h ?_
    have hnone : matchQueryName q.toInterest.name.toUri = none :=
      Option.isNone_iff_eq_none.mp
        (Option.isSome_eq_false_iff.mp (hplain.no_branch hnil).2)
    cases hs : W q.authorityZone with
    | none => simp [World.answer, hs]
    | some s => simp [World.answer, hs, Store.onInterest, hnone]
  · intro hnone
    exact h (by simp [World.answer, hnone])

/-- A server that receives a question puts a packet that satisfies it. -/
theorem Site.exists_answered
    {version : Version} (h : site.Serves W)
    (hfails : ∀ n, S.fails n = false) (hplain : q.Plain)
    (hne : q.rrLabel ≠ [])
    (hreceives : site.receives q.toInterest = true)
    (hfits : site.ReplyFits version q) :
    ∃ d ∈ (site.onInterest P S K version q.toInterest).1,
      W.Answered P d ∧ q.toInterest.name <+: d.name := by
  obtain ⟨d, hd⟩ :=
    Site.exists_reply (P := P) (S := S) (K := K) hfails hplain hne hfits
  have hmem : d ∈ (site.onInterest P S K version q.toInterest).1 := by
    rw [hd]
    exact List.mem_singleton_self d
  obtain ⟨s, hs, hanswered⟩ :=
    (h.onInterest (P := P) (S := S) (K := K) hplain hreceives hfits).1 d hmem
  obtain ⟨version', hname⟩ := hanswered.name_eq
  exact ⟨d, hmem, ⟨q, s, hplain, hs, hanswered⟩, [version'.component],
    hname.symm⟩

end Servers

section Running

variable {σ : Type} (P : NameParser) {S : Sqlite} (K : PacketCodec)
variable (W : World) (strategy : IQStrategy σ)
variable (resolver : NameCachingResolver) (I : Query → Nat → σ → Prop)

/-- The contract with servers that run. -/
def runningContract :
    Exchange.Contract Query (σ × FaceAction) Interest Data Site Version :=
  { resolverContract P W strategy resolver I with
    replier := fun site => site.Serves W ∧ site.up = true }

variable {W strategy I}

theorem IQStrategy.Sound.running_kept
    (hsound : strategy.Sound P W I) (hfails : ∀ n, S.fails n = false) :
    (runningContract P W strategy resolver I).Kept
      (resolverParties P S K strategy resolver) :=
  { hsound.kept P S K resolver with
    reply := by
      rintro version interest site hworks hreaches hquestion ⟨hsite, hup⟩
      obtain ⟨hputs, hnext⟩ := (hsound.kept P S K resolver).reply version
        interest site hworks hreaches hquestion hsite
      obtain ⟨q, hplain, rfl⟩ := hquestion
      exact ⟨hputs, hnext, (Site.up_onInterest (K := K) hfails hplain
        (hworks q hplain rfl)).trans hup⟩ }

variable (strategy I)

theorem runningContract_keepsTags :
    (runningContract P W strategy resolver I).KeepsTags
      (resolverParties P S K strategy resolver) Site.fixed := by
  rintro version interest site hworks - ⟨q, hplain, rfl⟩ ⟨hsite, -⟩
  have hdb := hsite.db_onInterest (P := P) (S := S) (K := K) hplain
    (hworks q hplain rfl)
  have hserver : (site.onInterest P S K version
      q.toInterest).2.server = site.server :=
    (Site.server_onInterest q.toInterest).1
  simp only [resolverParties, Site.fixed, Site.routed_onInterest,
    Site.forwardingHint_onInterest, hdb, hserver]

end Running

section Progress

variable {σ : Type}

/-- The resolutions of a stub have so many replies at most, and are over or ask
what is answered. -/
structure IQStrategy.Settles
    (P : NameParser) (W : World) (strategy : IQStrategy σ)
    (I : Query → Nat → σ → Prop) (asked : Query → Prop) (stub : Query)
    (bound : Nat) : Prop where
  length_le : ∀ {n iq}, I stub n iq → n ≤ bound
  ask : ∀ {n iq}, I stub n iq →
    strategy.getStep iq = .AnswerStub ∨
      (strategy.getStep iq).resolves = true ∧
        ∃ q, q.Plain ∧ asked q ∧ W.answer P q ≠ none ∧
          strategy.toLatestInterest iq = some q.toInterest

/-- For every question that the world answers there is a server. -/
def CanAnswer
    (P : NameParser) (W : World) (sites : List Site) (asked : Query → Prop) :
    Prop :=
  ∀ q, asked q → W.answer P q ≠ none →
    ∃ site ∈ sites, site.receives q.toInterest = true ∧
      ∃ version, site.ReplyFits version q

/-- A session of the stub that has not timed out and may have so many replies
yet. -/
def Live
    (P : NameParser) (W : World) (strategy : IQStrategy σ)
    (resolver : NameCachingResolver) (I : Query → Nat → σ → Prop)
    (stub : Query) (bound n : Nat) (key : Query)
    (session : σ × FaceAction) : Prop :=
  key = stub ∧ Session P W strategy resolver I key session ∧
    session.2 ≠ .nothing ∧ ∃ m, I key m session.1 ∧ m + n = bound

variable {P : NameParser} {S : Sqlite} {K : PacketCodec} {W : World}
variable {strategy : IQStrategy σ} {resolver : NameCachingResolver}
variable {I : Query → Nat → σ → Prop} {asked : Query → Prop}
variable {sites : List Site} {stub : Query} {bound n : Nat}
variable {session : σ × FaceAction} {interest : Interest}

/-- What is pending is a question that is answered. -/
theorem IQStrategy.Settles.pending_answered
    (hsettles : strategy.Settles P W I asked stub bound)
    (h : Session P W strategy resolver I stub session)
    (hpending : session.2.pending = some interest) :
    ∃ q, q.Plain ∧ asked q ∧ W.answer P q ≠ none ∧
      interest = Query.toInterest
        { q with interestLifetime := resolver.interestLifetime } := by
  obtain ⟨iq, action⟩ := session
  obtain ⟨-, -, ⟨n, hstate⟩, hacts⟩ := h
  cases action with
  | put data => simp [FaceAction.pending] at hpending
  | nothing => simp [FaceAction.pending] at hpending
  | expressInterest sent =>
      obtain rfl : sent = interest := Option.some.inj hpending
      obtain ⟨hresolves, hresolve⟩ := hacts
      dsimp only at hstate hresolves hresolve
      rcases hsettles.ask hstate with hstub | ⟨-, q, hq, hasked, hsome, hlatest⟩
      · rw [hstub] at hresolves
        exact absurd hresolves (by decide)
      · rw [NameCachingResolver.resolve, hlatest, Option.map_some,
          Option.some.injEq, Prod.mk.injEq,
          FaceAction.expressInterest.injEq] at hresolve
        exact ⟨q, hq, hasked, hsome, hresolve.2.symm⟩

/-- A server of the zone replies to the question. -/
theorem CanAnswer.answerable
    (h : CanAnswer P W sites asked) (hfails : ∀ n, S.fails n = false)
    (hsettles : strategy.Settles P W I asked stub bound)
    (hsession : Session P W strategy resolver I stub session)
    (hpending : session.2.pending = some interest) :
    (runningContract P W strategy resolver I).Answerable
      (resolverParties P S K strategy resolver) Site.fixed
      (sites.map Site.fixed) interest := by
  obtain ⟨q, hplain, hasked, hsome, rfl⟩ :=
    hsettles.pending_answered hsession hpending
  obtain ⟨hne, -⟩ := World.label_ne_nil_of_answer hplain hsome
  obtain ⟨site, hsite, hreceives, version, hfits⟩ := h q hasked hsome
  have hsent := hplain.withLifetime resolver.interestLifetime
  refine ⟨_, List.mem_map_of_mem hsite, ?_⟩
  rintro w hw ⟨hserves, hup⟩
  have hreaches : w.receives (Query.toInterest
      { q with interestLifetime := resolver.interestLifetime }) = true :=
    Site.receives_of_fixed hw hup rfl hreceives
  obtain ⟨-, -, hserver, hdb⟩ := Site.fixed_eq_iff.mp hw
  have hwfits : w.ReplyFits version
      { q with interestLifetime := resolver.interestLifetime } := by
    rw [Site.ReplyFits, hserver, hdb]
    exact hfits
  obtain ⟨d, hmem, -, hpre⟩ := Site.exists_answered (P := P) (S := S)
    (K := K) hserves hfails hsent hne hreaches hwfits
  refine ⟨hreaches, version, ?_, d, hmem, ?_⟩
  · intro q' hq' hname
    exact hwfits.of_name_eq hsent hq' (congrArg Interest.name hname)
  · exact List.isPrefixOf_iff_prefix.mpr hpre

/-- Every reply brings the end nearer. -/
theorem IQStrategy.Settles.live_endsWithin
    (hsettles : strategy.Settles P W I asked stub bound)
    (hsound : strategy.Sound P W I) (hcan : CanAnswer P W sites asked)
    (hfails : ∀ n, S.fails n = false)
    (hsites : ∀ site ∈ sites, site.Serves W ∧ site.up = true) :
    (runningContract P W strategy resolver I).EndsWithin
      (resolverParties P S K strategy resolver) Site.fixed
      (sites.map Site.fixed) (Live P W strategy resolver I stub bound) where
  done key session := by
    rintro ⟨rfl, hsession, -, m, hstate, rfl⟩
    cases hpending : session.2.pending with
    | none => exact hpending
    | some interest =>
        exfalso
        -- one more exchange would be one too many
        obtain ⟨q, hplain, hasked, hsome, rfl⟩ :=
          hsettles.pending_answered hsession hpending
        obtain ⟨hne, -⟩ := World.label_ne_nil_of_answer hplain hsome
        obtain ⟨site, hsite, hreceives, version, hfits⟩ :=
          hcan q hasked hsome
        obtain ⟨d, -, hanswered, hpre⟩ := Site.exists_answered (P := P)
          (S := S) (K := K) (hsites site hsite).1 hfails hplain hne hreceives
          hfits
        obtain ⟨session', -, -, hnext, -⟩ := hsession.exchange hsound hstate
          version hpending hpre hanswered
        have hbound := hsettles.length_le hnext
        omega
  answerable n key session := by
    rintro ⟨rfl, hsession, -, -⟩ interest hpending
    exact hcan.answerable hfails hsettles hsession hpending
  tell n version key session session' interest data := by
    rintro ⟨rfl, hsession, -, m, hstate, hlength⟩ hpending hsatisfies hdata
      htell
    obtain ⟨session'', honData, hsession', hnext, hacts⟩ :=
      hsession.exchange hsound hstate version hpending
        (List.isPrefixOf_iff_prefix.mp hsatisfies) hdata
    obtain rfl := Option.some.inj (htell.symm.trans honData)
    refine ⟨rfl, hsession', ?_, m + 1, hnext, by omega⟩
    intro hnothing
    obtain ⟨hopen, hstub⟩ := hacts hnothing
    rcases hsettles.ask hnext with h | ⟨h, -⟩
    · exact hstub h
    · exact absurd (hopen.symm.trans h) (by decide)

/-- Whatever the network is, a resolution that has not timed out can be brought to
the right answer. -/
theorem IQStrategy.Settles.exists_answer_of_holds
    (hsettles : strategy.Settles P W I asked stub bound)
    (hsound : strategy.Sound P W I) (hcan : CanAnswer P W sites asked)
    (hfails : ∀ n, S.fails n = false)
    (hsites : ∀ site ∈ sites, site.Serves W ∧ site.up = true)
    {net : Exchange.Net Query (σ × FaceAction) Interest Data Site}
    (hholds : (runningContract P W strategy resolver I).Holds
      (resolverParties P S K strategy resolver) net)
    (htags : net.repliers.map Site.fixed = sites.map Site.fixed)
    (hsession : net.sessions[n]? = some (stub, session))
    (hopen : session.2 ≠ .nothing) :
    ∃ events iq data,
      Machine.Along
        (Exchange.step (resolverParties P S K strategy resolver))
        (runningContract P W strategy resolver I).Allowed events net ∧
      (Machine.final
        (Exchange.step (resolverParties P S K strategy resolver))
        events net).sessions[n]? = some (stub, iq, .put data) ∧
      W.RightPacket P stub data := by
  have hmem := hholds.session _ (List.mem_of_getElem? hsession)
  obtain ⟨m, hstate⟩ := hmem.state
  obtain ⟨l, hl⟩ := Nat.exists_eq_add_of_le (hsettles.length_le hstate)
  have hlive : Live P W strategy resolver I stub bound l stub session :=
    ⟨rfl, hmem, hopen, m, hstate, hl.symm⟩
  obtain ⟨events, m', ⟨iq, action⟩, halong, hfinal, hlive', hdone⟩ :=
    (hsound.running_kept P K resolver hfails).exists_answer
      (runningContract_keepsTags P K strategy resolver I) ⟨[0xFD], rfl⟩
      (hsettles.live_endsWithin hsound hcan hfails hsites) hholds htags hlive
      hsession
  obtain ⟨-, hsession', hacts, -⟩ := hlive'
  cases action with
  | put data => exact ⟨events, iq, data, halong, hfinal, hsession'.acts.2⟩
  | expressInterest sent =>
      simp [resolverParties, FaceAction.pending] at hdone
  | nothing => exact absurd rfl hacts

theorem runningContract_holds_ofSites
    (hsites : ∀ site ∈ sites, site.Serves W ∧ site.up = true) :
    (runningContract P W strategy resolver I).Holds
      (resolverParties P S K strategy resolver)
      (Exchange.Net.ofSites sites) :=
  ⟨rfl, by simp [Exchange.Net.ofSites], by simp [Exchange.Net.ofSites],
    by simp [Exchange.Net.ofSites], hsites, by simp [Exchange.Net.ofSites]⟩

/-- In whatever state a run is, a resolution that has not timed out can be brought
to the right answer. -/
theorem IQStrategy.Settles.exists_answer
    (hsettles : strategy.Settles P W I asked stub bound)
    (hsound : strategy.Sound P W I) (hcan : CanAnswer P W sites asked)
    (hfails : ∀ n, S.fails n = false)
    (hsites : ∀ site ∈ sites, site.Serves W ∧ site.up = true)
    {events : List (Exchange.Event Query Version)}
    {net : Exchange.Net Query (σ × FaceAction) Interest Data Site}
    (hrun : Machine.Along
      (Exchange.step (resolverParties P S K strategy resolver))
      (runningContract P W strategy resolver I).Allowed events
      (Exchange.Net.ofSites sites))
    (hnet : Machine.final
      (Exchange.step (resolverParties P S K strategy resolver))
      events (Exchange.Net.ofSites sites) = net)
    (hsession : net.sessions[n]? = some (stub, session))
    (hopen : session.2 ≠ .nothing) :
    ∃ events' iq data,
      Machine.Along
        (Exchange.step (resolverParties P S K strategy resolver))
        (runningContract P W strategy resolver I).Allowed events' net ∧
      (Machine.final
        (Exchange.step (resolverParties P S K strategy resolver))
        events' net).sessions[n]? = some (stub, iq, .put data) ∧
      W.RightPacket P stub data := by
  have hkept := hsound.running_kept P K resolver hfails
  have hstart : (runningContract P W strategy resolver I).Holds
      (resolverParties P S K strategy resolver)
      (Exchange.Net.ofSites sites) :=
    runningContract_holds_ofSites hsites
  have hholds := hkept.invariant hrun hstart
  have htags := hkept.map_tag
    (runningContract_keepsTags P K strategy resolver I) hrun hstart
  rw [hnet] at hholds htags
  exact hsettles.exists_answer_of_holds hsound hcan hfails hsites hholds
    htags hsession hopen

end Progress

end Ndns

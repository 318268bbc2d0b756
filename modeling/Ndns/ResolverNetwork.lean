import Ndns.Delegation
import Ndns.Lib.Exchange
import Ndns.NameDig
import Ndns.Sites

/-!
# Resolvers and servers on a network

Stubs ask a resolver, and the resolver asks the name servers of the zones, each with
a database of its own.  The network delays packets, loses them and hands them over
again, and a cache in it may answer with a packet that another resolution has asked
for: an Interest is satisfied by every Data whose name it is a prefix of.

If the names are plain, nothing of this matters.  Every resolution is a dialogue
with the stores that the servers hold.  What a strategy has to promise for that,
`IQStrategy.Sound`, is about one exchange.

**Results.**
* `World.Answered.replies`: a packet is the reply to any question it satisfies;
* `Session.exchange`: what a packet makes of a session;
* `IQStrategy.Sound.holds_of_run`: every answer in every run is right.
-/

namespace Ndns

/-- The Interest that an action leaves pending. -/
def FaceAction.pending : FaceAction → Option Interest
  | .expressInterest interest => some interest
  | _ => none

def FaceAction.isPut : FaceAction → Bool
  | .put _ => true
  | _ => false

section Parties

variable {σ : Type}
variable (P : NameParser) (S : Sqlite) (K : PacketCodec)

/-- `NameCachingResolver` in front of name servers.  A session is a strategy and
what was done last for it; a time-out changes nothing in a strategy. -/
def resolverParties (strategy : IQStrategy σ) (resolver : NameCachingResolver) :
    Exchange.Parties Query (σ × FaceAction) Interest Data Site Version where
  start stub := resolver.onInterest P strategy stub.toInterest
  ask session := session.2.pending
  tell version session data :=
    resolver.onData strategy version session.1 data
  timeout session := (session.1, .nothing)
  satisfies data interest := interest.name.isPrefixOf data.name
  reaches interest site := site.receives interest
  reply version interest site := site.onInterest P S K version interest

/-- The network before anything is asked. -/
def Exchange.Net.ofSites (sites : List Site) :
    Exchange.Net Query (σ × FaceAction) Interest Data Site where
  up := true
  sessions := []
  questions := []
  replies := []
  repliers := sites

@[simp] theorem Exchange.Net.up_ofSites (sites : List Site) :
    (@Exchange.Net.ofSites σ sites).up = true := rfl

end Parties

/-- The packet is the right answer to the question of a stub. -/
structure World.RightPacket
    (P : NameParser) (W : World) (stub : Query) (data : Data) : Prop where
  name_eq : ∃ version : Version,
    data.name = NameCachingResolver.answerName stub ++ [version.component]
  right : ∃ re, Response.init.fromData P data = some re ∧
    W.RightAnswer stub.rrLabel stub.rrType re

section Decoding

variable {P : NameParser} {W : World} {data data' : Data} {re : Response}

/-- Right answers are told by their type and their records. -/
theorem World.RightAnswer.congr
    {dst : Name} {type : RRType} {re' : Response}
    (h : W.RightAnswer dst type re)
    (htype : re'.responseType = re.responseType)
    (hrrs : re'.rrs.map (fun rr => Record.mk rr.id rr.rrData) =
      re.rrs.map (fun rr => Record.mk rr.id rr.rrData)) :
    W.RightAnswer dst type re' := by
  have hcarried {a : Answer} (ha : a.CarriedBy re) : a.CarriedBy re' :=
    ⟨htype.trans ha.responseType_eq, hrrs.trans ha.rrs_eq⟩
  unfold World.RightAnswer at h ⊢
  split_ifs at h ⊢ with hns
  · rcases h with ⟨zone, label, hdel, ha⟩ | ⟨hnone, hnack⟩
    · exact Or.inl ⟨zone, label, hdel, hcarried ha⟩
    · exact Or.inr ⟨hnone, htype.trans hnack⟩
  · obtain ⟨zone, s, hchain, hnone, hs, ha⟩ := h
    exact ⟨zone, s, hchain, hnone, hs, hcarried ha⟩

/-- Two packets with one content are read alike, but for labels. -/
theorem fromData_of_content
    (hre : Response.init.fromData P data = some re)
    (hcontent : data'.content = data.content)
    (hname : (Response.init.readName P data'.name).isSome) :
    ∃ re', Response.init.fromData P data' = some re' ∧
      re'.responseType = re.responseType ∧
      re'.rrs.map (fun rr => Record.mk rr.id rr.rrData) =
        re.rrs.map (fun rr => Record.mk rr.id rr.rrData) := by
  obtain ⟨r, hread, hdecode⟩ := Option.bind_eq_some_iff.mp hre
  obtain ⟨r', hread'⟩ := Option.isSome_iff_exists.mp hname
  rw [Response.wireDecode_eq] at hdecode
  obtain ⟨d, hd, rfl⟩ := Option.map_eq_some_iff.mp hdecode
  have hdecode' : Response.init.fromData P data' =
      Response.wireDecode P { r' with
        queryName := data'.name
        freshness := data'.freshnessPeriod
        queryType := data'.contentType } data'.content := by
    rw [Response.fromData, hread']
    rfl
  rw [hcontent, Response.wireDecode_eq, hd, Option.map_some] at hdecode'
  refine ⟨_, hdecode', rfl, ?_⟩
  have hnil := Response.readName_rrs hread
  have hnil' := Response.readName_rrs hread'
  simp only [Response.load, hnil, hnil', Response.init, List.nil_append,
    List.map_map]
  rfl

/-- An answer is named as its question is, but for the hint. -/
theorem answerName_eq (stub : Query) :
    NameCachingResolver.answerName stub =
      (Query.toInterest { stub with forwardingHint := [] }).name := by
  simp [NameCachingResolver.answerName, Query.toInterest,
    Query.hintComponents]

theorem Query.Plain.withoutHint
    {q : Query} (h : q.Plain) :
    Query.Plain { q with forwardingHint := [] } :=
  ⟨by simp [Name.Plain], h.zone, h.label, h.queryType, h.rrType⟩

/-- The name of an answer can be read. -/
theorem isSome_readName_answerName
    {stub : Query} (hplain : stub.Plain) (hne : stub.rrLabel ≠ [])
    (version : Version) :
    (Response.init.readName P (NameCachingResolver.answerName stub ++
      [version.component])).isSome := by
  have hplain' := hplain.withoutHint
  obtain ⟨map, hmap⟩ := Option.isSome_iff_exists.mp
    (hplain'.toQueryBranch hne).2
  rw [answerName_eq, Response.isSome_readName (q := Query.init) hmap
    (matchQueryName_concat_version version hmap), hplain'.roundTrips P hne]
  rfl

end Decoding

section Strategies

variable {σ : Type}

/-- How the resolutions of a strategy go: `I` ties a state to the question of the
stub and to the number of replies so far. -/
structure IQStrategy.Sound
    (P : NameParser) (W : World) (strategy : IQStrategy σ)
    (I : Query → Nat → σ → Prop) : Prop where
  answers : NameCachingResolver.AnswersWithLast P strategy
  getQuery : ∀ {stub n iq}, I stub n iq → strategy.getQuery iq = stub
  init : ∀ {stub}, stub.Plain →
    (strategy.getStep (strategy.init stub)).resolves = true ∧
      I stub 0 (strategy.init stub)
  exchange : ∀ {stub n iq}, stub.Plain → I stub n iq →
    (strategy.getStep iq).resolves = true →
    ∃ q, q.Plain ∧ strategy.toLatestInterest iq = some q.toInterest ∧
      ∀ data re, q.rrLabel ≠ [] →
        Response.init.fromData P data = some re → W.Replies P q re →
        ∃ iq', strategy.doData iq data = some iq' ∧ I stub (n + 1) iq'
  right : ∀ {stub n iq}, I stub n iq → strategy.getStep iq = .AnswerStub →
    W.RightAnswer stub.rrLabel stub.rrType (strategy.getLastResponse iq)

variable (P : NameParser) (W : World) (strategy : IQStrategy σ)
variable (resolver : NameCachingResolver)

/-- What was done for a stub belongs to the state of its resolution. -/
def Acts (stub : Query) (iq : σ) : FaceAction → Prop
  | .put data =>
      strategy.getStep iq = .AnswerStub ∧ W.RightPacket P stub data
  | .expressInterest interest =>
      (strategy.getStep iq).resolves = true ∧
        resolver.resolve strategy iq =
          some (iq, .expressInterest interest)
  | .nothing => True

/-- The session of a stub. -/
structure Session
    (I : Query → Nat → σ → Prop) (stub : Query) (session : σ × FaceAction) :
    Prop where
  plain : stub.Plain
  label_ne_nil : stub.rrLabel ≠ []
  state : ∃ n, I stub n session.1
  acts : Acts P W strategy resolver stub session.1 session.2

/-- A packet that a server has put for some plain question. -/
def World.Answered (data : Data) : Prop :=
  ∃ q s, q.Plain ∧ W q.authorityZone = some s ∧ s.AnsweredBy P q data

end Strategies

section Sessions

variable {σ : Type} {P : NameParser} {W : World} {strategy : IQStrategy σ}
variable {resolver : NameCachingResolver} {I : Query → Nat → σ → Prop}
variable {stub : Query} {data : Data} {n : Nat}

theorem Query.Plain.withLifetime
    {q : Query} (h : q.Plain) (lifetime : Int) :
    Query.Plain { q with interestLifetime := lifetime } :=
  ⟨h.hint, h.zone, h.label, h.queryType, h.rrType⟩

/-- What is answered to a plain question. -/
theorem World.answer_of_plain
    {q : Query} (hplain : q.Plain) (hne : q.rrLabel ≠ []) :
    W.answer P q = (W q.authorityZone).map
      (fun s => s.answer q.rrLabel q.rrType) := by
  rw [World.answer, Option.map_eq_bind]
  exact congrArg _ (funext (fun s =>
    s.onInterest_of_wellNamed P (hplain.wellNamed hne)))

theorem World.replies_iff_of_plain
    {q : Query} {re : Response} (hplain : q.Plain) (hne : q.rrLabel ≠ []) :
    W.Replies P q re ↔ ∃ s, W q.authorityZone = some s ∧
      (s.answer q.rrLabel q.rrType).CarriedBy re := by
  simp [World.Replies, World.answer_of_plain hplain hne,
    Option.map_eq_some_iff]

/-- Whatever a packet was put for, it is the reply to a question that it
satisfies. -/
theorem World.Answered.replies
    {query : Query} (h : W.Answered P data) (hplain : query.Plain)
    (hpre : query.toInterest.name <+: data.name) :
    query.rrLabel ≠ [] ∧ data.content.type = tlv.Content ∧
      ∃ re, Response.init.fromData P data = some re ∧
        W.Replies P query re := by
  obtain ⟨q, s, hq, hs, hanswered⟩ := h
  obtain ⟨version, hname⟩ := hanswered.name_eq
  obtain ⟨re, hread, hcarried⟩ := hanswered.carried
  rw [hname] at hpre
  obtain ⟨-, hzone, hlabel, htype⟩ := hplain.eq_of_isPrefix hq hpre
  have hne : query.rrLabel ≠ [] := hlabel ▸ hanswered.label_ne_nil
  refine ⟨hne, hanswered.content_type, re, hread, ?_⟩
  rw [World.replies_iff_of_plain hplain hne, hzone, hlabel, htype]
  exact ⟨s, hs, hcarried⟩

/-- The Interest of a resolution that goes on. -/
theorem IQStrategy.Sound.resolve_eq
    {iq : σ} (hsound : strategy.Sound P W I) (hplain : stub.Plain)
    (hstate : I stub n iq)
    (hstep : (strategy.getStep iq).resolves = true) :
    ∃ q : Query, q.Plain ∧ resolver.resolve strategy iq =
      some (iq, .expressInterest q.toInterest) := by
  obtain ⟨q, hq, hlatest, -⟩ := hsound.exchange hplain hstate hstep
  exact ⟨_, hq.withLifetime resolver.interestLifetime, by
    rw [NameCachingResolver.resolve, hlatest]
    rfl⟩

/-- What is put behind the last reply is right. -/
theorem IQStrategy.Sound.onData_answerStub
    {iq iq' : σ} {re : Response} (hsound : strategy.Sound P W I)
    (version : Version) (hplain : stub.Plain) (hne : stub.rrLabel ≠ [])
    (hopen : strategy.getStep iq ≠ .AnswerStub)
    (hread : Response.init.fromData P data = some re)
    (htype : data.content.type = tlv.Content)
    (hdo : strategy.doData iq data = some iq') (hstate : I stub n iq')
    (hstep : strategy.getStep iq' = .AnswerStub) :
    ∃ d, resolver.onData strategy version iq data = some (iq', .put d) ∧
      W.RightPacket P stub d := by
  have hlast := hsound.answers.2 iq iq' data hopen hdo hstep
  have hre : re = strategy.getLastResponse iq' :=
    Option.some.inj (hread.symm.trans hlast)
  obtain ⟨d, hdata, hcontent⟩ :=
    NameCachingResolver.toData_content hread htype
  refine ⟨_, resolver.onData_put version hdo hstep (hre ▸ hdata),
    ⟨version, ?_⟩, ?_⟩
  · rw [hsound.getQuery hstate]
  · rw [hsound.getQuery hstate]
    obtain ⟨re', hread', htype', hrrs'⟩ := fromData_of_content hread
      (show Data.content { d with
        name := NameCachingResolver.answerName stub ++ [version.component]
        freshnessPeriod := resolver.contentFreshness } = _ from hcontent)
      (isSome_readName_answerName hplain hne version)
    have hright := hsound.right hstate hstep
    rw [← hre] at hright
    exact ⟨re', hread', hright.congr htype' hrrs'⟩

/-- A packet that satisfies the pending Interest is its reply. -/
theorem Session.exchange
    {session : σ × FaceAction} {interest : Interest}
    (hsound : strategy.Sound P W I)
    (h : Session P W strategy resolver I stub session)
    (hstate : I stub n session.1)
    (version : Version) (hpending : session.2.pending = some interest)
    (hpre : interest.name <+: data.name) (hdata : W.Answered P data) :
    ∃ session', resolver.onData strategy version session.1 data =
        some session' ∧
      Session P W strategy resolver I stub session' ∧
      I stub (n + 1) session'.1 ∧
      (session'.2 = .nothing →
        (strategy.getStep session'.1).resolves = false ∧
          strategy.getStep session'.1 ≠ .AnswerStub) := by
  obtain ⟨iq, action⟩ := session
  obtain ⟨hplain, hne, -, hacts⟩ := h
  dsimp only at hstate hacts hpending
  obtain ⟨hresolves, hresolve⟩ : (strategy.getStep iq).resolves = true ∧
      resolver.resolve strategy iq =
        some (iq, .expressInterest interest) := by
    cases action with
    | put d => simp [FaceAction.pending] at hpending
    | nothing => simp [FaceAction.pending] at hpending
    | expressInterest sent =>
        obtain rfl : sent = interest := Option.some.inj hpending
        exact hacts
  obtain ⟨q, hq, hlatest, htell⟩ := hsound.exchange hplain hstate hresolves
  rw [NameCachingResolver.resolve, hlatest, Option.map_some,
    Option.some.injEq, Prod.mk.injEq, FaceAction.expressInterest.injEq]
    at hresolve
  rw [← hresolve.2] at hpre
  obtain ⟨hlabel, htype, re, hread, hreplies⟩ := hdata.replies hq hpre
  obtain ⟨iq', hdo, hnext⟩ := htell data re hlabel hread hreplies
  have hopen : strategy.getStep iq ≠ .AnswerStub := by
    intro hstub
    rw [hstub] at hresolves
    exact absurd hresolves (by decide)
  by_cases hstub : strategy.getStep iq' = .AnswerStub
  · obtain ⟨d, honData, hright⟩ := hsound.onData_answerStub (I := I)
      version hplain hne hopen hread htype hdo hnext hstub
    exact ⟨_, honData, ⟨hplain, hne, ⟨_, hnext⟩, hstub, hright⟩, hnext,
      by simp⟩
  by_cases hresolves' : (strategy.getStep iq').resolves = true
  · obtain ⟨q', -, hresolve'⟩ :=
      hsound.resolve_eq hplain hnext hresolves'
    exact ⟨_, (resolver.onData_resolve version hdo hresolves').trans
      hresolve', ⟨hplain, hne, ⟨_, hnext⟩, hresolves', hresolve'⟩, hnext,
      by simp⟩
  · exact ⟨_, resolver.onData_nothing version hdo hstub
      (Bool.not_eq_true _ ▸ hresolves'), ⟨hplain, hne, ⟨_, hnext⟩, trivial⟩,
      hnext, fun _ => ⟨Bool.not_eq_true _ ▸ hresolves', hstub⟩⟩

end Sessions

section Runs

variable {σ : Type} (P : NameParser) (S : Sqlite) (K : PacketCodec)
variable (W : World) (strategy : IQStrategy σ)
variable (resolver : NameCachingResolver) (I : Query → Nat → σ → Prop)

/-- The stubs ask plain questions, the servers hold the stores of the world, and no
response is too long; then all sessions are dialogues with the stores. -/
def resolverContract :
    Exchange.Contract Query (σ × FaceAction) Interest Data Site Version where
  starts stub := stub.Plain ∧ stub.rrLabel ≠ []
  session := Session P W strategy resolver I
  question interest := ∃ q : Query, q.Plain ∧ q.toInterest = interest
  reply := W.Answered P
  replier := Site.Serves W
  works version interest site := ∀ q : Query, q.Plain →
    q.toInterest = interest → site.ReplyFits version q

variable {W strategy I}

/-- A check of a step: the questions that are worked on are among some that are
given. -/
def FitsAmong (qs : List Query) :
    Exchange.Event Query Version →
      Exchange.Net Query (σ × FaceAction) Interest Data Site → Prop
  | .start stub, _ => stub.Plain ∧ stub.rrLabel ≠ []
  | .work n m version, net =>
      ∀ interest ∈ net.questions[n]?, ∃ q ∈ qs, q.toInterest = interest ∧
        ∀ site ∈ net.repliers[m]?, site.ReplyFits version q
  | _, _ => True

instance (qs : List Query) :
    ∀ (event : Exchange.Event Query Version)
      (net : Exchange.Net Query (σ × FaceAction) Interest Data Site),
      Decidable (FitsAmong qs event net)
  | .start stub, _ =>
      inferInstanceAs (Decidable (stub.Plain ∧ stub.rrLabel ≠ []))
  | .work n m version, net =>
      inferInstanceAs (Decidable (∀ interest ∈ net.questions[n]?,
        ∃ q ∈ qs, q.toInterest = interest ∧
          ∀ site ∈ net.repliers[m]?, site.ReplyFits version q))
  | .hear .., _ => isTrue trivial
  | .timeout _, _ => isTrue trivial

theorem allowed_of_fitsAmong
    {qs : List Query} (hqs : ∀ q ∈ qs, q.Plain)
    (event : Exchange.Event Query Version)
    (net : Exchange.Net Query (σ × FaceAction) Interest Data Site)
    (h : FitsAmong qs event net) :
    (resolverContract P W strategy resolver I).Allowed event net := by
  cases event with
  | start stub => exact h
  | work n m version =>
      rintro interest hinterest site hsite q' hplain' rfl
      obtain ⟨q, hq, hname, hfits⟩ := h _ hinterest
      exact (hfits site hsite).of_name_eq (hqs q hq) hplain'
        (congrArg Interest.name hname.symm)
  | hear => trivial
  | timeout => trivial

/-- A session that was seen to have a packet. -/
theorem exists_put_of_mem
    {sessions : List (Query × σ × FaceAction)} {stub : Query}
    (h : (stub, true) ∈ sessions.map (fun x => (x.1, x.2.2.isPut))) :
    ∃ iq data, (stub, iq, FaceAction.put data) ∈ sessions := by
  obtain ⟨⟨stub', iq, action⟩, hmem, hstub⟩ := List.mem_map.mp h
  obtain ⟨rfl, haction⟩ := Prod.mk.inj hstub
  cases action with
  | put data => exact ⟨iq, data, hmem⟩
  | expressInterest sent => exact absurd haction (by simp [FaceAction.isPut])
  | nothing => exact absurd haction (by simp [FaceAction.isPut])

/-- The only session has its packet. -/
theorem exists_put_of_map
    {sessions : List (Query × σ × FaceAction)} {stub : Query}
    (h : sessions.map (fun x => (x.1, x.2.2.isPut)) = [(stub, true)]) :
    ∃ iq data, sessions = [(stub, iq, .put data)] := by
  obtain ⟨iq, data, hmem⟩ :=
    exists_put_of_mem (h ▸ List.mem_singleton_self (stub, true))
  obtain ⟨x, rfl, -⟩ := List.map_eq_singleton_iff.mp h
  exact ⟨iq, data, by rw [List.mem_singleton.mp hmem]⟩

/-- How the session of a stub starts. -/
theorem resolverParties_start
    {stub : Query} (strategy : IQStrategy σ) (hplain : stub.Plain)
    (hne : stub.rrLabel ≠ []) :
    (resolverParties P S K strategy resolver).start stub =
      resolver.resolve strategy (strategy.init stub) := by
  have hread : Query.init.fromInterest P stub.toInterest =
      some (true, stub) :=
    hplain.roundTrips P hne
  simp only [resolverParties, NameCachingResolver.onInterest, hread]
  rfl

theorem IQStrategy.Sound.kept (hsound : strategy.Sound P W I) :
    (resolverContract P W strategy resolver I).Kept
      (resolverParties P S K strategy resolver) where
  start stub := by
    rintro ⟨hplain, hne⟩
    obtain ⟨hstep, hstate⟩ := hsound.init hplain
    obtain ⟨q, -, hresolve⟩ :=
      hsound.resolve_eq hplain hstate hstep
    exact ⟨_, (resolverParties_start P S K resolver strategy hplain
      hne).trans hresolve, hplain, hne, ⟨0, hstate⟩, hstep, hresolve⟩
  ask stub session h interest hask := by
    obtain ⟨iq, action⟩ := session
    obtain ⟨hplain, -, ⟨n, hstate⟩, hacts⟩ := h
    cases action with
    | put data => simp [resolverParties, FaceAction.pending] at hask
    | nothing => simp [resolverParties, FaceAction.pending] at hask
    | expressInterest sent =>
        obtain ⟨hstep, hresolve⟩ := hacts
        obtain rfl : sent = interest := Option.some.inj hask
        obtain ⟨q, hq, heq⟩ :=
          hsound.resolve_eq hplain hstate hstep
        obtain ⟨-, hsent⟩ :=
          Prod.mk.inj (Option.some.inj (heq.symm.trans hresolve))
        exact ⟨q, hq, FaceAction.expressInterest.inj hsent⟩
  tell version stub session interest data h hask hsatisfies hdata := by
    obtain ⟨n, hstate⟩ := h.state
    obtain ⟨session', honData, hsession, -, -⟩ :=
      h.exchange hsound hstate version hask
        (List.isPrefixOf_iff_prefix.mp hsatisfies) hdata
    exact ⟨session', honData, hsession⟩
  timeout stub session h := ⟨h.plain, h.label_ne_nil, h.state, trivial⟩
  reply version interest site hworks hreaches hquestion hsite := by
    obtain ⟨q, hplain, rfl⟩ := hquestion
    obtain ⟨hputs, hnext⟩ := hsite.onInterest (P := P) (S := S) (K := K)
      hplain hreaches (hworks q hplain rfl)
    refine ⟨fun d hd => ?_, hnext⟩
    obtain ⟨s, hs, hanswered⟩ := hputs d hd
    exact ⟨q, s, hplain, hs, hanswered⟩

/-- In every run, the resolver goes on and what it has put is right. -/
theorem IQStrategy.Sound.holds_of_run
    (hsound : strategy.Sound P W I)
    {sites : List Site} (hsites : ∀ site ∈ sites, site.Serves W)
    {events : List (Exchange.Event Query Version)}
    (hrun : Machine.Along
      (Exchange.step (resolverParties P S K strategy resolver))
      (resolverContract P W strategy resolver I).Allowed events
      (Exchange.Net.ofSites sites)) :
    (resolverContract P W strategy resolver I).Holds
      (resolverParties P S K strategy resolver)
      (Machine.final
        (Exchange.step (resolverParties P S K strategy resolver))
        events (Exchange.Net.ofSites sites)) :=
  (hsound.kept P S K resolver).invariant hrun
    ⟨rfl, by simp [Exchange.Net.ofSites], by simp [Exchange.Net.ofSites],
      by simp [Exchange.Net.ofSites], hsites,
      by simp [Exchange.Net.ofSites]⟩

end Runs

end Ndns

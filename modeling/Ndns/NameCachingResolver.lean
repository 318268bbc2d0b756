import Ndns.AdversarialReplies
import Ndns.NameCut

/-!
# The resolver

`name-caching-resolver.hpp`: the resolver takes the question of a stub out of
the name of its Interest, follows a strategy until that has an answer, and puts
the answer under a name that it builds from zone, query type, label and record
type of the question.

**Results.**
* `onData_satisfies_iff`: the name of the answer extends the name of the
  Interest exactly when that name is made of these four parts.
-/

namespace Ndns

/-- What `NameCachingResolver` uses of a strategy; `none` for a thrown error. -/
structure IQStrategy (σ : Type) where
  init : Query → σ
  doData : σ → Data → Option σ
  toLatestInterest : σ → Option Interest
  getStep : σ → QuerySteps
  getQuery : σ → Query
  getLastResponse : σ → Response

/-- `NameCachingResolver<IterativeQuery>` -/
def plainStrategy (P : NameParser) : IQStrategy IterativeQuery where
  init := IterativeQuery.init
  doData := IterativeQuery.doData P
  toLatestInterest iq := some iq.toLatestInterest
  getStep iq := iq.step
  getQuery iq := iq.query
  getLastResponse iq := iq.lastResponse

/-- `NameCachingResolver<IterativeQueryWithForwardingHint>`; the hint is empty
when forwarding hints are disabled. -/
def hintedStrategy (P : NameParser) (rootHint : Name) :
    IQStrategy IterativeQueryWithForwardingHint where
  init query := IterativeQueryWithForwardingHint.init query rootHint
  doData := IterativeQueryWithForwardingHint.doData P
  toLatestInterest := IterativeQueryWithForwardingHint.toLatestInterest P
  getStep iq := iq.step
  getQuery iq := iq.query
  getLastResponse iq := iq.lastResponse

/-- What the resolver does on its face. -/
inductive FaceAction where
  | put (data : Data)
  | expressInterest (interest : Interest)
  | nothing

structure NameCachingResolver where
  /-- Milliseconds. -/
  contentFreshness : Int
  /-- Milliseconds. -/
  interestLifetime : Int

namespace NameCachingResolver

/-- The name of an answer in front of its version. -/
def answerName (query : Query) : Name :=
  query.authorityZone ++ [query.queryType.toString] ++ query.rrLabel ++
    [query.rrType.toString]

variable {σ : Type}

/-- `NameCachingResolver::resolve` -/
def resolve (S : IQStrategy σ) (resolver : NameCachingResolver) (iq : σ) :
    Option (σ × FaceAction) :=
  (S.toLatestInterest iq).map (fun interest =>
    (iq, .expressInterest
      { interest with interestLifetime := resolver.interestLifetime }))

/-- `NameCachingResolver::onInterest`; `none` for a thrown error.  Whether the name
was understood is not looked at. -/
def onInterest
    (P : NameParser) (S : IQStrategy σ) (resolver : NameCachingResolver)
    (interest : Interest) : Option (σ × FaceAction) := do
  let (_, query) ← Query.init.fromInterest P interest
  resolver.resolve S (S.init query)

/-- `NameCachingResolver::onData`; `none` for a thrown error. -/
def onData
    (S : IQStrategy σ) (resolver : NameCachingResolver) (version : Version)
    (iq : σ) (data : Data) : Option (σ × FaceAction) := do
  let iq ← S.doData iq data
  match S.getStep iq with
  | .AnswerStub =>
      let data ← (S.getLastResponse iq).toData
      return (iq, .put { data with
        name := answerName (S.getQuery iq) ++ [version.component]
        freshnessPeriod := resolver.contentFreshness })
  | .NSQuery | .RRQuery | .FHQuery => resolver.resolve S iq
  | _ => return (iq, .nothing)

/-- Replies that lead to an answer for the stub. -/
inductive Answers (S : IQStrategy σ) (resolver : NameCachingResolver) :
    σ → List Data → Data → Prop
  | put {iq iq' : σ} {data answer : Data} (version : Version)
      (h : resolver.onData S version iq data = some (iq', .put answer)) :
      Answers S resolver iq [data] answer
  | express {iq iq' : σ} {data answer : Data} {datas : List Data}
      {interest : Interest} (version : Version)
      (h : resolver.onData S version iq data =
        some (iq', .expressInterest interest))
      (hrest : Answers S resolver iq' datas answer) :
      Answers S resolver iq (data :: datas) answer

/-- Every answer to the question satisfies the Interest of the stub. -/
def Satisfies (S : IQStrategy σ) (resolver : NameCachingResolver)
    (interest : Interest) (query : Query) : Prop :=
  ∀ datas answer, Answers S resolver (S.init query) datas answer →
    interest.name <+: answer.name

/-- The name is a zone, a query type, a label and a record type, as they are
cut. -/
def IsQueryName (name : Name) : Prop :=
  ∃ (zone label : Name) (queryType : QueryType) (rrType : RRType),
    name = zone ++ queryType.toString :: (label ++ [rrType.toString]) ∧
      queryType.isQueried = true ∧ rrType.isQueried = true ∧
      label ≠ [] ∧
      (∀ c ∈ zone, ¬ marker <:+ Component.toUri c) ∧
      ∀ d ∈ label.dropLast, ¬ EndsInQueryWord d

section AnswerNames

variable {S : IQStrategy σ} {resolver : NameCachingResolver}

/-- A strategy that keeps the question it was given. -/
def KeepsQuery (S : IQStrategy σ) : Prop :=
  ∀ iq iq' data, S.doData iq data = some iq' →
    S.getQuery iq' = S.getQuery iq

theorem onData_eq_some
    {version : Version} {iq iq' : σ} {data : Data} {action : FaceAction}
    (h : resolver.onData S version iq data = some (iq', action)) :
    S.doData iq data = some iq' ∧
      ∀ answer, action = .put answer →
        S.getStep iq' = .AnswerStub ∧
          answer.name =
            answerName (S.getQuery iq') ++ [version.component] := by
  unfold onData at h
  simp only [Option.bind_eq_bind, Option.bind_eq_some_iff] at h
  obtain ⟨iq₁, hdo, h⟩ := h
  split at h
  · next hstep =>
      obtain ⟨data', -, h⟩ := Option.bind_eq_some_iff.mp h
      obtain ⟨rfl, rfl⟩ := Prod.mk.inj (Option.some.inj h)
      refine ⟨hdo, ?_⟩
      rintro answer ⟨⟩
      exact ⟨hstep, rfl⟩
  all_goals
    first
    | (obtain ⟨interest, -, h⟩ := Option.map_eq_some_iff.mp h
       obtain ⟨rfl, rfl⟩ := Prod.mk.inj h
       exact ⟨hdo, fun answer h => FaceAction.noConfusion h⟩)
    | (obtain ⟨rfl, rfl⟩ := Prod.mk.inj (Option.some.inj h)
       exact ⟨hdo, fun answer h => FaceAction.noConfusion h⟩)

/-- Whatever the replies are, the answer is named after the question. -/
theorem Answers.name_eq
    (hkeeps : KeepsQuery S) {iq : σ} {datas : List Data} {answer : Data}
    (h : Answers S resolver iq datas answer) :
    ∃ version : Version,
      answer.name =
        answerName (S.getQuery iq) ++ [version.component] := by
  induction h with
  | put version h =>
      obtain ⟨hdo, hput⟩ := onData_eq_some h
      refine ⟨version, ?_⟩
      rw [(hput _ rfl).2, hkeeps _ _ _ hdo]
  | express version h hrest ih =>
      obtain ⟨hdo, -⟩ := onData_eq_some h
      rw [hkeeps _ _ _ hdo] at ih
      exact ih

theorem keepsQuery_plain (P : NameParser) : KeepsQuery (plainStrategy P) := by
  intro iq iq' data h
  obtain ⟨re, -, rfl⟩ := Option.map_eq_some_iff.mp h
  exact iq.doResponse_query re

theorem keepsQuery_hinted (P : NameParser) (rootHint : Name) :
    KeepsQuery (hintedStrategy P rootHint) := by
  intro iq iq' data h
  obtain ⟨re, -, h⟩ := Option.bind_eq_some_iff.mp h
  exact (IterativeQueryWithForwardingHint.moved h).query

end AnswerNames

section Denials

variable {S : IQStrategy σ} (resolver : NameCachingResolver)

/-- A Data packet with a Nack, under a name that says nothing. -/
def denial : Data where
  name := []
  contentType := QueryType.DNS.code
  freshnessPeriod := 3600
  content := nackReply.toBlock

/-- The Nack that a denial is decoded to. -/
def denied : Response :=
  { nackReply with wire := some nackReply.toBlock }

theorem fromData_denial (P : NameParser) :
    Response.init.fromData P denial = some denied := by
  have hdecode := Response.fromData_packet P nackReply Response.init
    (by simp [nackReply, Response.init]) (by decide) (by decide)
    (by decide +kernel)
  rw [show nackReply.queryName = [] from rfl, Response.readName_root]
    at hdecode
  exact hdecode

theorem onData_put
    {iq iq' : σ} {data answer : Data} (version : Version)
    (hdo : S.doData iq data = some iq')
    (hstep : S.getStep iq' = .AnswerStub)
    (hanswer : (S.getLastResponse iq').toData = some answer) :
    resolver.onData S version iq data =
      some (iq', .put { answer with
        name := answerName (S.getQuery iq') ++ [version.component]
        freshnessPeriod := resolver.contentFreshness }) := by
  simp [onData, hdo, hstep, hanswer]

theorem onData_resolve
    {iq iq' : σ} {data : Data} (version : Version)
    (hdo : S.doData iq data = some iq')
    (hstep : (S.getStep iq').resolves = true) :
    resolver.onData S version iq data = resolver.resolve S iq' := by
  unfold onData
  rw [hdo]
  revert hstep
  cases hstep : S.getStep iq' <;> simp [hstep, QuerySteps.resolves]

theorem onData_nothing
    {iq iq' : σ} {data : Data} (version : Version)
    (hdo : S.doData iq data = some iq')
    (hstub : S.getStep iq' ≠ .AnswerStub)
    (hstep : (S.getStep iq').resolves = false) :
    resolver.onData S version iq data = some (iq', .nothing) := by
  unfold onData
  rw [hdo]
  revert hstep hstub
  cases hstep : S.getStep iq' <;> simp [hstep, QuerySteps.resolves]

theorem onData_express
    {iq iq' : σ} {data : Data} {interest : Interest} (version : Version)
    (hdo : S.doData iq data = some iq')
    (hstep : S.getStep iq' = .RRQuery)
    (hnext : S.toLatestInterest iq' = some interest) :
    resolver.onData S version iq data =
      some (iq', .expressInterest
        { interest with interestLifetime := resolver.interestLifetime }) := by
  simp [onData, hdo, hstep, resolve, hnext]

/-- A strategy that a denial answers, at once or behind a second one. -/
def AnsweredByDenials (S : IQStrategy σ) (query : Query) : Prop :=
  ∃ iq, S.doData (S.init query) denial = some iq ∧
    (S.getStep iq = .AnswerStub ∧ S.getLastResponse iq = denied ∨
      S.getStep iq = .RRQuery ∧ (∃ interest,
        S.toLatestInterest iq = some interest) ∧
        ∃ iq', S.doData iq denial = some iq' ∧
          S.getStep iq' = .AnswerStub ∧ S.getLastResponse iq' = denied)

theorem denied_toData :
    denied.toData =
      some (Data.setContent {
        name := []
        contentType := QueryType.DNS.code
        freshnessPeriod := 3600
        content := Data.init.content } nackReply.toBlock) := by
  rfl

theorem exists_answers
    {query : Query} (hkeeps : KeepsQuery S)
    (h : AnsweredByDenials S query) (version : Version) :
    ∃ datas answer,
      Answers S resolver (S.init query) datas answer ∧
        answer.name =
          answerName (S.getQuery (S.init query)) ++
            [version.component] := by
  obtain ⟨iq, hdo, hend | ⟨hstep, ⟨interest, hnext⟩, iq', hdo', hend⟩⟩ := h
  · obtain ⟨hstep, hlast⟩ := hend
    have hput := resolver.onData_put version hdo hstep
      (by rw [hlast, denied_toData])
    rw [hkeeps _ _ _ hdo] at hput
    exact ⟨_, _, Answers.put version hput, rfl⟩
  · obtain ⟨hstub, hlast⟩ := hend
    have hexpress := resolver.onData_express version hdo hstep
      hnext
    have hput := resolver.onData_put version hdo' hstub
      (by rw [hlast, denied_toData])
    rw [hkeeps _ _ _ hdo', hkeeps _ _ _ hdo] at hput
    exact ⟨_, _, Answers.express version hexpress
      (Answers.put version hput), rfl⟩

theorem answeredByDenials_plain (P : NameParser) (query : Query) :
    AnsweredByDenials (plainStrategy P) query := by
  have hdo (iq : IterativeQuery) :
      (plainStrategy P).doData iq denial = some (iq.doResponse denied) := by
    simp [plainStrategy, IterativeQuery.doData, fromData_denial]
  refine ⟨_, hdo _, ?_⟩
  by_cases ht : query.rrType = .NS
  · left
    simp [plainStrategy, IterativeQuery.doResponse, IterativeQuery.nackStep,
      IterativeQuery.init, denied, nackReply, ht]
  · right
    refine ⟨?_, ⟨_, rfl⟩, _, hdo _, ?_⟩ <;>
      simp [plainStrategy, IterativeQuery.doResponse,
        IterativeQuery.nackStep, IterativeQuery.init, denied, nackReply, ht]

theorem answeredByDenials_hinted
    (P : NameParser) (rootHint : Name) (query : Query) :
    AnsweredByDenials (hintedStrategy P rootHint) query := by
  have hdo (iq : IterativeQueryWithForwardingHint) :
      (hintedStrategy P rootHint).doData iq denial =
        some { iq with
          step := iq.nackStep
          lastResponse := denied } := by
    simp only [hintedStrategy, IterativeQueryWithForwardingHint.doData,
      fromData_denial, Option.bind_some]
    exact iq.doResponse_nack P denied rfl
  have hnext {iq : IterativeQueryWithForwardingHint}
      (h : iq.step = .RRQuery) :
      ∃ interest, iq.toLatestInterest P = some interest := by
    rw [IterativeQueryWithForwardingHint.toLatestInterest,
      IterativeQueryWithForwardingHint.latestQuery_of_RRQuery h]
    exact ⟨_, rfl⟩
  refine ⟨_, hdo _, ?_⟩
  by_cases ht : query.rrType = .NS
  · left
    simp [hintedStrategy, IterativeQueryWithForwardingHint.nackStep,
      IterativeQueryWithForwardingHint.init, IterativeQuery.init, ht]
  · right
    refine ⟨?_, hnext ?_, _, hdo _, ?_⟩ <;>
      simp [hintedStrategy, IterativeQueryWithForwardingHint.nackStep,
        IterativeQueryWithForwardingHint.init, IterativeQuery.init, ht]

end Denials

section StubNames

variable {P : NameParser} {interest : Interest} {query : Query}

theorem prefix_of_versions {name base : Name}
    (h : ∀ version : Version, name <+: base ++ [version.component]) :
    name <+: base := by
  rcases List.prefix_concat_iff.mp (h ⟨[0xFD], rfl⟩) with h₁ | h₁
  · rcases List.prefix_concat_iff.mp (h ⟨[0xFD, 0], rfl⟩) with h₂ | h₂
    · have heq := List.append_cancel_left (h₁.symm.trans h₂)
      exact absurd heq (by decide)
    · exact h₂
  · exact h₁

/-- Every run is named after the question of the stub. -/
theorem satisfies_iff_extends
    {S : IQStrategy σ} (resolver : NameCachingResolver)
    (hquery : S.getQuery (S.init query) = query)
    (hkeeps : KeepsQuery S) (hdenials : AnsweredByDenials S query) :
    Satisfies S resolver interest query ↔
      interest.name <+: answerName query := by
  constructor
  · intro h
    refine prefix_of_versions (fun version => ?_)
    obtain ⟨datas, answer, hrun, hname⟩ :=
      exists_answers resolver hkeeps hdenials version
    rw [← hquery, ← hname]
    exact h datas answer hrun
  · intro h datas answer hrun
    obtain ⟨version, hname⟩ := hrun.name_eq hkeeps
    rw [hname, hquery]
    exact h.trans (List.prefix_append _ _)

/-- What `fromInterest` reads is what the pattern cuts. -/
theorem fromInterest_nameCut
    (h : Query.init.fromInterest P interest = some (true, query)) :
    ∃ (map : NameMap)
      (k : NameCut queryWords queryTypes interest.name map),
      P.ofUri map.zone = some query.authorityZone ∧
        query.rrLabel = k.label ∧
        query.queryType = toQueryType map.queryType ∧
        query.rrType = toRRType map.rrType := by
  unfold Query.fromInterest at h
  split at h
  · next map hmatch =>
      obtain ⟨query', hread, hquery⟩ := Option.map_eq_some_iff.mp h
      obtain rfl := (Prod.mk.inj hquery).2
      obtain ⟨k⟩ := exists_nameCut queryVocabulary (by decide +kernel) hmatch
      unfold Query.fromInterestMap at hread
      simp only [Option.bind_eq_bind, Option.bind_eq_some_iff] at hread
      obtain ⟨zone, hzone, label, hlabel, hint, -, hread⟩ := hread
      obtain rfl := Option.some.inj hread
      rw [k.label_eq, P.ofUri_path k.label_ne_nil] at hlabel
      exact ⟨map, k, hzone, (Option.some.inj hlabel).symm, rfl, rfl⟩
  · next hmatch =>
      simp at h

theorem toString_toQueryType {word : Bytes} (h : word ∈ queryWords) :
    (toQueryType word).toString = word ∧
      (toQueryType word).isQueried = true ∧
      Component.toUri word = word ∧ wordAt queryTypes word = none := by
  simp only [queryWords, List.mem_cons, List.not_mem_nil, or_false] at h
  rcases h with rfl | rfl
  · decide
  · decide

theorem toString_toRRType {type : Bytes} (h : type ∈ queryTypes) :
    (toRRType type).toString = type ∧
      (toRRType type).isQueried = true := by
  simp only [queryTypes, List.mem_cons, List.not_mem_nil, or_false] at h
  rcases h with rfl | rfl | rfl | rfl
  · decide
  · decide
  · decide
  · decide

theorem eq_of_append_singleton_eq_cons
    {α : Type} {x y : α} {l : List α} (h : l ++ [x] = y :: l) :
    x = y := by
  induction l with
  | nil =>
      simpa using h
  | cons a l ih =>
      obtain ⟨hy, htail⟩ := List.cons.inj h
      exact ih (hy ▸ htail)

/-- One component that is counted with the zone shifts the label. -/
theorem type_of_shifted
    {front label tail : Name} {c d x word type : Component}
    (h : front ++ c :: (label ++ d :: tail) <+:
      front ++ [x] ++ word :: (label ++ [type])) :
    d = word := by
  rw [List.append_assoc, List.prefix_append_right_inj, List.singleton_append,
    List.cons_prefix_cons] at h
  have hlabel : label ++ [d] <+: word :: (label ++ [type]) := by
    refine List.IsPrefix.trans ?_ h.2
    exact ⟨tail, by simp⟩
  rw [← List.cons_append] at hlabel
  have heq : label ++ [d] = word :: label :=
    (List.prefix_append_right_inj []).mp (by
      simpa using List.prefix_of_prefix_length_le hlabel
        (List.prefix_append (word :: label) [type]) (by simp)) |>.eq_of_length
      (by simp)
  exact eq_of_append_singleton_eq_cons heq

/-- Components in front of the zone are not put back. -/
theorem word_of_hinted
    {hint zone zone' label tail : Name} {m c d word type : Component}
    (hzone : zone' = zone ∨ ∃ x, zone' = zone ++ [x])
    (h : hint ++ m :: zone ++ c :: (label ++ d :: tail) <+:
      zone' ++ word :: (label ++ [type])) :
    zone' ≠ zone ∧ c = word := by
  have hlength := h.length_le
  rcases hzone with rfl | ⟨x, rfl⟩
  · simp only [List.length_append, List.length_cons, List.length_nil]
      at hlength
    omega
  · simp only [List.length_append, List.length_cons, List.length_nil]
      at hlength
    obtain rfl := List.length_eq_zero_iff.mp (show hint.length = 0 by omega)
    obtain rfl := List.length_eq_zero_iff.mp (show tail.length = 0 by omega)
    have heq := h.eq_of_length (by simp; omega)
    rw [List.nil_append] at heq
    have hrest := (List.append_inj heq (by simp)).2
    exact ⟨by simp, (List.cons.inj hrest).1⟩

/-- A name that is answered under an extension is cut into its components. -/
theorem isQueryName_of_prefix
    {name : Name} {map : NameMap}
    (k : NameCut queryWords queryTypes name map)
    (hzone : P.ofUri map.zone = some query.authorityZone)
    (hlabel : query.rrLabel = k.label)
    (hqueryType : query.queryType = toQueryType map.queryType)
    (hrrType : query.rrType = toRRType map.rrType)
    (h : name <+: answerName query) :
    IsQueryName name := by
  obtain ⟨hword, hqueried, hwordUri, hwordAt⟩ :=
    toString_toQueryType k.word_mem
  have htypeMem : map.rrType ∈ queryTypes :=
    List.mem_of_find?_eq_some k.wordAt_eq
  obtain ⟨htype, htyped⟩ := toString_toRRType htypeMem
  have hanswer : answerName query =
      query.authorityZone ++
        map.queryType :: (k.label ++ [map.rrType]) := by
    simp [answerName, hlabel, hqueryType, hrrType, hword, htype]
  have huri := uriByte_of_mem_stem k.word_eq
  have hname : k.front ++ k.wordComponent ::
      (k.label ++ k.typeComponent :: k.tail) <+:
        query.authorityZone ++
          map.queryType :: (k.label ++ [map.rrType]) := by
    rw [← k.name_eq, ← hanswer]
    exact h
  cases k.frontCut with
  | plain hfree hhint hzoneText =>
      rw [hzoneText] at hzone
      by_cases hstem : k.stem = []
      · -- the zone is what stands in front of the word
        rw [hstem, P.ofUri_path_slash] at hzone
        rw [← Option.some.inj hzone, List.prefix_append_right_inj,
          List.cons_prefix_cons, List.prefix_append_right_inj,
          List.cons_prefix_cons, List.prefix_nil] at hname
        obtain ⟨hc, hd, htail⟩ := hname
        refine ⟨k.front, k.label, toQueryType map.queryType,
          toRRType map.rrType, ?_, hqueried, htyped, k.label_ne_nil, hfree,
          ?_⟩
        · rw [hword, htype, ← hc, ← hd, ← htail]
          exact k.name_eq
        · rintro e he ⟨w, hw, hsuf⟩
          exact k.label_clean e he w hw hsuf
      · -- the word would be the type
        obtain ⟨x, hx⟩ := P.ofUri_segment _ _ k.stem huri hstem hzone
        rw [hx] at hname
        have hat := k.wordAt_eq
        rw [type_of_shifted hname, hwordUri, hwordAt] at hat
        exact absurd hat (by simp)
  | hinted hfront hm hfree hhint hzoneText =>
      rw [hzoneText] at hzone
      rw [hfront] at hname
      by_cases hstem : k.stem = []
      · rw [hstem, P.ofUri_path_slash] at hzone
        have hzone' := (Option.some.inj hzone).symm
        exact absurd hzone' (word_of_hinted (Or.inl hzone') hname).1
      · obtain ⟨x, hx⟩ := P.ofUri_segment _ _ k.stem huri hstem hzone
        have hc := k.word_eq
        rw [(word_of_hinted (Or.inr ⟨x, hx⟩) hname).2, hwordUri] at hc
        exact absurd (List.self_eq_append_left.mp hc) hstem

/-- A name made of the four parts is cut into them. -/
theorem answerName_prefix_of_isQueryName
    (h : Query.init.fromInterest P interest = some (true, query))
    (hname : IsQueryName interest.name) :
    interest.name <+: answerName query := by
  obtain ⟨zone, label, queryType, rrType, heq, hq, ht, hne, hfree, hclean⟩ :=
    hname
  obtain ⟨hword, hmem⟩ := toUri_queryWord hq
  have hmarks : ∀ e ∈ Name.segments zone, ¬ marker <:+ e := by
    intro e he
    obtain ⟨c, hc, rfl⟩ := List.mem_map.mp he
    exact hfree c hc
  have htail : ∀ d ∈ ([] : Name), wordAt queryTypes (Component.toUri d) =
      none := by
    simp
  have hmatch := matchQueryName_cut (hword.trans (List.nil_append _).symm)
    hmem hne hclean ht htail hmarks
  rw [← heq] at hmatch
  unfold Query.fromInterest at h
  rw [hmatch] at h
  obtain ⟨query', hread, hquery⟩ := Option.map_eq_some_iff.mp h
  obtain rfl := (Prod.mk.inj hquery).2
  simp only [Query.fromInterestMap, P.ofUri_path_slash, P.ofUri_path hne,
    Query.hintOfMap, Option.bind_eq_bind, Option.bind_some] at hread
  obtain rfl := Option.some.inj hread
  rw [heq]
  simp [answerName]

theorem prefix_iff_isQueryName
    (h : Query.init.fromInterest P interest = some (true, query)) :
    interest.name <+: answerName query ↔ IsQueryName interest.name := by
  constructor
  · intro hprefix
    obtain ⟨map, k, hzone, hlabel, hqueryType, hrrType⟩ :=
      fromInterest_nameCut h
    exact isQueryName_of_prefix k hzone hlabel hqueryType hrrType hprefix
  · exact answerName_prefix_of_isQueryName h

/-- The stub gets an answer to its Interest exactly when the name of that is a
zone, a query type, a label and a record type: a forwarding hint in front and
components behind are not put back. -/
theorem onData_satisfies_iff
    (P : NameParser) (resolver : NameCachingResolver)
    (interest : Interest) (query : Query)
    (h : Query.init.fromInterest P interest = some (true, query)) :
    (Satisfies (plainStrategy P) resolver interest query ↔
        IsQueryName interest.name) ∧
      ∀ rootHint,
        (Satisfies (hintedStrategy P rootHint) resolver interest query ↔
          IsQueryName interest.name) := by
  constructor
  · exact (satisfies_iff_extends resolver rfl (keepsQuery_plain P)
      (answeredByDenials_plain P query)).trans (prefix_iff_isQueryName h)
  · intro rootHint
    exact (satisfies_iff_extends resolver rfl (keepsQuery_hinted P rootHint)
      (answeredByDenials_hinted P rootHint query)).trans
        (prefix_iff_isQueryName h)

/-- The question of a stub for `/www` of the zone `/net`. -/
def stubQuery (forwardingHint : Name) : Query where
  authorityZone := [ascii "net"]
  forwardingHint := forwardingHint
  queryType := .DNS
  interestLifetime := 4000
  rrLabel := [ascii "www"]
  rrType := .TXT

theorem fromInterest_stubQuery (forwardingHint : Name) :
    Query.init.fromInterest uriParser (stubQuery forwardingHint).toInterest =
      some (true, stubQuery forwardingHint) :=
  Query.roundTrips_of_plainCut uriParser (stubQuery forwardingHint) rfl rfl
    (by simp [stubQuery]) (by
      show MarkerFree [ascii "net"]
      decide) (by simp [stubQuery])

theorem onData_satisfies_stub :
    Satisfies (plainStrategy uriParser) ⟨60000, 2000⟩
      (stubQuery []).toInterest (stubQuery []) :=
  (onData_satisfies_iff uriParser ⟨60000, 2000⟩ (stubQuery []).toInterest
    (stubQuery []) (fromInterest_stubQuery [])).1.mpr
      ⟨[ascii "net"], [ascii "www"], .DNS, .TXT, by decide, rfl, rfl,
        by decide, by decide, by decide⟩

/-- The answer to a stub that names a forwarding hint is named without it. -/
theorem hinted_stub_not_satisfied :
    Query.init.fromInterest uriParser (stubQuery [ascii "isp"]).toInterest =
        some (true, stubQuery [ascii "isp"]) ∧
      ¬ Satisfies (plainStrategy uriParser) ⟨60000, 2000⟩
        (stubQuery [ascii "isp"]).toInterest (stubQuery [ascii "isp"]) ∧
      ¬ Satisfies (hintedStrategy uriParser [ascii "root"]) ⟨60000, 2000⟩
        (stubQuery [ascii "isp"]).toInterest (stubQuery [ascii "isp"]) := by
  have hprefix : ¬ (stubQuery [ascii "isp"]).toInterest.name <+:
      answerName (stubQuery [ascii "isp"]) := by
    decide
  refine ⟨fromInterest_stubQuery _, ?_, ?_⟩
  · rw [satisfies_iff_extends _ rfl (keepsQuery_plain _)
      (answeredByDenials_plain _ _)]
    exact hprefix
  · rw [satisfies_iff_extends _ rfl (keepsQuery_hinted _ _)
      (answeredByDenials_hinted _ _ _)]
    exact hprefix

end StubNames

end NameCachingResolver

end Ndns

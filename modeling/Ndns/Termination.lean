import Ndns.IterativeQuery
import Ndns.Store
import Ndns.UriParser

/-!
# When a resolution ends

A resolution asks for longer and longer labels as long as it is referred on with
NDNS-Auth, and nothing keeps the label within the destination: `getSubName` cuts
it off at the end, and the same Interest goes out again.  `Ends` says what has to
be true of the servers' answers along the way, and `settles_iff` that a
resolution comes to an end within two replies more than the destination has
labels exactly when that is so.

The number of questions asked so far is tied to the position in the destination,
and the length of an Interest name grows by one with every NS question; the last
zone of a destination that is delegated itself needs an argument of its own.

**Results.**
* `Course`, `course_doResponse`: the invariant and its preservation;
* `settles_of_ends`, `search_of_settles`, `apex_of_settles`, `settles_iff`;
* `hollowWorld_not_settles`: a destination above a delegation.
-/

namespace Ndns

namespace World

variable (P : NameParser) (W : World)

/-- The type of the answer to an NS question. -/
def nsAnswer (zone label : Name) : Option ResponseType :=
  (W.answer P (question zone label .NS)).map Answer.responseType

/-- The search for a delegation ends at a label. -/
def Stops (zone label : Name) : Prop :=
  W.nsAnswer P zone label ≠ some .NDNS_Auth

def Refers (zone label : Name) : Prop :=
  W.nsAnswer P zone label = some .NDNS_Resp

/-- The label where the search in a zone ends. -/
abbrev Finds (dst zone label : Name) : Prop :=
  Descent.Shortest (W.Stops P) dst zone label

/-- The zones that the answers of the servers lead through. -/
abbrev Visits (dst zone : Name) : Prop :=
  Descent.Chain (W.Stops P) (W.Refers P) dst zone

/-- In every zone on the way the search finds a label within the rest of the
destination, and the destination is not a zone on the way itself, unless it is
NS records that are looked for or its server denies the empty label. -/
structure Ends (query : Query) : Prop where
  search : ∀ zone, W.Visits P query.rrLabel zone → zone ≠ query.rrLabel →
    ∃ label, W.Finds P query.rrLabel zone label ∧
      W.nsAnswer P zone label ≠ none
  apex : query.rrType ≠ .NS → ∀ zone label,
    W.Visits P query.rrLabel zone → W.Finds P query.rrLabel zone label →
    W.Refers P zone label → zone ++ label = query.rrLabel →
    W.nsAnswer P query.rrLabel [] = some .NDNS_Nack ∧
      W.answer P (question query.rrLabel [] query.rrType) ≠ none ∧
      (question query.rrLabel [] .NS).toInterest.name ≠
        (question zone label .NS).toInterest.name

/-- The zones that NS records point to have a server, and so has the root. -/
def Closed : Prop :=
  W [] ≠ none ∧
    ∀ zone label, W.nsRecords zone label ≠ [] → W (zone ++ label) ≠ none

end World

/-- The names of the Interests of some questions. -/
def interestNames (qs : List Query) : List Name :=
  qs.map (fun q => q.toInterest.name)

/-- Whatever has been asked so far, there were at most two questions more than
labels, all with different names, and the resolution is over or its next
question is a new one and gets a reply. -/
def Settles (P : NameParser) (W : World) (query : Query) : Prop :=
  ∀ qs iq,
    Dialogue.Run plainResolver (W.Replies P) (fun _ => True)
      (IterativeQuery.init query) qs iq →
    qs.length ≤ query.rrLabel.length + 2 ∧
      (interestNames qs).Nodup ∧
      (iq.step = .AnswerStub ∨
        ∃ q, plainResolver.ask iq = some q ∧
          q.toInterest.name ∉ interestNames qs ∧ W.answer P q ≠ none)

section Replies

variable {P : NameParser} {W : World}

/-- A server that answers one question answers every question with a label. -/
theorem World.answer_ne_none
    {zone label label' : Name} {type : RRType}
    (ht : type.isQueried = true) (hlabel : label ≠ [])
    (h : W.nsAnswer P zone label' ≠ none) :
    W.answer P (question zone label type) ≠ none := by
  have hs : W zone ≠ none := by
    intro hnone
    apply h
    simp [World.nsAnswer, World.answer, hnone]
  obtain ⟨s, hs⟩ := Option.ne_none_iff_exists'.mp hs
  have hmatch := matchQueryName_ne_none
    (q := question zone label type) rfl ht hlabel
  have hsome := (s.onInterest_ne_none_iff P _).mpr hmatch
  simpa [World.answer, hs] using hsome

end Replies

section Names

variable {qs : List Query} {q : Query} {n m : Nat}

/-- The questions asked so far: all for NS, with different names of bounded
length. -/
structure Asked (qs : List Query) (bound : Nat) : Prop where
  nodup : (interestNames qs).Nodup
  rrType_eq : ∀ q ∈ qs, q.rrType = .NS
  length_le : ∀ q ∈ qs, q.toInterest.name.length ≤ bound

theorem interestNames_concat (qs : List Query) (q : Query) :
    interestNames (qs ++ [q]) = interestNames qs ++ [q.toInterest.name] := by
  simp [interestNames]

theorem nodup_concat
    (h : (interestNames qs).Nodup)
    (hnew : q.toInterest.name ∉ interestNames qs) :
    (interestNames (qs ++ [q])).Nodup := by
  rw [interestNames_concat, List.nodup_append]
  refine ⟨h, by simp, ?_⟩
  intro a ha b hb hab
  rw [List.mem_singleton] at hb
  exact hnew (hb ▸ hab ▸ ha)

theorem Asked.concat
    (h : Asked qs n)
    (hnew : q.toInterest.name ∉ interestNames qs)
    (htype : q.rrType = .NS)
    (hle : n ≤ m) (hlength : q.toInterest.name.length ≤ m) :
    Asked (qs ++ [q]) m := by
  constructor
  · exact nodup_concat h.nodup hnew
  · intro q' hq'
    rcases List.mem_append.mp hq' with hq' | hq'
    · exact h.rrType_eq q' hq'
    · rw [List.mem_singleton.mp hq', htype]
  · intro q' hq'
    rcases List.mem_append.mp hq' with hq' | hq'
    · exact (h.length_le q' hq').trans hle
    · rw [List.mem_singleton.mp hq']
      exact hlength

/-- A name that is too long is new. -/
theorem Asked.notMem_of_length
    (h : Asked qs n) (hlt : n < q.toInterest.name.length) :
    q.toInterest.name ∉ interestNames qs := by
  intro hmem
  obtain ⟨q', hq', heq⟩ := List.mem_map.mp hmem
  have hle : q.toInterest.name.length ≤ n := by
    rw [← heq]
    exact h.length_le q' hq'
  omega

/-- The last component of a name is the type asked for. -/
theorem rrType_of_name_eq
    {q' : Query}
    (h : q.toInterest.name = q'.toInterest.name) :
    q.rrType = q'.rrType := by
  apply RRType.toString_injective
  have hlast (r : Query) :
      r.toInterest.name.getLast? = some r.rrType.toString := by
    rw [r.toInterest_name, List.getLast?_append, List.getLast?_cons,
      List.getLast?_append]
    simp
  have := hlast q
  rw [h, hlast q', Option.some.injEq] at this
  exact this.symm

theorem Asked.notMem_of_rrType
    (h : Asked qs n) (hne : q.rrType ≠ .NS) :
    q.toInterest.name ∉ interestNames qs := by
  intro hmem
  obtain ⟨q', hq', heq⟩ := List.mem_map.mp hmem
  apply hne
  rw [← rrType_of_name_eq heq]
  exact h.rrType_eq q' hq'

theorem length_question_name (zone label : Name) (type : RRType) :
    (question zone label type).toInterest.name.length =
      zone.length + label.length + 2 := by
  rw [question_name]
  simp only [List.length_append, List.length_cons, List.length_nil]
  omega

end Names

/-- How far a resolution has come, with the questions it has asked. -/
inductive Course (P : NameParser) (W : World) (query : Query) :
    List Query → IterativeQuery → Prop where
  | search {qs : List Query} {iq : IterativeQuery} (zone : Name)
      (step : iq.step = .NSQuery)
      (query_eq : iq.query = query)
      (visits : W.Visits P query.rrLabel zone)
      (zone_ne : zone ≠ query.rrLabel)
      (finished : iq.finishedLabelNum = zone.length)
      (pos : 0 < iq.rrLabelLen)
      (auth : ∀ l, l ≠ [] → zone ++ l <+: query.rrLabel →
        l.length < iq.rrLabelLen → ¬ W.Stops P zone l)
      (count : qs.length + 1 = zone.length + iq.rrLabelLen)
      (asked : Asked qs (qs.length + 2)) :
      Course P W query qs iq
  | apex {qs : List Query} {iq : IterativeQuery}
      (step : iq.step = .NSQuery)
      (query_eq : iq.query = query)
      (type_ne : query.rrType ≠ .NS)
      (finished : iq.finishedLabelNum = query.rrLabel.length)
      (denied : W.nsAnswer P query.rrLabel [] = some .NDNS_Nack)
      (answered : W.answer P (question query.rrLabel [] query.rrType) ≠ none)
      (count : qs.length = query.rrLabel.length)
      (asked : Asked qs (query.rrLabel.length + 2))
      (new : (question query.rrLabel [] .NS).toInterest.name ∉
        interestNames qs) :
      Course P W query qs iq
  | rrQuery {qs : List Query} {iq : IterativeQuery} (zone : Name)
      (step : iq.step = .RRQuery)
      (query_eq : iq.query = query)
      (type_ne : query.rrType ≠ .NS)
      (zone_le : zone <+: query.rrLabel)
      (finished : iq.finishedLabelNum = zone.length)
      (answered : W.answer P (question zone
        (query.rrLabel.drop zone.length) query.rrType) ≠ none)
      (count : qs.length ≤ query.rrLabel.length + 1)
      (asked : Asked qs (query.rrLabel.length + 2)) :
      Course P W query qs iq
  | answerStub {qs : List Query} {iq : IterativeQuery}
      (step : iq.step = .AnswerStub)
      (count : qs.length ≤ query.rrLabel.length + 2)
      (nodup : (interestNames qs).Nodup) :
      Course P W query qs iq

section Search

variable {P : NameParser} {W : World} {dst zone l : Name} {len : Nat}

theorem isPrefix_drop
    (h : zone ++ l <+: dst) : l <+: dst.drop zone.length := by
  obtain ⟨t, rfl⟩ := h
  rw [List.append_assoc, List.drop_left]
  exact List.prefix_append l t

/-- The label asked is a prefix of the label that is found. -/
theorem take_of_finds
    (hfinds : W.Finds P dst zone l)
    (hauth : ∀ l, l ≠ [] → zone ++ l <+: dst → l.length < len →
      ¬ W.Stops P zone l) :
    (dst.drop zone.length).take len = l.take len ∧ len ≤ l.length := by
  have hlen : len ≤ l.length := by
    by_contra hlt
    exact hauth l hfinds.ne_nil hfinds.isPrefix (by omega) hfinds.stops
  refine ⟨?_, hlen⟩
  obtain ⟨t, ht⟩ := isPrefix_drop hfinds.isPrefix
  rw [← ht, List.take_append_of_le_length hlen]

theorem finds_length_le
    (hfinds : W.Finds P dst zone l) :
    zone.length + l.length ≤ dst.length := by
  have := hfinds.isPrefix.length_le
  rwa [List.length_append] at this

/-- Where the search goes on, it has been referred on. -/
theorem take_eq_of_stops
    (hfinds : W.Finds P dst zone l) (hpos : 0 < len)
    (hlen : len ≤ l.length) (hstops : W.Stops P zone (l.take len)) :
    l.take len = l := by
  refine hfinds.minimal _ ?_ (List.take_prefix len l) hstops
  intro hnil
  have := congrArg List.length hnil
  simp only [List.length_take, List.length_nil] at this
  omega

end Search

namespace IterativeQuery

variable {P : NameParser} {W : World} {query : Query}
variable {qs : List Query} {iq : IterativeQuery} {re : Response}

theorem doResponse_NSQuery_resp
    (hstep : iq.step = .NSQuery) (hre : re.responseType = .NDNS_Resp) :
    iq.doResponse re = iq.advance re := by
  rw [doResponse_resp iq re hre, if_pos hstep]

/-- What is known of a question that is asked in a zone, and of its reply. -/
structure Searching (P : NameParser) (W : World) (query : Query)
    (qs : List Query) (iq : IterativeQuery) (re : Response)
    (zone label found : Name) : Prop where
  step : iq.step = .NSQuery
  query_eq : iq.query = query
  visits : W.Visits P query.rrLabel zone
  finds : W.Finds P query.rrLabel zone found
  finished : iq.finishedLabelNum = zone.length
  length_eq : label.length = iq.rrLabelLen
  answer : W.nsAnswer P zone label = some re.responseType
  /-- An answer other than NDNS-Auth is the answer for the label found. -/
  stop : re.responseType ≠ .NDNS_Auth → label = found
  count : qs.length + 1 = zone.length + label.length
  before : Asked qs (qs.length + 2)

section Searches

variable {zone label found : Name}

theorem Searching.length_asked
    (h : Searching P W query qs iq re zone label found) :
    (qs ++ [question zone label .NS]).length =
      zone.length + label.length := by
  rw [List.length_append, List.length_singleton]
  exact h.count

/-- The question is new. -/
theorem Searching.asked
    (h : Searching P W query qs iq re zone label found) {n : Nat}
    (hn : zone.length + label.length + 2 ≤ n) :
    Asked (qs ++ [question zone label .NS]) n := by
  have hname := length_question_name zone label .NS
  have hcount := h.count
  have hnew := h.before.notMem_of_length
    (q := question zone label .NS) (by omega)
  exact h.before.concat hnew rfl (by omega) (by omega)

/-- The destination is delegated itself. -/
theorem course_of_destination
    (hends : W.Ends P query)
    (h : Searching P W query qs iq re zone label found)
    (hre : re.responseType = .NDNS_Resp)
    (hdst : zone ++ label = query.rrLabel) :
    Course P W query (qs ++ [question zone label .NS])
      (iq.advance re) := by
  have heq := h.stop (by simp [hre])
  have hcount := h.length_asked
  have hfin := h.finished
  have hlength := h.length_eq
  have hquery := h.query_eq
  have hrefers : W.Refers P zone label := by
    rw [World.Refers, h.answer, hre]
  have hdstLength : zone.length + label.length = query.rrLabel.length := by
    rw [← List.length_append, hdst]
  by_cases hT : query.rrType = .NS
  · refine Course.answerStub ?_ (by omega) (h.asked le_rfl).nodup
    have hlast :
        iq.finishedLabelNum + iq.rrLabelLen =
          iq.query.rrLabel.length := by
      rw [hquery]
      omega
    simp [advance, hquery, hT, hfin, ← hdstLength, hlength]
  · obtain ⟨hdenied, hanswered, hapex⟩ :=
      hends.apex hT zone label h.visits (heq ▸ h.finds) hrefers hdst
    refine Course.apex (by simp [advance, hquery, hT, h.step])
      (by simp [advance, hquery]) hT ?_ hdenied hanswered (by omega)
      (h.asked (by omega)) ?_
    · simp only [advance]
      omega
    · rw [interestNames_concat, List.mem_append, List.mem_singleton]
      rintro (hmem | hmem)
      · refine h.before.notMem_of_length ?_ hmem
        have hbefore := h.count
        rw [length_question_name, List.length_nil]
        omega
      · exact hapex hmem

/-- The search goes on in a zone that is delegated to. -/
theorem course_of_delegation
    (h : Searching P W query qs iq re zone label found)
    (hre : re.responseType = .NDNS_Resp)
    (hdst : zone ++ label ≠ query.rrLabel) :
    Course P W query (qs ++ [question zone label .NS])
      (iq.advance re) := by
  have heq := h.stop (by simp [hre])
  have hfin := h.finished
  have hlength := h.length_eq
  have hquery := h.query_eq
  have hfound := finds_length_le h.finds
  have hrefers : W.Refers P zone label := by
    rw [World.Refers, h.answer, hre]
  have hshort : zone.length + label.length < query.rrLabel.length := by
    rcases Nat.lt_or_ge (zone.length + label.length)
      query.rrLabel.length with hlt | hge
    · exact hlt
    · refine absurd (h.finds.isPrefix.eq_of_length ?_) (heq ▸ hdst)
      rw [List.length_append]
      rw [heq] at hge
      omega
  have hvisits' := h.visits.step (heq ▸ h.finds) hrefers
  refine Course.search (zone ++ label) ?_
    (by simp [advance, hquery]) hvisits' hdst ?_ (by simp [advance])
    ?_ ?_ (h.asked (by rw [h.length_asked]))
  · have hlast :
        ¬ iq.finishedLabelNum + iq.rrLabelLen =
          iq.query.rrLabel.length := by
      rw [hquery]
      omega
    simp [advance, hlast, h.step]
  · simp only [advance, List.length_append]
    omega
  · intro l hl _ hlt
    have := List.length_pos_of_ne_nil hl
    simp only [advance] at hlt
    omega
  · rw [h.length_asked, List.length_append]
    rfl

/-- The same zone is asked for a longer label. -/
theorem course_of_auth
    (h : Searching P W query qs iq re zone label found)
    (hre : re.responseType = .NDNS_Auth)
    (hne : zone ≠ query.rrLabel)
    (hauth : ∀ l, l ≠ [] → zone ++ l <+: query.rrLabel →
      l.length < iq.rrLabelLen → ¬ W.Stops P zone l)
    (hlabel :
      label = (query.rrLabel.drop zone.length).take iq.rrLabelLen) :
    Course P W query (qs ++ [question zone label .NS])
      (iq.doResponse re) := by
  have hlength := h.length_eq
  rw [doResponse_auth iq re hre]
  refine Course.search zone h.step h.query_eq h.visits hne h.finished
    (Nat.succ_pos _) ?_ ?_ (h.asked (by rw [h.length_asked]))
  · intro l hl hle hlt
    by_cases hlt' : l.length < iq.rrLabelLen
    · exact hauth l hl hle hlt'
    · have heq : l = label := by
        obtain ⟨t, ht⟩ := isPrefix_drop hle
        rw [hlabel, ← ht,
          List.take_append_of_le_length (by simp only at hlt; omega),
          List.take_of_length_le (by simp only at hlt; omega)]
      rw [heq, World.Stops, h.answer, hre]
      simp
  · rw [h.length_asked, hlength]
    rfl

/-- The zone that denies the delegation is asked for the records. -/
theorem course_of_nack
    (ht : query.rrType.isQueried = true)
    (h : Searching P W query qs iq re zone label found)
    (hre : re.responseType = .NDNS_Nack) :
    Course P W query (qs ++ [question zone label .NS])
      (iq.doResponse re) := by
  have hquery := h.query_eq
  have hcount := h.length_asked
  have heq := h.stop (by simp [hre])
  have hfound := finds_length_le h.finds
  rw [← heq] at hfound
  rw [doResponse_nack iq re hre]
  by_cases hT : query.rrType = .NS
  · exact Course.answerStub (by simp [nackStep, h.step, hquery, hT])
      (by omega) (h.asked le_rfl).nodup
  · refine Course.rrQuery zone
      (by simp [nackStep, h.step, hquery, hT])
      hquery hT h.visits.isPrefix h.finished ?_ (by omega)
      (h.asked (by omega))
    refine World.answer_ne_none ht ?_ (Option.ne_none_iff_exists'.mpr
      ⟨_, h.answer⟩)
    intro hnil
    have hpos := List.length_pos_of_ne_nil h.finds.ne_nil
    have hdrop := congrArg List.length hnil
    simp only [List.length_drop, List.length_nil] at hdrop
    rw [← heq] at hpos
    omega

/-- One exchange while the search in a zone goes on. -/
theorem course_of_search
    (hends : W.Ends P query) (ht : query.rrType.isQueried = true)
    (hstep : iq.step = .NSQuery) (hquery : iq.query = query)
    (hvisits : W.Visits P query.rrLabel zone)
    (hne : zone ≠ query.rrLabel)
    (hfin : iq.finishedLabelNum = zone.length)
    (hpos : 0 < iq.rrLabelLen)
    (hauth : ∀ l, l ≠ [] → zone ++ l <+: query.rrLabel →
      l.length < iq.rrLabelLen → ¬ W.Stops P zone l)
    (hcount : qs.length + 1 = zone.length + iq.rrLabelLen)
    (hasked : Asked qs (qs.length + 2))
    (hlabel :
      label = (query.rrLabel.drop zone.length).take iq.rrLabelLen)
    (hreply : W.Replies P (question zone label .NS) re) :
    Course P W query (qs ++ [question zone label .NS])
      (iq.doResponse re) := by
  obtain ⟨found, hfinds, -⟩ := hends.search zone hvisits hne
  obtain ⟨htake, hlen⟩ := take_of_finds hfinds hauth
  have hcut : label = found.take iq.rrLabelLen := hlabel.trans htake
  have hanswer : W.nsAnswer P zone label = some re.responseType :=
    World.Replies.answer_type hreply
  have hlength : label.length = iq.rrLabelLen := by
    rw [hcut, List.length_take]
    omega
  have h : Searching P W query qs iq re zone label found := {
    step := hstep
    query_eq := hquery
    visits := hvisits
    finds := hfinds
    finished := hfin
    length_eq := hlength
    answer := hanswer
    stop := by
      intro hre
      rw [hcut]
      refine take_eq_of_stops hfinds hpos hlen ?_
      rw [← hcut, World.Stops, hanswer]
      simpa using hre
    count := hlength ▸ hcount
    before := hasked }
  rcases World.Replies.responseType hreply with hre | hre | hre
  · rw [doResponse_NSQuery_resp hstep hre]
    by_cases hdst : zone ++ label = query.rrLabel
    · exact course_of_destination hends h hre hdst
    · exact course_of_delegation h hre hdst
  · exact course_of_auth h hre hne hauth hlabel
  · exact course_of_nack ht h hre

end Searches

/-- One exchange keeps the course. -/
theorem course_doResponse
    {q : Query}
    (hends : W.Ends P query) (ht : query.rrType.isQueried = true)
    (h : Course P W query qs iq)
    (hask : plainResolver.ask iq = some q)
    (hreply : W.Replies P q re) :
    Course P W query (qs ++ [q]) (iq.doResponse re) := by
  cases h with
  | search zone hstep hquery hvisits hne hfin hpos hauth hcount hasked =>
      have hzone := List.prefix_iff_eq_take.mp hvisits.isPrefix
      rw [iq.ask_of_NSQuery hstep, Option.some.injEq, hquery, hfin,
        ← hzone] at hask
      subst hask
      exact course_of_search hends ht hstep hquery hvisits hne hfin hpos
        hauth hcount hasked rfl hreply
  | apex hstep hquery hT hfin hdenied hanswered hcount hasked hnew =>
      rw [iq.ask_of_NSQuery hstep, Option.some.injEq, hquery, hfin,
        List.take_length, List.drop_length, List.take_nil] at hask
      subst hask
      have hanswer := World.Replies.answer_type hreply
      rw [World.nsAnswer] at hdenied
      rw [hdenied, Option.some.injEq] at hanswer
      rw [doResponse_nack iq re hanswer.symm]
      refine Course.rrQuery query.rrLabel
        (by simp [nackStep, hstep, hquery, hT])
        hquery hT List.prefix_rfl hfin ?_ ?_ ?_
      · rwa [List.drop_length]
      · rw [List.length_append, List.length_singleton]
        omega
      · refine hasked.concat hnew rfl le_rfl ?_
        rw [length_question_name]
        simp
  | rrQuery zone hstep hquery hT hzone hfin hanswered hcount hasked =>
      rw [iq.ask_of_RRQuery hstep, Option.some.injEq, hquery, hfin] at hask
      subst hask
      have hne := World.Replies.ne_auth
        (by exact ht) (by exact hT) hreply
      have hstub : (iq.doResponse re).step = .AnswerStub := by
        rcases World.Replies.responseType hreply with hre | hre | hre
        · rw [doResponse_resp iq re hre, if_neg (by simp [hstep]),
            if_pos hstep]
        · exact absurd hre hne
        · rw [doResponse_nack iq re hre]
          simp [nackStep, hstep]
      refine Course.answerStub hstub ?_ ?_
      · rw [List.length_append, List.length_singleton]
        omega
      · exact nodup_concat hasked.nodup (hasked.notMem_of_rrType hT)
  | answerStub hstep =>
      rw [iq.ask_of_AnswerStub hstep] at hask
      simp at hask

/-- Under the condition on the answers every resolution comes to an end. -/
theorem settles_of_ends
    (hends : W.Ends P query) (ht : query.rrType.isQueried = true)
    (hdst : query.rrLabel ≠ []) :
    Settles P W query := by
  intro qs iq hrun
  have hcourse : Course P W query qs iq := by
    refine hrun.invariant (I := Course P W query) ?_ ?_
    · refine Course.search [] rfl rfl Descent.Chain.nil hdst.symm rfl
        (Nat.succ_pos 0) ?_ rfl ⟨by simp [interestNames], by simp, by simp⟩
      intro l hl _ hlt
      have := List.length_pos_of_ne_nil hl
      simp only [init] at hlt
      omega
    · intro qs iq q re hI _ hask hreply
      exact course_doResponse hends ht hI hask hreply
  cases hcourse with
  | search zone hstep hquery hvisits hne hfin hpos hauth hcount hasked =>
      have hzone := List.prefix_iff_eq_take.mp hvisits.isPrefix
      obtain ⟨found, hfinds, hsome⟩ := hends.search zone hvisits hne
      obtain ⟨htake, hlen⟩ := take_of_finds hfinds hauth
      have hfound := finds_length_le hfinds
      refine ⟨by omega, hasked.nodup, Or.inr ⟨_, iq.ask_of_NSQuery hstep,
        ?_, ?_⟩⟩
      · refine hasked.notMem_of_length ?_
        rw [length_question_name, hquery, hfin, ← hzone, htake,
          List.length_take]
        omega
      · rw [hquery, hfin, ← hzone, htake]
        intro hnone
        -- the label asked is the one that is found, or it is answered Auth
        have hstops : W.Stops P zone (found.take iq.rrLabelLen) := by
          simp [World.Stops, World.nsAnswer, hnone]
        rw [take_eq_of_stops hfinds hpos hlen hstops] at hnone
        exact hsome (by simp [World.nsAnswer, hnone])
  | apex hstep hquery hT hfin hdenied hanswered hcount hasked hnew =>
      refine ⟨by omega, hasked.nodup, Or.inr ⟨_, iq.ask_of_NSQuery hstep,
        ?_, ?_⟩⟩
      · simpa [hquery, hfin] using hnew
      · intro hnone
        simp only [hquery, hfin, List.take_length, List.drop_length,
          List.take_nil] at hnone
        simp [World.nsAnswer, hnone] at hdenied
  | rrQuery zone hstep hquery hT hzone hfin hanswered hcount hasked =>
      have hzone := List.prefix_iff_eq_take.mp hzone
      refine ⟨by omega, hasked.nodup, Or.inr ⟨_, iq.ask_of_RRQuery hstep,
        ?_, ?_⟩⟩
      · exact hasked.notMem_of_rrType (by rw [hquery]; exact hT)
      · rwa [hquery, hfin, ← hzone]
  | answerStub hstep hcount hnodup =>
      exact ⟨hcount, hnodup, Or.inl hstep⟩

/-- The search in a zone has come to labels of this length. -/
structure At (query : Query) (zone : Name) (len : Nat)
    (iq : IterativeQuery) : Prop where
  step : iq.step = .NSQuery
  query_eq : iq.query = query
  finished : iq.finishedLabelNum = zone.length
  rrLabelLen : iq.rrLabelLen = len

section Reach

variable {zone label : Name} {len : Nat} {q : Query} {t : ResponseType}

/-- A run of the resolver against the servers. -/
abbrev Reach (P : NameParser) (W : World) (query : Query)
    (qs : List Query) (iq : IterativeQuery) : Prop :=
  Dialogue.Run plainResolver (W.Replies P) (fun _ => True) (init query)
    qs iq

theorem At.ask
    (h : At query zone len iq) (hzone : zone <+: query.rrLabel) :
    plainResolver.ask iq =
      some (question zone ((query.rrLabel.drop zone.length).take len)
        .NS) := by
  rw [iq.ask_of_NSQuery h.step, h.query_eq, h.finished, h.rrLabelLen,
    ← List.prefix_iff_eq_take.mp hzone]

/-- A question that has an answer can be asked. -/
theorem Reach.exchange
    (hrun : Reach P W query qs iq)
    (hask : plainResolver.ask iq = some q)
    (hanswer : (W.answer P q).map Answer.responseType = some t) :
    ∃ re, re.responseType = t ∧
      Reach P W query (qs ++ [q]) (iq.doResponse re) := by
  obtain ⟨a, ha, htype⟩ := Option.map_eq_some_iff.mp hanswer
  exact ⟨a.toResponse, htype, Dialogue.Run.exchange hrun trivial hask
    ⟨a, ha, a.carriedBy_toResponse⟩⟩

/-- As long as it is referred on, the search comes to longer labels. -/
theorem exists_longer
    (hrun : Reach P W query qs iq) (hat : At query zone 1 iq)
    (hzone : zone <+: query.rrLabel) (n : Nat)
    (hn : zone.length + n ≤ query.rrLabel.length)
    (hauth : ∀ l, l ≠ [] → zone ++ l <+: query.rrLabel → l.length ≤ n →
      ¬ W.Stops P zone l) :
    ∃ qs' iq', Reach P W query qs' iq' ∧ At query zone (n + 1) iq' ∧
      (0 < n →
        question zone ((query.rrLabel.drop zone.length).take n) .NS ∈
          qs') := by
  induction n with
  | zero =>
      exact ⟨qs, iq, hrun, hat, by simp⟩
  | succ n ih =>
      obtain ⟨qs', iq', hrun', hat', -⟩ := ih (by omega)
        (fun l hne hle hlen => hauth l hne hle (by omega))
      have hlength :
          ((query.rrLabel.drop zone.length).take (n + 1)).length =
            n + 1 := by
        rw [List.length_take, List.length_drop]
        omega
      have hstop := hauth ((query.rrLabel.drop zone.length).take (n + 1))
        (by
          intro hnil
          rw [hnil] at hlength
          simp at hlength)
        (by
          obtain ⟨rest, hrest⟩ := hzone
          rw [← hrest, List.drop_left]
          exact (List.prefix_append_right_inj zone).mpr
            (List.take_prefix _ _))
        (by omega)
      rw [World.Stops, not_not] at hstop
      obtain ⟨re, hre, hrun''⟩ :=
        hrun'.exchange (hat'.ask hzone) hstop
      refine ⟨_, _, hrun'', ?_, by simp⟩
      rw [doResponse_auth iq' re hre]
      exact ⟨hat'.step, hat'.query_eq, hat'.finished,
        by simp [hat'.rrLabelLen]⟩

/-- The label that is found is asked for. -/
theorem exists_found
    (hrun : Reach P W query qs iq) (hat : At query zone 1 iq)
    (hzone : zone <+: query.rrLabel)
    (hfinds : W.Finds P query.rrLabel zone label) :
    ∃ qs' iq', Reach P W query qs' iq' ∧
      At query zone label.length iq' ∧
      plainResolver.ask iq' = some (question zone label .NS) := by
  have hpos := List.length_pos_of_ne_nil hfinds.ne_nil
  have hlen := finds_length_le hfinds
  obtain ⟨qs', iq', hrun', hat', -⟩ :=
    exists_longer hrun hat hzone (label.length - 1) (by omega) (by
      intro l hne hle hlt hstop
      have hprefix : l <+: label :=
        List.prefix_of_prefix_length_le (isPrefix_drop hle)
          (isPrefix_drop hfinds.isPrefix) (by omega)
      have heq := hfinds.minimal l hne hprefix hstop
      rw [heq] at hlt
      omega)
  rw [Nat.sub_add_cancel hpos] at hat'
  refine ⟨qs', iq', hrun', hat', ?_⟩
  obtain ⟨t, ht⟩ := isPrefix_drop hfinds.isPrefix
  rw [hat'.ask hzone, ← ht, List.take_left]

/-- An NS answer leads to the next zone. -/
theorem exists_next
    (hrun : Reach P W query qs iq) (hat : At query zone 1 iq)
    (hzone : zone <+: query.rrLabel)
    (hfinds : W.Finds P query.rrLabel zone label)
    (hrefers : W.Refers P zone label)
    (hgoes : zone ++ label ≠ query.rrLabel ∨ query.rrType ≠ .NS) :
    ∃ qs' iq', Reach P W query qs' iq' ∧
      At query (zone ++ label) 1 iq' ∧ question zone label .NS ∈ qs' := by
  obtain ⟨qs', iq', hrun', hat', hask⟩ :=
    exists_found hrun hat hzone hfinds
  obtain ⟨re, hre, hrun''⟩ := hrun'.exchange hask hrefers
  refine ⟨_, _, hrun'', ?_, by simp⟩
  rw [doResponse_NSQuery_resp hat'.step hre]
  have hstays :
      ¬ (iq'.query.rrType = .NS ∧
        iq'.finishedLabelNum + iq'.rrLabelLen =
          iq'.query.rrLabel.length) := by
    rintro ⟨hT, hlast⟩
    rw [hat'.query_eq] at hT hlast
    rcases hgoes with hne | hne
    · refine hne (hfinds.isPrefix.eq_of_length ?_)
      rw [List.length_append, ← hat'.finished, ← hat'.rrLabelLen, hlast]
    · exact hne hT
  constructor
  · simp only [advance, if_neg hstays, hat'.step]
  · simp only [advance, hat'.query_eq]
  · simp only [advance, hat'.finished, hat'.rrLabelLen,
      List.length_append]
  · rfl

/-- Every zone on the way is reached. -/
theorem exists_visit
    (hvisits : W.Visits P query.rrLabel zone)
    (hgoes : zone ≠ query.rrLabel ∨ query.rrType ≠ .NS) :
    ∃ qs iq, Reach P W query qs iq ∧ At query zone 1 iq := by
  induction hvisits with
  | refl =>
      exact ⟨[], init query, Dialogue.Run.start, rfl, rfl, rfl, rfl⟩
  | @tail zone _ hbefore hstep ih =>
      obtain ⟨label, hfinds, hrefers, rfl⟩ := hstep
      have hzone := Descent.Chain.isPrefix hbefore
      have hne : zone ≠ query.rrLabel := by
        intro heq
        have := finds_length_le hfinds
        have := List.length_pos_of_ne_nil hfinds.ne_nil
        rw [heq] at *
        omega
      obtain ⟨qs, iq, hrun, hat⟩ := ih (Or.inl hne)
      obtain ⟨qs', iq', hrun', hat', -⟩ :=
        exists_next hrun hat hzone hfinds hrefers hgoes
      exact ⟨qs', iq', hrun', hat'⟩

end Reach

/-- A resolution that comes to an end meets the condition in the zones on its
way. -/
theorem search_of_settles
    (h : Settles P W query) {zone : Name}
    (hvisits : W.Visits P query.rrLabel zone)
    (hne : zone ≠ query.rrLabel) :
    ∃ label, W.Finds P query.rrLabel zone label ∧
      W.nsAnswer P zone label ≠ none := by
  have hzone := hvisits.isPrefix
  obtain ⟨qs, iq, hrun, hat⟩ := exists_visit hvisits (Or.inl hne)
  by_cases hex : ∃ l, l ≠ [] ∧ zone ++ l <+: query.rrLabel ∧
      W.Stops P zone l
  · obtain ⟨l, hl, hle, hstop⟩ := hex
    obtain ⟨label, hfinds⟩ := Descent.exists_shortest hl hle hstop
    refine ⟨label, hfinds, ?_⟩
    obtain ⟨qs', iq', hrun', hat', hask⟩ :=
      exists_found hrun hat hzone hfinds
    rcases (h qs' iq' hrun').2.2 with hstub | ⟨q, hq, -, hanswer⟩
    · rw [hat'.step] at hstub
      exact absurd hstub (by decide)
    · rw [hask, Option.some.injEq] at hq
      rw [← hq] at hanswer
      simpa [World.nsAnswer] using hanswer
  · -- the label grows beyond the destination and is asked for again
    push Not at hex
    have hlt : zone.length < query.rrLabel.length := by
      rcases Nat.lt_or_ge zone.length query.rrLabel.length with hlt | hge
      · exact hlt
      · exact absurd (hzone.eq_of_length
          (le_antisymm hzone.length_le hge)) hne
    obtain ⟨qs', iq', hrun', hat', hmem⟩ :=
      exists_longer hrun hat hzone
        (query.rrLabel.length - zone.length) (by omega)
        (fun l hl hle _ => hex l hl hle)
    rcases (h qs' iq' hrun').2.2 with hstub | ⟨q, hq, hnew, -⟩
    · rw [hat'.step] at hstub
      exact absurd hstub (by decide)
    · rw [hat'.ask hzone, Option.some.injEq] at hq
      refine absurd ?_ hnew
      have hmem' := hmem (by omega)
      rw [List.take_of_length_le
        (by rw [List.length_drop])] at hmem'
      rw [List.take_of_length_le
        (by rw [List.length_drop]; omega)] at hq
      rw [← hq]
      exact List.mem_map_of_mem hmem'

/-- A resolution that comes to an end does not ask about its destination as a
zone, unless the server denies the empty label. -/
theorem apex_of_settles
    (h : Settles P W query) {zone label : Name}
    (hT : query.rrType ≠ .NS)
    (hvisits : W.Visits P query.rrLabel zone)
    (hfinds : W.Finds P query.rrLabel zone label)
    (hrefers : W.Refers P zone label)
    (hdst : zone ++ label = query.rrLabel) :
    W.nsAnswer P query.rrLabel [] = some .NDNS_Nack ∧
      W.answer P (question query.rrLabel [] query.rrType) ≠ none ∧
      (question query.rrLabel [] .NS).toInterest.name ≠
        (question zone label .NS).toInterest.name := by
  obtain ⟨qs₀, iq₀, hrun₀, hat₀⟩ := exists_visit hvisits (Or.inr hT)
  obtain ⟨qs, iq, hrun, hat, hmem⟩ :=
    exists_next hrun₀ hat₀ hvisits.isPrefix hfinds hrefers (Or.inr hT)
  rw [hdst] at hat
  have hask := hat.ask List.prefix_rfl
  rw [List.drop_length, List.take_nil] at hask
  rcases (h qs iq hrun).2.2 with hstub | ⟨q, hq, hnew, hanswer⟩
  · rw [hat.step] at hstub
    exact absurd hstub (by decide)
  rw [hask, Option.some.injEq] at hq
  subst hq
  obtain ⟨a, ha⟩ := Option.ne_none_iff_exists'.mp hanswer
  have htype : W.nsAnswer P query.rrLabel [] = some a.responseType := by
    simp [World.nsAnswer, ha]
  obtain ⟨re, hre, hrun'⟩ := hrun.exchange hask htype
  have hagain (hask' : plainResolver.ask (iq.doResponse re) =
      some (question query.rrLabel [] .NS)) : False := by
    rcases (h _ _ hrun').2.2 with hstub | ⟨q, hq, hnew', -⟩
    · rw [ask_of_AnswerStub _ hstub] at hask'
      simp at hask'
    · rw [hask', Option.some.injEq] at hq
      apply hnew'
      rw [← hq, interestNames_concat]
      simp
  have hnack : a.responseType = .NDNS_Nack := by
    rcases World.answer_responseType ha with ht | ht | ht
    · -- the finished labels go beyond the destination
      rw [ht] at hre
      refine absurd ?_ hagain
      rw [doResponse_NSQuery_resp hat.step hre, ask_of_NSQuery]
      · simp only [advance, hat.query_eq, hat.finished, hat.rrLabelLen]
        rw [List.take_of_length_le (by omega),
          List.drop_of_length_le (by omega), List.take_nil]
      · simp [advance, hat.query_eq, hT, hat.step]
    · rw [ht] at hre
      refine absurd ?_ hagain
      have hstep' :
          ({ iq with rrLabelLen := iq.rrLabelLen + 1 } :
            IterativeQuery).step = .NSQuery := hat.step
      rw [doResponse_auth iq re hre, ask_of_NSQuery _ hstep']
      simp [hat.query_eq, hat.finished]
    · exact ht
  refine ⟨by rw [htype, hnack], ?_, ?_⟩
  · rw [hnack] at hre
    have hrr : (iq.doResponse re).step = .RRQuery := by
      rw [doResponse_nack iq re hre]
      simp [nackStep, hat.step, hat.query_eq, hT]
    have hask' := ask_of_RRQuery _ hrr
    rcases (h _ _ hrun').2.2 with hstub | ⟨q, hq, -, hanswer'⟩
    · rw [hrr] at hstub
      exact absurd hstub (by decide)
    · rw [hask', Option.some.injEq] at hq
      rw [← hq] at hanswer'
      rw [doResponse_nack iq re hre] at hanswer'
      simpa [hat.query_eq, hat.finished] using hanswer'
  · intro heq
    apply hnew
    rw [heq]
    exact List.mem_map_of_mem hmem

/-- A resolution settles exactly when the answers along its way let it end. -/
theorem settles_iff
    (P : NameParser) (W : World) (query : Query)
    (hdst : query.rrLabel ≠ [])
    (ht : query.rrType.isQueried = true) :
    Settles P W query ↔ W.Ends P query := by
  constructor
  · intro h
    constructor
    · intro zone hvisits hne
      exact search_of_settles h hvisits hne
    · intro hT zone label hvisits hfinds hrefers heq
      exact apex_of_settles h hT hvisits hfinds hrefers heq
  · intro hends
    exact settles_of_ends hends ht hdst

/-- The root delegates `/a/b/c` and has nothing at `/a/b`. -/
def hollowWorld : World := fun zone =>
  if zone = [] then
    some [⟨[ascii "a", ascii "b", ascii "c"], .NS, ⟨1, ascii "/ns"⟩⟩]
  else if zone = [ascii "a", ascii "b", ascii "c"] then some []
  else none

/-- `/a/b` lies between the root and the zone `/a/b/c`. -/
def hollowQuery : Query :=
  { Query.init with
    rrLabel := [ascii "a", ascii "b"]
    rrType := .TXT }

/-- The question for `/a/b` is asked twice. -/
theorem hollowWorld_not_settles :
    hollowWorld.Closed ∧ hollowQuery.rrLabel ≠ [] ∧
      hollowQuery.rrType.isQueried = true ∧
      ¬ Settles uriParser hollowWorld hollowQuery := by
  refine ⟨⟨by decide, ?_⟩, by decide, rfl, ?_⟩
  · intro zone label hns
    by_cases hroot : zone = []
    · subst hroot
      have hlabel : label = [ascii "a", ascii "b", ascii "c"] := by
        by_contra hne
        apply hns
        simp [World.nsRecords, hollowWorld, Store.lookup, Ne.symm hne]
      subst hlabel
      decide
    · exfalso
      apply hns
      by_cases hleaf : zone = [ascii "a", ascii "b", ascii "c"]
      · simp [World.nsRecords, hollowWorld, hleaf, Store.lookup]
      · simp [World.nsRecords, hollowWorld, hroot, hleaf]
  · intro h
    have hrun := Dialogue.run_converse plainResolver
      (hollowWorld.respond uriParser) (fun _ => True)
      (fun _ _ h => hollowWorld.replies_respond uriParser h) 3
      (init hollowQuery)
    exact absurd (h _ _ hrun).2.1 (by decide +kernel)

/-- The root delegates `/a/b`, which has a text at `/c`. -/
def childWorld : World := fun zone =>
  if zone = [] then
    some [⟨[ascii "a", ascii "b"], .NS, ⟨1, ascii "/ns"⟩⟩]
  else if zone = [ascii "a", ascii "b"] then
    some [⟨[ascii "c"], .TXT, ⟨1, ascii "text"⟩⟩]
  else none

/-- `/a/b/c` lies in the delegated zone. -/
def childQuery : Query :=
  { Query.init with
    rrLabel := [ascii "a", ascii "b", ascii "c"]
    rrType := .TXT }

theorem childWorld_finds_root :
    childWorld.Finds uriParser childQuery.rrLabel []
      [ascii "a", ascii "b"] where
  ne_nil := by decide
  isPrefix := by decide
  stops := show _ ≠ _ by decide +kernel
  minimal l hne hle hstops := by
    -- the search goes on behind `/a`
    match l, hne, hle with
    | [x], _, hle =>
        obtain rfl : x = ascii "a" := by
          simpa using hle
        exact absurd hstops (not_not_intro (by decide +kernel))
    | x :: y :: l', _, hle =>
        exact hle.eq_of_length_le (by simp)

theorem childWorld_finds_below :
    childWorld.Finds uriParser childQuery.rrLabel
      [ascii "a", ascii "b"] [ascii "c"] where
  ne_nil := by decide
  isPrefix := by decide
  stops := show _ ≠ _ by decide +kernel
  minimal l hne hle _ :=
    hle.eq_of_length_le (List.length_pos_of_ne_nil hne)

theorem childWorld_not_refers_below :
    ¬ childWorld.Refers uriParser
      [ascii "a", ascii "b"] [ascii "c"] :=
  show _ ≠ _ by decide +kernel

theorem childWorld_visits
    {zone : Name}
    (h : childWorld.Visits uriParser childQuery.rrLabel zone) :
    zone = [] ∨ zone = [ascii "a", ascii "b"] := by
  induction h with
  | refl =>
      exact Or.inl rfl
  | tail _ hstep ih =>
      obtain ⟨label, hfinds, hrefers, rfl⟩ := hstep
      rcases ih with rfl | rfl
      · have hlabel := hfinds.unique childWorld_finds_root
        exact Or.inr hlabel
      · have hlabel := hfinds.unique childWorld_finds_below
        rw [hlabel] at hrefers
        exact absurd hrefers childWorld_not_refers_below

/-- NDNS-Auth for `/a`, and on from `/a/b`: the resolution comes to an end. -/
theorem settles_iff_childWorld :
    childWorld.nsAnswer uriParser [] [ascii "a"] =
        some .NDNS_Auth ∧
      Settles uriParser childWorld childQuery := by
  refine ⟨by decide +kernel, ?_⟩
  refine (settles_iff uriParser childWorld childQuery
    (by decide) rfl).mpr ⟨?_, ?_⟩
  · intro zone hvisits _
    rcases childWorld_visits hvisits with rfl | rfl
    · exact ⟨_, childWorld_finds_root, by decide +kernel⟩
    · exact ⟨_, childWorld_finds_below, by decide +kernel⟩
  · intro _ zone label hvisits hfinds hrefers hdst
    rcases childWorld_visits hvisits with rfl | rfl
    · have hlabel := hfinds.unique childWorld_finds_root
      rw [hlabel] at hdst
      exact absurd hdst (by decide)
    · have hlabel := hfinds.unique childWorld_finds_below
      rw [hlabel] at hrefers
      exact absurd hrefers childWorld_not_refers_below

end IterativeQuery

end Ndns

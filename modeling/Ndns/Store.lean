import Ndns.Lib.Descent
import Ndns.Query
import Ndns.Response

/-!
# Record stores and the servers of zones

What a resolver sees of a name server: the query branch of
`NameServer::onInterest` over a fixed store of records.  A server answers every
Interest whose name the query pattern accepts, and it takes label and record
type from the text of that name.  `World` assigns stores to zones.

**Results.**
* `Store.onInterest_of_wellNamed`: a server reads the label and the type that
  were asked for, if the question is well named;
* `Store.answer_resp_iff`, `Store.answer_auth_iff`: when it answers what.
-/

namespace Ndns

/-- What an answer shows of a row of the table of RRs. -/
structure Record where
  id : Nat
  rrData : Bytes
deriving DecidableEq

structure StoredRecord where
  label : Name
  type : RRType
  record : Record
deriving DecidableEq

/-- The records of a zone, in the order of their ids. -/
abbrev Store := List StoredRecord

/-- The content of an answer. -/
structure Answer where
  responseType : ResponseType
  rrs : List Record
deriving DecidableEq

/-- A decoded response has the type and the records of the answer. -/
structure Answer.CarriedBy (a : Answer) (re : Response) : Prop where
  responseType_eq : re.responseType = a.responseType
  rrs_eq : re.rrs.map (fun rr => Record.mk rr.id rr.rrData) = a.rrs

/-- A response that carries an answer. -/
def Answer.toResponse (a : Answer) : Response :=
  { Response.init with
    responseType := a.responseType
    rrs := a.rrs.map
      (fun r => { RR.init with id := r.id, rrData := r.rrData }) }

theorem Answer.carriedBy_toResponse (a : Answer) :
    a.CarriedBy a.toResponse := by
  constructor
  · rfl
  · simp [toResponse, Function.comp_def]

namespace Store

variable (s : Store) (label : Name) (type : RRType)

/-- `QueryMgr::lookup`: the records at a label and type. -/
def lookup : List Record :=
  (s.filter (fun r => r.label = label ∧ r.type = type)).map
    StoredRecord.record

/-- `QueryMgr::hasAuth`: a record of the type strictly below the label. -/
def hasAuth : Bool :=
  s.any (fun r => r.type = type ∧ label <+: r.label ∧ r.label ≠ label)

/-- The answer for a label and a type. -/
def answer : Answer :=
  if s.lookup label type ≠ [] then ⟨.NDNS_Resp, s.lookup label type⟩
  else if type = .NS then
    if s.hasAuth label type then ⟨.NDNS_Auth, []⟩ else ⟨.NDNS_Nack, []⟩
  else ⟨.NDNS_Nack, []⟩

/-- `NameServer::onInterest` for queries; `none` when there is no reply. -/
def onInterest (P : NameParser) (s : Store) (name : Name) :
    Option Answer := do
  let map ← matchQueryName name.toUri
  let label ← P.ofUri map.rrLabel
  return s.answer label (toRRType map.rrType)

end Store

/-- The stores of the zones that have a server. -/
abbrev World := Name → Option Store

namespace World

variable (P : NameParser) (W : World)

/-- The answer of the server of the authority zone of a question. -/
def answer (q : Query) : Option Answer :=
  (W q.authorityZone).bind (fun s => s.onInterest P q.toInterest.name)

/-- A decoded response that a question can get. -/
def Replies (q : Query) (re : Response) : Prop :=
  ∃ a, W.answer P q = some a ∧ a.CarriedBy re

/-- One of the responses that a question can get. -/
def respond (q : Query) : Option Response :=
  (W.answer P q).map Answer.toResponse

theorem replies_respond {q : Query} {re : Response}
    (h : W.respond P q = some re) :
    W.Replies P q re := by
  obtain ⟨a, ha, rfl⟩ := Option.map_eq_some_iff.mp h
  exact ⟨a, ha, a.carriedBy_toResponse⟩

/-- The NS records of a label in a zone. -/
def nsRecords (zone label : Name) : List Record :=
  match W zone with
  | some s => s.lookup label .NS
  | none => []

/-- The zone delegates the label. -/
def HasNs (zone label : Name) : Prop :=
  W.nsRecords zone label ≠ []

/-- `label` is the shortest prefix of the rest of `dst` with NS records. -/
abbrev Delegates (dst zone label : Name) : Prop :=
  Descent.Shortest W.HasNs dst zone label

/-- The zones reached from the root by repeated delegation towards `dst`. -/
abbrev Chain (dst zone : Name) : Prop :=
  Descent.Chain W.HasNs W.HasNs dst zone

end World

/-- The server can only read the label and the type that are meant. -/
structure Query.WellNamed (q : Query) : Prop where
  queryType : q.queryType.isQueried = true
  rrType : q.rrType.isQueried = true
  label_ne_nil : q.rrLabel ≠ []
  label_clean : ∀ c ∈ q.rrLabel.dropLast, ¬ EndsInQueryWord c

instance (q : Query) : Decidable q.WellNamed :=
  decidable_of_iff
    (q.queryType.isQueried = true ∧ q.rrType.isQueried = true ∧
      q.rrLabel ≠ [] ∧ ∀ c ∈ q.rrLabel.dropLast, ¬ EndsInQueryWord c)
    ⟨fun ⟨h₁, h₂, h₃, h₄⟩ => ⟨h₁, h₂, h₃, h₄⟩,
      fun ⟨h₁, h₂, h₃, h₄⟩ => ⟨h₁, h₂, h₃, h₄⟩⟩

section Reading

/-- Whatever hint and zone are in front, a well named question is read as it is
meant. -/
theorem matchQueryName_wellNamed
    {q : Query}
    (h : q.WellNamed) :
    ∃ hint zone, matchQueryName q.toInterest.name.toUri =
      some ⟨hint, zone, q.queryType.toString,
        uriPath q.rrLabel.segments, q.rrType.toString⟩ := by
  have hword :
      Component.toUri q.queryType.toString = [] ++ q.queryType.toString :=
    (toUri_queryWord h.queryType).1
  rw [q.toInterest_name, Name.toUri_of_ne_nil (by simp)]
  exact matchName_reading queryVocabulary (segments_of_name _)
    (queryReading q.front hword (toUri_queryWord h.queryType).2
      h.label_ne_nil h.label_clean h.rrType [] (by simp))

/-- A label that is matched consists of whole components. -/
theorem matchQueryName_label
    {n : Name} {map : NameMap}
    (h : matchQueryName n.toUri = some map) :
    ∃ label : Name, label ≠ [] ∧ map.rrLabel = uriPath label.segments := by
  obtain ⟨r, hlabel, -⟩ := exists_reading_of_match h
  obtain ⟨u, v, -, -, hv⟩ := List.map_eq_append_iff.mp r.es_eq
  obtain ⟨c, w, -, -, hw⟩ := List.map_eq_cons_iff.mp hv
  obtain ⟨label, t, -, hmap, -⟩ := List.map_eq_append_iff.mp hw
  have hseg : Name.segments label = r.label := hmap
  refine ⟨label, ?_, ?_⟩
  · intro hnil
    rw [hnil] at hseg
    exact r.label_ne_nil hseg.symm
  · rw [hlabel, hseg]

/-- The type that is matched is the last component, if that is a type. -/
theorem matchQueryName_type
    {q : Query} {map : NameMap}
    (ht : q.rrType.isQueried = true)
    (h : matchQueryName q.toInterest.name.toUri = some map) :
    map.rrType = q.rrType.toString := by
  obtain ⟨r, -, hrrType⟩ := exists_reading_of_match h
  have htype := toUri_queryType ht
  have hlast :
      q.toInterest.name.segments.getLast? = some q.rrType.toString := by
    rw [q.toInterest_name, Name.segments, List.getLast?_map,
      List.getLast?_append, List.getLast?_cons, List.getLast?_append]
    simp [htype.1]
  have htail : r.tail = [] := by
    by_contra hne
    have hmem : q.rrType.toString ∈ r.tail := by
      rw [r.es_eq, List.getLast?_append, List.getLast?_cons,
        List.getLast?_append, List.getLast?_cons] at hlast
      rw [List.getLast?_eq_some_getLast hne] at hlast
      have heq : r.tail.getLast hne = q.rrType.toString := by
        simpa using hlast
      rw [← heq]
      exact List.getLast_mem hne
    have habsurd := r.tail_clean _ hmem
    rw [htype.2] at habsurd
    simp at habsurd
  have heq : r.rrType ++ r.rest = q.rrType.toString := by
    rw [r.es_eq, htail, List.getLast?_append, List.getLast?_cons,
      List.getLast?_append] at hlast
    simpa using hlast
  have hword := r.type_eq
  rw [heq, htype.2, Option.some.injEq] at hword
  rw [hrrType, hword]

/-- A name with a word, a label and a type is matched. -/
theorem matchQueryName_ne_none
    {q : Query}
    (hq : q.queryType.isQueried = true)
    (ht : q.rrType.isQueried = true)
    (hlabel : q.rrLabel ≠ []) :
    matchQueryName q.toInterest.name.toUri ≠ none := by
  have htype := toUri_queryType ht
  have hcut : Cuttable queryWords queryTypes q.toInterest.name.segments := by
    refine ⟨q.front.segments, [], q.queryType.toString,
      q.rrLabel.segments ++ [q.rrType.toString], ?_,
      (toUri_queryWord hq).2, q.rrLabel.segments, q.rrType.toString, [],
      rfl, by simpa [Name.segments] using hlabel, ?_⟩
    · rw [q.toInterest_name]
      simp [Name.segments, (toUri_queryWord hq).1, htype.1]
    · rw [htype.2]
      simp
  obtain ⟨r⟩ := exists_reading hcut
  obtain ⟨hint, zone, hmatch⟩ :=
    matchName_reading queryVocabulary (segments_of_name _) r
  intro hnone
  rw [q.toInterest_name, Name.toUri_of_ne_nil (by simp),
    ← q.toInterest_name] at hnone
  have habsurd := hmatch.symm.trans hnone
  simp at habsurd

namespace Store

/-- A server replies to every name that is matched, and to no other. -/
theorem onInterest_ne_none_iff
    (P : NameParser) (s : Store) (n : Name) :
    s.onInterest P n ≠ none ↔ matchQueryName n.toUri ≠ none := by
  constructor
  · intro h hnone
    apply h
    simp [onInterest, hnone]
  · intro h
    obtain ⟨map, hmap⟩ := Option.ne_none_iff_exists'.mp h
    obtain ⟨label, hne, hlabel⟩ := matchQueryName_label hmap
    simp [onInterest, hmap, hlabel, P.ofUri_path hne]

theorem onInterest_of_wellNamed
    (P : NameParser) (s : Store) {q : Query}
    (h : q.WellNamed) :
    s.onInterest P q.toInterest.name =
      some (s.answer q.rrLabel q.rrType) := by
  obtain ⟨hint, zone, hmatch⟩ := matchQueryName_wellNamed h
  have hlabel := P.ofUri_path h.label_ne_nil
  simp [onInterest, hmatch, hlabel]

variable (s : Store) (label : Name) (type : RRType)

theorem answer_resp_iff :
    (s.answer label type).responseType = .NDNS_Resp ↔
      s.lookup label type ≠ [] := by
  unfold answer
  split_ifs <;> simp_all

theorem answer_rrs :
    (s.answer label type).rrs = s.lookup label type := by
  unfold answer
  split_ifs <;> simp_all

theorem answer_auth_iff :
    (s.answer label type).responseType = .NDNS_Auth ↔
      s.lookup label type = [] ∧ type = .NS ∧
        s.hasAuth label type = true := by
  unfold answer
  split_ifs <;> simp_all

theorem answer_nack_iff :
    (s.answer label type).responseType = .NDNS_Nack ↔
      s.lookup label type = [] ∧
        (type = .NS → s.hasAuth label type = false) := by
  unfold answer
  split_ifs <;> simp_all

/-- A server answers with one of three types. -/
theorem answer_responseType :
    (s.answer label type).responseType = .NDNS_Resp ∨
      (s.answer label type).responseType = .NDNS_Auth ∨
        (s.answer label type).responseType = .NDNS_Nack := by
  unfold answer
  split_ifs <;> simp

theorem onInterest_responseType
    {P : NameParser} {name : Name} {a : Answer}
    (h : s.onInterest P name = some a) :
    a.responseType = .NDNS_Resp ∨ a.responseType = .NDNS_Auth ∨
      a.responseType = .NDNS_Nack := by
  simp only [onInterest, Option.bind_eq_bind, Option.bind_eq_some_iff,
    Option.pure_def, Option.some.injEq] at h
  obtain ⟨map, -, label, -, rfl⟩ := h
  exact s.answer_responseType label (toRRType map.rrType)

/-- Only NS questions are referred further down. -/
theorem onInterest_ne_auth
    {P : NameParser} {q : Query} {a : Answer}
    (ht : q.rrType.isQueried = true) (hne : q.rrType ≠ .NS)
    (h : s.onInterest P q.toInterest.name = some a) :
    a.responseType ≠ .NDNS_Auth := by
  simp only [onInterest, Option.bind_eq_bind, Option.bind_eq_some_iff,
    Option.pure_def, Option.some.injEq] at h
  obtain ⟨map, hmap, label, -, rfl⟩ := h
  intro hauth
  have htype := ((s.answer_auth_iff _ _).mp hauth).2.1
  rw [matchQueryName_type ht hmap, toRRType_toString] at htype
  exact hne htype

/-- Records below a label keep a server from denying it. -/
theorem lookup_eq_nil_of_hasAuth
    {label' : Name}
    (h : s.hasAuth label type = false)
    (hle : label <+: label') (hne : label' ≠ label) :
    s.lookup label' type = [] := by
  rw [lookup, List.map_eq_nil_iff, List.filter_eq_nil_iff]
  intro r hr hmatch
  simp only [decide_eq_true_eq] at hmatch
  obtain ⟨rfl, htype⟩ := hmatch
  have hall := List.any_eq_false.mp h r hr
  simp only [decide_eq_true_eq] at hall
  exact hall ⟨htype, hle, hne⟩

end Store

section Replies

variable {P : NameParser} {W : World} {q : Query} {re : Response}

/-- A reply tells the type of the answer. -/
theorem World.Replies.answer_type
    (h : W.Replies P q re) :
    (W.answer P q).map Answer.responseType = some re.responseType := by
  obtain ⟨a, ha, hcarried⟩ := h
  rw [ha, Option.map_some, hcarried.responseType_eq]

theorem World.answer_responseType
    {a : Answer}
    (h : W.answer P q = some a) :
    a.responseType = .NDNS_Resp ∨ a.responseType = .NDNS_Auth ∨
      a.responseType = .NDNS_Nack := by
  obtain ⟨s, -, hs⟩ := Option.bind_eq_some_iff.mp h
  exact s.onInterest_responseType hs

theorem World.Replies.responseType
    (h : W.Replies P q re) :
    re.responseType = .NDNS_Resp ∨ re.responseType = .NDNS_Auth ∨
      re.responseType = .NDNS_Nack := by
  obtain ⟨a, ha, hcarried⟩ := h
  rw [hcarried.responseType_eq]
  exact World.answer_responseType ha

theorem World.Replies.ne_auth
    (ht : q.rrType.isQueried = true) (hne : q.rrType ≠ .NS)
    (h : W.Replies P q re) :
    re.responseType ≠ .NDNS_Auth := by
  obtain ⟨a, ha, hcarried⟩ := h
  obtain ⟨s, -, hs⟩ := Option.bind_eq_some_iff.mp ha
  rw [hcarried.responseType_eq]
  exact s.onInterest_ne_auth ht hne hs

end Replies

end Reading

end Ndns

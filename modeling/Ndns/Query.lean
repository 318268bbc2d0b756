import Ndns.Label
import Ndns.UriParser

/-!
# Queries

`Query::toInterest` appends name components, `Query::fromInterest` cuts the URI
of the name with the query pattern.  The two are inverse to each other exactly
when no component of the label but the last ends, in its URI, with a word of the
pattern: otherwise the zone that is read back reaches into the label.
-/

namespace Ndns

/-- An Interest, with the parts that are read. -/
structure Interest where
  name : Name
  /-- Milliseconds. -/
  interestLifetime : Int
deriving DecidableEq

structure Query where
  authorityZone : Name
  forwardingHint : Name
  queryType : QueryType
  interestLifetime : Int
  rrLabel : Name
  rrType : RRType
deriving DecidableEq

namespace Query

/-- `Query::Query()` -/
def init : Query where
  authorityZone := []
  forwardingHint := []
  queryType := .DNS
  interestLifetime := 4000
  rrLabel := []
  rrType := .NS

/-- The forwarding hint of a name, with the marker behind it. -/
def hintComponents (forwardingHint : Name) : Name :=
  if forwardingHint = [] then []
  else forwardingHint ++ [ForwardingHintLabel]

def toInterest (q : Query) : Interest where
  name :=
    hintComponents q.forwardingHint ++ q.authorityZone ++
      [q.queryType.toString] ++ q.rrLabel ++ [q.rrType.toString]
  interestLifetime := q.interestLifetime

/-- The hint of a match; without one the query keeps its own. -/
def hintOfMap (P : NameParser) (q : Query) (map : NameMap) : Option Name :=
  if map.hint ≠ [] then P.ofUri map.hint else some q.forwardingHint

/-- `Query::fromInterest` with the map of a match; `none` when a `Name`
constructor throws. -/
def fromInterestMap
    (P : NameParser) (q : Query) (interest : Interest) (map : NameMap) :
    Option Query := do
  let authorityZone ← P.ofUri map.zone
  let rrLabel ← P.ofUri map.rrLabel
  let forwardingHint ← q.hintOfMap P map
  return {
    authorityZone := authorityZone
    forwardingHint := forwardingHint
    queryType := toQueryType map.queryType
    interestLifetime := interest.interestLifetime
    rrLabel := rrLabel
    rrType := toRRType map.rrType }

/-- `Query::fromInterest`: whether the name was understood, and the query. -/
def fromInterest
    (P : NameParser) (q : Query) (interest : Interest) :
    Option (Bool × Query) :=
  match matchQueryName interest.name.toUri with
  | some map => (q.fromInterestMap P interest map).map (fun q' => (true, q'))
  | none => some (false, q)

/-- A fresh query decodes the Interest to the query it was built from. -/
def RoundTrips (P : NameParser) (q : Query) : Prop :=
  init.fromInterest P q.toInterest = some (true, q)

/-- The text that the hint group of the pattern catches. -/
def hintText (forwardingHint : Name) : Bytes :=
  if forwardingHint = [] then []
  else uriPath forwardingHint.segments ++ [47]

/-- What `toInterest` puts in front of the query type. -/
def front (q : Query) : Name :=
  hintComponents q.forwardingHint ++ q.authorityZone

theorem toInterest_name (q : Query) :
    q.toInterest.name =
      q.front ++ q.queryType.toString ::
        (q.rrLabel ++ [q.rrType.toString]) := by
  simp [toInterest, front]

/-- The label of a query may be cut behind one of its components. -/
structure LabelCut (q : Query) where
  front : Name
  component : Component
  stem : Bytes
  word : Bytes
  label : Name
  /-- The query type and the label are what the component is cut out of. -/
  label_eq :
    q.queryType.toString :: q.rrLabel = front ++ component :: label
  component_eq : component.toUri = stem ++ word
  word_mem : word ∈ queryWords
  label_ne_nil : label ≠ []
  label_clean : ∀ d ∈ label.dropLast, ¬ EndsInQueryWord d

/-- The cut behind the query type. -/
def plainCut
    (q : Query) (hq : q.queryType.isQueried = true)
    (hlabel : q.rrLabel ≠ [])
    (hclean : ∀ d ∈ q.rrLabel.dropLast, ¬ EndsInQueryWord d) :
    LabelCut q where
  front := []
  component := q.queryType.toString
  stem := []
  word := q.queryType.toString
  label := q.rrLabel
  label_eq := rfl
  component_eq := (toUri_queryWord hq).1
  word_mem := (toUri_queryWord hq).2
  label_ne_nil := hlabel
  label_clean := hclean

/-- A component of the label that ends with a word moves the cut. -/
theorem exists_laterCut
    (q : Query)
    (h : ∃ d ∈ q.rrLabel.dropLast, EndsInQueryWord d) :
    ∃ k : LabelCut q, k.front ≠ [] := by
  obtain ⟨front, c, rest, stem, word, hlabel, hc, hword, hne, hclean⟩ :=
    exists_wordCut h
  exact ⟨{
    front := q.queryType.toString :: front
    component := c
    stem := stem
    word := word
    label := rest
    label_eq := by rw [hlabel, List.cons_append]
    component_eq := hc
    word_mem := hword
    label_ne_nil := hne
    label_clean := hclean }, by simp⟩

/-- What a query Interest is matched as, given where its label is cut. -/
theorem matchQueryName_toInterest
    (q : Query) (k : LabelCut q)
    (ht : q.rrType.isQueried = true)
    (hzone : MarkerFree q.authorityZone)
    (hlabel : MarkerFree k.front) :
    matchQueryName q.toInterest.name.toUri =
      some {
        hint := hintText q.forwardingHint
        zone :=
          uriPath (Name.segments (q.authorityZone ++ k.front)) ++
            47 :: k.stem
        queryType := k.word
        rrLabel := uriPath k.label.segments
        rrType := q.rrType.toString } := by
  have hcut :
      q.queryType.toString :: (q.rrLabel ++ [q.rrType.toString]) =
        k.front ++ k.component :: (k.label ++ [q.rrType.toString]) := by
    rw [← List.cons_append, k.label_eq]
    simp
  rw [q.toInterest_name, hcut, front, hintComponents, hintText]
  by_cases hh : q.forwardingHint = []
  · have hname :
        ([] ++ q.authorityZone) ++
            (k.front ++ k.component :: (k.label ++ [q.rrType.toString])) =
          (q.authorityZone ++ k.front) ++
            k.component :: (k.label ++ [q.rrType.toString]) := by
      simp
    rw [if_pos hh, if_pos hh, hname]
    exact matchQueryName_cut k.component_eq k.word_mem k.label_ne_nil
      k.label_clean ht (by simp) (hzone.append hlabel).segments
  · have hname :
        (q.forwardingHint ++ [ForwardingHintLabel] ++ q.authorityZone) ++
            (k.front ++ k.component :: (k.label ++ [q.rrType.toString])) =
          q.forwardingHint ++ ForwardingHintLabel ::
            ((q.authorityZone ++ k.front) ++
              k.component :: (k.label ++ [q.rrType.toString])) := by
      simp
    rw [if_neg hh, if_neg hh, hname]
    exact matchQueryName_hint q.forwardingHint k.component_eq k.word_mem
      k.label_ne_nil k.label_clean ht (by simp) (hzone.append hlabel)

/-- The map of an Interest whose label is cut behind `k` names a zone that ends
where the front of the cut does. -/
theorem ofUri_cut_zone
    (P : NameParser) (q : Query) (k : LabelCut q) {zone : Name}
    (h : P.ofUri
        (uriPath (Name.segments (q.authorityZone ++ k.front)) ++
          47 :: k.stem) = some zone) :
    (k.stem = [] ∧ zone = q.authorityZone ++ k.front) ∨
      ∃ c, zone = q.authorityZone ++ k.front ++ [c] := by
  by_cases hstem : k.stem = []
  · left
    rw [hstem, P.ofUri_path_slash] at h
    exact ⟨hstem, (Option.some.inj h).symm⟩
  · right
    exact P.ofUri_segment _ _ k.stem (uriByte_of_mem_stem k.component_eq)
      hstem h

/-- The forwarding hint is read back. -/
theorem hintOfMap_hintText
    (P : NameParser) (q : Query) (zone queryType rrLabel rrType : Bytes) :
    init.hintOfMap P
        ⟨hintText q.forwardingHint, zone, queryType, rrLabel, rrType⟩ =
      some q.forwardingHint := by
  unfold hintOfMap hintText
  by_cases hh : q.forwardingHint = []
  · simp [hh, init]
  · simp only [if_neg hh]
    rw [if_pos (by simp), P.ofUri_path_slash]

theorem queryWord_markerFree {q : QueryType} (h : q.isQueried = true) :
    ¬ ForwardingHintLabel <:+: q.toString := by
  cases q
  case DNS => decide
  case DNS_R => decide
  all_goals exact absurd h (by decide)

/-- A query that is cut behind its query type is read back. -/
theorem roundTrips_of_plainCut
    (P : NameParser) (q : Query)
    (hq : q.queryType.isQueried = true)
    (ht : q.rrType.isQueried = true)
    (hlabel : q.rrLabel ≠ [])
    (hzone : MarkerFree q.authorityZone)
    (hclean : ∀ c ∈ q.rrLabel.dropLast, ¬ EndsInQueryWord c) :
    RoundTrips P q := by
  have hfree : MarkerFree (plainCut q hq hlabel hclean).front := by
    simp [plainCut, MarkerFree]
  have hmatch :=
    matchQueryName_toInterest q (plainCut q hq hlabel hclean) ht hzone hfree
  have hparse :
      P.ofUri (uriPath (Name.segments q.authorityZone) ++ [47]) =
        some q.authorityZone :=
    P.ofUri_path_slash q.authorityZone
  have hlabelUri := P.ofUri_path hlabel
  simp only [plainCut, List.append_nil] at hmatch
  unfold RoundTrips fromInterest
  rw [hmatch]
  simp only [fromInterestMap, hparse, hlabelUri,
    hintOfMap_hintText]
  simp [toInterest]

/-- A query that is cut behind a component of its label is read back with a
zone that is too long. -/
theorem not_roundTrips_of_laterCut
    (P : NameParser) (q : Query) (k : LabelCut q)
    (hk : k.front ≠ [])
    (ht : q.rrType.isQueried = true)
    (hzone : MarkerFree q.authorityZone)
    (hfree : MarkerFree k.front) :
    ¬ RoundTrips P q := by
  intro h
  have hmatch := matchQueryName_toInterest q k ht hzone hfree
  unfold RoundTrips fromInterest at h
  rw [hmatch] at h
  simp only [Option.map_eq_some_iff, Prod.mk.injEq, true_and,
    exists_eq_right] at h
  unfold fromInterestMap at h
  simp only [Option.bind_eq_bind, Option.bind_eq_some_iff] at h
  obtain ⟨zone, hparse, label, -, hint, -, hq⟩ := h
  have hz : zone = q.authorityZone := by
    have := congrArg Query.authorityZone (Option.some.inj hq)
    simpa using this
  subst hz
  have hlen : 0 < k.front.length := List.length_pos_of_ne_nil hk
  rcases ofUri_cut_zone P q k hparse with ⟨-, hlong⟩ | ⟨c, hlong⟩
  · have := congrArg List.length hlong
    simp only [List.length_append] at this
    omega
  · have := congrArg List.length hlong
    simp only [List.length_append] at this
    omega

/-- Queries survive the trip through an Interest exactly when no component of
the label but the last ends, in its URI, with a query word. -/
theorem roundTrips_iff
    (P : NameParser) (q : Query)
    (hq : q.queryType.isQueried = true)
    (ht : q.rrType.isQueried = true)
    (hlabel : q.rrLabel ≠ [])
    (hzone : MarkerFree q.authorityZone)
    (hfree : MarkerFree q.rrLabel) :
    RoundTrips P q ↔
      ∀ c ∈ q.rrLabel.dropLast, ¬ EndsInQueryWord c := by
  constructor
  · intro h c hc hend
    obtain ⟨k, hk⟩ := exists_laterCut q ⟨c, hc, hend⟩
    have hkfree : MarkerFree k.front := by
      have hall : MarkerFree (q.queryType.toString :: q.rrLabel) := by
        intro d hd
        rcases List.mem_cons.mp hd with rfl | hd
        · exact queryWord_markerFree hq
        · exact hfree d hd
      rw [k.label_eq] at hall
      intro d hd
      exact hall d (List.mem_append_left _ hd)
    exact not_roundTrips_of_laterCut P q k hk ht hzone hkfree h
  · exact roundTrips_of_plainCut P q hq ht hlabel hzone

/-- A query for the label `/www/DNS` of the zone `/net`. -/
def zoneQuery : Query where
  authorityZone := [ascii "net"]
  forwardingHint := []
  queryType := .DNS
  interestLifetime := 4000
  rrLabel := [ascii "www", ascii "DNS"]
  rrType := .TXT

/-- A query for the label `/DNS/www` of the zone `/net`. -/
def wordQuery : Query where
  authorityZone := [ascii "net"]
  forwardingHint := [ascii "isp"]
  queryType := .DNS
  interestLifetime := 4000
  rrLabel := [ascii "DNS", ascii "www"]
  rrType := .TXT

instance (n : Name) : Decidable (MarkerFree n) :=
  inferInstanceAs (Decidable (∀ c ∈ n, ¬ ForwardingHintLabel <:+: c))

theorem roundTrips_iff_zoneQuery :
    RoundTrips uriParser zoneQuery :=
  (roundTrips_iff uriParser zoneQuery (by decide) (by decide) (by decide)
    (by decide) (by decide)).mpr (by decide)

/-- `wordQuery` is cut behind the first component of its label. -/
def wordCut : LabelCut wordQuery where
  front := [ascii "DNS"]
  component := ascii "DNS"
  stem := []
  word := ascii "DNS"
  label := [ascii "www"]
  label_eq := by decide
  component_eq := by decide
  word_mem := by decide
  label_ne_nil := by decide
  label_clean := by decide

/-- The label `/DNS/www` is read as `/www`, and the zone as `/net/DNS`. -/
theorem wordQuery_not_roundTrips :
    wordQuery.queryType.isQueried = true ∧
      wordQuery.rrType.isQueried = true ∧
      wordQuery.rrLabel ≠ [] ∧
      MarkerFree wordQuery.forwardingHint ∧
      MarkerFree wordQuery.authorityZone ∧
      MarkerFree wordQuery.rrLabel ∧
      init.fromInterest uriParser wordQuery.toInterest =
        some (true, {
          authorityZone := [ascii "net", ascii "DNS"]
          forwardingHint := [ascii "isp"]
          queryType := .DNS
          interestLifetime := 4000
          rrLabel := [ascii "www"]
          rrType := .TXT }) ∧
      ¬ RoundTrips uriParser wordQuery := by
  have hmatch := matchQueryName_toInterest wordQuery wordCut
    (by decide) (by decide) (by decide)
  have hread :
      init.fromInterest uriParser wordQuery.toInterest =
        some (true, {
          authorityZone := [ascii "net", ascii "DNS"]
          forwardingHint := [ascii "isp"]
          queryType := .DNS
          interestLifetime := 4000
          rrLabel := [ascii "www"]
          rrType := .TXT }) := by
    unfold fromInterest
    rw [hmatch]
    decide +kernel
  refine ⟨rfl, rfl, by decide, by decide, by decide, by decide, hread, ?_⟩
  intro h
  unfold RoundTrips at h
  rw [hread] at h
  exact absurd h (by decide)

end Query

end Ndns

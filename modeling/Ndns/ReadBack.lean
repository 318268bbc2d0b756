import Ndns.NameCachingResolver
import Ndns.VersionedNames

/-!
# Queries read from a name

`Query::fromInterest` accepts what the pattern matches, and the pattern looks at
characters: a component that ends with `DNS` or begins with a record type is as
good as the word.  What is accepted is encoded again as a prefix of the name
exactly when the components at which the pattern cuts are words as a whole.

**Results.**
* `toInterest_prefix_iff_of_cut`: the query and its name, at the cut that the
  pattern makes;
* `toInterest_prefix_iff`: the names whose queries are read from the right
  components.
-/

namespace Ndns

open NameCachingResolver

/-- The components at which the query pattern cuts a name. -/
structure CutPlace
    (n front : Name) (c : Component) (label : Name) (d : Component)
    (tail : Name) : Prop where
  name_eq : n = front ++ c :: (label ++ d :: tail)
  label_ne_nil : label ≠ []
  word : EndsInQueryWord c
  label_clean : ∀ e ∈ label.dropLast, ¬ EndsInQueryWord e
  type : wordAt queryTypes (Component.toUri d) ≠ none
  tail_clean : ∀ e ∈ tail, wordAt queryTypes (Component.toUri e) = none

/-- The last component that ends with the marker is the marker, behind a hint. -/
def HintWhole (front : Name) : Prop :=
  ∀ hint m zone, front = hint ++ m :: zone → EndsInMarker m →
    (∀ e ∈ zone, ¬ EndsInMarker e) → m = ForwardingHintLabel ∧ hint ≠ []

/-- The pattern cuts the name at whole components. -/
def CutsWhole (n : Name) : Prop :=
  ∀ front c label d tail, CutPlace n front c label d tail →
    c ∈ queryWords ∧ d ∈ queryTypes ∧ HintWhole front

section Places

variable {n front label tail : Name} {c d : Component} {map : NameMap}

/-- A match cuts the name at some components. -/
theorem exists_cutPlace (h : matchQueryName n.toUri = some map) :
    ∃ front c label d tail, CutPlace n front c label d tail := by
  obtain ⟨r⟩ := exists_reading (cuttable_of_matchQueryName h).2
  obtain ⟨front, c, label, d, tail, hname, -, hc, hlabel, hd, htail⟩ :=
    r.components
  refine ⟨front, c, label, d, tail, hname, ?_, ?_, ?_, ?_, ?_⟩
  · rintro rfl
    exact r.label_ne_nil hlabel
  · exact ⟨r.word, r.word_mem, r.stem, hc.symm⟩
  · rintro e he ⟨w, hw, hsuf⟩
    refine r.label_clean (Component.toUri e) ?_ w hw hsuf
    rw [hlabel, Name.segments, ← List.map_dropLast]
    exact List.mem_map_of_mem he
  · rw [hd, r.type_eq]
    simp
  · intro e he
    refine r.tail_clean (Component.toUri e) ?_
    rw [htail]
    exact List.mem_map_of_mem he

/-- The reading of a name that is cut at some components. -/
theorem CutPlace.exists_reading (k : CutPlace n front c label d tail) :
    ∃ r : Reading queryWords queryTypes n.segments,
      r.pre = front.segments ∧ c.toUri = r.stem ++ r.word ∧
        r.label = label.segments ∧
        wordAt queryTypes (Component.toUri d) = some r.rrType := by
  obtain ⟨word, hword, stem, hc⟩ := k.word
  obtain ⟨type, htype⟩ := Option.ne_none_iff_exists'.mp k.type
  have hpre : type <+: Component.toUri d := by
    simpa using List.find?_some htype
  obtain ⟨rest, hd⟩ := hpre
  refine ⟨{
    pre := front.segments
    stem := stem
    word := word
    label := label.segments
    rrType := type
    rest := rest
    tail := tail.segments
    es_eq := by simp [k.name_eq, Name.segments, hc, hd]
    word_mem := hword
    label_ne_nil := by simpa [Name.segments] using k.label_ne_nil
    type_eq := by rw [hd]; exact htype
    tail_clean := ?_
    label_clean := ?_ }, rfl, hc.symm, rfl, htype⟩
  · intro e he
    obtain ⟨x, hx, rfl⟩ := List.mem_map.mp he
    exact k.tail_clean x hx
  · intro e he w hw hsuf
    rw [Name.segments, ← List.map_dropLast] at he
    obtain ⟨x, hx, rfl⟩ := List.mem_map.mp he
    exact k.label_clean x hx ⟨w, hw, hsuf⟩

/-- What a match captures of a name that is cut at some components. -/
theorem CutPlace.captured
    (k : CutPlace n front c label d tail)
    (h : matchQueryName n.toUri = some map) :
    map.queryType ∈ queryWords ∧
      map.rrLabel = uriPath label.segments ∧
      wordAt queryTypes (Component.toUri d) = some map.rrType ∧
      ∃ stem, c.toUri = stem ++ map.queryType ∧
        FrontCut stem map front := by
  obtain ⟨r, hpre, hc, hlabel, htype⟩ := k.exists_reading
  obtain ⟨hword, hrrLabel, hrrType, hfront⟩ :=
    r.captured queryVocabulary hpre h
  refine ⟨?_, ?_, ?_, r.stem, ?_, hfront⟩
  · rw [hword]
    exact r.word_mem
  · rw [hrrLabel, hlabel]
  · rw [htype, hrrType]
  · rw [hc, hword]

end Places

section Prefixes

variable {P : NameParser}
variable {front zone zone' label tail : Name} {stem : Bytes}
variable {c d word type : Component}

theorem toUri_of_mem_queryTypes :
    ∀ t ∈ queryTypes, Component.toUri t = t ∧
      wordAt queryTypes t = some t := by
  decide

/-- One component that is counted with the zone shifts the label. -/
theorem type_of_longer {x : Component}
    (h : zone ++ [x] ++ word :: (label ++ [type]) <+:
      zone ++ c :: (label ++ d :: tail)) :
    d = word := by
  rw [List.append_assoc, List.prefix_append_right_inj, List.singleton_append,
    List.cons_prefix_cons] at h
  have hword : word :: label <+: label ++ d :: tail :=
    List.IsPrefix.trans ⟨[type], by simp⟩ h.2
  have hlabel : label ++ [d] <+: label ++ d :: tail := ⟨tail, by simp⟩
  have heq : label ++ [d] = word :: label :=
    (List.prefix_of_prefix_length_le hlabel hword (by simp)).eq_of_length
      (by simp)
  exact eq_of_append_singleton_eq_cons heq

/-- Zone, word, label and type are put back where they were read exactly when
word and type are whole components. -/
theorem zone_prefix_iff
    (hzone : P.ofUri (uriPath zone.segments ++ 47 :: stem) = some zone')
    (hc : c.toUri = stem ++ word) (hword : word ∈ queryWords)
    (hd : wordAt queryTypes d.toUri = some type) :
    zone' ++ word :: (label ++ [type]) <+: zone ++ c :: (label ++ d :: tail)
      ↔ c ∈ queryWords ∧ d ∈ queryTypes := by
  have hwordAt := (toString_toQueryType hword).2.2
  constructor
  · intro h
    by_cases hstem : stem = []
    · rw [hstem, P.ofUri_path_slash] at hzone
      rw [← Option.some.inj hzone, List.prefix_append_right_inj,
        List.cons_prefix_cons, List.prefix_append_right_inj,
        List.cons_prefix_cons] at h
      obtain ⟨rfl, rfl, -⟩ := h
      exact ⟨hword, List.mem_of_find?_eq_some hd⟩
    · obtain ⟨x, rfl⟩ := P.ofUri_segment _ _ stem (uriByte_of_mem_stem hc)
        hstem hzone
      rw [type_of_longer h, hwordAt.1, hwordAt.2] at hd
      simp at hd
  · rintro ⟨hcWord, hdType⟩
    rw [(toString_toQueryType hcWord).2.2.1] at hc
    obtain rfl := queryVocabulary.suffix word hword c hcWord ⟨stem, hc.symm⟩
    obtain rfl := List.self_eq_append_left.mp hc
    obtain ⟨hdUri, hdAt⟩ := toUri_of_mem_queryTypes d hdType
    rw [hdUri, hdAt] at hd
    obtain rfl := Option.some.inj hd
    rw [P.ofUri_path_slash] at hzone
    rw [← Option.some.inj hzone, List.prefix_append_right_inj]
    exact ⟨tail, by simp⟩

/-- No component that ends with a word ends with the marker. -/
theorem not_endsInMarker_of_word
    (hword : word ∈ queryWords) (hc : c.toUri = stem ++ word) :
    ¬ EndsInMarker c := by
  intro h
  obtain ⟨y, hy⟩ := (endsInMarker_iff c).mp h
  have hmarker : marker.getLast? = some 46 := by decide
  obtain ⟨b, hb, hne⟩ : ∃ b, word.getLast? = some b ∧ b ≠ 46 := by
    simp only [queryWords, List.mem_cons, List.not_mem_nil, or_false]
      at hword
    rcases hword with rfl | rfl
    · exact ⟨82, by decide, by decide⟩
    · exact ⟨83, by decide, by decide⟩
  have hlast := congrArg List.getLast? (hy.trans hc)
  rw [List.getLast?_append, List.getLast?_append, hmarker, hb] at hlast
  exact hne (Option.some.inj hlast).symm

/-- A component that ends with the marker does not come next. -/
theorem not_marker_next
    {x : Component} {rest rest' : Name}
    (hzone : ∀ e ∈ zone, ¬ EndsInMarker e) (hc : ¬ EndsInMarker c)
    (hx : EndsInMarker x) :
    ¬ x :: rest' <+: zone ++ c :: rest := by
  intro h
  cases zone with
  | nil =>
      obtain ⟨rfl, -⟩ := List.cons_prefix_cons.mp h
      exact hc hx
  | cons e zone =>
      obtain ⟨rfl, -⟩ := List.cons_prefix_cons.mp h
      exact hzone x (by simp) hx

theorem endsInMarker_hintLabel : EndsInMarker ForwardingHintLabel :=
  List.suffix_refl _

theorem eq_hintLabel_iff {m : Component} {y : Bytes}
    (hm : m.toUri = y ++ marker) :
    m = ForwardingHintLabel ↔ y = [] := by
  have hlabel : Component.toUri ForwardingHintLabel = marker := by decide
  constructor
  · rintro rfl
    rw [hlabel] at hm
    exact List.self_eq_append_left.mp hm
  · rintro rfl
    have hparse := parseComponent_toUri m
    rw [hm, List.nil_append, ← hlabel, parseComponent_toUri] at hparse
    exact (Option.some.inj hparse).symm

/-- The last component that ends with the marker decides. -/
theorem hintWhole_iff
    {hint : Name} {m : Component}
    (hm : EndsInMarker m) (hzone : ∀ e ∈ zone, ¬ EndsInMarker e) :
    HintWhole (hint ++ m :: zone) ↔ m = ForwardingHintLabel ∧ hint ≠ [] := by
  constructor
  · intro h
    exact h hint m zone rfl hm hzone
  · rintro ⟨hlabel, hne⟩ hint' m' zone' heq hm' hzone'
    rcases List.append_eq_append_iff.mp heq with
      ⟨a, rfl, ha⟩ | ⟨a, rfl, ha⟩
    · cases a with
      | nil =>
          obtain ⟨rfl, -⟩ := List.cons.inj ha
          exact ⟨hlabel, by simpa using hne⟩
      | cons e a =>
          refine absurd hm' (hzone m' ?_)
          rw [(List.cons.inj ha).2]
          simp
    · cases a with
      | nil =>
          obtain ⟨rfl, -⟩ := List.cons.inj ha
          exact ⟨hlabel, by simpa using hne⟩
      | cons e a =>
          refine absurd hm (hzone' m ?_)
          rw [(List.cons.inj ha).2]
          simp

/-- A name that begins with the marker is not put back. -/
theorem not_prefix_of_marker
    {m : Component} {back : Name}
    (hstem : zone' = zone ∨ ∃ x, zone' = zone ++ [x] ∧ c ≠ word)
    (hm : EndsInMarker m) (hzone : ∀ e ∈ zone, ¬ EndsInMarker e)
    (hword : ¬ EndsInMarker word) :
    ¬ zone' ++ word :: back <+: m :: (zone ++ c :: (label ++ d :: tail)) := by
  intro h
  cases zone with
  | nil =>
      rcases hstem with rfl | ⟨x, rfl, hne⟩
      · obtain ⟨rfl, -⟩ := List.cons_prefix_cons.mp h
        exact hword hm
      · have hrest := (List.cons_prefix_cons.mp h).2
        exact hne (List.cons_prefix_cons.mp hrest).1.symm
  | cons e zone =>
      rcases hstem with rfl | ⟨x, rfl, -⟩
      · obtain ⟨rfl, -⟩ := List.cons_prefix_cons.mp h
        exact hzone e (by simp) hm
      · obtain ⟨rfl, -⟩ := List.cons_prefix_cons.mp h
        exact hzone e (by simp) hm

/-- A zone as it is read: with the stem of the word, if there is one. -/
theorem zone_of_stem
    (hzone : P.ofUri (uriPath zone.segments ++ 47 :: stem) = some zone')
    (hc : c.toUri = stem ++ word) (hword : Component.toUri word = word) :
    zone' = zone ∨ ∃ x, zone' = zone ++ [x] ∧ c ≠ word := by
  by_cases hstem : stem = []
  · rw [hstem, P.ofUri_path_slash] at hzone
    exact Or.inl (Option.some.inj hzone).symm
  · right
    obtain ⟨x, hx⟩ := P.ofUri_segment _ _ stem (uriByte_of_mem_stem hc)
      hstem hzone
    refine ⟨x, hx, ?_⟩
    rintro rfl
    rw [hword] at hc
    exact hstem (List.self_eq_append_left.mp hc)

/-- Behind a hint, the marker has to be whole and the hint not empty, too. -/
theorem hinted_prefix_iff
    {hint hint' : Name} {m : Component} {y : Bytes}
    (hhint : P.ofUri (uriPath hint.segments ++ 47 :: y) = some hint')
    (hm : m.toUri = y ++ marker) (hclean : ∀ e ∈ zone, ¬ EndsInMarker e)
    (hzone : P.ofUri (uriPath zone.segments ++ 47 :: stem) = some zone')
    (hc : c.toUri = stem ++ word) (hword : word ∈ queryWords)
    (hd : wordAt queryTypes d.toUri = some type) :
    Query.hintComponents hint' ++ (zone' ++ word :: (label ++ [type])) <+:
        hint ++ m :: (zone ++ c :: (label ++ d :: tail)) ↔
      c ∈ queryWords ∧ d ∈ queryTypes ∧ m = ForwardingHintLabel ∧
        hint ≠ [] := by
  have hwordUri := (toString_toQueryType hword).2.2.1
  have hcEnd : ¬ EndsInMarker c := not_endsInMarker_of_word hword hc
  have hwordEnd : ¬ EndsInMarker word :=
    not_endsInMarker_of_word hword (hwordUri.trans (List.nil_append _).symm)
  rw [eq_hintLabel_iff hm]
  by_cases hy : y = []
  · have hmLabel := (eq_hintLabel_iff hm).mpr hy
    rw [hy, P.ofUri_path_slash] at hhint
    obtain rfl := Option.some.inj hhint
    by_cases hnil : hint = []
    · -- the marker alone is read as no hint
      rw [hnil, Query.hintComponents, if_pos rfl, List.nil_append,
        List.nil_append]
      refine iff_of_false ?_ (fun h => h.2.2.2 rfl)
      refine not_prefix_of_marker (zone_of_stem hzone hc hwordUri) ?_ hclean
        hwordEnd
      rw [hmLabel]
      exact endsInMarker_hintLabel
    · rw [Query.hintComponents, if_neg hnil, List.append_assoc,
        List.singleton_append, hmLabel, List.prefix_append_right_inj,
        List.cons_prefix_cons, eq_self_iff_true, true_and,
        zone_prefix_iff hzone hc hword hd]
      exact ⟨fun h => ⟨h.1, h.2, hy, hnil⟩, fun h => ⟨h.1, h.2.1⟩⟩
  · -- a hint that reaches into its marker
    obtain ⟨x, rfl⟩ := P.ofUri_segment _ _ y (uriByte_of_mem_stem hm)
      hy hhint
    refine iff_of_false ?_ (fun h => hy h.2.2.1)
    rw [Query.hintComponents, if_neg (by simp), List.append_assoc,
      List.append_assoc, List.prefix_append_right_inj, List.singleton_append,
      List.singleton_append, List.cons_prefix_cons]
    rintro ⟨-, hnext⟩
    exact not_marker_next hclean hcEnd endsInMarker_hintLabel hnext

end Prefixes

section Queries

variable {P : NameParser} {interest : Interest} {query : Query}
variable {front label tail : Name} {c d : Component}

/-- A query is put back where it was read exactly when the components at the cut
are whole. -/
theorem toInterest_prefix_iff_of_cut
    (h : Query.init.fromInterest P interest = some (true, query))
    (k : CutPlace interest.name front c label d tail) :
    query.toInterest.name <+: interest.name ↔
      c ∈ queryWords ∧ d ∈ queryTypes ∧ HintWhole front := by
  obtain ⟨map, hmatch⟩ := exists_match_of_fromInterest h
  obtain ⟨hword, hlabel, htype, stem, hc, hfront⟩ := k.captured hmatch
  obtain ⟨hzone, hrrLabel, hhint, hqueryType, hrrType⟩ :=
    fromInterest_of_match hmatch h
  rw [hlabel, P.ofUri_path k.label_ne_nil] at hrrLabel
  have hname : query.toInterest.name =
      Query.hintComponents query.forwardingHint ++
        (query.authorityZone ++
          map.queryType :: (label ++ [map.rrType])) := by
    rw [Query.toInterest_name, Query.front, ← Option.some.inj hrrLabel,
      hqueryType, (toString_toQueryType hword).1, hrrType,
      (toString_toRRType (List.mem_of_find?_eq_some htype)).1]
    simp
  rw [hname, k.name_eq]
  cases hfront with
  | plain hclean hnone hzoneText =>
      rw [hzoneText] at hzone
      have hnoHint : query.forwardingHint = [] := by
        rw [Query.hintOfMap, hnone, if_neg (by simp)] at hhint
        exact (Option.some.inj hhint).symm
      have hwhole : HintWhole front := by
        rintro hint m zone rfl hm -
        exact absurd ((endsInMarker_iff m).mp hm) (hclean m (by simp))
      rw [hnoHint, Query.hintComponents, if_pos rfl, List.nil_append,
        zone_prefix_iff hzone hc hword htype]
      exact ⟨fun h => ⟨h.1, h.2, hwhole⟩, fun h => ⟨h.1, h.2.1⟩⟩
  | @hinted hint zone m y hsplit hm hclean hsome hzoneText =>
      rw [hzoneText] at hzone
      have hread : P.ofUri (uriPath hint.segments ++ 47 :: y) =
          some query.forwardingHint := by
        rw [Query.hintOfMap, hsome, if_pos (by simp)] at hhint
        exact hhint
      have hend : EndsInMarker m := by
        rw [endsInMarker_iff, hm]
        exact List.suffix_append y marker
      have hclean' : ∀ e ∈ zone, ¬ EndsInMarker e :=
        fun e he hend => hclean e he ((endsInMarker_iff e).mp hend)
      rw [hsplit, hintWhole_iff hend hclean', List.append_assoc hint,
        List.cons_append,
        hinted_prefix_iff hread hm hclean' hzone hc hword htype]

/-- The parts that the query is made of are whole components at the front of
the name. -/
def PutBack (query : Query) (n : Name) : Prop :=
  query.toInterest.name <+: n ∧ query.queryType.isQueried = true ∧
    query.rrLabel ≠ [] ∧ query.rrType.isQueried = true

/-- What is accepted is put back where it was read exactly when the pattern cuts
the name at whole components. -/
theorem putBack_iff
    (P : NameParser) (interest : Interest) (query : Query)
    (h : Query.init.fromInterest P interest = some (true, query)) :
    PutBack query interest.name ↔ CutsWhole interest.name := by
  obtain ⟨map, hmatch⟩ := exists_match_of_fromInterest h
  constructor
  · rintro ⟨hname, -⟩ front c label d tail k
    exact (toInterest_prefix_iff_of_cut h k).mp hname
  · intro hwhole
    obtain ⟨front, c, label, d, tail, k⟩ := exists_cutPlace hmatch
    obtain ⟨hword, hlabel, htype, -⟩ := k.captured hmatch
    obtain ⟨-, hrrLabel, -, hqueryType, hrrType⟩ :=
      fromInterest_of_match hmatch h
    rw [hlabel, P.ofUri_path k.label_ne_nil] at hrrLabel
    refine ⟨(toInterest_prefix_iff_of_cut h k).mpr
      (hwhole front c label d tail k), ?_, ?_, ?_⟩
    · rw [hqueryType]
      exact (toString_toQueryType hword).2.1
    · rw [← Option.some.inj hrrLabel]
      exact k.label_ne_nil
    · rw [hrrType]
      exact (toString_toRRType (List.mem_of_find?_eq_some htype)).2

theorem cutsWhole_stubQuery :
    CutsWhole (stubQuery [ascii "isp"]).toInterest.name :=
  (putBack_iff uriParser (stubQuery [ascii "isp"]).toInterest
    (stubQuery [ascii "isp"]) (fromInterest_stubQuery _)).mp
      ⟨List.prefix_refl _, rfl, by simp [stubQuery], rfl⟩

/-- Components that only end or begin with a word. -/
def wordyInterest : Interest where
  name := [ascii "net", ascii "xDNS", ascii "www", ascii "TXTy"]
  interestLifetime := 4000

/-- What the server takes `wordyInterest` for. -/
def wordyQuery : Query where
  authorityZone := [ascii "net", ascii "x"]
  forwardingHint := []
  queryType := .DNS
  interestLifetime := 4000
  rrLabel := [ascii "www"]
  rrType := .TXT

/-- Two words that are not components are accepted and put back as others. -/
theorem wordyInterest_not_putBack :
    Query.init.fromInterest uriParser wordyInterest =
        some (true, wordyQuery) ∧
      wordyQuery.toInterest.name =
        [ascii "net", ascii "x", ascii "DNS", ascii "www", ascii "TXT"] ∧
      ¬ wordyQuery.toInterest.name <+: wordyInterest.name ∧
      ascii "DNS" ∉ wordyInterest.name ∧
      ascii "TXT" ∉ wordyInterest.name := by
  have hmatch : matchQueryName wordyInterest.name.toUri =
      some ⟨[], ascii "/net/x", ascii "DNS", ascii "/www",
        ascii "TXT"⟩ := by
    decide +kernel
  refine ⟨?_, by decide, by decide, by decide, by decide⟩
  unfold Query.fromInterest
  rw [hmatch]
  decide +kernel

end Queries

end Ndns

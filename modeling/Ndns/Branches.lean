import Ndns.NameServer
import Ndns.UpdateInterests

/-!
# The branch that an Interest is sent to

`NameServer::onInterest` tries the pattern of updates first and the pattern of
queries next.  A pattern with the words `ws` and the types `ts` matches a name
when one component ends with a word and a later one, with a label in between,
begins with a type.  The Interest of a query has such a pair for the query
pattern; what keeps it out of the branch of updates is that it has none for the
update pattern.

**Results.**
* `matchName_isSome_iff`: the names that a pattern matches;
* `toQueryBranch_iff`: the queries that reach the branch of queries;
* `toUpdateBranch`: every update reaches the branch of updates.
-/

namespace Ndns

/-- A component ends with a word and a later one, with a label in between, begins
with a type. -/
def Spells (ws ts : List Bytes) (n : Name) : Prop :=
  ∃ (pre : Name) (c : Component) (label : Name) (d : Component) (tail : Name),
    n = pre ++ c :: (label ++ d :: tail) ∧ label ≠ [] ∧
      (∃ w ∈ ws, w <:+ c.toUri) ∧ wordAt ts d.toUri ≠ none

section Spelling

variable {ws ts : List Bytes} {n : Name} {t : Component}

theorem cuttable_iff_spells : Cuttable ws ts n.segments ↔ Spells ws ts n := by
  constructor
  · rintro ⟨pre, stem, word, post, hes, hword, label, e, tail, rfl, hne, he⟩
    obtain ⟨front, back₁, rfl, -, hback₁⟩ := List.map_eq_append_iff.mp hes
    obtain ⟨c, back₂, rfl, hc, hback₂⟩ := List.map_eq_cons_iff.mp hback₁
    obtain ⟨mid, back₃, rfl, hmid, hback₃⟩ :=
      List.map_eq_append_iff.mp hback₂
    obtain ⟨d, last, rfl, hd, -⟩ := List.map_eq_cons_iff.mp hback₃
    refine ⟨front, c, mid, d, last, rfl, ?_, ⟨word, hword, stem, hc.symm⟩,
      by rw [hd]; exact he⟩
    rintro rfl
    exact hne hmid.symm
  · rintro ⟨pre, c, label, d, tail, rfl, hne, ⟨w, hw, stem, hc⟩, hd⟩
    refine ⟨pre.segments, stem, w,
      label.segments ++ d.toUri :: tail.segments, ?_, hw,
      label.segments, d.toUri, tail.segments, rfl, ?_, hd⟩
    · simp [Name.segments, hc]
    · simpa [Name.segments] using hne

/-- The names that a pattern matches. -/
theorem matchName_isSome_iff (hv : Vocabulary ws ts) (hn : n ≠ []) :
    (matchName ws ts n.toUri).isSome = true ↔ Spells ws ts n := by
  rw [Name.toUri_of_ne_nil hn, ← cuttable_iff_spells]
  exact isSome_matchName_iff hv (segments_of_name n)

/-- Behind a name, a component that begins with no type changes nothing. -/
theorem spells_concat_of_none
    (ht : wordAt ts (Component.toUri t) = none) :
    Spells ws ts (n ++ [t]) ↔ Spells ws ts n := by
  constructor
  · rintro ⟨pre, c, label, d, tail, hn, hne, hc, hd⟩
    rcases tail.eq_nil_or_concat with rfl | ⟨tail, x, rfl⟩
    · have hsplit : n ++ [t] = (pre ++ c :: label) ++ [d] := by
        rw [hn]
        simp
      obtain ⟨-, hlast⟩ := List.append_inj' hsplit rfl
      rw [(List.cons.inj hlast).1] at ht
      exact absurd ht hd
    · have hsplit : n ++ [t] =
          (pre ++ c :: (label ++ d :: tail)) ++ [x] := by
        rw [hn]
        simp
      obtain ⟨rfl, -⟩ := List.append_inj' hsplit rfl
      exact ⟨pre, c, label, d, tail, rfl, hne, hc, hd⟩
  · rintro ⟨pre, c, label, d, tail, rfl, hne, hc, hd⟩
    exact ⟨pre, c, label, d, tail ++ [t], by simp, hne, hc, hd⟩

/-- A type behind a name needs a word in front of the last component. -/
theorem spells_concat_of_type
    (ht : wordAt ts (Component.toUri t) ≠ none) :
    Spells ws ts (n ++ [t]) ↔
      ∃ c ∈ n.dropLast, ∃ w ∈ ws, w <:+ Component.toUri c := by
  constructor
  · rintro ⟨pre, c, label, d, tail, hn, hne, hc, -⟩
    refine ⟨c, ?_, hc⟩
    have hsplit : n = pre ++ c :: (label ++ d :: tail).dropLast := by
      have h := congrArg List.dropLast hn
      rw [List.dropLast_concat, List.dropLast_append_of_ne_nil (by simp),
        List.dropLast_cons_of_ne_nil (by simp)] at h
      exact h
    have hlen : (label ++ d :: tail).dropLast ≠ [] := by
      rw [List.dropLast_append_of_ne_nil (by simp)]
      simp [hne]
    rw [hsplit, List.dropLast_append_of_ne_nil (by simp),
      List.dropLast_cons_of_ne_nil hlen]
    simp
  · rintro ⟨c, hc, hw⟩
    obtain ⟨pre, post, hsplit⟩ := List.append_of_mem hc
    have hn : n ≠ [] := by
      rintro rfl
      simp at hc
    have hall := List.dropLast_append_getLast hn
    rw [hsplit] at hall
    refine ⟨pre, c, post ++ [n.getLast hn], t, [], ?_, by simp, hw, ht⟩
    conv_lhs => rw [← hall]
    simp

end Spelling

/-- `NameServer::onInterest` takes the Interest for a query. -/
def ToQueryBranch (interest : Interest) : Prop :=
  (matchUpdateName interest.name.toUri).isSome = false ∧
    (matchQueryName interest.name.toUri).isSome = true

/-- `NameServer::onInterest` takes the Interest for an update. -/
def ToUpdateBranch (interest : Interest) : Prop :=
  (matchUpdateName interest.name.toUri).isSome = true

namespace Query

/-- What `toInterest` puts in front of the record type. -/
def beforeType (q : Query) : Name :=
  q.front ++ q.queryType.toString :: q.rrLabel

theorem name_eq_beforeType (q : Query) :
    q.toInterest.name = q.beforeType ++ [q.rrType.toString] := by
  rw [q.toInterest_name, beforeType]
  simp

theorem wordAt_updateTypes {t : RRType} (h : t.isQueried = true) :
    wordAt updateTypes (Component.toUri t.toString) = none := by
  cases t
  case NS => decide
  case TXT => decide
  case FH => decide
  case ID_CERT => decide
  all_goals exact absurd h (by decide)

/-- A query with a query type of its own ends a component with a word. -/
theorem exists_word_of_isQueried
    {q : Query} (hq : q.queryType.isQueried = true) (hlabel : q.rrLabel ≠ []) :
    ∃ c ∈ q.beforeType.dropLast, EndsInQueryWord c := by
  obtain ⟨huri, hmem⟩ := toUri_queryWord hq
  refine ⟨q.queryType.toString, ?_, q.queryType.toString, hmem, ?_⟩
  · rw [beforeType, List.dropLast_append_of_ne_nil (by simp),
      List.dropLast_cons_of_ne_nil hlabel]
    simp
  · rw [huri]

/-- A query reaches the branch of queries exactly when some component in front
of the last of its label ends with a query word, as its query type does, and its
name does not spell an update. -/
theorem toQueryBranch_iff
    {q : Query} (ht : q.rrType.isQueried = true) :
    ToQueryBranch q.toInterest ↔
      (∃ c ∈ q.beforeType.dropLast, EndsInQueryWord c) ∧
        ¬ Spells updateWords updateTypes q.beforeType := by
  have hne : q.toInterest.name ≠ [] := by
    rw [name_eq_beforeType]
    simp
  have hqueryType :
      wordAt queryTypes (Component.toUri q.rrType.toString) ≠ none := by
    rw [(toUri_queryType ht).1, (toUri_queryType ht).2]
    simp
  have hquery : (matchQueryName q.toInterest.name.toUri).isSome = true ↔
      ∃ c ∈ q.beforeType.dropLast, EndsInQueryWord c := by
    refine (matchName_isSome_iff queryVocabulary hne).trans ?_
    rw [name_eq_beforeType]
    exact spells_concat_of_type hqueryType
  have hupdate : (matchUpdateName q.toInterest.name.toUri).isSome = true ↔
      Spells updateWords updateTypes q.beforeType := by
    refine (matchName_isSome_iff updateVocabulary hne).trans ?_
    rw [name_eq_beforeType]
    exact spells_concat_of_none (wordAt_updateTypes ht)
  rw [ToQueryBranch, hquery, ← hupdate, Bool.not_eq_true]
  exact and_comm

end Query

/-- Every update reaches the branch of updates. -/
theorem QueryUpdate.toUpdateBranch
    {K : PacketCodec} {u u' : QueryUpdate} {version : Version}
    {interest : Interest}
    (hqueryType : u.queryType = .DNS) (hrrType : u.rrType = .DYNDNS_UPDATE)
    (h : u.toInterest K version = some (interest, u')) :
    ToUpdateBranch interest := by
  obtain ⟨data, -, -, rfl⟩ :=
    QueryUpdate.toInterest_eq_some hqueryType hrrType h
  exact matchUpdateName_isSome _ _ version

/-- Queries reach their branch exactly when their names spell a query and no
update; updates always reach theirs. -/
theorem branches_iff
    (K : PacketCodec) (q : Query)
    (hlabel : q.rrLabel ≠ []) (ht : q.rrType.isQueried = true) :
    (ToQueryBranch q.toInterest ↔
        (q.queryType.isQueried = true ∨
            ∃ c ∈ q.beforeType.dropLast, EndsInQueryWord c) ∧
          ¬ Spells updateWords updateTypes q.beforeType) ∧
      ∀ (u u' : QueryUpdate) (version : Version) (interest : Interest),
        u.queryType = .DNS → u.rrType = .DYNDNS_UPDATE →
        u.toInterest K version = some (interest, u') →
        ToUpdateBranch interest := by
  constructor
  · rw [Query.toQueryBranch_iff ht]
    have hword : (q.queryType.isQueried = true ∨
        ∃ c ∈ q.beforeType.dropLast, EndsInQueryWord c) ↔
          ∃ c ∈ q.beforeType.dropLast, EndsInQueryWord c :=
      ⟨fun h => h.elim (fun hq => Query.exists_word_of_isQueried hq hlabel) id,
        Or.inr⟩
    rw [hword]
  · intro u u' version interest hqueryType hrrType h
    exact QueryUpdate.toUpdateBranch hqueryType hrrType h

/-- A label that spells an update with the query type in front of it. -/
def spellingQuery : Query where
  authorityZone := [ascii "net"]
  forwardingHint := []
  queryType := .DNS
  interestLifetime := 4000
  rrLabel := [ascii "a", ascii "DYNDNSUPDATE"]
  rrType := .TXT

theorem toQueryBranch_zoneQuery : ToQueryBranch Query.zoneQuery.toInterest := by
  refine (branches_iff (ndnCodec DynamicDNSUpdate.digestSignature)
    Query.zoneQuery (by decide) (by decide)).1.mpr ⟨Or.inl (by decide), ?_⟩
  have hclean : ∀ d ∈ Query.zoneQuery.beforeType,
      wordAt updateTypes (Component.toUri d) = none := by
    decide
  rintro ⟨pre, c, label, d, tail, hn, -, -, hd⟩
  refine hd (hclean d ?_)
  rw [hn]
  simp

/-- The query is decoded as an update, and decoding throws. -/
theorem spellingQuery_to_update :
    spellingQuery.rrLabel ≠ [] ∧ spellingQuery.rrType.isQueried = true ∧
      ToUpdateBranch spellingQuery.toInterest ∧
      ∀ (S : Sqlite) (K : PacketCodec) (server : NameServer)
        (version : Version) (disk : Disk),
        server.onInterest uriParser S K version spellingQuery.toInterest
          disk = (.threw [], disk) := by
  have hmatch : matchUpdateName spellingQuery.toInterest.name.toUri =
      some ⟨[], ascii "/net/", ascii "DNS", ascii "/a",
        ascii "DYNDNSUPDATE"⟩ := by
    decide +kernel
  refine ⟨by decide, rfl, ?_, ?_⟩
  · rw [ToUpdateBranch, hmatch]
    rfl
  · intro S K server version disk
    have hread : QueryUpdate.init.fromInterest uriParser K
        spellingQuery.toInterest = none := by
      unfold QueryUpdate.fromInterest
      rw [hmatch]
      rfl
    rw [NameServer.onInterest, hmatch, Option.isSome_some, if_pos rfl,
      NameServer.onUpdate, hread]

end Ndns

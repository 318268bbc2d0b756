import Ndns.Branches
import Ndns.QueryVerdicts
import Ndns.Store

/-!
# Plain names

A name without capitals, underscores and escaped bytes contains no query word and no
record type, so the patterns read a question about it as it is meant, and `LIKE`
finds exactly the labels below it.

**Results.**
* `isPrefix_of_like`: what `LIKE` matches is a continuation of a plain text;
* `exists_append_of_toUri`: such a continuation is a name below the label;
* `Query.Plain.roundTrips`, `Query.Plain.toQueryBranch`: how a question about a
  plain name is read;
* `Query.Plain.eq_of_isPrefix`: a packet satisfies the Interest of one question.
-/

namespace Ndns

/-- A byte that the patterns and `LIKE` take for nothing but itself. -/
def literalByte (b : UInt8) : Bool :=
  b != 37 && b != 95 && !(65 ≤ b && b ≤ 90)

def PlainText (s : Bytes) : Prop :=
  ∀ b ∈ s, literalByte b = true

instance (s : Bytes) : Decidable (PlainText s) :=
  List.decidableBAll (fun b => literalByte b = true) s

namespace Name

/-- A name without capitals, underscores and escaped bytes. -/
def Plain (n : Name) : Prop :=
  ∀ c ∈ n, PlainText c.toUri

instance (n : Name) : Decidable n.Plain :=
  inferInstanceAs (Decidable (∀ c ∈ n, PlainText (Component.toUri c)))

theorem Plain.subset {m n : Name} (h : n.Plain) (hle : m ⊆ n) : m.Plain :=
  fun c hc => h c (hle hc)

end Name

section Patterns

theorem lower_of_literalByte {b : UInt8} (h : literalByte b = true) :
    lower b = b := by
  revert b
  apply forall_byte
  decide +kernel

theorem literalByte_ne {b : UInt8} (h : literalByte b = true) :
    b ≠ 37 ∧ b ≠ 95 := by
  simp only [literalByte, Bool.and_eq_true, bne_iff_ne] at h
  exact h.1

/-- A plain text is matched by itself only. -/
theorem isPrefix_of_like
    {p q s : Bytes} (hp : PlainText p) (hs : PlainText s)
    (h : like (p ++ q) s = true) :
    ∃ t, s = p ++ t ∧ like q t = true := by
  induction p generalizing s with
  | nil =>
      exact ⟨s, rfl, h⟩
  | cons b p ih =>
      obtain ⟨hpercent, hany⟩ := literalByte_ne (hp b (by simp))
      rw [List.cons_append] at h
      unfold like at h
      rw [if_neg hpercent] at h
      cases s with
      | nil =>
          simp at h
      | cons x s =>
          simp only [if_neg hany, Bool.and_eq_true,
            decide_eq_true_eq] at h
          obtain ⟨hlower, hrest⟩ := h
          rw [lower_of_literalByte (hp b (by simp)),
            lower_of_literalByte (hs x (by simp))] at hlower
          subst hlower
          obtain ⟨t, rfl, ht⟩ := ih (fun y hy => hp y (by simp [hy]))
            (fun y hy => hs y (by simp [hy])) hrest
          exact ⟨t, rfl, ht⟩

theorem plainText_toUri {n : Name} (h : n.Plain) : PlainText n.toUri := by
  intro b hb
  rcases n.eq_nil_or_concat with rfl | ⟨m, c, rfl⟩
  · rw [show Name.toUri [] = [47] from rfl, List.mem_singleton] at hb
    rw [hb]
    decide
  · rw [Name.toUri_of_ne_nil (by simp), uriPath, List.mem_flatMap] at hb
    obtain ⟨e, he, hb⟩ := hb
    obtain ⟨c', hc', rfl⟩ := List.mem_map.mp he
    rcases List.mem_cons.mp hb with rfl | hb
    · decide
    · exact h c' hc' b hb

end Patterns

section Labels

theorem Component.toUri_injective : Function.Injective Component.toUri := by
  intro c d h
  have hc := parseComponent_toUri c
  rw [h, parseComponent_toUri d] at hc
  exact (Option.some.inj hc).symm

theorem splitSlash_ne_nil (s : Bytes) : splitSlash s ≠ [] := by
  cases s with
  | nil =>
      simp [splitSlash]
  | cons x s =>
      unfold splitSlash
      split_ifs
      · simp
      · split <;> simp

/-- The segments of a path in front of more text. -/
theorem splitSlash_path_append
    {es : List Bytes} (hes : ∀ e ∈ es, (47 : UInt8) ∉ e) (s : Bytes) :
    splitSlash (uriPath es ++ 47 :: s) = [] :: (es ++ splitSlash s) := by
  induction es with
  | nil =>
      simp [splitSlash]
  | cons e es ih =>
      have hrest := ih (fun f hf => hes f (by simp [hf]))
      obtain ⟨y, hy⟩ : ∃ y, uriPath es ++ 47 :: s = 47 :: y := by
        cases es with
        | nil => exact ⟨s, rfl⟩
        | cons f es => exact ⟨f ++ uriPath es ++ 47 :: s, by simp⟩
      have htail : splitSlash y = es ++ splitSlash s := by
        rw [hy] at hrest
        simpa [splitSlash] using hrest
      have hcut : splitSlash (e ++ 47 :: y) = e :: splitSlash y :=
        splitSlash_append e y (hes e (by simp))
      rw [uriPath_cons, List.cons_append, List.append_assoc, hy]
      simp [splitSlash, hcut, htail]

theorem splitSlash_toUri {n : Name} (h : n ≠ []) :
    splitSlash n.toUri = [] :: n.segments := by
  obtain ⟨m, c, rfl⟩ := n.eq_nil_or_concat'.resolve_left h
  have hsegments : Name.segments (m ++ [c]) =
      Name.segments m ++ [c.toUri] := by
    simp [Name.segments]
  have hpath := splitSlash_path (Name.segments m) c.toUri
    (slash_notMem_segments m) (slash_notMem_toUri c)
  rw [Name.toUri_of_ne_nil h, hsegments, uriPath_append]
  simpa [uriPath] using hpath

/-- A URI that continues the URI of a label names something below it. -/
theorem exists_append_of_toUri
    {label n : Name} (hlabel : label ≠ []) {t : Bytes}
    (h : n.toUri = label.toUri ++ 47 :: t) :
    ∃ m, m ≠ [] ∧ n = label ++ m := by
  have hn : n ≠ [] := by
    rintro rfl
    have hlen := congrArg List.length h
    rw [Name.toUri_of_ne_nil hlabel] at hlen
    obtain ⟨c, label, rfl⟩ := List.exists_cons_of_ne_nil hlabel
    simp [Name.toUri, Name.segments] at hlen
  have hsplit := splitSlash_toUri hn
  rw [h, Name.toUri_of_ne_nil hlabel,
    splitSlash_path_append (slash_notMem_segments label)] at hsplit
  obtain ⟨a, m, rfl, ha, hm⟩ :=
    List.map_eq_append_iff.mp (List.cons.inj hsplit).2.symm
  obtain rfl : a = label := Component.toUri_injective.list_map ha
  refine ⟨m, ?_, rfl⟩
  rintro rfl
  exact splitSlash_ne_nil t hm.symm

end Labels

section Components

variable {n : Name} {c : Component}

/-- A text with a capital in it is no part of a plain one. -/
theorem PlainText.not_isInfix
    {s w : Bytes} (hs : PlainText s) (hw : ¬ PlainText w) : ¬ w <:+: s :=
  fun hle => hw (fun b hb => hs b (hle.subset hb))

theorem Name.Plain.not_endsInQueryWord (h : n.Plain) :
    ∀ c ∈ n, ¬ EndsInQueryWord c := by
  have hcapitals : ∀ w ∈ queryWords, ¬ PlainText w := by
    decide
  rintro c hc ⟨w, hw, hsuffix⟩
  exact (h c hc).not_isInfix (hcapitals w hw) hsuffix.isInfix

theorem PlainText.wordAt_eq_none
    {s : Bytes} {ts : List Bytes} (hs : PlainText s)
    (hts : ∀ t ∈ ts, ¬ PlainText t) : wordAt ts s = none := by
  rw [wordAt, List.find?_eq_none]
  intro t ht hpre
  exact hs.not_isInfix (hts t ht) (of_decide_eq_true hpre).isInfix

theorem escapeByte_marker : escapeByte 0xF0 = [37, 70, 48] := by
  decide

theorem Name.Plain.markerFree (h : n.Plain) : MarkerFree n := by
  intro c hc hmarker
  have hmem : (0xF0 : UInt8) ∈ c := hmarker.subset (by decide)
  have hpercent : (37 : UInt8) ∈ c.toUri := by
    unfold Component.toUri
    split
    · next hdots =>
        have hdot := List.all_eq_true.mp hdots _ hmem
        simp at hdot
    · refine List.mem_flatMap.mpr ⟨_, hmem, ?_⟩
      rw [escapeByte_marker]
      simp
  exact absurd (h c hc _ hpercent) (by decide)

theorem not_plainText_queryType {t : QueryType} (h : t.isQueried = true) :
    ¬ PlainText (Component.toUri t.toString) := by
  cases t
  case DNS => decide
  case DNS_R => decide
  all_goals exact absurd h (by decide)

theorem toString_ne_marker {t : QueryType} (h : t.isQueried = true) :
    t.toString ≠ ForwardingHintLabel := by
  revert h
  cases t <;> decide

theorem not_plainText_rrType (t : RRType) :
    ¬ PlainText (Component.toUri t.toString) := by
  cases t <;> decide

theorem not_plainText_marker :
    ¬ PlainText (Component.toUri ForwardingHintLabel) := by
  decide

end Components

/-- Everything in the name of the question is plain or a word of it. -/
structure Query.Plain (q : Query) : Prop where
  hint : q.forwardingHint.Plain
  zone : q.authorityZone.Plain
  label : q.rrLabel.Plain
  queryType : q.queryType.isQueried = true
  rrType : q.rrType.isQueried = true

instance (q : Query) : Decidable q.Plain :=
  decidable_of_iff
    (q.forwardingHint.Plain ∧ q.authorityZone.Plain ∧ q.rrLabel.Plain ∧
      q.queryType.isQueried = true ∧ q.rrType.isQueried = true)
    ⟨fun ⟨h₁, h₂, h₃, h₄, h₅⟩ => ⟨h₁, h₂, h₃, h₄, h₅⟩,
      fun ⟨h₁, h₂, h₃, h₄, h₅⟩ => ⟨h₁, h₂, h₃, h₄, h₅⟩⟩

namespace Query.Plain

variable {q q' : Query}

/-- A plain question with a label is read as it is meant. -/
theorem wellNamed (h : q.Plain) (hlabel : q.rrLabel ≠ []) :
    q.WellNamed where
  queryType := h.queryType
  rrType := h.rrType
  label_ne_nil := hlabel
  label_clean c hc :=
    h.label.not_endsInQueryWord c (List.mem_of_mem_dropLast hc)

theorem roundTrips
    (P : NameParser) (h : q.Plain) (hlabel : q.rrLabel ≠ []) :
    q.RoundTrips P :=
  q.roundTrips_of_plainCut P h.queryType h.rrType hlabel
    h.zone.markerFree (h.wellNamed hlabel).label_clean

/-- Before the record type no component begins with the type of an update. -/
theorem wordAt_beforeType (h : q.Plain) :
    ∀ c ∈ q.beforeType, wordAt updateTypes c.toUri = none := by
  have hplain {n : Name} (hn : n.Plain) :
      ∀ c ∈ n, wordAt updateTypes c.toUri = none :=
    fun c hc => (hn c hc).wordAt_eq_none (by decide)
  have hword : wordAt updateTypes
      (Component.toUri q.queryType.toString) = none := by
    have hq := h.queryType
    revert hq
    cases q.queryType <;> decide
  have hfront : ∀ c ∈ q.front, wordAt updateTypes c.toUri = none := by
    intro c hc
    rw [front, hintComponents] at hc
    split_ifs at hc
    · exact hplain h.zone c (by simpa using hc)
    · simp only [List.mem_append, List.mem_singleton] at hc
      rcases hc with (hc | rfl) | hc
      · exact hplain h.hint c hc
      · decide
      · exact hplain h.zone c hc
  intro c hc
  rw [beforeType, List.mem_append, List.mem_cons] at hc
  rcases hc with hc | rfl | hc
  · exact hfront c hc
  · exact hword
  · exact hplain h.label c hc

theorem not_spells (h : q.Plain) :
    ¬ Spells updateWords updateTypes q.beforeType := by
  rintro ⟨pre, c, label, d, tail, hn, -, -, hd⟩
  refine hd (h.wordAt_beforeType d ?_)
  rw [hn]
  simp

theorem toQueryBranch (h : q.Plain) (hlabel : q.rrLabel ≠ []) :
    ToQueryBranch q.toInterest :=
  (toQueryBranch_iff h.rrType).mpr
    ⟨exists_word_of_isQueried h.queryType hlabel, h.not_spells⟩

theorem not_endsInQueryWord_front (h : q.Plain) :
    ∀ c ∈ q.front, ¬ EndsInQueryWord c := by
  intro c hc
  rw [front, hintComponents] at hc
  split_ifs at hc
  · exact h.zone.not_endsInQueryWord c (by simpa using hc)
  · simp only [List.mem_append, List.mem_singleton] at hc
    rcases hc with (hc | rfl) | hc
    · exact h.hint.not_endsInQueryWord c hc
    · decide
    · exact h.zone.not_endsInQueryWord c hc

/-- Without a label no pattern matches. -/
theorem no_branch (h : q.Plain) (hnil : q.rrLabel = []) :
    (matchUpdateName q.toInterest.name.toUri).isSome = false ∧
      (matchQueryName q.toInterest.name.toUri).isSome = false := by
  have hname : q.toInterest.name ≠ [] := by
    rw [name_eq_beforeType]
    simp
  have hupdate : ¬ (matchUpdateName q.toInterest.name.toUri).isSome := by
    refine fun hsome => h.not_spells ?_
    have hspells := (matchName_isSome_iff updateVocabulary hname).mp hsome
    rw [name_eq_beforeType] at hspells
    exact (spells_concat_of_none (wordAt_updateTypes h.rrType)).mp hspells
  rw [Bool.not_eq_true] at hupdate
  refine ⟨hupdate, ?_⟩
  by_contra hquery
  rw [Bool.not_eq_false] at hquery
  obtain ⟨⟨c, hc, hword⟩, -⟩ := (toQueryBranch_iff h.rrType).mp
    ⟨hupdate, hquery⟩
  rw [beforeType, hnil, List.dropLast_concat] at hc
  exact h.not_endsInQueryWord_front c hc hword

end Query.Plain

section Packets

/-- Two lists that are cut at the first element without a property. -/
theorem isPrefix_at_cut
    {α : Type} {p : α → Prop} {as as' bs bs' : List α} {a a' : α}
    (has : ∀ x ∈ as, p x) (has' : ∀ x ∈ as', p x)
    (ha : ¬ p a) (ha' : ¬ p a')
    (h : as ++ a :: bs <+: as' ++ a' :: bs') :
    as = as' ∧ a = a' ∧ bs <+: bs' := by
  induction as generalizing as' with
  | nil =>
      cases as' with
      | nil =>
          obtain ⟨rfl, hbs⟩ := List.cons_prefix_cons.mp h
          exact ⟨rfl, rfl, hbs⟩
      | cons x as' =>
          obtain ⟨rfl, -⟩ := List.cons_prefix_cons.mp h
          exact absurd (has' a (by simp)) ha
  | cons x as ih =>
      cases as' with
      | nil =>
          obtain ⟨rfl, -⟩ := List.cons_prefix_cons.mp h
          exact absurd (has x (by simp)) ha'
      | cons x' as' =>
          obtain ⟨rfl, hrest⟩ := List.cons_prefix_cons.mp h
          obtain ⟨rfl, hcut⟩ := ih (fun y hy => has y (by simp [hy]))
            (fun y hy => has' y (by simp [hy])) hrest
          exact ⟨rfl, hcut⟩

namespace Query.Plain

variable {q q' : Query}

/-- Behind the hint, a name is cut at its query type and its record type. -/
theorem eq_of_isPrefix_question
    (h : q.Plain) (h' : q'.Plain) {tail : Name}
    (hpre : q.authorityZone ++ q.queryType.toString ::
        (q.rrLabel ++ [q.rrType.toString]) <+:
      q'.authorityZone ++ q'.queryType.toString ::
        (q'.rrLabel ++ q'.rrType.toString :: tail)) :
    q.authorityZone = q'.authorityZone ∧
      q.queryType.toString = q'.queryType.toString ∧
      q.rrLabel = q'.rrLabel ∧ q.rrType = q'.rrType := by
  obtain ⟨hzone, hqueryType, hrest⟩ := isPrefix_at_cut h.zone h'.zone
    (not_plainText_queryType h.queryType)
    (not_plainText_queryType h'.queryType) hpre
  obtain ⟨hlabel, hrrType, -⟩ := isPrefix_at_cut h.label h'.label
    (not_plainText_rrType _) (not_plainText_rrType _) hrest
  exact ⟨hzone, hqueryType, hlabel, RRType.toString_injective hrrType⟩

/-- A packet that answers one question, under its name and a version, satisfies
no other. -/
theorem eq_of_isPrefix
    (h : q.Plain) (h' : q'.Plain) {tail : Name}
    (hpre : q.toInterest.name <+: q'.toInterest.name ++ tail) :
    q.toInterest.name = q'.toInterest.name ∧
      q.authorityZone = q'.authorityZone ∧ q.rrLabel = q'.rrLabel ∧
      q.rrType = q'.rrType := by
  have hword := not_plainText_queryType h.queryType
  have hword' := not_plainText_queryType h'.queryType
  rw [q.toInterest_name, q'.toInterest_name, front, front, hintComponents,
    hintComponents] at *
  by_cases hhint : q.forwardingHint = []
  · by_cases hhint' : q'.forwardingHint = []
    · rw [if_pos hhint, if_pos hhint'] at *
      simp only [List.nil_append, List.append_assoc, List.cons_append]
        at hpre
      obtain ⟨hzone, hqueryType, hlabel, hrrType⟩ :=
        h.eq_of_isPrefix_question h' hpre
      exact ⟨by rw [hzone, hqueryType, hlabel, hrrType], hzone, hlabel,
        hrrType⟩
    · rw [if_pos hhint, if_neg hhint'] at hpre
      simp only [List.nil_append, List.append_assoc, List.cons_append]
        at hpre
      exact absurd (isPrefix_at_cut h.zone h'.hint hword
        not_plainText_marker hpre).2.1
          (toString_ne_marker h.queryType)
  · by_cases hhint' : q'.forwardingHint = []
    · rw [if_neg hhint, if_pos hhint'] at hpre
      simp only [List.nil_append, List.append_assoc, List.cons_append]
        at hpre
      exact absurd (isPrefix_at_cut h.hint h'.zone not_plainText_marker
        hword' hpre).2.1.symm
          (toString_ne_marker h'.queryType)
    · rw [if_neg hhint, if_neg hhint'] at *
      simp only [List.nil_append, List.append_assoc, List.cons_append]
        at hpre
      obtain ⟨hhints, -, hrest⟩ := isPrefix_at_cut h.hint h'.hint
        not_plainText_marker not_plainText_marker hpre
      obtain ⟨hzone, hqueryType, hlabel, hrrType⟩ :=
        h.eq_of_isPrefix_question h' hrest
      exact ⟨by rw [hhints, hzone, hqueryType, hlabel, hrrType], hzone,
        hlabel, hrrType⟩

end Query.Plain

end Packets

end Ndns

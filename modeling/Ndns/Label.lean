import Ndns.Enum
import Ndns.NameRegex

/-!
# Recognising names

`ndns-label.hpp`: the forwarding-hint marker, the patterns for queries and
updates, and the two functions that match them.  The pattern works on the URI of
the whole name, so a component of the label is as good a place for `DNS` as the
component that was meant.  `EndsInQueryWord` is the test that decides: the label
that is read starts behind the last such component that leaves a label.

**Results.**
* `marker_suffix_toUri`: the marker shows up in a URI only where a component
  has its bytes;
* `queryReading`: how a name that was built for a query is cut;
* `matchQueryName_cut`, `matchQueryName_hint`: what it is matched as, without
  and with a forwarding hint.
-/

namespace Ndns

/-- `label::ForwardingHintLabel` -/
def ForwardingHintLabel : Component := [0xF0, 46]

def queryWords : List Bytes := [ascii "DNS-R", ascii "DNS"]

def queryTypes : List Bytes :=
  [ascii "FH", ascii "TXT", ascii "NS", ascii "ID-CERT"]

def updateWords : List Bytes := [ascii "DNS"]

def updateTypes : List Bytes := [ascii "DYNDNSUPDATE"]

/-- `((/.*)%F0\.)?(/.*)/?(DNS-R|DNS)(/.*)/(FH|TXT|NS|ID-CERT)(.*)` -/
def QUERY_NAME_REGEX : Backtrack.Regex UInt8 :=
  nameRegex queryWords queryTypes

/-- `((/.*)%F0\.)?(/.*)/?(DNS)(/.*)/(DYNDNSUPDATE)(.*)` -/
def UPDATE_NAME_REGEX : Backtrack.Regex UInt8 :=
  nameRegex updateWords updateTypes

def matchQueryName (str : Bytes) : Option NameMap :=
  (Backtrack.fullMatch QUERY_NAME_REGEX str).map NameMap.ofCaptures

def matchUpdateName (str : Bytes) : Option NameMap :=
  (Backtrack.fullMatch UPDATE_NAME_REGEX str).map NameMap.ofCaptures

theorem queryVocabulary : Vocabulary queryWords queryTypes where
  types := by decide
  words := by decide
  suffix := by decide

theorem updateVocabulary : Vocabulary updateWords updateTypes where
  types := by decide
  words := by decide
  suffix := by decide

theorem uriByte_dot {b : UInt8} (h : uriByte b = true) : dot b = true := by
  revert b
  apply forall_byte
  decide +kernel

/-- The URI of a name is text that the patterns can be tried on. -/
theorem segments_of_name (n : Name) : Segments n.segments where
  slash := slash_notMem_segments n
  dot := by
    intro b hb
    obtain ⟨e, he, hb⟩ := List.mem_flatMap.mp hb
    obtain ⟨c, -, rfl⟩ := List.mem_map.mp he
    rcases List.mem_cons.mp hb with rfl | hb
    · decide
    · exact uriByte_dot (uriByte_of_mem_toUri hb)

/-- The component ends, in its URI, with one of the words of a query. -/
def EndsInQueryWord (c : Component) : Prop :=
  ∃ w ∈ queryWords, w <:+ c.toUri

instance (c : Component) : Decidable (EndsInQueryWord c) :=
  inferInstanceAs (Decidable (∃ w ∈ queryWords, w <:+ c.toUri))

/-- The record types that the query pattern knows. -/
def RRType.isQueried : RRType → Bool
  | .NS | .TXT | .FH | .ID_CERT => true
  | _ => false

/-- The query types that the query pattern knows. -/
def QueryType.isQueried : QueryType → Bool
  | .DNS | .DNS_R => true
  | _ => false

section Marker

/-- An escaped byte, read from behind. -/
def escapeRev (b : UInt8) : Bytes :=
  (escapeByte b).reverse

theorem escapeRev_cases (b : UInt8) :
    (unreserved b = true ∧ escapeRev b = [b]) ∨
      escapeRev b = [hexDigit (b % 16), hexDigit (b / 16), 37] := by
  unfold escapeRev escapeByte
  cases hb : unreserved b <;> simp

theorem hexDigit_ne (b : UInt8) :
    hexDigit (b / 16) ≠ 37 ∧ hexDigit (b % 16) ≠ 37 ∧
      hexDigit (b % 16) ≠ 46 := by
  revert b
  apply forall_byte
  decide +kernel

theorem eq_of_hexDigits {b : UInt8}
    (hhi : hexDigit (b / 16) = 70) (hlo : hexDigit (b % 16) = 48) :
    b = 0xF0 := by
  revert b
  apply forall_byte
  decide +kernel

theorem not_escaped_percent (d : Bytes) :
    ¬ [37] <+: d.flatMap escapeRev := by
  cases d with
  | nil => simp
  | cons b d =>
      rcases escapeRev_cases b with ⟨hb, he⟩ | he
      · simp only [List.flatMap_cons, he, List.cons_append,
          List.cons_prefix_cons]
        rintro ⟨rfl, -⟩
        exact absurd hb (by decide)
      · simp only [List.flatMap_cons, he, List.cons_append,
          List.cons_prefix_cons]
        rintro ⟨hlo, -⟩
        exact (hexDigit_ne b).2.1 hlo.symm

theorem not_escaped_nibble (d : Bytes) :
    ¬ [70, 37] <+: d.flatMap escapeRev := by
  cases d with
  | nil => simp
  | cons b d =>
      rcases escapeRev_cases b with ⟨-, he⟩ | he
      · simp only [List.flatMap_cons, he, List.cons_append,
          List.cons_prefix_cons]
        rintro ⟨-, h⟩
        exact not_escaped_percent d h
      · simp only [List.flatMap_cons, he, List.cons_append,
          List.cons_prefix_cons]
        rintro ⟨-, hhi, -⟩
        exact (hexDigit_ne b).1 hhi.symm

/-- Only the byte `0xF0` is written `%F0`. -/
theorem escaped_byte_eq {d : Bytes}
    (h : [48, 70, 37] <+: d.flatMap escapeRev) :
    [0xF0] <+: d := by
  cases d with
  | nil => simp at h
  | cons b d =>
      rcases escapeRev_cases b with ⟨-, he⟩ | he
      · simp only [List.flatMap_cons, he, List.cons_append,
          List.cons_prefix_cons] at h
        exact absurd h.2 (not_escaped_nibble d)
      · simp only [List.flatMap_cons, he, List.cons_append,
          List.cons_prefix_cons] at h
        obtain ⟨hlo, hhi, -⟩ := h
        have hb := eq_of_hexDigits hhi.symm hlo.symm
        simp [hb]

theorem escaped_marker_eq {d : Bytes}
    (h : [46, 48, 70, 37] <+: d.flatMap escapeRev) :
    [46, 0xF0] <+: d := by
  cases d with
  | nil => simp at h
  | cons b d =>
      rcases escapeRev_cases b with ⟨-, he⟩ | he
      · simp only [List.flatMap_cons, he, List.cons_append,
          List.nil_append, List.cons_prefix_cons] at h
        obtain ⟨rfl, h⟩ := h
        simpa using escaped_byte_eq h
      · simp only [List.flatMap_cons, he, List.cons_append,
          List.cons_prefix_cons] at h
        exact absurd h.1.symm (hexDigit_ne b).2.2

/-- A URI ends with the marker only if the component ends with its bytes. -/
theorem marker_suffix_toUri {c : Component}
    (h : marker <:+ c.toUri) :
    ForwardingHintLabel <:+ c := by
  unfold Component.toUri at h
  split at h
  · next hc =>
      have hmem : (37 : UInt8) ∈ ([46, 46, 46] ++ c : Bytes) :=
        h.subset (by decide)
      have hc' := List.all_eq_true.mp hc 37 (by simpa using hmem)
      exact absurd hc' (by decide)
  · rw [← List.reverse_prefix, List.reverse_flatMap] at h
    have hrev : [46, 0xF0] <+: c.reverse := escaped_marker_eq h
    rw [← List.reverse_prefix]
    exact hrev

end Marker

section QueryNames

theorem toUri_queryWord {q : QueryType} (h : q.isQueried = true) :
    Component.toUri q.toString = q.toString ∧
      q.toString ∈ queryWords := by
  cases q
  case DNS => decide
  case DNS_R => decide
  all_goals exact absurd h (by decide)

theorem toUri_queryType {t : RRType} (h : t.isQueried = true) :
    Component.toUri t.toString = t.toString ∧
      wordAt queryTypes t.toString = some t.toString := by
  cases t
  case NS => decide
  case TXT => decide
  case FH => decide
  case ID_CERT => decide
  all_goals exact absurd h (by decide)

/-- The reading of a name whose label starts behind the component `c`. -/
def nameReading
    {ws ts : List Bytes} (pre : Name)
    {c : Component} {stem word : Bytes}
    (hc : c.toUri = stem ++ word) (hword : word ∈ ws)
    {label : Name} (hlabel : label ≠ [])
    (hclean : ∀ d ∈ label.dropLast, ∀ w ∈ ws, ¬ w <:+ Component.toUri d)
    {t : Component}
    (ht : Component.toUri t = t ∧ wordAt ts t = some t)
    (tail : Name)
    (htail : ∀ d ∈ tail, wordAt ts (Component.toUri d) = none) :
    Reading ws ts (Name.segments (pre ++ c :: (label ++ t :: tail))) where
  pre := pre.segments
  stem := stem
  word := word
  label := label.segments
  rrType := t
  rest := []
  tail := tail.segments
  es_eq := by
    simp [Name.segments, hc, ht.1]
  word_mem := hword
  label_ne_nil := by simpa [Name.segments] using hlabel
  type_eq := by simpa using ht.2
  tail_clean := by
    intro e he
    obtain ⟨d, hd, rfl⟩ := List.mem_map.mp he
    exact htail d hd
  label_clean := by
    intro e he w hw
    rw [Name.segments, ← List.map_dropLast] at he
    obtain ⟨d, hd, rfl⟩ := List.mem_map.mp he
    exact hclean d hd w hw

/-- The reading of a name that was built for a query. -/
def queryReading
    (pre : Name) {c : Component} {stem word : Bytes}
    (hc : c.toUri = stem ++ word) (hword : word ∈ queryWords)
    {label : Name} (hlabel : label ≠ [])
    (hclean : ∀ d ∈ label.dropLast, ¬ EndsInQueryWord d)
    {t : RRType} (ht : t.isQueried = true) (tail : Name)
    (htail : ∀ d ∈ tail, wordAt queryTypes (Component.toUri d) = none) :
    Reading queryWords queryTypes
      (Name.segments (pre ++ c :: (label ++ t.toString :: tail))) :=
  nameReading pre hc hword hlabel
    (fun d hd w hw hsuf => hclean d hd ⟨w, hw, hsuf⟩)
    (toUri_queryType ht) tail htail

/-- A label with a word in front of its last component can be cut there. -/
theorem exists_wordCut
    {label : Name}
    (h : ∃ d ∈ label.dropLast, EndsInQueryWord d) :
    ∃ (front : Name) (c : Component) (rest : Name) (stem word : Bytes),
      label = front ++ c :: rest ∧ c.toUri = stem ++ word ∧
        word ∈ queryWords ∧ rest ≠ [] ∧
        ∀ d ∈ rest.dropLast, ¬ EndsInQueryWord d := by
  obtain ⟨a, c, b, hsplit, ⟨w, hw, stem, hstem⟩, hb⟩ :=
    exists_last_split EndsInQueryWord label.dropLast h
  have hne : label ≠ [] := by
    intro hnil
    simp [hnil] at hsplit
  refine ⟨a, c, b ++ [label.getLast hne], stem, w, ?_, hstem.symm, hw,
    by simp, ?_⟩
  · have hlabel := List.dropLast_append_getLast hne
    rw [hsplit] at hlabel
    simpa using hlabel.symm
  · rw [List.dropLast_concat]
    exact hb

/-- The root is no match. -/
theorem matchQueryName_root : matchQueryName (Name.toUri []) = none := by
  decide +kernel

/-- A match of a name is a cut of its segments. -/
theorem cuttable_of_matchQueryName
    {n : Name} {map : NameMap} (h : matchQueryName n.toUri = some map) :
    n ≠ [] ∧ Cuttable queryWords queryTypes n.segments := by
  have hn : n ≠ [] := by
    rintro rfl
    simp [matchQueryName_root] at h
  rw [Name.toUri_of_ne_nil hn] at h
  exact ⟨hn, (isSome_matchName_iff queryVocabulary (segments_of_name n)).mp
    (Option.isSome_of_eq_some h)⟩

/-- Every match comes from a reading. -/
theorem exists_reading_of_match
    {n : Name} {map : NameMap}
    (h : matchQueryName n.toUri = some map) :
    ∃ r : Reading queryWords queryTypes n.segments,
      map.rrLabel = uriPath r.label ∧ map.rrType = r.rrType := by
  obtain ⟨hn, hcut⟩ := cuttable_of_matchQueryName h
  rw [Name.toUri_of_ne_nil hn] at h
  obtain ⟨r⟩ := exists_reading hcut
  obtain ⟨hint, zone, hmatch⟩ :=
    matchName_reading queryVocabulary (segments_of_name n) r
  have hmap : some map = some ⟨hint, zone, r.word,
      uriPath r.label, r.rrType⟩ := h.symm.trans hmatch
  rw [Option.some.inj hmap]
  exact ⟨r, rfl, rfl⟩

/-- No component of a name has the bytes of the marker. -/
def MarkerFree (n : Name) : Prop :=
  ∀ c ∈ n, ¬ ForwardingHintLabel <:+: c

theorem MarkerFree.segments {n : Name} (h : MarkerFree n) :
    ∀ e ∈ n.segments, ¬ marker <:+ e := by
  intro e he hsuf
  obtain ⟨c, hc, rfl⟩ := List.mem_map.mp he
  exact h c hc (marker_suffix_toUri hsuf).isInfix

theorem MarkerFree.append {m n : Name}
    (hm : MarkerFree m) (hn : MarkerFree n) :
    MarkerFree (m ++ n) := by
  intro c hc
  rcases List.mem_append.mp hc with hc | hc
  · exact hm c hc
  · exact hn c hc

variable {pre : Name} {c : Component} {stem word : Bytes}
variable {label : Name} {t : RRType} {tail : Name}

/-- Matching a query name without a forwarding hint. -/
theorem matchQueryName_cut
    (hc : c.toUri = stem ++ word) (hword : word ∈ queryWords)
    (hlabel : label ≠ [])
    (hclean : ∀ d ∈ label.dropLast, ¬ EndsInQueryWord d)
    (ht : t.isQueried = true)
    (htail : ∀ d ∈ tail, wordAt queryTypes (Component.toUri d) = none)
    (hpre : ∀ e ∈ pre.segments, ¬ marker <:+ e) :
    matchQueryName
        (Name.toUri (pre ++ c :: (label ++ t.toString :: tail))) =
      some {
        hint := []
        zone := uriPath pre.segments ++ 47 :: stem
        queryType := word
        rrLabel := uriPath label.segments
        rrType := t.toString } := by
  rw [Name.toUri_of_ne_nil (by simp)]
  exact matchName_of_reading queryVocabulary (segments_of_name _)
    (queryReading pre hc hword hlabel hclean ht tail htail)
    hpre

/-- Matching a query name behind a forwarding hint. -/
theorem matchQueryName_hint
    (hint : Name)
    (hc : c.toUri = stem ++ word) (hword : word ∈ queryWords)
    (hlabel : label ≠ [])
    (hclean : ∀ d ∈ label.dropLast, ¬ EndsInQueryWord d)
    (ht : t.isQueried = true)
    (htail : ∀ d ∈ tail, wordAt queryTypes (Component.toUri d) = none)
    (hpre : MarkerFree pre) :
    matchQueryName
        (Name.toUri (hint ++ ForwardingHintLabel ::
          (pre ++ c :: (label ++ t.toString :: tail)))) =
      some {
        hint := uriPath hint.segments ++ [47]
        zone := uriPath pre.segments ++ 47 :: stem
        queryType := word
        rrLabel := uriPath label.segments
        rrType := t.toString } := by
  have hname :
      hint ++ ForwardingHintLabel ::
          (pre ++ c :: (label ++ t.toString :: tail)) =
        (hint ++ ForwardingHintLabel :: pre) ++
          c :: (label ++ t.toString :: tail) := by
    simp
  have hmark : Component.toUri ForwardingHintLabel = [] ++ marker := by
    decide
  rw [hname, Name.toUri_of_ne_nil (by simp)]
  refine matchName_of_hint queryVocabulary (segments_of_name _)
    (queryReading (hint ++ ForwardingHintLabel :: pre) hc hword hlabel
      hclean ht tail htail)
    hint.segments [] pre.segments ?_ hpre.segments
  simp [queryReading, nameReading, Name.segments, hmark]

end QueryNames

end Ndns

import Ndns.Label
import Ndns.UriParser

/-!
# Names that match

What a match says about the components of a name: one of them ends with the word,
the label is the components between it and the one that starts with the type, and
a hint ends with the last component with a marker in front.

**Results.**
* `exists_nameCut`: every match is a cut of the name.
-/

namespace Ndns

/-- The part of a name in front of the word, as the map has it. -/
inductive FrontCut (stem : Bytes) (map : NameMap) (front : Name) : Prop
  | plain
      (hclean : ∀ c ∈ front, ¬ marker <:+ Component.toUri c)
      (hhint : map.hint = [])
      (hzone : map.zone = uriPath front.segments ++ 47 :: stem)
  | hinted {hint zone : Name} {m : Component} {y : Bytes}
      (hfront : front = hint ++ m :: zone)
      (hm : m.toUri = y ++ marker)
      (hclean : ∀ c ∈ zone, ¬ marker <:+ Component.toUri c)
      (hhint : map.hint = uriPath hint.segments ++ 47 :: y)
      (hzone : map.zone = uriPath zone.segments ++ 47 :: stem)

/-- Where a match cuts a name. -/
structure NameCut (ws ts : List Bytes) (n : Name) (map : NameMap) where
  front : Name
  wordComponent : Component
  label : Name
  typeComponent : Component
  tail : Name
  stem : Bytes
  rest : Bytes
  name_eq :
    n = front ++ wordComponent :: (label ++ typeComponent :: tail)
  word_eq : wordComponent.toUri = stem ++ map.queryType
  word_mem : map.queryType ∈ ws
  label_ne_nil : label ≠ []
  label_clean :
    ∀ d ∈ label.dropLast, ∀ w ∈ ws, ¬ w <:+ Component.toUri d
  label_eq : map.rrLabel = uriPath label.segments
  type_eq : typeComponent.toUri = map.rrType ++ rest
  wordAt_eq : wordAt ts typeComponent.toUri = some map.rrType
  frontCut : FrontCut stem map front

section Cuts

variable {ws ts : List Bytes} {n : Name} {map : NameMap}

/-- A reading of the URI of a name goes from component to component. -/
theorem Reading.components (r : Reading ws ts n.segments) :
    ∃ (front : Name) (c : Component) (label : Name) (d : Component)
      (tail : Name),
      n = front ++ c :: (label ++ d :: tail) ∧
        r.pre = front.segments ∧ c.toUri = r.stem ++ r.word ∧
        r.label = label.segments ∧ d.toUri = r.rrType ++ r.rest ∧
        r.tail = tail.segments := by
  obtain ⟨front, back, rfl, hfront, hback⟩ :=
    List.map_eq_append_iff.mp r.es_eq
  obtain ⟨c, back, rfl, hc, hback⟩ := List.map_eq_cons_iff.mp hback
  obtain ⟨label, back, rfl, hlabel, hback⟩ :=
    List.map_eq_append_iff.mp hback
  obtain ⟨d, tail, rfl, hd, htail⟩ := List.map_eq_cons_iff.mp hback
  exact ⟨front, c, label, d, tail, rfl, hfront.symm, hc, hlabel.symm, hd,
    htail.symm⟩

/-- What a match captures, given the components in front of the word. -/
theorem Reading.captured
    (hv : Vocabulary ws ts) (r : Reading ws ts n.segments) {front : Name}
    (hfront : r.pre = front.segments)
    (h : matchName ws ts n.toUri = some map) :
    map.queryType = r.word ∧ map.rrLabel = uriPath r.label ∧
      map.rrType = r.rrType ∧ FrontCut r.stem map front := by
  have hn : n ≠ [] := by
    rintro rfl
    exact absurd r.es_eq (by simp [Name.segments])
  rw [Name.toUri_of_ne_nil hn] at h
  by_cases hm : ∃ m ∈ front, marker <:+ Component.toUri m
  · obtain ⟨hint, m, zone, rfl, ⟨y, hy⟩, hclean⟩ :=
      exists_last_split (fun m => marker <:+ Component.toUri m) front hm
    have hpre : r.pre =
        Name.segments hint ++ (y ++ marker) :: Name.segments zone := by
      rw [hfront, hy]
      simp [Name.segments]
    have hmatch := matchName_of_hint hv (segments_of_name n) r _ y _ hpre
      (by
        intro e he
        obtain ⟨c, hc, rfl⟩ := List.mem_map.mp he
        exact hclean c hc)
    obtain rfl := Option.some.inj (h.symm.trans hmatch)
    exact ⟨rfl, rfl, rfl, FrontCut.hinted rfl hy.symm hclean rfl rfl⟩
  · have hclean : ∀ c ∈ front, ¬ marker <:+ Component.toUri c :=
      fun c hc hsuf => hm ⟨c, hc, hsuf⟩
    have hmatch := matchName_of_reading hv (segments_of_name n) r (by
      rw [hfront]
      intro e he
      obtain ⟨c, hc, rfl⟩ := List.mem_map.mp he
      exact hclean c hc)
    obtain rfl := Option.some.inj (h.symm.trans hmatch)
    exact ⟨rfl, rfl, rfl, FrontCut.plain hclean rfl (by rw [hfront])⟩

/-- Every match is a cut of the name. -/
theorem exists_nameCut
    (hv : Vocabulary ws ts) (hroot : matchName ws ts [47] = none)
    (h : matchName ws ts n.toUri = some map) :
    Nonempty (NameCut ws ts n map) := by
  have hn : n ≠ [] := by
    rintro rfl
    simp [Name.toUri, hroot] at h
  have hmatch := h
  rw [Name.toUri_of_ne_nil hn] at h
  have hcut : Cuttable ws ts n.segments :=
    (isSome_matchName_iff hv (segments_of_name n)).mp
      (Option.isSome_of_eq_some h)
  obtain ⟨r⟩ := exists_reading hcut
  obtain ⟨front, c, label, d, tail, hname, hfront, hc, hlabel, hd, -⟩ :=
    r.components
  obtain ⟨hword, hrrLabel, hrrType, hcutFront⟩ :=
    r.captured hv hfront hmatch
  exact ⟨{
    front := front
    wordComponent := c
    label := label
    typeComponent := d
    tail := tail
    stem := r.stem
    rest := r.rest
    name_eq := hname
    word_eq := by rw [hc, hword]
    word_mem := by rw [hword]; exact r.word_mem
    label_ne_nil := by
      rintro rfl
      exact r.label_ne_nil hlabel
    label_clean := by
      intro e he w hw
      refine r.label_clean (Component.toUri e) ?_ w hw
      rw [hlabel, Name.segments, ← List.map_dropLast]
      exact List.mem_map_of_mem he
    label_eq := by rw [hrrLabel, hlabel]
    type_eq := by rw [hd, hrrType]
    wordAt_eq := by rw [hd, hrrType]; exact r.type_eq
    frontCut := hcutFront }⟩

end Cuts

end Ndns

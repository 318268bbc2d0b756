import Ndns.ResponseUpdateCache
import Ndns.DynamicDnsUpdate

/-!
# What decoding leaves of an object

`Response::fromData` appends the RRs of the packet to those the object has, and
takes label, type and hint from the name of the packet only if the name, or the
hint in it, is there.  The other decoders do likewise with the parts they have.
What an object held before may stay, and shows in what it is decoded to.

**Results.**
* `Response.fromData_eq_map`, `QueryUpdate.fromInterestMap_eq_map`: what an
  input says, and what an object makes of it;
* `decoding_replaces_iff`: the objects that a decoder leaves as it leaves a new
  one, and the inputs that it decodes twice as once.
-/

namespace Ndns

/-- What a name says that is matched; a hint only if there is one. -/
structure NameParts where
  zone : Name
  queryType : QueryType
  label : Name
  type : RRType
  hint : Option Name

/-- The parts of a match; `none` when a `Name` constructor throws. -/
def NameParts.ofMap (P : NameParser) (map : NameMap) : Option NameParts := do
  let zone ← P.ofUri map.zone
  let label ← P.ofUri map.rrLabel
  let hint ←
    (if map.hint = [] then some none else (P.ofUri map.hint).map some)
  return {
    zone := zone
    queryType := toQueryType map.queryType
    label := label
    type := toRRType map.rrType
    hint := hint }

/-- The parts of a match, if there is one. -/
def NameParts.ofMatch (P : NameParser) :
    Option NameMap → Option (Option NameParts)
  | none => some none
  | some map => (ofMap P map).map some

/-- A match has no hint, or there is none. -/
def NoHint (m : Option NameMap) : Prop :=
  ∀ map, m = some map → map.hint = []

section Objects

variable {ρ : Type} (Decodes Same : ρ → ρ → Prop)

/-- What an object is decoded to, a new one is decoded to. -/
def Replaces (init r : ρ) : Prop :=
  ∀ r' r₀, Decodes r r' → Decodes init r₀ → Same r' r₀

/-- To decode twice is to decode once. -/
def Repeats (r : ρ) : Prop :=
  ∀ r₁ r₂, Decodes r r₁ → Decodes r₁ r₂ → Same r₂ r₁

variable {Decodes Same} {take : ρ → ρ}

theorem replaces_iff
    (h : ∀ r r', Decodes r r' ↔ take r = r') (init r : ρ) :
    Replaces Decodes Same init r ↔ Same (take r) (take init) := by
  constructor
  · intro hreplaces
    exact hreplaces _ _ ((h _ _).mpr rfl) ((h _ _).mpr rfl)
  · intro hsame r' r₀ hr hinit
    obtain rfl := (h _ _).mp hr
    obtain rfl := (h _ _).mp hinit
    exact hsame

theorem repeats_iff
    (h : ∀ r r', Decodes r r' ↔ take r = r') (r : ρ) :
    Repeats Decodes Same r ↔ Same (take (take r)) (take r) := by
  constructor
  · intro hrepeats
    exact hrepeats _ _ ((h _ _).mpr rfl) ((h _ _).mpr rfl)
  · intro hsame r₁ r₂ h₁ h₂
    obtain rfl := (h _ _).mp h₁
    obtain rfl := (h _ _).mp h₂
    exact hsame

/-- A decoder that only differs in what it makes of what it reads decodes into
every object what it decodes into one. -/
theorem exists_take
    {χ : Type} {decode : ρ → Option ρ} {read : Option χ}
    {take : χ → ρ → ρ}
    (hdecode : ∀ r, decode r = read.map (fun x => take x r))
    {r : ρ} (h : (decode r).isSome = true) :
    ∃ x, read = some x ∧ ∀ r r', decode r = some r' ↔ take x r = r' := by
  rw [hdecode, Option.isSome_map] at h
  obtain ⟨x, hx⟩ := Option.isSome_iff_exists.mp h
  refine ⟨x, hx, ?_⟩
  intro r r'
  rw [hdecode, hx, Option.map_some, Option.some.injEq]

end Objects

variable {P : NameParser}

/-- The three names that are parsed, and what is done with them. -/
theorem NameParts.bind_ofMap
    {α : Type} (map : NameMap) (hint : Name)
    (f : Name → Name → Name → Option α) :
    (do
      let zone ← P.ofUri map.zone
      let label ← P.ofUri map.rrLabel
      let hint ← (if map.hint = [] then some hint else P.ofUri map.hint)
      f zone label hint) =
      (ofMap P map).bind (fun parts =>
        f parts.zone parts.label (parts.hint.getD hint)) := by
  unfold ofMap
  cases P.ofUri map.zone with
  | none =>
      rfl
  | some zone =>
      cases P.ofUri map.rrLabel with
      | none =>
          rfl
      | some label =>
          by_cases hnil : map.hint = []
          · simp [hnil]
          · cases P.ofUri map.hint <;> simp [hnil]

theorem NameParts.type_ofMap
    {map : NameMap} {parts : NameParts}
    (h : ofMap P map = some parts) :
    parts.type = toRRType map.rrType ∧
      parts.queryType = toQueryType map.queryType := by
  simp only [ofMap, Option.bind_eq_bind, Option.bind_eq_some_iff] at h
  obtain ⟨zone, -, label, -, hint, -, h⟩ := h
  obtain rfl := Option.some.inj h
  exact ⟨rfl, rfl⟩

theorem NameParts.hint_ofMap
    {map : NameMap} {parts : NameParts}
    (h : ofMap P map = some parts) :
    parts.hint = none ↔ map.hint = [] := by
  simp only [ofMap, Option.bind_eq_bind, Option.bind_eq_some_iff] at h
  obtain ⟨zone, -, label, -, hint, hhint, h⟩ := h
  obtain rfl := Option.some.inj h
  split_ifs at hhint with hnil
  · obtain rfl := Option.some.inj hhint
    simp [hnil]
  · obtain ⟨name, -, rfl⟩ := Option.map_eq_some_iff.mp hhint
    simp [hnil]

theorem NameParts.hint_ofMatch
    {m : Option NameMap} {parts : Option NameParts}
    (h : ofMatch P m = some parts) :
    parts.bind NameParts.hint = none ↔ NoHint m := by
  cases m with
  | none =>
      obtain rfl := Option.some.inj h
      simp [NoHint]
  | some map =>
      obtain ⟨ps, hps, rfl⟩ := Option.map_eq_some_iff.mp h
      simpa [NoHint] using hint_ofMap hps

theorem NameParts.ofMatch_eq_none
    {m : Option NameMap} {parts : Option NameParts}
    (h : ofMatch P m = some parts) :
    parts = none ↔ m = none := by
  cases m with
  | none =>
      obtain rfl := Option.some.inj h
      simp
  | some map =>
      obtain ⟨ps, -, rfl⟩ := Option.map_eq_some_iff.mp h
      simp

namespace Response

/-- The parts of a name in a response; it keeps what the name does not say. -/
def setParts (r : Response) : Option NameParts → Response
  | none => r
  | some parts =>
      { r with
        authorityZone := parts.zone
        rrLabel := parts.label
        rrType := parts.type
        forwardingHint := parts.hint.getD r.forwardingHint }

/-- What a packet says. -/
abbrev Contents :=
  Option NameParts × Name × ResponseType × Int × List RR

def read (P : NameParser) (data : Data) : Option Contents := do
  let parts ← NameParts.ofMatch P (matchQueryName data.name.toUri)
  let d ← decoded P data.content
  return (parts, d)

/-- What a response makes of it. -/
def take (data : Data) (x : Contents) (r : Response) : Response :=
  load { r.setParts x.1 with
    queryName := data.name
    freshness := data.freshnessPeriod
    queryType := data.contentType } data.content x.2

theorem readName_eq (r : Response) (name : Name) :
    r.readName P name =
      (NameParts.ofMatch P (matchQueryName name.toUri)).map r.setParts := by
  unfold readName
  cases matchQueryName name.toUri with
  | none =>
      rfl
  | some map =>
      refine (NameParts.bind_ofMap map r.forwardingHint _).trans ?_
      cases hmap : NameParts.ofMap P map with
      | none =>
          simp [NameParts.ofMatch, hmap]
      | some parts =>
          simp [NameParts.ofMatch, hmap, setParts,
            (NameParts.type_ofMap hmap).1]

theorem fromData_eq_map (r : Response) (data : Data) :
    r.fromData P data = (read P data).map (fun x => r.take data x) := by
  unfold fromData read
  rw [readName_eq]
  cases NameParts.ofMatch P (matchQueryName data.name.toUri) with
  | none =>
      rfl
  | some parts =>
      simp only [Option.map_some, Option.bind_eq_bind, Option.bind_some,
        wireDecode_eq]
      cases decoded P data.content <;> rfl

/-- Agreement in the parts that `fromData` is to replace. -/
structure SameParts (r r₀ : Response) : Prop where
  queryName_eq : r.queryName = r₀.queryName
  rrs_eq : r.rrs = r₀.rrs
  rrLabel_eq : r.rrLabel = r₀.rrLabel
  rrType_eq : r.rrType = r₀.rrType
  forwardingHint_eq : r.forwardingHint = r₀.forwardingHint
  responseType_eq : r.responseType = r₀.responseType

/-- Agreement in the other fields. -/
structure SameRest (r r₀ : Response) : Prop where
  authorityZone_eq : r.authorityZone = r₀.authorityZone
  freshness_eq : r.freshness = r₀.freshness
  queryType_eq : r.queryType = r₀.queryType
  wire_eq : r.wire = r₀.wire

theorem SameParts.eq
    {r r₀ : Response} (h : SameParts r r₀) (hrest : SameRest r r₀) :
    r = r₀ := by
  obtain ⟨hname, hrrs, hlabel, htype, hhint, hresponse⟩ := h
  obtain ⟨hzone, hfresh, hquery, hwire⟩ := hrest
  cases r
  cases r₀
  simp_all only

/-- A response holds nothing that would stay behind a packet whose name is
matched so. -/
structure Blank (m : Option NameMap) (r : Response) : Prop where
  rrs_eq : r.rrs = []
  label_eq : m = none → r.rrLabel = [] ∧ r.rrType = .NS
  hint_eq : NoHint m → r.forwardingHint = []

theorem blank_iff
    {m : Option NameMap} {parts : Option NameParts}
    (h : NameParts.ofMatch P m = some parts) (r : Response) :
    (r.rrs = [] ∧ (parts = none → r.rrLabel = [] ∧ r.rrType = .NS) ∧
        (parts.bind NameParts.hint = none → r.forwardingHint = [])) ↔
      Blank m r := by
  rw [NameParts.ofMatch_eq_none h, NameParts.hint_ofMatch h]
  constructor
  · rintro ⟨hrrs, hlabel, hhint⟩
    exact ⟨hrrs, hlabel, hhint⟩
  · rintro ⟨hrrs, hlabel, hhint⟩
    exact ⟨hrrs, hlabel, hhint⟩

/-- The number of RRs that a block declares. -/
def declaredRrs (wire : Tlv.Block) : Option Nat := do
  let it ← wire.parse
  let (_, it) ← Tlv.expect tlv.Name it
  let (_, it) ← Tlv.expect tlv.ResponseType it
  let (_, it) ← Tlv.expect tlv.ResponseFressness it
  let (blob, _) ← Tlv.expect tlv.ResponseContentBlob it
  let it2 ← blob.parse
  let (number, _) ← Tlv.expect tlv.ResponseNumberOfRRData it2
  Tlv.readNonNegativeInteger number.value

theorem declaredRrs_eq
    {wire : Tlv.Block} {d : Name × ResponseType × Int × List RR}
    (h : decoded P wire = some d) :
    declaredRrs wire = some d.2.2.2.length := by
  simp only [decoded, Option.bind_eq_bind, Option.bind_eq_some_iff] at h
  obtain ⟨it, hparse, name, hname, queryName, -, type, htype, fresh, hfresh,
    freshness, -, blob, hblob, it₂, hparse₂, number, hnumber, rrlen, hrrlen,
    rrs, hrrs, h⟩ := h
  obtain rfl := Option.some.inj h
  simp only [declaredRrs, hparse, hname, htype, hfresh, hblob, hparse₂,
    hnumber, hrrlen, Option.bind_eq_bind, Option.bind_some]
  rw [(decodedRrs_eq_some P hrrs).1]

section Take

variable {data : Data} {x : Contents}

/-- The RRs of the packet go behind those that are there. -/
theorem take_rrs (r : Response) :
    (r.take data x).rrs = r.rrs ++ x.2.2.2.2.map (fun rr =>
      (rr.setLabel (r.setParts x.1).rrLabel).setType
        (r.setParts x.1).rrType) := by
  unfold take load
  cases x.1 <;> rfl

theorem rrs_eq_nil_of_take
    {r : Response}
    (h : (r.take data x).rrs = (init.take data x).rrs) :
    r.rrs = [] := by
  have hlength := congrArg List.length h
  rw [take_rrs, take_rrs] at hlength
  simpa [init] using hlength

theorem hint_eq_nil_of_take
    {r : Response}
    (h : (r.take data x).forwardingHint = (init.take data x).forwardingHint)
    (hhint : x.1.bind NameParts.hint = none) :
    r.forwardingHint = [] := by
  obtain ⟨parts, d⟩ := x
  cases parts with
  | none =>
      exact h
  | some parts =>
      have hnone : parts.hint = none := hhint
      simpa [take, load, setParts, hnone, init] using h

theorem sameParts_take_iff (r : Response) :
    SameParts (r.take data x) (init.take data x) ↔
      r.rrs = [] ∧ (x.1 = none → r.rrLabel = [] ∧ r.rrType = .NS) ∧
        (x.1.bind NameParts.hint = none → r.forwardingHint = []) := by
  obtain ⟨parts, d⟩ := x
  constructor
  · intro h
    refine ⟨rrs_eq_nil_of_take h.rrs_eq, ?_,
      hint_eq_nil_of_take h.forwardingHint_eq⟩
    rintro rfl
    exact ⟨h.rrLabel_eq, h.rrType_eq⟩
  · rintro ⟨hrrs, hlabel, hhint⟩
    cases parts with
    | none =>
        obtain ⟨hrrLabel, hrrType⟩ := hlabel rfl
        have hrrs' : (r.take data (none, d)).rrs =
            (init.take data (none, d)).rrs := by
          simp [take_rrs, setParts, hrrs, hrrLabel, hrrType, init]
        exact ⟨rfl, hrrs', hrrLabel, hrrType, hhint rfl, rfl⟩
    | some parts =>
        have hrrs' : (r.take data (some parts, d)).rrs =
            (init.take data (some parts, d)).rrs := by
          simp [take_rrs, setParts, hrrs, init]
        refine ⟨rfl, hrrs', rfl, rfl, ?_, rfl⟩
        cases hp : parts.hint with
        | none =>
            simp [take, load, setParts, hp, hhint hp, init]
        | some hint =>
            simp [take, load, setParts, hp]

/-- Of the other fields only the zone may stay. -/
theorem take_eq_iff (r : Response) :
    r.take data x = init.take data x ↔
      SameParts (r.take data x) (init.take data x) ∧
        (x.1 = none → r.authorityZone = []) := by
  obtain ⟨parts, d⟩ := x
  constructor
  · intro h
    refine ⟨by rw [h]; exact ⟨rfl, rfl, rfl, rfl, rfl, rfl⟩, ?_⟩
    rintro rfl
    exact congrArg Response.authorityZone h
  · rintro ⟨h, hzone⟩
    have hzone' : (r.take data (parts, d)).authorityZone =
        (init.take data (parts, d)).authorityZone := by
      cases parts with
      | none => exact hzone rfl
      | some parts => rfl
    have hrest : SameRest (r.take data (parts, d))
        (init.take data (parts, d)) := by
      cases parts <;> exact ⟨hzone', rfl, rfl, rfl⟩
    exact h.eq hrest

/-- The second time the RRs are there already. -/
theorem sameParts_take_take_iff (r : Response) :
    SameParts ((r.take data x).take data x) (r.take data x) ↔
      x.2.2.2.2 = [] := by
  obtain ⟨parts, d⟩ := x
  constructor
  · intro h
    have hlength := congrArg List.length h.rrs_eq
    rw [take_rrs] at hlength
    simpa using hlength
  · intro hnil
    have hrrs : ((r.take data (parts, d)).take data (parts, d)).rrs =
        (r.take data (parts, d)).rrs := by
      rw [take_rrs, show d.2.2.2 = [] from hnil]
      simp
    cases parts with
    | none =>
        exact ⟨rfl, hrrs, rfl, rfl, rfl, rfl⟩
    | some parts =>
        refine ⟨rfl, hrrs, rfl, rfl, ?_, rfl⟩
        cases hp : parts.hint <;> simp [take, load, setParts, hp]

end Take

/-- A second time, it is the RRs that tell. -/
theorem take_take_eq_iff
    {data : Data} {x : Contents} (r : Response) :
    (r.take data x).take data x = r.take data x ↔ x.2.2.2.2 = [] := by
  rw [← sameParts_take_take_iff r]
  constructor
  · intro h
    rw [h]
    exact ⟨rfl, rfl, rfl, rfl, rfl, rfl⟩
  · intro h
    obtain ⟨parts, d⟩ := x
    refine h.eq ?_
    cases parts <;> exact ⟨rfl, rfl, rfl, rfl⟩

section Decode

variable {data : Data} {x : Contents}

theorem read_eq_some
    (hread : read P data = some x) :
    NameParts.ofMatch P (matchQueryName data.name.toUri) = some x.1 ∧
      decoded P data.content = some x.2 := by
  simp only [read, Option.bind_eq_bind, Option.bind_eq_some_iff] at hread
  obtain ⟨parts, hparts, d, hd, h⟩ := hread
  obtain rfl := Option.some.inj h
  exact ⟨hparts, hd⟩

theorem no_rrs_iff
    (hread : read P data = some x) :
    x.2.2.2.2 = [] ↔ declaredRrs data.content = some 0 := by
  rw [declaredRrs_eq (read_eq_some hread).2, Option.some.injEq,
    List.length_eq_zero_iff]

variable {r : Response} (h : (r.fromData P data).isSome = true)
include h

theorem replaces_iff_blank :
    Replaces (fun r r' => r.fromData P data = some r') SameParts init r ↔
      Blank (matchQueryName data.name.toUri) r := by
  obtain ⟨x, hread, hdecodes⟩ :=
    exists_take (fun r => fromData_eq_map r data) h
  rw [replaces_iff hdecodes, sameParts_take_iff,
    blank_iff (read_eq_some hread).1]

theorem repeats_iff_no_rrs :
    Repeats (fun r r' => r.fromData P data = some r') SameParts r ↔
      declaredRrs data.content = some 0 := by
  obtain ⟨x, hread, hdecodes⟩ :=
    exists_take (fun r => fromData_eq_map r data) h
  rw [repeats_iff hdecodes,
    sameParts_take_take_iff, no_rrs_iff hread]

end Decode

end Response

namespace ResponseUpdate

/-- The parts of a name in a response; it keeps what the name does not say. -/
def setParts (r : ResponseUpdate) (parts : Option NameParts) :
    ResponseUpdate :=
  { r with toResponse := r.toResponse.setParts parts }

abbrev Contents := Option NameParts × Fields

def read (P : NameParser) (data : Data) : Option Contents := do
  let parts ← NameParts.ofMatch P (matchUpdateName data.name.toUri)
  let d ← decoded data.content
  return (parts, d)

def take (data : Data) (x : Contents) (r : ResponseUpdate) :
    ResponseUpdate :=
  load { r.setParts x.1 with
    queryName := data.name
    freshness := data.freshnessPeriod
    queryType := data.contentType } data.content x.2

theorem readName_eq (r : ResponseUpdate) (name : Name) :
    r.readName P name =
      (NameParts.ofMatch P (matchUpdateName name.toUri)).map
        r.setParts := by
  unfold readName
  cases matchUpdateName name.toUri with
  | none =>
      rfl
  | some map =>
      refine (NameParts.bind_ofMap map r.forwardingHint _).trans ?_
      cases hmap : NameParts.ofMap P map with
      | none =>
          simp [NameParts.ofMatch, hmap]
      | some parts =>
          simp [NameParts.ofMatch, hmap, setParts, Response.setParts,
            (NameParts.type_ofMap hmap).1]

theorem fromData_eq_map (r : ResponseUpdate) (data : Data) :
    r.fromData P data = (read P data).map (fun x => r.take data x) := by
  unfold fromData read
  rw [readName_eq]
  cases NameParts.ofMatch P (matchUpdateName data.name.toUri) with
  | none =>
      rfl
  | some parts =>
      simp only [Option.map_some, Option.bind_eq_bind, Option.bind_some,
        wireDecode_eq]
      cases decoded data.content <;> rfl

structure SameParts (r r₀ : ResponseUpdate) : Prop where
  toResponse_same : r.toResponse.SameParts r₀.toResponse
  result_eq : r.result = r₀.result

section Decode

variable {data : Data} {x : Contents}

/-- It is taken as a response without RRs. -/
theorem toResponse_take (r : ResponseUpdate) :
    (r.take data x).toResponse =
      r.toResponse.take data (x.1, x.2.1, x.2.2.1, x.2.2.2.1, []) := by
  unfold take load Response.take Response.load setParts
  simp

theorem sameParts_take_iff (r r₀ : ResponseUpdate) :
    SameParts (r.take data x) (r₀.take data x) ↔
      (r.toResponse.take data
        (x.1, x.2.1, x.2.2.1, x.2.2.2.1, [])).SameParts
        (r₀.toResponse.take data
          (x.1, x.2.1, x.2.2.1, x.2.2.2.1, [])) := by
  rw [← toResponse_take, ← toResponse_take]
  exact ⟨SameParts.toResponse_same, fun h => ⟨h, rfl⟩⟩

theorem read_eq_some
    (hread : read P data = some x) :
    NameParts.ofMatch P (matchUpdateName data.name.toUri) = some x.1 := by
  simp only [read, Option.bind_eq_bind, Option.bind_eq_some_iff] at hread
  obtain ⟨parts, hparts, d, -, h⟩ := hread
  obtain rfl := Option.some.inj h
  exact hparts

variable {r : ResponseUpdate} (h : (r.fromData P data).isSome = true)
include h

/-- The list of RRs is not read from a packet, and not cleared either. -/
theorem replaces_iff_blank :
    Replaces (fun r r' => r.fromData P data = some r') SameParts init r ↔
      r.toResponse.Blank (matchUpdateName data.name.toUri) := by
  obtain ⟨x, hread, hdecodes⟩ :=
    exists_take (fun r => fromData_eq_map r data) h
  have hparts := read_eq_some hread
  rw [replaces_iff hdecodes, sameParts_take_iff,
    ← Response.blank_iff hparts]
  exact Response.sameParts_take_iff _

theorem repeats :
    Repeats (fun r r' => r.fromData P data = some r') SameParts r := by
  obtain ⟨x, hread, hdecodes⟩ :=
    exists_take (fun r => fromData_eq_map r data) h
  rw [repeats_iff hdecodes, sameParts_take_iff,
    toResponse_take]
  exact (Response.sameParts_take_take_iff _).mpr rfl

end Decode

end ResponseUpdate

namespace Query

/-- The parts of a name in a query; it keeps its hint if the name has none. -/
def take (interest : Interest) (parts : NameParts) (q : Query) : Query where
  authorityZone := parts.zone
  forwardingHint := parts.hint.getD q.forwardingHint
  queryType := parts.queryType
  interestLifetime := interest.interestLifetime
  rrLabel := parts.label
  rrType := parts.type

theorem hintOfMap_eq (q : Query) (map : NameMap) :
    q.hintOfMap P map =
      if map.hint = [] then some q.forwardingHint
      else P.ofUri map.hint := by
  unfold hintOfMap
  rw [ite_not]

theorem fromInterestMap_eq_map
    (q : Query) (interest : Interest) (map : NameMap) :
    q.fromInterestMap P interest map =
      (NameParts.ofMap P map).map (fun parts => q.take interest parts) := by
  unfold fromInterestMap
  rw [hintOfMap_eq]
  refine (NameParts.bind_ofMap map q.forwardingHint _).trans ?_
  cases hmap : NameParts.ofMap P map with
  | none =>
      rfl
  | some parts =>
      simp [take, NameParts.type_ofMap hmap]

/-- Agreement in the parts that `fromInterest` is to replace. -/
structure SameParts (q q₀ : Query) : Prop where
  forwardingHint_eq : q.forwardingHint = q₀.forwardingHint
  authorityZone_eq : q.authorityZone = q₀.authorityZone
  rrLabel_eq : q.rrLabel = q₀.rrLabel
  queryType_eq : q.queryType = q₀.queryType
  rrType_eq : q.rrType = q₀.rrType

section Decode

variable {interest : Interest} {parts : NameParts}

theorem sameParts_take_iff (q : Query) :
    SameParts (q.take interest parts) (init.take interest parts) ↔
      (parts.hint = none → q.forwardingHint = []) := by
  constructor
  · intro h hhint
    simpa [take, hhint, init] using h.forwardingHint_eq
  · intro h
    refine ⟨?_, rfl, rfl, rfl, rfl⟩
    cases hp : parts.hint with
    | none =>
        simp [take, hp, h hp, init]
    | some hint =>
        simp [take, hp]

theorem take_take (q : Query) :
    (q.take interest parts).take interest parts =
      q.take interest parts := by
  unfold take
  cases parts.hint <;> rfl

theorem fromInterest_eq_some_iff
    {map : NameMap}
    (hmatch : matchQueryName interest.name.toUri = some map)
    (hparts : NameParts.ofMap P map = some parts) (q q' : Query) :
    q.fromInterest P interest = some (true, q') ↔
      q.take interest parts = q' := by
  unfold fromInterest
  rw [hmatch]
  simp [fromInterestMap_eq_map, hparts]

/-- A name that is understood has a match, which is parsed. -/
theorem exists_match
    {q q' : Query}
    (h : q.fromInterest P interest = some (true, q')) :
    ∃ map parts, matchQueryName interest.name.toUri = some map ∧
      NameParts.ofMap P map = some parts := by
  unfold fromInterest at h
  cases hmatch : matchQueryName interest.name.toUri with
  | none =>
      simp [hmatch] at h
  | some map =>
      simp only [hmatch, fromInterestMap_eq_map, Option.map_map,
        Option.map_eq_some_iff] at h
      obtain ⟨parts, hparts, -⟩ := h
      exact ⟨map, parts, rfl, hparts⟩

variable {q : Query}
variable (h : ∃ q', q.fromInterest P interest = some (true, q'))
include h

theorem replaces_iff_hint :
    Replaces (fun q q' => q.fromInterest P interest = some (true, q'))
        SameParts init q ↔
      (NoHint (matchQueryName interest.name.toUri) →
        q.forwardingHint = []) := by
  obtain ⟨q', hq'⟩ := h
  obtain ⟨map, parts, hmatch, hparts⟩ := exists_match hq'
  rw [replaces_iff (fromInterest_eq_some_iff hmatch hparts),
    sameParts_take_iff, NameParts.hint_ofMap hparts, hmatch]
  simp [NoHint]

theorem repeats :
    Repeats (fun q q' => q.fromInterest P interest = some (true, q'))
      SameParts q := by
  obtain ⟨q', hq'⟩ := h
  obtain ⟨map, parts, hmatch, hparts⟩ := exists_match hq'
  rw [repeats_iff (fromInterest_eq_some_iff hmatch hparts), take_take]
  exact ⟨rfl, rfl, rfl, rfl, rfl⟩

end Decode

end Query

namespace QueryUpdate

/-- The packet in an Interest, with the block that it is read from. -/
def packetOf (K : PacketCodec) (interest : Interest) (map : NameMap)
    (parts : NameParts) : Option (Tlv.Block × Data) := do
  let component ← interest.name[
    hintSize map.hint (parts.hint.getD []) +
      zoneSize map.zone parts.zone + 1]?
  let wired ← blockFromValue component
  let data ← K.wireDecode wired
  return (wired, data)

/-- The packet that an Interest brings. -/
def packet (P : NameParser) (K : PacketCodec) (interest : Interest) :
    Option Data := do
  let map ← matchUpdateName interest.name.toUri
  let parts ← NameParts.ofMap P map
  let (_, data) ← packetOf K interest map parts
  return data

/-- What a name and a packet make of an update. -/
def take (interest : Interest) (parts : NameParts)
    (wired : Tlv.Block) (data : Data) (x : Response.Contents)
    (q : QueryUpdate) : QueryUpdate where
  toQuery := q.toQuery.take interest parts
  update := q.update.take data x
  wiredUpdate := some wired

theorem hintSize_getD
    {map : NameMap} {parts : NameParts}
    (h : NameParts.ofMap P map = some parts) (hint : Name) :
    hintSize map.hint (parts.hint.getD hint) =
      hintSize map.hint (parts.hint.getD []) := by
  cases hp : parts.hint with
  | none =>
      simp [hintSize, (NameParts.hint_ofMap h).mp hp]
  | some name =>
      rfl

theorem fromInterestMap_eq_map
    (K : PacketCodec) (q : QueryUpdate) (interest : Interest)
    (map : NameMap) :
    q.fromInterestMap P K interest map =
      (NameParts.ofMap P map).bind (fun parts =>
        (packetOf K interest map parts).bind (fun wd =>
          (Response.read P wd.2).map (fun x =>
            q.take interest parts wd.1 wd.2 x))) := by
  unfold fromInterestMap
  rw [Query.hintOfMap_eq]
  refine (NameParts.bind_ofMap map q.forwardingHint _).trans ?_
  cases hmap : NameParts.ofMap P map with
  | none =>
      rfl
  | some parts =>
      simp only [Option.bind_some, packetOf, hintSize_getD hmap,
        decodeUpdate, Option.bind_eq_bind, Option.bind_assoc,
        Response.fromData_eq_map]
      refine Option.bind_congr (fun component _ => ?_)
      refine Option.bind_congr (fun wired _ => ?_)
      refine Option.bind_congr (fun data _ => ?_)
      simp only [Option.pure_def, Option.bind_some]
      cases Response.read P data <;>
        simp [take, Query.take, NameParts.type_ofMap hmap]

/-- An update holds nothing that would stay behind an Interest. -/
structure Blank (P : NameParser) (K : PacketCodec) (interest : Interest)
    (q : QueryUpdate) : Prop where
  hint_eq :
    NoHint (matchUpdateName interest.name.toUri) → q.forwardingHint = []
  update_blank : ∀ data, packet P K interest = some data →
    q.update.Blank (matchQueryName data.name.toUri)
  zone_eq : ∀ data, packet P K interest = some data →
    matchQueryName data.name.toUri = none → q.update.authorityZone = []

/-- Agreement in the parts that `fromInterest` is to replace. -/
structure SameParts (q q₀ : QueryUpdate) : Prop where
  toQuery_same : q.toQuery.SameParts q₀.toQuery
  update_eq : q.update = q₀.update

section Decode

variable {K : PacketCodec} {interest : Interest} {map : NameMap}
variable {parts : NameParts} {wired : Tlv.Block} {data : Data}
variable {x : Response.Contents}

theorem sameParts_take_iff (q : QueryUpdate) :
    SameParts (q.take interest parts wired data x)
        (init.take interest parts wired data x) ↔
      (parts.hint = none → q.forwardingHint = []) ∧
        q.update.take data x = Response.init.take data x := by
  constructor
  · rintro ⟨hquery, hupdate⟩
    exact ⟨(Query.sameParts_take_iff q.toQuery).mp hquery, hupdate⟩
  · rintro ⟨hhint, hupdate⟩
    exact ⟨(Query.sameParts_take_iff q.toQuery).mpr hhint, hupdate⟩

theorem sameParts_take_take_iff (q : QueryUpdate) :
    SameParts
        ((q.take interest parts wired data x).take interest parts wired
          data x)
        (q.take interest parts wired data x) ↔
      (q.update.take data x).take data x = q.update.take data x := by
  constructor
  · rintro ⟨-, hupdate⟩
    exact hupdate
  · intro hupdate
    refine ⟨?_, hupdate⟩
    show Query.SameParts
      ((q.toQuery.take interest parts).take interest parts)
      (q.toQuery.take interest parts)
    rw [Query.take_take]
    exact ⟨rfl, rfl, rfl, rfl, rfl⟩

theorem fromInterest_eq_some_iff
    (hmatch : matchUpdateName interest.name.toUri = some map)
    (hparts : NameParts.ofMap P map = some parts)
    (hpacket : packetOf K interest map parts = some (wired, data))
    (hread : Response.read P data = some x) (q q' : QueryUpdate) :
    q.fromInterest P K interest = some (true, q') ↔
      q.take interest parts wired data x = q' := by
  unfold fromInterest
  rw [hmatch]
  simp [fromInterestMap_eq_map, hparts, hpacket, hread]

/-- A name that is understood brings a packet, which is read. -/
theorem exists_match
    {q q' : QueryUpdate}
    (h : q.fromInterest P K interest = some (true, q')) :
    ∃ map parts wired data x,
      matchUpdateName interest.name.toUri = some map ∧
      NameParts.ofMap P map = some parts ∧
      packetOf K interest map parts = some (wired, data) ∧
      Response.read P data = some x := by
  unfold fromInterest at h
  cases hmatch : matchUpdateName interest.name.toUri with
  | none =>
      simp [hmatch] at h
  | some map =>
      simp only [hmatch, fromInterestMap_eq_map,
        Option.map_eq_some_iff, Option.bind_eq_some_iff] at h
      obtain ⟨-, ⟨parts, hparts, wd, hwd, x, hx, -⟩, -⟩ := h
      exact ⟨map, parts, wd.1, wd.2, x, rfl, hparts, hwd, hx⟩

theorem packet_eq_some
    (hmatch : matchUpdateName interest.name.toUri = some map)
    (hparts : NameParts.ofMap P map = some parts)
    (hpacket : packetOf K interest map parts = some (wired, data)) :
    packet P K interest = some data := by
  simp [packet, hmatch, hparts, hpacket]

variable {q : QueryUpdate}
variable (h : ∃ q', q.fromInterest P K interest = some (true, q'))
include h

theorem replaces_iff_blank :
    Replaces (fun q q' => q.fromInterest P K interest = some (true, q'))
        SameParts init q ↔
      q.Blank P K interest := by
  obtain ⟨q', hq'⟩ := h
  obtain ⟨map, parts, wired, data, x, hmatch, hparts, hpacket, hread⟩ :=
    exists_match hq'
  have hdata := packet_eq_some hmatch hparts hpacket
  have hx := (Response.read_eq_some hread).1
  rw [replaces_iff
      (fromInterest_eq_some_iff hmatch hparts hpacket hread),
    sameParts_take_iff, NameParts.hint_ofMap hparts, Response.take_eq_iff,
    Response.sameParts_take_iff, Response.blank_iff hx,
    NameParts.ofMatch_eq_none hx]
  constructor
  · rintro ⟨hhint, hblank, hzone⟩
    refine ⟨fun hnone => hhint (hnone map hmatch), ?_, ?_⟩
    · intro data' hdata'
      obtain rfl := Option.some.inj (hdata.symm.trans hdata')
      exact hblank
    · intro data' hdata'
      obtain rfl := Option.some.inj (hdata.symm.trans hdata')
      exact hzone
  · rintro ⟨hhint, hblank, hzone⟩
    refine ⟨fun hnil => hhint ?_, hblank data hdata, hzone data hdata⟩
    intro map' hmap'
    obtain rfl := Option.some.inj (hmatch.symm.trans hmap')
    exact hnil

theorem repeats_iff_no_rrs :
    Repeats (fun q q' => q.fromInterest P K interest = some (true, q'))
        SameParts q ↔
      ∀ data, packet P K interest = some data →
        Response.declaredRrs data.content = some 0 := by
  obtain ⟨q', hq'⟩ := h
  obtain ⟨map, parts, wired, data, x, hmatch, hparts, hpacket, hread⟩ :=
    exists_match hq'
  have hdata := packet_eq_some hmatch hparts hpacket
  rw [repeats_iff
      (fromInterest_eq_some_iff hmatch hparts hpacket hread),
    sameParts_take_take_iff, Response.take_take_eq_iff,
    Response.no_rrs_iff hread, hdata]
  simp

end Decode

end QueryUpdate

/-- A decoder leaves an object as it leaves a new one exactly when there is
nothing in it that would stay, and decodes twice as once exactly when it reads
no RRs. -/
theorem decoding_replaces_iff (P : NameParser) (K : PacketCodec) :
    (∀ (r : Response) (data : Data), (r.fromData P data).isSome = true →
      (Replaces (fun r r' => r.fromData P data = some r')
          Response.SameParts Response.init r ↔
        r.Blank (matchQueryName data.name.toUri)) ∧
      (Repeats (fun r r' => r.fromData P data = some r')
          Response.SameParts r ↔
        Response.declaredRrs data.content = some 0)) ∧
    (∀ (r : ResponseUpdate) (data : Data),
      (r.fromData P data).isSome = true →
      (Replaces (fun r r' => r.fromData P data = some r')
          ResponseUpdate.SameParts ResponseUpdate.init r ↔
        r.toResponse.Blank (matchUpdateName data.name.toUri)) ∧
      Repeats (fun r r' => r.fromData P data = some r')
        ResponseUpdate.SameParts r) ∧
    (∀ (q : Query) (interest : Interest),
      (∃ q', q.fromInterest P interest = some (true, q')) →
      (Replaces (fun q q' => q.fromInterest P interest = some (true, q'))
          Query.SameParts Query.init q ↔
        (NoHint (matchQueryName interest.name.toUri) →
          q.forwardingHint = [])) ∧
      Repeats (fun q q' => q.fromInterest P interest = some (true, q'))
        Query.SameParts q) ∧
    (∀ (q : QueryUpdate) (interest : Interest),
      (∃ q', q.fromInterest P K interest = some (true, q')) →
      (Replaces (fun q q' => q.fromInterest P K interest = some (true, q'))
          QueryUpdate.SameParts QueryUpdate.init q ↔
        q.Blank P K interest) ∧
      (Repeats (fun q q' => q.fromInterest P K interest = some (true, q'))
          QueryUpdate.SameParts q ↔
        ∀ data, QueryUpdate.packet P K interest = some data →
          Response.declaredRrs data.content = some 0)) :=
  ⟨fun _ _ h =>
      ⟨Response.replaces_iff_blank h, Response.repeats_iff_no_rrs h⟩,
    fun _ _ h =>
      ⟨ResponseUpdate.replaces_iff_blank h, ResponseUpdate.repeats h⟩,
    fun _ _ h => ⟨Query.replaces_iff_hint h, Query.repeats h⟩,
    fun _ _ h =>
      ⟨QueryUpdate.replaces_iff_blank h,
        QueryUpdate.repeats_iff_no_rrs h⟩⟩

section Instances

open DynamicDNSUpdate (digestSignature firstVersion)

/-- A response of the root, with one record. -/
def rootResponse : Response :=
  { Response.init with rrs := [RR.init] }

def rootReply : ResponseUpdate :=
  ResponseUpdate.init.setResult (ascii "OK")

/-- The response in an update Interest of the root. -/
def rootInterest : Interest :=
  ⟨updateName [] (componentOfBlock ((ndnCodec digestSignature).wireEncode
    rootResponse.packet)) firstVersion, 4000⟩

theorem fromData_rootResponse (r : Response) :
    (r.fromData uriParser rootResponse.packet).isSome = true := by
  rw [Response.fromData_packet uriParser rootResponse r (by decide)
    (by decide) (by decide) (by decide +kernel)]
  have hroot := Response.readName_root uriParser r
  rw [show rootResponse.queryName = [] from rfl, hroot]
  rfl

theorem fromData_rootReply (r : ResponseUpdate) :
    (r.fromData uriParser rootReply.packet).isSome = true := by
  rw [ResponseUpdate.fromData_eq_map, Option.isSome_map]
  decide +kernel

theorem fromInterest_zoneQuery (q : Query) :
    ∃ q', q.fromInterest uriParser Query.zoneQuery.toInterest =
      some (true, q') := by
  have hread := Query.roundTrips_of_plainCut uriParser Query.zoneQuery rfl rfl
    (by decide) (by decide) (by decide)
  obtain ⟨map, parts, hmatch, hparts⟩ := Query.exists_match hread
  exact ⟨_, (Query.fromInterest_eq_some_iff hmatch hparts q _).mpr rfl⟩

theorem fromInterest_rootInterest (q : QueryUpdate) :
    ∃ q', q.fromInterest uriParser (ndnCodec digestSignature) rootInterest =
      some (true, q') := by
  have hpacket : rootResponse.packet.Encodable :=
    { contentType_lt := by decide
      freshness_nonneg := by decide
      freshness_lt := by decide
      content_type := rfl }
  have hdecode := QueryUpdate.decodeUpdate_packet uriParser q hpacket
    (show ((ndnCodec digestSignature).wireEncode
      rootResponse.packet).value.length < 2 ^ 64 by decide +kernel)
  obtain ⟨update, hupdate⟩ :=
    Option.isSome_iff_exists.mp (fromData_rootResponse q.update)
  rw [rootInterest, QueryUpdate.fromInterest_plain _ _ _ _ (by simp),
    hdecode, hupdate]
  exact ⟨_, rfl⟩

theorem matchQueryName_zoneQuery :
    matchQueryName Query.zoneQuery.toInterest.name.toUri =
      some ⟨[], ascii "/net/", ascii "DNS", ascii "/www/DNS",
        ascii "TXT"⟩ := by
  decide +kernel

/-- Objects that were decoded before, without a hint, without RRs and behind a
name that was not matched. -/
theorem decoding_replaces_iff_root :
    Replaces (fun r r' =>
        r.fromData uriParser rootResponse.packet = some r')
      Response.SameParts Response.init
      { Response.init with
        queryName := [ascii "net"], responseType := .NDNS_Nack } ∧
    Replaces (fun r r' => r.fromData uriParser rootReply.packet = some r')
      ResponseUpdate.SameParts ResponseUpdate.init
      (ResponseUpdate.init.setResult (ascii "FAIL")) ∧
    Replaces (fun q q' =>
        q.fromInterest uriParser Query.zoneQuery.toInterest =
          some (true, q'))
      Query.SameParts Query.init
      { Query.init with
        authorityZone := [ascii "com"], rrLabel := [ascii "ftp"] } ∧
    Replaces (fun q q' =>
        q.fromInterest uriParser (ndnCodec digestSignature) rootInterest =
          some (true, q'))
      QueryUpdate.SameParts QueryUpdate.init
      { QueryUpdate.init with authorityZone := [ascii "com"] } := by
  obtain ⟨hresponse, hreply, hquery, hupdate⟩ :=
    decoding_replaces_iff uriParser (ndnCodec digestSignature)
  refine ⟨(hresponse _ _ (fromData_rootResponse _)).1.mpr ?_,
    (hreply _ _ (fromData_rootReply _)).1.mpr ?_,
    (hquery _ _ (fromInterest_zoneQuery _)).1.mpr (fun _ => rfl),
    (hupdate _ _ (fromInterest_rootInterest _)).1.mpr ?_⟩
  · exact ⟨rfl, fun _ => ⟨rfl, rfl⟩, fun _ => rfl⟩
  · exact ⟨rfl, fun _ => ⟨rfl, rfl⟩, fun _ => rfl⟩
  · exact ⟨fun _ => rfl,
      fun _ _ => ⟨rfl, fun _ => ⟨rfl, rfl⟩, fun _ => rfl⟩,
      fun _ _ _ => rfl⟩

/-- The RRs of a packet come twice, in an update Interest, too, and a hint
stays behind a name without one. -/
theorem decoding_not_replaces :
    (Response.init.fromData uriParser rootResponse.packet).isSome = true ∧
    ¬ Repeats (fun r r' =>
        r.fromData uriParser rootResponse.packet = some r')
      Response.SameParts Response.init ∧
    (∃ q', QueryUpdate.init.fromInterest uriParser
      (ndnCodec digestSignature) rootInterest = some (true, q')) ∧
    ¬ Repeats (fun q q' =>
        q.fromInterest uriParser (ndnCodec digestSignature) rootInterest =
          some (true, q'))
      QueryUpdate.SameParts QueryUpdate.init ∧
    (∃ q', Query.fromInterest uriParser
      { Query.init with forwardingHint := [ascii "isp"] }
        Query.zoneQuery.toInterest = some (true, q')) ∧
    ¬ Replaces (fun q q' =>
        q.fromInterest uriParser Query.zoneQuery.toInterest =
          some (true, q'))
      Query.SameParts Query.init
      { Query.init with forwardingHint := [ascii "isp"] } := by
  have hdeclared :
      Response.declaredRrs rootResponse.packet.content = some 1 := by
    decide +kernel
  have hpacket : QueryUpdate.packet uriParser (ndnCodec digestSignature)
      rootInterest = some rootResponse.packet := by
    decide +kernel
  refine ⟨fromData_rootResponse _, ?_, fromInterest_rootInterest _, ?_,
    fromInterest_zoneQuery _, ?_⟩
  · rw [Response.repeats_iff_no_rrs (fromData_rootResponse _), hdeclared]
    decide
  · rw [QueryUpdate.repeats_iff_no_rrs (fromInterest_rootInterest _)]
    intro h
    have hzero := h _ hpacket
    rw [hdeclared] at hzero
    exact absurd hzero (by decide)
  · rw [Query.replaces_iff_hint (fromInterest_zoneQuery _),
      matchQueryName_zoneQuery]
    intro h
    have hnil := h (fun map hmap => by
      obtain rfl := Option.some.inj hmap
      rfl)
    exact absurd hnil (by decide)

end Instances

end Ndns

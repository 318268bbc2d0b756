import Ndns.NameCut
import Ndns.ResponseUpdate

/-!
# Responses there and back

A response that was encoded is decoded into a fresh object.  The block alone
always gives back what it holds.  A Data packet gives back the query type, too,
but its name is read with a pattern first, and the pattern may cut text out of a
component that no name is written as: then `fromData` throws.

**Results.**
* `Fresh.fromData_iff`: the packet of a fresh object is decoded exactly when zone
  and hint of its name can be parsed;
* `responses_roundTrip_iff`: the same, with what comes back.
-/

namespace Ndns

/-- Zone and hint that a pattern cuts out of the URI of the name are names. -/
def CutParses (P : NameParser) (pattern : Bytes → Option NameMap)
    (name : Name) : Prop :=
  ∀ map, pattern name.toUri = some map →
    (P.ofUri map.zone).isSome ∧
      (map.hint ≠ [] → (P.ofUri map.hint).isSome)

/-- The parts of an RR that are on the wire. -/
def RR.content (rr : RR) : Nat × Bytes × Name × UpdateAction :=
  (rr.id, rr.rrData, rr.zone.authorizedName, rr.updateAction)

section Names

variable {ws ts : List Bytes} {name : Name} {map : NameMap}
variable (P : NameParser)

/-- The label of a match is always a name. -/
theorem ofUri_rrLabel
    (hv : Vocabulary ws ts) (hroot : matchName ws ts [47] = none)
    (h : matchName ws ts name.toUri = some map) :
    ∃ label, P.ofUri map.rrLabel = some label := by
  obtain ⟨k⟩ := exists_nameCut hv hroot h
  rw [k.label_eq]
  exact ⟨k.label, P.ofUri_path k.label_ne_nil⟩

/-- What is read out of a match is read unless zone or hint are refused. -/
theorem isSome_parts_iff
    {α : Type} (hv : Vocabulary ws ts) (hroot : matchName ws ts [47] = none)
    (h : matchName ws ts name.toUri = some map)
    (hint : Name) (build : Name → Name → Name → α) :
    (do
      let zone ← P.ofUri map.zone
      let label ← P.ofUri map.rrLabel
      let hint ←
        (if map.hint = [] then some hint else P.ofUri map.hint)
      return build zone label hint).isSome ↔
      (P.ofUri map.zone).isSome ∧
        (map.hint ≠ [] → (P.ofUri map.hint).isSome) := by
  obtain ⟨label, hlabel⟩ := ofUri_rrLabel P hv hroot h
  cases P.ofUri map.zone with
  | none =>
      simp
  | some zone =>
      by_cases hhint : map.hint = []
      · simp [hlabel, hhint]
      · cases P.ofUri map.hint <;> simp [hlabel, hhint]

/-- A packet is decoded to what it has to be exactly when it is decoded. -/
theorem exists_decoded_iff
    {ρ : Type} {sent : Option Data} {data : Data}
    {decode : Data → Option ρ} {good : ρ → Prop}
    (hsent : sent = some data) (hgood : ∀ r, decode data = some r → good r) :
    (∃ data' r, sent = some data' ∧ decode data' = some r ∧ good r) ↔
      (decode data).isSome := by
  constructor
  · rintro ⟨data', r, hdata, hdecode, -⟩
    obtain rfl := Option.some.inj (hsent.symm.trans hdata)
    exact Option.isSome_of_eq_some hdecode
  · intro hdecode
    obtain ⟨r, hdecode⟩ := Option.isSome_iff_exists.mp hdecode
    exact ⟨data, r, hsent, hdecode, hgood r hdecode⟩

end Names

namespace Response

/-- The responses hold the same, the query type apart. -/
structure SameWire (r r' : Response) : Prop where
  queryName_eq : r'.queryName = r.queryName
  responseType_eq : r'.responseType = r.responseType
  freshness_eq : r'.freshness = r.freshness
  rrs_eq : r'.rrs.map RR.content = r.rrs.map RR.content

/-- A response that can be encoded, and has not been before. -/
structure Fresh (r : Response) : Prop where
  wire_eq : r.wire = none
  id_lt : ∀ rr ∈ r.rrs, rr.id < 2 ^ 32
  freshness_nonneg : 0 ≤ r.freshness
  freshness_lt : r.freshness < 2 ^ 63
  length_lt : r.toBlock.value.length < 2 ^ 64

variable (P : NameParser) {r : Response}

theorem readName_isSome_iff (r : Response) (name : Name) :
    (r.readName P name).isSome ↔ CutParses P matchQueryName name := by
  unfold readName CutParses
  cases hmatch : matchQueryName name.toUri with
  | none =>
      simp
  | some map =>
      simp only [Option.some.injEq, forall_eq']
      exact isSome_parts_iff P queryVocabulary (by decide +kernel) hmatch _ _

theorem map_content_received (label : Name) (type : RRType) (rrs : List RR) :
    (rrs.map (received label type)).map RR.content =
      rrs.map RR.content := by
  rw [List.map_map]
  rfl

theorem Fresh.wireDecode (h : r.Fresh) :
    ∃ r', init.wireDecode P r.toBlock = some r' ∧ SameWire r r' := by
  have hnonneg := h.freshness_nonneg
  exact ⟨_, wireDecode_toBlock P r init h.id_lt (by omega) h.freshness_lt
    h.length_lt, rfl, rfl, rfl, map_content_received _ _ r.rrs⟩

theorem Fresh.fromData_packet (h : r.Fresh) :
    init.fromData P r.packet =
      (init.readName P r.queryName).map (fun s =>
        { s with
          wire := some r.toBlock
          queryName := r.queryName
          queryType := r.queryType
          responseType := r.responseType
          freshness := r.freshness
          rrs := s.rrs ++ r.rrs.map (received s.rrLabel s.rrType) }) :=
  Response.fromData_packet P r init h.id_lt h.freshness_nonneg
    h.freshness_lt h.length_lt

theorem Fresh.fromData_isSome_iff (h : r.Fresh) :
    (init.fromData P r.packet).isSome ↔
      CutParses P matchQueryName r.queryName := by
  rw [h.fromData_packet, Option.isSome_map, readName_isSome_iff]

/-- What is decoded from a packet holds the same. -/
theorem Fresh.same_of_fromData
    (h : r.Fresh) {r' : Response}
    (hdecode : init.fromData P r.packet = some r') :
    SameWire r r' ∧ r'.queryType = r.queryType := by
  rw [h.fromData_packet] at hdecode
  obtain ⟨s, hread, rfl⟩ := Option.map_eq_some_iff.mp hdecode
  have hrrs : s.rrs = [] := readName_rrs hread
  refine ⟨⟨rfl, rfl, rfl, ?_⟩, rfl⟩
  simp only [hrrs, List.nil_append]
  exact map_content_received _ _ r.rrs

/-- A packet of a fresh response is decoded exactly when its name can be
read. -/
theorem Fresh.fromData_iff (h : r.Fresh) :
    (∃ data r', r.toData = some data ∧
        init.fromData P data = some r' ∧
        SameWire r r' ∧ r'.queryType = r.queryType) ↔
      CutParses P matchQueryName r.queryName := by
  rw [← h.fromData_isSome_iff P]
  exact exists_decoded_iff (toData_eq h.wire_eq h.length_lt)
    (fun r' hdecode => h.same_of_fromData P hdecode)

end Response

namespace ResponseUpdate

/-- The responses hold the same, the query type apart. -/
structure SameWire (r r' : ResponseUpdate) : Prop where
  queryName_eq : r'.queryName = r.queryName
  responseType_eq : r'.responseType = r.responseType
  freshness_eq : r'.freshness = r.freshness
  result_eq : r'.result = r.result
  rrs_eq : r'.rrs = []

/-- A response that can be encoded, and has not been before. -/
structure Fresh (r : ResponseUpdate) : Prop where
  wire_eq : r.wire = none
  freshness_nonneg : 0 ≤ r.freshness
  freshness_lt : r.freshness < 2 ^ 63
  length_lt : r.toBlock.value.length < 2 ^ 64

variable (P : NameParser) {r : ResponseUpdate}

theorem readName_isSome_iff (r : ResponseUpdate) (name : Name) :
    (r.readName P name).isSome ↔ CutParses P matchUpdateName name := by
  unfold readName CutParses
  cases hmatch : matchUpdateName name.toUri with
  | none =>
      simp
  | some map =>
      simp only [Option.some.injEq, forall_eq']
      exact isSome_parts_iff P updateVocabulary (by decide +kernel) hmatch _ _

theorem Fresh.wireDecode (h : r.Fresh) :
    ∃ r', init.wireDecode r.toBlock = some r' ∧ SameWire r r' := by
  have hnonneg := h.freshness_nonneg
  exact ⟨_, wireDecode_toBlock r init (by omega) h.freshness_lt h.length_lt,
    rfl, rfl, rfl, rfl, rfl⟩

theorem Fresh.fromData_packet (h : r.Fresh) :
    init.fromData P r.packet =
      (init.readName P r.queryName).map (fun s =>
        { s with
          wire := some r.toBlock
          queryName := r.queryName
          queryType := r.queryType
          responseType := r.responseType
          freshness := r.freshness
          result := r.result }) :=
  ResponseUpdate.fromData_packet P r init h.freshness_nonneg h.freshness_lt
    h.length_lt

theorem Fresh.fromData_isSome_iff (h : r.Fresh) :
    (init.fromData P r.packet).isSome ↔
      CutParses P matchUpdateName r.queryName := by
  rw [h.fromData_packet, Option.isSome_map, readName_isSome_iff]

/-- What is decoded from a packet holds the same. -/
theorem Fresh.same_of_fromData
    (h : r.Fresh) {r' : ResponseUpdate}
    (hdecode : init.fromData P r.packet = some r') :
    SameWire r r' ∧ r'.queryType = r.queryType := by
  rw [h.fromData_packet] at hdecode
  obtain ⟨s, hread, rfl⟩ := Option.map_eq_some_iff.mp hdecode
  exact ⟨⟨rfl, rfl, rfl, rfl, readName_rrs hread⟩, rfl⟩

/-- A packet of a fresh response is decoded exactly when its name can be
read. -/
theorem Fresh.fromData_iff (h : r.Fresh) :
    (∃ data r', r.toData = some data ∧
        init.fromData P data = some r' ∧
        SameWire r r' ∧ r'.queryType = r.queryType) ↔
      CutParses P matchUpdateName r.queryName := by
  rw [← h.fromData_isSome_iff P]
  exact exists_decoded_iff (toData_eq h.wire_eq h.length_lt)
    (fun r' hdecode => h.same_of_fromData P hdecode)

end ResponseUpdate

section RoundTrips

/-- Every response comes back from its block, and from its packet exactly when
zone and hint that are cut out of its name are names. -/
theorem responses_roundTrip_iff (P : NameParser) :
    (∀ r : Response, r.Fresh →
      (∃ wire r', r.wireEncode = some wire ∧
        Response.init.wireDecode P wire = some r' ∧
        Response.SameWire r r') ∧
      ((∃ data r', r.toData = some data ∧
          Response.init.fromData P data = some r' ∧
          Response.SameWire r r' ∧ r'.queryType = r.queryType) ↔
        CutParses P matchQueryName r.queryName)) ∧
    (∀ r : ResponseUpdate, r.Fresh →
      (∃ wire r', r.wireEncode = some wire ∧
        ResponseUpdate.init.wireDecode wire = some r' ∧
        ResponseUpdate.SameWire r r') ∧
      ((∃ data r', r.toData = some data ∧
          ResponseUpdate.init.fromData P data = some r' ∧
          ResponseUpdate.SameWire r r' ∧ r'.queryType = r.queryType) ↔
        CutParses P matchUpdateName r.queryName)) := by
  constructor
  · intro r h
    obtain ⟨r', hdecode, hsame⟩ := h.wireDecode P
    exact ⟨⟨_, r', Response.wireEncode_eq h.wire_eq h.length_lt, hdecode,
      hsame⟩, h.fromData_iff P⟩
  · intro r h
    obtain ⟨r', hdecode, hsame⟩ := h.wireDecode
    exact ⟨⟨_, r', ResponseUpdate.wireEncode_eq h.wire_eq h.length_lt,
      hdecode, hsame⟩, h.fromData_iff P⟩

/-- A response with two RRs. -/
def textResponse (queryName : Name) : Response :=
  Response.addRr
    (Response.addRr { Response.init with queryName := queryName }
      { RR.init with id := 7, rrData := ascii "hello" })
    { RR.init with id := 5, rrData := ascii "world" }

/-- The response to an update. -/
def okResponse (queryName : Name) : ResponseUpdate :=
  { toResponse := { Response.init with
      queryName := queryName
      responseType := .DyNDNS_OK }
    result := ascii "OK" }

theorem textResponse_fresh
    {queryName : Name}
    (h : (textResponse queryName).toBlock.value.length < 2 ^ 64) :
    (textResponse queryName).Fresh where
  wire_eq := rfl
  id_lt := by simp [textResponse, Response.addRr, Response.init]
  freshness_nonneg := by simp [textResponse, Response.addRr, Response.init]
  freshness_lt := by simp [textResponse, Response.addRr, Response.init]
  length_lt := h

theorem okResponse_fresh
    {queryName : Name}
    (h : (okResponse queryName).toBlock.value.length < 2 ^ 64) :
    (okResponse queryName).Fresh where
  wire_eq := rfl
  freshness_nonneg := by simp [okResponse, Response.init]
  freshness_lt := by simp [okResponse, Response.init]
  length_lt := h

/-- The name of an answer for the text record of `/www`. -/
def hostName : Name :=
  [ascii "net", ascii "DNS", ascii "www", ascii "TXT"]

/-- A name whose first component is cut in front of the word. -/
def dottedName (type : Bytes) : Name :=
  [ascii ".DNS", ascii "x", type]

theorem cutParses_hostName :
    CutParses uriParser matchQueryName hostName ∧
      CutParses uriParser matchUpdateName hostName := by
  rw [← Response.readName_isSome_iff uriParser Response.init,
    ← ResponseUpdate.readName_isSome_iff uriParser ResponseUpdate.init]
  decide +kernel

theorem not_cutParses_dottedName :
    ¬ CutParses uriParser matchQueryName (dottedName (ascii "TXT")) ∧
      ¬ CutParses uriParser matchUpdateName
        (dottedName (ascii "DYNDNSUPDATE")) := by
  rw [← Response.readName_isSome_iff uriParser Response.init,
    ← ResponseUpdate.readName_isSome_iff uriParser ResponseUpdate.init]
  decide +kernel

theorem responses_roundTrip_hostName :
    (∃ data r', (textResponse hostName).toData = some data ∧
      Response.init.fromData uriParser data = some r' ∧
      Response.SameWire (textResponse hostName) r' ∧
      r'.queryType = (textResponse hostName).queryType) ∧
    (∃ data r', (okResponse hostName).toData = some data ∧
      ResponseUpdate.init.fromData uriParser data = some r' ∧
      ResponseUpdate.SameWire (okResponse hostName) r' ∧
      r'.queryType = (okResponse hostName).queryType) := by
  obtain ⟨hquery, hupdate⟩ := responses_roundTrip_iff uriParser
  have hfresh : (textResponse hostName).Fresh :=
    textResponse_fresh (by decide +kernel)
  have hfresh' : (okResponse hostName).Fresh :=
    okResponse_fresh (by decide +kernel)
  exact ⟨(hquery _ hfresh).2.mpr cutParses_hostName.1,
    (hupdate _ hfresh').2.mpr cutParses_hostName.2⟩

/-- The zone `/.` that is cut out of these names is not a name. -/
theorem dottedName_not_decoded :
    (textResponse (dottedName (ascii "TXT"))).Fresh ∧
    (∃ data, (textResponse (dottedName (ascii "TXT"))).toData = some data ∧
      Response.init.fromData uriParser data = none) ∧
    (okResponse (dottedName (ascii "DYNDNSUPDATE"))).Fresh ∧
    (∃ data, (okResponse (dottedName (ascii "DYNDNSUPDATE"))).toData =
        some data ∧
      ResponseUpdate.init.fromData uriParser data = none) := by
  have hfresh : (textResponse (dottedName (ascii "TXT"))).Fresh :=
    textResponse_fresh (by decide +kernel)
  have hfresh' : (okResponse (dottedName (ascii "DYNDNSUPDATE"))).Fresh :=
    okResponse_fresh (by decide +kernel)
  obtain ⟨hcut, hcut'⟩ := not_cutParses_dottedName
  refine ⟨hfresh, ⟨_, Response.toData_eq rfl hfresh.length_lt, ?_⟩, hfresh',
    ⟨_, ResponseUpdate.toData_eq rfl hfresh'.length_lt, ?_⟩⟩
  · rw [← Option.not_isSome_iff_eq_none, hfresh.fromData_isSome_iff]
    exact hcut
  · rw [← Option.not_isSome_iff_eq_none, hfresh'.fromData_isSome_iff]
    exact hcut'

end RoundTrips

end Ndns

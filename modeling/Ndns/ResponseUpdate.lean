import Ndns.Response

/-!
# Responses to updates

`response-update.cpp`: a response whose content blob holds the result of an
update, a text, in place of RRs.

**Results.**
* `writes_encoder`: the running length of the encoder is the length of each
  enclosing block;
* `wireDecode_toBlock`: what is encoded is decoded;
* `fromData_packet`: a packet is decoded with what its name is read as.
-/

namespace Ndns

structure ResponseUpdate extends Response where
  result : Bytes
deriving DecidableEq

namespace ResponseUpdate

/-- `ResponseUpdate::ResponseUpdate()` -/
def init : ResponseUpdate where
  toResponse := Response.init
  result := []

def setResult (r : ResponseUpdate) (result : Bytes) : ResponseUpdate :=
  { r with result := result }

/-- `ResponseUpdate::wireEncode(EncodingImpl<T>&)` -/
def encoder (r : ResponseUpdate) : Tlv.Encoder :=
  Tlv.enclose tlv.Content
    (Tlv.andThen
      (Tlv.andThen
        (Tlv.andThen
          (Tlv.enclose tlv.ResponseContentBlob
            (Tlv.prependByteArrayBlock tlv.UpdateResult r.result))
          (Tlv.prependNonNegativeIntegerBlock tlv.ResponseFressness
            (millisecondsCount r.freshness)))
        (Tlv.prependByteArrayBlock tlv.ResponseType
          r.responseType.toString))
      (Tlv.prepend r.queryName.toBlock.encode))

/-- `ResponseUpdate::wireEncode()`; `none` for a thrown error. -/
def wireEncode (r : ResponseUpdate) : Option Tlv.Block :=
  match r.wire with
  | some wire => some wire
  | none => r.encoder.block

/-- `ResponseUpdate::wireDecode`; `none` for a thrown error. -/
def wireDecode (r : ResponseUpdate) (wire : Tlv.Block) :
    Option ResponseUpdate := do
  let it ← wire.parse
  let (name, it) ← Tlv.expect tlv.Name it
  let queryName ← Name.ofBlock name
  let (type, it) ← Tlv.expect tlv.ResponseType it
  let (fresh, it) ← Tlv.expect tlv.ResponseFressness it
  let freshness ← Tlv.readNonNegativeInteger fresh.value
  let (blob, _) ← Tlv.expect tlv.ResponseContentBlob it
  let it2 ← blob.parse
  let (result, _) ← Tlv.expect tlv.UpdateResult it2
  return { r with
    wire := some wire
    queryName := queryName
    responseType := toResponseType type.value
    freshness := milliseconds freshness
    result := result.value }

/-- What the name of a Data packet says about a response. -/
def readName (P : NameParser) (r : ResponseUpdate) (name : Name) :
    Option ResponseUpdate :=
  match matchUpdateName name.toUri with
  | none => some r
  | some map => do
      let authorityZone ← P.ofUri map.zone
      let rrLabel ← P.ofUri map.rrLabel
      let forwardingHint ←
        (if map.hint = [] then some r.forwardingHint
          else P.ofUri map.hint)
      return { r with
        authorityZone := authorityZone
        rrLabel := rrLabel
        rrType := toRRType map.rrType
        forwardingHint := forwardingHint }

/-- `ResponseUpdate::fromData`; `none` for a thrown error. -/
def fromData (P : NameParser) (r : ResponseUpdate) (data : Data) :
    Option ResponseUpdate := do
  let r ← r.readName P data.name
  wireDecode { r with
    queryName := data.name
    freshness := data.freshnessPeriod
    queryType := data.contentType } data.content

/-- `ResponseUpdate::toData`; `none` for a thrown error. -/
def toData (r : ResponseUpdate) : Option Data :=
  r.wireEncode.map (fun wire =>
    Data.setContent {
      name := r.queryName
      contentType := r.queryType
      freshnessPeriod := r.freshness
      content := Data.init.content } wire)

section Codec

/-- The block around the result. -/
def blob (r : ResponseUpdate) : Tlv.Block :=
  ⟨tlv.ResponseContentBlob, Tlv.flatten [⟨tlv.UpdateResult, r.result⟩]⟩

/-- The elements of a response on the wire. -/
def elements (r : ResponseUpdate) : List Tlv.Block :=
  [r.queryName.toBlock,
    ⟨tlv.ResponseType, r.responseType.toString⟩,
    ⟨tlv.ResponseFressness,
      Tlv.nonNegativeInteger (millisecondsCount r.freshness)⟩,
    r.blob]

def toBlock (r : ResponseUpdate) : Tlv.Block :=
  ⟨tlv.Content, Tlv.flatten r.elements⟩

theorem writes_encoder (r : ResponseUpdate) :
    Tlv.Writes r.encoder r.toBlock.encode := by
  have hblob :=
    (Tlv.writes_prependByteArrayBlock tlv.UpdateResult r.result).enclose
      tlv.ResponseContentBlob
  have h :=
    (((hblob.append (Tlv.writes_prependNonNegativeIntegerBlock
      tlv.ResponseFressness (millisecondsCount r.freshness))).append
        (Tlv.writes_prependByteArrayBlock tlv.ResponseType
          r.responseType.toString)).append
            (Tlv.writes_prepend r.queryName.toBlock.encode)).enclose
              tlv.Content
  simpa [toBlock, elements, blob, encoder] using h

/-- A response without a kept block is encoded afresh. -/
theorem wireEncode_eq
    {r : ResponseUpdate}
    (hwire : r.wire = none) (hfits : r.toBlock.value.length < 2 ^ 64) :
    r.wireEncode = some r.toBlock := by
  have htype : r.toBlock.type < 2 ^ 32 := by
    simp [toBlock, tlv.Content]
  simp only [wireEncode, hwire]
  exact r.writes_encoder.block ⟨htype, hfits⟩

/-- What is encoded is decoded. -/
theorem wireDecode_toBlock
    (r r' : ResponseUpdate)
    (hlo : -2 ^ 63 ≤ r.freshness) (hhi : r.freshness < 2 ^ 63)
    (hfits : r.toBlock.value.length < 2 ^ 64) :
    r'.wireDecode r.toBlock =
      some { r' with
        wire := some r.toBlock
        queryName := r.queryName
        responseType := r.responseType
        freshness := r.freshness
        result := r.result } := by
  have hblocks : ∀ b ∈ r.elements, b.Fits := by
    intro b hb
    refine ⟨?_, Response.length_lt_of_mem hb hfits⟩
    simp only [elements, List.mem_cons, List.not_mem_nil, or_false] at hb
    rcases hb with rfl | rfl | rfl | rfl <;>
      simp [Name.toBlock, blob, tlv.Name, tlv.ResponseType,
        tlv.ResponseFressness, tlv.ResponseContentBlob]
  have hparse : r.toBlock.parse = some r.elements :=
    Tlv.Block.parse_flatten tlv.Content hblocks
  have hname : Name.ofBlock r.queryName.toBlock = some r.queryName :=
    Name.ofBlock_toBlock
      (hblocks r.queryName.toBlock (by simp [elements])).length_lt
  have hresult : ∀ b ∈ [Tlv.Block.mk tlv.UpdateResult r.result], b.Fits := by
    have hvalue := (hblocks r.blob (by simp [elements])).length_lt
    intro b hb
    refine ⟨?_, Response.length_lt_of_mem hb hvalue⟩
    rw [List.mem_singleton.mp hb]
    simp [tlv.UpdateResult]
  have hblob : r.blob.parse = some [⟨tlv.UpdateResult, r.result⟩] :=
    Tlv.Block.parse_flatten tlv.ResponseContentBlob hresult
  have hexpectName (it : List Tlv.Block) :
      Tlv.expect tlv.Name (r.queryName.toBlock :: it) =
        some (r.queryName.toBlock, it) :=
    Tlv.expect_cons _ _ _
  have hexpectBlob (it : List Tlv.Block) :
      Tlv.expect tlv.ResponseContentBlob (r.blob :: it) =
        some (r.blob, it) :=
    Tlv.expect_cons _ _ _
  unfold wireDecode
  rw [hparse]
  simp only [elements, Option.bind_eq_bind, Option.bind_some, hexpectName,
    hname, Tlv.expect_cons, toResponseType_toString, hexpectBlob, hblob,
    Tlv.readNonNegativeInteger_encode (millisecondsCount_lt r.freshness),
    milliseconds_count hlo hhi]
  rfl

end Codec

section Packets

/-- The packet of a response that has not been encoded yet. -/
def packet (r : ResponseUpdate) : Data where
  name := r.queryName
  contentType := r.queryType
  freshnessPeriod := r.freshness
  content := r.toBlock

theorem toData_eq
    {r : ResponseUpdate}
    (hwire : r.wire = none) (hfits : r.toBlock.value.length < 2 ^ 64) :
    r.toData = some r.packet := by
  rw [toData, wireEncode_eq hwire hfits]
  rfl

/-- Reading the name of a packet leaves the RRs alone. -/
theorem readName_rrs
    {P : NameParser} {r r' : ResponseUpdate} {n : Name}
    (h : r.readName P n = some r') :
    r'.rrs = r.rrs := by
  unfold readName at h
  split at h
  · rw [← Option.some.inj h]
  · simp only [Option.bind_eq_bind, Option.bind_eq_some_iff,
      Option.pure_def, Option.some.injEq] at h
    obtain ⟨_, _, _, _, _, _, rfl⟩ := h
    rfl

/-- A packet is decoded with what its name is read as. -/
theorem fromData_packet
    (P : NameParser) (r r' : ResponseUpdate)
    (hlo : 0 ≤ r.freshness) (hhi : r.freshness < 2 ^ 63)
    (hfits : r.toBlock.value.length < 2 ^ 64) :
    r'.fromData P r.packet =
      (r'.readName P r.queryName).map (fun s =>
        { s with
          wire := some r.toBlock
          queryName := r.queryName
          queryType := r.queryType
          responseType := r.responseType
          freshness := r.freshness
          result := r.result }) := by
  have hdecode (s : ResponseUpdate) :=
    wireDecode_toBlock r s (by omega) hhi hfits
  unfold fromData
  cases hread : r'.readName P r.queryName with
  | none =>
      simp [packet, hread]
  | some s =>
      simp [packet, hread, hdecode]

end Packets

end ResponseUpdate

end Ndns

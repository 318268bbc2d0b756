import Ndns.Data
import Ndns.Label

/-!
# Responses

`response.cpp`: the content of an answer, and of the update that is embedded in
an update Interest.  On the wire a response has its query name, its type, its
freshness and a blob with the number of RRs and the RRs.  Label and type of the
RRs are not encoded: `fromData` cuts them out of the URI of the Data name with
the query pattern, and keeps the values it had when the name does not match.

**Results.**
* `writes_encoder`: the running length of the encoder is the length of each
  enclosing block;
* `wireDecode_toBlock`: what is encoded is decoded, RR by RR;
* `fromData_content`: a packet is decoded with what its name is read as.
-/

namespace Ndns

structure Response where
  /-- Milliseconds. -/
  freshness : Int
  queryName : Name
  /-- The number of a query type: `fromData` casts any content type to one. -/
  queryType : Nat
  authorityZone : Name
  forwardingHint : Name
  rrLabel : Name
  rrType : RRType
  responseType : ResponseType
  rrs : List RR
  /-- `m_wire`, if it has been set. -/
  wire : Option Tlv.Block
deriving DecidableEq

/-- The number of a query type. -/
def QueryType.code : QueryType → Nat
  | .DNS => 1
  | .DNS_R => 2
  | .KEY => 3
  | .UNKNOWN => 4

namespace Response

/-- `Response::Response()` -/
def init : Response where
  freshness := 3600
  queryName := []
  queryType := QueryType.DNS.code
  authorityZone := []
  forwardingHint := []
  rrLabel := []
  rrType := .NS
  responseType := .NDNS_Resp
  rrs := []
  wire := none

def addRr (r : Response) (rr : RR) : Response :=
  { r with rrs := r.rrs ++ [rr] }

def setRrs (r : Response) (rrs : List RR) : Response :=
  { r with rrs := rrs }

/-- `Response::setRrZones` -/
def setRrZones (r : Response) (zone : Zone) : Response :=
  { r with rrs := r.rrs.map (fun rr => rr.setZone zone) }

/-- `Response::wireEncode(EncodingImpl<T>&)` -/
def encoder (r : Response) : Tlv.Encoder :=
  Tlv.enclose tlv.Content
    (Tlv.andThen
      (Tlv.andThen
        (Tlv.andThen
          (Tlv.enclose tlv.ResponseContentBlob
            (Tlv.andThen
              (Tlv.prependEach RR.wireEncode r.rrs.reverse)
              (Tlv.prependNonNegativeIntegerBlock
                tlv.ResponseNumberOfRRData r.rrs.length)))
          (Tlv.prependNonNegativeIntegerBlock tlv.ResponseFressness
            (millisecondsCount r.freshness)))
        (Tlv.prependByteArrayBlock tlv.ResponseType
          r.responseType.toString))
      (Tlv.prepend r.queryName.toBlock.encode))

/-- `Response::wireEncode()`; `none` for a thrown error. -/
def wireEncode (r : Response) : Option Tlv.Block :=
  match r.wire with
  | some wire => some wire
  | none => r.encoder.block

/-- Decode `n` RRs from the elements of a content blob. -/
def decodeRrs (P : NameParser) (r : Response) :
    Nat → List Tlv.Block → Option Response
  | 0, _ => some r
  | n + 1, it => do
      let (b, it) ← Tlv.expect tlv.RRData it
      let rr ← RR.init.wireDecode P b
      decodeRrs P
        (r.addRr ((rr.setLabel r.rrLabel).setType r.rrType)) n it

/-- `Response::wireDecode`; `none` for a thrown error. -/
def wireDecode (P : NameParser) (r : Response) (wire : Tlv.Block) :
    Option Response := do
  let it ← wire.parse
  let (name, it) ← Tlv.expect tlv.Name it
  let queryName ← Name.ofBlock name
  let (type, it) ← Tlv.expect tlv.ResponseType it
  let (fresh, it) ← Tlv.expect tlv.ResponseFressness it
  let freshness ← Tlv.readNonNegativeInteger fresh.value
  let (blob, _) ← Tlv.expect tlv.ResponseContentBlob it
  let it2 ← blob.parse
  let (number, it2) ← Tlv.expect tlv.ResponseNumberOfRRData it2
  let rrlen ← Tlv.readNonNegativeInteger number.value
  decodeRrs P { r with
    wire := some wire
    queryName := queryName
    responseType := toResponseType type.value
    freshness := milliseconds freshness } rrlen it2

/-- What the name of a Data packet says about a response. -/
def readName (P : NameParser) (r : Response) (name : Name) :
    Option Response :=
  match matchQueryName name.toUri with
  | none => some r
  | some map => do
      let authorityZone ← P.ofUri map.zone
      let rrLabel ← P.ofUri map.rrLabel
      let forwardingHint ←
        (if map.hint = [] then some r.forwardingHint
          else P.ofUri map.hint)
      return { r with
        authorityZone := authorityZone
        rrLabel := rrLabel
        rrType := toRRType map.rrType
        forwardingHint := forwardingHint }

/-- `Response::fromData`; `none` for a thrown error. -/
def fromData (P : NameParser) (r : Response) (data : Data) :
    Option Response := do
  let r ← r.readName P data.name
  wireDecode P { r with
    queryName := data.name
    freshness := data.freshnessPeriod
    queryType := data.contentType } data.content

/-- `Response::toData`; `none` for a thrown error. -/
def toData (r : Response) : Option Data :=
  r.wireEncode.map (fun wire =>
    Data.setContent {
      name := r.queryName
      contentType := r.queryType
      freshnessPeriod := r.freshness
      content := Data.init.content } wire)

section Codec

/-- The elements of a content blob. -/
def blob (r : Response) : Tlv.Block :=
  ⟨tlv.ResponseContentBlob, Tlv.flatten
    (⟨tlv.ResponseNumberOfRRData, Tlv.nonNegativeInteger r.rrs.length⟩ ::
      r.rrs.map RR.toBlock)⟩

/-- The elements of a response on the wire. -/
def elements (r : Response) : List Tlv.Block :=
  [r.queryName.toBlock,
    ⟨tlv.ResponseType, r.responseType.toString⟩,
    ⟨tlv.ResponseFressness,
      Tlv.nonNegativeInteger (millisecondsCount r.freshness)⟩,
    r.blob]

def toBlock (r : Response) : Tlv.Block :=
  ⟨tlv.Content, Tlv.flatten r.elements⟩

theorem flatten_map_toBlock (rrs : List RR) :
    Tlv.flatten (rrs.map RR.toBlock) =
      rrs.flatMap (fun rr => rr.toBlock.encode) := by
  simp [Tlv.flatten, List.flatMap_map]

theorem writes_encoder (r : Response) :
    Tlv.Writes r.encoder r.toBlock.encode := by
  have hrrs :
      Tlv.Writes (Tlv.prependEach RR.wireEncode r.rrs.reverse)
        (Tlv.flatten (r.rrs.map RR.toBlock)) := by
    rw [flatten_map_toBlock]
    simpa using
      Tlv.writes_prependEach RR.writes_wireEncode r.rrs.reverse
  have hblob :=
    (hrrs.append (Tlv.writes_prependNonNegativeIntegerBlock
      tlv.ResponseNumberOfRRData r.rrs.length)).enclose
        tlv.ResponseContentBlob
  have h :=
    (((hblob.append (Tlv.writes_prependNonNegativeIntegerBlock
      tlv.ResponseFressness (millisecondsCount r.freshness))).append
        (Tlv.writes_prependByteArrayBlock tlv.ResponseType
          r.responseType.toString)).append
            (Tlv.writes_prepend r.queryName.toBlock.encode)).enclose
              tlv.Content
  simpa [toBlock, elements, blob, encoder] using h

/-- A response without a kept block is encoded afresh. -/
theorem wireEncode_eq
    {r : Response}
    (hwire : r.wire = none) (hfits : r.toBlock.value.length < 2 ^ 64) :
    r.wireEncode = some r.toBlock := by
  have htype : r.toBlock.type < 2 ^ 32 := by
    simp [toBlock, tlv.Content]
  simp only [wireEncode, hwire]
  exact r.writes_encoder.block ⟨htype, hfits⟩

/-- An RR as the receiver of a response holds it. -/
def received (label : Name) (type : RRType) (rr : RR) : RR :=
  RR.setType
    (RR.setLabel
      { RR.init.setZoneName rr.zone.authorizedName with
        id := rr.id
        rrData := rr.rrData
        updateAction := rr.updateAction
        wire := some rr.toBlock } label) type

/-- The blocks inside a block that fits are short enough. -/
theorem length_lt_of_mem
    {b : Tlv.Block} {bs : List Tlv.Block}
    (hb : b ∈ bs) (h : (Tlv.flatten bs).length < 2 ^ 64) :
    b.value.length < 2 ^ 64 :=
  lt_of_le_of_lt (Tlv.length_le_flatten hb) h

theorem decodeRrs_map
    (P : NameParser) {rrs : List RR}
    (hid : ∀ rr ∈ rrs, rr.id < 2 ^ 32)
    (hfits : ∀ rr ∈ rrs, rr.toBlock.value.length < 2 ^ 64)
    (r : Response) :
    decodeRrs P r rrs.length (rrs.map RR.toBlock) =
      some { r with
        rrs := r.rrs ++ rrs.map (received r.rrLabel r.rrType) } := by
  induction rrs generalizing r with
  | nil =>
      simp [decodeRrs]
  | cons rr rrs ih =>
      have hdecode := RR.wireDecode_toBlock P rr RR.init
        (hid rr (by simp)) (hfits rr (by simp))
      have hexpect : Tlv.expect tlv.RRData
          (rr.toBlock :: rrs.map RR.toBlock) =
            some (rr.toBlock, rrs.map RR.toBlock) :=
        Tlv.expect_cons _ _ _
      have hrest := ih (fun x hx => hid x (by simp [hx]))
        (fun x hx => hfits x (by simp [hx]))
        (r.addRr (received r.rrLabel r.rrType rr))
      simp only [List.length_cons, List.map_cons, decodeRrs, hexpect,
        hdecode, Option.bind_eq_bind, Option.bind_some]
      refine Eq.trans hrest ?_
      simp [addRr]

/-- The blob of a response is read back. -/
theorem decode_blob
    (P : NameParser) {r : Response}
    (hid : ∀ rr ∈ r.rrs, rr.id < 2 ^ 32)
    (hfits : r.blob.value.length < 2 ^ 64) (r' : Response) :
    (do
      let it ← r.blob.parse
      let (number, it) ← Tlv.expect tlv.ResponseNumberOfRRData it
      let rrlen ← Tlv.readNonNegativeInteger number.value
      decodeRrs P r' rrlen it) =
      some { r' with
        rrs := r'.rrs ++ r.rrs.map (received r'.rrLabel r'.rrType) } := by
  have hblocks :
      ∀ b ∈ (⟨tlv.ResponseNumberOfRRData,
          Tlv.nonNegativeInteger r.rrs.length⟩ ::
        r.rrs.map RR.toBlock : List Tlv.Block), b.Fits := by
    intro b hb
    refine ⟨?_, length_lt_of_mem hb hfits⟩
    rcases List.mem_cons.mp hb with rfl | hb
    · simp [tlv.ResponseNumberOfRRData]
    · obtain ⟨rr, -, rfl⟩ := List.mem_map.mp hb
      simp [RR.toBlock, tlv.RRData]
  have hparse := Tlv.Block.parse_flatten tlv.ResponseContentBlob hblocks
  have hlength : r.rrs.length < 2 ^ 64 := by
    have := Tlv.length_le_length_flatten
      (⟨tlv.ResponseNumberOfRRData,
          Tlv.nonNegativeInteger r.rrs.length⟩ ::
        r.rrs.map RR.toBlock : List Tlv.Block)
    simp only [List.length_cons, List.length_map] at this
    have hvalue := hfits
    simp only [blob] at hvalue
    omega
  have hrrs := decodeRrs_map P hid (fun rr hrr =>
    (hblocks rr.toBlock (by simp [List.mem_map_of_mem hrr])).length_lt) r'
  rw [blob, hparse]
  simp only [Option.bind_eq_bind, Option.bind_some, Tlv.expect_cons,
    Tlv.readNonNegativeInteger_encode hlength]
  exact hrrs

/-- What is encoded is decoded, behind the RRs that were there before. -/
theorem wireDecode_toBlock
    (P : NameParser) (r r' : Response)
    (hid : ∀ rr ∈ r.rrs, rr.id < 2 ^ 32)
    (hlo : -2 ^ 63 ≤ r.freshness) (hhi : r.freshness < 2 ^ 63)
    (hfits : r.toBlock.value.length < 2 ^ 64) :
    r'.wireDecode P r.toBlock =
      some { r' with
        wire := some r.toBlock
        queryName := r.queryName
        responseType := r.responseType
        freshness := r.freshness
        rrs := r'.rrs ++ r.rrs.map (received r'.rrLabel r'.rrType) } := by
  have hblocks : ∀ b ∈ r.elements, b.Fits := by
    intro b hb
    refine ⟨?_, length_lt_of_mem hb hfits⟩
    simp only [elements, List.mem_cons, List.not_mem_nil, or_false] at hb
    rcases hb with rfl | rfl | rfl | rfl <;>
      simp [Name.toBlock, blob, tlv.Name, tlv.ResponseType,
        tlv.ResponseFressness, tlv.ResponseContentBlob]
  have hparse : r.toBlock.parse = some r.elements :=
    Tlv.Block.parse_flatten tlv.Content hblocks
  have hname : Name.ofBlock r.queryName.toBlock = some r.queryName :=
    Name.ofBlock_toBlock
      (hblocks r.queryName.toBlock (by simp [elements])).length_lt
  have hblob := decode_blob P hid
    (hblocks r.blob (by simp [elements])).length_lt
  have hexpectName (it : List Tlv.Block) :
      Tlv.expect tlv.Name (r.queryName.toBlock :: it) =
        some (r.queryName.toBlock, it) :=
    Tlv.expect_cons _ _ _
  have hexpectBlob (it : List Tlv.Block) :
      Tlv.expect tlv.ResponseContentBlob (r.blob :: it) =
        some (r.blob, it) :=
    Tlv.expect_cons _ _ _
  unfold wireDecode
  rw [hparse]
  simp only [elements, Option.bind_eq_bind, Option.bind_some, hexpectName,
    hname, Tlv.expect_cons, toResponseType_toString, hexpectBlob,
    Tlv.readNonNegativeInteger_encode (millisecondsCount_lt r.freshness),
    milliseconds_count hlo hhi]
  exact hblob _

end Codec

section Packets

/-- The packet of a response that has not been encoded yet. -/
def packet (r : Response) : Data where
  name := r.queryName
  contentType := r.queryType
  freshnessPeriod := r.freshness
  content := r.toBlock

theorem toData_eq
    {r : Response}
    (hwire : r.wire = none) (hfits : r.toBlock.value.length < 2 ^ 64) :
    r.toData = some r.packet := by
  rw [toData, wireEncode_eq hwire hfits]
  rfl

/-- The name of the root says nothing. -/
theorem readName_root (P : NameParser) (r : Response) :
    r.readName P [] = some r := by
  unfold readName
  rw [matchQueryName_root]

/-- Reading the name of a packet leaves the RRs alone. -/
theorem readName_rrs
    {P : NameParser} {r r' : Response} {n : Name}
    (h : r.readName P n = some r') :
    r'.rrs = r.rrs := by
  unfold readName at h
  split at h
  · rw [← Option.some.inj h]
  · simp only [Option.bind_eq_bind, Option.bind_eq_some_iff,
      Option.pure_def, Option.some.injEq] at h
    obtain ⟨_, _, _, _, _, _, rfl⟩ := h
    rfl

/-- A content is decoded with the label and the type that the name of its packet
is read as. -/
theorem fromData_content
    (P : NameParser) (r r' : Response) {data : Data}
    (hid : ∀ rr ∈ r.rrs, rr.id < 2 ^ 32)
    (hlo : -2 ^ 63 ≤ r.freshness) (hhi : r.freshness < 2 ^ 63)
    (hfits : r.toBlock.value.length < 2 ^ 64)
    (hcontent : data.content = r.toBlock) :
    r'.fromData P data =
      (r'.readName P data.name).map (fun s =>
        { s with
          wire := some r.toBlock
          queryName := r.queryName
          queryType := data.contentType
          responseType := r.responseType
          freshness := r.freshness
          rrs := s.rrs ++ r.rrs.map (received s.rrLabel s.rrType) }) := by
  have hdecode (s : Response) :=
    wireDecode_toBlock P r s hid hlo hhi hfits
  unfold fromData
  cases hread : r'.readName P data.name with
  | none =>
      rfl
  | some s =>
      simp [hcontent, hdecode]

/-- The packet of a response is decoded so. -/
theorem fromData_packet
    (P : NameParser) (r r' : Response)
    (hid : ∀ rr ∈ r.rrs, rr.id < 2 ^ 32)
    (hlo : 0 ≤ r.freshness) (hhi : r.freshness < 2 ^ 63)
    (hfits : r.toBlock.value.length < 2 ^ 64) :
    r'.fromData P r.packet =
      (r'.readName P r.queryName).map (fun s =>
        { s with
          wire := some r.toBlock
          queryName := r.queryName
          queryType := r.queryType
          responseType := r.responseType
          freshness := r.freshness
          rrs := s.rrs ++ r.rrs.map (received s.rrLabel s.rrType) }) :=
  fromData_content P r r' hid (by omega) hhi hfits rfl

end Packets

end Response

end Ndns

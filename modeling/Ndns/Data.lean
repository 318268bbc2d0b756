import Ndns.Rr

/-!
# NDN packets

The parts of a Data packet that the resolver and the servers use.  Signing and
the encoding of packets belong to the NDN library and are left to a parameter
`PacketCodec`, which has to read back what it writes.
-/

namespace Ndns

/-- Milliseconds as the number that goes on the wire. -/
def millisecondsCount (t : Int) : Nat :=
  (t % 2 ^ 64).toNat

/-- Milliseconds from a number on the wire. -/
def milliseconds (n : Nat) : Int :=
  if n < 2 ^ 63 then n else n - 2 ^ 64

theorem millisecondsCount_lt (t : Int) : millisecondsCount t < 2 ^ 64 := by
  unfold millisecondsCount
  omega

theorem milliseconds_count
    {t : Int}
    (hlo : -2 ^ 63 ≤ t) (hhi : t < 2 ^ 63) :
    milliseconds (millisecondsCount t) = t := by
  unfold milliseconds millisecondsCount
  split <;> omega

theorem milliseconds_bounds
    {n : Nat} (h : n < 2 ^ 64) :
    -2 ^ 63 ≤ milliseconds n ∧ milliseconds n < 2 ^ 63 := by
  unfold milliseconds
  split <;> omega

namespace Name

/-- `Name::wireEncode` -/
def toBlock (n : Name) : Tlv.Block :=
  ⟨tlv.Name, Tlv.flatten (n.map (fun c => ⟨tlv.NameComponent, c⟩))⟩

/-- `Name::wireDecode`; `none` for a thrown error. -/
def ofBlock (b : Tlv.Block) : Option Name :=
  b.parse.map (fun bs => bs.map Tlv.Block.value)

theorem ofBlock_toBlock
    {n : Name}
    (h : n.toBlock.value.length < 2 ^ 64) :
    ofBlock n.toBlock = some n := by
  have hfits :
      ∀ b ∈ n.map (fun c => Tlv.Block.mk tlv.NameComponent c), b.Fits := by
    intro b hb
    constructor
    · obtain ⟨c, -, rfl⟩ := List.mem_map.mp hb
      simp [tlv.NameComponent]
    · exact lt_of_le_of_lt (Tlv.length_le_flatten hb) h
  have hparse := Tlv.Block.parse_flatten tlv.Name hfits
  unfold ofBlock toBlock
  rw [hparse, Option.map_some, List.map_map]
  simp [Function.comp_def]

end Name

/-- A Data packet, without its signature. -/
structure Data where
  name : Name
  contentType : Nat
  /-- Milliseconds. -/
  freshnessPeriod : Int
  content : Tlv.Block
deriving DecidableEq

/-- `Data::Data()` -/
def Data.init : Data where
  name := []
  contentType := 0
  freshnessPeriod := -1
  content := ⟨tlv.Content, []⟩

/-- `Data::setContent(const Block&)` -/
def Data.setContent (data : Data) (block : Tlv.Block) : Data :=
  if block.type = tlv.Content then { data with content := block }
  else { data with content := ⟨tlv.Content, block.encode⟩ }

/-- A packet whose fields have a wire format. -/
structure Data.Encodable (data : Data) : Prop where
  contentType_lt : data.contentType < 2 ^ 32
  freshness_nonneg : 0 ≤ data.freshnessPeriod
  freshness_lt : data.freshnessPeriod < 2 ^ 63
  content_type : data.content.type = tlv.Content

/-- Signing and encoding of packets. -/
structure PacketCodec where
  /-- `KeyChain::sign` and `Data::wireEncode` -/
  wireEncode : Data → Tlv.Block
  /-- `Data::wireDecode`; `none` for a thrown error. -/
  wireDecode : Tlv.Block → Option Data
  type_wireEncode : ∀ data, (wireEncode data).type = tlv.Data
  /-- The content is part of the packet. -/
  content_le : ∀ data,
    data.content.value.length ≤ (wireEncode data).value.length
  wireDecode_wireEncode : ∀ data, data.Encodable →
    (wireEncode data).value.length < 2 ^ 64 →
    wireDecode (wireEncode data) = some data

/-- `Block::blockFromValue`; `none` for a thrown error. -/
def blockFromValue (value : Component) : Option Tlv.Block :=
  match Tlv.readBlock value with
  | some (b, []) => some b
  | _ => none

/-- `Name::append(const Block&)` puts the bytes of a block in one component. -/
def componentOfBlock (b : Tlv.Block) : Component :=
  if b.type = tlv.NameComponent then b.value else b.encode

/-- A component of `Name::appendVersion`: a marker byte and a number. -/
structure Version where
  component : Component
  marked : component.head? = some 0xFD
deriving DecidableEq

theorem blockFromValue_componentOfBlock
    {b : Tlv.Block}
    (hfits : b.Fits) (htype : b.type ≠ tlv.NameComponent) :
    blockFromValue (componentOfBlock b) = some b := by
  have h := Tlv.readBlock_encode hfits []
  rw [List.append_nil] at h
  simp [blockFromValue, componentOfBlock, htype, h]

section NdnCodec

/-- The fields of a packet that describe its content. -/
def Data.metaInfo (data : Data) : List Tlv.Block :=
  [⟨tlv.ContentType, Tlv.nonNegativeInteger data.contentType⟩,
    ⟨tlv.FreshnessPeriod,
      Tlv.nonNegativeInteger (millisecondsCount data.freshnessPeriod)⟩]

/-- The elements of a packet; `sign` gives the two parts of a signature. -/
def Data.elements (sign : Data → Bytes × Bytes) (data : Data) :
    List Tlv.Block :=
  [data.name.toBlock, ⟨tlv.MetaInfo, Tlv.flatten data.metaInfo⟩,
    data.content, ⟨tlv.SignatureInfo, (sign data).1⟩,
    ⟨tlv.SignatureValue, (sign data).2⟩]

/-- A packet without its signature, from the elements of its block. -/
def Data.ofBlock (b : Tlv.Block) : Option Data := do
  let it ← b.parse
  let (name, it) ← Tlv.expect tlv.Name it
  let name ← Name.ofBlock name
  let (info, it) ← Tlv.expect tlv.MetaInfo it
  let it2 ← info.parse
  let (type, it2) ← Tlv.expect tlv.ContentType it2
  let contentType ← Tlv.readNonNegativeInteger type.value
  let (fresh, _) ← Tlv.expect tlv.FreshnessPeriod it2
  let freshness ← Tlv.readNonNegativeInteger fresh.value
  let (content, _) ← Tlv.expect tlv.Content it
  return {
    name := name
    contentType := contentType
    freshnessPeriod := milliseconds freshness
    content := content }

theorem Data.ofBlock_elements
    (sign : Data → Bytes × Bytes) {data : Data} (h : data.Encodable)
    (hlength : (Tlv.flatten (data.elements sign)).length < 2 ^ 64) :
    Data.ofBlock ⟨tlv.Data, Tlv.flatten (data.elements sign)⟩ =
      some data := by
  have hfits : ∀ b ∈ data.elements sign, b.Fits := by
    intro b hb
    refine ⟨?_, lt_of_le_of_lt (Tlv.length_le_flatten hb) hlength⟩
    simp only [elements, List.mem_cons, List.not_mem_nil, or_false] at hb
    rcases hb with rfl | rfl | rfl | rfl | rfl <;>
      simp [Name.toBlock, h.content_type, tlv.Name, tlv.MetaInfo,
        tlv.Content, tlv.SignatureInfo, tlv.SignatureValue]
  have hmeta : ∀ b ∈ data.metaInfo, b.Fits := by
    have hvalue := (hfits ⟨tlv.MetaInfo, Tlv.flatten data.metaInfo⟩
      (by simp [elements])).length_lt
    intro b hb
    refine ⟨?_, lt_of_le_of_lt (Tlv.length_le_flatten hb) hvalue⟩
    simp only [metaInfo, List.mem_cons, List.not_mem_nil, or_false] at hb
    rcases hb with rfl | rfl <;>
      simp [tlv.ContentType, tlv.FreshnessPeriod]
  have hname : Name.ofBlock data.name.toBlock = some data.name :=
    Name.ofBlock_toBlock
      (hfits data.name.toBlock (by simp [elements])).length_lt
  have hexpectName (it : List Tlv.Block) :
      Tlv.expect tlv.Name (data.name.toBlock :: it) =
        some (data.name.toBlock, it) :=
    Tlv.expect_cons _ _ _
  have hexpectContent (it : List Tlv.Block) :
      Tlv.expect tlv.Content (data.content :: it) =
        some (data.content, it) := by
    simp [Tlv.expect, h.content_type]
  have htype : data.contentType < 2 ^ 64 := by
    have := h.contentType_lt
    omega
  have hnonneg := h.freshness_nonneg
  have hfresh : milliseconds (millisecondsCount data.freshnessPeriod) =
      data.freshnessPeriod :=
    milliseconds_count (by omega) h.freshness_lt
  unfold ofBlock
  rw [Tlv.Block.parse_flatten tlv.Data hfits]
  simp only [elements, Option.bind_eq_bind, Option.bind_some, hexpectName,
    hname, Tlv.expect_cons, Tlv.Block.parse_flatten tlv.MetaInfo hmeta]
  simp only [metaInfo, Tlv.expect_cons, Option.bind_some, hexpectContent,
    Tlv.readNonNegativeInteger_encode htype,
    Tlv.readNonNegativeInteger_encode
      (millisecondsCount_lt data.freshnessPeriod), hfresh]
  rfl

/-- The wire format of NDN packets. -/
def ndnCodec (sign : Data → Bytes × Bytes) : PacketCodec where
  wireEncode data := ⟨tlv.Data, Tlv.flatten (data.elements sign)⟩
  wireDecode := Data.ofBlock
  type_wireEncode _ := rfl
  content_le data := Tlv.length_le_flatten (by simp [Data.elements])
  wireDecode_wireEncode _ := Data.ofBlock_elements sign

end NdnCodec

end Ndns

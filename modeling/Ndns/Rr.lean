import Ndns.Enum
import Ndns.Lib.Tlv

/-!
# Zones, RRSets and RRs

The records of `zone.hpp`, `rrset.hpp` and `rr.hpp` and the wire format of an RR.
An RR on the wire has an id, the name of its zone, its data and the action of an
update; label, type and time to live are not part of it.

Ids are `uint32_t` in the source.  They are natural numbers here, reduced where
a longer number is stored in one.
-/

namespace Ndns

namespace tlv

/-! TLV types of `ndns-tlv.hpp`, and those of NDN packets. -/

def ResponseType : Nat := 130
def ResponseFressness : Nat := 131
def ResponseContentBlob : Nat := 132
def ResponseNumberOfRRData : Nat := 133
def RRData : Nat := 134
def RRDataSub1 : Nat := 141
def RRDataRecord : Nat := 142
def RRUpdateAction : Nat := 143
def UpdateResult : Nat := 144
def RRZone : Nat := 145

def Data : Nat := 6
def Name : Nat := 7
def NameComponent : Nat := 8
def MetaInfo : Nat := 20
def Content : Nat := 21
def SignatureInfo : Nat := 22
def SignatureValue : Nat := 23
def ContentType : Nat := 24
def FreshnessPeriod : Nat := 25

end tlv

structure Zone where
  id : Nat
  authorizedName : Name
deriving DecidableEq

/-- `Zone(const Name&)` -/
def Zone.ofName (name : Name) : Zone where
  id := 0
  authorizedName := name

structure RRSet where
  id : Nat
  zone : Zone
  label : Name
  clazz : Bytes
  type : RRType
  ndndata : Bytes
deriving DecidableEq

/-- `RRSet::RRSet(Zone&)`; `RRSet::RRSet()` for the zone of `Zone::Zone()`. -/
def RRSet.ofZone (zone : Zone) : RRSet where
  id := 0
  zone := zone
  label := []
  clazz := []
  type := .NS
  ndndata := []

structure RR where
  id : Nat
  rrData : Bytes
  ttl : Nat
  updateAction : UpdateAction
  rrset : RRSet
  /-- `m_wire`, if it has been set. -/
  wire : Option Tlv.Block
deriving DecidableEq

namespace RR

/-- `RR::RR(RRSet&)` -/
def ofRRSet (rrset : RRSet) : RR where
  id := 0
  rrData := ascii "ex.com"
  ttl := 3600
  updateAction := .NONE
  rrset := rrset
  wire := none

/-- `RR::RR()` -/
def init : RR :=
  ofRRSet (RRSet.ofZone (Zone.ofName []))

def zone (rr : RR) : Zone :=
  rr.rrset.zone

def setZoneName (rr : RR) (name : Name) : RR :=
  { rr with rrset.zone.authorizedName := name }

def setZone (rr : RR) (zone : Zone) : RR :=
  { rr with rrset.zone := zone }

def setRrset (rr : RR) (rrset : RRSet) : RR :=
  { rr with rrset := rrset }

def setLabel (rr : RR) (label : Name) : RR :=
  { rr with rrset.label := label }

def setType (rr : RR) (type : RRType) : RR :=
  { rr with rrset.type := type }

/-- `RR::wireEncode(EncodingImpl<T>&)` -/
def wireEncode (rr : RR) : Tlv.Encoder :=
  Tlv.enclose tlv.RRData
    (Tlv.andThen
      (Tlv.andThen
        (Tlv.andThen
          (Tlv.prependByteArrayBlock tlv.RRUpdateAction
            rr.updateAction.toString)
          (Tlv.prependByteArrayBlock tlv.RRDataRecord rr.rrData))
        (Tlv.prependByteArrayBlock tlv.RRZone
          rr.zone.authorizedName.toUri))
      (Tlv.prependNonNegativeIntegerBlock tlv.RRDataSub1 rr.id))

/-- `RR::wireDecode`; `none` for a thrown error. -/
def wireDecode (P : NameParser) (rr : RR) (wire : Tlv.Block) :
    Option RR := do
  if wire.type ≠ tlv.RRData then none
  else
    let it ← wire.parse
    let (sub1, it) ← Tlv.expect tlv.RRDataSub1 it
    let id ← Tlv.readNonNegativeInteger sub1.value
    let (zone, it) ← Tlv.expect tlv.RRZone it
    let name ← P.ofUri zone.value
    let (record, it) ← Tlv.expect tlv.RRDataRecord it
    let (action, _) ← Tlv.expect tlv.RRUpdateAction it
    return { rr.setZoneName name with
      id := id % 2 ^ 32
      rrData := record.value
      updateAction := toUpdateAction action.value
      wire := some wire }

/-- The elements of an RR on the wire. -/
def elements (rr : RR) : List Tlv.Block :=
  [⟨tlv.RRDataSub1, Tlv.nonNegativeInteger rr.id⟩,
    ⟨tlv.RRZone, rr.zone.authorizedName.toUri⟩,
    ⟨tlv.RRDataRecord, rr.rrData⟩,
    ⟨tlv.RRUpdateAction, rr.updateAction.toString⟩]

def toBlock (rr : RR) : Tlv.Block :=
  ⟨tlv.RRData, Tlv.flatten rr.elements⟩

theorem writes_wireEncode (rr : RR) :
    Tlv.Writes rr.wireEncode rr.toBlock.encode := by
  have h :=
    ((((Tlv.writes_prependByteArrayBlock tlv.RRUpdateAction
      rr.updateAction.toString).append
        (Tlv.writes_prependByteArrayBlock tlv.RRDataRecord
          rr.rrData)).append
      (Tlv.writes_prependByteArrayBlock tlv.RRZone
        rr.zone.authorizedName.toUri)).append
      (Tlv.writes_prependNonNegativeIntegerBlock tlv.RRDataSub1
        rr.id)).enclose tlv.RRData
  simpa [toBlock, elements, wireEncode] using h

theorem elements_fit
    {rr : RR}
    (h : rr.toBlock.value.length < 2 ^ 64) :
    ∀ b ∈ rr.elements, b.Fits := by
  intro b hb
  constructor
  · simp only [elements, List.mem_cons, List.not_mem_nil, or_false] at hb
    rcases hb with rfl | rfl | rfl | rfl <;> simp [tlv.RRDataSub1,
      tlv.RRZone, tlv.RRDataRecord, tlv.RRUpdateAction]
  · exact lt_of_le_of_lt (Tlv.length_le_flatten hb) h

/-- Id, zone name, data and action of an RR survive the wire. -/
theorem wireDecode_toBlock
    (P : NameParser) (rr rr' : RR)
    (hid : rr.id < 2 ^ 32)
    (h : rr.toBlock.value.length < 2 ^ 64) :
    rr'.wireDecode P rr.toBlock =
      some { rr'.setZoneName rr.zone.authorizedName with
        id := rr.id
        rrData := rr.rrData
        updateAction := rr.updateAction
        wire := some rr.toBlock } := by
  have hparse : rr.toBlock.parse = some rr.elements :=
    Tlv.Block.parse_flatten tlv.RRData (elements_fit h)
  have hnum := Tlv.readNonNegativeInteger_encode
    (show rr.id < 2 ^ 64 by omega)
  have htype : rr.toBlock.type = tlv.RRData := rfl
  unfold wireDecode
  rw [if_neg (by simp [htype]), hparse]
  simp only [elements, Option.bind_eq_bind, Option.bind_some,
    Tlv.expect_cons, hnum, P.ofUri_toUri, toUpdateAction_toString,
    Nat.mod_eq_of_lt hid, Option.pure_def]

end RR

end Ndns

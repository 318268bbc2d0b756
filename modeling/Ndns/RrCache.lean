import Ndns.Lib.Cache
import Ndns.Lib.Machine
import Ndns.ResponseRoundTrips

/-!
# The kept block of an RR

RRs and responses keep the block they were encoded to or decoded from in
`m_wire` and hand it out again; no setter resets it.  An RR is taken through any
sequence of its public operations here; a decoding that throws may leave
anything in the fields.

**Results.**
* `coherent_step_iff`: the steps that keep the block in line with the fields.
-/

namespace Ndns

/-- Decoders that differ in their last step only. -/
theorem bind_eq_map_bind
    {α β γ : Type} {x : Option α} {f : α → Option γ} {g : α → Option β}
    {k : β → γ} (h : ∀ a, f a = (g a).map k) :
    x.bind f = (x.bind g).map k := by
  cases x with
  | none =>
      rfl
  | some a =>
      exact h a

namespace RR

/-- An RR of the program: ids are of type `uint32_t`. -/
abbrev Object := { rr : RR // rr.id < 2 ^ 32 }

/-- `RR::wireEncode() const`; `none` for a thrown error. -/
def wireEncodeBlock (rr : RR) : Option Tlv.Block :=
  match rr.wire with
  | some wire => some wire
  | none => rr.wireEncode.block

inductive Op where
  | setType (type : RRType)
  | setLabel (label : Name)
  | setZone (zone : Zone)
  | setZoneName (zone : Name)
  | setId (id : UInt32)
  /-- A block without a wire is `none`. -/
  | setWire (wire : Option Tlv.Block)
  | setTtl (ttl : Nat)
  | setRrData (rrData : Bytes)
  | setUpdateAction (updateAction : UpdateAction)
  | setRrset (rrset : RRSet)
  | wireEncode
  /-- With the fields that are left if decoding throws. -/
  | wireDecode (wire : Option Tlv.Block) (left : Object)

/-- An RR behind an operation. -/
def step (P : NameParser) : Op → RR → RR
  | .setType type, rr => rr.setType type
  | .setLabel label, rr => rr.setLabel label
  | .setZone zone, rr => rr.setZone zone
  | .setZoneName zone, rr => rr.setZoneName zone
  | .setId id, rr => { rr with id := id.toNat }
  | .setWire wire, rr => { rr with wire := wire }
  | .setTtl ttl, rr => { rr with ttl := ttl }
  | .setRrData rrData, rr => { rr with rrData := rrData }
  | .setUpdateAction updateAction, rr =>
      { rr with updateAction := updateAction }
  | .setRrset rrset, rr => rr.setRrset rrset
  | .wireEncode, rr => { rr with wire := rr.wireEncodeBlock }
  | .wireDecode none _, rr => rr
  | .wireDecode (some wire) left, rr =>
      if wire.type ≠ tlv.RRData then rr
      else (rr.wireDecode P wire).getD { left.val with wire := some wire }

/-- What a block is decoded to. -/
def decodes (P : NameParser) (wire : Tlv.Block) :
    Option (Nat × Bytes × Name × UpdateAction) :=
  (init.wireDecode P wire).map content

def view (P : NameParser) :
    Cache.View RR (Nat × Bytes × Name × UpdateAction) Tlv.Block where
  cache := RR.wire
  fields := content
  decode := decodes P

/-- The steps that keep the block in line with the fields: no encoded field is
changed while a block is kept. -/
def Allowed (P : NameParser) : Op → RR → Prop
  | .setZone zone, rr =>
      rr.wire = none ∨ zone.authorizedName = rr.zone.authorizedName
  | .setZoneName zone, rr =>
      rr.wire = none ∨ zone = rr.zone.authorizedName
  | .setId id, rr => rr.wire = none ∨ id.toNat = rr.id
  | .setWire wire, rr => ∀ b, wire = some b → decodes P b = some rr.content
  | .setRrData rrData, rr => rr.wire = none ∨ rrData = rr.rrData
  | .setUpdateAction updateAction, rr =>
      rr.wire = none ∨ updateAction = rr.updateAction
  | .setRrset rrset, rr =>
      rr.wire = none ∨ rrset.zone.authorizedName = rr.zone.authorizedName
  | .wireDecode (some wire) _, _ =>
      wire.type = tlv.RRData → (decodes P wire).isSome
  | _, _ => True

/-- What is encoded is short enough for a buffer. -/
def Fits : Op → RR → Prop
  | .wireEncode, rr => rr.wire = none → rr.toBlock.value.length < 2 ^ 64
  | _, _ => True

/-- What is encoded next decodes to the fields. -/
def Current (P : NameParser) (rr : RR) : Prop :=
  (rr.wire = none → rr.toBlock.value.length < 2 ^ 64) →
    ∃ wire, rr.wireEncodeBlock = some wire ∧
      decodes P wire = some rr.content

section Steps

variable (P : NameParser) {rr : RR}

theorem wireDecode_content (rr : RR) (wire : Tlv.Block) :
    (rr.wireDecode P wire).map content = decodes P wire := by
  unfold decodes wireDecode
  split
  · rfl
  · simp only [Option.bind_eq_bind, Option.map_bind, Function.comp_def]
    rfl

theorem wire_of_wireDecode
    {rr' : RR} {wire : Tlv.Block} (h : rr.wireDecode P wire = some rr') :
    rr'.wire = some wire ∧ rr'.id < 2 ^ 32 := by
  unfold wireDecode at h
  split at h
  · exact absurd h (by simp)
  · simp only [Option.bind_eq_bind, Option.bind_eq_some_iff] at h
    obtain ⟨it, -, sub, -, id, -, zone, -, name, -, record, -, action, -,
      h⟩ := h
    obtain rfl := Option.some.inj h
    exact ⟨rfl, Nat.mod_lt _ (by decide)⟩

theorem wireEncodeBlock_eq
    (hwire : rr.wire = none) (hfits : rr.toBlock.value.length < 2 ^ 64) :
    rr.wireEncodeBlock = some rr.toBlock := by
  have htype : rr.toBlock.type < 2 ^ 32 := by
    simp [toBlock, tlv.RRData]
  simp only [wireEncodeBlock, hwire]
  exact rr.writes_wireEncode.block ⟨htype, hfits⟩

theorem decodes_toBlock
    (hid : rr.id < 2 ^ 32) (hfits : rr.toBlock.value.length < 2 ^ 64) :
    decodes P rr.toBlock = some rr.content := by
  rw [decodes, wireDecode_toBlock P rr init hid hfits]
  rfl

theorem step_id_lt
    (op : Op) (hid : rr.id < 2 ^ 32) : (step P op rr).id < 2 ^ 32 := by
  cases op with
  | setId id =>
      exact id.toNat_lt
  | wireDecode wire left =>
      cases wire with
      | none =>
          exact hid
      | some wire =>
          simp only [step]
          split
          · exact hid
          · cases hdecode : rr.wireDecode P wire with
            | none =>
                exact left.property
            | some rr' =>
                exact (wire_of_wireDecode P hdecode).2
  | _ =>
      exact hid

theorem coherent_wireEncode
    (hid : rr.id < 2 ^ 32) (hfits : Fits .wireEncode rr)
    (h : Cache.Coherent (view P) rr) :
    Cache.Coherent (view P) (step P .wireEncode rr) := by
  refine h.encode (b := rr.toBlock) rfl ?_ ?_
  · intro hwire
    exact ⟨wireEncodeBlock_eq hwire (hfits hwire),
      decodes_toBlock P hid (hfits hwire)⟩
  · intro wire hwire
    simp only [view] at hwire
    simp [view, step, wireEncodeBlock, hwire]

/-- A block that was decoded is what the fields are, one that was not is kept
all the same. -/
theorem coherent_wireDecode_iff
    {wire : Tlv.Block} (left : Object) (h : Cache.Coherent (view P) rr) :
    Cache.Coherent (view P) (step P (.wireDecode (some wire) left) rr) ↔
      (wire.type = tlv.RRData → (decodes P wire).isSome) := by
  simp only [step]
  by_cases htype : wire.type = tlv.RRData
  · rw [if_neg (not_not_intro htype)]
    have hcontent := wireDecode_content P rr wire
    cases hdecode : rr.wireDecode P wire with
    | none =>
        rw [hdecode] at hcontent
        have hload : (view P).cache
            (Option.getD none { left.val with wire := some wire }) =
              some wire := rfl
        rw [Cache.coherent_iff_of_load hload]
        simp [view, ← hcontent, htype]
    | some rr' =>
        rw [hdecode] at hcontent
        have hload : (view P).cache (Option.getD (some rr')
            { left.val with wire := some wire }) = some wire :=
          (wire_of_wireDecode P hdecode).1
        rw [Cache.coherent_iff_of_load hload]
        simp [view, ← hcontent]
  · rw [if_pos htype]
    exact iff_of_true h (fun h => absurd h htype)

/-- The steps that keep the block in line with the fields. -/
theorem coherent_step_iff
    (op : Op) (hid : rr.id < 2 ^ 32) (hfits : Fits op rr)
    (h : Cache.Coherent (view P) rr) :
    Cache.Coherent (view P) (step P op rr) ↔ Allowed P op rr := by
  cases op with
  | setType type =>
      exact iff_of_true ((Cache.coherent_congr rfl rfl).mpr h) trivial
  | setLabel label =>
      exact iff_of_true ((Cache.coherent_congr rfl rfl).mpr h) trivial
  | setTtl ttl =>
      exact iff_of_true ((Cache.coherent_congr rfl rfl).mpr h) trivial
  | setZone zone =>
      refine h.set_iff rfl ?_
      simp [view, content, step, RR.setZone, RR.zone]
  | setZoneName zone =>
      refine h.set_iff rfl ?_
      simp [view, content, step, RR.setZoneName, RR.zone]
  | setId id =>
      refine h.set_iff rfl ?_
      simp [view, content, step, RR.zone]
  | setWire wire =>
      exact Iff.rfl
  | setRrData rrData =>
      refine h.set_iff rfl ?_
      simp [view, content, step, RR.zone]
  | setUpdateAction updateAction =>
      refine h.set_iff rfl ?_
      simp [view, content, step, RR.zone]
  | setRrset rrset =>
      refine h.set_iff rfl ?_
      simp [view, content, step, RR.setRrset, RR.zone]
  | wireEncode =>
      exact iff_of_true (coherent_wireEncode P hid hfits h) trivial
  | wireDecode wire left =>
      cases wire with
      | none =>
          exact iff_of_true h trivial
      | some wire =>
          exact coherent_wireDecode_iff P left h

/-- An object encodes to what it holds exactly when its block is in line. -/
theorem current_iff (hid : rr.id < 2 ^ 32) :
    Current P rr ↔ Cache.Coherent (view P) rr := by
  cases hwire : rr.wire with
  | none =>
      refine iff_of_true ?_ (Cache.coherent_of_empty hwire)
      intro hfits
      exact ⟨_, wireEncodeBlock_eq hwire (hfits hwire),
        decodes_toBlock P hid (hfits hwire)⟩
  | some wire =>
      have hload : (view P).cache rr = some wire := hwire
      have hencode : rr.wireEncodeBlock = some wire := by
        simp [wireEncodeBlock, hwire]
      rw [Cache.coherent_iff_of_load hload]
      constructor
      · intro h
        obtain ⟨wire', hwire', hdecode⟩ := h (fun hnone => by
          rw [hwire] at hnone
          exact absurd hnone (by simp))
        obtain rfl := Option.some.inj (hencode.symm.trans hwire')
        exact hdecode
      · intro hdecode _
        exact ⟨wire, hencode, hdecode⟩

theorem throughout_current_iff
    (rrset : RRSet) {ops : List Op}
    (hfits : Machine.Along (step P) Fits ops (ofRRSet rrset)) :
    Machine.Throughout (step P) (Current P) ops (ofRRSet rrset) ↔
      Machine.Along (step P) (Allowed P) ops (ofRRSet rrset) := by
  have hinit : (ofRRSet rrset).id < 2 ^ 32 := by
    simp [ofRRSet]
  refine Machine.throughout_iff_along (J := fun rr => rr.id < 2 ^ 32)
    (fun op rr hid _ => step_id_lt P op hid) ?_ hfits hinit
      ((current_iff P hinit).mpr (Cache.coherent_of_empty rfl))
  intro op rr hid hop hcurrent
  rw [current_iff P (step_id_lt P op hid)]
  exact coherent_step_iff P op hid hop ((current_iff P hid).mp hcurrent)

end Steps

end RR

end Ndns

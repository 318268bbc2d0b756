import Ndns.RrCache

/-!
# The kept block of a response

`m_wire` of a response, under any sequence of the public operations.  Decoding
adds the RRs of a block to those that were there, so it may put fields and block
out of line, too.

**Results.**
* `coherent_step_iff`: the steps that keep the block in line with the fields;
* `current_iff`: what this means for the blocks and packets that are sent.
-/

namespace Ndns

/-- A packet holds a block of type `Content` as it is, and wraps another one. -/
theorem setContent_decodes_iff
    {φ : Type} {decodes : Tlv.Block → Option φ} {wire : Tlv.Block} {f : φ}
    (data : Data)
    (hwrapped : decodes ⟨tlv.Content, wire.encode⟩ = none) :
    decodes wire = some f ∧
        decodes (data.setContent wire).content = some f ↔
      (if wire.type = tlv.Content then decodes wire else none) = some f := by
  by_cases htype : wire.type = tlv.Content
  · simp [Data.setContent, htype]
  · simp [Data.setContent, htype, hwrapped]

/-- The values of `time::milliseconds`. -/
abbrev Milliseconds := { t : Int // -2 ^ 63 ≤ t ∧ t < 2 ^ 63 }

/-- A response encodes to what it holds if the block that it keeps is read as
that. -/
theorem exists_sent_iff
    {φ : Type} {decodes : Tlv.Block → Option φ} {wire : Tlv.Block} {f : φ}
    {encoded : Option Tlv.Block} {sent : Option Data} {data : Data}
    (hencoded : encoded = some wire)
    (hsent : sent = some (data.setContent wire))
    (hwrapped : decodes ⟨tlv.Content, wire.encode⟩ = none) :
    (∃ wire' data', encoded = some wire' ∧ sent = some data' ∧
        decodes wire' = some f ∧ decodes data'.content = some f) ↔
      (if wire.type = tlv.Content then decodes wire else none) =
        some f := by
  rw [← setContent_decodes_iff data hwrapped]
  constructor
  · rintro ⟨wire', data', hwire', hdata', hdecode⟩
    obtain rfl := Option.some.inj (hencoded.symm.trans hwire')
    obtain rfl := Option.some.inj (hsent.symm.trans hdata')
    exact hdecode
  · intro hdecode
    exact ⟨wire, _, hencoded, hsent, hdecode⟩

/-- A wrapped block is one element. -/
theorem not_parse_wrapped {wire : Tlv.Block} (h : wire.Fits) :
    ¬ ∃ b b' it, (⟨tlv.Content, wire.encode⟩ : Tlv.Block).parse =
      some (b :: b' :: it) := by
  rintro ⟨b, b', it, hparse⟩
  rw [Tlv.Block.parse_encode tlv.Content h] at hparse
  exact absurd (Option.some.inj hparse) (by simp)

namespace Response

/-- A response of the program. -/
structure Typed (r : Response) : Prop where
  id_lt : ∀ rr ∈ r.rrs, rr.id < 2 ^ 32
  freshness_ge : -2 ^ 63 ≤ r.freshness
  freshness_lt : r.freshness < 2 ^ 63

abbrev Object := { r : Response // r.Typed }

/-- The setters of `Response`, which a `ResponseUpdate` inherits. -/
inductive Setter where
  | setQueryType (queryType : Nat)
  | setFreshness (freshness : Milliseconds)
  | setQueryName (queryName : Name)
  | setResponseType (responseType : ResponseType)
  | addRr (rr : RR.Object)
  | setRrs (rrs : List RR.Object)
  | setRrZones (zone : Zone)

def Setter.run : Setter → Response → Response
  | .setQueryType queryType, r => { r with queryType := queryType }
  | .setFreshness freshness, r => { r with freshness := freshness.val }
  | .setQueryName queryName, r => { r with queryName := queryName }
  | .setResponseType responseType, r =>
      { r with responseType := responseType }
  | .addRr rr, r => r.addRr rr.val
  | .setRrs rrs, r => r.setRrs (rrs.map Subtype.val)
  | .setRrZones zone, r => r.setRrZones zone

inductive Op where
  | set (setter : Setter)
  | wireEncode
  | toData
  /-- With the fields that are left if decoding throws. -/
  | wireDecode (wire : Option Tlv.Block) (left : Object)
  | fromData (data : Data) (left : Object)

/-- A response behind an operation; `toData` calls `wireEncode`, and `fromData`
throws before it sets a field that is encoded if the name cannot be read. -/
def step (P : NameParser) : Op → Response → Response
  | .set setter, r => setter.run r
  | .wireEncode, r => { r with wire := r.wireEncode }
  | .toData, r => { r with wire := r.wireEncode }
  | .wireDecode none _, r => r
  | .wireDecode (some wire) left, r =>
      (r.wireDecode P wire).getD { left.val with wire := some wire }
  | .fromData data left, r =>
      match r.readName P data.name with
      | none =>
          { r with
            authorityZone := left.val.authorityZone
            forwardingHint := left.val.forwardingHint
            rrLabel := left.val.rrLabel
            rrType := left.val.rrType }
      | some _ =>
          (r.fromData P data).getD
            { left.val with wire := some data.content }

/-- What is on the wire. -/
abbrev Fields :=
  Name × ResponseType × Int × List (Nat × Bytes × Name × UpdateAction)

def fields (r : Response) : Fields :=
  (r.queryName, r.responseType, r.freshness, r.rrs.map RR.content)

/-- What a block is decoded to. -/
def decodes (P : NameParser) (wire : Tlv.Block) : Option Fields :=
  (init.wireDecode P wire).map fields

/-- A block of another type is wrapped by `toData`. -/
def view (P : NameParser) : Cache.View Response Fields Tlv.Block where
  cache := Response.wire
  fields := fields
  decode wire := if wire.type = tlv.Content then decodes P wire else none

/-- The setters that may be called while a block is kept. -/
def Setter.Allowed : Setter → Response → Prop
  | .setQueryType _, _ => True
  | .setFreshness freshness, r =>
      r.wire = none ∨ freshness.val = r.freshness
  | .setQueryName queryName, r => r.wire = none ∨ queryName = r.queryName
  | .setResponseType responseType, r =>
      r.wire = none ∨ responseType = r.responseType
  | .addRr _, r => r.wire = none
  | .setRrs rrs, r =>
      r.wire = none ∨
        (rrs.map Subtype.val).map RR.content = r.rrs.map RR.content
  | .setRrZones zone, r =>
      r.wire = none ∨
        ∀ rr ∈ r.rrs, zone.authorizedName = rr.zone.authorizedName

/-- The block can be decoded, and there are no RRs that it would be added to. -/
def Loads (P : NameParser) (wire : Tlv.Block) (r : Response) : Prop :=
  wire.type = tlv.Content ∧ (decodes P wire).isSome ∧ r.rrs = []

/-- The steps that keep the block in line with the fields. -/
def Allowed (P : NameParser) : Op → Response → Prop
  | .set setter, r => setter.Allowed r
  | .wireDecode (some wire) _, r => Loads P wire r
  | .fromData data _, r =>
      CutParses P matchQueryName data.name → Loads P data.content r
  | _, _ => True

/-- What is encoded and decoded is short enough for a buffer. -/
def Fits : Op → Response → Prop
  | .wireEncode, r => r.wire = none → r.toBlock.value.length < 2 ^ 64
  | .toData, r => r.wire = none → r.toBlock.value.length < 2 ^ 64
  | .wireDecode wire _, _ => ∀ b, wire = some b → b.Fits
  | .fromData data _, _ => data.content.Fits
  | _, _ => True

/-- What is encoded next decodes to the fields, also from a packet. -/
def Current (P : NameParser) (r : Response) : Prop :=
  (r.wire = none → r.toBlock.value.length < 2 ^ 64) →
    ∃ wire data, r.wireEncode = some wire ∧ r.toData = some data ∧
      decodes P wire = some r.fields ∧
      decodes P data.content = some r.fields

section Decoding

variable (P : NameParser)

/-- The RRs in a content blob. -/
def decodedRrs : Nat → List Tlv.Block → Option (List RR)
  | 0, _ => some []
  | n + 1, it => do
      let (b, it) ← Tlv.expect tlv.RRData it
      let rr ← RR.init.wireDecode P b
      let rrs ← decodedRrs n it
      return rr :: rrs

theorem decodeRrs_eq (r : Response) (n : Nat) (it : List Tlv.Block) :
    decodeRrs P r n it =
      (decodedRrs P n it).map (fun rrs =>
        { r with rrs := r.rrs ++
          rrs.map (fun rr => (rr.setLabel r.rrLabel).setType r.rrType) }) := by
  induction n generalizing r it with
  | zero =>
      simp [decodeRrs, decodedRrs]
  | succ n ih =>
      cases hexpect : Tlv.expect tlv.RRData it with
      | none =>
          simp [decodeRrs, decodedRrs, hexpect]
      | some bit =>
          cases hdecode : RR.init.wireDecode P bit.1 with
          | none =>
              simp [decodeRrs, decodedRrs, hexpect, hdecode]
          | some rr =>
              have hrest := ih
                (r.addRr ((rr.setLabel r.rrLabel).setType r.rrType)) bit.2
              simp only [decodeRrs, decodedRrs, hexpect, hdecode, hrest,
                Option.bind_eq_bind, Option.bind_some]
              cases decodedRrs P n bit.2 with
              | none =>
                  rfl
              | some rrs =>
                  simp [addRr]

/-- As many RRs as are declared, and each comes from a block. -/
theorem decodedRrs_eq_some
    {n : Nat} {it : List Tlv.Block} {rrs : List RR}
    (h : decodedRrs P n it = some rrs) :
    rrs.length = n ∧
      ∀ rr ∈ rrs, ∃ b, RR.init.wireDecode P b = some rr := by
  induction n generalizing it rrs with
  | zero =>
      obtain rfl := Option.some.inj h
      simp
  | succ n ih =>
      simp only [decodedRrs, Option.bind_eq_bind,
        Option.bind_eq_some_iff] at h
      obtain ⟨bit, -, rr, hdecode, rrs', hrest, h⟩ := h
      obtain rfl := Option.some.inj h
      obtain ⟨hlength, hall⟩ := ih hrest
      refine ⟨by rw [List.length_cons, hlength], ?_⟩
      intro x hx
      rcases List.mem_cons.mp hx with rfl | hx
      · exact ⟨bit.1, hdecode⟩
      · exact hall x hx

/-- The fields of a block, with the RRs without label and type. -/
def decoded (P : NameParser) (wire : Tlv.Block) :
    Option (Name × ResponseType × Int × List RR) := do
  let it ← wire.parse
  let (name, it) ← Tlv.expect tlv.Name it
  let queryName ← Name.ofBlock name
  let (type, it) ← Tlv.expect tlv.ResponseType it
  let (fresh, it) ← Tlv.expect tlv.ResponseFressness it
  let freshness ← Tlv.readNonNegativeInteger fresh.value
  let (blob, _) ← Tlv.expect tlv.ResponseContentBlob it
  let it2 ← blob.parse
  let (number, it2) ← Tlv.expect tlv.ResponseNumberOfRRData it2
  let rrlen ← Tlv.readNonNegativeInteger number.value
  let rrs ← decodedRrs P rrlen it2
  return (queryName, toResponseType type.value, milliseconds freshness, rrs)

/-- A response with the fields of a block, behind the RRs it had. -/
def load (r : Response) (wire : Tlv.Block)
    (d : Name × ResponseType × Int × List RR) : Response :=
  { r with
    wire := some wire
    queryName := d.1
    responseType := d.2.1
    freshness := d.2.2.1
    rrs := r.rrs ++ d.2.2.2.map (fun rr =>
      (rr.setLabel r.rrLabel).setType r.rrType) }

theorem wireDecode_eq (r : Response) (wire : Tlv.Block) :
    r.wireDecode P wire = (decoded P wire).map (r.load wire) := by
  unfold wireDecode decoded
  refine bind_eq_map_bind (fun it => ?_)
  refine bind_eq_map_bind (fun (name, it) => ?_)
  refine bind_eq_map_bind (fun queryName => ?_)
  refine bind_eq_map_bind (fun (type, it) => ?_)
  refine bind_eq_map_bind (fun (fresh, it) => ?_)
  refine bind_eq_map_bind (fun freshness => ?_)
  refine bind_eq_map_bind (fun (blob, _) => ?_)
  refine bind_eq_map_bind (fun it2 => ?_)
  refine bind_eq_map_bind (fun (number, it2) => ?_)
  refine bind_eq_map_bind (fun rrlen => ?_)
  rw [decodeRrs_eq]
  cases decodedRrs P rrlen it2 <;> rfl

/-- What a block that is decoded looks like, and the ranges of its numbers. -/
theorem decoded_eq_some
    {wire : Tlv.Block} {d : Name × ResponseType × Int × List RR}
    (h : decoded P wire = some d) :
    (∃ b b' it, wire.parse = some (b :: b' :: it)) ∧
      (-2 ^ 63 ≤ d.2.2.1 ∧ d.2.2.1 < 2 ^ 63) ∧
      ∀ rr ∈ d.2.2.2, rr.id < 2 ^ 32 := by
  obtain ⟨it, hparse, h⟩ := Option.bind_eq_some_iff.mp h
  obtain ⟨⟨name, it₁⟩, hname, h⟩ := Option.bind_eq_some_iff.mp h
  obtain ⟨queryName, -, h⟩ := Option.bind_eq_some_iff.mp h
  obtain ⟨⟨type, it₂⟩, htype, h⟩ := Option.bind_eq_some_iff.mp h
  obtain ⟨⟨fresh, it₃⟩, -, h⟩ := Option.bind_eq_some_iff.mp h
  obtain ⟨freshness, hfresh, h⟩ := Option.bind_eq_some_iff.mp h
  obtain ⟨⟨blob, _⟩, -, h⟩ := Option.bind_eq_some_iff.mp h
  obtain ⟨it₄, -, h⟩ := Option.bind_eq_some_iff.mp h
  obtain ⟨⟨number, it₅⟩, -, h⟩ := Option.bind_eq_some_iff.mp h
  obtain ⟨rrlen, -, h⟩ := Option.bind_eq_some_iff.mp h
  obtain ⟨rrs, hrrs, h⟩ := Option.bind_eq_some_iff.mp h
  obtain rfl := Option.some.inj h
  refine ⟨⟨name, type, it₂, ?_⟩,
    milliseconds_bounds (Tlv.readNonNegativeInteger_lt hfresh), ?_⟩
  · rw [hparse, Tlv.expect_eq_some hname, Tlv.expect_eq_some htype]
  · intro rr hrr
    obtain ⟨b, hdecode⟩ := (decodedRrs_eq_some P hrrs).2 rr hrr
    exact (RR.wire_of_wireDecode P hdecode).2

/-- The fields that a block stands for. -/
def decodedFields (d : Name × ResponseType × Int × List RR) : Fields :=
  (d.1, d.2.1, d.2.2.1, d.2.2.2.map RR.content)

theorem map_content_labelled
    (label : Name) (type : RRType) (rrs : List RR) :
    (rrs.map (fun rr => (rr.setLabel label).setType type)).map RR.content =
      rrs.map RR.content := by
  rw [List.map_map]
  rfl

theorem decodes_eq (wire : Tlv.Block) :
    decodes P wire = (decoded P wire).map decodedFields := by
  rw [decodes, wireDecode_eq, Option.map_map]
  congr 1
  funext d
  simp only [Function.comp_apply, fields, load, init, List.nil_append,
    map_content_labelled]
  rfl

theorem load_fields
    (r : Response) (wire : Tlv.Block)
    (d : Name × ResponseType × Int × List RR) :
    (r.load wire d).fields = decodedFields d ↔ r.rrs = [] := by
  have hrrs : (r.load wire d).rrs.map RR.content =
      r.rrs.map RR.content ++ d.2.2.2.map RR.content := by
    simp only [load, List.map_append, map_content_labelled]
  unfold fields decodedFields
  rw [hrrs]
  simp [load]

/-- The types of C++ keep numbers in their ranges. -/
theorem load_typed
    {r : Response} {wire : Tlv.Block}
    {d : Name × ResponseType × Int × List RR}
    (hid : ∀ rr ∈ r.rrs, rr.id < 2 ^ 32) (h : decoded P wire = some d) :
    (r.load wire d).Typed := by
  obtain ⟨-, hbounds, hrrs⟩ := decoded_eq_some P h
  refine ⟨?_, hbounds.1, hbounds.2⟩
  intro rr hrr
  rcases List.mem_append.mp hrr with hrr | hrr
  · exact hid rr hrr
  · obtain ⟨rr', hrr', rfl⟩ := List.mem_map.mp hrr
    exact hrrs rr' hrr'

end Decoding

section Steps

variable (P : NameParser) {r : Response}

/-- What the types guarantee of an object, and that its block is one. -/
structure Sound (r : Response) : Prop extends r.Typed where
  fits : ∀ wire, r.wire = some wire → wire.Fits

theorem toBlock_fits (h : r.toBlock.value.length < 2 ^ 64) :
    r.toBlock.Fits :=
  ⟨by simp [toBlock, tlv.Content], h⟩

theorem decodes_toBlock
    (hr : r.Typed) (hfits : r.toBlock.value.length < 2 ^ 64) :
    decodes P r.toBlock = some r.fields := by
  rw [decodes, wireDecode_toBlock P r init hr.id_lt hr.freshness_ge
    hr.freshness_lt hfits, Option.map_some]
  simp only [fields, init, List.nil_append, map_content_received]

/-- A wrapped block has the wrong elements. -/
theorem decodes_wrapped {wire : Tlv.Block} (h : wire.Fits) :
    decodes P ⟨tlv.Content, wire.encode⟩ = none := by
  rw [decodes_eq, Option.map_eq_none_iff, Option.eq_none_iff_forall_ne_some]
  intro d hdecoded
  exact not_parse_wrapped h (decoded_eq_some P hdecoded).1

theorem fromData_eq
    {r₁ : Response} {data : Data} (hread : r.readName P data.name = some r₁) :
    r.fromData P data =
      (decoded P data.content).map
        (Response.load
          { r₁ with
            queryName := data.name
            freshness := data.freshnessPeriod
            queryType := data.contentType } data.content) := by
  rw [fromData, hread]
  exact wireDecode_eq P _ _

/-- A block that is decoded, or that decoding throws on, becomes the kept
block. -/
theorem coherent_decode_iff
    {r₀ : Response} (left : Response) (wire : Tlv.Block)
    (hrrs : r₀.rrs = r.rrs) :
    Cache.Coherent (view P) (((decoded P wire).map (r₀.load wire)).getD
        { left with wire := some wire }) ↔ Loads P wire r := by
  have hdecodes := decodes_eq P wire
  have hview : ∀ d, decoded P wire = some d →
      ((view P).decode wire = some ((view P).fields (r₀.load wire d)) ↔
        wire.type = tlv.Content ∧ r.rrs = []) := by
    intro d hdecoded
    rw [← hrrs, ← load_fields r₀ wire d]
    by_cases htype : wire.type = tlv.Content
    · simp [view, hdecodes, hdecoded, htype, eq_comm]
    · simp [view, htype]
  refine (Cache.coherent_decode_iff (fun _ => rfl) rfl ?_).trans ?_
  · intro hnone
    simp [view, hdecodes, hnone]
  · constructor
    · rintro ⟨d, hdecoded, hfields⟩
      obtain ⟨htype, hempty⟩ := (hview d hdecoded).mp hfields
      exact ⟨htype, by simp [hdecodes, hdecoded], hempty⟩
    · rintro ⟨htype, hsome, hempty⟩
      rw [hdecodes, Option.isSome_map] at hsome
      obtain ⟨d, hdecoded⟩ := Option.isSome_iff_exists.mp hsome
      exact ⟨d, hdecoded, (hview d hdecoded).mpr ⟨htype, hempty⟩⟩

theorem map_content_setZone (zone : Zone) (rrs : List RR) :
    (rrs.map (fun rr => rr.setZone zone)).map RR.content =
        rrs.map RR.content ↔
      ∀ rr ∈ rrs, zone.authorizedName = rr.zone.authorizedName := by
  simp [RR.content, RR.setZone, RR.zone]

/-- The setters that keep the block in line with the fields. -/
theorem coherent_run_iff
    (setter : Setter) (h : Cache.Coherent (view P) r) :
    Cache.Coherent (view P) (setter.run r) ↔ setter.Allowed r := by
  cases setter with
  | setQueryType queryType =>
      exact iff_of_true ((Cache.coherent_congr rfl rfl).mpr h) trivial
  | setFreshness freshness =>
      refine h.set_iff rfl ?_
      simp only [view, fields, Setter.run, Prod.mk.injEq, true_and, and_true]
  | setQueryName queryName =>
      refine h.set_iff rfl ?_
      simp only [view, fields, Setter.run, Prod.mk.injEq, and_true]
  | setResponseType responseType =>
      refine h.set_iff rfl ?_
      simp only [view, fields, Setter.run, Prod.mk.injEq, true_and, and_true]
  | addRr rr =>
      have hgrows : (r.addRr rr.val).fields = r.fields ↔ False := by
        simp only [fields, Response.addRr, Prod.mk.injEq, true_and,
          List.map_append, List.map_cons, List.append_right_eq_self,
          List.cons_ne_nil]
      have hkeeps : (view P).cache (r.addRr rr.val) = r.wire := rfl
      exact (h.set_iff hkeeps hgrows).trans (or_iff_left not_false)
  | setRrs rrs =>
      refine h.set_iff rfl ?_
      simp only [view, fields, Setter.run, Response.setRrs, Prod.mk.injEq, true_and]
  | setRrZones zone =>
      refine h.set_iff rfl ?_
      rw [← map_content_setZone]
      simp only [view, fields, Setter.run, Response.setRrZones, Prod.mk.injEq,
        true_and]

theorem coherent_wireEncode
    (hr : r.Typed) (hfits : r.wire = none → r.toBlock.value.length < 2 ^ 64)
    (h : Cache.Coherent (view P) r) :
    Cache.Coherent (view P) { r with wire := r.wireEncode } := by
  refine h.encode (b := r.toBlock) rfl ?_ ?_
  · intro hwire
    have htype : r.toBlock.type = tlv.Content := rfl
    refine ⟨wireEncode_eq hwire (hfits hwire), ?_⟩
    simp only [view, htype, if_true]
    exact decodes_toBlock P hr (hfits hwire)
  · intro wire hwire
    simp only [view] at hwire
    simp [view, wireEncode, hwire]

/-- The steps that keep the block in line with the fields. -/
theorem coherent_step_iff
    (op : Op) (hr : r.Typed) (hfits : Fits op r)
    (h : Cache.Coherent (view P) r) :
    Cache.Coherent (view P) (step P op r) ↔ Allowed P op r := by
  cases op with
  | set setter =>
      exact coherent_run_iff P setter h
  | wireEncode =>
      exact iff_of_true (coherent_wireEncode P hr hfits h) trivial
  | toData =>
      exact iff_of_true (coherent_wireEncode P hr hfits h) trivial
  | wireDecode wire left =>
      cases wire with
      | none =>
          exact iff_of_true h trivial
      | some wire =>
          simp only [step, wireDecode_eq]
          exact coherent_decode_iff P left.val wire rfl
  | fromData data left =>
      have hcut := readName_isSome_iff P r data.name
      cases hread : r.readName P data.name with
      | none =>
          -- nothing that is encoded has been set yet
          simp only [step, hread]
          rw [hread] at hcut
          refine iff_of_true ((Cache.coherent_congr rfl rfl).mpr h) ?_
          intro hparses
          exact absurd (hcut.mpr hparses) (by simp)
      | some r₁ =>
          simp only [step, hread, fromData_eq P hread]
          rw [hread] at hcut
          have hrrs : r₁.rrs = r.rrs := readName_rrs hread
          refine Iff.trans (coherent_decode_iff P left.val data.content
            (by simpa using hrrs)) ?_
          exact ⟨fun hloads _ => hloads, fun hloads => hloads (hcut.mp rfl)⟩

theorem run_typed (setter : Setter) (hr : r.Typed) :
    (setter.run r).Typed := by
  cases setter with
  | setQueryType queryType =>
      exact ⟨hr.id_lt, hr.freshness_ge, hr.freshness_lt⟩
  | setFreshness freshness =>
      exact ⟨hr.id_lt, freshness.property.1, freshness.property.2⟩
  | setQueryName queryName =>
      exact ⟨hr.id_lt, hr.freshness_ge, hr.freshness_lt⟩
  | setResponseType responseType =>
      exact ⟨hr.id_lt, hr.freshness_ge, hr.freshness_lt⟩
  | addRr rr =>
      refine ⟨?_, hr.freshness_ge, hr.freshness_lt⟩
      intro x hx
      rcases List.mem_append.mp hx with hx | hx
      · exact hr.id_lt x hx
      · obtain rfl := List.mem_singleton.mp hx
        exact rr.property
  | setRrs rrs =>
      refine ⟨?_, hr.freshness_ge, hr.freshness_lt⟩
      intro x hx
      obtain ⟨rr, -, rfl⟩ := List.mem_map.mp hx
      exact rr.property
  | setRrZones zone =>
      refine ⟨?_, hr.freshness_ge, hr.freshness_lt⟩
      intro x hx
      obtain ⟨rr, hrr, rfl⟩ := List.mem_map.mp hx
      exact hr.id_lt rr hrr

theorem run_wire (setter : Setter) (r : Response) :
    (setter.run r).wire = r.wire := by
  cases setter <;> rfl

theorem sound_decode
    {r₀ : Response} (left : Object) {wire : Tlv.Block} (hfits : wire.Fits)
    (hid : ∀ rr ∈ r₀.rrs, rr.id < 2 ^ 32) :
    Sound (((decoded P wire).map (r₀.load wire)).getD
      { left.val with wire := some wire }) := by
  cases hdecoded : decoded P wire with
  | none =>
      refine ⟨⟨left.property.id_lt, left.property.freshness_ge,
        left.property.freshness_lt⟩, ?_⟩
      rintro b ⟨⟩
      exact hfits
  | some d =>
      refine ⟨load_typed P hid hdecoded, ?_⟩
      rintro b ⟨⟩
      exact hfits

theorem sound_wireEncode
    (hr : Sound r) (hfits : r.wire = none →
      r.toBlock.value.length < 2 ^ 64) :
    Sound { r with wire := r.wireEncode } := by
  refine ⟨⟨hr.id_lt, hr.freshness_ge, hr.freshness_lt⟩, ?_⟩
  intro b hb
  cases hwire : r.wire with
  | none =>
      obtain rfl := Option.some.inj
        ((wireEncode_eq hwire (hfits hwire)).symm.trans hb)
      exact toBlock_fits (hfits hwire)
  | some wire =>
      refine hr.fits b ?_
      simpa [wireEncode, hwire] using hb

theorem sound_step (op : Op) (hr : Sound r) (hfits : Fits op r) :
    Sound (step P op r) := by
  cases op with
  | set setter =>
      refine ⟨run_typed setter hr.toTyped, ?_⟩
      intro b hb
      exact hr.fits b ((run_wire setter r).symm.trans hb)
  | wireEncode =>
      exact sound_wireEncode hr hfits
  | toData =>
      exact sound_wireEncode hr hfits
  | wireDecode wire left =>
      cases wire with
      | none =>
          exact hr
      | some wire =>
          simp only [step, wireDecode_eq]
          exact sound_decode P left (hfits wire rfl) hr.id_lt
  | fromData data left =>
      cases hread : r.readName P data.name with
      | none =>
          simp only [step, hread]
          exact ⟨⟨hr.id_lt, hr.freshness_ge, hr.freshness_lt⟩, hr.fits⟩
      | some r₁ =>
          simp only [step, hread, fromData_eq P hread]
          refine sound_decode P left hfits ?_
          intro rr hrr
          exact hr.id_lt rr (readName_rrs hread ▸ hrr)

theorem toData_of_wireEncode
    {wire : Tlv.Block} (h : r.wireEncode = some wire) :
    r.toData = some (Data.setContent {
      name := r.queryName
      contentType := r.queryType
      freshnessPeriod := r.freshness
      content := Data.init.content } wire) := by
  rw [toData, h]
  rfl

/-- An object encodes to what it holds exactly when its block is in line. -/
theorem current_iff (hr : Sound r) :
    Current P r ↔ Cache.Coherent (view P) r := by
  cases hwire : r.wire with
  | none =>
      refine iff_of_true ?_ (Cache.coherent_of_empty hwire)
      intro hfits
      have hlength := hfits hwire
      exact ⟨_, _, wireEncode_eq hwire hlength, toData_eq hwire hlength,
        decodes_toBlock P hr.toTyped hlength,
        decodes_toBlock P hr.toTyped hlength⟩
  | some wire =>
      have hload : (view P).cache r = some wire := hwire
      have hencode : r.wireEncode = some wire := by
        simp [wireEncode, hwire]
      have hwrapped := decodes_wrapped P (hr.fits wire hwire)
      rw [Cache.coherent_iff_of_load hload, Current, forall_prop_of_true
        (fun hnone => absurd (hwire.symm.trans hnone) (by simp))]
      exact exists_sent_iff hencode (toData_of_wireEncode hencode) hwrapped

theorem throughout_current_iff
    {ops : List Op} (hfits : Machine.Along (step P) Fits ops init) :
    Machine.Throughout (step P) (Current P) ops init ↔
      Machine.Along (step P) (Allowed P) ops init := by
  have hinit : Sound init := by
    refine ⟨⟨by simp [init], by decide, by decide⟩, ?_⟩
    intro wire hwire
    exact absurd hwire (by simp [init])
  refine Machine.throughout_iff_along (fun op r => sound_step P op) ?_ hfits
    hinit ((current_iff P hinit).mpr (Cache.coherent_of_empty rfl))
  intro op r hr hop hcurrent
  rw [current_iff P (sound_step P op hr hop)]
  exact coherent_step_iff P op hr.toTyped hop ((current_iff P hr).mp hcurrent)

end Steps

end Response

end Ndns

import Ndns.ResponseCache

/-!
# The kept block of a response to an update

`m_wire` of a `ResponseUpdate`, and the runs of all three classes that keep a
block.

**Results.**
* `coherent_step_iff`: the steps that keep the block in line with the fields;
* `current_throughout_iff`: the runs of which all states encode to what they
  hold.
-/

namespace Ndns

namespace ResponseUpdate

abbrev Object := { r : ResponseUpdate // r.toResponse.Typed }

inductive Op where
  | set (setter : Response.Setter)
  | setResult (result : Bytes)
  | wireEncode
  | toData
  /-- With the fields that are left if decoding throws. -/
  | wireDecode (wire : Option Tlv.Block) (left : Object)
  | fromData (data : Data) (left : Object)

/-- A response behind an operation. -/
def step (P : NameParser) : Op → ResponseUpdate → ResponseUpdate
  | .set setter, r => { r with toResponse := setter.run r.toResponse }
  | .setResult result, r => r.setResult result
  | .wireEncode, r => { r with wire := r.wireEncode }
  | .toData, r => { r with wire := r.wireEncode }
  | .wireDecode none _, r => r
  | .wireDecode (some wire) left, r =>
      (r.wireDecode wire).getD { left.val with wire := some wire }
  | .fromData data left, r =>
      match r.readName P data.name with
      | none =>
          { r with
            authorityZone := left.val.authorityZone
            forwardingHint := left.val.forwardingHint
            rrLabel := left.val.rrLabel
            rrType := left.val.rrType }
      | some _ =>
          (r.fromData P data).getD
            { left.val with wire := some data.content }

/-- What is on the wire. -/
abbrev Fields := Name × ResponseType × Int × Bytes

def fields (r : ResponseUpdate) : Fields :=
  (r.queryName, r.responseType, r.freshness, r.result)

/-- What a block is decoded to. -/
def decodes (wire : Tlv.Block) : Option Fields :=
  (init.wireDecode wire).map fields

/-- A block of another type is wrapped by `toData`. -/
def view : Cache.View ResponseUpdate Fields Tlv.Block where
  cache r := r.wire
  fields := fields
  decode wire := if wire.type = tlv.Content then decodes wire else none

/-- The block can be decoded. -/
def Loads (wire : Tlv.Block) : Prop :=
  wire.type = tlv.Content ∧ (decodes wire).isSome

/-- The steps that keep the block in line with the fields; RRs are not
encoded. -/
def Allowed (P : NameParser) : Op → ResponseUpdate → Prop
  | .set (.setFreshness freshness), r =>
      r.wire = none ∨ freshness.val = r.freshness
  | .set (.setQueryName queryName), r =>
      r.wire = none ∨ queryName = r.queryName
  | .set (.setResponseType responseType), r =>
      r.wire = none ∨ responseType = r.responseType
  | .setResult result, r => r.wire = none ∨ result = r.result
  | .wireDecode (some wire) _, _ => Loads wire
  | .fromData data _, _ =>
      CutParses P matchUpdateName data.name → Loads data.content
  | _, _ => True

/-- What is encoded and decoded is short enough for a buffer. -/
def Fits : Op → ResponseUpdate → Prop
  | .wireEncode, r => r.wire = none → r.toBlock.value.length < 2 ^ 64
  | .toData, r => r.wire = none → r.toBlock.value.length < 2 ^ 64
  | .wireDecode wire _, _ => ∀ b, wire = some b → b.Fits
  | .fromData data _, _ => data.content.Fits
  | _, _ => True

/-- What is encoded next decodes to the fields, also from a packet. -/
def Current (r : ResponseUpdate) : Prop :=
  (r.wire = none → r.toBlock.value.length < 2 ^ 64) →
    ∃ wire data, r.wireEncode = some wire ∧ r.toData = some data ∧
      decodes wire = some r.fields ∧
      decodes data.content = some r.fields

section Decoding

/-- The fields of a block. -/
def decoded (wire : Tlv.Block) : Option Fields := do
  let it ← wire.parse
  let (name, it) ← Tlv.expect tlv.Name it
  let queryName ← Name.ofBlock name
  let (type, it) ← Tlv.expect tlv.ResponseType it
  let (fresh, it) ← Tlv.expect tlv.ResponseFressness it
  let freshness ← Tlv.readNonNegativeInteger fresh.value
  let (blob, _) ← Tlv.expect tlv.ResponseContentBlob it
  let it2 ← blob.parse
  let (result, _) ← Tlv.expect tlv.UpdateResult it2
  return (queryName, toResponseType type.value, milliseconds freshness,
    result.value)

/-- A response with the fields of a block. -/
def load (r : ResponseUpdate) (wire : Tlv.Block) (d : Fields) :
    ResponseUpdate :=
  { r with
    wire := some wire
    queryName := d.1
    responseType := d.2.1
    freshness := d.2.2.1
    result := d.2.2.2 }

theorem wireDecode_eq (r : ResponseUpdate) (wire : Tlv.Block) :
    r.wireDecode wire = (decoded wire).map (r.load wire) := by
  unfold wireDecode decoded
  refine bind_eq_map_bind (fun it => ?_)
  refine bind_eq_map_bind (fun (name, it) => ?_)
  refine bind_eq_map_bind (fun queryName => ?_)
  refine bind_eq_map_bind (fun (type, it) => ?_)
  refine bind_eq_map_bind (fun (fresh, it) => ?_)
  refine bind_eq_map_bind (fun freshness => ?_)
  refine bind_eq_map_bind (fun (blob, _) => ?_)
  refine bind_eq_map_bind (fun it2 => ?_)
  exact bind_eq_map_bind (fun (result, _) => rfl)

theorem decodes_eq (wire : Tlv.Block) : decodes wire = decoded wire := by
  rw [decodes, wireDecode_eq, Option.map_map]
  exact Option.map_id_fun' ▸ rfl

/-- What a block that is decoded looks like, and the range of its freshness. -/
theorem decoded_eq_some
    {wire : Tlv.Block} {d : Fields} (h : decoded wire = some d) :
    (∃ b b' it, wire.parse = some (b :: b' :: it)) ∧
      -2 ^ 63 ≤ d.2.2.1 ∧ d.2.2.1 < 2 ^ 63 := by
  obtain ⟨it, hparse, h⟩ := Option.bind_eq_some_iff.mp h
  obtain ⟨⟨name, it₁⟩, hname, h⟩ := Option.bind_eq_some_iff.mp h
  obtain ⟨queryName, -, h⟩ := Option.bind_eq_some_iff.mp h
  obtain ⟨⟨type, it₂⟩, htype, h⟩ := Option.bind_eq_some_iff.mp h
  obtain ⟨⟨fresh, it₃⟩, -, h⟩ := Option.bind_eq_some_iff.mp h
  obtain ⟨freshness, hfresh, h⟩ := Option.bind_eq_some_iff.mp h
  obtain ⟨⟨blob, _⟩, -, h⟩ := Option.bind_eq_some_iff.mp h
  obtain ⟨it₄, -, h⟩ := Option.bind_eq_some_iff.mp h
  obtain ⟨⟨result, _⟩, -, h⟩ := Option.bind_eq_some_iff.mp h
  obtain rfl := Option.some.inj h
  refine ⟨⟨name, type, it₂, ?_⟩,
    milliseconds_bounds (Tlv.readNonNegativeInteger_lt hfresh)⟩
  rw [hparse, Tlv.expect_eq_some hname, Tlv.expect_eq_some htype]

theorem load_typed
    {r : ResponseUpdate} {wire : Tlv.Block} {d : Fields}
    (hid : ∀ rr ∈ r.rrs, rr.id < 2 ^ 32) (h : decoded wire = some d) :
    (r.load wire d).toResponse.Typed := by
  obtain ⟨-, hlo, hhi⟩ := decoded_eq_some h
  exact ⟨hid, hlo, hhi⟩

end Decoding

section Steps

variable (P : NameParser) {r : ResponseUpdate}

/-- What the types guarantee of an object, and that its block is one. -/
structure Sound (r : ResponseUpdate) : Prop where
  typed : r.toResponse.Typed
  fits : ∀ wire, r.wire = some wire → wire.Fits

theorem toBlock_fits (h : r.toBlock.value.length < 2 ^ 64) :
    r.toBlock.Fits :=
  ⟨by simp [toBlock, tlv.Content], h⟩

theorem decodes_toBlock
    (hr : r.toResponse.Typed) (hfits : r.toBlock.value.length < 2 ^ 64) :
    decodes r.toBlock = some r.fields := by
  rw [decodes, wireDecode_toBlock r init hr.freshness_ge hr.freshness_lt
    hfits]
  rfl

/-- A wrapped block has the wrong elements. -/
theorem decodes_wrapped {wire : Tlv.Block} (h : wire.Fits) :
    decodes ⟨tlv.Content, wire.encode⟩ = none := by
  rw [decodes_eq, Option.eq_none_iff_forall_ne_some]
  intro d hdecoded
  exact not_parse_wrapped h (decoded_eq_some hdecoded).1

theorem fromData_eq
    {r₁ : ResponseUpdate} {data : Data}
    (hread : r.readName P data.name = some r₁) :
    r.fromData P data =
      (decoded data.content).map
        (ResponseUpdate.load
          { r₁ with
            queryName := data.name
            freshness := data.freshnessPeriod
            queryType := data.contentType } data.content) := by
  rw [fromData, hread]
  exact wireDecode_eq _ _

/-- A block that is decoded, or that decoding throws on, becomes the kept
block. -/
theorem coherent_decode_iff
    {r₀ : ResponseUpdate} (left : ResponseUpdate) (wire : Tlv.Block) :
    Cache.Coherent view (((decoded wire).map (r₀.load wire)).getD
        { left with wire := some wire }) ↔ Loads wire := by
  have hdecodes := decodes_eq wire
  refine (Cache.coherent_decode_iff (fun _ => rfl) rfl ?_).trans ?_
  · intro hnone
    simp [view, hdecodes, hnone]
  · have hfields : ∀ d, (r₀.load wire d).fields = d := fun _ => rfl
    unfold Loads
    by_cases htype : wire.type = tlv.Content
    · simp [view, hdecodes, htype, hfields, Option.isSome_iff_exists]
    · simp [view, htype]

/-- The setters that keep the block in line with the fields. -/
theorem coherent_run_iff
    (setter : Response.Setter) (h : Cache.Coherent view r) :
    Cache.Coherent view (step P (.set setter) r) ↔
      Allowed P (.set setter) r := by
  cases setter with
  | setFreshness freshness =>
      refine h.set_iff rfl ?_
      simp only [view, fields, step, Response.Setter.run, Prod.mk.injEq, true_and,
        and_true]
  | setQueryName queryName =>
      refine h.set_iff rfl ?_
      simp only [view, fields, step, Response.Setter.run, Prod.mk.injEq, and_true]
  | setResponseType responseType =>
      refine h.set_iff rfl ?_
      simp only [view, fields, step, Response.Setter.run, Prod.mk.injEq, true_and,
        and_true]
  | _ =>
      exact iff_of_true ((Cache.coherent_congr rfl rfl).mpr h) trivial

theorem coherent_wireEncode
    (hr : r.toResponse.Typed)
    (hfits : r.wire = none → r.toBlock.value.length < 2 ^ 64)
    (h : Cache.Coherent view r) :
    Cache.Coherent view { r with wire := r.wireEncode } := by
  refine h.encode (b := r.toBlock) rfl ?_ ?_
  · intro hwire
    have htype : r.toBlock.type = tlv.Content := rfl
    refine ⟨wireEncode_eq hwire (hfits hwire), ?_⟩
    simp only [view, htype, if_true]
    exact decodes_toBlock hr (hfits hwire)
  · intro wire hwire
    simp only [view] at hwire
    simp [view, wireEncode, hwire]

/-- The steps that keep the block in line with the fields. -/
theorem coherent_step_iff
    (op : Op) (hr : r.toResponse.Typed) (hfits : Fits op r)
    (h : Cache.Coherent view r) :
    Cache.Coherent view (step P op r) ↔ Allowed P op r := by
  cases op with
  | set setter =>
      exact coherent_run_iff P setter h
  | setResult result =>
      refine h.set_iff rfl ?_
      simp only [view, fields, step, ResponseUpdate.setResult, Prod.mk.injEq,
        true_and]
  | wireEncode =>
      exact iff_of_true (coherent_wireEncode hr hfits h) trivial
  | toData =>
      exact iff_of_true (coherent_wireEncode hr hfits h) trivial
  | wireDecode wire left =>
      cases wire with
      | none =>
          exact iff_of_true h trivial
      | some wire =>
          simp only [step, wireDecode_eq]
          exact coherent_decode_iff left.val wire
  | fromData data left =>
      have hcut := readName_isSome_iff P r data.name
      cases hread : r.readName P data.name with
      | none =>
          simp only [step, hread]
          rw [hread] at hcut
          refine iff_of_true ((Cache.coherent_congr rfl rfl).mpr h) ?_
          intro hparses
          exact absurd (hcut.mpr hparses) (by simp)
      | some r₁ =>
          simp only [step, hread, fromData_eq P hread]
          rw [hread] at hcut
          refine Iff.trans (coherent_decode_iff left.val data.content) ?_
          exact ⟨fun hloads _ => hloads, fun hloads => hloads (hcut.mp rfl)⟩

theorem sound_decode
    {r₀ : ResponseUpdate} (left : Object) {wire : Tlv.Block}
    (hfits : wire.Fits) (hid : ∀ rr ∈ r₀.rrs, rr.id < 2 ^ 32) :
    Sound (((decoded wire).map (r₀.load wire)).getD
      { left.val with wire := some wire }) := by
  cases hdecoded : decoded wire with
  | none =>
      refine ⟨⟨left.property.id_lt, left.property.freshness_ge,
        left.property.freshness_lt⟩, ?_⟩
      rintro b ⟨⟩
      exact hfits
  | some d =>
      refine ⟨load_typed hid hdecoded, ?_⟩
      rintro b ⟨⟩
      exact hfits

theorem sound_wireEncode
    (hr : Sound r) (hfits : r.wire = none →
      r.toBlock.value.length < 2 ^ 64) :
    Sound { r with wire := r.wireEncode } := by
  refine ⟨⟨hr.typed.id_lt, hr.typed.freshness_ge, hr.typed.freshness_lt⟩, ?_⟩
  intro b hb
  cases hwire : r.wire with
  | none =>
      obtain rfl := Option.some.inj
        ((wireEncode_eq hwire (hfits hwire)).symm.trans hb)
      exact toBlock_fits (hfits hwire)
  | some wire =>
      refine hr.fits b ?_
      simpa [wireEncode, hwire] using hb

theorem sound_step (op : Op) (hr : Sound r) (hfits : Fits op r) :
    Sound (step P op r) := by
  cases op with
  | set setter =>
      refine ⟨Response.run_typed setter hr.typed, ?_⟩
      intro b hb
      exact hr.fits b
        ((Response.run_wire setter r.toResponse).symm.trans hb)
  | setResult result =>
      exact ⟨hr.typed, hr.fits⟩
  | wireEncode =>
      exact sound_wireEncode hr hfits
  | toData =>
      exact sound_wireEncode hr hfits
  | wireDecode wire left =>
      cases wire with
      | none =>
          exact hr
      | some wire =>
          simp only [step, wireDecode_eq]
          exact sound_decode left (hfits wire rfl) hr.typed.id_lt
  | fromData data left =>
      cases hread : r.readName P data.name with
      | none =>
          simp only [step, hread]
          exact ⟨⟨hr.typed.id_lt, hr.typed.freshness_ge,
            hr.typed.freshness_lt⟩, hr.fits⟩
      | some r₁ =>
          simp only [step, hread, fromData_eq P hread]
          refine sound_decode left hfits ?_
          intro rr hrr
          exact hr.typed.id_lt rr (readName_rrs hread ▸ hrr)

theorem toData_of_wireEncode
    {wire : Tlv.Block} (h : r.wireEncode = some wire) :
    r.toData = some (Data.setContent {
      name := r.queryName
      contentType := r.queryType
      freshnessPeriod := r.freshness
      content := Data.init.content } wire) := by
  rw [toData, h]
  rfl

/-- An object encodes to what it holds exactly when its block is in line. -/
theorem current_iff (hr : Sound r) :
    Current r ↔ Cache.Coherent view r := by
  cases hwire : r.wire with
  | none =>
      refine iff_of_true ?_ (Cache.coherent_of_empty hwire)
      intro hfits
      have hlength := hfits hwire
      exact ⟨_, _, wireEncode_eq hwire hlength, toData_eq hwire hlength,
        decodes_toBlock hr.typed hlength, decodes_toBlock hr.typed hlength⟩
  | some wire =>
      have hload : view.cache r = some wire := hwire
      have hencode : r.wireEncode = some wire := by
        simp [wireEncode, hwire]
      have hwrapped := decodes_wrapped (hr.fits wire hwire)
      rw [Cache.coherent_iff_of_load hload, Current, forall_prop_of_true
        (fun hnone => absurd (hwire.symm.trans hnone) (by simp))]
      exact exists_sent_iff hencode (toData_of_wireEncode hencode) hwrapped

theorem throughout_current_iff
    {ops : List Op} (hfits : Machine.Along (step P) Fits ops init) :
    Machine.Throughout (step P) Current ops init ↔
      Machine.Along (step P) (Allowed P) ops init := by
  have hinit : Sound init := by
    refine ⟨⟨by simp [init, Response.init], by decide, by decide⟩, ?_⟩
    intro wire hwire
    exact absurd hwire (by simp [init, Response.init])
  refine Machine.throughout_iff_along (fun op r => sound_step P op) ?_ hfits
    hinit ((current_iff hinit).mpr (Cache.coherent_of_empty rfl))
  intro op r hr hop hcurrent
  rw [current_iff (sound_step P op hr hop)]
  exact coherent_step_iff P op hr.typed hop ((current_iff hr).mp hcurrent)

end Steps

end ResponseUpdate

section Runs

/-- The objects that encode in every state to what they hold are those of which
no encoded field is changed while a block is kept, and that are decoded into
while they have no RRs. -/
theorem current_throughout_iff (P : NameParser) :
    (∀ rrset ops,
      Machine.Along (RR.step P) RR.Fits ops (RR.ofRRSet rrset) →
      (Machine.Throughout (RR.step P) (RR.Current P) ops
          (RR.ofRRSet rrset) ↔
        Machine.Along (RR.step P) (RR.Allowed P) ops
          (RR.ofRRSet rrset))) ∧
    (∀ ops,
      Machine.Along (Response.step P) Response.Fits ops Response.init →
      (Machine.Throughout (Response.step P) (Response.Current P) ops
          Response.init ↔
        Machine.Along (Response.step P) (Response.Allowed P) ops
          Response.init)) ∧
    (∀ ops,
      Machine.Along (ResponseUpdate.step P) ResponseUpdate.Fits ops
        ResponseUpdate.init →
      (Machine.Throughout (ResponseUpdate.step P) ResponseUpdate.Current ops
          ResponseUpdate.init ↔
        Machine.Along (ResponseUpdate.step P) (ResponseUpdate.Allowed P) ops
          ResponseUpdate.init)) :=
  ⟨fun rrset _ hfits => RR.throughout_current_iff P rrset hfits,
    fun _ hfits => Response.throughout_current_iff P hfits,
    fun _ hfits => ResponseUpdate.throughout_current_iff P hfits⟩

/-- Encoding, and a setter before and behind. -/
def rrRun (rrData : Bytes) : List RR.Op :=
  [.setRrData (ascii "/isp"), .wireEncode, .setRrData rrData, .wireEncode]

def responseRun (queryName : Name) : List Response.Op :=
  [.set (.setQueryName hostName), .set (.addRr ⟨RR.init, by decide⟩), .toData,
    .set (.setQueryName queryName), .wireEncode]

def updateRun (result : Bytes) : List ResponseUpdate.Op :=
  [.setResult (ascii "OK"), .wireEncode, .setResult result, .toData]

/-- The blocks that the runs keep behind the first encoding. -/
theorem runs_encoded :
    RR.wireEncodeBlock { RR.init with rrData := ascii "/isp" } ≠ none ∧
      Response.wireEncode { Response.init with
        queryName := hostName
        rrs := [RR.init] } ≠ none ∧
      ResponseUpdate.wireEncode
        { ResponseUpdate.init with result := ascii "OK" } ≠ none := by
  decide +kernel

theorem fits_rrRun (rrData : Bytes) :
    Machine.Along (RR.step uriParser) RR.Fits (rrRun rrData) RR.init := by
  refine ⟨trivial, fun _ => by decide +kernel, trivial, fun hnone => ?_,
    trivial⟩
  exact absurd hnone runs_encoded.1

theorem fits_responseRun (queryName : Name) :
    Machine.Along (Response.step uriParser) Response.Fits
      (responseRun queryName) Response.init := by
  refine ⟨trivial, trivial, fun _ => by decide +kernel, trivial,
    fun hnone => ?_, trivial⟩
  exact absurd hnone runs_encoded.2.1

theorem fits_updateRun (result : Bytes) :
    Machine.Along (ResponseUpdate.step uriParser) ResponseUpdate.Fits
      (updateRun result) ResponseUpdate.init := by
  refine ⟨trivial, fun _ => by decide +kernel, trivial, fun hnone => ?_,
    trivial⟩
  exact absurd hnone runs_encoded.2.2

theorem current_throughout_runs :
    Machine.Throughout (RR.step uriParser) (RR.Current uriParser)
        (rrRun (ascii "/isp")) RR.init ∧
      Machine.Throughout (Response.step uriParser)
        (Response.Current uriParser) (responseRun hostName) Response.init ∧
      Machine.Throughout (ResponseUpdate.step uriParser)
        ResponseUpdate.Current (updateRun (ascii "OK"))
        ResponseUpdate.init := by
  obtain ⟨hrr, hresponse, hupdate⟩ := current_throughout_iff uriParser
  refine ⟨(hrr _ _ (fits_rrRun _)).mpr ?_,
    (hresponse _ (fits_responseRun _)).mpr ?_,
    (hupdate _ (fits_updateRun _)).mpr ?_⟩
  · exact ⟨Or.inl rfl, trivial, Or.inr rfl, trivial, trivial⟩
  · exact ⟨Or.inl rfl, rfl, trivial, Or.inr rfl, trivial, trivial⟩
  · exact ⟨Or.inl rfl, trivial, Or.inr rfl, trivial, trivial⟩

/-- A setter behind an encoding leaves the old block. -/
theorem setter_not_current :
    ¬ Machine.Throughout (RR.step uriParser) (RR.Current uriParser)
        (rrRun (ascii "/isp2")) RR.init ∧
      ¬ Machine.Throughout (Response.step uriParser)
        (Response.Current uriParser) (responseRun []) Response.init ∧
      ¬ Machine.Throughout (ResponseUpdate.step uriParser)
        ResponseUpdate.Current (updateRun (ascii "FAIL"))
        ResponseUpdate.init := by
  refine ⟨?_, ?_, ?_⟩
  · rw [show RR.init = RR.ofRRSet (RRSet.ofZone (Zone.ofName [])) from rfl,
      RR.throughout_current_iff _ _ (fits_rrRun _)]
    rintro ⟨-, -, hnone | hsame, -⟩
    · exact absurd hnone runs_encoded.1
    · exact absurd hsame (by decide)
  · rw [Response.throughout_current_iff _ (fits_responseRun _)]
    rintro ⟨-, -, -, hnone | hsame, -⟩
    · exact absurd hnone runs_encoded.2.1
    · exact absurd hsame (by decide)
  · rw [ResponseUpdate.throughout_current_iff _ (fits_updateRun _)]
    rintro ⟨-, -, hnone | hsame, -⟩
    · exact absurd hnone runs_encoded.2.2
    · exact absurd hsame (by decide)

end Runs

end Ndns

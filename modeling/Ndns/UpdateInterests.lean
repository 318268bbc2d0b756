import Ndns.DynamicDnsUpdate
import Ndns.ResponseRoundTrips

/-!
# Update Interests there and back

The receiver of an update Interest finds the packet by counting components.  With
a zone free of the marker it always counts right, whatever bytes the hint and
the packet have; it goes on only if it can decode the packet.

**Results.**
* `fromInterest_toInterest`: what an update Interest is read as;
* `recovers_iff`: hint, zone, lifetime and the block of the packet come back
  exactly when the packet can be decoded.
-/

namespace Ndns

theorem MarkerFree.not_endsInMarker {n : Name} (h : MarkerFree n) :
    ∀ d ∈ n, ¬ EndsInMarker d :=
  fun d hd hend => h d hd hend.isInfix

namespace QueryUpdate

/-- The receiver gets hint, zone and lifetime of the update, and the block. -/
def Recovers (P : NameParser) (K : PacketCodec) (q : QueryUpdate)
    (wired : Tlv.Block) (interest : Interest) : Prop :=
  ∃ q', init.fromInterest P K interest = some (true, q') ∧
    q'.forwardingHint = q.forwardingHint ∧
    q'.authorityZone = q.authorityZone ∧
    q'.interestLifetime = q.interestLifetime ∧
    q'.wiredUpdate = some wired

/-- The update in a block can be decoded into a fresh response. -/
def Decodable (P : NameParser) (K : PacketCodec) (wired : Tlv.Block) : Prop :=
  ((K.wireDecode wired).bind (Response.init.fromData P)).isSome

section Sending

variable {K : PacketCodec} {q q₁ : QueryUpdate} {version : Version}
variable {interest : Interest}

/-- What is sent, and what the sender remembers of it. -/
theorem toInterest_eq_some
    (hquery : q.queryType = .DNS) (htype : q.rrType = .DYNDNS_UPDATE)
    (h : q.toInterest K version = some (interest, q₁)) :
    ∃ data, q.update.toData = some data ∧
      q₁.wiredUpdate = some (K.wireEncode data) ∧
      interest = ⟨updateName
        (Query.hintComponents q.forwardingHint ++ q.authorityZone)
        (componentOfBlock (K.wireEncode data)) version,
        q.interestLifetime⟩ := by
  unfold toInterest at h
  simp only [Option.bind_eq_bind, Option.bind_eq_some_iff] at h
  obtain ⟨data, hdata, h⟩ := h
  obtain ⟨rfl, rfl⟩ := Prod.mk.inj (Option.some.inj h)
  refine ⟨data, hdata, rfl, ?_⟩
  rw [hquery, htype]
  simp [updateName, QueryType.toString, RRType.toString]

end Sending

section Receiving

variable (P : NameParser) (K : PacketCodec) {zone : Name}
variable (version : Version)

/-- A packet that was sent is looked for in its component. -/
theorem decodeUpdate_block
    (q : QueryUpdate) {wired : Tlv.Block}
    (htype : wired.type = tlv.Data) (hfits : wired.value.length < 2 ^ 64) :
    decodeUpdate P K q (componentOfBlock wired) =
      ((K.wireDecode wired).bind (q.update.fromData P)).map
        (fun u => (wired, u)) := by
  have hblock : blockFromValue (componentOfBlock wired) = some wired :=
    blockFromValue_componentOfBlock ⟨by simp [htype, tlv.Data], hfits⟩
      (by simp [htype, tlv.Data, tlv.NameComponent])
  unfold decodeUpdate
  rw [hblock]
  cases hdata : K.wireDecode wired with
  | none =>
      simp [hdata]
  | some data =>
      cases hupdate : q.update.fromData P data <;> simp [hdata, hupdate]

/-- What an update Interest is read as. -/
theorem fromInterest_toInterest
    (hint : Name) (hzone : MarkerFree zone) (component : Component)
    (lifetime : Int) :
    init.fromInterest P K ⟨updateName (Query.hintComponents hint ++ zone)
        component version, lifetime⟩ =
      (decodeUpdate P K init component).map (fun decoded =>
        (true, readAs zone hint component lifetime decoded)) := by
  by_cases hnil : hint = []
  · rw [hnil, Query.hintComponents, if_pos rfl, List.nil_append]
    exact fromInterest_plain P K init lifetime hzone.not_endsInMarker
  · rw [Query.hintComponents, if_neg hnil]
    exact fromInterest_marker P K init lifetime hint zone (by simp)
      hzone.not_endsInMarker

/-- A packet that cannot be decoded ends in an error. -/
theorem fromInterest_eq_none
    (hint : Name) (hzone : MarkerFree zone) {wired : Tlv.Block}
    (htype : wired.type = tlv.Data) (hfits : wired.value.length < 2 ^ 64)
    (lifetime : Int) (h : ¬ Decodable P K wired) :
    init.fromInterest P K ⟨updateName (Query.hintComponents hint ++ zone)
      (componentOfBlock wired) version, lifetime⟩ = none := by
  rw [fromInterest_toInterest P K version hint hzone,
    decodeUpdate_block P K init htype hfits]
  have hnone := Option.not_isSome_iff_eq_none.mp h
  show Option.map _ (Option.map _
    ((K.wireDecode wired).bind (Response.init.fromData P))) = none
  rw [hnone]
  rfl

end Receiving

section Recovery

variable (P : NameParser) (K : PacketCodec) (q : QueryUpdate)
variable (version : Version)

/-- A fresh update can be decoded exactly when its name can be read. -/
theorem decodable_iff_cutParses
    (hfresh : q.update.Fresh) (htype : q.update.queryType < 2 ^ 32)
    (hfits : (K.wireEncode q.update.packet).value.length < 2 ^ 64) :
    Decodable P K (K.wireEncode q.update.packet) ↔
      CutParses P matchQueryName q.update.queryName := by
  have hpacket : q.update.packet.Encodable :=
    { contentType_lt := htype
      freshness_nonneg := hfresh.freshness_nonneg
      freshness_lt := hfresh.freshness_lt
      content_type := rfl }
  rw [Decodable, K.wireDecode_wireEncode _ hpacket hfits, Option.bind_some]
  exact hfresh.fromData_isSome_iff P

/-- Hint, zone, lifetime and the packet come back exactly when the packet can be
decoded; a fresh update can, if zone and hint that are cut out of its name are
names. -/
theorem recovers_iff
    {interest : Interest} {q₁ : QueryUpdate}
    (hquery : q.queryType = .DNS) (htype : q.rrType = .DYNDNS_UPDATE)
    (hzone : MarkerFree q.authorityZone)
    (hsend : q.toInterest K version = some (interest, q₁))
    (hfits : ∀ wired, q₁.wiredUpdate = some wired →
      wired.value.length < 2 ^ 64) :
    ∃ wired, q₁.wiredUpdate = some wired ∧
      (Recovers P K q wired interest ↔ Decodable P K wired) ∧
      (q.update.Fresh → q.update.queryType < 2 ^ 32 →
        (Recovers P K q wired interest ↔
          CutParses P matchQueryName q.update.queryName)) := by
  obtain ⟨data, hdata, hwired, rfl⟩ :=
    toInterest_eq_some hquery htype hsend
  have hlength := hfits _ hwired
  have hread := fromInterest_toInterest P K version q.forwardingHint hzone
    (componentOfBlock (K.wireEncode data)) q.interestLifetime
  rw [decodeUpdate_block P K init (K.type_wireEncode data) hlength] at hread
  have hrecovers : Recovers P K q (K.wireEncode data)
      ⟨updateName (Query.hintComponents q.forwardingHint ++ q.authorityZone)
        (componentOfBlock (K.wireEncode data)) version,
        q.interestLifetime⟩ ↔ Decodable P K (K.wireEncode data) := by
    unfold Recovers Decodable
    rw [hread]
    constructor
    · rintro ⟨q', hq', -⟩
      obtain ⟨decoded, hdecode, -⟩ := Option.map_eq_some_iff.mp hq'
      obtain ⟨update, hupdate, -⟩ := Option.map_eq_some_iff.mp hdecode
      exact Option.isSome_of_eq_some hupdate
    · intro hdecode
      obtain ⟨update, hupdate⟩ := Option.isSome_iff_exists.mp hdecode
      have hinit : init.update = Response.init := rfl
      rw [hinit, hupdate]
      exact ⟨_, rfl, rfl, rfl, rfl, rfl⟩
  refine ⟨_, hwired, hrecovers, ?_⟩
  intro hfresh hcode
  have hpacket := Response.toData_eq hfresh.wire_eq hfresh.length_lt
  obtain rfl := Option.some.inj (hdata.symm.trans hpacket)
  exact hrecovers.trans
    (decodable_iff_cutParses P K q hfresh hcode hlength)

end Recovery

section Instances

open DynamicDNSUpdate (digestSignature firstVersion)

/-- An update of the root zone behind a hint, with a packet of this name. -/
def rootUpdate (queryName : Name) : QueryUpdate :=
  { init with
    forwardingHint := [ascii "isp"]
    queryType := .DNS
    rrType := .DYNDNS_UPDATE
    update := textResponse queryName }

theorem toInterest_rootUpdate
    {queryName : Name} (hfresh : (textResponse queryName).Fresh) :
    ∃ interest q₁,
      (rootUpdate queryName).toInterest (ndnCodec digestSignature)
        firstVersion = some (interest, q₁) ∧
      q₁.wiredUpdate = some ((ndnCodec digestSignature).wireEncode
        (textResponse queryName).packet) := by
  have hdata : (rootUpdate queryName).update.toData =
      some (textResponse queryName).packet :=
    Response.toData_eq rfl hfresh.length_lt
  unfold toInterest
  rw [hdata]
  exact ⟨_, _, rfl, rfl⟩

theorem length_hostName_lt :
    ((ndnCodec digestSignature).wireEncode
      (textResponse hostName).packet).value.length < 2 ^ 64 := by
  decide +kernel

theorem length_dottedName_lt :
    ((ndnCodec digestSignature).wireEncode
      (textResponse (dottedName (ascii "TXT"))).packet).value.length <
        2 ^ 64 := by
  decide +kernel

theorem recovers_hostName :
    ∃ interest q₁ wired,
      (rootUpdate hostName).toInterest (ndnCodec digestSignature)
        firstVersion = some (interest, q₁) ∧
      q₁.wiredUpdate = some wired ∧
      Recovers uriParser (ndnCodec digestSignature) (rootUpdate hostName)
        wired interest := by
  have hfresh : (textResponse hostName).Fresh :=
    textResponse_fresh (by decide +kernel)
  obtain ⟨interest, q₁, hsend, hsent⟩ := toInterest_rootUpdate hfresh
  obtain ⟨wired, hwired, -, h⟩ := recovers_iff uriParser
    (ndnCodec digestSignature) (rootUpdate hostName) firstVersion rfl rfl
    (by decide) hsend (by
      intro wired hwired
      obtain rfl := Option.some.inj (hsent.symm.trans hwired)
      exact length_hostName_lt)
  exact ⟨interest, q₁, wired, hsend, hwired,
    (h hfresh (show QueryType.DNS.code < 2 ^ 32 by decide)).mpr
      cutParses_hostName.1⟩

/-- The packet is found, but its name is not read: decoding throws. -/
theorem dottedName_not_recovered :
    MarkerFree (rootUpdate (dottedName (ascii "TXT"))).forwardingHint ∧
    MarkerFree (rootUpdate (dottedName (ascii "TXT"))).authorityZone ∧
    ∃ interest q₁ wired,
      (rootUpdate (dottedName (ascii "TXT"))).toInterest
        (ndnCodec digestSignature) firstVersion = some (interest, q₁) ∧
      q₁.wiredUpdate = some wired ∧
      init.fromInterest uriParser (ndnCodec digestSignature) interest =
        none ∧
      ¬ Recovers uriParser (ndnCodec digestSignature)
        (rootUpdate (dottedName (ascii "TXT"))) wired interest := by
  have hfresh : (textResponse (dottedName (ascii "TXT"))).Fresh :=
    textResponse_fresh (by decide +kernel)
  obtain ⟨interest, q₁, hsend, hsent⟩ := toInterest_rootUpdate hfresh
  obtain ⟨data, hdata, hwired, hinterest⟩ :=
    toInterest_eq_some rfl rfl hsend
  obtain rfl := Option.some.inj
    (hdata.symm.trans (Response.toData_eq rfl hfresh.length_lt))
  have hdecode : ¬ Decodable uriParser (ndnCodec digestSignature)
      ((ndnCodec digestSignature).wireEncode
        (rootUpdate (dottedName (ascii "TXT"))).update.packet) := by
    rw [decodable_iff_cutParses _ _ (rootUpdate (dottedName (ascii "TXT")))
      hfresh (show QueryType.DNS.code < 2 ^ 32 by decide)
      length_dottedName_lt]
    exact not_cutParses_dottedName.1
  have hnone : init.fromInterest uriParser (ndnCodec digestSignature)
      interest = none := by
    rw [hinterest]
    exact fromInterest_eq_none _ _ _ _ (by decide) rfl length_dottedName_lt
      _ hdecode
  refine ⟨by decide, by decide, interest, q₁, _, hsend, hwired, hnone, ?_⟩
  rintro ⟨q', hq', -⟩
  rw [hnone] at hq'
  exact absurd hq' (by simp)

end Instances

end QueryUpdate

end Ndns

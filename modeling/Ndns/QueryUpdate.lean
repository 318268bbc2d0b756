import Ndns.Query
import Ndns.Response

/-!
# Update Interests

`query-update.cpp`: an update is a response, signed as a Data packet, whose block
is one component of the name of an Interest.  The receiver matches the URI of the
name with the update pattern and counts components, from the sizes of hint and
zone that the pattern gave, to find the one that holds the packet.

**Results.**
* `fromInterest_exact`: the component is found if the last component in front
  that ends with the marker, if any, is the marker;
* `fromInterest_inexact`: otherwise the component behind it is taken.
-/

namespace Ndns

structure QueryUpdate extends Query where
  update : Response
  wiredUpdate : Option Tlv.Block
deriving DecidableEq

namespace QueryUpdate

/-- `QueryUpdate::QueryUpdate()` -/
def init : QueryUpdate where
  toQuery := Query.init
  update := Response.init
  wiredUpdate := none

/-- `QueryUpdate::toInterest(KeyChain&)` and the state behind it; `none` for a
thrown error. -/
def toInterest (K : PacketCodec) (q : QueryUpdate) (version : Version) :
    Option (Interest × QueryUpdate) := do
  let data ← q.update.toData
  let wired := K.wireEncode data
  let name :=
    Query.hintComponents q.forwardingHint ++ q.authorityZone ++
      [q.queryType.toString] ++ [componentOfBlock wired] ++
      [q.rrType.toString] ++ [version.component]
  return (⟨name, q.interestLifetime⟩,
    { q with
      wiredUpdate := some wired
      update := { q.update with wire := q.update.wireEncode } })

/-- The number of components that the hint of a match takes up. -/
def hintSize (hint : Bytes) (forwardingHint : Name) : Nat :=
  if hint = [] then 0
  else if hint = [47] then 1
  else forwardingHint.length + 1

def zoneSize (zone : Bytes) (authorityZone : Name) : Nat :=
  if zone = [47] then 0 else authorityZone.length

/-- The packet in a component, and the update in the packet. -/
def decodeUpdate (P : NameParser) (K : PacketCodec) (q : QueryUpdate)
    (component : Component) : Option (Tlv.Block × Response) := do
  let wired ← blockFromValue component
  let data ← K.wireDecode wired
  let update ← q.update.fromData P data
  return (wired, update)

/-- `QueryUpdate::fromInterest` with the map of a match; `none` for a thrown
error, or for a component that is not there. -/
def fromInterestMap (P : NameParser) (K : PacketCodec) (q : QueryUpdate)
    (interest : Interest) (map : NameMap) : Option QueryUpdate := do
  let authorityZone ← P.ofUri map.zone
  let rrLabel ← P.ofUri map.rrLabel
  let forwardingHint ← q.hintOfMap P map
  let temp :=
    hintSize map.hint forwardingHint + zoneSize map.zone authorityZone + 1
  let component ← interest.name[temp]?
  let (wired, update) ← decodeUpdate P K q component
  return {
    authorityZone := authorityZone
    queryType := toQueryType map.queryType
    rrLabel := rrLabel
    rrType := toRRType map.rrType
    forwardingHint := forwardingHint
    interestLifetime := interest.interestLifetime
    wiredUpdate := some wired
    update := update }

/-- `QueryUpdate::fromInterest`: whether the name was understood, and the
update. -/
def fromInterest (P : NameParser) (K : PacketCodec) (q : QueryUpdate)
    (interest : Interest) : Option (Bool × QueryUpdate) :=
  match matchUpdateName interest.name.toUri with
  | some map =>
      (fromInterestMap P K q interest map).map (fun q' => (true, q'))
  | none => some (false, q)

end QueryUpdate

/-- A component ends with the bytes of the marker. -/
def EndsInMarker (c : Component) : Prop :=
  ForwardingHintLabel <:+ c

instance (c : Component) : Decidable (EndsInMarker c) :=
  inferInstanceAs (Decidable (ForwardingHintLabel <:+ c))

/-- The last component that ends with the marker is the marker. -/
def MarkerExact (n : Name) : Prop :=
  ∀ u m v, n = u ++ m :: v → EndsInMarker m →
    (∀ d ∈ v, ¬ EndsInMarker d) → m = ForwardingHintLabel

section Markers

/-- A name without such a component is exact. -/
theorem markerExact_of_forall
    {n : Name}
    (h : ∀ d ∈ n, ¬ EndsInMarker d) :
    MarkerExact n := by
  rintro u m v rfl hm -
  exact absurd hm (h m (by simp))

theorem toUri_append_marker (x : Component) :
    Component.toUri (x ++ ForwardingHintLabel) =
      x.flatMap escapeByte ++ marker := by
  have hperiods : (x ++ ForwardingHintLabel).all (· == 46) = false := by
    simp [ForwardingHintLabel]
  have hmark : ForwardingHintLabel.flatMap escapeByte = marker := by
    decide
  rw [Component.toUri, if_neg (by simp [hperiods]), List.flatMap_append,
    hmark]

theorem endsInMarker_iff (c : Component) :
    EndsInMarker c ↔ marker <:+ c.toUri := by
  constructor
  · rintro ⟨x, rfl⟩
    rw [toUri_append_marker]
    exact List.suffix_append _ _
  · exact marker_suffix_toUri

theorem not_marker_segments
    {n : Name}
    (h : ∀ d ∈ n, ¬ EndsInMarker d) :
    ∀ e ∈ n.segments, ¬ marker <:+ e := by
  intro e he hsuf
  obtain ⟨d, hd, rfl⟩ := List.mem_map.mp he
  exact h d hd ((endsInMarker_iff d).mpr hsuf)

/-- A version is not a record type. -/
theorem wordAt_version
    {ts : List Bytes}
    (hts : ∀ t ∈ ts, t.head? ≠ some 37 ∧ t ≠ []) (v : Version) :
    wordAt ts (Component.toUri v.component) = none := by
  obtain ⟨c, hc⟩ := v
  cases c with
  | nil =>
      simp at hc
  | cons b c =>
      obtain rfl : b = 0xFD := by simpa using hc
      have huri : ∃ s, Component.toUri (0xFD :: c) = 37 :: s := by
        refine ⟨[70, 68] ++ c.flatMap escapeByte, ?_⟩
        rw [Component.toUri, if_neg (by simp), List.flatMap_cons]
        rfl
      obtain ⟨s, hs⟩ := huri
      rw [wordAt, List.find?_eq_none]
      intro t ht hpre
      rw [decide_eq_true_eq, hs] at hpre
      cases t with
      | nil => exact (hts [] ht).2 rfl
      | cons x t =>
          obtain ⟨rfl, -⟩ := List.cons_prefix_cons.mp hpre
          exact (hts _ ht).1 rfl

theorem updateType_version (v : Version) :
    wordAt updateTypes (Component.toUri v.component) = none :=
  wordAt_version (by decide) v

theorem queryType_version (v : Version) :
    wordAt queryTypes (Component.toUri v.component) = none :=
  wordAt_version (by decide) v

end Markers

/-- The name of an update Interest. -/
def updateName (front : Name) (component : Component) (v : Version) : Name :=
  front ++ ascii "DNS" ::
    ([component] ++ ascii "DYNDNSUPDATE" :: [v.component])

/-- How the update pattern cuts the name of an update Interest. -/
def updateReading (front : Name) (component : Component) (v : Version) :
    Reading updateWords updateTypes (updateName front component v).segments :=
  nameReading front
    (show Component.toUri (ascii "DNS") = [] ++ ascii "DNS" by decide)
    (by decide) (by simp) (by simp)
    (show _ ∧ wordAt updateTypes (ascii "DYNDNSUPDATE") = _ by decide)
    [v.component] (by simpa using updateType_version v)

section Match

variable {front : Name} (component : Component) (v : Version)

theorem updateName_toUri :
    (updateName front component v).toUri =
      uriPath (updateName front component v).segments :=
  Name.toUri_of_ne_nil (by simp [updateName])

/-- Without a marker in front the whole front is the zone. -/
theorem matchUpdateName_plain
    (h : ∀ d ∈ front, ¬ EndsInMarker d) :
    matchUpdateName (updateName front component v).toUri =
      some ⟨[], uriPath front.segments ++ [47], ascii "DNS",
        uriPath (Name.segments [component]), ascii "DYNDNSUPDATE"⟩ := by
  rw [updateName_toUri component v]
  exact matchName_of_reading updateVocabulary (segments_of_name _)
    (updateReading front component v) (not_marker_segments h)

/-- Behind the last marker in front is the zone. -/
theorem matchUpdateName_marker
    (u : Name) (x : Component) (w : Name)
    (hfront : front = u ++ (x ++ ForwardingHintLabel) :: w)
    (hw : ∀ d ∈ w, ¬ EndsInMarker d) :
    matchUpdateName (updateName front component v).toUri =
      some ⟨uriPath u.segments ++ 47 :: x.flatMap escapeByte,
        uriPath w.segments ++ [47], ascii "DNS",
        uriPath (Name.segments [component]), ascii "DYNDNSUPDATE"⟩ := by
  have hpre :
      (updateReading front component v).pre =
        u.segments ++ (x.flatMap escapeByte ++ marker) :: w.segments := by
    show front.segments = _
    rw [hfront, ← toUri_append_marker]
    simp [Name.segments]
  rw [updateName_toUri component v]
  exact matchName_of_hint updateVocabulary (segments_of_name _)
    (updateReading front component v) u.segments (x.flatMap escapeByte)
    w.segments hpre (not_marker_segments hw)

/-- The name of an update is always taken for one. -/
theorem matchUpdateName_isSome
    (front : Name) (component : Component) (v : Version) :
    (matchUpdateName (updateName front component v).toUri).isSome = true := by
  obtain ⟨hint, zone, hmatch⟩ := matchName_reading updateVocabulary
    (segments_of_name _) (updateReading front component v)
  rw [updateName_toUri component v]
  exact Option.isSome_of_eq_some hmatch

theorem updateName_component :
    (updateName front component v)[front.length + 1]? =
      some component := by
  simp [updateName]

theorem updateName_type :
    (updateName front component v)[front.length + 2]? =
      some (ascii "DYNDNSUPDATE") := by
  simp [updateName]

end Match

namespace QueryUpdate

variable {front : Name} {component : Component} {v : Version}

/-- A packet that was written is found in its component. -/
theorem decodeUpdate_packet
    (P : NameParser) {K : PacketCodec} (q : QueryUpdate)
    {d : Data} (hd : d.Encodable)
    (hfits : (K.wireEncode d).value.length < 2 ^ 64) :
    decodeUpdate P K q (componentOfBlock (K.wireEncode d)) =
      (q.update.fromData P d).map (fun u => (K.wireEncode d, u)) := by
  have htype := K.type_wireEncode d
  have hblock :
      blockFromValue (componentOfBlock (K.wireEncode d)) =
        some (K.wireEncode d) :=
    blockFromValue_componentOfBlock
      ⟨by simp [htype, tlv.Data], hfits⟩
      (by simp [htype, tlv.Data, tlv.NameComponent])
  unfold decodeUpdate
  simp only [hblock, K.wireDecode_wireEncode d hd hfits,
    Option.bind_eq_bind, Option.bind_some]
  cases q.update.fromData P d <;> rfl

/-- What an update Interest is read as. -/
def readAs (zone hint : Name) (component : Component)
    (lifetime : Int) (decoded : Tlv.Block × Response) : QueryUpdate where
  authorityZone := zone
  queryType := .DNS
  rrLabel := [component]
  rrType := .DYNDNS_UPDATE
  forwardingHint := hint
  interestLifetime := lifetime
  wiredUpdate := some decoded.1
  update := decoded.2

theorem zoneSize_path (P : NameParser) (n : Name) :
    P.ofUri (uriPath n.segments ++ [47]) = some n ∧
      zoneSize (uriPath n.segments ++ [47]) n = n.length := by
  refine ⟨P.ofUri_path_slash n, ?_⟩
  cases n with
  | nil =>
      rfl
  | cons c n =>
      unfold zoneSize
      rw [if_neg]
      simp [Name.segments, Component.toUri_ne_nil]

theorem hintSize_path (n : Name) :
    hintSize (uriPath n.segments ++ [47]) n = n.length + 1 := by
  cases n with
  | nil =>
      rfl
  | cons c n =>
      unfold hintSize
      rw [if_neg (by simp), if_neg]
      simp [Name.segments, Component.toUri_ne_nil]

/-- Without a marker the packet is found behind the zone. -/
theorem fromInterest_plain
    (P : NameParser) (K : PacketCodec) (q : QueryUpdate) (lifetime : Int)
    (h : ∀ d ∈ front, ¬ EndsInMarker d) :
    q.fromInterest P K ⟨updateName front component v, lifetime⟩ =
      (decodeUpdate P K q component).map (fun decoded =>
        (true, readAs front q.forwardingHint component lifetime
          decoded)) := by
  have hzone := zoneSize_path P front
  have hlabel : P.ofUri (uriPath (Name.segments [component])) =
      some [component] :=
    P.ofUri_path (by simp)
  have hindex : 0 + front.length + 1 = front.length + 1 := by omega
  unfold fromInterest
  rw [matchUpdateName_plain component v h]
  simp only [fromInterestMap, hzone.1, hzone.2, hlabel, Query.hintOfMap,
    hintSize, Option.bind_eq_bind, Option.bind_some, if_true, if_false,
    ne_eq, not_true, hindex, updateName_component]
  cases decodeUpdate P K q component <;> rfl

/-- Behind a whole marker component the packet is found, too. -/
theorem fromInterest_marker
    (P : NameParser) (K : PacketCodec) (q : QueryUpdate) (lifetime : Int)
    (u w : Name)
    (hfront : front = u ++ ForwardingHintLabel :: w)
    (hw : ∀ d ∈ w, ¬ EndsInMarker d) :
    q.fromInterest P K ⟨updateName front component v, lifetime⟩ =
      (decodeUpdate P K q component).map (fun decoded =>
        (true, readAs w u component lifetime decoded)) := by
  have hmatch :=
    matchUpdateName_marker component v u [] w hfront hw
  have hzone := zoneSize_path P w
  have hhint := hintSize_path u
  have hlabel : P.ofUri (uriPath (Name.segments [component])) =
      some [component] :=
    P.ofUri_path (by simp)
  have hne : ¬ uriPath u.segments ++ [47] = [] := by simp
  have hindex : u.length + 1 + w.length + 1 = front.length + 1 := by
    rw [hfront]
    simp only [List.length_append, List.length_cons]
    omega
  unfold fromInterest
  rw [hmatch]
  simp only [List.flatMap_nil, fromInterestMap, hzone.1, hzone.2, hlabel,
    Query.hintOfMap, P.ofUri_path_slash, hhint, Option.bind_eq_bind,
    Option.bind_some, ne_eq, hne, not_false_eq_true, if_true, hindex,
    updateName_component]
  cases decodeUpdate P K q component <;> rfl

/-- Behind a component that only ends with the marker, the component taken is
not the packet, and is not a block. -/
theorem fromInterest_inexact
    (P : NameParser) (K : PacketCodec) (q : QueryUpdate) (lifetime : Int)
    (u w : Name) (x : Component)
    (hfront : front = u ++ (x ++ ForwardingHintLabel) :: w)
    (hx : x ≠ [])
    (hw : ∀ d ∈ w, ¬ EndsInMarker d) :
    q.fromInterest P K ⟨updateName front component v, lifetime⟩ = none := by
  have hmatch :=
    matchUpdateName_marker component v u x w hfront hw
  have hzone := zoneSize_path P w
  have hstem : x.flatMap escapeByte ≠ [] := by
    cases x with
    | nil => exact absurd rfl hx
    | cons b x => simp [escapeByte_ne_nil]
  have huri : ∀ b ∈ x.flatMap escapeByte, uriByte b = true := by
    intro y hy
    obtain ⟨b, -, hb⟩ := List.mem_flatMap.mp hy
    exact uriByte_of_mem_escapeByte hb
  unfold fromInterest
  rw [hmatch]
  simp only [Option.map_eq_none_iff]
  unfold fromInterestMap
  simp only [hzone.1, Option.bind_eq_bind, Option.bind_some,
    P.ofUri_path (List.cons_ne_nil component [])]
  rw [Option.bind_eq_none_iff]
  intro hint hparse
  have hne : ¬ uriPath u.segments ++ 47 :: x.flatMap escapeByte = [] := by
    simp
  have hnot : ¬ uriPath u.segments ++ 47 :: x.flatMap escapeByte = [47] := by
    intro heq
    cases hu : u.segments with
    | nil => simp [hu, hstem] at heq
    | cons e es =>
        rw [hu] at heq
        simp at heq
  rw [Query.hintOfMap, if_pos hne] at hparse
  obtain ⟨c, hc⟩ := P.ofUri_segment u hint _ huri hstem hparse
  have hindex :
      hintSize (uriPath u.segments ++ 47 :: x.flatMap escapeByte) hint +
          zoneSize (uriPath w.segments ++ [47]) w + 1 =
        front.length + 2 := by
    rw [hintSize, if_neg hne, if_neg hnot, hzone.2, hc, hfront]
    simp only [List.length_append, List.length_cons, List.length_nil]
    omega
  have hblock : blockFromValue (ascii "DYNDNSUPDATE") = none := by
    decide +kernel
  simp only [hindex, updateName_type, Option.bind_some, decodeUpdate,
    hblock]
  rfl

/-- The packet is found behind a front whose marker is exact. -/
theorem fromInterest_exact
    (P : NameParser) (K : PacketCodec) (q : QueryUpdate) (lifetime : Int)
    (h : MarkerExact front) :
    ∃ zone hint,
      q.fromInterest P K ⟨updateName front component v, lifetime⟩ =
        (decodeUpdate P K q component).map (fun decoded =>
          (true, readAs zone hint component lifetime decoded)) := by
  by_cases hex : ∃ d ∈ front, EndsInMarker d
  · obtain ⟨u, m, w, hfront, hm, hw⟩ :=
      exists_last_split EndsInMarker front hex
    have heq := h u m w hfront hm hw
    subst heq
    exact ⟨w, u, fromInterest_marker P K q lifetime u w hfront hw⟩
  · push Not at hex
    exact ⟨front, q.forwardingHint,
      fromInterest_plain P K q lifetime hex⟩

/-- Behind any other front nothing is found. -/
theorem fromInterest_of_not_exact
    (P : NameParser) (K : PacketCodec) (q : QueryUpdate) (lifetime : Int)
    (h : ¬ MarkerExact front) :
    q.fromInterest P K ⟨updateName front component v, lifetime⟩ = none := by
  unfold MarkerExact at h
  push Not at h
  obtain ⟨u, m, w, hfront, ⟨x, rfl⟩, hw, hne⟩ := h
  refine fromInterest_inexact P K q lifetime u w x hfront ?_ hw
  rintro rfl
  exact hne rfl

end QueryUpdate

end Ndns

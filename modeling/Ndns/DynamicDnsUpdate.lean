import Ndns.QueryUpdate

/-!
# The update tool

`dynamic-dns-update.cpp`: the tool puts one RR in a response, names the response
like a query for the record, and sends it inside an update Interest.  Label and
type travel only in that inner name, which the server matches with the query
pattern.

**Results.**
* `Ready.toInterest_eq`, `Ready.rrs_of_fromInterest`: what the tool sends, and
  what is read from it;
* `delivers_iff_reads`: the RR arrives if the packet is found in the outer name
  and the inner name is read as it was meant;
* `readName_iff`: the inner name is read as it was meant exactly for the types
  of the query pattern and labels without a word in front of their last
  component;
* `delivers_iff`: both conditions together.
-/

namespace Ndns

structure DynamicDNSUpdate where
  zone : Zone
  rrLabel : Name
  rrType : RRType
  rrData : Bytes
  action : UpdateAction
  /-- What the tool embeds in the name of its Interest. -/
  update : Response
  queryUpdate : QueryUpdate
  interestLifetime : Int
deriving DecidableEq

namespace DynamicDNSUpdate

/-- `DynamicDNSUpdate::DynamicDNSUpdate` -/
def init (zone : Zone) (rrLabel : Name) (rrType : RRType) (rrData : Bytes)
    (action : UpdateAction) : DynamicDNSUpdate where
  zone := zone
  rrLabel := rrLabel
  rrType := rrType
  rrData := rrData
  action := action
  update := Response.init
  queryUpdate := QueryUpdate.init
  interestLifetime := 4000

/-- The name of a query for a record, with a version. -/
def recordName (zone label : Name) (type : RRType) (version : Version) :
    Name :=
  zone ++ QueryType.DNS.toString ::
    (label ++ type.toString :: [version.component])

/-- The RR that the tool sends. -/
def record (tool : DynamicDNSUpdate) : RR :=
  { RR.init with
    rrData := tool.rrData
    id := 0
    updateAction := tool.action
    rrset := { RRSet.ofZone (Zone.ofName []) with
      type := tool.rrType
      label := tool.rrLabel
      zone := tool.zone } }

/-- `m_update` as `toInterest` leaves it. -/
def updated (tool : DynamicDNSUpdate) (version : Version) : Response :=
  { tool.update with
    queryName :=
      recordName tool.zone.authorizedName tool.rrLabel tool.rrType version
    queryType := QueryType.DNS.code
    responseType := .NDNS_Resp }.addRr tool.record

/-- `m_queryUpdate` before it is made an Interest. -/
def wrapped (tool : DynamicDNSUpdate) (version : Version) : QueryUpdate :=
  { tool.queryUpdate with
    update := tool.updated version
    interestLifetime := tool.interestLifetime
    authorityZone := tool.zone.authorizedName
    queryType := .DNS
    rrType := .DYNDNS_UPDATE }

/-- `DynamicDNSUpdate::toInterest`, with the versions of the inner and the outer
name, and the state behind it; `none` for a thrown error. -/
def toInterest (K : PacketCodec) (tool : DynamicDNSUpdate)
    (inner outer : Version) : Option (Interest × DynamicDNSUpdate) := do
  let (interest, queryUpdate) ← (tool.wrapped inner).toInterest K outer
  return (interest, { tool with
    update := tool.updated inner
    queryUpdate := queryUpdate })

/-- The Interest of the tool is decoded to exactly one RR, the given one. -/
def Delivers (P : NameParser) (K : PacketCodec) (tool : DynamicDNSUpdate)
    (inner outer : Version) : Prop :=
  ∃ interest tool' q rr,
    tool.toInterest K inner outer = some (interest, tool') ∧
      QueryUpdate.init.fromInterest P K interest = some (true, q) ∧
      q.update.rrs = [rr] ∧
      rr.rrset.label = tool.rrLabel ∧ rr.rrset.type = tool.rrType ∧
      rr.rrData = tool.rrData ∧ rr.updateAction = tool.action

end DynamicDNSUpdate

namespace DynamicDNSUpdate

section Reading

/-- Behind an exact marker the texts for hint and zone are those of names. -/
theorem matchName_exact
    (P : NameParser) {ws ts : List Bytes} {es : List Bytes}
    (hv : Vocabulary ws ts) (hes : Segments es) (r : Reading ws ts es)
    {front : Name} (hpre : r.pre = front.segments) (hstem : r.stem = [])
    (hfront : MarkerExact front) :
    ∃ hint zone m z,
      matchName ws ts (uriPath es) =
          some ⟨hint, zone, r.word, uriPath r.label, r.rrType⟩ ∧
        P.ofUri zone = some z ∧ (hint = [] ∨ P.ofUri hint = some m) := by
  by_cases hex : ∃ d ∈ front, EndsInMarker d
  · obtain ⟨u, d, w, hsplit, hd, hw⟩ :=
      exists_last_split EndsInMarker front hex
    have hmarker := hfront u d w hsplit hd hw
    have hcut :
        r.pre = Name.segments u ++ ([] ++ marker) :: Name.segments w := by
      rw [hpre, hsplit, hmarker]
      simp [Name.segments, show Component.toUri ForwardingHintLabel =
        marker by decide]
    have hmatch := matchName_of_hint hv hes r (Name.segments u) []
      (Name.segments w) hcut (not_marker_segments hw)
    rw [hstem] at hmatch
    exact ⟨_, _, u, w, hmatch, P.ofUri_path_slash w,
      Or.inr (P.ofUri_path_slash u)⟩
  · push Not at hex
    have hmatch := matchName_of_reading hv hes r
      (by rw [hpre]; exact not_marker_segments hex)
    rw [hstem, hpre] at hmatch
    exact ⟨_, _, [], front, hmatch, P.ofUri_path_slash front, Or.inl rfl⟩

variable (P : NameParser) {zone label : Name} {type : RRType}

theorem recordName_toUri (version : Version) :
    (recordName zone label type version).toUri =
      uriPath (recordName zone label type version).segments :=
  Name.toUri_of_ne_nil (by simp [recordName])

/-- The inner name behind a zone with an exact marker is read as it was
meant. -/
theorem readName_clean
    (hzone : MarkerExact zone) (hlabel : label ≠ [])
    (hclean : ∀ d ∈ label.dropLast, ¬ EndsInQueryWord d)
    (ht : type.isQueried = true) (version : Version) :
    ∃ r, Response.init.readName P (recordName zone label type version) =
      some r ∧ r.rrLabel = label ∧ r.rrType = type := by
  have hword : Component.toUri QueryType.DNS.toString =
      [] ++ QueryType.DNS.toString := by
    decide
  obtain ⟨hint, ztext, m, z, hmatch, hz, hm⟩ :=
    matchName_exact P queryVocabulary (segments_of_name _)
      (queryReading zone hword (by decide) hlabel hclean ht
        [version.component] (by simpa using queryType_version version))
      rfl rfl hzone
  have hlabelUri := P.ofUri_path hlabel
  have hread : matchQueryName (recordName zone label type version).toUri =
      some ⟨hint, ztext, QueryType.DNS.toString,
        uriPath label.segments, type.toString⟩ := by
    rw [recordName_toUri]
    exact hmatch
  unfold Response.readName
  rw [hread]
  simp only [hz, hlabelUri, Option.bind_eq_bind, Option.bind_some,
    toRRType_toString]
  rcases hm with rfl | hm
  · exact ⟨_, rfl, rfl, rfl⟩
  · by_cases hnil : hint = []
    · rw [if_pos hnil]
      exact ⟨_, rfl, rfl, rfl⟩
    · rw [if_neg hnil, hm]
      exact ⟨_, rfl, rfl, rfl⟩

/-- A label that is read back from the name was matched there. -/
theorem exists_match_of_readName
    {n : Name} {r : Response} (hlabel : label ≠ [])
    (h : Response.init.readName P n = some r) (hr : r.rrLabel = label) :
    ∃ map, matchQueryName n.toUri = some map ∧
      P.ofUri map.rrLabel = some label ∧ r.rrType = toRRType map.rrType := by
  unfold Response.readName at h
  split at h
  · exfalso
    rw [← Option.some.inj h] at hr
    exact hlabel hr.symm
  · next map hmap =>
      simp only [Option.bind_eq_bind, Option.bind_eq_some_iff,
        Option.pure_def, Option.some.injEq] at h
      obtain ⟨_, -, label', hl, _, -, rfl⟩ := h
      exact ⟨map, hmap, by rw [hl, ← hr], rfl⟩

/-- Only the types of the pattern are read. -/
theorem isQueried_of_match
    {n : Name} {map : NameMap}
    (h : matchQueryName n.toUri = some map) :
    (toRRType map.rrType).isQueried = true := by
  obtain ⟨reading, -, htype⟩ := exists_reading_of_match h
  have hmem : map.rrType ∈ queryTypes := by
    rw [htype]
    exact List.mem_of_find?_eq_some reading.type_eq
  have hall : ∀ t ∈ queryTypes, (toRRType t).isQueried = true := by decide
  exact hall _ hmem

/-- A label with a word in front of its last component is cut there. -/
theorem match_label_of_word
    (ht : type.isQueried = true)
    (h : ∃ d ∈ label.dropLast, EndsInQueryWord d) (version : Version) :
    ∃ (rest : Name) (hint ztext word : Bytes),
      rest ≠ [] ∧ rest.length < label.length ∧
      matchQueryName (recordName zone label type version).toUri =
        some ⟨hint, ztext, word, uriPath rest.segments, type.toString⟩ := by
  obtain ⟨front, c, rest, stem, word, rfl, hc, hword, hne, hclean⟩ :=
    exists_wordCut h
  have hname :
      recordName zone (front ++ c :: rest) type version =
        (zone ++ QueryType.DNS.toString :: front) ++
          c :: (rest ++ type.toString :: [version.component]) := by
    simp [recordName]
  obtain ⟨hint, ztext, hmatch⟩ :=
    matchName_reading queryVocabulary (segments_of_name _)
      (queryReading (zone ++ QueryType.DNS.toString :: front) hc hword hne
        hclean ht [version.component]
        (by simpa using queryType_version version))
  refine ⟨rest, hint, ztext, word, hne, ?_, ?_⟩
  · simp only [List.length_append, List.length_cons]
    omega
  · rw [recordName_toUri, hname]
    exact hmatch

/-- When label and type of the inner name are read as they were meant. -/
theorem readName_iff
    (hzone : MarkerExact zone) (hlabel : label ≠ []) (version : Version) :
    (∃ r, Response.init.readName P (recordName zone label type version) =
        some r ∧ r.rrLabel = label ∧ r.rrType = type) ↔
      type.isQueried = true ∧
        ∀ d ∈ label.dropLast, ¬ EndsInQueryWord d := by
  constructor
  · rintro ⟨r, hread, hr, hrtype⟩
    obtain ⟨map, hmap, hmaplabel, hmaptype⟩ :=
      exists_match_of_readName P hlabel hread hr
    have ht : type.isQueried = true := by
      rw [← hrtype, hmaptype]
      exact isQueried_of_match hmap
    refine ⟨ht, ?_⟩
    intro d hd hend
    obtain ⟨rest, hint, ztext, word, hne, hshort, hmatch⟩ :=
      match_label_of_word ht ⟨d, hd, hend⟩ version
    rw [hmap, Option.some.injEq] at hmatch
    rw [hmatch, P.ofUri_path hne, Option.some.injEq] at hmaplabel
    rw [hmaplabel] at hshort
    omega
  · rintro ⟨ht, hclean⟩
    exact readName_clean P hzone hlabel hclean ht version

end Reading

section Sending

/-- A tool whose update has not been encoded; `toInterest` encodes a copy of
it. -/
structure Ready (tool : DynamicDNSUpdate) : Prop where
  wire_eq : tool.update.wire = none
  freshness_eq : tool.update.freshness = 3600
  id_lt : ∀ rr ∈ tool.update.rrs, rr.id < 2 ^ 32
  hint_eq : tool.queryUpdate.forwardingHint = []

theorem ready_init
    (zone : Zone) (label : Name) (type : RRType) (data : Bytes)
    (action : UpdateAction) :
    (init zone label type data action).Ready where
  wire_eq := rfl
  freshness_eq := rfl
  id_lt := by simp [init, Response.init]
  hint_eq := rfl

namespace Ready

variable {K : PacketCodec} {tool : DynamicDNSUpdate} (htool : tool.Ready)
variable {inner : Version}
include htool

theorem encodable : (tool.updated inner).packet.Encodable where
  contentType_lt := show QueryType.DNS.code < 2 ^ 32 by decide
  freshness_nonneg := by
    show 0 ≤ tool.update.freshness
    rw [htool.freshness_eq]
    decide
  freshness_lt := by
    show tool.update.freshness < 2 ^ 63
    rw [htool.freshness_eq]
    decide
  content_type := rfl

/-- The RRs of the update, with the new one. -/
theorem id_updated_lt : ∀ rr ∈ (tool.updated inner).rrs, rr.id < 2 ^ 32 := by
  intro rr hrr
  rcases List.mem_append.mp hrr with hrr | hrr
  · exact htool.id_lt rr hrr
  · rw [List.mem_singleton.mp hrr]
    exact Nat.two_pow_pos 32

variable (hfits :
  (K.wireEncode (tool.updated inner).packet).value.length < 2 ^ 64)
include hfits

/-- The Interest of a tool; its update keeps the new RR, without a block. -/
theorem toInterest_eq (outer : Version) :
    tool.toInterest K inner outer =
      some (⟨updateName tool.zone.authorizedName (componentOfBlock
        (K.wireEncode (tool.updated inner).packet)) outer,
          tool.interestLifetime⟩,
        { tool with
          update := tool.updated inner
          queryUpdate := { tool.wrapped inner with
            wiredUpdate := some (K.wireEncode (tool.updated inner).packet)
            update := { tool.updated inner with
              wire := (tool.updated inner).wireEncode } } }) := by
  have hcontent :=
    lt_of_le_of_lt (K.content_le (tool.updated inner).packet) hfits
  have hdata : (tool.updated inner).toData =
      some (tool.updated inner).packet :=
    Response.toData_eq htool.wire_eq hcontent
  have hname (c : Component) :
      Query.hintComponents tool.queryUpdate.forwardingHint ++
          tool.zone.authorizedName ++ [QueryType.DNS.toString] ++ [c] ++
          [RRType.DYNDNS_UPDATE.toString] ++ [outer.component] =
        updateName tool.zone.authorizedName c outer := by
    simp [htool.hint_eq, Query.hintComponents, updateName,
      QueryType.toString, RRType.toString]
  unfold toInterest QueryUpdate.toInterest
  simp only [wrapped, hdata, Option.bind_eq_bind, Option.bind_some,
    Option.pure_def]
  exact congrArg (fun n => some (Interest.mk n tool.interestLifetime, _))
    (hname _)

/-- What the server decodes from the embedded packet. -/
theorem fromData_updated (P : NameParser) :
    Response.init.fromData P (tool.updated inner).packet =
      (Response.init.readName P
        (recordName tool.zone.authorizedName tool.rrLabel tool.rrType
          inner)).map (fun s =>
            let r := tool.updated inner
            { s with
              wire := some r.toBlock
              queryName := r.queryName
              queryType := r.queryType
              responseType := r.responseType
              freshness := r.freshness
              rrs := s.rrs ++ r.rrs.map
                (Response.received s.rrLabel s.rrType) }) := by
  have hcontent :=
    lt_of_le_of_lt (K.content_le (tool.updated inner).packet) hfits
  have hbounds : (0 : Int) ≤ 3600 ∧ (3600 : Int) < 2 ^ 63 := by decide
  exact Response.fromData_packet P (tool.updated inner) Response.init
    htool.id_updated_lt (htool.freshness_eq ▸ hbounds.1)
    (htool.freshness_eq ▸ hbounds.2) hcontent

variable {P : NameParser} {outer : Version} {lifetime : Int}

/-- The RRs of an Interest of the tool that is understood. -/
theorem rrs_of_fromInterest
    {understood : Bool} {q : QueryUpdate}
    (h : QueryUpdate.init.fromInterest P K
      ⟨updateName tool.zone.authorizedName (componentOfBlock
        (K.wireEncode (tool.updated inner).packet)) outer, lifetime⟩ =
          some (understood, q)) :
    MarkerExact tool.zone.authorizedName ∧
      ∃ s, Response.init.readName P
          (recordName tool.zone.authorizedName tool.rrLabel tool.rrType
            inner) = some s ∧
        q.update.rrs = (tool.updated inner).rrs.map
          (Response.received s.rrLabel s.rrType) := by
  by_cases hexact : MarkerExact tool.zone.authorizedName
  · obtain ⟨z, hint, hfrom⟩ := QueryUpdate.fromInterest_exact P K
      QueryUpdate.init lifetime hexact
    rw [hfrom, QueryUpdate.decodeUpdate_packet P QueryUpdate.init
      htool.encodable hfits] at h
    obtain ⟨decoded, hdecoded, h⟩ := Option.map_eq_some_iff.mp h
    obtain ⟨u, hu, rfl⟩ := Option.map_eq_some_iff.mp hdecoded
    rw [show QueryUpdate.init.update = Response.init from rfl,
      htool.fromData_updated hfits P] at hu
    obtain ⟨s, hs, rfl⟩ := Option.map_eq_some_iff.mp hu
    obtain ⟨-, rfl⟩ := Prod.mk.inj h
    refine ⟨hexact, s, hs, ?_⟩
    simp [QueryUpdate.readAs, Response.readName_rrs hs, Response.init]
  · rw [QueryUpdate.fromInterest_of_not_exact P K _ _ hexact] at h
    exact absurd h (by simp)

theorem exists_fromInterest
    {s : Response} (hexact : MarkerExact tool.zone.authorizedName)
    (hs : Response.init.readName P
      (recordName tool.zone.authorizedName tool.rrLabel tool.rrType
        inner) = some s) :
    ∃ q, QueryUpdate.init.fromInterest P K
        ⟨updateName tool.zone.authorizedName (componentOfBlock
          (K.wireEncode (tool.updated inner).packet)) outer, lifetime⟩ =
            some (true, q) ∧
      q.update.rrs = (tool.updated inner).rrs.map
        (Response.received s.rrLabel s.rrType) := by
  obtain ⟨z, hint, hfrom⟩ := QueryUpdate.fromInterest_exact P K
    QueryUpdate.init lifetime hexact
  rw [hfrom, QueryUpdate.decodeUpdate_packet P QueryUpdate.init
    htool.encodable hfits, show QueryUpdate.init.update = Response.init
    from rfl, htool.fromData_updated hfits P, hs]
  refine ⟨_, rfl, ?_⟩
  simp [QueryUpdate.readAs, Response.readName_rrs hs, Response.init]

end Ready

end Sending

section Delivery

variable (P : NameParser) (K : PacketCodec) (zone : Zone) (label : Name)
variable (type : RRType) (data : Bytes) (action : UpdateAction)
variable (inner outer : Version)

/-- The packet that the tool embeds. -/
def sent : Data :=
  ((init zone label type data action).updated inner).packet

/-- The packet is short enough to be written. -/
def Fits : Prop :=
  (K.wireEncode (sent zone label type data action inner)).value.length <
    2 ^ 64

variable {K zone label type data action inner}

theorem toInterest_init
    (hfits : Fits K zone label type data action inner) :
    ∃ tool', (init zone label type data action).toInterest K inner outer =
      some (⟨updateName zone.authorizedName (componentOfBlock
        (K.wireEncode (sent zone label type data action inner))) outer,
          4000⟩, tool') :=
  ⟨_, (ready_init zone label type data action).toInterest_eq hfits outer⟩

/-- The RR arrives if the packet is found and its name is read as it was
meant. -/
theorem delivers_iff_reads
    (hfits : Fits K zone label type data action inner) :
    (init zone label type data action).Delivers P K inner outer ↔
      MarkerExact zone.authorizedName ∧
        ∃ r, Response.init.readName P
            (recordName zone.authorizedName label type inner) = some r ∧
          r.rrLabel = label ∧ r.rrType = type := by
  have htool := ready_init zone label type data action
  obtain ⟨tool', hsend⟩ := toInterest_init outer hfits
  constructor
  · rintro ⟨interest, tool'', q, rr, hinterest, hread, hrrs, hl, ht, -, -⟩
    rw [hsend, Option.some.injEq, Prod.mk.injEq] at hinterest
    rw [← hinterest.1] at hread
    obtain ⟨hexact, r, hr, hmap⟩ := htool.rrs_of_fromInterest hfits hread
    obtain ⟨rfl, -⟩ := List.cons.inj (hrrs.symm.trans hmap)
    exact ⟨hexact, r, hr, hl, ht⟩
  · rintro ⟨hexact, r, hr, hl, ht⟩
    obtain ⟨q, hread, hmap⟩ :=
      htool.exists_fromInterest hfits hexact hr (P := P)
    exact ⟨_, tool', q, _, hsend, hread, hmap, hl, ht, rfl, rfl⟩

/-- The RR arrives exactly for the types of the query pattern, for labels
without a word in front of their last component, and for zones whose last
component with a marker at its end is the marker. -/
theorem delivers_iff
    (hlabel : label ≠ [])
    (hfits : Fits K zone label type data action inner) :
    (init zone label type data action).Delivers P K inner outer ↔
      type.isQueried = true ∧
        (∀ d ∈ label.dropLast, ¬ EndsInQueryWord d) ∧
        MarkerExact zone.authorizedName := by
  rw [delivers_iff_reads P outer hfits]
  constructor
  · rintro ⟨hexact, hread⟩
    obtain ⟨ht, hclean⟩ := (readName_iff P hexact hlabel inner).mp hread
    exact ⟨ht, hclean, hexact⟩
  · rintro ⟨ht, hclean, hexact⟩
    exact ⟨hexact,
      (readName_iff P hexact hlabel inner).mpr ⟨ht, hclean⟩⟩

end Delivery

section Hosts

/-- A signature with the type of a digest. -/
def digestSignature (_ : Data) : Bytes × Bytes :=
  ([27, 1, 0], List.replicate 32 0)

def firstVersion : Version :=
  ⟨[0xFD, 1], rfl⟩

/-- An update of the record `/www` of the zone `/net`. -/
def hostUpdate (type : RRType) : DynamicDNSUpdate :=
  init (Zone.ofName [ascii "net"]) [ascii "www"] type (ascii "/isp") .ADD

theorem fits_hostUpdate (type : RRType) :
    Fits (ndnCodec digestSignature) (Zone.ofName [ascii "net"])
      [ascii "www"] type (ascii "/isp") .ADD firstVersion := by
  unfold Fits
  cases type <;> decide +kernel

theorem delivers_iff_hostUpdate :
    (hostUpdate .TXT).Delivers uriParser (ndnCodec digestSignature)
      firstVersion firstVersion :=
  (delivers_iff uriParser firstVersion (by decide)
    (fits_hostUpdate .TXT)).mpr
      ⟨by decide, by decide, markerExact_of_forall (by decide)⟩

/-- An update of an address record arrives as one of the name servers of the
zone. -/
theorem hostUpdate_not_delivers :
    (hostUpdate .A).rrLabel ≠ [] ∧ (hostUpdate .A).rrType ≠ .UNKNOWN ∧
      (∃ interest tool' q,
        (hostUpdate .A).toInterest (ndnCodec digestSignature) firstVersion
          firstVersion = some (interest, tool') ∧
        QueryUpdate.init.fromInterest uriParser (ndnCodec digestSignature)
          interest = some (true, q) ∧
        q.update.rrs.map (fun rr =>
          (rr.rrset.label, rr.rrset.type, rr.rrData, rr.updateAction)) =
            [([], .NS, ascii "/isp", .ADD)]) ∧
      ¬ (hostUpdate .A).Delivers uriParser (ndnCodec digestSignature)
        firstVersion firstVersion := by
  have hfits := fits_hostUpdate .A
  have hread :
      Response.init.readName uriParser
        (recordName [ascii "net"] [ascii "www"] .A firstVersion) =
          some Response.init := by
    decide +kernel
  have hexact : MarkerExact [ascii "net"] :=
    markerExact_of_forall (by decide)
  obtain ⟨tool', hsend⟩ := toInterest_init firstVersion hfits
  obtain ⟨q, hfrom, hrrs⟩ :=
    (ready_init (Zone.ofName [ascii "net"]) [ascii "www"] .A (ascii "/isp")
      .ADD).exists_fromInterest hfits hexact hread
  refine ⟨by decide, by decide,
    ⟨_, tool', q, hsend, hfrom, by rw [hrrs]; rfl⟩, ?_⟩
  rw [hostUpdate, delivers_iff_reads uriParser firstVersion hfits]
  rintro ⟨-, r, hr, hl, -⟩
  rw [show Zone.authorizedName (Zone.ofName [ascii "net"]) =
    [ascii "net"] from rfl, hread, Option.some.injEq] at hr
  rw [← hr] at hl
  exact absurd hl (by decide)

end Hosts

end DynamicDNSUpdate

end Ndns

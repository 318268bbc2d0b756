import Ndns.Branches
import Ndns.DynamicDnsUpdate
import Ndns.Lib.Machine
import Ndns.NameCut

/-!
# Calls of the update tool

`DynamicDNSUpdate::toInterest` adds its RR to `m_update`, which stays: the next
call adds another one behind it.  `DyndnsMgr::update` on the server takes the
first RR of an update, which is then the one of the first call.

**Results.**
* `readName_iff_readable`: the inner names that are read as they were meant,
  without a label, too;
* `carries_iff`: what one call carries, whatever calls went before;
* `carries_throughout_iff`: the sequences of calls whose Interests all carry
  the one RR that was asked for.
-/

namespace Ndns

namespace DynamicDNSUpdate

/-- The setters and `toInterest`, with the versions of its two names. -/
inductive Call where
  | setZone (zone : Zone)
  | setRrLabel (rrLabel : Name)
  | setRrType (rrType : RRType)
  | setRrData (rrData : Bytes)
  | setAction (action : UpdateAction)
  | toInterest (inner outer : Version)

/-- The tool behind a call; a `toInterest` that throws has set the update. -/
def step (K : PacketCodec) : Call → DynamicDNSUpdate → DynamicDNSUpdate
  | .setZone zone, tool => { tool with zone := zone }
  | .setRrLabel rrLabel, tool => { tool with rrLabel := rrLabel }
  | .setRrType rrType, tool => { tool with rrType := rrType }
  | .setRrData rrData, tool => { tool with rrData := rrData }
  | .setAction action, tool => { tool with action := action }
  | .toInterest inner outer, tool =>
      match tool.toInterest K inner outer with
      | some (_, tool') => tool'
      | none =>
          { tool with
            update := tool.updated inner
            queryUpdate := tool.wrapped inner }

/-- The Interest of a call is decoded to exactly one RR, with what the tool
holds. -/
def Carries (P : NameParser) (K : PacketCodec) (tool : DynamicDNSUpdate)
    (inner outer : Version) : Prop :=
  ∃ interest tool' q rr,
    tool.toInterest K inner outer = some (interest, tool') ∧
      QueryUpdate.init.fromInterest P K interest = some (true, q) ∧
      q.update.rrs = [rr] ∧
      rr.zone.authorizedName = tool.zone.authorizedName ∧
      rr.rrset.label = tool.rrLabel ∧ rr.rrset.type = tool.rrType ∧
      rr.rrData = tool.rrData ∧ rr.updateAction = tool.action

/-- A call sends an Interest. -/
def Call.sends : Call → Bool
  | .toInterest _ _ => true
  | _ => false

/-- A condition on the calls that send. -/
def WhenSent (ok : Version → Version → DynamicDNSUpdate → Prop) :
    Call → DynamicDNSUpdate → Prop
  | .toInterest inner outer, tool => ok inner outer tool
  | _, _ => True

/-- The packet of a call is short enough to be written. -/
def PacketFits (K : PacketCodec) (inner : Version)
    (tool : DynamicDNSUpdate) : Prop :=
  (K.wireEncode (tool.updated inner).packet).value.length < 2 ^ 64

/-- The packet is found in the outer name, and label and type are read from the
inner name as they were meant. -/
def Readable (tool : DynamicDNSUpdate) : Prop :=
  MarkerExact tool.zone.authorizedName ∧
    ((tool.rrLabel ≠ [] ∧ tool.rrType.isQueried = true ∧
        ∀ d ∈ tool.rrLabel.dropLast, ¬ EndsInQueryWord d) ∨
      (tool.rrLabel = [] ∧ tool.rrType = .NS ∧
        ∀ c ∈ tool.zone.authorizedName, ¬ EndsInQueryWord c))

section Reading

variable (P : NameParser) {zone : Name} {type : RRType}

/-- Without a label, a word of the zone has to stand in for the query type. -/
theorem spells_recordName_nil_iff
    (ht : type.isQueried = true) (version : Version) :
    Spells queryWords queryTypes (recordName zone [] type version) ↔
      ∃ c ∈ zone, EndsInQueryWord c := by
  have hname : recordName zone [] type version =
      ((zone ++ [QueryType.DNS.toString]) ++ [type.toString]) ++
        [version.component] := by
    simp [recordName]
  have htype : wordAt queryTypes (Component.toUri type.toString) ≠ none := by
    rw [(toUri_queryType ht).1, (toUri_queryType ht).2]
    simp
  rw [hname, spells_concat_of_none (queryType_version version),
    spells_concat_of_type htype, List.dropLast_concat]
  rfl

/-- A label that is read from a match is not empty. -/
theorem rrLabel_ne_nil_of_match
    {n : Name} {map : NameMap} {r : Response}
    (hmatch : matchQueryName n.toUri = some map)
    (h : Response.init.readName P n = some r) :
    r.rrLabel ≠ [] := by
  obtain ⟨k⟩ := exists_nameCut queryVocabulary (by decide +kernel) hmatch
  unfold Response.readName at h
  simp only [hmatch, Option.bind_eq_bind, Option.bind_eq_some_iff] at h
  obtain ⟨zone, -, label, hlabel, hint, -, h⟩ := h
  obtain rfl := Option.some.inj h
  rw [k.label_eq, P.ofUri_path k.label_ne_nil] at hlabel
  rw [← Option.some.inj hlabel]
  exact k.label_ne_nil

/-- An empty label is read as it was meant from a name that is not matched, with
the type that a new response has. -/
theorem readName_nil_iff (version : Version) :
    (∃ r, Response.init.readName P (recordName zone [] type version) =
        some r ∧ r.rrLabel = [] ∧ r.rrType = type) ↔
      type = .NS ∧ ∀ c ∈ zone, ¬ EndsInQueryWord c := by
  have hne : recordName zone [] type version ≠ [] := by
    simp [recordName]
  have hspells := matchName_isSome_iff queryVocabulary hne
  constructor
  · rintro ⟨r, hread, hlabel, htype⟩
    cases hmatch :
        matchQueryName (recordName zone [] type version).toUri with
    | some map =>
        exact absurd hlabel (rrLabel_ne_nil_of_match P hmatch hread)
    | none =>
        have hinit : r = Response.init := by
          unfold Response.readName at hread
          rw [hmatch] at hread
          exact (Option.some.inj hread).symm
        obtain rfl : type = .NS := by
          rw [← htype, hinit]
          rfl
        refine ⟨rfl, ?_⟩
        intro c hc hend
        have hsome := hspells.mpr
          ((spells_recordName_nil_iff rfl version).mpr ⟨c, hc, hend⟩)
        rw [show matchName queryWords queryTypes _ = none from hmatch]
          at hsome
        exact absurd hsome (by simp)
  · rintro ⟨rfl, hclean⟩
    have hmatch :
        matchQueryName (recordName zone [] .NS version).toUri = none := by
      rw [← Option.not_isSome_iff_eq_none]
      intro hsome
      obtain ⟨c, hc, hend⟩ :=
        (spells_recordName_nil_iff rfl version).mp (hspells.mp hsome)
      exact hclean c hc hend
    refine ⟨Response.init, ?_, rfl, rfl⟩
    unfold Response.readName
    rw [hmatch]

/-- The calls whose packet is found and whose inner name is read as it was
meant. -/
theorem readName_iff_readable
    (tool : DynamicDNSUpdate) (version : Version) :
    (MarkerExact tool.zone.authorizedName ∧
      ∃ r, Response.init.readName P
          (recordName tool.zone.authorizedName tool.rrLabel tool.rrType
            version) = some r ∧
        r.rrLabel = tool.rrLabel ∧ r.rrType = tool.rrType) ↔
      tool.Readable := by
  unfold Readable
  refine and_congr_right (fun hexact => ?_)
  by_cases hlabel : tool.rrLabel = []
  · rw [hlabel]
    simpa using readName_nil_iff P version
  · simpa [hlabel] using readName_iff P hexact hlabel version

end Reading

section Calls

variable {P : NameParser} {K : PacketCodec} {tool : DynamicDNSUpdate}

/-- The RR of a call stays in the update. -/
theorem update_step_toInterest
    (K : PacketCodec) (tool : DynamicDNSUpdate) (inner outer : Version) :
    (step K (.toInterest inner outer) tool).update = tool.updated inner := by
  cases h : tool.toInterest K inner outer with
  | none =>
      simp only [step, h]
  | some x =>
      simp only [step, h]
      unfold toInterest at h
      simp only [Option.bind_eq_bind, Option.bind_eq_some_iff] at h
      obtain ⟨iq, -, h⟩ := h
      obtain rfl := Option.some.inj h
      rfl

/-- A call of a tool that is ready keeps it ready. -/
theorem Ready.step
    (htool : tool.Ready) (call : Call)
    (hfits : WhenSent (fun inner _ tool => PacketFits K inner tool) call tool) :
    (step K call tool).Ready := by
  cases call with
  | toInterest inner outer =>
      have hupdate := update_step_toInterest K tool inner outer
      have hsend := htool.toInterest_eq hfits outer
      refine ⟨?_, ?_, ?_, ?_⟩
      · rw [hupdate]
        exact htool.wire_eq
      · rw [hupdate]
        exact htool.freshness_eq
      · rw [hupdate]
        exact htool.id_updated_lt
      · simp only [DynamicDNSUpdate.step, hsend]
        exact htool.hint_eq
  | _ =>
      exact ⟨htool.wire_eq, htool.freshness_eq, htool.id_lt,
        htool.hint_eq⟩

/-- A call carries its RR exactly if it is the first and can be read. -/
theorem carries_iff
    (htool : tool.Ready) {inner : Version} (outer : Version)
    (hfits : PacketFits K inner tool) :
    tool.Carries P K inner outer ↔
      tool.update.rrs = [] ∧ tool.Readable := by
  have hsend := htool.toInterest_eq hfits outer
  rw [← readName_iff_readable P tool inner]
  constructor
  · rintro ⟨interest, tool', q, rr, hinterest, hread, hone, -, hl, ht, -⟩
    rw [hsend, Option.some.injEq, Prod.mk.injEq] at hinterest
    rw [← hinterest.1] at hread
    obtain ⟨hexact, r, hr, hmap⟩ := htool.rrs_of_fromInterest hfits hread
    rw [hone] at hmap
    have hnil : tool.update.rrs = [] := by
      have hlength := congrArg List.length hmap
      simpa [updated, Response.addRr] using hlength
    have hrr : rr = Response.received r.rrLabel r.rrType tool.record := by
      simpa [updated, Response.addRr, hnil] using hmap
    refine ⟨hnil, hexact, r, hr, ?_, ?_⟩
    · rw [← hl, hrr]
      rfl
    · rw [← ht, hrr]
      rfl
  · rintro ⟨hnil, hexact, r, hr, hl, ht⟩
    obtain ⟨q, hread, hmap⟩ :=
      htool.exists_fromInterest hfits hexact hr (P := P)
    have hone : q.update.rrs =
        [Response.received r.rrLabel r.rrType tool.record] := by
      simpa [updated, Response.addRr, hnil] using hmap
    exact ⟨_, _, q, _, hsend, hread, hone, rfl, hl, ht, rfl, rfl⟩

/-- Only one call finds an update without RRs. -/
theorem along_unused_iff
    (K : PacketCodec) (calls : List Call) (tool : DynamicDNSUpdate) :
    Machine.Along (step K)
        (WhenSent fun _ _ tool => tool.update.rrs = []) calls tool ↔
      calls.countP Call.sends = 0 ∨
        (tool.update.rrs = [] ∧ calls.countP Call.sends ≤ 1) := by
  induction calls generalizing tool with
  | nil =>
      simp [Machine.Along]
  | cons call calls ih =>
      cases call with
      | toInterest inner outer =>
          have hne :
              (step K (.toInterest inner outer) tool).update.rrs ≠ [] := by
            rw [update_step_toInterest]
            simp [updated, Response.addRr]
          simp only [Machine.Along, ih, hne, false_and, or_false, WhenSent,
            List.countP_cons, Call.sends, if_true]
          constructor
          · rintro ⟨hnil, hzero⟩
            exact Or.inr ⟨hnil, by omega⟩
          · rintro (h | ⟨hnil, hone⟩)
            · omega
            · exact ⟨hnil, by omega⟩
      | _ =>
          simp only [Machine.Along, ih, WhenSent, true_and,
            List.countP_cons, Call.sends]
          rfl

/-- All Interests of a tool carry the RR that is asked for exactly if it sends
one at most, and that one is readable. -/
theorem carries_throughout_iff
    (P : NameParser) (K : PacketCodec) (zone : Zone) (rrLabel : Name)
    (rrType : RRType) (rrData : Bytes) (action : UpdateAction)
    (calls : List Call)
    (hfits : Machine.Along (step K)
      (WhenSent fun inner _ tool => PacketFits K inner tool) calls
      (init zone rrLabel rrType rrData action)) :
    Machine.Along (step K)
        (WhenSent fun inner outer tool => tool.Carries P K inner outer) calls
        (init zone rrLabel rrType rrData action) ↔
      calls.countP Call.sends ≤ 1 ∧
        Machine.Along (step K) (WhenSent fun _ _ tool => tool.Readable) calls
          (init zone rrLabel rrType rrData action) := by
  have hready := ready_init zone rrLabel rrType rrData action
  have hkeep : ∀ call tool,
      WhenSent (fun inner _ tool => PacketFits K inner tool) call tool →
        Ready tool → (step K call tool).Ready :=
    fun call tool hcall htool => htool.step call hcall
  have hone : ∀ call tool,
      WhenSent (fun inner _ tool => PacketFits K inner tool) call tool →
        Ready tool →
      (WhenSent (fun inner outer tool => tool.Carries P K inner outer) call
          tool ↔
        WhenSent (fun _ _ tool => tool.update.rrs = []) call tool ∧
          WhenSent (fun _ _ tool => tool.Readable) call tool) := by
    intro call tool hcall htool
    cases call with
    | toInterest inner outer =>
        exact carries_iff htool outer hcall
    | _ =>
        exact ⟨fun _ => ⟨trivial, trivial⟩, fun _ => trivial⟩
  rw [Machine.along_congr hkeep hone hfits hready, Machine.along_and_iff,
    along_unused_iff]
  have hnil : (init zone rrLabel rrType rrData action).update.rrs = [] := rfl
  refine and_congr_left (fun _ => ?_)
  constructor
  · rintro (hzero | ⟨-, hone⟩)
    · omega
    · exact hone
  · intro hone
    exact Or.inr ⟨hnil, hone⟩

end Calls

section Instances

/-- The data is set before the Interest. -/
def newCalls : List Call :=
  [.setRrData (ascii "/new"), .toInterest firstVersion firstVersion]

/-- The tool behind one Interest, with new data. -/
def usedTool : DynamicDNSUpdate :=
  Machine.final (step (ndnCodec digestSignature))
    [.toInterest firstVersion firstVersion, .setRrData (ascii "/new")]
    (hostUpdate .TXT)

theorem fits_newCalls :
    Machine.Along (step (ndnCodec digestSignature))
      (WhenSent fun inner _ tool =>
        PacketFits (ndnCodec digestSignature) inner tool) newCalls
      (hostUpdate .TXT) := by
  refine ⟨trivial, ?_, trivial⟩
  show (Tlv.Block.value _).length < 2 ^ 64
  decide +kernel

theorem fits_usedTool :
    PacketFits (ndnCodec digestSignature) firstVersion usedTool := by
  unfold PacketFits
  decide +kernel

theorem carries_throughout_iff_newCalls :
    Machine.Along (step (ndnCodec digestSignature))
      (WhenSent fun inner outer tool =>
        tool.Carries uriParser (ndnCodec digestSignature) inner outer)
      newCalls (hostUpdate .TXT) :=
  (carries_throughout_iff uriParser (ndnCodec digestSignature)
    (Zone.ofName [ascii "net"]) [ascii "www"] .TXT (ascii "/isp") .ADD
    newCalls fits_newCalls).mpr
      ⟨by decide, trivial,
        ⟨markerExact_of_forall (by decide),
          Or.inl ⟨by decide, by decide, by decide⟩⟩, trivial⟩

theorem ready_usedTool : usedTool.Ready := by
  have hready := ready_init (Zone.ofName [ascii "net"]) [ascii "www"] .TXT
    (ascii "/isp") .ADD
  have hsent := hready.step (K := ndnCodec digestSignature)
    (.toInterest firstVersion firstVersion) (fits_hostUpdate .TXT)
  exact hsent.step (K := ndnCodec digestSignature)
    (.setRrData (ascii "/new")) trivial

/-- The second Interest brings the old RR in front of the new one. -/
theorem laterCalls_not_carried :
    (∃ interest tool' q,
      usedTool.toInterest (ndnCodec digestSignature) firstVersion
          firstVersion = some (interest, tool') ∧
        QueryUpdate.init.fromInterest uriParser (ndnCodec digestSignature)
          interest = some (true, q) ∧
        usedTool.rrData = ascii "/new" ∧
        q.update.rrs.map RR.rrData = [ascii "/isp", ascii "/new"]) ∧
      ¬ Machine.Along (step (ndnCodec digestSignature))
        (WhenSent fun inner outer tool =>
          tool.Carries uriParser (ndnCodec digestSignature) inner outer)
        (.toInterest firstVersion firstVersion :: newCalls)
        (hostUpdate .TXT) := by
  have hready := ready_usedTool
  have hfields : usedTool.zone.authorizedName = [ascii "net"] ∧
      usedTool.rrLabel = [ascii "www"] ∧ usedTool.rrType = .TXT ∧
      usedTool.rrData = ascii "/new" ∧
      (usedTool.updated firstVersion).rrs.map RR.rrData =
        [ascii "/isp", ascii "/new"] := by
    decide +kernel
  obtain ⟨hname, hlabel, htype, hdata, hrrs⟩ := hfields
  have hreadable : usedTool.Readable := by
    unfold Readable
    rw [hname, hlabel, htype]
    exact ⟨markerExact_of_forall (by decide),
      Or.inl ⟨by decide, by decide, by decide⟩⟩
  obtain ⟨hexact, s, hs, -⟩ :=
    (readName_iff_readable uriParser usedTool firstVersion).mpr hreadable
  obtain ⟨q, hread, hmap⟩ :=
    hready.exists_fromInterest fits_usedTool hexact hs
  refine ⟨⟨_, _, q, hready.toInterest_eq fits_usedTool firstVersion, hread,
    hdata, ?_⟩, ?_⟩
  · rw [hmap, List.map_map]
    exact hrrs
  · rintro ⟨-, -, hsecond, -⟩
    have hnil :=
      ((carries_iff hready firstVersion fits_usedTool).mp hsecond).1
    have hlength := congrArg List.length hrrs
    rw [List.length_map] at hlength
    simp [updated, Response.addRr, hnil] at hlength

end Instances

end DynamicDNSUpdate

end Ndns

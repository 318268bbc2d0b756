import Ndns.Lib.Focus
import Ndns.QueryVerdicts

/-!
# The database files of the name server

Every manager is a `DBMgr` with the path of a file.  The constructor sets the
path of `ndns-local.db`.  The name server passes the file that it is constructed
with to its zone manager and to no other: the managers of a query and of an
update, and the managers inside these, are constructed anew for each Interest.

**Results.**
* `onInterest_eq`: an Interest is handled on the file of `ndns-local.db`;
* `confined_iff`: a server that depends on the file that it is constructed with,
  and on no other, is one of this file.
-/

namespace Ndns

open Effect

/-- What is stored in files, by their paths. -/
abbrev Files := Bytes → Disk

abbrev FilesM := EStateM Bytes Files

/-- The part of a manager that is a `DBMgr`. -/
structure DBMgr where
  dbfile : Bytes
deriving DecidableEq

namespace DBMgr

/-- `DBMgr::DBMgr` -/
def init : DBMgr where
  dbfile := ascii "src/db/ndns-local.db"

def setDbfile (mgr : DBMgr) (dbfile : Bytes) : DBMgr :=
  { mgr with dbfile := dbfile }

/-- Statements on the file that a manager opens. -/
def execute {α : Type} (S : Bytes → Sqlite) (mgr : DBMgr)
    (m : Sqlite → DbM α) : FilesM α :=
  focus mgr.dbfile (m (S mgr.dbfile))

end DBMgr

namespace DbFiles

variable (P : NameParser) (S : Bytes → Sqlite) (K : PacketCodec)

/-- `QueryMgr`, with `m_rrsetMgr`. -/
structure QueryMgr extends DBMgr where
  rrsetMgr : DBMgr

namespace QueryMgr

def init : QueryMgr where
  toDBMgr := DBMgr.init
  rrsetMgr := DBMgr.init

/-- `QueryMgr::lookup` -/
def lookup (mgr : QueryMgr) (zone : Zone) (query : Query)
    (response : Response) : FilesM Response := do
  let label ← mgr.execute S (fun _ => nameOfUri P query.rrLabel.toUri)
  let rrset ← mgr.rrsetMgr.execute S (fun S => RRSetMgr.lookupIds S
    { RRSet.ofZone zone with
      label := label
      type := query.rrType })
  let rows ← mgr.execute S
    (fun S => executeOnly S (.selectRrs rrset.id))
  return response.setRrs (rows.map (Ndns.QueryMgr.callbackGetRr rrset))

/-- `QueryMgr::hasAuth` -/
def hasAuth (mgr : QueryMgr) (zone : Zone) (query : Query) :
    FilesM Int :=
  mgr.execute S (fun S => Ndns.QueryMgr.hasAuth S zone query)

end QueryMgr

/-- The managers of `DyndnsMgr::update`. -/
structure UpdateMgrs where
  rrsetMgr : DBMgr
  rrMgr : DBMgr

namespace UpdateMgrs

def init : UpdateMgrs where
  rrsetMgr := DBMgr.init
  rrMgr := DBMgr.init

/-- The branches of `DyndnsMgr::update`, behind the look-ups. -/
def act (mgrs : UpdateMgrs) (rrset : RRSet) (rr : RR) : FilesM RR :=
  let insertRrset := mgrs.rrsetMgr.execute S
    (fun S => RRSetMgr.insert S rrset)
  let insertRr := fun rr => mgrs.rrMgr.execute S
    (fun S => RRMgr.insert S rr)
  match rr.updateAction with
  | .NONE => return rr
  | .ADD =>
      if rr.id ≠ 0 then return rr
      else if rrset.id = 0 then do
        let rrset ← insertRrset
        insertRr (rr.setRrset rrset)
      else insertRr rr
  | .REMOVE =>
      if rr.id > 0 then do
        mgrs.rrMgr.execute S (fun S => RRMgr.remove S rr)
        return rr
      else return rr
  | .REPLACE_ALL =>
      if rrset.id > 0 then do
        mgrs.rrsetMgr.execute S
          (fun S => RRSetMgr.removeRelatedRRs S rrset)
        insertRr rr
      else do
        let rrset ← insertRrset
        insertRr (rr.setRrset rrset)
  | .REPLACE => throw (ascii "Not support " ++ rr.updateAction.toString)
  | .UNKNOWN => throw (ascii "Not support " ++ rr.updateAction.toString)

/-- `DyndnsMgr::update` on the first RR of the message. -/
def updateRr (mgrs : UpdateMgrs) (zone : Zone) (rr : RR) : FilesM RR := do
  let rr := rr.setZone zone
  let rrset ← mgrs.rrsetMgr.execute S
    (fun S => RRSetMgr.lookupIds S rr.rrset)
  let rr ← mgrs.rrMgr.execute S
    (fun S => RRMgr.lookupIds S (rr.setRrset rrset))
  mgrs.act S rrset rr

end UpdateMgrs

/-- `DyndnsMgr::update` -/
def update (zone : Zone) (queryUpdate : QueryUpdate) (files : Files) :
    Outcome QueryUpdate × Files :=
  match queryUpdate.update.rrs with
  | [] => (.undefined, files)
  | rr :: rrs =>
      match (UpdateMgrs.init.updateRr S zone rr).run files with
      | .ok rr files =>
          (.returned { queryUpdate with
            update := queryUpdate.update.setRrs (rr :: rrs) }, files)
      | .error _ files => (.terminated, files)

/-- `NameServer`, with `m_zoneMgr`. -/
structure NameServer extends Ndns.NameServer where
  zoneMgr : DBMgr

namespace NameServer

/-- `NameServer::NameServer` -/
def init (nameZone : Name) (dbfile : Bytes) : NameServer where
  toNameServer := Ndns.NameServer.ofZone (Zone.ofName nameZone)
  zoneMgr := DBMgr.init.setDbfile dbfile

variable (server : NameServer)

/-- The branch of an update. -/
def onUpdate (interest : Interest) (files : Files) :
    Outcome (List Data) × Files :=
  match QueryUpdate.init.fromInterest P K interest with
  | none => (.threw [], files)
  | some (_, queryUpdate) =>
      match update S server.zone
          (queryUpdate.setUpdateZone server.zone) files with
      | (.returned _, files) =>
          (NameServer.putUpdate (server.updateReply interest .DyNDNS_OK
            (ascii "OK")), files)
      | (.threw what, files) =>
          (NameServer.putUpdate (server.updateReply interest .DyNDNS_FAIL
            (ascii "Failed: " ++ Sql.cString what)), files)
      | (.terminated, files) => (.terminated, files)
      | (.undefined, files) => (.undefined, files)

/-- The response that is put, if one is. -/
def answer (query : Query) (response : Response) :
    FilesM (Option Response) := do
  let mgr := QueryMgr.init
  let response ← mgr.lookup P S server.zone query response
  if response.rrs.length > 0 then
    return some { response with responseType := .NDNS_Resp }
  else if query.rrType = .NS then do
    let count ← mgr.hasAuth S server.zone query
    if count < 0 then
      return none
    else if count > 0 then
      return some { response with responseType := .NDNS_Auth }
    else
      return some { response with responseType := .NDNS_Nack }
  else
    return some { response with responseType := .NDNS_Nack }

/-- The branch of a query. -/
def onQuery (version : Version) (interest : Interest) (files : Files) :
    Outcome (List Data) × Files :=
  match Query.init.fromInterest P interest with
  | none => (.threw [], files)
  | some (_, query) =>
      match (server.answer P S query
          (server.queryReply version interest)).run files with
      | .error what files => (.threw what, files)
      | .ok none files => (.returned [], files)
      | .ok (some response) files =>
          (NameServer.put response.freshness response.toData, files)

/-- `NameServer::onInterest` -/
def onInterest (version : Version) (interest : Interest) (files : Files) :
    Outcome (List Data) × Files :=
  if (matchUpdateName interest.name.toUri).isSome then
    server.onUpdate P S K interest files
  else if (matchQueryName interest.name.toUri).isSome then
    server.onQuery P S version interest files
  else
    (.returned [], files)

/-- Interests one after the other.  The first exception ends `processEvents`. -/
def processEvents :
    List (Version × Interest) → Files → List (Outcome (List Data)) × Files
  | [], files => ([], files)
  | (version, interest) :: rest, files =>
      match server.onInterest P S K version interest files with
      | (.returned puts, files) =>
          let (outcomes, files) := processEvents rest files
          (.returned puts :: outcomes, files)
      | (outcome, files) => ([outcome], files)

/-- `NameServer::run`, with the Interests that come before it stops.  It stops
for a zone that is not found, too, which keeps the id zero. -/
def run (interests : List (Version × Interest)) (files : Files) :
    List (Outcome (List Data)) × Files :=
  match (server.zoneMgr.execute S
      (fun S => ZoneMgr.lookupId S server.zone)).run files with
  | .error what files => ([.threw what], files)
  | .ok (zone, _) files =>
      NameServer.processEvents P S K
        { server with toNameServer := { server.toNameServer with
          zone := zone } } interests files

end NameServer

section LocalFile

/-- `ndns-local.db` -/
abbrev localFile : Bytes := DBMgr.init.dbfile

variable {P} {S} {K}

theorem QueryMgr.lookup_eq (zone : Zone) (query : Query) (response : Response) :
    QueryMgr.init.lookup P S zone query response =
      focus localFile
        (Ndns.QueryMgr.lookup P (S localFile) zone query response) := by
  simp only [Ndns.QueryMgr.lookup, focus_bind, focus_pure]
  rfl

theorem UpdateMgrs.act_eq (rrset : RRSet) (rr : RR) :
    UpdateMgrs.init.act S rrset rr =
      focus localFile (DyndnsMgr.act (S localFile) rrset rr) := by
  unfold UpdateMgrs.act DyndnsMgr.act
  cases rr.updateAction with
  | NONE =>
      exact (focus_pure _ _).symm
  | ADD =>
      dsimp only
      split_ifs
      · exact (focus_pure _ _).symm
      · rw [focus_bind]
        rfl
      · rfl
  | REMOVE =>
      dsimp only
      split_ifs
      · rw [focus_bind]
        simp only [focus_pure]
        rfl
      · exact (focus_pure _ _).symm
  | REPLACE_ALL =>
      dsimp only
      split_ifs
      · rw [focus_bind]
        rfl
      · rw [focus_bind]
        rfl
  | REPLACE =>
      exact (focus_throw _ _).symm
  | UNKNOWN =>
      exact (focus_throw _ _).symm

theorem UpdateMgrs.updateRr_eq (zone : Zone) (rr : RR) :
    UpdateMgrs.init.updateRr S zone rr =
      focus localFile (DyndnsMgr.updateRr (S localFile) zone rr) := by
  simp only [UpdateMgrs.updateRr, UpdateMgrs.act_eq, DyndnsMgr.updateRr,
    focus_bind]
  rfl

/-- An update is made in the file of `ndns-local.db`. -/
theorem update_eq (zone : Zone) (queryUpdate : QueryUpdate) (files : Files) :
    update S zone queryUpdate files =
      focusStep localFile
        (DyndnsMgr.update (S localFile) zone queryUpdate) files := by
  unfold update DyndnsMgr.update focusStep
  cases queryUpdate.update.rrs with
  | nil =>
      simp
  | cons rr rrs =>
      simp only [UpdateMgrs.updateRr_eq, run_focus]
      cases (DyndnsMgr.updateRr (S localFile) zone rr).run
          (files localFile) with
      | ok rr d =>
          rfl
      | error e d =>
          rfl

namespace NameServer

variable (server : NameServer) (version : Version) (interest : Interest)
variable (files : Files)

theorem answer_eq (query : Query) (response : Response) :
    server.answer P S query response =
      focus localFile (Ndns.NameServer.answer P (S localFile)
        server.toNameServer query response) := by
  unfold answer Ndns.NameServer.answer
  rw [focus_bind]
  simp only [QueryMgr.lookup_eq]
  congr 1
  funext response
  split_ifs
  · exact (focus_pure _ _).symm
  · rw [focus_bind]
    congr 1
    funext count
    split_ifs
    · exact (focus_pure _ _).symm
    · exact (focus_pure _ _).symm
    · exact (focus_pure _ _).symm
  · exact (focus_pure _ _).symm

theorem onUpdate_eq :
    server.onUpdate P S K interest files =
      focusStep localFile (Ndns.NameServer.onUpdate P (S localFile) K
        server.toNameServer interest) files := by
  unfold onUpdate Ndns.NameServer.onUpdate focusStep
  cases QueryUpdate.init.fromInterest P K interest with
  | none =>
      simp
  | some x =>
      simp only [update_eq, focusStep]
      cases DyndnsMgr.update (S localFile) server.zone
          (x.2.setUpdateZone server.zone) (files localFile) with
      | mk outcome d =>
          cases outcome <;> rfl

theorem onQuery_eq :
    server.onQuery P S version interest files =
      focusStep localFile (Ndns.NameServer.onQuery P (S localFile)
        server.toNameServer version interest) files := by
  unfold onQuery Ndns.NameServer.onQuery focusStep
  cases Query.init.fromInterest P interest with
  | none =>
      simp
  | some x =>
      simp only [answer_eq, run_focus]
      cases (Ndns.NameServer.answer P (S localFile) server.toNameServer x.2
          (server.queryReply version interest)).run (files localFile) with
      | ok response d =>
          cases response <;> rfl
      | error e d =>
          rfl

/-- An Interest is handled on the file of `ndns-local.db`. -/
theorem onInterest_eq :
    server.onInterest P S K version interest files =
      focusStep localFile (Ndns.NameServer.onInterest P (S localFile) K
        server.toNameServer version interest) files := by
  unfold onInterest Ndns.NameServer.onInterest
  split_ifs
  · exact onUpdate_eq server interest files
  · exact onQuery_eq server version interest files
  · simp [focusStep]

/-- Interests are handled alike on files that agree at the path of
`ndns-local.db`. -/
theorem processEvents_congr
    (interests : List (Version × Interest)) {files files' : Files}
    (h : files localFile = files' localFile) :
    (NameServer.processEvents P S K server interests files).1 =
        (NameServer.processEvents P S K server interests files').1 ∧
      (NameServer.processEvents P S K server interests files).2 localFile =
        (NameServer.processEvents P S K server interests files').2
          localFile := by
  induction interests generalizing files files' with
  | nil =>
      exact ⟨rfl, h⟩
  | cons i rest ih =>
      obtain ⟨version, interest⟩ := i
      have hstep := focusStep_congr
        (Ndns.NameServer.onInterest P (S localFile) K
          server.toNameServer version interest) h
      rw [← onInterest_eq server version interest files,
        ← onInterest_eq server version interest files'] at hstep
      obtain ⟨houtcome, hnext⟩ := hstep
      unfold processEvents
      cases hrun : server.onInterest P S K version interest files with
      | mk outcome next =>
          cases hrun' : server.onInterest P S K version interest files' with
          | mk outcome' next' =>
              rw [hrun, hrun'] at houtcome hnext
              obtain rfl : outcome = outcome' := houtcome
              cases outcome with
              | returned puts =>
                  obtain ⟨hrest, hlast⟩ := ih hnext
                  exact ⟨congrArg (_ :: ·) hrest, hlast⟩
              | threw what =>
                  exact ⟨rfl, hnext⟩
              | terminated =>
                  exact ⟨rfl, hnext⟩
              | undefined =>
                  exact ⟨rfl, hnext⟩

/-- No Interest changes another file. -/
theorem processEvents_other
    (interests : List (Version × Interest)) (files : Files)
    {path : Bytes} (h : path ≠ localFile) :
    (NameServer.processEvents P S K server interests files).2 path =
      files path := by
  induction interests generalizing files with
  | nil =>
      rfl
  | cons i rest ih =>
      obtain ⟨version, interest⟩ := i
      have hstep := focusStep_other
        (Ndns.NameServer.onInterest P (S localFile) K
          server.toNameServer version interest) files h
      rw [← onInterest_eq server version interest files] at hstep
      unfold processEvents
      cases hrun : server.onInterest P S K version interest files with
      | mk outcome next =>
          rw [hrun] at hstep
          cases outcome with
          | returned puts =>
              exact (ih next).trans hstep
          | threw what =>
              exact hstep
          | terminated =>
              exact hstep
          | undefined =>
              exact hstep

end NameServer

section Confinement

variable (P S K)

/-- A server depends on a file, and on no other. -/
structure Confined (server : NameServer) (d : Bytes) : Prop where
  replies : ∀ interests (files files' : Files), files d = files' d →
    (server.run P S K interests files).1 =
      (server.run P S K interests files').1
  stored : ∀ interests (files files' : Files), files d = files' d →
    ((server.run P S K interests files).2 d).db =
      ((server.run P S K interests files').2 d).db
  others : ∀ interests (files : Files) (path : Bytes), path ≠ d →
    ((server.run P S K interests files).2 path).db = (files path).db

variable {P S K}

/-- The server of `ndns-local.db` depends on this file. -/
theorem confined_localFile (nameZone : Name) :
    Confined P S K (NameServer.init nameZone localFile) localFile := by
  have hagree (interests : List (Version × Interest))
      (files files' : Files) (h : files localFile = files' localFile) :
      ((NameServer.init nameZone localFile).run P S K interests files).1 =
          ((NameServer.init nameZone localFile).run P S K interests
            files').1 ∧
        ((NameServer.init nameZone localFile).run P S K interests
            files).2 localFile =
          ((NameServer.init nameZone localFile).run P S K interests
            files').2 localFile := by
    unfold NameServer.run DBMgr.execute
    simp only [run_focus, NameServer.init, DBMgr.setDbfile, h]
    cases (ZoneMgr.lookupId (S localFile) _).run (files' localFile) with
    | ok x d =>
        exact NameServer.processEvents_congr _ interests (by simp)
    | error e d =>
        exact ⟨rfl, by simp⟩
  constructor
  · intro interests files files' h
    exact (hagree interests files files' h).1
  · intro interests files files' h
    exact congrArg Disk.db (hagree interests files files' h).2
  · intro interests files path hpath
    unfold NameServer.run DBMgr.execute
    simp only [run_focus, NameServer.init, DBMgr.setDbfile]
    cases (ZoneMgr.lookupId (S localFile) _).run (files localFile) with
    | ok x d =>
        dsimp only
        rw [NameServer.processEvents_other _ interests _ hpath,
          Function.update_of_ne hpath]
    | error e d =>
        dsimp only
        rw [Function.update_of_ne hpath]

end Confinement

section OtherFile

open DyndnsMgr DynamicDNSUpdate

variable {d : Bytes} {nameZone : Name}

/-- A zone with the id 2, and nothing else. -/
def zoneDb (nameZone : Name) : Db :=
  { Db.empty with
    zones := ⟨[(2, nameZone.toUri)], List.pairwise_singleton _ _,
      List.forall_mem_singleton.mpr Nat.two_pos,
      List.forall_mem_singleton.mpr (show 2 < rowidLimit by decide)⟩
    zones_unique := fun _ hr _ hs _ =>
      (List.mem_singleton.mp hr).trans (List.mem_singleton.mp hs).symm }

def zoneDisk (nameZone : Name) : Disk where
  db := zoneDb nameZone
  executed := 0
  lastInsertRowid := 0

/-- The zone in every file, with a name server at one label in
`ndns-local.db`. -/
def filesWith (nameZone : Name) (label : Bytes) : Files := fun path =>
  if path = localFile then Ndns.NameServer.delegationDisk label
  else zoneDisk nameZone

theorem filesWith_other (hd : d ≠ localFile) (label : Bytes) :
    filesWith nameZone label d = zoneDisk nameZone :=
  if_neg hd

/-- The zone as it is found. -/
def foundZone (nameZone : Name) : Zone where
  id := 2
  authorizedName := nameZone

theorem lookupId_zoneDisk :
    (ZoneMgr.lookupId reliable (Zone.ofName nameZone)).run
        (zoneDisk nameZone) =
      .ok (foundZone nameZone, 1) (zoneDisk nameZone).next := by
  have hids : (zoneDb nameZone).zoneIds nameZone = [2] := by
    simp [Db.zoneIds, Table.ids, zoneDb]
  have hsent : (executeOnly reliable (.selectZoneId nameZone)).run
      (zoneDisk nameZone) = .ok (Db.idRows ((zoneDb nameZone).zoneIds
        nameZone)) (zoneDisk nameZone).next :=
    executeOnly_ok reliable
      (show (Stmt.selectZoneId nameZone).Clean from trivial) rfl rfl
  rw [ZoneMgr.lookupId, EStateM.run_bind]
  rw [show (Zone.ofName nameZone).authorizedName = nameZone from rfl, hsent]
  dsimp only
  rw [foldl_zoneIds, hids]
  rfl

/-- The zone is found in the file that the server is constructed with. -/
theorem lookupId_filesWith (hd : d ≠ localFile) (label : Bytes) :
    ((NameServer.init nameZone d).zoneMgr.execute
      (fun _ => reliable) (fun S => ZoneMgr.lookupId S
        (Zone.ofName nameZone))).run (filesWith nameZone label) =
      .ok (foundZone nameZone, 1) (Function.update
        (filesWith nameZone label) d (zoneDisk nameZone).next) := by
  have hfocus := run_focus d (ZoneMgr.lookupId reliable
    (Zone.ofName nameZone)) (filesWith nameZone label)
  rw [filesWith_other hd, lookupId_zoneDisk] at hfocus
  exact hfocus

theorem run_of_lookupId
    {server : NameServer} {interests : List (Version × Interest)}
    {files files' : Files} {zone : Zone} {n : Nat}
    (h : (server.zoneMgr.execute S
      (fun S => ZoneMgr.lookupId S server.zone)).run files =
        .ok (zone, n) files') :
    server.run P S K interests files =
      NameServer.processEvents P S K
        { server with toNameServer := { server.toNameServer with
          zone := zone } } interests files' := by
  unfold NameServer.run
  rw [h]

theorem processEvents_singleton
    (server : NameServer) (version : Version) (interest : Interest)
    (files : Files) :
    (NameServer.processEvents P S K server [(version, interest)]
      files).1 =
        [(Ndns.NameServer.onInterest P (S localFile) K
          server.toNameServer version interest (files localFile)).1] := by
  rw [NameServer.processEvents, NameServer.onInterest_eq, focusStep]
  cases (Ndns.NameServer.onInterest P (S localFile) K server.toNameServer
      version interest (files localFile)).1 <;> rfl

/-- The server of the zone. -/
def zoneServer (nameZone : Name) : Ndns.NameServer :=
  .ofZone (foundZone nameZone)

/-- One query is answered out of `ndns-local.db`. -/
theorem run_hostQuery (hd : d ≠ localFile) (label : Bytes) :
    ((NameServer.init nameZone d).run uriParser (fun _ => reliable)
      (ndnCodec digestSignature)
        [(firstVersion, Ndns.NameServer.hostQuery.toInterest)]
        (filesWith nameZone label)).1 =
      [(Ndns.NameServer.onInterest uriParser reliable
        (ndnCodec digestSignature) (zoneServer nameZone) firstVersion
        Ndns.NameServer.hostQuery.toInterest
          (Ndns.NameServer.delegationDisk label)).1] := by
  have hlocal : Function.update (filesWith nameZone label) d
      (zoneDisk nameZone).next localFile =
        Ndns.NameServer.delegationDisk label := by
    rw [Function.update_of_ne (Ne.symm hd)]
    exact if_pos rfl
  rw [run_of_lookupId (lookupId_filesWith hd label), processEvents_singleton,
    hlocal]
  rfl

/-- The reply without RRs does not depend on the name of the zone. -/
theorem exists_reply_zoneServer
    (nameZone : Name) (label : Bytes) (type : ResponseType)
    (hfound : QueryMgr.found (foundZone nameZone)
      Ndns.NameServer.hostQuery
        (Ndns.NameServer.delegationDisk label).db = [])
    (htype : Ndns.NameServer.replyType (zoneServer nameZone)
      Ndns.NameServer.hostQuery
        (Ndns.NameServer.delegationDisk label).db = type)
    (hsql : (reliable.execute (Ndns.NameServer.queryPlan
      (zoneServer nameZone) Ndns.NameServer.hostQuery
        (Ndns.NameServer.delegationDisk label).db)
          (Ndns.NameServer.delegationDisk label)).isSome) :
    ∃ data re,
      (Ndns.NameServer.onInterest uriParser reliable
        (ndnCodec digestSignature) (zoneServer nameZone) firstVersion
        Ndns.NameServer.hostQuery.toInterest
          (Ndns.NameServer.delegationDisk label)).1 = .returned [data] ∧
      Response.init.wireDecode uriParser data.content = some re ∧
      re.responseType = type := by
  have hfits : (Ndns.NameServer.answered (zoneServer nameZone)
      Ndns.NameServer.hostQuery ((zoneServer nameZone).queryReply
        firstVersion Ndns.NameServer.hostQuery.toInterest)
      (Ndns.NameServer.delegationDisk label).db
        type).toBlock.value.length < 2 ^ 64 := by
    have hsame : Ndns.NameServer.answered (zoneServer nameZone)
        Ndns.NameServer.hostQuery ((zoneServer nameZone).queryReply
          firstVersion Ndns.NameServer.hostQuery.toInterest)
        (Ndns.NameServer.delegationDisk label).db type =
      { (Ndns.NameServer.netServer.queryReply firstVersion
          Ndns.NameServer.hostQuery.toInterest).setRrs [] with
        responseType := type } := by
      rw [Ndns.NameServer.answered, ← hfound]
      rfl
    rw [hsame]
    cases type <;> decide
  rw [← htype] at hfits ⊢
  obtain ⟨data, re, hputs, hdecode, hre, -⟩ :=
    Ndns.NameServer.exists_reply (K := ndnCodec digestSignature)
      Ndns.NameServer.branch_hostQuery.1 Ndns.NameServer.branch_hostQuery.2
      Ndns.NameServer.fromInterest_hostQuery hsql hfits
  exact ⟨data, re, hputs, hdecode, hre⟩

/-- A name server below the label, and one elsewhere. -/
theorem run_filesWith_ne (hd : d ≠ localFile) :
    ((NameServer.init nameZone d).run uriParser (fun _ => reliable)
      (ndnCodec digestSignature)
        [(firstVersion, Ndns.NameServer.hostQuery.toInterest)]
        (filesWith nameZone (ascii "/host/x"))).1 ≠
    ((NameServer.init nameZone d).run uriParser (fun _ => reliable)
      (ndnCodec digestSignature)
        [(firstVersion, Ndns.NameServer.hostQuery.toInterest)]
        (filesWith nameZone (ascii "/other"))).1 := by
  rw [run_hostQuery hd, run_hostQuery hd]
  obtain ⟨data, re, hputs, hdecode, hre⟩ :=
    exists_reply_zoneServer nameZone (ascii "/host/x") .NDNS_Auth
      rfl rfl rfl
  obtain ⟨data', re', hputs', hdecode', hre'⟩ :=
    exists_reply_zoneServer nameZone (ascii "/other") .NDNS_Nack
      rfl rfl rfl
  rw [hputs, hputs']
  intro heq
  obtain rfl : data = data' := by simpa using heq
  obtain rfl := Option.some.inj (hdecode.symm.trans hdecode')
  simp [hre] at hre'

/-- A name server depends on the file that it is constructed with, and on no
other, exactly if this is `ndns-local.db`. -/
theorem confined_iff (nameZone : Name) (d : Bytes) :
    (∀ (P : NameParser) (S : Bytes → Sqlite) (K : PacketCodec),
      Confined P S K (NameServer.init nameZone d) d) ↔
        d = localFile := by
  constructor
  · intro h
    by_contra hd
    have hconfined := h uriParser (fun _ => reliable)
      (ndnCodec digestSignature)
    exact run_filesWith_ne hd (hconfined.replies _ _ _
      ((filesWith_other hd _).trans (filesWith_other hd _).symm))
  · rintro rfl P S K
    exact confined_localFile nameZone

/-- Another path. -/
def netFile : Bytes :=
  ascii "net.db"

/-- Two runs of the server of `net.db` that find the same in it. -/
theorem netFile_not_confined :
    filesWith [ascii "net"] (ascii "/host/x") netFile =
        filesWith [ascii "net"] (ascii "/other") netFile ∧
      ((NameServer.init [ascii "net"] netFile).run uriParser
        (fun _ => reliable) (ndnCodec digestSignature)
          [(firstVersion, Ndns.NameServer.hostQuery.toInterest)]
          (filesWith [ascii "net"] (ascii "/host/x"))).1 ≠
      ((NameServer.init [ascii "net"] netFile).run uriParser
        (fun _ => reliable) (ndnCodec digestSignature)
          [(firstVersion, Ndns.NameServer.hostQuery.toInterest)]
          (filesWith [ascii "net"] (ascii "/other"))).1 := by
  have hne : netFile ≠ localFile := by
    decide
  exact ⟨(filesWith_other hne _).trans (filesWith_other hne _).symm,
    run_filesWith_ne hne⟩

end OtherFile

end LocalFile

end DbFiles

end Ndns

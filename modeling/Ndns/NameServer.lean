import Ndns.DyndnsMgr
import Ndns.QueryMgr
import Ndns.ResponseUpdate

/-!
# The name server

`name-server.cpp`: the server of a zone sorts an Interest by its name and answers
an update or a query.  Only `DyndnsMgr::update` is called inside a `try` block:
the decoding of either and the look-ups of a query are not.

`KeyChain::sign` and `Face::put` are taken to return.
-/

namespace Ndns

structure NameServer where
  zone : Zone
  /-- Milliseconds. -/
  contentFreshness : Int
  contentFreshness_lo : -2 ^ 63 ≤ contentFreshness
  contentFreshness_hi : contentFreshness < 2 ^ 63

/-- `QueryUpdate::setUpdateZone` -/
def QueryUpdate.setUpdateZone (q : QueryUpdate) (zone : Zone) : QueryUpdate :=
  { q with update := q.update.setRrZones zone }

namespace NameServer

/-- `NameServer::NameServer`, with the freshness of `NDNApp`. -/
def ofZone (zone : Zone) : NameServer where
  zone := zone
  contentFreshness := 40000
  contentFreshness_lo := by decide
  contentFreshness_hi := by decide

variable (P : NameParser) (S : Sqlite) (K : PacketCodec)
variable (server : NameServer)

/-- Sign and put a packet; the text of a coding error is left out. -/
def put (freshness : Int) : Option Data → Outcome (List Data)
  | some data => .returned [{ data with freshnessPeriod := freshness }]
  | none => .threw []

/-- The response to an update. -/
def updateReply (interest : Interest) (type : ResponseType) (msg : Bytes) :
    ResponseUpdate :=
  { ResponseUpdate.init with
    queryName := interest.name
    responseType := type
    freshness := server.contentFreshness
    result := msg }

def putUpdate (re : ResponseUpdate) : Outcome (List Data) :=
  put re.freshness re.toData

/-- The branch of an update.  A component that is not there counts as a decoding
error. -/
def onUpdate (interest : Interest) (disk : Disk) :
    Outcome (List Data) × Disk :=
  match QueryUpdate.init.fromInterest P K interest with
  | none => (.threw [], disk)
  | some (_, queryUpdate) =>
      match DyndnsMgr.update S server.zone
          (queryUpdate.setUpdateZone server.zone) disk with
      | (.returned _, disk) =>
          (putUpdate (server.updateReply interest .DyNDNS_OK (ascii "OK")),
            disk)
      | (.threw what, disk) =>
          -- `catch`, which nothing reaches: `update` does not throw
          (putUpdate (server.updateReply interest .DyNDNS_FAIL
            (ascii "Failed: " ++ Sql.cString what)), disk)
      | (.terminated, disk) => (.terminated, disk)
      | (.undefined, disk) => (.undefined, disk)

/-- The response to a query, before it is looked up. -/
def queryReply (version : Version) (interest : Interest) : Response :=
  { Response.init with
    queryName := interest.name ++ [version.component]
    freshness := server.contentFreshness }

/-- The response that is put, if one is. -/
def answer (query : Query) (response : Response) : DbM (Option Response) := do
  let response ← QueryMgr.lookup P S server.zone query response
  if response.rrs.length > 0 then
    return some { response with responseType := .NDNS_Resp }
  else if query.rrType = .NS then do
    let count ← QueryMgr.hasAuth S server.zone query
    if count < 0 then
      return none
    else if count > 0 then
      return some { response with responseType := .NDNS_Auth }
    else
      return some { response with responseType := .NDNS_Nack }
  else
    return some { response with responseType := .NDNS_Nack }

/-- The branch of a query. -/
def onQuery (version : Version) (interest : Interest) (disk : Disk) :
    Outcome (List Data) × Disk :=
  match Query.init.fromInterest P interest with
  | none => (.threw [], disk)
  | some (_, query) =>
      match (answer P S server query
          (server.queryReply version interest)).run disk with
      | .error what disk => (.threw what, disk)
      | .ok none disk => (.returned [], disk)
      | .ok (some response) disk =>
          (put response.freshness response.toData, disk)

/-- `NameServer::onInterest`: the packets that are put. -/
def onInterest (version : Version) (interest : Interest) (disk : Disk) :
    Outcome (List Data) × Disk :=
  if (matchUpdateName interest.name.toUri).isSome then
    onUpdate P S K server interest disk
  else if (matchQueryName interest.name.toUri).isSome then
    onQuery P S server version interest disk
  else
    (.returned [], disk)

end NameServer

end Ndns

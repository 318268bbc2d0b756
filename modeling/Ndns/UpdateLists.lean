import Ndns.FailedStatements

/-!
# Updates with any number of RRs

The encoder and the decoder of a response handle a list of RRs of any length, and
every RR has an action of its own.  `DyndnsMgr::update` takes the first RR,
whether there is one or not, and never looks at the others.

**Results.**
* `onUpdate_cons`: what the server does with an update that has an RR;
* `appliesAll_iff`: when its reply is right about the whole list.
-/

namespace Ndns

namespace NameServer

open DyndnsMgr

variable {P : NameParser} {S : Sqlite} {K : PacketCodec}
variable {server : NameServer} {version : Version} {interest : Interest}
variable {understood : Bool} {queryUpdate : QueryUpdate}
variable {rr : RR} {rrs : List RR} {disk d : Disk}

/-- The packet reports that an update was applied. -/
def IsOk (data : Data) : Prop :=
  ∃ re, ResponseUpdate.init.wireDecode data.content = some re ∧
    re.responseType = .DyNDNS_OK

/-- No element is accessed that is not there, and a success is reported only if
the tables are what the RRs ask for. -/
structure AppliesAll (zone : Zone) (rrs : List RR) (db : Db)
    (x : Outcome (List Data) × Disk) : Prop where
  defined : x.1 ≠ .undefined
  applied : ∀ data, x.1 = .returned [data] → IsOk data →
    Applied zone db rrs x.2.db

/-- There is a first RR, and if it is carried out the others have nothing to
do. -/
def FirstSuffices (S : Sqlite) (zone : Zone) (rrs : List RR)
    (disk : Disk) : Prop :=
  ∃ rr tail, rrs = rr :: tail ∧
    (Supported rr → (S.execute (plan disk.db zone rr) disk).isSome →
      RestSuffices zone disk.db rr tail)

/-- Without an RR there is nothing at the front of the list. -/
theorem onUpdate_nil
    (hread : QueryUpdate.init.fromInterest P K interest =
      some (understood, queryUpdate))
    (hrrs : queryUpdate.update.rrs = []) :
    (onUpdate P S K server interest disk).1 = .undefined := by
  simp [onUpdate, hread, DyndnsMgr.update, hrrs,
    QueryUpdate.setUpdateZone, Response.setRrZones]

/-- The first RR is carried out and a success is reported, or the process
ends. -/
theorem onUpdate_cons
    (hread : QueryUpdate.init.fromInterest P K interest =
      some (understood, queryUpdate))
    (hrrs : queryUpdate.update.rrs = rr :: rrs)
    (hquote : (39 : UInt8) ∉ rr.rrData)
    (hfits : (server.updateReply interest .DyNDNS_OK
      (ascii "OK")).toBlock.value.length < 2 ^ 64) :
    (∃ d data, Supported rr ∧
      S.execute (plan disk.db server.zone rr) disk = some d ∧
      onUpdate P S K server interest disk = (.returned [data], d) ∧
      IsOk data) ∨
    ¬ (Supported rr ∧
        (S.execute (plan disk.db server.zone rr) disk).isSome) ∧
      (onUpdate P S K server interest disk).1 = .terminated := by
  have hclass : Stmt.CleanText rr.rrset.clazz := by
    have hoff := QueryUpdate.offWire_of_fromInterest hread rr (by simp [hrrs])
    rw [hoff.clazz_eq]
    decide
  have hrun : Performs S (updateRr S server.zone rr)
      (plan disk.db server.zone rr) disk _ _ :=
    performs_updateRr hquote hclass
  have hends := hrun disk rfl
  have hupdate : DyndnsMgr.update S server.zone
      (queryUpdate.setUpdateZone server.zone) disk = _ :=
    update_setUpdateZone hrrs S disk
  cases heq : (updateRr S server.zone rr).run disk with
  | ok rr' d =>
      rw [heq] at hends hupdate
      obtain ⟨data, re, hput, hok⟩ := exists_putUpdate server hfits
      refine Or.inl ⟨d, data, hends.2, hends.1, ?_, re, hok⟩
      simp only [onUpdate, hread, hupdate, hput]
  | error e d =>
      rw [heq] at hends hupdate
      refine Or.inr ⟨?_, by simp only [onUpdate, hread, hupdate]⟩
      rintro ⟨hsupported, hsome⟩
      rcases hends with ⟨d₀, -, hstops⟩ | ⟨-, hnot⟩
      · rw [hstops.execute_eq_none] at hsome
        exact absurd hsome (by simp)
      · exact hnot hsupported

/-- An update that is carried out leaves what all its RRs ask for exactly if the
first one suffices. -/
theorem firstSuffices_iff
    {zone : Zone} (hsupported : Supported rr)
    (hexecute : S.execute (plan disk.db zone rr) disk = some d) :
    FirstSuffices S zone (rr :: rrs) disk ↔
      Applied zone disk.db (rr :: rrs) d.db := by
  have hbehind := Sqlite.execute_db hexecute
  rw [plan, behind_lookups] at hbehind
  rw [applied_cons_iff hsupported hbehind]
  constructor
  · rintro ⟨rr', tail, hcons, h⟩
    obtain ⟨rfl, rfl⟩ := List.cons.inj hcons
    exact h hsupported (by simp [hexecute])
  · exact fun h => ⟨rr, rrs, rfl, fun _ _ => h⟩

/-- The reply is right about the whole list exactly if there is a first RR and
the others ask for nothing more. -/
theorem appliesAll_iff
    (hupdate : (matchUpdateName interest.name.toUri).isSome)
    (hread : QueryUpdate.init.fromInterest P K interest =
      some (understood, queryUpdate))
    (hquote : ∀ rr ∈ queryUpdate.update.rrs.head?,
      (39 : UInt8) ∉ rr.rrData)
    (hfits : (server.updateReply interest .DyNDNS_OK
      (ascii "OK")).toBlock.value.length < 2 ^ 64) :
    AppliesAll server.zone queryUpdate.update.rrs disk.db
        (onInterest P S K server version interest disk) ↔
      FirstSuffices S server.zone queryUpdate.update.rrs disk := by
  rw [onInterest, if_pos hupdate]
  cases hrrs : queryUpdate.update.rrs with
  | nil =>
      constructor
      · intro h
        exact absurd (onUpdate_nil hread hrrs) h.defined
      · rintro ⟨rr, tail, hcons, -⟩
        exact absurd hcons (by simp)
  | cons rr tail =>
      rcases onUpdate_cons hread hrrs (hquote rr (by simp [hrrs])) hfits with
          ⟨d, data, hsupported, hexecute, hreply, hok⟩ | ⟨hnot, hend⟩
      · rw [firstSuffices_iff hsupported hexecute, hreply]
        constructor
        · exact fun h => h.applied data rfl hok
        · exact fun h => ⟨by simp, fun _ _ _ => h⟩
      · refine iff_of_true ⟨by simp [hend], ?_⟩
          ⟨rr, tail, rfl, fun hsupported hsome =>
            absurd ⟨hsupported, hsome⟩ hnot⟩
        intro data hreturned
        exact absurd (hend.symm.trans hreturned) (by simp)

section Hosts

open DynamicDNSUpdate Network

/-- With one record stored, the second one is missing. -/
theorem askedAll_list_ne
    (h : reliable.execute (plan twoZonesDisk.db netZone
      (listRecord (ascii "/isp"))) twoZonesDisk = some d) :
    askedAll netZone twoZonesDisk.db
        [listRecord (ascii "/isp"), listRecord (ascii "/dsl")] ≠
      some d.db := by
  rw [← Option.get_of_eq_some executes_list h]
  decide +kernel

/-- An update with one RR, the only form that the tool sends. -/
theorem appliesAll_iff_oneRecord :
    ∃ queryUpdate,
      QueryUpdate.init.fromInterest uriParser (ndnCodec digestSignature)
          (listInterest [ascii "/isp"]) = some (true, queryUpdate) ∧
        AppliesAll netServer.zone queryUpdate.update.rrs twoZonesDisk.db
          (onInterest uriParser reliable (ndnCodec digestSignature)
            netServer firstVersion (listInterest [ascii "/isp"])
            twoZonesDisk) := by
  have hfits : ((ndnCodec digestSignature).wireEncode
      (listUpdate [ascii "/isp"]).packet).value.length < 2 ^ 64 := by
    decide +kernel
  obtain ⟨queryUpdate, hread, hrrs⟩ := fromInterest_list hfits
  have hreply : (netServer.updateReply (listInterest [ascii "/isp"])
      .DyNDNS_OK (ascii "OK")).toBlock.value.length < 2 ^ 64 := by
    decide +kernel
  have hquote : ∀ rr ∈ queryUpdate.update.rrs.head?,
      (39 : UInt8) ∉ rr.rrData := by
    rw [hrrs]
    decide +kernel
  refine ⟨queryUpdate, hread, (appliesAll_iff (matchUpdateName_list _) hread
    hquote hreply).mpr ⟨_, [], hrrs, fun _ _ => ?_⟩⟩
  obtain ⟨db, hdb⟩ := Option.isSome_iff_exists.mp asked_once
  exact RestSuffices.of_findsRow findsRow_once hdb rfl

/-- Two records are sent and one is stored; an empty list has no first RR. -/
theorem listUpdate_not_appliesAll :
    (∃ queryUpdate data d,
      QueryUpdate.init.fromInterest uriParser (ndnCodec digestSignature)
          (listInterest [ascii "/isp", ascii "/dsl"]) =
            some (true, queryUpdate) ∧
        onInterest uriParser reliable (ndnCodec digestSignature) netServer
          firstVersion (listInterest [ascii "/isp", ascii "/dsl"])
          twoZonesDisk = (.returned [data], d) ∧
        IsOk data ∧
        askedAll netServer.zone twoZonesDisk.db queryUpdate.update.rrs ≠
          some d.db ∧
        ¬ AppliesAll netServer.zone queryUpdate.update.rrs twoZonesDisk.db
          (onInterest uriParser reliable (ndnCodec digestSignature)
            netServer firstVersion
            (listInterest [ascii "/isp", ascii "/dsl"]) twoZonesDisk)) ∧
      ∃ queryUpdate,
        QueryUpdate.init.fromInterest uriParser (ndnCodec digestSignature)
            (listInterest []) = some (true, queryUpdate) ∧
          queryUpdate.update.rrs = [] ∧
          (onInterest uriParser reliable (ndnCodec digestSignature)
            netServer firstVersion (listInterest []) twoZonesDisk).1 =
              .undefined := by
  constructor
  · have hfits : ((ndnCodec digestSignature).wireEncode (listUpdate
        [ascii "/isp", ascii "/dsl"]).packet).value.length < 2 ^ 64 := by
      decide +kernel
    obtain ⟨queryUpdate, hread, hrrs⟩ := fromInterest_list hfits
    have hreply : (netServer.updateReply (listInterest
        [ascii "/isp", ascii "/dsl"]) .DyNDNS_OK
          (ascii "OK")).toBlock.value.length < 2 ^ 64 := by
      decide +kernel
    rcases onUpdate_cons hread hrrs (by decide +kernel) hreply with
        ⟨d, data, -, hexecute, hok, hisOk⟩ | ⟨hnot, -⟩
    · have hon : onInterest uriParser reliable (ndnCodec digestSignature)
          netServer firstVersion
          (listInterest [ascii "/isp", ascii "/dsl"]) twoZonesDisk =
            (.returned [data], d) := by
        rw [onInterest, if_pos (matchUpdateName_list _), hok]
      have hless := askedAll_list_ne hexecute
      refine ⟨queryUpdate, data, d, hread, hon, hisOk, ?_, ?_⟩
      · rw [hrrs]
        exact hless
      · rw [hon, hrrs]
        exact fun h => hless (h.applied data rfl hisOk)
    · have hsupported : Supported (listRecord (ascii "/isp")) := by
        simp [Supported, updateAction_listRecord]
      exact absurd ⟨hsupported, executes_list⟩ hnot
  · have hfits : ((ndnCodec digestSignature).wireEncode
        (listUpdate []).packet).value.length < 2 ^ 64 := by
      decide +kernel
    obtain ⟨queryUpdate, hread, hrrs⟩ := fromInterest_list hfits
    refine ⟨queryUpdate, hread, hrrs, ?_⟩
    rw [onInterest, if_pos (matchUpdateName_list _)]
    exact onUpdate_nil hread hrrs

end Hosts

end NameServer

end Ndns

import Ndns.DynamicDnsUpdate
import Ndns.NameServer
import Ndns.UpdateFrame
import Ndns.UpdatePlan

/-!
# The replies of the name server

A client may expect one packet for every update and every query, and a failure in
it unless its update can be seen in the database.

**Results.**
* `sends_answer_replyType`: the statements that a query sends, and its reply;
* `onUpdate_answers_iff`, `onQuery_answers_iff`: the two branches;
* `onInterest_answers_iff`: when the server lives up to the expectation.
-/

namespace Ndns

namespace QueryMgr

variable {P : NameParser} {S : Sqlite} {disk : Disk}
variable (zone : Zone) (query : Query)

/-- The statements of a look-up. -/
def lookupPlan (db : Db) : List Stmt :=
  [.selectRrsetId zone.id query.rrLabel query.rrType,
    .selectRrs (asked zone query db).id]

theorem sends_lookup (response : Response) :
    Sends S (fun S => lookup P S zone query response)
      (lookupPlan zone query disk.db) disk
      (fun x d => x = response.setRrs (found zone query disk.db) ∧
        d.db = disk.db) := by
  unfold lookup
  simp only [nameOfUri_toUri, pure_bind]
  have hfirst : Sends S _ _ disk _ := RRSetMgr.sends_lookupIds
    { RRSet.ofZone zone with
      label := query.rrLabel
      type := query.rrType }
  rw [lookupPlan, ← List.singleton_append]
  refine hfirst.bind ?_
  rintro _ d ⟨rfl, hd⟩
  refine Sends.bind_nil (sends_select rfl) ?_
  rintro rows d' ⟨rfl, hd'⟩
  refine sends_pure ⟨?_, hd'.trans hd⟩
  rw [hd]
  exact congrArg response.setRrs (map_callbackGetRr _ _ _)

/-- The RRs that are counted behind a look-up. -/
def authCount (db : Db) : Nat :=
  db.rrs.rows.countP (fun r =>
    db.rrsets.rows.any (fun s =>
      s.1 = r.2.rrsetId && s.2.zoneId = zone.id &&
        s.2.type = query.rrType.toString &&
        like (query.rrLabel.toUri ++ ascii "/%") s.2.label))

theorem tempInt_authCount (db : Db) :
    tempInt (Db.idRows [authCount zone query db]) =
      authCount zone query db := by
  have hcount : authCount zone query db ≤ rowidLimit :=
    List.countP_le_length.trans db.rrs.length_rows_le
  refine tempInt_idRows ?_
  rw [List.forall_mem_singleton]
  exact lt_of_le_of_lt hcount (by decide)

theorem sends_authCount :
    Sends S (fun S => hasAuth S zone query)
      [.countAuth zone.id query.rrType query.rrLabel] disk
      (fun count d => count = authCount zone query disk.db ∧
        d.db = disk.db) := by
  refine Sends.bind_nil (sends_select rfl) ?_
  rintro rows d ⟨rfl, hd⟩
  refine sends_pure ⟨?_, hd⟩
  exact congrArg Nat.cast (tempInt_authCount zone query disk.db)

end QueryMgr

open DyndnsMgr DynamicDNSUpdate

namespace NameServer

variable {P : NameParser} {S : Sqlite} {disk : Disk}
variable (server : NameServer) (query : Query)

/-- The statements of a query. -/
def queryPlan (db : Db) : List Stmt :=
  QueryMgr.lookupPlan server.zone query db ++
    if QueryMgr.found server.zone query db = [] ∧ query.rrType = .NS then
      [.countAuth server.zone.id query.rrType query.rrLabel]
    else []

/-- The response to a query, with what is found. -/
def answered (response : Response) (db : Db) (type : ResponseType) :
    Response :=
  { response.setRrs (QueryMgr.found server.zone query db) with
    responseType := type }

/-- The type of the reply to a query. -/
def replyType (db : Db) : ResponseType :=
  if QueryMgr.found server.zone query db ≠ [] then .NDNS_Resp
  else if query.rrType = .NS ∧
      0 < QueryMgr.authCount server.zone query db then .NDNS_Auth
  else .NDNS_Nack

theorem sends_answer_replyType (response : Response) :
    Sends S (fun S => answer P S server query response)
      (queryPlan server query disk.db) disk
      (fun x _ => x = some (answered server query response disk.db
        (replyType server query disk.db))) := by
  unfold answer queryPlan answered replyType
  refine Sends.bind (QueryMgr.sends_lookup server.zone query response) ?_
  rintro _ d ⟨rfl, hd⟩
  by_cases hfound : QueryMgr.found server.zone query disk.db = []
  · by_cases hns : query.rrType = .NS
    · simp only [Response.setRrs, hfound, hns, List.length_nil, gt_iff_lt,
        Nat.lt_irrefl, if_false, and_self, if_true, ne_eq, not_true,
        true_and]
      rw [← hns]
      refine Sends.bind_nil (QueryMgr.sends_authCount server.zone query) ?_
      rintro count d' ⟨rfl, -⟩
      rw [hd]
      simp only [not_lt.mpr (Int.natCast_nonneg _), if_false,
        Int.natCast_pos]
      split
      · exact sends_pure rfl
      · exact sends_pure rfl
    · simp only [Response.setRrs, hfound, hns, List.length_nil, gt_iff_lt,
        Nat.lt_irrefl, if_false, and_false, ne_eq, not_true, false_and]
      exact sends_pure rfl
  · have hpos : (QueryMgr.found server.zone query disk.db).length > 0 :=
      List.length_pos_of_ne_nil hfound
    simp only [Response.setRrs, hfound, hpos, if_true, false_and, if_false,
      ne_eq, not_false_eq_true]
    exact sends_pure rfl

theorem sends_answer (response : Response) :
    Sends S (fun S => answer P S server query response)
      (queryPlan server query disk.db) disk
      (fun x _ => ∃ type,
        x = some (answered server query response disk.db type)) := by
  refine (sends_answer_replyType server query response).weaken ?_
  rintro x d rfl
  exact ⟨_, rfl⟩

section Expectation

variable (P : NameParser) (S : Sqlite) (K : PacketCodec)
variable (server : NameServer) (interest : Interest)

/-- The packet reports that an update failed. -/
def IsFail (data : Data) : Prop :=
  ∃ re, ResponseUpdate.init.wireDecode data.content = some re ∧
    re.responseType = .DyNDNS_FAIL

/-- The update in an Interest is understood and applied, and a query behind it
would be answered as its first RR says. -/
def Accepted (db db' : Db) : Prop :=
  ∃ understood queryUpdate,
    QueryUpdate.init.fromInterest P K interest =
      some (understood, queryUpdate) ∧
    DyndnsMgr.Applied server.zone db queryUpdate.update.rrs db' ∧
    ∀ rr ∈ queryUpdate.update.rrs.head?,
      DyndnsMgr.InEffect server.zone rr db'

/-- What a client may expect. -/
structure Answers (db : Db) (x : Outcome (List Data) × Disk) : Prop where
  returned : ∃ puts, x.1 = .returned puts
  one : (matchUpdateName interest.name.toUri).isSome ∨
      (matchQueryName interest.name.toUri).isSome →
    ∃ data, x.1 = .returned [data]
  fail : (matchUpdateName interest.name.toUri).isSome →
    ¬ Accepted P K server interest db x.2.db →
      ∀ data, x.1 = .returned [data] → IsFail data

/-- The server lives up to the expectation for an update. -/
def MeetsUpdate (disk : Disk) : Prop :=
  ∃ understood queryUpdate rr rrs,
    QueryUpdate.init.fromInterest P K interest =
      some (understood, queryUpdate) ∧
    queryUpdate.update.rrs = rr :: rrs ∧
    (S.execute (DyndnsMgr.plan disk.db server.zone rr) disk).isSome ∧
    DyndnsMgr.TakesEffect server.zone rr disk.db ∧
    DyndnsMgr.RestSuffices server.zone disk.db rr rrs

/-- The server lives up to the expectation for a query. -/
def MeetsQuery (disk : Disk) : Prop :=
  ∃ understood query,
    Query.init.fromInterest P interest = some (understood, query) ∧
    (S.execute (queryPlan server query disk.db) disk).isSome

def Meets (disk : Disk) : Prop :=
  if (matchUpdateName interest.name.toUri).isSome then
    MeetsUpdate P S K server interest disk
  else
    (matchQueryName interest.name.toUri).isSome →
      MeetsQuery P S server interest disk

/-- The responses to an Interest are no longer than a block may be. -/
structure RepliesFit (version : Version) (db : Db) : Prop where
  update : (server.updateReply interest .DyNDNS_OK
    (ascii "OK")).toBlock.value.length < 2 ^ 64
  query : ∀ understood query type,
    Query.init.fromInterest P interest = some (understood, query) →
      (answered server query (server.queryReply version interest) db
        type).toBlock.value.length < 2 ^ 64

end Expectation

section Branches

variable {K : PacketCodec} {interest : Interest} {version : Version}

/-- The packet for an update carries the type of its response. -/
theorem exists_putUpdate
    {type : ResponseType} {msg : Bytes}
    (hfits : (server.updateReply interest type msg).toBlock.value.length <
      2 ^ 64) :
    ∃ data re, putUpdate (server.updateReply interest type msg) =
        .returned [data] ∧
      ResponseUpdate.init.wireDecode data.content = some re ∧
      re.responseType = type := by
  have hdecode := ResponseUpdate.wireDecode_toBlock
    (server.updateReply interest type msg) ResponseUpdate.init
    server.contentFreshness_lo server.contentFreshness_hi hfits
  have hdata : (server.updateReply interest type msg).toData = some {
      name := interest.name
      contentType := QueryType.DNS.code
      freshnessPeriod := server.contentFreshness
      content := (server.updateReply interest type msg).toBlock } := by
    rw [ResponseUpdate.toData, ResponseUpdate.wireEncode_eq rfl hfits]
    rfl
  exact ⟨_, _, by rw [putUpdate, hdata]; rfl, hdecode, rfl⟩

/-- The packet for an update reports a failure if the response does. -/
theorem putUpdate_updateReply
    {type : ResponseType} {msg : Bytes}
    (hfits : (server.updateReply interest type msg).toBlock.value.length <
      2 ^ 64) :
    ∃ data, putUpdate (server.updateReply interest type msg) =
        .returned [data] ∧
      (IsFail data ↔ type = .DyNDNS_FAIL) := by
  obtain ⟨data, re, hput, hdecode, htype⟩ := exists_putUpdate server hfits
  refine ⟨data, hput, ?_⟩
  simp only [IsFail, hdecode, Option.some.injEq, exists_eq_left', htype]

/-- A query is answered if its response can be encoded. -/
theorem put_response
    {response : Response} (freshness : Int) (hwire : response.wire = none)
    (hfits : response.toBlock.value.length < 2 ^ 64) :
    ∃ data, put freshness response.toData = .returned [data] := by
  rw [Response.toData, Response.wireEncode_eq hwire hfits]
  exact ⟨_, rfl⟩

/-- The first RR decides how an update ends. -/
theorem update_setUpdateZone
    {zone : Zone} {queryUpdate : QueryUpdate} {rr : RR} {rrs : List RR}
    (hrrs : queryUpdate.update.rrs = rr :: rrs) (S : Sqlite) (disk : Disk) :
    DyndnsMgr.update S zone (queryUpdate.setUpdateZone zone) disk =
      match (DyndnsMgr.updateRr S zone rr).run disk with
      | .ok rr d => (.returned { queryUpdate.setUpdateZone zone with
            update := (queryUpdate.setUpdateZone zone).update.setRrs
              (rr :: rrs.map (fun rr => rr.setZone zone)) }, d)
      | .error _ d => (.terminated, d) := by
  have hzones : (queryUpdate.setUpdateZone zone).update.rrs =
      rr.setZone zone :: rrs.map (fun rr => rr.setZone zone) := by
    simp [QueryUpdate.setUpdateZone, Response.setRrZones, hrrs]
  unfold DyndnsMgr.update
  rw [hzones]
  rfl

section Decoded

variable {understood : Bool} {queryUpdate : QueryUpdate}
variable {rr : RR} {rrs : List RR}

/-- A statement that fails, or an action that is not supported, ends the
process. -/
theorem onUpdate_terminated
    (hread : QueryUpdate.init.fromInterest P K interest =
      some (understood, queryUpdate))
    (hrrs : queryUpdate.update.rrs = rr :: rrs)
    (h : ¬ DyndnsMgr.Supported rr ∨
      S.execute (DyndnsMgr.plan disk.db server.zone rr) disk = none) :
    (onUpdate P S.strict K server interest disk).1 = .terminated := by
  have hfails : ∃ e d, (DyndnsMgr.updateRr S.strict server.zone rr).run
      disk = .error e d := by
    by_cases hsupported : DyndnsMgr.Supported rr
    · have hsends : Sends S _ (DyndnsMgr.plan disk.db server.zone rr) disk _ :=
        DyndnsMgr.sends_updateRr hsupported
      unfold Sends at hsends
      rw [h.resolve_left (not_not.mpr hsupported)] at hsends
      exact hsends
    · exact DyndnsMgr.updateRr_unsupported hsupported
  obtain ⟨e, d, hrun⟩ := hfails
  simp only [onUpdate, hread, update_setUpdateZone hrrs, hrun]

/-- Otherwise a success is reported. -/
theorem onUpdate_returned
    (hread : QueryUpdate.init.fromInterest P K interest =
      some (understood, queryUpdate))
    (hrrs : queryUpdate.update.rrs = rr :: rrs)
    (hfits : (server.updateReply interest .DyNDNS_OK
      (ascii "OK")).toBlock.value.length < 2 ^ 64)
    (hsupported : DyndnsMgr.Supported rr) {d : Disk}
    (h : S.execute (DyndnsMgr.plan disk.db server.zone rr) disk = some d)
    (foreign : List Sql.Item → Db → Db × Option (List Row × Nat)) :
    ∃ data, onUpdate P (S.withForeign foreign) K server interest disk =
        (.returned [data], d) ∧
      ¬ IsFail data := by
  have hsends : Sends S _ (DyndnsMgr.plan disk.db server.zone rr) disk _ :=
    DyndnsMgr.sends_updateRr hsupported
  unfold Sends at hsends
  rw [h] at hsends
  obtain ⟨rr', -, hok⟩ := hsends
  obtain ⟨data, hput, hfail⟩ := putUpdate_updateReply server hfits
  refine ⟨data, ?_, by simp [hfail]⟩
  simp only [onUpdate, hread, update_setUpdateZone hrrs, hok foreign, hput]

/-- What is carried out is accepted if the first RR takes effect and the others
have nothing to do. -/
theorem accepted_iff
    (hread : QueryUpdate.init.fromInterest P K interest =
      some (understood, queryUpdate))
    (hrrs : queryUpdate.update.rrs = rr :: rrs)
    (hsupported : DyndnsMgr.Supported rr) {d : Disk}
    (hrun : S.execute (DyndnsMgr.plan disk.db server.zone rr) disk =
      some d) :
    Accepted P K server interest disk.db d.db ↔
      DyndnsMgr.TakesEffect server.zone rr disk.db ∧
        DyndnsMgr.RestSuffices server.zone disk.db rr rrs := by
  have hplan := Sqlite.execute_db hrun
  have heffect := DyndnsMgr.inEffect_iff hplan
  rw [DyndnsMgr.plan, DyndnsMgr.behind_lookups] at hplan
  have happlied : DyndnsMgr.Applied server.zone disk.db (rr :: rrs) d.db ↔
      DyndnsMgr.RestSuffices server.zone disk.db rr rrs :=
    DyndnsMgr.applied_cons_iff hsupported hplan
  rw [← heffect, ← happlied]
  constructor
  · rintro ⟨understood', queryUpdate', hread', hall, hfirst⟩
    obtain ⟨-, rfl⟩ := Prod.mk.inj (Option.some.inj
      (hread.symm.trans hread'))
    rw [hrrs] at hall hfirst
    exact ⟨hfirst rr rfl, hall⟩
  · rintro ⟨hfirst, hall⟩
    refine ⟨understood, queryUpdate, hread, ?_, ?_⟩
    · rw [hrrs]
      exact hall
    · intro x hx
      rw [hrrs] at hx
      rw [← Option.some.inj hx]
      exact hfirst

theorem onUpdate_answers_iff_of_cons
    (hread : QueryUpdate.init.fromInterest P K interest =
      some (understood, queryUpdate))
    (hrrs : queryUpdate.update.rrs = rr :: rrs)
    (hupdate : (matchUpdateName interest.name.toUri).isSome)
    (hfits : (server.updateReply interest .DyNDNS_OK
      (ascii "OK")).toBlock.value.length < 2 ^ 64) :
    (∀ foreign, Answers P K server interest disk.db
      (onUpdate P (S.withForeign foreign) K server interest disk)) ↔
        (S.execute (DyndnsMgr.plan disk.db server.zone rr) disk).isSome ∧
        DyndnsMgr.TakesEffect server.zone rr disk.db ∧
        DyndnsMgr.RestSuffices server.zone disk.db rr rrs := by
  have hterminated (h : ¬ DyndnsMgr.Supported rr ∨
      S.execute (DyndnsMgr.plan disk.db server.zone rr) disk = none)
      (hanswers : ∀ foreign, Answers P K server interest disk.db
        (onUpdate P (S.withForeign foreign) K server interest disk)) :
      False := by
    obtain ⟨puts, hputs⟩ := (hanswers (fun _ db => (db, none))).returned
    have hend := onUpdate_terminated server hread hrrs h
    exact absurd (hend.symm.trans hputs) (by simp)
  by_cases hsupported : DyndnsMgr.Supported rr
  · cases hrun : S.execute (DyndnsMgr.plan disk.db server.zone rr) disk with
    | none =>
        exact ⟨fun h => (hterminated (Or.inr hrun) h).elim, by simp⟩
    | some d =>
        have hreturned :=
          onUpdate_returned server hread hrrs hfits hsupported hrun
        have haccepted : Accepted P K server interest disk.db d.db ↔
            DyndnsMgr.TakesEffect server.zone rr disk.db ∧
              DyndnsMgr.RestSuffices server.zone disk.db rr rrs :=
          accepted_iff server hread hrrs hsupported hrun
        constructor
        · intro h
          obtain ⟨data, hputs, hok⟩ := hreturned S.foreign
          have hanswer := h S.foreign
          rw [hputs] at hanswer
          have haccept : Accepted P K server interest disk.db d.db := by
            by_contra hnot
            exact hok (hanswer.fail hupdate hnot data rfl)
          exact ⟨rfl, haccepted.mp haccept⟩
        · rintro ⟨-, hmeets⟩ foreign
          obtain ⟨data, hputs, -⟩ := hreturned foreign
          rw [hputs]
          exact {
            returned := ⟨_, rfl⟩
            one := fun _ => ⟨data, rfl⟩
            fail := fun _ hnot =>
              absurd (haccepted.mpr hmeets) hnot }
  · exact ⟨fun h => (hterminated (Or.inl hsupported) h).elim,
      fun h => absurd h.2.1.supported hsupported⟩

end Decoded

/-- A successful update is reported as one, whether it is applied or not. -/
theorem onUpdate_answers_iff
    (hupdate : (matchUpdateName interest.name.toUri).isSome)
    (hfits : RepliesFit P server interest version disk.db) :
    (∀ foreign, Answers P K server interest disk.db
      (onUpdate P (S.withForeign foreign) K server interest disk)) ↔
        MeetsUpdate P S K server interest disk := by
  cases hread : QueryUpdate.init.fromInterest P K interest with
  | none =>
      constructor
      · intro h
        obtain ⟨puts, hputs⟩ := (h S.foreign).returned
        simp [onUpdate, hread] at hputs
      · rintro ⟨understood, queryUpdate, rr, rrs, hread', -⟩
        simp [hread] at hread'
  | some x =>
      obtain ⟨understood, queryUpdate⟩ := x
      cases hrrs : queryUpdate.update.rrs with
      | nil =>
          have hundefined : (onUpdate P S K server interest disk).1 =
              .undefined := by
            simp [onUpdate, hread, DyndnsMgr.update, hrrs,
              QueryUpdate.setUpdateZone, Response.setRrZones]
          constructor
          · intro h
            obtain ⟨puts, hputs⟩ := (h S.foreign).returned
            exact absurd (hundefined.symm.trans hputs) (by simp)
          · rintro ⟨understood', queryUpdate', rr, rrs, hread', hrrs', -⟩
            obtain ⟨-, rfl⟩ := Prod.mk.inj (Option.some.inj
              (hread.symm.trans hread'))
            simp [hrrs] at hrrs'
      | cons rr rrs =>
          rw [onUpdate_answers_iff_of_cons server hread hrrs hupdate
            hfits.update]
          constructor
          · intro h
            exact ⟨understood, queryUpdate, rr, rrs, hread, hrrs, h⟩
          · rintro ⟨understood', queryUpdate', rr', rrs', hread', hrrs', h⟩
            obtain ⟨-, rfl⟩ := Prod.mk.inj (Option.some.inj
              (hread.symm.trans hread'))
            obtain ⟨rfl, rfl⟩ := List.cons.inj (hrrs.symm.trans hrrs')
            exact h

theorem onQuery_answers_iff
    (hupdate : (matchUpdateName interest.name.toUri).isSome = false)
    (hfits : RepliesFit P server interest version disk.db) :
    (∀ foreign, Answers P K server interest disk.db
      (onQuery P (S.withForeign foreign) server version interest disk)) ↔
        MeetsQuery P S server interest disk := by
  cases hread : Query.init.fromInterest P interest with
  | none =>
      constructor
      · intro h
        obtain ⟨puts, hputs⟩ := (h S.foreign).returned
        simp [onQuery, hread] at hputs
      · rintro ⟨understood, query, hread', -⟩
        simp [hread] at hread'
  | some x =>
      obtain ⟨understood, query⟩ := x
      have hsends : Sends S (fun S => answer P S server query
          (server.queryReply version interest))
          (queryPlan server query disk.db) disk _ :=
        sends_answer server query (server.queryReply version interest)
      unfold Sends at hsends
      cases hrun : S.execute (queryPlan server query disk.db) disk with
      | none =>
          rw [hrun] at hsends
          obtain ⟨e, d, hfail⟩ := hsends
          constructor
          · intro h
            obtain ⟨puts, hputs⟩ := (h (fun _ db => (db, none))).returned
            have hthrew : (onQuery P S.strict server version interest
                disk).1 = .threw e := by
              simp only [onQuery, hread, hfail]
            exact absurd (hthrew.symm.trans hputs) (by simp)
          · rintro ⟨understood', query', hread', hsome⟩
            obtain ⟨-, rfl⟩ := Prod.mk.inj (Option.some.inj
              (hread.symm.trans hread'))
            simp [hrun] at hsome
      | some d =>
          rw [hrun] at hsends
          obtain ⟨-, ⟨type, rfl⟩, hok⟩ := hsends
          obtain ⟨data, hput⟩ := put_response
            server.contentFreshness rfl
            (hfits.query understood query type hread)
          refine iff_of_true (fun foreign => ?_)
            ⟨understood, query, hread, by simp [hrun]⟩
          have hputs : (onQuery P (S.withForeign foreign) server version
              interest disk).1 = .returned [data] := by
            simp only [onQuery, hread, hok foreign]
            exact hput
          exact {
            returned := ⟨_, hputs⟩
            one := fun _ => ⟨data, hputs⟩
            fail := fun h => absurd h (by simp [hupdate]) }

/-- When the server lives up to the expectation of its clients. -/
theorem onInterest_answers_iff
    (hfits : RepliesFit P server interest version disk.db) :
    (∀ foreign, Answers P K server interest disk.db
      (onInterest P (S.withForeign foreign) K server version interest
        disk)) ↔
        Meets P S K server interest disk := by
  unfold onInterest Meets
  by_cases hupdate : (matchUpdateName interest.name.toUri).isSome = true
  · simp only [if_pos hupdate]
    exact onUpdate_answers_iff server hupdate hfits
  simp only [if_neg hupdate]
  by_cases hquery : (matchQueryName interest.name.toUri).isSome = true
  · simp only [if_pos hquery]
    refine Iff.trans ?_ (forall_prop_of_true hquery).symm
    exact onQuery_answers_iff server (by simpa using hupdate) hfits
  · simp only [if_neg hquery]
    refine iff_of_true (fun _ => ?_) (fun h => absurd h hquery)
    exact {
      returned := ⟨_, rfl⟩
      one := fun h => absurd h (by simp [hupdate, hquery])
      fail := fun h => absurd h hupdate }

end Branches

section NetServer

/-- The server of `/net`. -/
def netServer : NameServer :=
  ofZone netZone

theorem fromInterest_zoneQuery :
    Query.init.fromInterest uriParser Query.zoneQuery.toInterest =
      some (true, Query.zoneQuery) :=
  Query.roundTrips_of_plainCut uriParser Query.zoneQuery rfl rfl
    (by decide) (by decide) (by decide)

theorem repliesFit_zoneQuery :
    RepliesFit uriParser netServer Query.zoneQuery.toInterest firstVersion
      twoZonesDisk.db where
  update := by decide
  query := by
    intro understood query type hread
    rw [fromInterest_zoneQuery] at hread
    obtain ⟨-, rfl⟩ := Prod.mk.inj (Option.some.inj hread)
    cases type <;> decide

/-- An update of the text record of `/www` with an RR for each of the data. -/
def listUpdate (datas : List Bytes) : Response :=
  { (hostUpdate .TXT).updated firstVersion with
    rrs := datas.map (fun data =>
      { (hostUpdate .TXT).record with rrData := data }) }

def listInterest (datas : List Bytes) : Interest :=
  ⟨updateName [ascii "net"] (componentOfBlock
    ((ndnCodec digestSignature).wireEncode (listUpdate datas).packet))
      firstVersion, 4000⟩

/-- The RR of one of the data, as the server reads it. -/
def listRecord (data : Bytes) : RR :=
  Response.received [ascii "www"] .TXT
    { (hostUpdate .TXT).record with rrData := data }

theorem updateAction_listRecord (data : Bytes) :
    (listRecord data).updateAction = .ADD := rfl

theorem matchUpdateName_list (datas : List Bytes) :
    (matchUpdateName (listInterest datas).name.toUri).isSome = true :=
  matchUpdateName_isSome _ _ _

theorem fromInterest_list
    {datas : List Bytes}
    (hfits : ((ndnCodec digestSignature).wireEncode
      (listUpdate datas).packet).value.length < 2 ^ 64) :
    ∃ queryUpdate, QueryUpdate.init.fromInterest uriParser
        (ndnCodec digestSignature) (listInterest datas) =
          some (true, queryUpdate) ∧
      queryUpdate.update.rrs = datas.map listRecord := by
  have hencodable : (listUpdate datas).packet.Encodable :=
    ⟨show QueryType.DNS.code < 2 ^ 32 by decide,
      show (0 : Int) ≤ 3600 by decide,
      show (3600 : Int) < 2 ^ 63 by decide, rfl⟩
  have hcontent := lt_of_le_of_lt
    ((ndnCodec digestSignature).content_le (listUpdate datas).packet) hfits
  have hread : ∃ s, Response.init.readName uriParser
      (recordName [ascii "net"] [ascii "www"] .TXT firstVersion) = some s ∧
        s.rrs = [] ∧ s.rrLabel = [ascii "www"] ∧ s.rrType = .TXT := by
    refine ⟨_, rfl, ?_⟩
    decide +kernel
  obtain ⟨s, hs, hnil, hlabel, htype⟩ := hread
  have hdata := Response.fromData_packet uriParser (listUpdate datas)
    Response.init
    (by
      intro rr hrr
      obtain ⟨data, -, rfl⟩ := List.mem_map.mp hrr
      exact show 0 < 2 ^ 32 by decide)
    hencodable.freshness_nonneg hencodable.freshness_lt hcontent
  have hdecode := QueryUpdate.decodeUpdate_packet uriParser QueryUpdate.init
    hencodable hfits
  have hname : (listUpdate datas).queryName =
      recordName [ascii "net"] [ascii "www"] .TXT firstVersion := rfl
  have hinit : QueryUpdate.init.update = Response.init := rfl
  rw [hname, hs] at hdata
  rw [hinit, hdata] at hdecode
  refine ⟨_, (QueryUpdate.fromInterest_plain uriParser _ _ 4000
    (by decide)).trans (congrArg _ hdecode), ?_⟩
  simp [QueryUpdate.readAs, hnil, hlabel, htype, listUpdate, listRecord]

theorem executes_list :
    (reliable.execute (plan twoZonesDisk.db netZone
      (listRecord (ascii "/isp"))) twoZonesDisk).isSome = true := by
  decide +kernel

/-- An update that adds a record twice. -/
def twiceInterest : Interest :=
  listInterest [ascii "/isp", ascii "/isp"]

theorem repliesFit_twice :
    RepliesFit uriParser netServer twiceInterest firstVersion
      twoZonesDisk.db where
  update := by decide +kernel
  query := by
    intro understood query type hread
    have hnone : Query.init.fromInterest uriParser twiceInterest =
        some (false, Query.init) := by
      have hmatch : matchQueryName twiceInterest.name.toUri = none := by
        decide +kernel
      rw [Query.fromInterest, hmatch]
    rw [hnone] at hread
    obtain ⟨-, rfl⟩ := Prod.mk.inj (Option.some.inj hread)
    cases type <;> decide +kernel

theorem asked_once :
    (DyndnsMgr.asked netZone twoZones
      (listRecord (ascii "/isp"))).isSome = true := by
  decide +kernel

theorem findsRow_once :
    FindsRow netZone twoZones (listRecord (ascii "/isp")) := by
  decide +kernel

/-- The second RR finds the row of the first one. -/
theorem restSuffices_twice :
    RestSuffices netZone twoZones (listRecord (ascii "/isp"))
      [listRecord (ascii "/isp")] := by
  obtain ⟨db, hdb⟩ := Option.isSome_iff_exists.mp asked_once
  refine RestSuffices.of_findsRow findsRow_once hdb ?_
  rw [← Option.get_of_eq_some asked_once hdb]
  decide +kernel

/-- A query for a label that the zone does not store; and an update that is
applied, for the second RR has nothing to add. -/
theorem onInterest_answers_iff_zoneQuery :
    Answers uriParser (ndnCodec digestSignature) netServer
      Query.zoneQuery.toInterest twoZonesDisk.db
      (onInterest uriParser reliable (ndnCodec digestSignature) netServer
        firstVersion Query.zoneQuery.toInterest twoZonesDisk) ∧
    ∃ queryUpdate,
      QueryUpdate.init.fromInterest uriParser (ndnCodec digestSignature)
          twiceInterest = some (true, queryUpdate) ∧
        queryUpdate.update.rrs.map RR.updateAction = [.ADD, .ADD] ∧
        Answers uriParser (ndnCodec digestSignature) netServer
          twiceInterest twoZonesDisk.db
          (onInterest uriParser reliable (ndnCodec digestSignature)
            netServer firstVersion twiceInterest twoZonesDisk) := by
  constructor
  · have hupdate : (matchUpdateName
        Query.zoneQuery.toInterest.name.toUri).isSome = false := by
      decide +kernel
    have hmeets : Meets uriParser reliable (ndnCodec digestSignature)
        netServer Query.zoneQuery.toInterest twoZonesDisk := by
      unfold Meets
      rw [if_neg (by simp [hupdate])]
      exact fun _ => ⟨true, Query.zoneQuery, fromInterest_zoneQuery, rfl⟩
    exact (onInterest_answers_iff netServer repliesFit_zoneQuery).mpr hmeets
      reliable.foreign
  · have hupdate : (matchUpdateName twiceInterest.name.toUri).isSome = true :=
      matchUpdateName_list _
    have hfits := repliesFit_twice
    have hlist : ((ndnCodec digestSignature).wireEncode (listUpdate
        [ascii "/isp", ascii "/isp"]).packet).value.length < 2 ^ 64 := by
      decide +kernel
    obtain ⟨queryUpdate, hread, hrrs⟩ := fromInterest_list hlist
    have hnew : (lookedUp twoZones netZone
        (listRecord (ascii "/isp"))).id = 0 := by
      decide +kernel
    refine ⟨queryUpdate, hread, ?_, ?_⟩
    · simp only [hrrs, List.map_cons, List.map_nil, updateAction_listRecord]
    rw [← twiceInterest] at hread
    -- from here on the Interest is any that is read so
    generalize twiceInterest = interest at hupdate hfits hread
    have hmeets : Meets uriParser reliable (ndnCodec digestSignature)
        netServer interest twoZonesDisk := by
      rw [Meets, if_pos hupdate]
      exact ⟨true, queryUpdate, _, _, hread, hrrs, executes_list,
        fun hid => absurd hnew hid, restSuffices_twice⟩
    exact (onInterest_answers_iff netServer hfits).mpr hmeets
      reliable.foreign

/-- The name of an update, with a component that is not a packet. -/
def hostileInterest : Interest :=
  ⟨updateName [] (ascii "x") firstVersion, 4000⟩

/-- The error leaves the server, which stops. -/
theorem hostileInterest_not_answers :
    (matchUpdateName hostileInterest.name.toUri).isSome = true ∧
      onInterest uriParser reliable (ndnCodec digestSignature) netServer
        firstVersion hostileInterest twoZonesDisk =
          (.threw [], twoZonesDisk) ∧
      ¬ Answers uriParser (ndnCodec digestSignature) netServer
        hostileInterest twoZonesDisk.db
        (onInterest uriParser reliable (ndnCodec digestSignature) netServer
          firstVersion hostileInterest twoZonesDisk) := by
  have hmatch := matchUpdateName_plain (ascii "x") firstVersion
    (show ∀ d ∈ ([] : Name), ¬ EndsInMarker d by simp)
  have hread : QueryUpdate.init.fromInterest uriParser
      (ndnCodec digestSignature) hostileInterest = none := by
    have hdecode : QueryUpdate.decodeUpdate uriParser
        (ndnCodec digestSignature) QueryUpdate.init (ascii "x") = none := by
      have hblock : blockFromValue (ascii "x") = none := by
        decide
      rw [QueryUpdate.decodeUpdate, hblock]
      rfl
    refine (QueryUpdate.fromInterest_plain uriParser _ _ 4000
      (by simp)).trans ?_
    rw [hdecode]
    rfl
  have hsome : (matchUpdateName hostileInterest.name.toUri).isSome =
      true := by
    rw [hostileInterest, hmatch]
    rfl
  have hthrew : onInterest uriParser reliable (ndnCodec digestSignature)
      netServer firstVersion hostileInterest twoZonesDisk =
        (.threw [], twoZonesDisk) := by
    rw [onInterest, if_pos hsome, onUpdate, hread]
  refine ⟨hsome, hthrew, ?_⟩
  intro h
  obtain ⟨puts, hputs⟩ := h.returned
  rw [hthrew] at hputs
  exact absurd hputs (by simp)

end NetServer

end NameServer

end Ndns

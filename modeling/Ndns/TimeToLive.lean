import Ndns.FailedStatements
import Ndns.NameDig

/-!
# Times to live

A row of `rrs` has a time to live.  The name server reads it into the RR of its
reply, and an update writes the time to live of its RR into a new row.  An RR on
the wire has none, and the constructor of `RR` sets one hour, so this is what
arrives in both directions.

**Results.**
* `obtains_of_carried`: the RRs that a client decodes, with or without a resolver
  in between;
* `exists_inserts`, `ttl_of_inserts`: the rows that an update inserts;
* `ttl_kept_iff`: which times to live arrive.
-/

namespace Ndns

/-- The RR of a row at a client. -/
structure RR.Arrived (r : Nat × RRRow) (rr : RR) : Prop where
  id_eq : rr.id = r.1
  rrData_eq : rr.rrData = r.2.rrdata
  ttl_eq : rr.ttl = 3600

/-- Every RR has the time to live of its row. -/
def TtlsKept (rows : List (Nat × RRRow)) (rrs : List RR) : Prop :=
  List.Forall₂ (fun r rr => rr.ttl = r.2.ttl) rows rrs

/-- A client that decodes a packet has the RRs of the rows. -/
def Obtains (P : NameParser) (rows : List (Nat × RRRow)) (data : Data) :
    Prop :=
  ∀ re, Response.init.fromData P data = some re →
    List.Forall₂ RR.Arrived rows re.rrs

/-- What a client may get when a reply has been put: the reply, or the answer of
a resolver whose run ends with the reply. -/
inductive Carried (P : NameParser) (reply : Data) : Data → Prop
  | direct :
      Carried P reply reply
  | plain {resolver : NameCachingResolver} {query : Query}
      {datas : List Data} {answer : Data}
      (hrun : NameCachingResolver.Answers (plainStrategy P) resolver
        ((plainStrategy P).init query) datas answer)
      (hlast : datas.getLast? = some reply) :
      Carried P reply answer
  | hinted {resolver : NameCachingResolver} {rootHint : Name} {query : Query}
      {datas : List Data} {answer : Data}
      (hrun : NameCachingResolver.Answers (hintedStrategy P rootHint) resolver
        ((hintedStrategy P rootHint).init query) datas answer)
      (hlast : datas.getLast? = some reply) :
      Carried P reply answer

/-- An update whose first RR is `sent` has gone out in an Interest, from which a
server decodes an update whose first RR is `got`. -/
structure UpdateCarried (P : NameParser) (K : PacketCodec)
    (interest : Interest) (sent got : RR) : Prop where
  sends : ∃ (q q' : QueryUpdate) (version : Version),
    q.toInterest K version = some (interest, q') ∧
      q.update.rrs.head? = some sent
  reads : ∃ understood queryUpdate,
    QueryUpdate.init.fromInterest P K interest =
        some (understood, queryUpdate) ∧
      queryUpdate.update.rrs.head? = some got

/-- The rows that an update inserts: those that were not there, and the one of its
insertion, which may be there again just as it was. -/
inductive Inserts (zone : Zone) (rr : RR) (disk : Disk)
    (x : Outcome (List Data) × Disk) : Nat × RRRow → Prop
  | fresh {r : Nat × RRRow} (hr : r ∈ x.2.db.rrs.rows)
      (hnew : r ∉ disk.db.rrs.rows) :
      Inserts zone rr disk x r
  | again {r : Nat × RRRow} {datas : List Data} {n ttl : Nat}
      {rrData : Bytes} (hput : x.1 = .returned datas)
      (hstmt : .insertRr n ttl rrData ∈ DyndnsMgr.plan disk.db zone rr)
      (hr : r ∈ x.2.db.rrs.rows) (hid : r.1 = x.2.lastInsertRowid) :
      Inserts zone rr disk x r

/-- RRs that live an hour have the times to live of their rows if these do. -/
theorem ttlsKept_iff
    {rows : List (Nat × RRRow)} {rrs : List RR}
    (h : List.Forall₂ RR.Arrived rows rrs) :
    TtlsKept rows rrs ↔ ∀ r ∈ rows, r.2.ttl = 3600 := by
  unfold TtlsKept
  induction h with
  | nil =>
      simp
  | cons hone _ ih =>
      rw [List.forall₂_cons, ih, hone.ttl_eq, List.forall_mem_cons]
      exact and_congr_left' eq_comm

/-- The rows that a server finds for a question, in the order of their ids. -/
def NameServer.askedRows (server : NameServer) (question : Query) (db : Db) :
    List (Nat × RRRow) :=
  db.rrRows (QueryMgr.asked server.zone question db).id

namespace NameServer

variable {P : NameParser} {S : Sqlite} {K : PacketCodec}
variable {server : NameServer} {version : Version} {interest : Interest}
variable {disk : Disk} {question : Query} {response : Response}
variable {reply data : Data}

/-- What a server has encoded is decoded under any name. -/
theorem obtains_of_content
    (h : server.Replies P S K version interest disk question response reply)
    (hfits : response.toBlock.value.length < 2 ^ 64)
    (hcontent : data.content = response.toBlock) :
    Obtains P (server.askedRows question disk.db) data := by
  obtain ⟨htyped, hrrs⟩ := h.typed hfits
  intro re hre
  rw [Response.fromData_content P response Response.init htyped.id_lt
    htyped.freshness_ge htyped.freshness_lt hfits hcontent] at hre
  obtain ⟨s, hread, rfl⟩ := Option.map_eq_some_iff.mp hre
  have hnil : s.rrs = [] := Response.readName_rrs hread
  simp only [askedRows, hnil, List.nil_append, hrrs, QueryMgr.found,
    List.map_map, List.forall₂_map_right_iff, List.forall₂_same]
  exact fun r _ => ⟨rfl, rfl, rfl⟩

/-- A resolver puts the content of the last reply. -/
theorem obtains_of_answers
    {σ : Type} {strategy : IQStrategy σ}
    (hstrategy : NameCachingResolver.AnswersWithLast P strategy)
    (h : server.Replies P S K version interest disk question response reply)
    (hfits : response.toBlock.value.length < 2 ^ 64)
    {resolver : NameCachingResolver} {query : Query} {datas : List Data}
    (hrun : NameCachingResolver.Answers strategy resolver
      (strategy.init query) datas data)
    (hlast : datas.getLast? = some reply) :
    Obtains P (server.askedRows question disk.db) data := by
  obtain ⟨rfl, -⟩ := h.exists_answered hfits
  exact obtains_of_content h hfits
    (hrun.content_eq hstrategy (hstrategy.1 query) _ hlast rfl)

/-- Every way of a reply leads to the RRs of its rows. -/
theorem obtains_of_carried
    (h : server.Replies P S K version interest disk question response reply)
    (hfits : response.toBlock.value.length < 2 ^ 64)
    (hcarried : Carried P reply data) :
    Obtains P (server.askedRows question disk.db) data := by
  cases hcarried with
  | direct =>
      obtain ⟨hpacket, -⟩ := h.exists_answered hfits
      exact obtains_of_content h hfits (by rw [hpacket]; rfl)
  | plain hrun hlast =>
      exact obtains_of_answers
        (NameCachingResolver.answersWithLast_plain P) h hfits hrun hlast
  | hinted hrun hlast =>
      exact obtains_of_answers
        (NameCachingResolver.answersWithLast_hinted P _) h hfits hrun hlast

end NameServer

section Updates

open DyndnsMgr

variable {S : Sqlite} {zone : Zone} {rr : RR} {disk : Disk}

/-- The rows that an insertion adds. -/
theorem new_of_insertRr
    {db db' : Db} {row : RRRow} {m : Nat}
    (h : db.insertRr row = some (m, db')) {r : Nat × RRRow}
    (hr : r ∈ db'.rrs.rows) :
    r ∈ db.rrs.rows ∨ r.2 = row := by
  rw [(Db.insertRr_eq_some h).2.2] at hr
  rcases List.mem_append.mp hr with hr | hr
  · exact Or.inl (List.mem_of_mem_filter hr)
  · rw [List.mem_singleton.mp hr]
    exact Or.inr rfl

/-- A row that an update adds has the data and the time to live of its RR. -/
theorem new_of_changed
    {db : Db} (h : Changed S zone rr disk db) {r : Nat × RRRow}
    (hr : r ∈ db.rrs.rows) :
    r ∈ disk.db.rrs.rows ∨ ∃ n, r.2 = newRow rr n := by
  cases h with
  | unchanged =>
      exact Or.inl hr
  | newRrset n db _ _ hnew =>
      rw [(Db.insertRrset_eq_some hnew).2.1] at hr
      exact Or.inl hr
  | newRrsetRow n m db db' _ _ hnew hrow =>
      refine (new_of_insertRr hrow hr).imp (fun hold => ?_) (fun h => ⟨n, h⟩)
      rwa [(Db.insertRrset_eq_some hnew).2.1] at hold
  | newRow m db _ _ hrow =>
      exact (new_of_insertRr hrow hr).imp id (fun h => ⟨_, h⟩)
  | remove _ _ _ =>
      exact Or.inl (List.mem_of_mem_filter hr)
  | clear _ _ =>
      exact Or.inl (List.mem_of_mem_filter hr)
  | replace m db _ _ hrow =>
      exact (new_of_insertRr hrow hr).imp List.mem_of_mem_filter
        (fun h => ⟨_, h⟩)

variable {P : NameParser} {K : PacketCodec} {server : NameServer}
variable {interest : Interest} {understood : Bool} {queryUpdate : QueryUpdate}

/-- A row that was not there before lives one hour. -/
theorem ttl_onUpdate
    (hread : QueryUpdate.init.fromInterest P K interest =
      some (understood, queryUpdate))
    (hrrs : queryUpdate.update.rrs.head? = some rr)
    (hquote : (39 : UInt8) ∉ rr.rrData) {r : Nat × RRRow}
    (hr : r ∈ (NameServer.onUpdate P S K server interest disk).2.db.rrs.rows)
    (hnew : r ∉ disk.db.rrs.rows) :
    r.2.rrdata = rr.rrData ∧ r.2.ttl = 3600 := by
  obtain ⟨rrs, hrrs⟩ := List.head?_eq_some_iff.mp hrrs
  have hoff := QueryUpdate.offWire_of_fromInterest hread rr (by simp [hrrs])
  have hclass : Stmt.CleanText rr.rrset.clazz := by
    rw [hoff.clazz_eq]
    decide
  have htriple := updateRr_triple (S := S) server.zone hquote hclass disk
    disk rfl
  have hupdate : DyndnsMgr.update S server.zone
      (queryUpdate.setUpdateZone server.zone) disk = _ :=
    NameServer.update_setUpdateZone hrrs S disk
  have hchanged : Changed S server.zone rr disk
      (NameServer.onUpdate P S K server interest disk).2.db := by
    cases hrun : (updateRr S server.zone rr).run disk with
    | ok rr' d =>
        rw [hrun] at htriple hupdate
        simpa only [NameServer.onUpdate, hread, hupdate] using htriple
    | error e d =>
        rw [hrun] at htriple hupdate
        simpa only [NameServer.onUpdate, hread, hupdate] using htriple
  rcases new_of_changed hchanged hr with hold | ⟨n, hrow⟩
  · exact absurd hold hnew
  · rw [hrow]
    exact ⟨rfl, hoff.ttl_eq⟩

/-- An update that is answered has executed its statements. -/
theorem execute_of_returned
    (hread : QueryUpdate.init.fromInterest P K interest =
      some (understood, queryUpdate))
    (hrrs : queryUpdate.update.rrs.head? = some rr)
    (hquote : (39 : UInt8) ∉ rr.rrData) {datas : List Data}
    (hput : (NameServer.onUpdate P S K server interest disk).1 =
      .returned datas) :
    S.execute (plan disk.db server.zone rr) disk =
      some (NameServer.onUpdate P S K server interest disk).2 := by
  obtain ⟨rrs, hrrs⟩ := List.head?_eq_some_iff.mp hrrs
  have hclass : Stmt.CleanText rr.rrset.clazz := by
    have hoff := QueryUpdate.offWire_of_fromInterest hread rr (by simp [hrrs])
    rw [hoff.clazz_eq]
    decide
  have hperforms : Performs S (updateRr S server.zone rr)
      (plan disk.db server.zone rr) disk _ _ :=
    performs_updateRr hquote hclass
  have hends := hperforms disk rfl
  have hupdate : DyndnsMgr.update S server.zone
      (queryUpdate.setUpdateZone server.zone) disk = _ :=
    NameServer.update_setUpdateZone hrrs S disk
  cases hrun : (updateRr S server.zone rr).run disk with
  | ok rr' d =>
      rw [hrun] at hends hupdate
      simp only [NameServer.onUpdate, hread, hupdate]
      exact hends.1
  | error e d =>
      rw [hrun] at hupdate
      simp [NameServer.onUpdate, hread, hupdate] at hput

/-- The insertion of a row comes last. -/
theorem exists_plan_eq
    {db : Db} {n ttl : Nat} {rrData : Bytes}
    (h : .insertRr n ttl rrData ∈ plan db zone rr) :
    ∃ front m, plan db zone rr =
      front ++ [.insertRr m rr.ttl rr.rrData] := by
  have hlast (stmts : List Stmt) (m : Nat)
      (hactions : actions db zone rr =
        stmts ++ [.insertRr m rr.ttl rr.rrData]) :
      ∃ front m, plan db zone rr =
        front ++ [.insertRr m rr.ttl rr.rrData] :=
    ⟨lookups db zone rr ++ stmts, m, by
      rw [plan, hactions, List.append_assoc]⟩
  have hmem : .insertRr n ttl rrData ∈ actions db zone rr := by
    rcases List.mem_append.mp h with hlookup | hmem
    · unfold lookups at hlookup
      split_ifs at hlookup <;> simp at hlookup
    · exact hmem
  unfold actions at hmem hlast
  cases hact : rr.updateAction with
  | ADD =>
      simp only [hact] at hmem hlast
      split_ifs at hmem hlast
      · simp at hmem
      · exact hlast [_] _ rfl
      · exact hlast [] _ rfl
  | REMOVE =>
      simp only [hact] at hmem
      split_ifs at hmem <;> simp at hmem
  | REPLACE_ALL =>
      simp only [hact] at hmem hlast
      split_ifs at hmem hlast
      · exact hlast [_] _ rfl
      · exact hlast [_] _ rfl
  | _ =>
      simp [hact] at hmem

/-- Its id is the last one that SQLite has given. -/
theorem mem_of_execute_insertRr
    {front : List Stmt} {n ttl : Nat} {rrData : Bytes} {d : Disk}
    (h : S.execute (front ++ [.insertRr n ttl rrData]) disk = some d) :
    (d.lastInsertRowid, ⟨n, ttl, rrData⟩) ∈ d.db.rrs.rows := by
  rw [Sqlite.execute_append, Option.bind_eq_some_iff] at h
  obtain ⟨d₀, -, hlast⟩ := h
  unfold Sqlite.execute at hlast
  cases hstep : S.step (.insertRr n ttl rrData) d₀ with
  | none =>
      simp [hstep] at hlast
  | some result =>
      rw [hstep] at hlast
      obtain rfl := Option.some.inj hlast
      unfold Sqlite.step at hstep
      split_ifs at hstep
      obtain ⟨⟨m, db⟩, hins, rfl⟩ := Option.map_eq_some_iff.mp hstep
      have hrows := (Db.insertRr_eq_some hins).2.2
      simp [Result.disk, hrows]

/-- An update that sends an insertion and is answered inserts a row. -/
theorem exists_inserts
    (hread : QueryUpdate.init.fromInterest P K interest =
      some (understood, queryUpdate))
    (hrrs : queryUpdate.update.rrs.head? = some rr)
    (hquote : (39 : UInt8) ∉ rr.rrData) {datas : List Data}
    (hput : (NameServer.onUpdate P S K server interest disk).1 =
      .returned datas)
    {n ttl : Nat} {rrData : Bytes}
    (hstmt : .insertRr n ttl rrData ∈ plan disk.db server.zone rr) :
    ∃ r, Inserts server.zone rr disk
      (NameServer.onUpdate P S K server interest disk) r := by
  have hexecute := execute_of_returned hread hrrs hquote hput
  obtain ⟨front, m, hplan⟩ := exists_plan_eq hstmt
  rw [hplan] at hexecute
  exact ⟨_, .again hput hstmt (mem_of_execute_insertRr hexecute) rfl⟩

/-- A row that an update inserts lives one hour. -/
theorem ttl_of_inserts
    (hread : QueryUpdate.init.fromInterest P K interest =
      some (understood, queryUpdate))
    (hrrs : queryUpdate.update.rrs.head? = some rr)
    (hquote : (39 : UInt8) ∉ rr.rrData) {r : Nat × RRRow}
    (h : Inserts server.zone rr disk
      (NameServer.onUpdate P S K server interest disk) r) :
    r.2.rrdata = rr.rrData ∧ r.2.ttl = 3600 := by
  cases h with
  | fresh hr hnew =>
      exact ttl_onUpdate hread hrrs hquote hr hnew
  | again hput hstmt hr hid =>
      have hexecute := execute_of_returned hread hrrs hquote hput
      obtain ⟨front, n, hplan⟩ := exists_plan_eq hstmt
      rw [hplan] at hexecute
      obtain rfl := Table.eq_of_id hr (mem_of_execute_insertRr hexecute) hid
      obtain ⟨rrs, hrrs⟩ := List.head?_eq_some_iff.mp hrrs
      have hoff := QueryUpdate.offWire_of_fromInterest hread rr
        (by simp [hrrs])
      exact ⟨rfl, hoff.ttl_eq⟩

end Updates

/-- Clients get the times to live of the rows, and inserted rows that of the RR at
the sender, exactly if it is one hour. -/
theorem ttl_kept_iff
    (P : NameParser) (S : Sqlite) (K : PacketCodec) (server : NameServer) :
    (∀ version interest disk question response reply,
      server.Replies P S K version interest disk question response reply →
      response.toBlock.value.length < 2 ^ 64 →
        ∀ data re, Carried P reply data →
          Response.init.fromData P data = some re →
            List.Forall₂ RR.Arrived (server.askedRows question disk.db)
                re.rrs ∧
              (TtlsKept (server.askedRows question disk.db) re.rrs ↔
                ∀ r ∈ server.askedRows question disk.db,
                  r.2.ttl = 3600)) ∧
    ∀ interest disk sent got,
      UpdateCarried P K interest sent got →
      (39 : UInt8) ∉ got.rrData →
        ∀ r, Inserts server.zone got disk
            (server.onUpdate P S K interest disk) r →
          r.2.rrdata = got.rrData ∧
            (r.2.ttl = sent.ttl ↔ sent.ttl = 3600) := by
  constructor
  · intro version interest disk question response reply h hfits data re
      hcarried hread
    have harrived := NameServer.obtains_of_carried h hfits hcarried re hread
    exact ⟨harrived, ttlsKept_iff harrived⟩
  · intro interest disk sent got hcarried hquote r hinserts
    obtain ⟨understood, queryUpdate, hread, hrrs⟩ := hcarried.reads
    obtain ⟨hdata, httl⟩ := ttl_of_inserts hread hrrs hquote hinserts
    rw [httl]
    exact ⟨hdata, eq_comm⟩

section Hosts

open DyndnsMgr DynamicDNSUpdate NameServer Network NameCachingResolver
open NameDig

/-- The RR that the Interest of a client was made from. -/
theorem exists_sent {K : PacketCodec} (c : UpdateClient K) :
    ∃ (q q' : QueryUpdate) (version : Version),
      q.toInterest K version = some (c.interest, q') ∧
        q.update.rrs.head? = some (init c.zone c.rrLabel c.rrType c.rrData
          c.action).record := by
  obtain ⟨tool, hsend⟩ := c.interest_eq
  unfold DynamicDNSUpdate.toInterest at hsend
  obtain ⟨⟨interest, q⟩, hquery, hsame⟩ := Option.bind_eq_some_iff.mp hsend
  obtain ⟨rfl, -⟩ := Prod.mk.inj (Option.some.inj hsame)
  exact ⟨_, q, c.outer, hquery, rfl⟩

theorem updateCarried_host (action : UpdateAction) :
    UpdateCarried uriParser (ndnCodec digestSignature)
      (hostClient action).interest
      (init (Zone.ofName [ascii "net"]) [ascii "www"] .TXT (ascii "/isp")
        action).record (hostRecord action) := by
  obtain ⟨queryUpdate, hread, hone⟩ := fromInterest_hostClient action
  have hhead : queryUpdate.update.rrs.head? = some (hostRecord action) := by
    rw [hone]
    rfl
  exact ⟨exists_sent (hostClient action), true, queryUpdate, hread, hhead⟩

theorem onUpdate_hostClient
    {action : UpdateAction} {disk d : Disk}
    (hsupported : Supported (hostRecord action))
    (hrun : reliable.execute (plan disk.db netZone (hostRecord action))
      disk = some d) :
    ∃ data, netServer.onUpdate uriParser reliable (ndnCodec digestSignature)
      (hostClient action).interest disk = (.returned [data], d) := by
  obtain ⟨queryUpdate, hread, hone⟩ := fromInterest_hostClient action
  obtain ⟨data, hhandled, -⟩ := onUpdate_returned netServer hread hone
    (reply_fits_host action) hsupported hrun reliable.foreign
  exact ⟨data, hhandled⟩

/-- The record of `/www` has been replaced by itself. -/
def replacedDisk : Disk :=
  behindHost .REPLACE_ALL addedDisk

theorem execute_replaced :
    reliable.execute (plan addedDisk.db netZone (hostRecord .REPLACE_ALL))
      addedDisk = some replacedDisk := by
  decide +kernel

/-- A row that is inserted just as it was. -/
theorem inserts_again :
    ∃ r ∈ addedDisk.db.rrs.rows,
      Inserts netServer.zone (hostRecord .REPLACE_ALL) addedDisk
        (netServer.onUpdate uriParser reliable (ndnCodec digestSignature)
          (hostClient .REPLACE_ALL).interest addedDisk) r := by
  obtain ⟨data, hhandled⟩ := onUpdate_hostClient
    (show UpdateAction.REPLACE_ALL ∈ [.NONE, .ADD, .REMOVE, .REPLACE_ALL] by
      decide) execute_replaced
  have hrow : ∃ r ∈ addedDisk.db.rrs.rows, r ∈ replacedDisk.db.rrs.rows ∧
      r.1 = replacedDisk.lastInsertRowid := by
    decide +kernel
  obtain ⟨r, hold, hr, hid⟩ := hrow
  have hstmt : .insertRr 2 3600 (ascii "/isp") ∈
      plan addedDisk.db netZone (hostRecord .REPLACE_ALL) := by
    decide +kernel
  refine ⟨r, hold, ?_⟩
  rw [hhandled]
  exact Inserts.again rfl hstmt hr hid

/-- Times to live of an hour arrive. -/
theorem ttl_kept_iff_host :
    (∃ re, Response.init.fromData uriParser hostResponse.packet = some re ∧
      re.rrs.length = 2 ∧
      TtlsKept (netServer.askedRows (stubQuery []) bothDisk.db) re.rrs) ∧
    (∃ r ∈ (netServer.onUpdate uriParser reliable (ndnCodec digestSignature)
        (hostClient .ADD).interest twoZonesDisk).2.db.rrs.rows,
      r ∉ twoZonesDisk.db.rrs.rows ∧ r.2.ttl = 3600) ∧
    ∃ r ∈ addedDisk.db.rrs.rows,
      Inserts netServer.zone (hostRecord .REPLACE_ALL) addedDisk
        (netServer.onUpdate uriParser reliable (ndnCodec digestSignature)
          (hostClient .REPLACE_ALL).interest addedDisk) r ∧
        r.2.ttl = 3600 := by
  obtain ⟨hreplies, hupdates⟩ := ttl_kept_iff uriParser reliable
    (ndnCodec digestSignature) netServer
  refine ⟨?_, ?_, ?_⟩
  · have hsome : ((Response.init.fromData uriParser
        hostResponse.packet).map (fun re => re.rrs.length)) = some 2 := by
      decide +kernel
    obtain ⟨re, hre, hlength⟩ := Option.map_eq_some_iff.mp hsome
    obtain ⟨-, hkept⟩ := hreplies _ _ _ _ _ _ replies_host
      fits_hostResponse _ re .direct hre
    exact ⟨re, hre, hlength, hkept.mpr (by decide +kernel)⟩
  · obtain ⟨data, hhandled⟩ := onUpdate_hostClient
      (show UpdateAction.ADD ∈ [.NONE, .ADD, .REMOVE, .REPLACE_ALL] by
        decide) execute_added
    have hrow : ∃ r ∈ addedDisk.db.rrs.rows,
        r ∉ twoZonesDisk.db.rrs.rows := by
      decide +kernel
    obtain ⟨r, hr, hnew⟩ := hrow
    have hmem : r ∈ (netServer.onUpdate uriParser reliable
        (ndnCodec digestSignature) (hostClient .ADD).interest
          twoZonesDisk).2.db.rrs.rows := by
      rw [hhandled]
      exact hr
    obtain ⟨-, httl⟩ := hupdates _ twoZonesDisk _ _ (updateCarried_host .ADD)
      (by decide +kernel) r (.fresh hmem hnew)
    exact ⟨r, hmem, hnew, httl.mpr rfl⟩
  · obtain ⟨r, hold, hinserts⟩ := inserts_again
    obtain ⟨-, httl⟩ := hupdates _ addedDisk _ _
      (updateCarried_host .REPLACE_ALL) (by decide +kernel) r hinserts
    exact ⟨r, hold, hinserts, httl.mpr rfl⟩

/-- The text record of `/www` lives one minute. -/
def minuteDisk : Disk :=
  { addedDisk with
    db := ((addedDisk.db.insertRr { newRow (hostRecord .ADD) 2 with
      ttl := 60 }).map Prod.snd).getD addedDisk.db }

/-- What the server of `/net` makes for it. -/
def minuteResponse : Response :=
  answered netServer (stubQuery [])
    (netServer.queryReply firstVersion (stubQuery []).toInterest)
    minuteDisk.db .NDNS_Resp

/-- A client gets it for an hour. -/
theorem minute_not_kept :
    netServer.Replies uriParser reliable (ndnCodec digestSignature)
      firstVersion (stubQuery []).toInterest minuteDisk (stubQuery [])
      minuteResponse minuteResponse.packet ∧
    ∃ re, Response.init.fromData uriParser minuteResponse.packet = some re ∧
      (netServer.askedRows (stubQuery []) minuteDisk.db).map
        (fun r => r.2.ttl) = [60] ∧
      re.rrs.map RR.ttl = [3600] ∧
      ¬ TtlsKept (netServer.askedRows (stubQuery []) minuteDisk.db)
        re.rrs := by
  have htype : replyType netServer (stubQuery []) minuteDisk.db =
      .NDNS_Resp := by
    decide +kernel
  have hfits : minuteResponse.toBlock.value.length < 2 ^ 64 := by
    decide +kernel
  have hrows : (netServer.askedRows (stubQuery []) minuteDisk.db).map
      (fun r => r.2.ttl) = [60] := by
    decide +kernel
  have hread : (Response.init.fromData uriParser minuteResponse.packet).map
      (fun re => re.rrs.map RR.ttl) = some [3600] := by
    decide +kernel
  obtain ⟨re, hre, hrrs⟩ := Option.map_eq_some_iff.mp hread
  refine ⟨?_, re, hre, hrows, hrrs, ?_⟩
  · rw [minuteResponse, ← htype] at hfits ⊢
    exact replies_of_queryPlan (by decide +kernel) (by decide +kernel)
      (fromInterest_stubQuery []) (by decide +kernel) hfits
  · intro hkept
    have hsame : List.Forall₂ (· = ·)
        ((netServer.askedRows (stubQuery []) minuteDisk.db).map
          (fun r => r.2.ttl)) (re.rrs.map RR.ttl) := by
      rw [List.forall₂_map_left_iff, List.forall₂_map_right_iff]
      exact hkept.imp (fun _ _ h => h.symm)
    rw [hrows, hrrs, List.forall₂_eq_eq_eq] at hsame
    simp at hsame

end Hosts

end Ndns

import Ndns.Consistency
import Ndns.NameDig
import Ndns.PlainNames

/-!
# The stores that are served

The tables of a database, seen from one zone, are a store of records.  A server that
is asked a plain question replies what its store answers, whatever its statements
do: one that fails leaves the question without a reply.

**Results.**
* `holds_store`: the store of a zone can be computed from the tables;
* `Holds.discerns`: what the look-ups rely on holds of plain delegations;
* `onInterest_keeps`: no question changes the tables;
* `onInterest_replies`: the reply to a plain question carries the answer of the store.
-/

namespace Ndns

namespace Db

/-- The record of a row, if its rrset is one of the zone with a label and a type
that can be read. -/
def storedRecord (db : Db) (zoneId : Nat) (r : Nat × RRRow) :
    Option StoredRecord := do
  let s ← db.rrsets.rows.find?
    (fun s => s.1 = r.2.rrsetId && s.2.zoneId = zoneId)
  let label ← parseUri s.2.label
  if label.toUri = s.2.label ∧ (toRRType s.2.type).toString = s.2.type then
    return ⟨label, toRRType s.2.type, ⟨r.1, r.2.rrdata⟩⟩
  else none

/-- The records of a zone, in the order of their rows. -/
def store (db : Db) (zoneId : Nat) : Store :=
  db.rrs.rows.filterMap (db.storedRecord zoneId)

/-- What is on the wire of a row. -/
def recordOf (r : Nat × RRRow) : Record :=
  ⟨r.1, r.2.rrdata⟩

end Db

/-- The store holds what the tables hold for a zone. -/
def Holds (db : Db) (zoneId : Nat) (s : Store) : Prop :=
  ∀ label type, s.lookup label type =
    (db.stored zoneId label type).map Db.recordOf

/-- The NS records of a zone are at plain labels. -/
def PlainDelegations (db : Db) (zoneId : Nat) : Prop :=
  ∀ s ∈ db.rrsets.rows, s.2.zoneId = zoneId →
    s.2.type = RRType.NS.toString →
      ∃ n : Name, n.Plain ∧ s.2.label = n.toUri

/-- The packet answers a question as the store does. -/
structure Store.AnsweredBy
    (P : NameParser) (s : Store) (q : Query) (data : Data) : Prop where
  label_ne_nil : q.rrLabel ≠ []
  name_eq : ∃ version : Version,
    data.name = q.toInterest.name ++ [version.component]
  content_type : data.content.type = tlv.Content
  carried : ∃ re, Response.init.fromData P data = some re ∧
    (s.answer q.rrLabel q.rrType).CarriedBy re

section Stores

variable {db : Db} {zoneId : Nat} {s : Store}

theorem storedRecord_eq_some_iff
    {r : Nat × RRRow} {x : StoredRecord} :
    db.storedRecord zoneId r = some x ↔
      (∃ t ∈ db.rrsets.rows, t.1 = r.2.rrsetId ∧
        t.2.hasKey zoneId x.label.toUri x.type.toString = true) ∧
          x.record = Db.recordOf r := by
  simp only [Db.storedRecord, Option.bind_eq_bind,
    Option.bind_eq_some_iff, RRSetRow.hasKey, Bool.and_eq_true,
    decide_eq_true_eq]
  constructor
  · rintro ⟨t, hfind, label, hlabel, hx⟩
    have hp := List.find?_some hfind
    simp only [Bool.and_eq_true, decide_eq_true_eq] at hp
    split_ifs at hx with hread
    obtain rfl := Option.some.inj hx
    exact ⟨⟨t, List.mem_of_find?_eq_some hfind, hp.1,
      ⟨hp.2, hread.1.symm⟩, hread.2.symm⟩, rfl⟩
  · rintro ⟨⟨t, ht, hid, ⟨hzone, hlabel⟩, htype⟩, hrecord⟩
    obtain ⟨u, hfind⟩ : ∃ u, db.rrsets.rows.find?
        (fun s => s.1 = r.2.rrsetId && s.2.zoneId = zoneId) = some u := by
      refine Option.isSome_iff_exists.mp (List.find?_isSome.mpr ?_)
      exact ⟨t, ht, by simp [hid, hzone]⟩
    have hp := List.find?_some hfind
    simp only [Bool.and_eq_true, decide_eq_true_eq] at hp
    obtain rfl : u = t := Table.eq_of_id
      (List.mem_of_find?_eq_some hfind) ht (hp.1.trans hid.symm)
    refine ⟨u, hfind, x.label, by rw [hlabel, parseUri_toUri], ?_⟩
    rw [htype, toRRType_toString, if_pos ⟨hlabel.symm, rfl⟩]
    cases x
    simp only [Db.recordOf] at hrecord
    simp [hrecord]

/-- A list that is read row by row, some rows of it and their records. -/
theorem map_filter_filterMap
    {α β γ : Type} {f : α → Option β} {p : α → Bool} {q : β → Bool}
    {g : α → γ} {k : β → γ} {as : List α}
    (hp : ∀ a ∈ as, p a = true ↔ ∃ b, f a = some b ∧ q b = true)
    (hk : ∀ a b, f a = some b → k b = g a) :
    ((as.filterMap f).filter q).map k = (as.filter p).map g := by
  induction as with
  | nil =>
      rfl
  | cons a as ih =>
      have hrest := ih (fun x hx => hp x (List.mem_cons_of_mem a hx))
      have ha := hp a (by simp)
      cases hf : f a with
      | none =>
          have hno : ¬ p a = true := by
            rw [ha, hf]
            simp
          rw [List.filterMap_cons_none hf, List.filter_cons_of_neg hno]
          exact hrest
      | some b =>
          rw [List.filterMap_cons_some hf]
          rw [hf] at ha
          by_cases hq : q b = true
          · have hyes : p a = true := ha.mpr ⟨b, rfl, hq⟩
            rw [List.filter_cons_of_pos hq, List.filter_cons_of_pos hyes,
              List.map_cons, List.map_cons, hrest, hk a b hf]
          · have hno : ¬ p a = true := by
              rw [ha]
              rintro ⟨b', hb, hq'⟩
              rw [← Option.some.inj hb] at hq'
              exact hq hq'
            rw [List.filter_cons_of_neg hq, List.filter_cons_of_neg hno]
            exact hrest

theorem holds_store (db : Db) (zoneId : Nat) :
    Holds db zoneId (db.store zoneId) := by
  intro label type
  refine map_filter_filterMap ?_ ?_
  · intro r hr
    constructor
    · intro hany
      obtain ⟨t, ht, hid, hkey⟩ :=
        (Db.mem_stored.mp (List.mem_filter.mpr ⟨hr, hany⟩)).2
      exact ⟨⟨label, type, Db.recordOf r⟩,
        storedRecord_eq_some_iff.mpr ⟨⟨t, ht, hid, hkey⟩, rfl⟩, by simp⟩
    · rintro ⟨x, hx, hq⟩
      simp only [decide_eq_true_eq] at hq
      obtain ⟨rfl, rfl⟩ := hq
      have hkey := (storedRecord_eq_some_iff.mp hx).1
      exact (List.mem_filter.mp (Db.mem_stored.mpr ⟨hr, hkey⟩)).2
  · intro r x hx
    exact (storedRecord_eq_some_iff.mp hx).2

theorem lookup_ne_nil_iff {label : Name} {type : RRType} :
    s.lookup label type ≠ [] ↔
      ∃ x ∈ s, x.label = label ∧ x.type = type := by
  simp [Store.lookup, List.filter_eq_nil_iff]

/-- Below a label the store has what the tables have. -/
theorem Holds.hasAuth_iff
    (h : Holds db zoneId s) {label : Name} {type : RRType} :
    s.hasAuth label type = true ↔
      ∃ m : Name, m ≠ [] ∧ db.stored zoneId (label ++ m) type ≠ [] := by
  have hrows (n : Name) :
      db.stored zoneId n type ≠ [] ↔ s.lookup n type ≠ [] := by
    rw [h n type, ne_eq, ne_eq, List.map_eq_nil_iff]
  simp only [Store.hasAuth, List.any_eq_true, decide_eq_true_eq, hrows,
    lookup_ne_nil_iff]
  constructor
  · rintro ⟨x, hx, rfl, ⟨m, hm⟩, hne⟩
    refine ⟨m, ?_, x, hx, hm.symm, rfl⟩
    rintro rfl
    exact hne (by simpa using hm.symm)
  · rintro ⟨m, hm, x, hx, hlabel, rfl⟩
    refine ⟨x, hx, rfl, ⟨m, hlabel.symm⟩, ?_⟩
    rw [hlabel]
    simpa using hm

/-- The name of which a text is the URI. -/
def Name.ofOwnUri (s : Bytes) : Option Name :=
  (parseUri s).filter (fun n => n.toUri = s)

theorem Name.ofOwnUri_eq_some_iff {s : Bytes} {n : Name} :
    Name.ofOwnUri s = some n ↔ s = n.toUri := by
  simp only [Name.ofOwnUri, Option.filter_eq_some_iff, decide_eq_true_eq]
  constructor
  · rintro ⟨-, rfl⟩
    rfl
  · rintro rfl
    exact ⟨parseUri_toUri n, rfl⟩

theorem Name.ofOwnUri_toUri (n : Name) : Name.ofOwnUri n.toUri = some n :=
  Name.ofOwnUri_eq_some_iff.mpr rfl

/-- What is stored under URIs. -/
theorem storedAs_ofOwnUri (db : Db) (zoneId : Nat) (label : Name)
    (type : RRType) :
    db.storedAs Name.ofOwnUri zoneId label type =
      db.stored zoneId label type := by
  refine Db.storedAs_eq_stored Name.ofOwnUri_toUri (fun r hr => ?_)
  obtain ⟨hrow, t, ht, hid, hzone, hlabel, htype⟩ := Db.mem_storedAs.mp hr
  refine Db.mem_stored.mpr ⟨hrow, t, ht, hid, ?_⟩
  simp [RRSetRow.hasKey, hzone, htype, Name.ofOwnUri_eq_some_iff.mp hlabel]

/-- What the look-ups of a plain question rely on. -/
theorem discerns_of_plain
    {zone : Zone} {query : Query} (hdb : db.Consistent)
    (hplain : PlainDelegations db zone.id) (hlabel : query.rrLabel.Plain)
    (hne : query.rrLabel ≠ []) :
    QueryMgr.Discerns Name.ofOwnUri zone query db where
  exact_lookup _ r hr := by
    obtain ⟨t, ht, hid⟩ := hdb.rr_rrset r hr
    have hpos := db.rrsets.id_pos t ht
    omega
  canonical r hr := by
    rwa [storedAs_ofOwnUri] at hr
  pattern_lookup hns _ := by
    simp only [QueryMgr.Delegated, storedAs_ofOwnUri]
    refine ⟨fun hmatched => ?_, fun hdelegated => ?_⟩
    · obtain ⟨r, hr, t, ht, hid, hzone, htype, hlike⟩ := hmatched
      rw [hns] at htype
      obtain ⟨n, hn, hn'⟩ := hplain t ht hzone htype
      rw [hn'] at hlike
      obtain ⟨x, hx, hrest⟩ := isPrefix_of_like (plainText_toUri hlabel)
        (plainText_toUri hn) hlike
      obtain ⟨y, rfl⟩ : ∃ y, x = 47 :: y := by
        have hslash : PlainText x := fun b hb =>
          plainText_toUri hn b (by rw [hx]; simp [hb])
        obtain ⟨y, rfl, -⟩ := isPrefix_of_like (p := [47]) (q := [37])
          (by decide) hslash hrest
        exact ⟨y, rfl⟩
      obtain ⟨m, hm, rfl⟩ := exists_append_of_toUri hne hx
      refine ⟨m, hm, List.ne_nil_of_mem
        (Db.mem_stored.mpr ⟨hr, t, ht, hid, ?_⟩)⟩
      simp [RRSetRow.hasKey, hzone, hn', htype]
    · obtain ⟨m, hm, hstored⟩ := hdelegated
      exact QueryMgr.matched_of_stored hm hns hne hstored

end Stores

namespace QueryMgr

/-- The look-up of deeper zones counts the RRs and leaves the tables alone. -/
theorem hasAuth_triple
    (S : Sqlite) (zone : Zone) (query : Query) (disk : Disk) :
    Effect.Triple (· = disk) (hasAuth S zone query)
      (fun count d => count = authCount zone query disk.db ∧
        d.db = disk.db)
      (fun d => d.db = disk.db) := by
  unfold hasAuth
  refine Effect.Triple.bind ((executeOnly_triple S (by trivial)
    disk).conseq (fun _ h => h) (fun _ _ h => h) ?_) (fun rows => ?_)
  · rintro _ ⟨rfl, -⟩
    rfl
  refine Effect.triple_pure ?_
  rintro _ ⟨-, r, hr, rfl, rfl⟩
  simp only [Stmt.run, Option.some.injEq] at hr
  subst hr
  exact ⟨congrArg Nat.cast (tempInt_authCount zone query disk.db), rfl⟩

end QueryMgr

open DyndnsMgr DynamicDNSUpdate

namespace NameServer

variable {P : NameParser} {S : Sqlite} {K : PacketCodec} {disk : Disk}
variable {server : NameServer} {version : Version} {interest : Interest}
variable {query : Query}

section Statements

/-- A query leaves the tables alone, and what it finds decides its reply. -/
theorem answer_answered (response : Response) (disk : Disk) :
    Effect.Triple (· = disk) (answer P S server query response)
      (fun x d => d.db = disk.db ∧
        ∀ re, x = some re → re = answered server query response disk.db
          (replyType server query disk.db))
      (fun d => d.db = disk.db) := by
  unfold answer answered replyType
  refine Effect.Triple.bind ((QueryMgr.lookup_triple P S server.zone query
    response disk).conseq (fun _ h => h) (fun _ _ h => h)
      (fun _ h => h.1)) (fun re => ?_)
  refine Effect.triple_of_forall ?_
  rintro d ⟨rfl, -, rfl⟩
  by_cases hfound : QueryMgr.found server.zone query disk.db = []
  · have hnone : ¬ (response.setRrs
        (QueryMgr.found server.zone query disk.db)).rrs.length > 0 := by
      simp [Response.setRrs, hfound]
    rw [if_neg hnone, if_neg (not_not.mpr hfound)]
    by_cases hns : query.rrType = .NS
    · rw [if_pos hns]
      refine Effect.Triple.bind
        (QueryMgr.hasAuth_triple S server.zone query _) (fun count => ?_)
      refine Effect.triple_of_forall ?_
      rintro d ⟨rfl, hd⟩
      have hcount : QueryMgr.authCount server.zone query
          disk.next.next.db = QueryMgr.authCount server.zone query disk.db :=
        rfl
      rw [if_neg (not_lt.mpr (Int.natCast_nonneg _)), hcount]
      by_cases hpos : 0 < QueryMgr.authCount server.zone query disk.db
      · rw [if_pos (Int.natCast_pos.mpr hpos), if_pos ⟨hns, hpos⟩]
        refine Effect.triple_pure ?_
        rintro _ rfl
        exact ⟨hd, fun re hre => (Option.some.inj hre).symm⟩
      · rw [if_neg (mt Int.natCast_pos.mp hpos), if_neg (fun h => hpos h.2)]
        refine Effect.triple_pure ?_
        rintro _ rfl
        exact ⟨hd, fun re hre => (Option.some.inj hre).symm⟩
    · rw [if_neg hns, if_neg (fun h => hns h.1)]
      refine Effect.triple_pure ?_
      rintro _ rfl
      exact ⟨rfl, fun re hre => (Option.some.inj hre).symm⟩
  · have hpos : (response.setRrs
        (QueryMgr.found server.zone query disk.db)).rrs.length > 0 :=
      List.length_pos_of_ne_nil hfound
    rw [if_pos hpos, if_pos hfound]
    refine Effect.triple_pure ?_
    rintro _ rfl
    exact ⟨rfl, fun re hre => (Option.some.inj hre).symm⟩

end Statements

section Answers

/-- What is found is what the store answers. -/
theorem carriedBy_answered
    {s : Store} {db : Db} (hdb : db.Consistent)
    (hplain : PlainDelegations db server.zone.id)
    (hholds : Holds db server.zone.id s) (hlabel : query.rrLabel.Plain)
    (hne : query.rrLabel ≠ []) {re : Response}
    (htype : re.responseType = replyType server query db)
    (hrrs : re.rrs.map QueryMgr.wireParts =
      (QueryMgr.found server.zone query db).map QueryMgr.wireParts) :
    (s.answer query.rrLabel query.rrType).CarriedBy re := by
  have hdiscerns : QueryMgr.Discerns Name.ofOwnUri server.zone query db :=
    discerns_of_plain hdb hplain hlabel hne
  have hverdict := (verdict_iff Name.ofOwnUri_toUri hdb.rrset_unique htype
    hrrs).mpr hdiscerns
  have hresp_iff := hverdict.resp_iff
  rw [storedAs_ofOwnUri] at hresp_iff
  have hlookup := hholds query.rrLabel query.rrType
  have hstored : db.stored server.zone.id query.rrLabel query.rrType ≠ [] ↔
      s.lookup query.rrLabel query.rrType ≠ [] := by
    rw [hlookup, ne_eq, ne_eq, List.map_eq_nil_iff]
  have hdelegated (hns : query.rrType = .NS) :
      QueryMgr.Delegated Name.ofOwnUri server.zone query db ↔
        s.hasAuth query.rrLabel query.rrType = true := by
    rw [hholds.hasAuth_iff, hns]
    simp only [QueryMgr.Delegated, storedAs_ofOwnUri]
  constructor
  · unfold Store.answer
    split_ifs with hfound hns hauth
    · exact hresp_iff.mpr (hstored.mpr hfound)
    · have hresp := mt (hstored.mp ∘ hresp_iff.mp) hfound
      exact (hverdict.auth_iff hresp).mpr ⟨hns, (hdelegated hns).mpr hauth⟩
    · have hresp := mt (hstored.mp ∘ hresp_iff.mp) hfound
      refine hverdict.nack hresp (fun h => hauth ?_)
      exact (hdelegated hns).mp ((hverdict.auth_iff hresp).mp h).2
    · have hresp := mt (hstored.mp ∘ hresp_iff.mp) hfound
      refine hverdict.nack hresp (fun h => hns ?_)
      exact ((hverdict.auth_iff hresp).mp h).1
  · have hrecords := congrArg
      (List.map (fun p : Nat × Bytes => Record.mk p.1 p.2)) hrrs
    rw [hdiscerns.found_eq Name.ofOwnUri_toUri hdb.rrset_unique,
      storedAs_ofOwnUri, List.map_map, List.map_map, List.map_map]
      at hrecords
    rw [Store.answer_rrs, hlookup]
    exact hrecords

/-- A packet with what was found is read as the answer of the store. -/
theorem answeredBy_packet
    {s : Store} {db : Db} (hdb : db.Consistent)
    (hdelegations : PlainDelegations db server.zone.id)
    (hholds : Holds db server.zone.id s) (hplain : query.Plain)
    (hne : query.rrLabel ≠ [])
    (hfits : (answered server query
      (server.queryReply version query.toInterest) db
        (replyType server query db)).toBlock.value.length < 2 ^ 64)
    {data : Data}
    (hname : data.name = query.toInterest.name ++ [version.component])
    (hcontent : data.content = (answered server query
      (server.queryReply version query.toInterest) db
        (replyType server query db)).toBlock) :
    s.AnsweredBy P query data := by
  have hdecode := Response.fromData_content P _ Response.init
    (fun rr hrr => id_lt_of_found hrr) server.contentFreshness_lo
    server.contentFreshness_hi hfits hcontent
  obtain ⟨map, hmap⟩ := Option.isSome_iff_exists.mp
    (hplain.toQueryBranch hne).2
  have hlong := matchQueryName_concat_version version hmap
  rw [← hname] at hlong
  have hsome : (Response.init.readName P data.name).isSome := by
    rw [Response.isSome_readName (q := Query.init) hmap hlong,
      hplain.roundTrips P hne]
    rfl
  obtain ⟨r, hread⟩ := Option.isSome_iff_exists.mp hsome
  rw [hread, Option.map_some] at hdecode
  refine ⟨hne, ⟨version, hname⟩, by rw [hcontent]; rfl, _, hdecode, ?_⟩
  refine carriedBy_answered hdb hdelegations hholds hplain.label hne rfl ?_
  rw [Response.readName_rrs hread]
  simp only [Response.init, List.nil_append, List.map_map]
  rfl

/-- A question without a label is not understood. -/
theorem onInterest_of_rrLabel_nil
    (hplain : query.Plain) (hnil : query.rrLabel = []) :
    onInterest P S K server version query.toInterest disk =
      (.returned [], disk) := by
  obtain ⟨hupdate, hquery⟩ := hplain.no_branch hnil
  rw [onInterest, if_neg (by simp [hupdate]), if_neg (by simp [hquery])]

/-- A plain question changes no table, and every packet that is put for it
carries the answer of the store. -/
theorem onInterest_answeredBy
    {s : Store} (hdb : disk.db.Consistent)
    (hdelegations : PlainDelegations disk.db server.zone.id)
    (hholds : Holds disk.db server.zone.id s) (hplain : query.Plain)
    (hfits : (answered server query
      (server.queryReply version query.toInterest) disk.db
        (replyType server query disk.db)).toBlock.value.length < 2 ^ 64) :
    (onInterest P S K server version query.toInterest disk).2.db =
        disk.db ∧
      ∀ puts, (onInterest P S K server version query.toInterest
          disk).1 = .returned puts →
        ∀ data ∈ puts, s.AnsweredBy P query data := by
  by_cases hne : query.rrLabel = []
  · rw [onInterest_of_rrLabel_nil hplain hne]
    refine ⟨rfl, fun puts hputs => ?_⟩
    obtain rfl := Outcome.returned.inj hputs
    simp
  obtain ⟨hupdate, hquery⟩ := hplain.toQueryBranch hne
  have hread : Query.init.fromInterest P query.toInterest =
      some (true, query) :=
    hplain.roundTrips P hne
  have hrun := @answer_answered P S server query
    (server.queryReply version query.toInterest) disk
    disk rfl
  rw [onInterest, if_neg (by simp [hupdate]), if_pos hquery, onQuery, hread]
  dsimp only
  cases hanswer : (answer P S server query
      (server.queryReply version query.toInterest)).run disk with
  | error what d =>
      rw [hanswer] at hrun
      exact ⟨hrun, fun puts hputs => absurd hputs (by simp)⟩
  | ok x d =>
      rw [hanswer] at hrun
      obtain ⟨hd, hre⟩ := hrun
      cases x with
      | none =>
          refine ⟨hd, fun puts hputs => ?_⟩
          obtain rfl := Outcome.returned.inj hputs
          simp
      | some re =>
          obtain rfl := hre re rfl
          refine ⟨hd, fun puts hputs data hdata => ?_⟩
          simp only [Response.toData_eq rfl hfits, put,
            Outcome.returned.injEq] at hputs
          subst hputs
          obtain rfl := List.mem_singleton.mp hdata
          exact answeredBy_packet hdb hdelegations hholds hplain hne hfits
            rfl rfl

/-- Look-ups that never fail are executed. -/
theorem isSome_execute
    (hfails : ∀ n, S.fails n = false) {stmts : List Stmt}
    (h : ∀ stmt ∈ stmts, stmt.Clean ∧ ∀ db, (stmt.run db).isSome)
    (disk : Disk) :
    (S.execute stmts disk).isSome := by
  induction stmts generalizing disk with
  | nil => rfl
  | cons stmt stmts ih =>
      obtain ⟨hclean, hsome⟩ := h stmt (by simp)
      obtain ⟨r, hr⟩ := Option.isSome_iff_exists.mp (hsome disk.db)
      have hstep : S.step stmt disk = some r := by
        rw [Sqlite.step, if_pos ⟨hfails _, hclean⟩, hr]
      simp only [Sqlite.execute, hstep]
      exact ih (fun s hs => h s (List.mem_cons_of_mem _ hs)) _

/-- If no statement fails, a question with a label is answered. -/
theorem onInterest_puts
    (hfails : ∀ n, S.fails n = false) (hplain : query.Plain)
    (hne : query.rrLabel ≠ [])
    (hfits : (answered server query
      (server.queryReply version query.toInterest) disk.db
        (replyType server query disk.db)).toBlock.value.length < 2 ^ 64) :
    ∃ data, (onInterest P S K server version query.toInterest disk).1 =
      .returned [data] := by
  obtain ⟨hupdate, hquery⟩ := hplain.toQueryBranch hne
  have hread : Query.init.fromInterest P query.toInterest =
      some (true, query) :=
    hplain.roundTrips P hne
  have hsql : (S.execute (queryPlan server query disk.db) disk).isSome := by
    refine isSome_execute hfails ?_ disk
    intro stmt hstmt
    simp only [queryPlan, QueryMgr.lookupPlan, List.mem_append,
      List.mem_cons, List.not_mem_nil, or_false] at hstmt
    rcases hstmt with (rfl | rfl) | hstmt
    · exact ⟨trivial, fun _ => rfl⟩
    · exact ⟨trivial, fun _ => rfl⟩
    · split_ifs at hstmt
      · rw [List.mem_singleton.mp hstmt]
        exact ⟨trivial, fun _ => rfl⟩
      · cases hstmt
  rw [onInterest, if_neg (by simp [hupdate]), if_pos hquery]
  exact ⟨_, onQuery_eq hread hsql hfits⟩

end Answers

end NameServer

end Ndns

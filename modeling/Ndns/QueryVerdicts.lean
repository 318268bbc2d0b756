import Ndns.NameCut
import Ndns.NameServerReplies

/-!
# The verdicts of the name server

A query is answered with RRs, with a referral to deeper zones, or with neither.
RRs are looked up by the exact text of the label, and a name has several texts.
Deeper zones are looked for with `LIKE`, and the pattern is the client's label: it
matches the URI of every label below, but other labels too, as letters match in
either case, `_` stands for any character and so does the start of an escaped byte
for any text.

**Results.**
* `like_append_self`: a pattern matches every text that continues it;
* `verdict_iff`: when the verdict is right;
* `onInterest_verdict_iff`: the same for the packet that is put.
-/

namespace Ndns

section Patterns

theorem length_afterChar_le (s : Bytes) :
    (afterChar s).length ≤ s.length - 1 := by
  cases s with
  | nil =>
      exact Nat.zero_le _
  | cons b s =>
      simp only [afterChar]
      split_ifs
      · exact (List.dropWhile_sublist isInner).length_le
      · exact le_refl _

theorem length_iterate_afterChar_le (n : Nat) (s : Bytes) :
    (afterChar^[n] s).length ≤ s.length - n := by
  induction n generalizing s with
  | zero =>
      exact le_refl _
  | succ n ih =>
      have hone := length_afterChar_le s
      have hrest := ih (afterChar s)
      rw [Function.iterate_succ_apply]
      omega

/-- `%` alone matches every text: there are no more characters than bytes. -/
theorem like_percent (s : Bytes) : like [37] s = true := by
  have hnil : afterChar^[s.length] s = [] := by
    have hlength := length_iterate_afterChar_le s.length s
    exact List.eq_nil_of_length_eq_zero (by omega)
  simp only [like, if_true, List.any_eq_true, List.mem_range]
  exact ⟨s.length, Nat.lt_succ_self _, by rw [hnil]; rfl⟩

/-- What a pattern is made of, matches itself. -/
theorem like_append_self
    (p : Bytes) {q s : Bytes} (h : like q s = true) :
    like (p ++ q) (p ++ s) = true := by
  induction p with
  | nil =>
      exact h
  | cons b p ih =>
      rw [List.cons_append, List.cons_append]
      unfold like
      by_cases hpercent : b = 37
      · -- the percent sign itself is one character
        have hchar : afterChar^[1] (b :: (p ++ s)) = p ++ s := by
          rw [Function.iterate_one, afterChar, hpercent, if_neg (by decide)]
        rw [if_pos hpercent, List.any_eq_true]
        exact ⟨1, List.mem_range.mpr (by simp), by rw [hchar, ih]⟩
      · rw [if_neg hpercent]
        by_cases hany : b = 95
        · have hchar : afterChar (b :: (p ++ s)) = p ++ s := by
            rw [afterChar, hany, if_neg (by decide)]
          simp only [if_pos hany, hchar, ih]
        · simp [if_neg hany, ih]

/-- An underscore stands for a character of two bytes, too. -/
example : like (ascii "h_st/%") (ascii "h" ++ [0xC3, 0xA9] ++
    ascii "st/x") = true := by
  decide

theorem toUri_append
    {label : Name} (hlabel : label ≠ []) (m : Name) :
    (label ++ m).toUri = label.toUri ++ uriPath m.segments := by
  rw [Name.toUri_of_ne_nil (by simp [hlabel]),
    Name.toUri_of_ne_nil hlabel]
  simp [Name.segments]

/-- The pattern of a label matches the labels below. -/
theorem like_below
    {label m : Name} (hlabel : label ≠ []) (hm : m ≠ []) :
    like (label.toUri ++ ascii "/%") (label ++ m).toUri = true := by
  obtain ⟨c, m, rfl⟩ := List.exists_cons_of_ne_nil hm
  have hslash : like (ascii "/%")
      ([47] ++ (c.toUri ++ uriPath (Name.segments m))) = true :=
    like_append_self [47] (like_percent _)
  rw [toUri_append hlabel]
  exact like_append_self _ hslash

end Patterns

namespace Db

/-- The RRs at a label and a type of a zone, in the order of their ids, if the label
is stored as its URI. -/
def stored (db : Db) (zoneId : Nat) (label : Name) (type : RRType) :
    List (Nat × RRRow) :=
  db.rrs.rows.filter (fun r =>
    db.rrsets.rows.any (fun s =>
      s.1 = r.2.rrsetId &&
        s.2.hasKey zoneId label.toUri type.toString))

/-- The RRs at a label and a type of a zone, however the label is spelled: a text is
read as a name. -/
def storedAs (read : Bytes → Option Name) (db : Db) (zoneId : Nat)
    (label : Name) (type : RRType) : List (Nat × RRRow) :=
  db.rrs.rows.filter (fun r =>
    db.rrsets.rows.any (fun s =>
      s.1 = r.2.rrsetId && s.2.zoneId = zoneId &&
        read s.2.label = some label && s.2.type = type.toString))

/-- At most one rrset for a zone, a label and a type. -/
def OneRrset (db : Db) : Prop :=
  ∀ r ∈ db.rrsets.rows, ∀ s ∈ db.rrsets.rows,
    r.2.zoneId = s.2.zoneId → r.2.label = s.2.label →
      r.2.type = s.2.type → r = s

variable {read : Bytes → Option Name}
variable {db : Db} {zoneId : Nat} {label : Name} {type : RRType}

theorem mem_stored {r : Nat × RRRow} :
    r ∈ db.stored zoneId label type ↔
      r ∈ db.rrs.rows ∧ ∃ s ∈ db.rrsets.rows, s.1 = r.2.rrsetId ∧
        s.2.hasKey zoneId label.toUri type.toString = true := by
  simp [stored]

theorem mem_storedAs {r : Nat × RRRow} :
    r ∈ db.storedAs read zoneId label type ↔
      r ∈ db.rrs.rows ∧ ∃ s ∈ db.rrsets.rows, s.1 = r.2.rrsetId ∧
        s.2.zoneId = zoneId ∧ read s.2.label = some label ∧
          s.2.type = type.toString := by
  simp [storedAs, and_assoc]

/-- The URI of a label is read as the label. -/
theorem mem_storedAs_of_mem_stored
    (hread : ∀ n : Name, read n.toUri = some n) {r : Nat × RRRow}
    (h : r ∈ db.stored zoneId label type) :
    r ∈ db.storedAs read zoneId label type := by
  obtain ⟨hr, s, hs, hid, hkey⟩ := mem_stored.mp h
  simp only [RRSetRow.hasKey, Bool.and_eq_true, decide_eq_true_eq] at hkey
  obtain ⟨⟨hzone, hlabel⟩, htype⟩ := hkey
  exact mem_storedAs.mpr
    ⟨hr, s, hs, hid, hzone, by rw [hlabel, hread], htype⟩

/-- If no other spelling is stored, these are the same RRs. -/
theorem storedAs_eq_stored
    (hread : ∀ n : Name, read n.toUri = some n)
    (h : ∀ r ∈ db.storedAs read zoneId label type,
      r ∈ db.stored zoneId label type) :
    db.storedAs read zoneId label type = db.stored zoneId label type := by
  refine List.filter_congr (fun r hr => ?_)
  rw [Bool.eq_iff_iff]
  constructor
  · intro has
    exact (List.mem_filter.mp (h r (List.mem_filter.mpr ⟨hr, has⟩))).2
  · intro hstored
    exact (List.mem_filter.mp (mem_storedAs_of_mem_stored hread
      (List.mem_filter.mpr ⟨hr, hstored⟩))).2

/-- The rrset that is found is the only one. -/
theorem OneRrset.rrRows_eq
    (hone : db.OneRrset)
    (h : db.rrsetId zoneId label.toUri type.toString ≠ 0) :
    db.rrRows (db.rrsetId zoneId label.toUri type.toString) =
      db.stored zoneId label type := by
  obtain ⟨s, hs, hid, hkey⟩ := exists_rrset h
  refine List.filter_congr (fun r _ => ?_)
  rw [← hid, Bool.eq_iff_iff, decide_eq_true_iff, List.any_eq_true]
  constructor
  · intro hr
    exact ⟨s, hs, by simp [hr, hkey]⟩
  · rintro ⟨s', hs', hboth⟩
    rw [Bool.and_eq_true, decide_eq_true_iff] at hboth
    obtain ⟨hid', hkey'⟩ := hboth
    simp only [RRSetRow.hasKey, Bool.and_eq_true, decide_eq_true_eq]
      at hkey hkey'
    obtain rfl : s' = s := hone s' hs' s hs
      (hkey'.1.1.trans hkey.1.1.symm) (hkey'.1.2.trans hkey.1.2.symm)
      (hkey'.2.trans hkey.2.symm)
    exact hid'.symm

/-- Without an rrset nothing is stored. -/
theorem stored_eq_nil
    (h : db.rrsetId zoneId label.toUri type.toString = 0) :
    db.stored zoneId label type = [] := by
  rw [rrsetId_eq_zero_iff] at h
  rw [List.eq_nil_iff_forall_not_mem]
  intro r hr
  obtain ⟨-, s, hs, -, hkey⟩ := mem_stored.mp hr
  simp [h s hs] at hkey

end Db

namespace QueryMgr

variable (read : Bytes → Option Name)
variable (zone : Zone) (query : Query) (db : Db)

/-- An NS record is stored below the label of the query. -/
def Delegated : Prop :=
  ∃ m : Name, m ≠ [] ∧
    db.storedAs read zone.id (query.rrLabel ++ m) .NS ≠ []

/-- The parts of a row that are on the wire. -/
def wireParts (rr : RR) : Nat × Bytes :=
  (rr.id, rr.rrData)

/-- The response to a query says what is stored. -/
structure Verdict (response : Response) : Prop where
  resp_iff : response.responseType = .NDNS_Resp ↔
    db.storedAs read zone.id query.rrLabel query.rrType ≠ []
  rrs_eq : response.responseType = .NDNS_Resp →
    response.rrs.map wireParts =
      (db.storedAs read zone.id query.rrLabel query.rrType).map
        (fun r => (r.1, r.2.rrdata))
  auth_iff : response.responseType ≠ .NDNS_Resp →
    (response.responseType = .NDNS_Auth ↔
      query.rrType = .NS ∧ Delegated read zone query db)
  nack : response.responseType ≠ .NDNS_Resp →
    response.responseType ≠ .NDNS_Auth →
      response.responseType = .NDNS_Nack

/-- An NS record is stored at a label that the pattern of the query matches. -/
def Matched : Prop :=
  ∃ r ∈ db.rrs.rows, ∃ s ∈ db.rrsets.rows,
    s.1 = r.2.rrsetId ∧ s.2.zoneId = zone.id ∧
      s.2.type = query.rrType.toString ∧
      like (query.rrLabel.toUri ++ ascii "/%") s.2.label = true

/-- The look-ups find what is stored at the label or below, and nothing else. -/
structure Discerns : Prop where
  /-- Without an rrset, no RR has the id zero for its rrset. -/
  exact_lookup :
    (∀ s ∈ db.rrsets.rows, s.2.hasKey zone.id query.rrLabel.toUri
      query.rrType.toString = false) →
        ∀ r ∈ db.rrs.rows, r.2.rrsetId ≠ 0
  /-- What is stored at the label is stored under its URI. -/
  canonical : ∀ r ∈ db.storedAs read zone.id query.rrLabel query.rrType,
    r ∈ db.stored zone.id query.rrLabel query.rrType
  /-- The pattern matches a label with an NS record if one is stored below. -/
  pattern_lookup : query.rrType = .NS →
    db.storedAs read zone.id query.rrLabel .NS = [] →
      (Matched zone query db ↔ Delegated read zone query db)

section Facts

variable {read zone query db}

theorem authCount_pos_iff :
    0 < authCount zone query db ↔ Matched zone query db := by
  rw [authCount, List.countP_pos_iff]
  simp [Matched, and_assoc]

theorem rrRows_eq_nil_iff {n : Nat} :
    db.rrRows n = [] ↔ ∀ r ∈ db.rrs.rows, r.2.rrsetId ≠ n := by
  simp [Db.rrRows, List.filter_eq_nil_iff]

/-- The pattern misses no delegation whose label is stored as its URI. -/
theorem matched_of_stored
    {m : Name} (hm : m ≠ []) (hns : query.rrType = .NS)
    (hlabel : query.rrLabel ≠ [])
    (h : db.stored zone.id (query.rrLabel ++ m) .NS ≠ []) :
    Matched zone query db := by
  obtain ⟨r, hr⟩ := List.exists_mem_of_ne_nil _ h
  obtain ⟨hrow, s, hs, hid, hkey⟩ := Db.mem_stored.mp hr
  simp only [RRSetRow.hasKey, Bool.and_eq_true, decide_eq_true_eq] at hkey
  obtain ⟨⟨hzone, htext⟩, htype⟩ := hkey
  refine ⟨r, hrow, s, hs, hid, hzone, ?_, ?_⟩
  · rw [hns]
    exact htype
  · rw [htext]
    exact like_below hlabel hm

/-- No rrset has the id zero. -/
theorem rrsetId_ne_zero_of_storedAs
    {label : Name} {type : RRType} {r : Nat × RRRow}
    (h : r ∈ db.storedAs read zone.id label type) :
    r.2.rrsetId ≠ 0 := by
  obtain ⟨-, s, hs, hid, -⟩ := Db.mem_storedAs.mp h
  have hpos := db.rrsets.id_pos s hs
  omega

/-- What is found at the URI of the label, if no RR is without an rrset. -/
theorem found_eq_stored
    (hone : db.OneRrset)
    (hzero : (∀ s ∈ db.rrsets.rows, s.2.hasKey zone.id query.rrLabel.toUri
      query.rrType.toString = false) →
        ∀ r ∈ db.rrs.rows, r.2.rrsetId ≠ 0) :
    found zone query db =
      (db.stored zone.id query.rrLabel query.rrType).map
        (readRr (asked zone query db)) := by
  rw [found]
  congr 1
  by_cases hid : db.rrsetId zone.id query.rrLabel.toUri
      query.rrType.toString = 0
  · rw [Db.stored_eq_nil hid, asked, hid]
    exact rrRows_eq_nil_iff.mpr (hzero (Db.rrsetId_eq_zero_iff.mp hid))
  · exact hone.rrRows_eq hid

theorem Discerns.found_eq
    (h : Discerns read zone query db)
    (hread : ∀ n : Name, read n.toUri = some n) (hone : db.OneRrset) :
    found zone query db =
      (db.storedAs read zone.id query.rrLabel query.rrType).map
        (readRr (asked zone query db)) := by
  rw [found_eq_stored hone h.exact_lookup,
    Db.storedAs_eq_stored hread h.canonical]

/-- RRs with the ids and data of rows are at the label of these. -/
theorem mem_of_wireParts
    {rows rows' : List (Nat × RRRow)} {rrset : RRSet}
    (hrows : ∀ r ∈ rows, r ∈ db.rrs.rows)
    (hrows' : ∀ r ∈ rows', r ∈ db.rrs.rows)
    (h : (rows.map (readRr rrset)).map wireParts =
      rows'.map (fun r => (r.1, r.2.rrdata)))
    {r : Nat × RRRow} (hr : r ∈ rows') :
    r ∈ rows := by
  have hparts : (r.1, r.2.rrdata) ∈ (rows.map (readRr rrset)).map wireParts :=
    h ▸ List.mem_map_of_mem hr
  rw [List.map_map] at hparts
  obtain ⟨r', hr', hsame⟩ := List.mem_map.mp hparts
  obtain rfl : r' = r := Table.eq_of_id (hrows r' hr') (hrows' r hr)
    (Prod.mk.inj hsame).1
  exact hr'

end Facts

end QueryMgr

open DyndnsMgr DynamicDNSUpdate

namespace NameServer

variable {P : NameParser} {S : Sqlite} {K : PacketCodec} {disk : Disk}
variable {server : NameServer} {version : Version} {interest : Interest}
variable {understood : Bool} {query : Query}

/-- The RRs that are found have ids that fit. -/
theorem id_lt_of_found
    {db : Db} {rr : RR} (h : rr ∈ QueryMgr.found server.zone query db) :
    rr.id < 2 ^ 32 := by
  obtain ⟨r, hr, rfl⟩ := List.mem_map.mp h
  have hlt : r.1 < rowidLimit :=
    db.rrs.id_lt r (List.mem_of_mem_filter hr)
  exact lt_trans hlt (by decide)

/-- What is read from the block of an answer. -/
theorem wireDecode_answered
    (P : NameParser) {response : Response} {db : Db} (type : ResponseType)
    (hlo : -2 ^ 63 ≤ response.freshness) (hhi : response.freshness < 2 ^ 63)
    (hfits : (answered server query response db
      type).toBlock.value.length < 2 ^ 64) :
    ∃ re, Response.init.wireDecode P
        (answered server query response db type).toBlock = some re ∧
      re.responseType = type ∧
      re.rrs.map QueryMgr.wireParts =
        (QueryMgr.found server.zone query db).map QueryMgr.wireParts := by
  refine ⟨_, Response.wireDecode_toBlock P _ Response.init
    (fun rr hrr => id_lt_of_found hrr) hlo hhi hfits, rfl, ?_⟩
  simp only [Response.init, List.nil_append, List.map_map]
  rfl

/-- The packet that is put for a query. -/
theorem onQuery_eq
    (hread : Query.init.fromInterest P interest = some (understood, query))
    (hsql : (S.execute (queryPlan server query disk.db) disk).isSome)
    (hfits : (answered server query (server.queryReply version interest)
      disk.db (replyType server query disk.db)).toBlock.value.length <
        2 ^ 64) :
    (onQuery P S server version interest disk).1 =
      .returned [(answered server query
        (server.queryReply version interest) disk.db
          (replyType server query disk.db)).packet] := by
  have hsends : Sends S (fun S => answer P S server query
      (server.queryReply version interest))
      (queryPlan server query disk.db) disk _ :=
    sends_answer_replyType server query (server.queryReply version interest)
  obtain ⟨d, hrun⟩ := Option.isSome_iff_exists.mp hsql
  unfold Sends at hsends
  rw [hrun] at hsends
  obtain ⟨_, rfl, hok⟩ := hsends
  have hanswer : (answer P S server query
      (server.queryReply version interest)).run disk = _ := hok S.foreign
  simp only [onQuery, hread, hanswer]
  rw [Response.toData_eq rfl hfits]
  rfl

section ReplyType

variable (server query) (db : Db)

theorem replyType_resp_iff :
    replyType server query db = .NDNS_Resp ↔
      QueryMgr.found server.zone query db ≠ [] := by
  unfold replyType
  split_ifs with hfound hauth
  · exact iff_of_true rfl hfound
  · exact iff_of_false (by simp) hfound
  · exact iff_of_false (by simp) hfound

theorem replyType_auth_iff :
    replyType server query db = .NDNS_Auth ↔
      QueryMgr.found server.zone query db = [] ∧ query.rrType = .NS ∧
        QueryMgr.Matched server.zone query db := by
  rw [← QueryMgr.authCount_pos_iff]
  unfold replyType
  split_ifs with hfound hauth
  · exact iff_of_false (by simp) (fun h => hfound h.1)
  · exact iff_of_true rfl ⟨not_not.mp hfound, hauth⟩
  · exact iff_of_false (by simp) (fun h => hauth h.2)

theorem replyType_eq_nack
    (hresp : replyType server query db ≠ .NDNS_Resp)
    (hauth : replyType server query db ≠ .NDNS_Auth) :
    replyType server query db = .NDNS_Nack := by
  unfold replyType at *
  split_ifs at * <;> simp_all

end ReplyType

section Verdicts

variable {read : Bytes → Option Name} {db : Db} {re : Response}

/-- A server that is right finds nothing where there is no rrset. -/
theorem exact_of_verdict
    (hresp_iff : re.responseType = .NDNS_Resp ↔
      QueryMgr.found server.zone query db ≠ [])
    (hrrs : re.rrs.map QueryMgr.wireParts =
      (QueryMgr.found server.zone query db).map QueryMgr.wireParts)
    (h : QueryMgr.Verdict read server.zone query db re)
    (hnokey : ∀ s ∈ db.rrsets.rows, s.2.hasKey server.zone.id
      query.rrLabel.toUri query.rrType.toString = false) :
    ∀ r ∈ db.rrs.rows, r.2.rrsetId ≠ 0 := by
  have hzero := Db.rrsetId_eq_zero_iff.mpr hnokey
  rw [← QueryMgr.rrRows_eq_nil_iff]
  by_contra hstray
  have hfound : QueryMgr.found server.zone query db ≠ [] := by
    rw [QueryMgr.found, QueryMgr.asked, hzero]
    simpa using hstray
  have hresp := hresp_iff.mpr hfound
  obtain ⟨r, hr⟩ := List.exists_mem_of_ne_nil _ (h.resp_iff.mp hresp)
  have hmem := QueryMgr.mem_of_wireParts
    (fun _ h => List.mem_of_mem_filter h)
    (fun _ h => List.mem_of_mem_filter h)
    (hrrs.symm.trans (h.rrs_eq hresp)) hr
  have hid := (List.mem_filter.mp hmem).2
  rw [QueryMgr.asked, hzero, decide_eq_true_iff] at hid
  exact QueryMgr.rrsetId_ne_zero_of_storedAs hr hid

theorem discerns_of_verdict
    (hone : db.OneRrset) (htype : re.responseType = replyType server query db)
    (hrrs : re.rrs.map QueryMgr.wireParts =
      (QueryMgr.found server.zone query db).map QueryMgr.wireParts)
    (h : QueryMgr.Verdict read server.zone query db re) :
    QueryMgr.Discerns read server.zone query db := by
  have hresp_iff := replyType_resp_iff server query db
  have hauth_iff := replyType_auth_iff server query db
  rw [← htype] at hresp_iff hauth_iff
  have hexact := exact_of_verdict hresp_iff hrrs h
  refine ⟨hexact, fun r hr => ?_, fun hns hnone => ?_⟩
  · have hresp := h.resp_iff.mpr (List.ne_nil_of_mem hr)
    rw [QueryMgr.found_eq_stored hone hexact] at hrrs
    exact QueryMgr.mem_of_wireParts
      (fun _ h => List.mem_of_mem_filter h)
      (fun _ h => List.mem_of_mem_filter h)
      (hrrs.symm.trans (h.rrs_eq hresp)) hr
  · have hresp : re.responseType ≠ .NDNS_Resp := by
      rw [ne_eq, h.resp_iff, hns, hnone]
      simp
    have hfound := not_not.mp (mt hresp_iff.mpr hresp)
    have hauth := h.auth_iff hresp
    rw [hauth_iff] at hauth
    simpa [hfound, hns] using hauth

theorem verdict_of_discerns
    (hread : ∀ n : Name, read n.toUri = some n) (hone : db.OneRrset)
    (htype : re.responseType = replyType server query db)
    (hrrs : re.rrs.map QueryMgr.wireParts =
      (QueryMgr.found server.zone query db).map QueryMgr.wireParts)
    (h : QueryMgr.Discerns read server.zone query db) :
    QueryMgr.Verdict read server.zone query db re := by
  have hresp_iff := replyType_resp_iff server query db
  have hauth_iff := replyType_auth_iff server query db
  rw [← htype] at hresp_iff hauth_iff
  have hfound := h.found_eq hread hone
  constructor
  · rw [hresp_iff, hfound, ne_eq, List.map_eq_nil_iff]
  · intro _
    exact hrrs.trans (by rw [hfound, List.map_map]; rfl)
  · intro hresp
    have hnone := not_not.mp (mt hresp_iff.mpr hresp)
    have hstored : db.storedAs read server.zone.id query.rrLabel
        query.rrType = [] := by
      rw [hfound] at hnone
      exact List.map_eq_nil_iff.mp hnone
    rw [hauth_iff]
    constructor
    · rintro ⟨-, hns, hmatched⟩
      exact ⟨hns, (h.pattern_lookup hns (hns ▸ hstored)).mp hmatched⟩
    · rintro ⟨hns, hdelegated⟩
      exact ⟨hnone, hns,
        (h.pattern_lookup hns (hns ▸ hstored)).mpr hdelegated⟩
  · intro hresp hauth
    rw [htype] at hresp hauth ⊢
    exact replyType_eq_nack server query db hresp hauth

/-- When the verdict is right. -/
theorem verdict_iff
    (hread : ∀ n : Name, read n.toUri = some n) (hone : db.OneRrset)
    (htype : re.responseType = replyType server query db)
    (hrrs : re.rrs.map QueryMgr.wireParts =
      (QueryMgr.found server.zone query db).map QueryMgr.wireParts) :
    QueryMgr.Verdict read server.zone query db re ↔
      QueryMgr.Discerns read server.zone query db :=
  ⟨discerns_of_verdict hone htype hrrs,
    verdict_of_discerns hread hone htype hrrs⟩

end Verdicts

/-- What a resolver reads from the reply to a query. -/
theorem exists_reply
    (hupdate : (matchUpdateName interest.name.toUri).isSome = false)
    (hquery : (matchQueryName interest.name.toUri).isSome)
    (hread : Query.init.fromInterest P interest = some (understood, query))
    (hsql : (S.execute (queryPlan server query disk.db) disk).isSome)
    (hfits : (answered server query (server.queryReply version interest)
      disk.db (replyType server query disk.db)).toBlock.value.length <
        2 ^ 64) :
    ∃ data re,
      (onInterest P S K server version interest disk).1 =
        .returned [data] ∧
      Response.init.wireDecode P data.content = some re ∧
      re.responseType = replyType server query disk.db ∧
      re.rrs.map QueryMgr.wireParts =
        (QueryMgr.found server.zone query disk.db).map
          QueryMgr.wireParts := by
  obtain ⟨re, hdecode, htype, hrrs⟩ := wireDecode_answered P
    (replyType server query disk.db) server.contentFreshness_lo
    server.contentFreshness_hi hfits
  have hputs := onQuery_eq hread hsql hfits
  rw [onInterest, if_neg (by simp [hupdate]), if_pos hquery]
  exact ⟨_, re, hputs, hdecode, htype, hrrs⟩

section Delegations

/-- The zone `/net` with a name server at one label. -/
def delegationDb (label : Bytes) : Db where
  zones := DyndnsMgr.twoZones.zones
  rrsets := ⟨[(1, ⟨2, label, some [], ascii "NS"⟩)],
    List.pairwise_singleton _ _, List.forall_mem_singleton.mpr Nat.one_pos,
    List.forall_mem_singleton.mpr (show 1 < rowidLimit by decide)⟩
  rrs := ⟨[(1, ⟨1, 3600, ascii "/isp"⟩)],
    by decide, by decide, by decide⟩
  zones_unique := DyndnsMgr.twoZones.zones_unique
  rrsets_unique r hr s hs _ _ :=
    (List.mem_singleton.mp hr).trans (List.mem_singleton.mp hs).symm
  rrs_text := by decide

def delegationDisk (label : Bytes) : Disk where
  db := delegationDb label
  executed := 0
  lastInsertRowid := 0

/-- A query for the name server of the label `/host` of `/net`. -/
def hostQuery : Query where
  authorityZone := [ascii "net"]
  forwardingHint := []
  queryType := .DNS
  interestLifetime := 4000
  rrLabel := [ascii "host"]
  rrType := .NS

theorem fromInterest_hostQuery :
    Query.init.fromInterest uriParser hostQuery.toInterest =
      some (true, hostQuery) :=
  Query.roundTrips_of_plainCut uriParser hostQuery rfl rfl
    (by decide) (by decide) (by decide)

theorem branch_hostQuery :
    (matchUpdateName hostQuery.toInterest.name.toUri).isSome = false ∧
      (matchQueryName hostQuery.toInterest.name.toUri).isSome = true := by
  decide +kernel

end Delegations

end NameServer

end Ndns

import Ndns.ServedStores

/-!
# Name servers on the network

A name server runs at a routed prefix and sets a filter for the queries below it; a
second filter has a forwarding hint in front.  An exception that leaves
`NameServer::onInterest` ends the process.

**Results.**
* `routed_of_receives`: a plain question reaches the servers of its zone only;
* `Serves.onInterest`: a server of a store stays one, and what it puts is what the
  store answers;
* `exists_reply`, `up_onInterest`: it answers and goes on, if its statements do not
  fail.
-/

namespace Ndns

structure Site where
  server : NameServer
  /-- `m_prefix` -/
  routed : Name
  /-- `m_forwardingHint`, if it is enabled -/
  forwardingHint : Option Name
  disk : Disk
  /-- The process runs. -/
  up : Bool

namespace Site

/-- The prefixes that `NameServer::run` sets filters for. -/
def filters (site : Site) : List Name :=
  let name := site.routed ++ [QueryType.DNS.toString]
  name :: (site.forwardingHint.map (fun hint =>
    hint ++ [ForwardingHintLabel] ++ name)).toList

/-- The Interest is handed to the server. -/
def receives (site : Site) (interest : Interest) : Bool :=
  site.up && site.filters.any (fun f => f.isPrefixOf interest.name)

/-- What is put for an Interest, and the server behind it. -/
def onInterest (P : NameParser) (S : Sqlite) (K : PacketCodec)
    (version : Version) (interest : Interest) (site : Site) :
    List Data × Site :=
  match site.server.onInterest P S K version interest site.disk with
  | (.returned puts, disk) => (puts, { site with disk := disk })
  | (_, disk) => ([], { site with disk := disk, up := false })

/-- The server of a zone of the world. -/
structure Serves (W : World) (site : Site) : Prop where
  routed : site.routed.Plain
  forwardingHint : ∀ hint, site.forwardingHint = some hint → hint.Plain
  consistent : site.disk.db.Consistent
  delegations : PlainDelegations site.disk.db site.server.zone.id
  holds : ∃ s, W site.routed = some s ∧
    Holds site.disk.db site.server.zone.id s

/-- The response to a question is no longer than a block may be. -/
def ReplyFits (version : Version) (query : Query) (site : Site) : Prop :=
  (site.server.answered query
    (site.server.queryReply version query.toInterest) site.disk.db
      (site.server.replyType query site.disk.db)).toBlock.value.length <
    2 ^ 64

instance (version : Version) (query : Query) (site : Site) :
    Decidable (site.ReplyFits version query) :=
  inferInstanceAs (Decidable (_ < 2 ^ 64))

section Routing

variable {site : Site} {query : Query}

/-- A question reaches the servers of its zone only, by either filter. -/
theorem routed_of_receives
    (hsite : site.routed.Plain)
    (hhints : ∀ hint, site.forwardingHint = some hint → hint.Plain)
    (hplain : query.Plain)
    (h : site.receives query.toInterest = true) :
    site.routed = query.authorityZone := by
  have hdns := not_plainText_queryType (t := .DNS) rfl
  have hword := not_plainText_queryType hplain.queryType
  simp only [receives, filters, Bool.and_eq_true, List.any_cons,
    Bool.or_eq_true, List.isPrefixOf_iff_prefix] at h
  obtain ⟨-, h⟩ := h
  rw [query.toInterest_name, Query.front, Query.hintComponents] at h
  by_cases hquery : query.forwardingHint = []
  · rw [if_pos hquery, List.nil_append] at h
    rcases h with h | h
    · exact (isPrefix_at_cut hsite hplain.zone hdns hword h).1
    · simp only [List.any_eq_true, Option.mem_toList, Option.map_eq_some_iff,
        List.isPrefixOf_iff_prefix] at h
      obtain ⟨_, ⟨hint, hhint, rfl⟩, hpre⟩ := h
      rw [List.append_assoc] at hpre
      exact absurd (isPrefix_at_cut (hhints hint hhint) hplain.zone
        not_plainText_marker hword hpre).2.1.symm
          (toString_ne_marker hplain.queryType)
  · rw [if_neg hquery] at h
    simp only [List.append_assoc, List.singleton_append] at h
    rcases h with h | h
    · exact absurd (isPrefix_at_cut hsite hplain.hint hdns
        not_plainText_marker h).2.1 (toString_ne_marker rfl)
    · simp only [List.any_eq_true, Option.mem_toList, Option.map_eq_some_iff,
        List.isPrefixOf_iff_prefix] at h
      obtain ⟨_, ⟨hint, hhint, rfl⟩, hpre⟩ := h
      obtain ⟨-, -, hrest⟩ := isPrefix_at_cut (hhints hint hhint)
        hplain.hint not_plainText_marker not_plainText_marker hpre
      exact (isPrefix_at_cut hsite hplain.zone hdns hword hrest).1

theorem receives_of_routed
    (hup : site.up = true) (hqueryType : query.queryType = .DNS)
    (hhint : query.forwardingHint = [])
    (h : site.routed = query.authorityZone) :
    site.receives query.toInterest = true := by
  simp only [receives, filters, Bool.and_eq_true, List.any_cons,
    Bool.or_eq_true, List.isPrefixOf_iff_prefix]
  refine ⟨hup, Or.inl ?_⟩
  rw [query.toInterest_name, Query.front, Query.hintComponents,
    if_pos hhint, List.nil_append, h, hqueryType]
  exact ⟨query.rrLabel ++ [query.rrType.toString], by simp⟩

/-- What is read from a plain name decides how long the response is. -/
theorem ReplyFits.of_name_eq
    {version : Version} {query' : Query} (h : site.ReplyFits version query)
    (hplain : query.Plain) (hplain' : query'.Plain)
    (hname : query'.toInterest.name = query.toInterest.name) :
    site.ReplyFits version query' := by
  have hpre : query.toInterest.name <+: query'.toInterest.name ++ [] := by
    rw [List.append_nil, hname]
  obtain ⟨-, -, hlabel, htype⟩ := hplain.eq_of_isPrefix hplain' hpre
  have hfound : QueryMgr.found site.server.zone query' site.disk.db =
      QueryMgr.found site.server.zone query site.disk.db := by
    simp only [QueryMgr.found, QueryMgr.asked, hlabel, htype]
  have hreply : site.server.queryReply version query'.toInterest =
      site.server.queryReply version query.toInterest := by
    simp only [NameServer.queryReply, hname]
  have hcount : QueryMgr.authCount site.server.zone query' site.disk.db =
      QueryMgr.authCount site.server.zone query site.disk.db := by
    simp only [QueryMgr.authCount, hlabel, htype]
  have htypes : site.server.replyType query' site.disk.db =
      site.server.replyType query site.disk.db := by
    unfold NameServer.replyType
    rw [hfound, hcount, htype]
  rw [ReplyFits, NameServer.answered, hfound, hreply, htypes]
  exact h

end Routing

section Answers

variable {P : NameParser} {S : Sqlite} {K : PacketCodec} {W : World}
variable {version : Version} {query : Query} {site : Site}

@[simp] theorem routed_onInterest (interest : Interest) :
    (site.onInterest P S K version interest).2.routed = site.routed := by
  unfold onInterest
  split <;> rfl

@[simp] theorem forwardingHint_onInterest (interest : Interest) :
    (site.onInterest P S K version interest).2.forwardingHint =
      site.forwardingHint := by
  unfold onInterest
  split <;> rfl

/-- Only the disk changes, unless the process ends. -/
theorem server_onInterest (interest : Interest) :
    (site.onInterest P S K version interest).2.server = site.server ∧
      (site.onInterest P S K version interest).2.disk =
        (site.server.onInterest P S K version interest site.disk).2 := by
  unfold onInterest
  split <;> simp_all

/-- A question changes no table. -/
theorem Serves.db_onInterest
    (h : site.Serves W) (hplain : query.Plain)
    (hfits : site.ReplyFits version query) :
    (site.onInterest P S K version query.toInterest).2.disk.db =
      site.disk.db := by
  obtain ⟨s, hs, hholds⟩ := h.holds
  rw [(server_onInterest query.toInterest).2]
  exact (NameServer.onInterest_answeredBy h.consistent h.delegations hholds
    hplain hfits).1

/-- A server of a store stays one, and puts what the store answers. -/
theorem Serves.onInterest
    (h : site.Serves W) (hplain : query.Plain)
    (hreceives : site.receives query.toInterest = true)
    (hfits : site.ReplyFits version query) :
    (∀ d ∈ (site.onInterest P S K version query.toInterest).1,
      ∃ s, W query.authorityZone = some s ∧ s.AnsweredBy P query d) ∧
      (site.onInterest P S K version query.toInterest).2.Serves W := by
  obtain ⟨s, hs, hholds⟩ := h.holds
  have hputs := (NameServer.onInterest_answeredBy (P := P) (S := S)
    (K := K) h.consistent h.delegations hholds hplain hfits).2
  have hdb := h.db_onInterest (P := P) (S := S) (K := K) hplain hfits
  have hserver : (site.onInterest P S K version
      query.toInterest).2.server = site.server :=
    (server_onInterest query.toInterest).1
  have hzone := routed_of_receives h.routed h.forwardingHint hplain hreceives
  constructor
  · intro d hd
    refine ⟨s, hzone ▸ hs, ?_⟩
    unfold Site.onInterest at hd
    split at hd
    · next puts disk hrun => exact hputs puts (by rw [hrun]) d hd
    · cases hd
  · refine ⟨by simpa using h.routed, by simpa using h.forwardingHint, ?_, ?_,
      s, ?_, ?_⟩
    · rw [hdb]
      exact h.consistent
    · rw [hdb, hserver]
      exact h.delegations
    · rw [routed_onInterest]
      exact hs
    · rw [hdb, hserver]
      exact hholds

/-- A server whose statements do not fail answers. -/
theorem exists_reply
    (hfails : ∀ n, S.fails n = false) (hplain : query.Plain)
    (hne : query.rrLabel ≠ []) (hfits : site.ReplyFits version query) :
    ∃ d, (site.onInterest P S K version query.toInterest).1 = [d] := by
  obtain ⟨data, hputs⟩ := NameServer.onInterest_puts (P := P) (S := S)
    (K := K) hfails hplain hne hfits
  unfold Site.onInterest
  split
  · next puts disk hrun =>
      rw [hrun] at hputs
      exact ⟨data, Outcome.returned.inj hputs⟩
  · next disk hnot hrun =>
      rw [hrun] at hputs
      exact absurd hputs (hnot _)

/-- Nor does it end. -/
theorem up_onInterest
    (hfails : ∀ n, S.fails n = false) (hplain : query.Plain)
    (hfits : site.ReplyFits version query) :
    (site.onInterest P S K version query.toInterest).2.up = site.up := by
  have hreturned : ∃ puts, (site.server.onInterest P S K version
      query.toInterest site.disk).1 = .returned puts := by
    by_cases hne : query.rrLabel = []
    · exact ⟨[], by rw [NameServer.onInterest_of_rrLabel_nil hplain hne]⟩
    · obtain ⟨data, hputs⟩ := NameServer.onInterest_puts (P := P) (S := S)
        (K := K) hfails hplain hne hfits
      exact ⟨[data], hputs⟩
  obtain ⟨puts, hputs⟩ := hreturned
  unfold Site.onInterest
  split
  · rfl
  · next disk hnot hrun =>
      rw [hrun] at hputs
      exact absurd hputs (hnot _)

end Answers

end Site

end Ndns

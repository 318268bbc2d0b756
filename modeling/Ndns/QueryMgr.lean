import Ndns.DbMgr
import Ndns.Query
import Ndns.Response

/-!
# Queries to the database

`query-mgr.cpp`: an rrset is looked up by zone, label and type, and its rows are
read in the order of their ids.
-/

namespace Ndns

namespace QueryMgr

variable (P : NameParser) (S : Sqlite)

/-- `QueryMgr::callback_getRr` -/
def callbackGetRr (rrset : RRSet) (row : Row) : RR :=
  { RR.ofRRSet rrset with
    id := atoi (row.getD 0 [])
    ttl := atoi (row.getD 1 [])
    rrData := Sql.cString (row.getD 2 []) }

/-- `QueryMgr::lookup`: the response with the RRs that were found. -/
def lookup (zone : Zone) (query : Query) (response : Response) :
    DbM Response := do
  let label ← nameOfUri P query.rrLabel.toUri
  let rrset ← RRSetMgr.lookupIds S
    { RRSet.ofZone zone with
      label := label
      type := query.rrType }
  let rows ← executeOnly S (.selectRrs rrset.id)
  return response.setRrs (rows.map (callbackGetRr rrset))

/-- `QueryMgr::hasAuth` -/
def hasAuth (zone : Zone) (query : Query) : DbM Int := do
  let rows ← executeOnly S
    (.countAuth zone.id query.rrType query.rrLabel)
  return tempInt rows

section Effects

variable (zone : Zone) (query : Query)

/-- The rrset that a query asks for. -/
def asked (db : Db) : RRSet where
  id := db.rrsetId zone.id query.rrLabel.toUri query.rrType.toString
  zone := zone
  label := query.rrLabel
  clazz := []
  type := query.rrType
  ndndata := []

/-- The RR that is read from a row. -/
def readRr (rrset : RRSet) (r : Nat × RRRow) : RR :=
  { RR.ofRRSet rrset with
    id := r.1
    ttl := atoi (decimal r.2.ttl)
    rrData := r.2.rrdata }

theorem callbackGetRr_row
    (rrset : RRSet) {db : Db} {r : Nat × RRRow} (hr : r ∈ db.rrs.rows) :
    callbackGetRr rrset [decimal r.1, decimal r.2.ttl, r.2.rrdata] =
      readRr rrset r := by
  have hid : r.1 < 2 ^ 32 := lt_trans (db.rrs.id_lt r hr) (by decide)
  simp [callbackGetRr, readRr, atoi_decimal hid,
    Sql.cString_eq_self (db.rrs_text r hr)]

/-- What a query finds. -/
def found (db : Db) : List RR :=
  (db.rrRows (asked zone query db).id).map (readRr (asked zone query db))

theorem map_callbackGetRr (rrset : RRSet) (db : Db) (n : Nat) :
    ((db.rrRows n).map (fun r => [decimal r.1, decimal r.2.ttl,
      r.2.rrdata])).map (callbackGetRr rrset) =
        (db.rrRows n).map (readRr rrset) := by
  rw [List.map_map]
  exact List.map_congr_left
    (fun r hr => callbackGetRr_row rrset (List.mem_of_mem_filter hr))

/-- A query reads the rows of the rrset that it asks for. -/
theorem lookup_triple (response : Response) (disk : Disk) :
    Effect.Triple (· = disk) (lookup P S zone query response)
      (fun x d => d = disk.next.next ∧
        (S.fails disk.executed = false ∧
          S.fails disk.next.executed = false) ∧
        x = response.setRrs (found zone query disk.db))
      (fun d => d.db = disk.db ∧
        (S.fails disk.executed = true ∨
          S.fails disk.next.executed = true)) := by
  unfold lookup
  rw [nameOfUri_toUri, pure_bind]
  refine Effect.Triple.bind
    ((RRSetMgr.lookupIds_triple S _ disk).conseq (fun _ h => h)
      (fun _ _ h => h) ?_) (fun rrset => ?_)
  · rintro d ⟨rfl, hfails⟩
    exact ⟨rfl, Or.inl hfails⟩
  refine Effect.triple_of_forall ?_
  rintro d ⟨rfl, rfl, hfirst⟩
  refine Effect.Triple.bind
    ((executeOnly_triple S (by trivial) disk.next).conseq (fun _ h => h)
      (fun _ _ h => h) ?_) (fun rows => Effect.triple_pure ?_)
  · rintro d ⟨rfl, hfails | hclean | hnone⟩
    · exact ⟨rfl, Or.inr hfails⟩
    · exact absurd trivial hclean
    · simp [Stmt.run] at hnone
  · rintro d ⟨hsecond, r, hr, rfl, rfl⟩
    simp only [Stmt.run, Option.some.injEq] at hr
    subst hr
    exact ⟨rfl, ⟨hfirst, hsecond⟩,
      congrArg response.setRrs (map_callbackGetRr _ _ _)⟩

end Effects

end QueryMgr

end Ndns

import Ndns.DyndnsMgr
import Ndns.StatementRuns

/-!
# The statements of an update

Which statements an update sends follows from the database in front of it; so
does whether it takes effect, that is, whether a query behind it would be
answered as the update says.

**Results.**
* `sends_updateRr`: an update with a supported action sends its plan;
* `inEffect_iff`: when it takes effect;
* `applied_cons_iff`: when the RRs behind it, which are not looked at, are applied
  with it.
-/

namespace Ndns

namespace DyndnsMgr

section Plan

variable (db : Db) (zone : Zone) (rr : RR)

/-- The statements of the look-ups. -/
def lookups : List Stmt :=
  .selectRrsetId zone.id rr.rrset.label rr.rrset.type ::
    if zone.id = 0 ∨ addressed db zone rr = 0 then []
    else [.selectRrId (addressed db zone rr) rr.rrData]

/-- A new rrset and its first row. -/
def insertBoth : List Stmt :=
  [.insertRrset zone.id rr.rrset.label rr.rrset.clazz rr.rrset.type,
    .insertRr (db.rrsets.lastId + 1) rr.ttl rr.rrData]

/-- The statements behind the look-ups. -/
def actions : List Stmt :=
  match rr.updateAction with
  | .ADD =>
      if (lookedUp db zone rr).id ≠ 0 then []
      else if addressed db zone rr = 0 then insertBoth db zone rr
      else [.insertRr (addressed db zone rr) rr.ttl rr.rrData]
  | .REMOVE =>
      if (lookedUp db zone rr).id > 0 then
        [.deleteRr (lookedUp db zone rr).id]
      else []
  | .REPLACE_ALL =>
      if addressed db zone rr > 0 then
        [.deleteRrs (addressed db zone rr),
          .insertRr (addressed db zone rr) rr.ttl rr.rrData]
      else insertBoth db zone rr
  | _ => []

def plan : List Stmt :=
  lookups db zone rr ++ actions db zone rr

/-- The actions that `DyndnsMgr::update` does not throw at. -/
def Supported : Prop :=
  rr.updateAction ∈ [UpdateAction.NONE, .ADD, .REMOVE, .REPLACE_ALL]

end Plan

section Sent

variable {S : Sqlite} {zone : Zone} {rr : RR} {disk d : Disk}

theorem sends_insertBoth (hd : d.db = disk.db) :
    Sends S
      (fun S => do
        let rrset ← RRSetMgr.insert S (lookedUp disk.db zone rr).rrset
        RRMgr.insert S ((lookedUp disk.db zone rr).setRrset rrset))
      (insertBoth disk.db zone rr) d (fun _ _ => True) := by
  rw [← hd]
  refine Sends.bind (RRSetMgr.sends_insert _) ?_
  rintro rrset d' rfl
  exact RRMgr.sends_insert _

theorem sends_act (hsupported : Supported rr) (hd : d.db = disk.db) :
    Sends S
      (fun S => act S (lookedUp disk.db zone rr).rrset
        (lookedUp disk.db zone rr))
      (actions disk.db zone rr) d (fun _ _ => True) := by
  have haction : (lookedUp disk.db zone rr).updateAction =
      rr.updateAction := rfl
  have hset : (lookedUp disk.db zone rr).rrset.id =
      addressed disk.db zone rr := rfl
  unfold act actions
  rw [haction, hset]
  cases hact : rr.updateAction with
  | NONE =>
      exact sends_pure trivial
  | ADD =>
      simp only
      split_ifs with hid hzero
      · exact sends_pure trivial
      · exact sends_insertBoth hd
      · exact RRMgr.sends_insert _
  | REMOVE =>
      simp only
      split_ifs with hid
      · exact Sends.bind_nil (RRMgr.sends_remove _)
          (fun _ _ _ => sends_pure trivial)
      · exact sends_pure trivial
  | REPLACE_ALL =>
      simp only
      split_ifs with hpos
      · exact Sends.bind (RRSetMgr.sends_removeRelatedRRs _)
          (fun _ _ _ => RRMgr.sends_insert _)
      · exact sends_insertBoth hd
  | REPLACE =>
      simp [Supported, hact] at hsupported
  | UNKNOWN =>
      simp [Supported, hact] at hsupported

/-- The look-ups do not depend on the action. -/
theorem sends_lookups
    {β : Type} {f : RRSet → RR → Sqlite → DbM β} {stmts : List Stmt}
    {R : β → Disk → Prop}
    (hf : ∀ d, d.db = disk.db →
      Sends S (f (lookedUp disk.db zone rr).rrset (lookedUp disk.db zone rr))
        stmts d R) :
    Sends S
      (fun S => do
        let rrset ← RRSetMgr.lookupIds S (rr.setZone zone).rrset
        let rr ← RRMgr.lookupIds S ((rr.setZone zone).setRrset rrset)
        f rrset rr S)
      (lookups disk.db zone rr ++ stmts) disk R := by
  have hfirst : Sends S _ _ disk _ :=
    RRSetMgr.sends_lookupIds (rr.setZone zone).rrset
  rw [lookups, List.cons_append, ← List.singleton_append]
  refine hfirst.bind ?_
  rintro _ d₁ ⟨rfl, hd₁⟩
  refine Sends.bind (RRMgr.sends_lookupIds _) ?_
  rintro _ d₂ ⟨rfl, hd₂⟩
  rw [hd₁]
  exact hf d₂ (hd₂.trans hd₁)

theorem sends_updateRr (hsupported : Supported rr) :
    Sends S (fun S => updateRr S zone rr) (plan disk.db zone rr) disk
      (fun _ _ => True) :=
  sends_lookups (f := fun rrset rr S => act S rrset rr)
    (fun _ hd => sends_act hsupported hd)

/-- At another action the update throws, if not before. -/
theorem updateRr_unsupported (hsupported : ¬ Supported rr) :
    ∃ e d, (updateRr S.strict zone rr).run disk = .error e d := by
  have hthrow : ∀ rrset d, ∃ e,
      (act S.strict rrset (lookedUp disk.db zone rr)).run d =
        .error e d := by
    intro rrset d
    have haction : (lookedUp disk.db zone rr).updateAction =
        rr.updateAction := rfl
    unfold act
    rw [haction]
    cases hact : rr.updateAction with
    | REPLACE =>
        exact ⟨_, rfl⟩
    | UNKNOWN =>
        exact ⟨_, rfl⟩
    | _ =>
        simp [Supported, hact] at hsupported
  have hlookups : Sends S _ (lookups disk.db zone rr ++ []) disk _ :=
    sends_lookups (f := fun rrset rr _ => pure (rrset, rr))
      (R := fun x _ => x.2 = lookedUp disk.db zone rr)
      (fun _ _ => sends_pure rfl)
  have hsplit : (updateRr S.strict zone rr).run disk =
      ((do
        let rrset ← RRSetMgr.lookupIds S.strict (rr.setZone zone).rrset
        let rr ← RRMgr.lookupIds S.strict ((rr.setZone zone).setRrset rrset)
        pure (rrset, rr)) >>= fun x => act S.strict x.1 x.2).run disk := by
    simp only [updateRr, bind_assoc, pure_bind]
  rw [hsplit, EStateM.run_bind]
  unfold Sends at hlookups
  cases hrun : S.execute (lookups disk.db zone rr ++ []) disk with
  | none =>
      rw [hrun] at hlookups
      obtain ⟨e, d, hfail⟩ := hlookups
      exact ⟨e, d, by rw [hfail]⟩
  | some d =>
      rw [hrun] at hlookups
      obtain ⟨⟨rrset, rr'⟩, rfl, hok⟩ := hlookups
      have hstrict := hok (fun _ db => (db, none))
      obtain ⟨e, he⟩ := hthrow rrset d
      exact ⟨e, d, by
        rw [show S.strict = S.withForeign _ from rfl, hstrict]; exact he⟩

end Sent

section Effect

/-- The data of the rows of an rrset. -/
def dataOf (db : Db) (rrsetId : Nat) : List Bytes :=
  (db.rrRows rrsetId).map (fun r => r.2.rrdata)

variable (zone : Zone) (rr : RR) (db : Db)

/-- The data that a query for the rrset of an update is answered with. -/
def shown : List Bytes :=
  dataOf db (addressed db zone rr)

/-- A query behind the update is answered as the update says. -/
def InEffect : Prop :=
  match rr.updateAction with
  | .NONE => True
  | .ADD => rr.rrData ∈ shown zone rr db
  | .REMOVE => rr.rrData ∉ shown zone rr db
  | .REPLACE_ALL => shown zone rr db = [rr.rrData]
  | _ => False

/-- The update will be in effect if its statements succeed. -/
def TakesEffect : Prop :=
  match rr.updateAction with
  | .NONE => True
  | .ADD => (lookedUp db zone rr).id ≠ 0 → rr.rrData ∈ shown zone rr db
  | .REMOVE =>
      ∀ r ∈ db.rrRows (addressed db zone rr),
        r.2.rrdata = rr.rrData → r.1 = (lookedUp db zone rr).id
  | .REPLACE_ALL =>
      addressed db zone rr = 0 →
        ∀ a ∈ dataOf db (db.rrsets.lastId + 1), a = rr.rrData
  | _ => False

variable {zone rr db} {db' : Db}

theorem TakesEffect.supported (h : TakesEffect zone rr db) :
    Supported rr := by
  unfold TakesEffect at h
  unfold Supported
  cases hact : rr.updateAction <;> simp [hact] at h ⊢

/-- The look-ups leave the database alone. -/
theorem behind_lookups (stmts : List Stmt) :
    db.behind (lookups db zone rr ++ stmts) = db.behind stmts := by
  unfold lookups
  split_ifs <;> rfl

theorem dataOf_deleteWhere (p : Nat × RRRow → Bool) (n : Nat) :
    dataOf (db.deleteWhere p) n =
      ((db.rrRows n).filter (fun r => ! p r)).map (fun r => r.2.rrdata) := by
  unfold dataOf Db.rrRows Db.deleteWhere
  rw [Table.rows_delete, List.filter_filter, List.filter_filter]
  congr 1
  exact List.filter_congr (fun r _ => Bool.and_comm _ _)

/-- The trigger takes the same data away, and the new row comes last. -/
theorem dataOf_insertRr
    {row : RRRow} {m : Nat} (h : db.insertRr row = some (m, db')) :
    dataOf db' row.rrsetId =
      (dataOf db row.rrsetId).filter (· ≠ row.rrdata) ++ [row.rrdata] := by
  have hrows := (Db.insertRr_eq_some h).2.2
  unfold dataOf Db.rrRows
  rw [hrows, List.filter_append, List.map_append, List.filter_map,
    List.filter_filter, List.filter_filter]
  congr 1
  · congr 1
    refine List.filter_congr ?_
    intro r _
    by_cases hset : r.2.rrsetId = row.rrsetId <;> simp [hset]
  · simp

theorem behind_insertRr
    {n ttl : Nat} {rrData : Bytes}
    (h : db.behind [.insertRr n ttl rrData] = some db') :
    ∃ m, db.insertRr ⟨n, ttl, rrData⟩ = some (m, db') := by
  rw [Db.behind_cons, Option.bind_eq_some_iff] at h
  obtain ⟨r, hrun, hdb⟩ := h
  obtain ⟨⟨m, db₁⟩, hins, rfl⟩ := Option.map_eq_some_iff.mp hrun
  obtain rfl := Option.some.inj hdb
  exact ⟨m, hins⟩

/-- The new rrset is the one that is looked up. -/
theorem behind_insertBoth
    (h : db.behind (insertBoth db zone rr) = some db') :
    shown zone rr db' =
      (dataOf db (db.rrsets.lastId + 1)).filter (· ≠ rr.rrData) ++
        [rr.rrData] := by
  rw [insertBoth, Db.behind_cons, Option.bind_eq_some_iff] at h
  obtain ⟨r, hrun, hrest⟩ := h
  obtain ⟨⟨n, db₁⟩, hnew, rfl⟩ := Option.map_eq_some_iff.mp hrun
  obtain ⟨m, hrow⟩ := behind_insertRr hrest
  have hid := Db.insertRrset_id hnew
  obtain ⟨-, hrrs, hrows, -⟩ := Db.insertRrset_eq_some hnew
  have haddressed : addressed db' zone rr = db.rrsets.lastId + 1 := by
    have hsame : addressed db' zone rr = addressed db₁ zone rr := by
      unfold addressed Db.rrsetId
      rw [(Db.insertRr_eq_some hrow).2.1]
    rw [hsame, ← hid]
    refine (Table.lastWhere_append hrows _).trans (if_pos ?_)
    simp [RRSetRow.hasKey]
  have hold : dataOf db₁ (db.rrsets.lastId + 1) =
      dataOf db (db.rrsets.lastId + 1) := by
    unfold dataOf Db.rrRows
    rw [hrrs]
  unfold shown
  rw [haddressed, ← hold]
  exact dataOf_insertRr hrow

/-- An insertion in the rrset that is looked up. -/
theorem shown_insertRr
    (h : db.behind [.insertRr (addressed db zone rr) rr.ttl rr.rrData] =
      some db') :
    shown zone rr db' =
      (shown zone rr db).filter (· ≠ rr.rrData) ++ [rr.rrData] := by
  obtain ⟨m, hrow⟩ := behind_insertRr h
  have hsame : addressed db' zone rr = addressed db zone rr := by
    unfold addressed Db.rrsetId
    rw [(Db.insertRr_eq_some hrow).2.1]
  unfold shown
  rw [hsame]
  exact dataOf_insertRr hrow

theorem notMem_shown_deleteRr_iff {id : Nat} :
    rr.rrData ∉ shown zone rr (db.deleteRr id) ↔
      ∀ r ∈ db.rrRows (addressed db zone rr),
        r.2.rrdata = rr.rrData → r.1 = id := by
  have hshown : shown zone rr (db.deleteRr id) =
      ((db.rrRows (addressed db zone rr)).filter
        (fun r => ! decide (r.1 = id))).map (fun r => r.2.rrdata) :=
    dataOf_deleteWhere _ _
  rw [hshown]
  constructor
  · intro h r hr hdata
    by_contra hid
    exact h (List.mem_map.mpr
      ⟨r, List.mem_filter.mpr ⟨hr, by simpa using hid⟩, hdata⟩)
  · intro h hmem
    obtain ⟨r, hr, hdata⟩ := List.mem_map.mp hmem
    obtain ⟨hr, hid⟩ := List.mem_filter.mp hr
    simp [h r hr hdata] at hid

/-- Whether an update takes effect is seen beforehand. -/
theorem inEffect_iff
    (h : db.behind (plan db zone rr) = some db') :
    InEffect zone rr db' ↔ TakesEffect zone rr db := by
  rw [plan, behind_lookups] at h
  unfold actions at h
  unfold InEffect TakesEffect
  cases hact : rr.updateAction with
  | NONE =>
      exact Iff.rfl
  | ADD =>
      simp only [hact] at h
      split_ifs at h with hid hzero
      · obtain rfl := Option.some.inj h
        exact ⟨fun hmem _ => hmem, fun htakes => htakes hid⟩
      · simp [behind_insertBoth h, hid]
      · simp [shown_insertRr h, hid]
  | REMOVE =>
      simp only [hact] at h
      split_ifs at h with hid
      · obtain rfl := Option.some.inj h
        exact notMem_shown_deleteRr_iff
      · obtain rfl := Option.some.inj h
        have hzero : (lookedUp db zone rr).id = 0 :=
          Nat.eq_zero_of_not_pos hid
        have hpos : ∀ r ∈ db.rrRows (addressed db zone rr), r.1 ≠ 0 :=
          fun r hr => Nat.pos_iff_ne_zero.mp
            (db.rrs.id_pos r (List.mem_of_mem_filter hr))
        simp only [hzero, shown, dataOf, List.mem_map, not_exists, not_and]
        exact forall₂_congr (fun r hr => imp_congr_right
          (fun _ => (iff_false_intro (hpos r hr)).symm))
  | REPLACE_ALL =>
      simp only [hact] at h
      split_ifs at h with hpos
      · have hcleared :
            shown zone rr (db.deleteRrs (addressed db zone rr)) = [] := by
          refine (dataOf_deleteWhere _ _).trans ?_
          rw [List.map_eq_nil_iff, List.filter_eq_nil_iff]
          intro r hr
          have hset : r.2.rrsetId = addressed db zone rr :=
            of_decide_eq_true (List.mem_filter.mp hr).2
          simp [hset]
        have hshown : shown zone rr db' = [rr.rrData] := by
          have hinsert : shown zone rr db' =
              (shown zone rr (db.deleteRrs (addressed db zone rr))).filter
                (· ≠ rr.rrData) ++ [rr.rrData] := shown_insertRr h
          rw [hinsert, hcleared]
          rfl
        simp [hshown, Nat.pos_iff_ne_zero.mp hpos]
      · simp [behind_insertBoth h, Nat.eq_zero_of_not_pos hpos]
  | REPLACE =>
      exact Iff.rfl
  | UNKNOWN =>
      exact Iff.rfl

end Effect

section Asked

variable (zone : Zone) (db : Db) (rr : RR)

/-- The row of the addressed rrset with the data of an RR; zero without one. -/
def rowId : Nat :=
  if addressed db zone rr = 0 then 0
  else db.rrId (addressed db zone rr) rr.rrData

/-- What an RR asks for: the tables behind its action at the rrset of its own
label and type, whichever id it has on the wire. -/
def asked : Option Db :=
  match rr.updateAction with
  | .NONE => some db
  | .ADD =>
      if addressed db zone rr = 0 then db.behind (insertBoth db zone rr)
      else if rowId zone db rr ≠ 0 then some db
      else db.behind [.insertRr (addressed db zone rr) rr.ttl rr.rrData]
  | .REMOVE => some (db.deleteRr (rowId zone db rr))
  | .REPLACE_ALL =>
      if addressed db zone rr = 0 then db.behind (insertBoth db zone rr)
      else db.behind [.deleteRrs (addressed db zone rr),
        .insertRr (addressed db zone rr) rr.ttl rr.rrData]
  | _ => none

/-- What a list of RRs asks for, one after the other. -/
def askedAll (rrs : List RR) : Option Db :=
  rrs.foldlM (asked zone) db

/-- The tables are those that the RRs ask for. -/
def Applied (rrs : List RR) (db' : Db) : Prop :=
  askedAll zone db rrs = some db'

/-- The row of an RR is looked up, or the id on the wire is that of its row, or of
none if there is no such row. -/
def FindsRow : Prop :=
  zone.id ≠ 0 ∧ addressed db zone rr ≠ 0 ∨
    (rr.updateAction = .ADD → (rr.id = 0 ↔ rowId zone db rr = 0)) ∧
    (rr.updateAction = .REMOVE →
      ∀ r ∈ db.rrs.rows, (r.1 = rr.id ↔ r.1 = rowId zone db rr))

instance : Decidable (FindsRow zone db rr) :=
  inferInstanceAs (Decidable (_ ∨ _))

/-- The RRs behind the first one, which are never looked at, have nothing to do. -/
structure RestSuffices (rrs : List RR) : Prop where
  /-- They change nothing behind it. -/
  found : FindsRow zone db rr → ∃ db',
    asked zone db rr = some db' ∧ askedAll zone db' rrs = some db'
  /-- An RR that is taken for stored is not added.  If its rrset is there, they
  may take its row away again. -/
  skipped : ¬ FindsRow zone db rr → rr.updateAction = .ADD →
    rowId zone db rr = 0 → addressed db zone rr ≠ 0 ∧ ∃ db',
      asked zone db rr = some db' ∧ askedAll zone db' rrs = some db
  /-- An RR that is stored is added once more.  They may do the same. -/
  repeated : ¬ FindsRow zone db rr → rr.updateAction = .ADD →
    rowId zone db rr ≠ 0 → ∃ m db',
      db.insertRr ⟨addressed db zone rr, rr.ttl, rr.rrData⟩ = some (m, db') ∧
        askedAll zone db rrs = some db'
  /-- The row with the id on the wire is removed.  They may leave all rows but
  this one. -/
  removed : ¬ FindsRow zone db rr → rr.updateAction = .REMOVE →
    askedAll zone (db.deleteRr (rowId zone db rr)) rrs =
      some (db.deleteRr rr.id)

variable {zone db rr} {db' : Db} {rrs : List RR}

/-- The id behind the look-ups is as good as the id on the wire where it is not
looked up. -/
theorem FindsRow.lookedUp_id (h : FindsRow zone db rr) :
    (rr.updateAction = .ADD →
      ((lookedUp db zone rr).id = 0 ↔ rowId zone db rr = 0)) ∧
    (rr.updateAction = .REMOVE →
      ∀ r ∈ db.rrs.rows,
        (r.1 = (lookedUp db zone rr).id ↔ r.1 = rowId zone db rr)) := by
  by_cases hskip : zone.id = 0 ∨ addressed db zone rr = 0
  · rw [lookedUp_id_of_skipped hskip]
    refine h.resolve_left ?_
    rintro ⟨hzone, hset⟩
    exact hskip.elim hzone hset
  · obtain ⟨hzone, hset⟩ := not_or.mp hskip
    have hid : (lookedUp db zone rr).id = rowId zone db rr :=
      (lookedUp_id_of_located hzone hset).trans (if_neg hset).symm
    rw [hid]
    exact ⟨fun _ => Iff.rfl, fun _ _ _ => Iff.rfl⟩

theorem lookedUp_id_of_not_findsRow (h : ¬ FindsRow zone db rr) :
    (lookedUp db zone rr).id = rr.id := by
  refine lookedUp_id_of_skipped ?_
  by_contra hskip
  exact h (Or.inl (not_or.mp hskip))

theorem askedAll_cons :
    askedAll zone db (rr :: rrs) =
      (asked zone db rr).bind (fun db => askedAll zone db rrs) :=
  List.foldlM_cons

/-- No RR takes an rrset away. -/
theorem length_rrsets_insertBoth
    (h : db.behind (insertBoth db zone rr) = some db') :
    db'.rrsets.rows.length = db.rrsets.rows.length + 1 := by
  rw [insertBoth, Db.behind_cons, Option.bind_eq_some_iff] at h
  obtain ⟨r, hrun, hrest⟩ := h
  obtain ⟨⟨n, db₁⟩, hnew, rfl⟩ := Option.map_eq_some_iff.mp hrun
  obtain ⟨m, hrow⟩ := behind_insertRr hrest
  rw [(Db.insertRr_eq_some hrow).2.1, (Db.insertRrset_eq_some hnew).2.2.1,
    List.length_append, List.length_singleton]

theorem length_rrsets_le_of_asked (h : asked zone db rr = some db') :
    db.rrsets.rows.length ≤ db'.rrsets.rows.length := by
  unfold asked at h
  cases hact : rr.updateAction with
  | NONE =>
      simp only [hact, Option.some.injEq] at h
      rw [h]
  | ADD =>
      simp only [hact] at h
      split_ifs at h
      · have hlength := length_rrsets_insertBoth h
        omega
      · rw [Option.some.inj h]
      · obtain ⟨m, hrow⟩ := behind_insertRr h
        rw [(Db.insertRr_eq_some hrow).2.1]
  | REMOVE =>
      simp only [hact, Option.some.injEq] at h
      rw [← h]
      rfl
  | REPLACE_ALL =>
      simp only [hact] at h
      split_ifs at h
      · have hlength := length_rrsets_insertBoth h
        omega
      · have hbehind : (db.deleteRrs (addressed db zone rr)).behind
            [.insertRr (addressed db zone rr) rr.ttl rr.rrData] =
              some db' := h
        obtain ⟨m, hrow⟩ := behind_insertRr hbehind
        rw [(Db.insertRr_eq_some hrow).2.1]
        rfl
  | REPLACE =>
      simp [hact] at h
  | UNKNOWN =>
      simp [hact] at h

theorem length_rrsets_le_of_askedAll (h : askedAll zone db rrs = some db') :
    db.rrsets.rows.length ≤ db'.rrsets.rows.length := by
  induction rrs generalizing db with
  | nil =>
      rw [Option.some.inj h]
  | cons rr rrs ih =>
      rw [askedAll_cons, Option.bind_eq_some_iff] at h
      obtain ⟨db₁, hone, hrest⟩ := h
      exact (length_rrsets_le_of_asked hone).trans (ih hrest)

theorem behind_actions_remove (haction : rr.updateAction = .REMOVE) :
    db.behind (actions db zone rr) =
      some (db.deleteRr (lookedUp db zone rr).id) := by
  unfold actions
  simp only [haction]
  split_ifs with hpos
  · rfl
  · rw [Nat.eq_zero_of_not_pos hpos, Db.deleteRr_zero]
    rfl

/-- An RR that finds its row does what it asks for. -/
theorem asked_eq_behind
    (hsupported : Supported rr) (hfinds : FindsRow zone db rr) :
    asked zone db rr = db.behind (actions db zone rr) := by
  cases hact : rr.updateAction with
  | NONE =>
      simp only [asked, actions, hact]
      rfl
  | ADD =>
      simp only [asked, actions, hact]
      have hid := hfinds.lookedUp_id.1 hact
      by_cases hset : addressed db zone rr = 0
      · have hnone : rowId zone db rr = 0 := if_pos hset
        simp [hset, hid.mpr hnone]
      · by_cases hrow : rowId zone db rr = 0
        · simp [hset, hrow, hid.mpr hrow]
        · simp [hset, hrow, mt hid.mp hrow]
          rfl
  | REMOVE =>
      rw [behind_actions_remove hact,
        Db.deleteRr_congr (hfinds.lookedUp_id.2 hact)]
      simp only [asked, hact]
  | REPLACE_ALL =>
      simp only [asked, actions, hact]
      by_cases hset : addressed db zone rr = 0
      · simp [hset]
      · simp [hset, Nat.pos_of_ne_zero hset]
  | REPLACE =>
      simp [Supported, hact] at hsupported
  | UNKNOWN =>
      simp [Supported, hact] at hsupported

theorem RestSuffices.of_findsRow
    (hfinds : FindsRow zone db rr) (hasked : asked zone db rr = some db')
    (hrest : askedAll zone db' rrs = some db') :
    RestSuffices zone db rr rrs where
  found _ := ⟨db', hasked, hrest⟩
  skipped hnot := absurd hfinds hnot
  repeated hnot := absurd hfinds hnot
  removed hnot := absurd hfinds hnot

theorem applied_cons_iff_of_findsRow
    (hsupported : Supported rr) (hfinds : FindsRow zone db rr)
    (h : db.behind (actions db zone rr) = some db') :
    Applied zone db (rr :: rrs) db' ↔ RestSuffices zone db rr rrs := by
  have hasked : asked zone db rr = some db' := by
    rw [asked_eq_behind hsupported hfinds, h]
  rw [Applied, askedAll_cons, hasked, Option.bind_some]
  constructor
  · exact RestSuffices.of_findsRow hfinds hasked
  · intro hsuffices
    obtain ⟨db₁, hone, hrest⟩ := hsuffices.found hfinds
    obtain rfl := Option.some.inj (hasked.symm.trans hone)
    exact hrest

/-- An ADD that does not find its row. -/
theorem applied_cons_iff_of_add
    (haction : rr.updateAction = .ADD) (hnot : ¬ FindsRow zone db rr)
    (h : db.behind (actions db zone rr) = some db') :
    Applied zone db (rr :: rrs) db' ↔ RestSuffices zone db rr rrs := by
  have hremove : rr.updateAction ≠ .REMOVE := by simp [haction]
  have hdiffer : ¬ ((lookedUp db zone rr).id = 0 ↔
      rowId zone db rr = 0) := by
    rw [lookedUp_id_of_not_findsRow hnot]
    exact fun hid => hnot (Or.inr ⟨fun _ => hid, fun h => absurd h hremove⟩)
  simp only [actions, haction] at h
  rw [Applied, askedAll_cons, Option.bind_eq_some_iff]
  by_cases hrow : rowId zone db rr = 0
  · have hid : (lookedUp db zone rr).id ≠ 0 := by
      simpa [hrow] using hdiffer
    rw [if_pos hid] at h
    obtain rfl := Option.some.inj h
    constructor
    · rintro ⟨db₁, hone, hrest⟩
      have hset : addressed db zone rr ≠ 0 := by
        intro hzero
        have hboth := hone
        simp only [asked, haction, if_pos hzero] at hboth
        have hmore := length_rrsets_insertBoth hboth
        have hless := length_rrsets_le_of_askedAll hrest
        omega
      exact {
        found := fun hfinds => absurd hfinds hnot
        skipped := fun _ _ _ => ⟨hset, db₁, hone, hrest⟩
        repeated := fun _ _ hne => absurd hrow hne
        removed := fun _ h => absurd h hremove }
    · intro hsuffices
      exact (hsuffices.skipped hnot haction hrow).2
  · have hid : (lookedUp db zone rr).id = 0 := by
      simpa [hrow] using hdiffer
    have hset : addressed db zone rr ≠ 0 := by
      intro hzero
      exact hrow (if_pos hzero)
    have hasked : asked zone db rr = some db := by
      simp [asked, haction, hset, hrow]
    rw [if_neg (not_not.mpr hid), if_neg hset] at h
    obtain ⟨m, hins⟩ := behind_insertRr h
    constructor
    · rintro ⟨db₁, hone, hrest⟩
      obtain rfl := Option.some.inj (hasked.symm.trans hone)
      exact {
        found := fun hfinds => absurd hfinds hnot
        skipped := fun _ _ hzero => absurd hzero hrow
        repeated := fun _ _ _ => ⟨m, db', hins, hrest⟩
        removed := fun _ h => absurd h hremove }
    · intro hsuffices
      obtain ⟨m', db₁, hins', hrest⟩ :=
        hsuffices.repeated hnot haction hrow
      obtain ⟨-, rfl⟩ := Prod.mk.inj
        (Option.some.inj (hins.symm.trans hins'))
      exact ⟨db, hasked, hrest⟩

/-- A REMOVE that does not find its row. -/
theorem applied_cons_iff_of_remove
    (haction : rr.updateAction = .REMOVE) (hnot : ¬ FindsRow zone db rr)
    (h : db.behind (actions db zone rr) = some db') :
    Applied zone db (rr :: rrs) db' ↔ RestSuffices zone db rr rrs := by
  have hadd : rr.updateAction ≠ .ADD := by simp [haction]
  have hasked : asked zone db rr =
      some (db.deleteRr (rowId zone db rr)) := by
    simp only [asked, haction]
  rw [behind_actions_remove haction, lookedUp_id_of_not_findsRow hnot,
    Option.some.injEq] at h
  rw [Applied, askedAll_cons, hasked, Option.bind_some, ← h]
  constructor
  · intro hrest
    exact {
      found := fun hfinds => absurd hfinds hnot
      skipped := fun _ h => absurd h hadd
      repeated := fun _ h => absurd h hadd
      removed := fun _ _ => hrest }
  · exact fun hsuffices => hsuffices.removed hnot haction

/-- When all RRs of a list are applied though only the first is carried out. -/
theorem applied_cons_iff
    (hsupported : Supported rr)
    (h : db.behind (actions db zone rr) = some db') :
    Applied zone db (rr :: rrs) db' ↔ RestSuffices zone db rr rrs := by
  by_cases hfinds : FindsRow zone db rr
  · exact applied_cons_iff_of_findsRow hsupported hfinds h
  by_cases hadd : rr.updateAction = .ADD
  · exact applied_cons_iff_of_add hadd hfinds h
  by_cases hremove : rr.updateAction = .REMOVE
  · exact applied_cons_iff_of_remove hremove hfinds h
  · refine absurd (Or.inr ⟨?_, ?_⟩) hfinds
    · exact fun h => absurd h hadd
    · exact fun h => absurd h hremove

end Asked

end DyndnsMgr

end Ndns

import Ndns.ResponseCache
import Ndns.Retransmission

/-!
# Statements that fail

No call opens a transaction: every statement is executed on its own.  If one
fails, those in front of it have had their effect, and none behind it is sent.

**Results.**
* `Performs.bind`: the statements of calls in a row;
* `update_stops`: all that an update can leave in which a statement fails.
-/

namespace Ndns

/-- The statements in front of one that fails leave `d`. -/
def Sqlite.Stops (S : Sqlite) (stmts : List Stmt) (disk d : Disk) : Prop :=
  ∃ done stmt rest, stmts = done ++ stmt :: rest ∧
    S.execute done disk = some d ∧ S.step stmt d = none

/-- The call executes the statements until one fails.  If none does it returns,
or it throws on its own account. -/
def Performs {α : Type} (S : Sqlite) (m : DbM α) (stmts : List Stmt)
    (disk : Disk) (Q : α → Disk → Prop) (E : Prop) : Prop :=
  Effect.Triple (· = disk) m
    (fun a d => S.execute stmts disk = some d ∧ Q a d)
    (fun d => (∃ d₀, d = d₀.next ∧ S.Stops stmts disk d₀) ∨
      S.execute stmts disk = some d ∧ E)

section Rules

variable {S : Sqlite} {α β : Type} {disk d : Disk}
variable {stmts stmts' : List Stmt}
variable {Q : α → Disk → Prop} {R : β → Disk → Prop} {E : Prop}

theorem Sqlite.Stops.append
    (h : S.Stops stmts disk d) (stmts' : List Stmt) :
    S.Stops (stmts ++ stmts') disk d := by
  obtain ⟨done, stmt, rest, rfl, hdone, hstep⟩ := h
  exact ⟨done, stmt, rest ++ stmts', by simp, hdone, hstep⟩

theorem Sqlite.Stops.behind
    {d₀ : Disk} (hfirst : S.execute stmts disk = some d₀)
    (h : S.Stops stmts' d₀ d) :
    S.Stops (stmts ++ stmts') disk d := by
  obtain ⟨done, stmt, rest, rfl, hdone, hstep⟩ := h
  refine ⟨stmts ++ done, stmt, rest, by simp, ?_, hstep⟩
  rw [Sqlite.execute_append, hfirst]
  exact hdone

theorem Sqlite.Stops.execute_eq_none (h : S.Stops stmts disk d) :
    S.execute stmts disk = none := by
  obtain ⟨done, stmt, rest, rfl, hdone, hstep⟩ := h
  rw [Sqlite.execute_append, hdone, Option.bind_some, Sqlite.execute, hstep]

theorem performs_pure {a : α} (h : Q a disk) :
    Performs S (pure a) [] disk Q E :=
  Effect.triple_pure (fun _ hd => by subst hd; exact ⟨rfl, h⟩)

theorem performs_throw {e : Bytes} (h : E) :
    Performs S (throw e : DbM α) [] disk Q E :=
  Effect.triple_throw (fun _ hd => by subst hd; exact Or.inr ⟨rfl, h⟩)

theorem Performs.bind
    {m : DbM α} {f : α → DbM β} (hm : Performs S m stmts disk Q False)
    (hf : ∀ a d, Q a d → Performs S (f a) stmts' d R E) :
    Performs S (m >>= f) (stmts ++ stmts') disk R E := by
  refine Effect.Triple.bind (Effect.Triple.conseq hm (fun _ hd => hd)
    (fun _ _ hd => hd) ?_) (fun a => Effect.triple_of_forall ?_)
  · rintro d (⟨d₀, rfl, hstops⟩ | ⟨-, hfalse⟩)
    · exact Or.inl ⟨d₀, rfl, hstops.append stmts'⟩
    · exact hfalse.elim
  · rintro d ⟨hfirst, hQ⟩
    have hall : S.execute (stmts ++ stmts') disk = S.execute stmts' d := by
      rw [Sqlite.execute_append, hfirst, Option.bind_some]
    refine Effect.Triple.conseq (hf a d hQ) (fun _ hd => hd) ?_ ?_
    · rintro b d' ⟨hsecond, hR⟩
      exact ⟨hall.trans hsecond, hR⟩
    · rintro d' (⟨d₀, rfl, hstops⟩ | ⟨hsecond, hE⟩)
      · exact Or.inl ⟨d₀, rfl, hstops.behind hfirst⟩
      · exact Or.inr ⟨hall.trans hsecond, hE⟩

/-- The second call sends nothing. -/
theorem Performs.bind_nil
    {m : DbM α} {f : α → DbM β} (hm : Performs S m stmts disk Q False)
    (hf : ∀ a d, Q a d → Performs S (f a) [] d R E) :
    Performs S (m >>= f) stmts disk R E := by
  have h := hm.bind hf
  rw [List.append_nil] at h
  exact h

theorem Performs.weaken
    {m : DbM α} {Q' : α → Disk → Prop} {E' : Prop}
    (h : Performs S m stmts disk Q E) (hQ : ∀ a d, Q a d → Q' a d)
    (hE : E → E') :
    Performs S m stmts disk Q' E' :=
  Effect.Triple.conseq h (fun _ hd => hd)
    (fun a d ⟨hrun, hq⟩ => ⟨hrun, hQ a d hq⟩)
    (fun _ hd => hd.imp_right (fun ⟨hrun, he⟩ => ⟨hrun, hE he⟩))

theorem Fails.step_eq_none {stmt : Stmt} (h : Fails S stmt disk) :
    S.step stmt disk = none := by
  unfold Sqlite.step
  rcases h with hfails | hclean | hnone
  · rw [if_neg (by simp [hfails])]
  · rw [if_neg (by simp [hclean])]
  · rw [hnone, ite_self]

theorem performs_executeOnly
    {stmt : Stmt} (h : stmt.Tame) (disk : Disk) :
    Performs S (executeOnly S stmt) [stmt] disk
      (fun rows d => ∃ r, stmt.run disk.db = some r ∧ rows = r.rows ∧
        d = r.disk disk) False := by
  rcases h.lexes with hclean | ⟨hnone, hfront⟩
  · refine (executeOnly_triple S h disk).conseq (fun _ hd => hd) ?_ ?_
    · rintro rows d ⟨hfails, r, hrun, rfl, rfl⟩
      refine ⟨?_, r, hrun, rfl, rfl⟩
      have hstep : S.step stmt disk = some r := by
        rw [Sqlite.step, if_pos ⟨hfails, hclean⟩, hrun]
      rw [Sqlite.execute, hstep]
      rfl
    · rintro d ⟨rfl, hfails⟩
      exact Or.inl ⟨disk, rfl, [], stmt, [], rfl, rfl, hfails.step_eq_none⟩
  · -- the text is not lexed at all
    have hclean : ¬ stmt.Clean := by
      intro hclean
      have hlex : Sql.lex .code (Sql.cString stmt.text) =
          some (stmt.shape.flatMap Sql.Piece.items) :=
        hclean.lexes
      simp [hnone] at hlex
    have hstep : S.step stmt disk = none :=
      Fails.step_eq_none (Or.inr (Or.inl hclean))
    have hrun : (executeOnly S stmt).run disk =
        .error (sqlError S stmt) disk.next := by
      simp [EStateM.run, executeOnly, hnone, hfront, Disk.next]
    intro s hs
    obtain rfl : disk = s := hs.symm
    rw [hrun]
    exact Or.inl ⟨disk, rfl, [], stmt, [], rfl, rfl, hstep⟩

end Rules

section Managers

variable {S : Sqlite} {disk : Disk}

theorem Db.insertZone_id
    {db db' : Db} {name : Bytes} {n : Nat}
    (h : db.insertZone name = some (n, db')) :
    n = db.zones.lastId + 1 := by
  unfold insertZone at h
  split at h
  · simp at h
  · split at h
    · simp at h
    · next n' zones hins =>
        obtain ⟨rfl, -⟩ := Prod.mk.inj (Option.some.inj h)
        exact (Table.insert_eq_some hins).1

theorem performs_select
    {stmt : Stmt} {rows : List Row} (htame : stmt.Tame)
    (hrun : stmt.run disk.db = some (disk.db.unchanged rows)) :
    Performs S (executeOnly S stmt) [stmt] disk
      (fun x d => x = rows ∧ d.db = disk.db) False := by
  refine (performs_executeOnly htame disk).weaken ?_ (fun h => h)
  rintro x d ⟨r, hr, rfl, rfl⟩
  rw [hrun] at hr
  obtain rfl := Option.some.inj hr
  exact ⟨rfl, rfl⟩

theorem performs_executeInsert
    {stmt : Stmt} (htame : stmt.Tame) {f : Db → Option (Nat × Db)}
    (hrun : ∀ db, stmt.run db =
      (f db).map (fun (n, db) => ⟨[], db, some n⟩)) :
    Performs S (executeInsert S stmt) [stmt] disk
      (fun n d => f disk.db = some (n, d.db)) False := by
  refine Performs.bind_nil (performs_executeOnly htame disk) ?_
  rintro rows d ⟨r, hr, rfl, rfl⟩
  rw [hrun] at hr
  obtain ⟨⟨n, db⟩, hf, rfl⟩ := Option.map_eq_some_iff.mp hr
  rintro s rfl
  exact ⟨rfl, hf⟩

theorem ZoneMgr.performs_lookupId (zone : Zone) :
    Performs S (ZoneMgr.lookupId S zone)
      [.selectZoneId zone.authorizedName] disk
      (fun x d => x = ({ zone with
          id := (disk.db.zoneIds zone.authorizedName).getLastD zone.id },
        (disk.db.zoneIds zone.authorizedName).length) ∧ d.db = disk.db)
      False := by
  refine Performs.bind_nil (performs_select trivial rfl) ?_
  rintro rows d ⟨rfl, hd⟩
  refine performs_pure ⟨?_, hd⟩
  rw [← Db.zoneIds, foldl_zoneIds, Db.idRows, List.length_map]

theorem ZoneMgr.performs_insert (zone : Zone) :
    Performs S (ZoneMgr.insert S zone) [.insertZone zone.authorizedName]
      disk
      (fun x d => x = { zone with id := disk.db.zones.lastId + 1 } ∧
        disk.db.insertZone zone.authorizedName.toUri =
          some (disk.db.zones.lastId + 1, d.db)) False := by
  refine Performs.bind_nil (performs_executeInsert (S := S)
    (show (Stmt.insertZone zone.authorizedName).Tame from trivial)
    (f := fun db => db.insertZone zone.authorizedName.toUri)
    (fun db => rfl)) (fun n d hins => ?_)
  obtain rfl := Db.insertZone_id hins
  exact performs_pure ⟨rfl, hins⟩

theorem RRSetMgr.performs_lookupIds (rrset : RRSet) :
    Performs S (RRSetMgr.lookupIds S rrset)
      [.selectRrsetId rrset.zone.id rrset.label rrset.type] disk
      (fun x d =>
        x = { rrset with
          id := disk.db.rrsetId rrset.zone.id rrset.label.toUri
            rrset.type.toString } ∧ d.db = disk.db) False := by
  refine Performs.bind_nil (performs_select trivial rfl) ?_
  rintro rows d ⟨rfl, hd⟩
  refine performs_pure ⟨?_, hd⟩
  rw [tempInt_rrsetIds]

theorem RRMgr.performs_lookupIds
    (rr : RR) (hquote : (39 : UInt8) ∉ rr.rrData) :
    Performs S (RRMgr.lookupIds S rr)
      (if rr.rrset.zone.id = 0 ∨ rr.rrset.id = 0 then []
        else [.selectRrId rr.rrset.id rr.rrData]) disk
      (fun x d => x = { rr with id := RRMgr.foundId disk.db rr } ∧
        d.db = disk.db) False := by
  unfold RRMgr.lookupIds RRMgr.foundId
  split_ifs with hskip
  · exact performs_pure ⟨rfl, rfl⟩
  · refine Performs.bind_nil (performs_select hquote rfl) ?_
    rintro rows d ⟨rfl, hd⟩
    refine performs_pure ⟨?_, hd⟩
    rw [tempInt_rrIds]

theorem RRSetMgr.performs_insert
    (rrset : RRSet) (hclass : Stmt.CleanText rrset.clazz) :
    Performs S (RRSetMgr.insert S rrset)
      [.insertRrset rrset.zone.id rrset.label rrset.clazz rrset.type] disk
      (fun x d => x = { rrset with id := disk.db.rrsets.lastId + 1 } ∧
        disk.db.insertRrset (RRSetMgr.row rrset) =
          some (disk.db.rrsets.lastId + 1, d.db)) False := by
  refine Performs.bind_nil (performs_executeInsert (S := S)
    (show (Stmt.insertRrset rrset.zone.id rrset.label rrset.clazz
      rrset.type).Tame from hclass)
    (f := fun db => db.insertRrset (RRSetMgr.row rrset))
    (fun db => rfl)) (fun n d hins => ?_)
  obtain rfl := Db.insertRrset_id hins
  exact performs_pure ⟨rfl, hins⟩

theorem RRMgr.performs_insert
    (rr : RR) (hquote : (39 : UInt8) ∉ rr.rrData) :
    Performs S (RRMgr.insert S rr)
      [.insertRr rr.rrset.id rr.ttl rr.rrData] disk
      (fun _ d => ∃ n, disk.db.insertRr (RRMgr.row rr) = some (n, d.db))
      False := by
  refine Performs.bind_nil (performs_executeInsert (S := S)
    (show (Stmt.insertRr rr.rrset.id rr.ttl rr.rrData).Tame from hquote)
    (f := fun db => db.insertRr (RRMgr.row rr))
    (fun db => rfl)) (fun n d hins => ?_)
  exact performs_pure ⟨n, hins⟩

theorem RRMgr.performs_remove (rr : RR) :
    Performs S (RRMgr.remove S rr) [.deleteRr rr.id] disk
      (fun _ _ => True) False :=
  Performs.bind_nil (performs_executeOnly (by trivial) disk)
    (fun _ _ _ => performs_pure trivial)

theorem RRSetMgr.performs_removeRelatedRRs (rrset : RRSet) :
    Performs S (RRSetMgr.removeRelatedRRs S rrset) [.deleteRrs rrset.id]
      disk (fun _ _ => True) False :=
  Performs.bind_nil (performs_executeOnly (by trivial) disk)
    (fun _ _ _ => performs_pure trivial)

end Managers

section OffWire

variable {P : NameParser}

/-- Class and time to live are not on the wire: they are those of a new RR. -/
structure RR.OffWire (rr : RR) : Prop where
  clazz_eq : rr.rrset.clazz = []
  ttl_eq : rr.ttl = 3600

theorem RR.offWire_of_wireDecode
    {rr : RR} {wire : Tlv.Block} (h : RR.init.wireDecode P wire = some rr) :
    rr.OffWire := by
  unfold RR.wireDecode at h
  split at h
  · exact absurd h (by simp)
  · simp only [Option.bind_eq_bind, Option.bind_eq_some_iff] at h
    obtain ⟨it, -, sub, -, id, -, zone, -, name, -, record, -, action, -,
      h⟩ := h
    obtain rfl := Option.some.inj h
    exact ⟨rfl, rfl⟩

theorem Response.offWire_of_decoded
    {wire : Tlv.Block} {d : Name × ResponseType × Int × List RR}
    (h : decoded P wire = some d) :
    ∀ rr ∈ d.2.2.2, rr.OffWire := by
  simp only [decoded, Option.bind_eq_bind, Option.bind_eq_some_iff] at h
  obtain ⟨it, -, name, -, queryName, -, type, -, fresh, -, freshness, -,
    blob, -, it₂, -, number, -, rrlen, -, rrs, hrrs, h⟩ := h
  obtain rfl := Option.some.inj h
  intro rr hrr
  obtain ⟨b, hdecode⟩ := (decodedRrs_eq_some P hrrs).2 rr hrr
  exact RR.offWire_of_wireDecode hdecode

/-- The RRs of a response that is decoded. -/
theorem Response.offWire_of_fromData
    {data : Data} {re : Response}
    (h : Response.init.fromData P data = some re) :
    ∀ rr ∈ re.rrs, rr.OffWire := by
  unfold Response.fromData at h
  obtain ⟨r, hread, h⟩ := Option.bind_eq_some_iff.mp h
  rw [Response.wireDecode_eq, Option.map_eq_some_iff] at h
  obtain ⟨d, hdecoded, rfl⟩ := h
  have hnil : r.rrs = [] := Response.readName_rrs hread
  simp only [Response.load, hnil, List.nil_append, List.mem_map]
  rintro rr ⟨rr', hrr', rfl⟩
  have hoff := Response.offWire_of_decoded hdecoded rr' hrr'
  exact ⟨hoff.clazz_eq, hoff.ttl_eq⟩

/-- The RRs of an update that is decoded. -/
theorem QueryUpdate.offWire_of_fromInterest
    {K : PacketCodec} {interest : Interest} {understood : Bool}
    {queryUpdate : QueryUpdate}
    (h : QueryUpdate.init.fromInterest P K interest =
      some (understood, queryUpdate)) :
    ∀ rr ∈ queryUpdate.update.rrs, rr.OffWire := by
  unfold fromInterest at h
  split at h
  · simp only [fromInterestMap, decodeUpdate, Option.bind_eq_bind,
      Option.map_eq_some_iff, Option.bind_eq_some_iff, Option.pure_def,
      Option.some.injEq] at h
    obtain ⟨q, ⟨zone, -, label, -, hint, -, component, -, x, ⟨wired, -,
      data, -, update, hdata, rfl⟩, rfl⟩, h⟩ := h
    obtain ⟨-, rfl⟩ := Prod.mk.inj h
    exact Response.offWire_of_fromData hdata
  · obtain ⟨-, rfl⟩ := Prod.mk.inj (Option.some.inj h)
    simp [init, Response.init]

end OffWire

/-- The statement is a query. -/
def Stmt.Reads (stmt : Stmt) : Prop :=
  ∀ db : Db, ∃ rows, stmt.run db = some (db.unchanged rows)

theorem Db.behind_of_reads
    {db : Db} {stmts : List Stmt} (h : ∀ stmt ∈ stmts, stmt.Reads) :
    db.behind stmts = some db := by
  induction stmts with
  | nil =>
      rfl
  | cons stmt stmts ih =>
      obtain ⟨rows, hrun⟩ := h stmt (by simp) db
      rw [Db.behind_cons, hrun]
      exact ih (fun x hx => h x (List.mem_cons_of_mem stmt hx))

namespace DyndnsMgr

section Updates

variable {S : Sqlite} {zone : Zone} {rr : RR} {disk d : Disk}

theorem performs_insertBoth
    (hquote : (39 : UInt8) ∉ rr.rrData)
    (hclass : Stmt.CleanText rr.rrset.clazz) :
    Performs S
      (do
        let rrset ← RRSetMgr.insert S (lookedUp d.db zone rr).rrset
        RRMgr.insert S ((lookedUp d.db zone rr).setRrset rrset))
      (insertBoth d.db zone rr) d (fun _ _ => True) False := by
  refine Performs.bind
    (RRSetMgr.performs_insert (lookedUp d.db zone rr).rrset hclass) ?_
  rintro rrset d' ⟨rfl, -⟩
  exact (RRMgr.performs_insert ((lookedUp d.db zone rr).setRrset _)
    hquote).weaken (fun _ _ _ => trivial) False.elim

/-- The row of an rrset that is there. -/
theorem performs_insertRow (hquote : (39 : UInt8) ∉ rr.rrData) :
    Performs S (RRMgr.insert S (lookedUp disk.db zone rr))
      [.insertRr (addressed disk.db zone rr) rr.ttl rr.rrData] d
      (fun _ _ => True) False :=
  (RRMgr.performs_insert (lookedUp disk.db zone rr) hquote).weaken
    (fun _ _ _ => trivial) False.elim

theorem performs_act
    (hquote : (39 : UInt8) ∉ rr.rrData)
    (hclass : Stmt.CleanText rr.rrset.clazz) (hd : d.db = disk.db) :
    Performs S
      (act S (lookedUp disk.db zone rr).rrset (lookedUp disk.db zone rr))
      (actions disk.db zone rr) d (fun _ _ => Supported rr)
      (¬ Supported rr) := by
  have haction : (lookedUp disk.db zone rr).updateAction =
      rr.updateAction := rfl
  have hset : (lookedUp disk.db zone rr).rrset.id =
      addressed disk.db zone rr := rfl
  have hboth : Performs S _ (insertBoth d.db zone rr) d (fun _ _ => True)
      False :=
    performs_insertBoth hquote hclass
  rw [hd] at hboth
  unfold act actions
  rw [haction, hset]
  cases hact : rr.updateAction with
  | NONE =>
      exact performs_pure (by simp [Supported, hact])
  | ADD =>
      have hsupported : Supported rr := by simp [Supported, hact]
      simp only
      split_ifs with hid hzero
      · exact performs_pure hsupported
      · exact hboth.weaken (fun _ _ _ => hsupported) False.elim
      · exact (performs_insertRow hquote).weaken (fun _ _ _ => hsupported)
          False.elim
  | REMOVE =>
      have hsupported : Supported rr := by simp [Supported, hact]
      simp only
      split_ifs with hid
      · exact Performs.bind_nil (RRMgr.performs_remove _)
          (fun _ _ _ => performs_pure hsupported)
      · exact performs_pure hsupported
  | REPLACE_ALL =>
      have hsupported : Supported rr := by simp [Supported, hact]
      simp only
      split_ifs with hpos
      · exact Performs.bind (RRSetMgr.performs_removeRelatedRRs _)
          (fun _ _ _ => (performs_insertRow hquote).weaken
            (fun _ _ _ => hsupported) False.elim)
      · exact hboth.weaken (fun _ _ _ => hsupported) False.elim
  | REPLACE =>
      exact performs_throw (by simp [Supported, hact])
  | UNKNOWN =>
      exact performs_throw (by simp [Supported, hact])

/-- An update executes its plan as far as it goes. -/
theorem performs_updateRr
    (hquote : (39 : UInt8) ∉ rr.rrData)
    (hclass : Stmt.CleanText rr.rrset.clazz) :
    Performs S (updateRr S zone rr) (plan disk.db zone rr) disk
      (fun _ _ => Supported rr) (¬ Supported rr) := by
  unfold updateRr
  rw [plan, lookups, List.cons_append, ← List.singleton_append]
  refine Performs.bind
    (RRSetMgr.performs_lookupIds (rr.setZone zone).rrset) ?_
  rintro _ d₁ ⟨rfl, hd₁⟩
  refine Performs.bind (RRMgr.performs_lookupIds
    { rr.setZone zone with rrset.id := addressed disk.db zone rr }
      hquote) ?_
  rintro _ d₂ ⟨rfl, hd₂⟩
  rw [hd₁]
  exact performs_act hquote hclass (hd₂.trans hd₁)

/-- What a write in front of the last statement has changed. -/
inductive HalfDone (zone : Zone) (rr : RR) (db : Db) : Db → Prop
  | added (n : Nat) (db' : Db)
      (hcreates : Creates rr)
      (hset : addressed db zone rr = 0)
      (hnew : db.insertRrset (newRrset zone rr) = some (n, db')) :
      HalfDone zone rr db db'
  | cleared
      (haction : rr.updateAction = .REPLACE_ALL)
      (hset : addressed db zone rr ≠ 0) :
      HalfDone zone rr db (db.deleteRrs (addressed db zone rr))

theorem HalfDone.zones_eq
    {db db' : Db} (h : HalfDone zone rr db db') :
    db'.zones = db.zones := by
  cases h with
  | added n db' hcreates hset hnew =>
      exact (Db.insertRrset_eq_some hnew).1
  | cleared haction hset =>
      rfl

section Cuts

variable {db db' : Db} {done rest : List Stmt} {stmt : Stmt}

theorem behind_insertRrset
    (h : db.behind [.insertRrset zone.id rr.rrset.label rr.rrset.clazz
      rr.rrset.type] = some db') :
    ∃ n, db.insertRrset (newRrset zone rr) = some (n, db') := by
  rw [Db.behind_cons, Option.bind_eq_some_iff] at h
  obtain ⟨r, hrun, hdb⟩ := h
  obtain ⟨⟨n, db₁⟩, hins, rfl⟩ := Option.map_eq_some_iff.mp hrun
  obtain rfl := Option.some.inj hdb
  exact ⟨n, hins⟩

/-- Two statements, cut in front of one of them. -/
theorem cut_pair
    {x y : Stmt} (h : [x, y] = done ++ stmt :: rest) :
    done = [] ∨ done = [x] ∧ rest = [] := by
  cases done with
  | nil =>
      exact Or.inl rfl
  | cons z done =>
      simp only [List.cons_append, List.cons.injEq] at h
      obtain ⟨rfl, h⟩ := h
      cases done with
      | nil =>
          exact Or.inr ⟨rfl, (by simpa using h : _ ∧ [] = rest).2.symm⟩
      | cons w done =>
          simp at h

/-- A new rrset, cut in front of its row. -/
theorem halfDone_insertBoth
    (hcreates : Creates rr) (hset : addressed db zone rr = 0)
    (hcut : insertBoth db zone rr = done ++ stmt :: rest)
    (hdone : db.behind done = some db') :
    db' = db ∨ rest = [] ∧ HalfDone zone rr db db' := by
  rcases cut_pair hcut with rfl | ⟨rfl, rfl⟩
  · exact Or.inl (Option.some.inj hdone).symm
  · obtain ⟨n, hnew⟩ := behind_insertRrset hdone
    exact Or.inr ⟨rfl, .added n db' hcreates hset hnew⟩

/-- What the statements behind the look-ups leave, cut anywhere. -/
theorem halfDone_of_cut
    (hcut : actions db zone rr = done ++ stmt :: rest)
    (hdone : db.behind done = some db') :
    db' = db ∨ rest = [] ∧ HalfDone zone rr db db' := by
  have hone {x : Stmt} (hx : [x] = done ++ stmt :: rest) : db' = db := by
    cases done with
    | nil =>
        exact (Option.some.inj hdone).symm
    | cons y done =>
        simp at hx
  unfold actions at hcut
  cases hact : rr.updateAction with
  | ADD =>
      simp only [hact] at hcut
      split_ifs at hcut with hid hzero
      · simp at hcut
      · have hwire : rr.id = 0 := by
          rw [ne_eq, not_not] at hid
          exact (if_pos (Or.inr hzero)).symm.trans hid
        exact halfDone_insertBoth (Or.inr ⟨hact, hwire⟩) hzero hcut hdone
      · exact Or.inl (hone hcut)
  | REMOVE =>
      simp only [hact] at hcut
      split_ifs at hcut with hid
      · exact Or.inl (hone hcut)
      · simp at hcut
  | REPLACE_ALL =>
      simp only [hact] at hcut
      split_ifs at hcut with hpos
      · rcases cut_pair hcut with rfl | ⟨rfl, rfl⟩
        · exact Or.inl (Option.some.inj hdone).symm
        · obtain rfl := Option.some.inj hdone
          exact Or.inr ⟨rfl, .cleared hact (Nat.pos_iff_ne_zero.mp hpos)⟩
      · exact halfDone_insertBoth (Or.inl hact)
          (Nat.eq_zero_of_not_pos hpos) hcut hdone
  | _ =>
      simp [hact] at hcut

theorem reads_lookups : ∀ x ∈ lookups db zone rr, x.Reads := by
  unfold lookups
  split_ifs
  · simp [Stmt.Reads, Stmt.run]
  · simp [Stmt.Reads, Stmt.run]

/-- What an update leaves, cut anywhere. -/
theorem halfDone_of_plan
    (hcut : plan db zone rr = done ++ stmt :: rest)
    (hdone : db.behind done = some db') :
    db' = db ∨ rest = [] ∧ HalfDone zone rr db db' := by
  rcases List.append_eq_append_iff.mp hcut with
      ⟨front, rfl, hactions⟩ | ⟨front, hlookups, hactions⟩
  · -- the look-ups succeed
    rw [behind_lookups] at hdone
    exact halfDone_of_cut hactions hdone
  · -- one of them fails
    have hreads : db.behind done = some db :=
      Db.behind_of_reads (fun x hx =>
        reads_lookups x (hlookups ▸ List.mem_append_left _ hx))
    exact Or.inl (Option.some.inj (hdone.symm.trans hreads))

end Cuts

/-- A statement that fails ends the process; what was done stays, and in front
of the last statement this may be a new rrset or a cleared one. -/
theorem update_stops
    {P : NameParser} {K : PacketCodec} {interest : Interest}
    {understood : Bool} {queryUpdate : QueryUpdate} {rrs : List RR}
    (hread : QueryUpdate.init.fromInterest P K interest =
      some (understood, queryUpdate))
    (hrrs : queryUpdate.update.rrs = rr :: rrs)
    (hquote : (39 : UInt8) ∉ rr.rrData)
    (hfail : S.execute (plan disk.db zone rr) disk = none) :
    ∃ done stmt rest d, plan disk.db zone rr = done ++ stmt :: rest ∧
      S.execute done disk = some d ∧ S.step stmt d = none ∧
      update S zone queryUpdate disk = (.terminated, d.next) ∧
      d.db.zones = disk.db.zones ∧
      (d.db = disk.db ∨ rest = [] ∧ HalfDone zone rr disk.db d.db) := by
  have hclass : Stmt.CleanText rr.rrset.clazz := by
    have hoff := QueryUpdate.offWire_of_fromInterest hread rr (by simp [hrrs])
    rw [hoff.clazz_eq]
    decide
  have hrun : Performs S (updateRr S zone rr) (plan disk.db zone rr) disk
      _ _ :=
    performs_updateRr hquote hclass
  have hends := hrun disk rfl
  unfold update
  rw [hrrs]
  simp only
  cases heq : (updateRr S zone rr).run disk with
  | ok rr' d =>
      rw [heq] at hends
      exact absurd (hfail.symm.trans hends.1) (by simp)
  | error e d =>
      rw [heq] at hends
      rcases hends with ⟨d₀, rfl, done, stmt, rest, hcut, hdone, hstep⟩ |
          ⟨hall, -⟩
      · have hleft := halfDone_of_plan hcut (Sqlite.execute_db hdone)
        refine ⟨done, stmt, rest, d₀, hcut, hdone, hstep, rfl, ?_, hleft⟩
        rcases hleft with hsame | ⟨-, hhalf⟩
        · rw [hsame]
        · exact hhalf.zones_eq
      · exact absurd (hfail.symm.trans hall) (by simp)

theorem update_behind
    {queryUpdate : QueryUpdate} {rrs : List RR}
    (hrrs : queryUpdate.update.rrs = rr :: rrs) :
    (update S zone queryUpdate disk).2 =
      Effect.behind (updateRr S zone rr) disk := by
  unfold update Effect.behind
  rw [hrrs]
  simp only
  cases (updateRr S zone rr).run disk <;> rfl

/-- An update in which a statement fails leaves the tables as they were. -/
def UpdateAtomic (S : Sqlite) (zone : Zone) (queryUpdate : QueryUpdate)
    (disk : Disk) : Prop :=
  ∀ rr ∈ queryUpdate.update.rrs.head?,
    S.execute (plan disk.db zone rr) disk = none →
      (update S zone queryUpdate disk).2.db = disk.db

end Updates

section Hosts

open Network DynamicDNSUpdate

/-- SQLite that is busy at one statement. -/
def busyAt (n : Nat) : Sqlite :=
  { reliable with fails := fun k => k = n }

/-- The record of `/www` is there when it is to be replaced, and the insertion
fails. -/
theorem execute_replacing :
    (busyAt (addedDisk.executed + 3)).execute
      (plan addedDisk.db netZone (hostRecord .REPLACE_ALL)) addedDisk =
        none := by
  decide +kernel

/-- A record is added to the zone, and the insertion of its row fails. -/
theorem update_stops_adding :
    ∃ queryUpdate done stmt rest, ∃ d : Disk,
      QueryUpdate.init.fromInterest uriParser (ndnCodec digestSignature)
        (hostClient .ADD).interest = some (true, queryUpdate) ∧
      plan twoZonesDisk.db netZone (hostRecord .ADD) =
        done ++ stmt :: rest ∧
      update (busyAt 2) netZone queryUpdate twoZonesDisk =
        (.terminated, d.next) ∧
      d.db.zones = twoZonesDisk.db.zones := by
  obtain ⟨queryUpdate, hread, hrrs⟩ := fromInterest_hostClient .ADD
  have hfail : (busyAt 2).execute
      (plan twoZonesDisk.db netZone (hostRecord .ADD)) twoZonesDisk =
        none := by
    decide +kernel
  obtain ⟨done, stmt, rest, d, hcut, -, -, hupdate, hzones, -⟩ :=
    update_stops hread hrrs (by decide) hfail
  exact ⟨queryUpdate, done, stmt, rest, d, hread, hcut, hupdate, hzones⟩

/-- The record that was to be replaced is lost. -/
theorem replacing_not_atomic :
    ∃ queryUpdate,
      QueryUpdate.init.fromInterest uriParser (ndnCodec digestSignature)
        (hostClient .REPLACE_ALL).interest = some (true, queryUpdate) ∧
      ¬ UpdateAtomic (busyAt (addedDisk.executed + 3)) netZone queryUpdate
        addedDisk := by
  obtain ⟨queryUpdate, hread, hrrs⟩ := fromInterest_hostClient .REPLACE_ALL
  refine ⟨queryUpdate, hread, fun hatomic => ?_⟩
  have hsame := hatomic (hostRecord .REPLACE_ALL) (by simp [hrrs])
    execute_replacing
  rw [update_behind hrrs] at hsame
  have hlost : (Effect.behind (updateRr (busyAt (addedDisk.executed + 3))
      netZone (hostRecord .REPLACE_ALL)) addedDisk).db ≠ addedDisk.db := by
    decide +kernel
  exact hlost hsame

end Hosts

end DyndnsMgr

end Ndns

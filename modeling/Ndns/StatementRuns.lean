import Ndns.DbMgr

/-!
# The statements of a call

A call on the database sends one statement after the other.  `Sends` says which:
if each of them succeeds the call returns, with the database they leave, whatever
SQLite does with texts that are not lexed as they are meant; otherwise the call
throws, if SQLite refuses such texts.

**Results.**
* `Sends.bind`: statements of calls in a row;
* `sends_executeOnly`, and one lemma for each operation of a manager.
-/

namespace Ndns

/-- SQLite with another treatment of the texts that are not meant. -/
def Sqlite.withForeign (S : Sqlite)
    (foreign : List Sql.Item → Db → Db × Option (List Row × Nat)) :
    Sqlite :=
  { S with foreign := foreign }

/-- SQLite that refuses them. -/
def Sqlite.strict (S : Sqlite) : Sqlite :=
  S.withForeign (fun _ db => (db, none))

/-- A statement that is executed as it is meant; `none` if it fails. -/
def Sqlite.step (S : Sqlite) (stmt : Stmt) (disk : Disk) : Option Result :=
  if S.fails disk.executed = false ∧ stmt.Clean then stmt.run disk.db
  else none

/-- The state behind statements, if each of them succeeds. -/
def Sqlite.execute (S : Sqlite) : List Stmt → Disk → Option Disk
  | [], disk => some disk
  | stmt :: stmts, disk =>
      match S.step stmt disk with
      | none => none
      | some r => execute S stmts (r.disk disk)

/-- The call sends the statements. -/
def Sends {α : Type} (S : Sqlite) (m : Sqlite → DbM α)
    (stmts : List Stmt) (disk : Disk) (Q : α → Disk → Prop) : Prop :=
  match S.execute stmts disk with
  | some d =>
      ∃ a, Q a d ∧
        ∀ foreign, (m (S.withForeign foreign)).run disk = .ok a d
  | none => ∃ e d, (m S.strict).run disk = .error e d

variable (S : Sqlite)

theorem Sqlite.execute_append
    (stmts stmts' : List Stmt) (disk : Disk) :
    S.execute (stmts ++ stmts') disk =
      (S.execute stmts disk).bind (S.execute stmts') := by
  induction stmts generalizing disk with
  | nil =>
      rfl
  | cons stmt stmts ih =>
      rw [List.cons_append, Sqlite.execute, Sqlite.execute]
      cases S.step stmt disk with
      | none =>
          rfl
      | some r =>
          exact ih (r.disk disk)

variable {S} in
/-- Only failures at the statements themselves count. -/
theorem Sqlite.execute_congr
    {S' : Sqlite} {stmts : List Stmt} {disk : Disk}
    (h : ∀ n < stmts.length,
      S.fails (disk.executed + n) = S'.fails (disk.executed + n)) :
    S.execute stmts disk = S'.execute stmts disk := by
  induction stmts generalizing disk with
  | nil =>
      rfl
  | cons stmt stmts ih =>
      have hhead : S.fails disk.executed = S'.fails disk.executed :=
        h 0 (Nat.succ_pos _)
      have hstep : S.step stmt disk = S'.step stmt disk := by
        rw [Sqlite.step, Sqlite.step, hhead]
      simp only [Sqlite.execute, hstep]
      cases S'.step stmt disk with
      | none =>
          rfl
      | some r =>
          refine ih (fun n hn => ?_)
          have htail := h (n + 1) (Nat.succ_lt_succ hn)
          rwa [← Nat.add_assoc, Nat.add_right_comm] at htail

/-- The database behind statements that succeed. -/
def Db.behind (db : Db) (stmts : List Stmt) : Option Db :=
  stmts.foldlM (fun db stmt => (stmt.run db).map Result.db) db

theorem Db.behind_cons (db : Db) (stmt : Stmt) (stmts : List Stmt) :
    db.behind (stmt :: stmts) =
      (stmt.run db).bind (fun r => r.db.behind stmts) := by
  unfold Db.behind
  rw [List.foldlM_cons]
  cases stmt.run db <;> rfl

variable {S} in
theorem Sqlite.execute_db
    {stmts : List Stmt} {disk d : Disk}
    (h : S.execute stmts disk = some d) :
    disk.db.behind stmts = some d.db := by
  induction stmts generalizing disk with
  | nil =>
      obtain rfl := Option.some.inj h
      rfl
  | cons stmt stmts ih =>
      rw [Sqlite.execute] at h
      cases hstep : S.step stmt disk with
      | none =>
          simp [hstep] at h
      | some r =>
          rw [hstep] at h
          have hrun : stmt.run disk.db = some r := by
            unfold Sqlite.step at hstep
            split_ifs at hstep
            exact hstep
          rw [Db.behind_cons, hrun]
          exact ih h

section Rules

variable {S} {α β : Type} {disk : Disk} {stmts stmts' : List Stmt}
variable {Q : α → Disk → Prop} {R : β → Disk → Prop}

theorem sends_pure {a : α} (h : Q a disk) :
    Sends S (fun _ => pure a) [] disk Q :=
  ⟨a, h, fun _ => rfl⟩

theorem Sends.bind
    {m : Sqlite → DbM α} {f : α → Sqlite → DbM β}
    (hm : Sends S m stmts disk Q)
    (hf : ∀ a d, Q a d → Sends S (f a) stmts' d R) :
    Sends S (fun S => m S >>= fun a => f a S) (stmts ++ stmts') disk R := by
  unfold Sends at hm ⊢
  rw [Sqlite.execute_append]
  cases hfirst : S.execute stmts disk with
  | none =>
      rw [hfirst] at hm
      obtain ⟨e, d, hrun⟩ := hm
      exact ⟨e, d, by rw [EStateM.run_bind, hrun]⟩
  | some d =>
      rw [hfirst] at hm
      obtain ⟨a, hQ, hrun⟩ := hm
      have hrest := hf a d hQ
      unfold Sends at hrest
      rw [Option.bind_some]
      cases hsecond : S.execute stmts' d with
      | none =>
          rw [hsecond] at hrest
          obtain ⟨e, d', hrun'⟩ := hrest
          have hstrict : (m S.strict).run disk = .ok a d := hrun _
          exact ⟨e, d', by rw [EStateM.run_bind, hstrict]; exact hrun'⟩
      | some d' =>
          rw [hsecond] at hrest
          obtain ⟨b, hR, hrun'⟩ := hrest
          refine ⟨b, hR, fun foreign => ?_⟩
          rw [EStateM.run_bind, hrun foreign]
          exact hrun' foreign

/-- The second call sends nothing. -/
theorem Sends.bind_nil
    {m : Sqlite → DbM α} {f : α → Sqlite → DbM β}
    (hm : Sends S m stmts disk Q)
    (hf : ∀ a d, Q a d → Sends S (f a) [] d R) :
    Sends S (fun S => m S >>= fun a => f a S) stmts disk R := by
  have h := hm.bind hf
  rw [List.append_nil] at h
  exact h

theorem Sends.weaken
    {m : Sqlite → DbM α} {Q' : α → Disk → Prop}
    (h : Sends S m stmts disk Q) (hQ : ∀ a d, Q a d → Q' a d) :
    Sends S m stmts disk Q' := by
  unfold Sends at h ⊢
  cases hrun : S.execute stmts disk with
  | none =>
      rw [hrun] at h
      exact h
  | some d =>
      rw [hrun] at h
      obtain ⟨a, ha, hm⟩ := h
      exact ⟨a, hQ a d ha, hm⟩

/-- A statement that is not clean is not lexed as it is meant. -/
theorem not_lexes_of_not_clean {stmt : Stmt} (h : ¬ stmt.Clean) :
    Sql.lex .code (Sql.cString stmt.text) ≠
      some (stmt.shape.flatMap Sql.Piece.items) := by
  intro hlex
  exact h ((Stmt.literals_clean_iff stmt).mp
    ((Stmt.lexes_iff_literals stmt).mp hlex))

theorem sends_executeOnly (stmt : Stmt) (disk : Disk) :
    Sends S (fun S => executeOnly S stmt) [stmt] disk
      (fun rows d => ∃ r, stmt.run disk.db = some r ∧ rows = r.rows ∧
        d = r.disk disk) := by
  unfold Sends
  simp only [Sqlite.execute, Sqlite.step]
  by_cases hfails : S.fails disk.executed = true
  · rw [if_neg (by simp [hfails])]
    refine ⟨sqlError S.strict stmt, disk.next, ?_⟩
    simp [EStateM.run, executeOnly, Sqlite.strict, Sqlite.withForeign,
      hfails]
  by_cases hclean : stmt.Clean
  · have hlex := hclean.lexes
    unfold Stmt.Lexes at hlex
    rw [if_pos ⟨by simpa using hfails, hclean⟩]
    cases hrun : stmt.run disk.db with
    | none =>
        refine ⟨sqlError S.strict stmt, disk.next, ?_⟩
        simp [EStateM.run, executeOnly, Sqlite.strict, Sqlite.withForeign,
          hfails, hlex, hrun]
    | some r =>
        refine ⟨r.rows, ⟨r, rfl, rfl, rfl⟩, fun foreign => ?_⟩
        simp [EStateM.run, executeOnly, Sqlite.withForeign, hfails, hlex,
          hrun, Result.disk]
  · rw [if_neg (by simp [hclean])]
    refine ⟨sqlError S.strict stmt, disk.next, ?_⟩
    have hlex := not_lexes_of_not_clean hclean
    cases hitems : Sql.lex .code (Sql.cString stmt.text) with
    | none =>
        simp [EStateM.run, executeOnly, Sqlite.strict, Sqlite.withForeign,
          hfails, hitems, Disk.next]
    | some items =>
        rw [hitems, ne_eq, Option.some.injEq] at hlex
        simp [EStateM.run, executeOnly, Sqlite.strict, Sqlite.withForeign,
          hfails, hitems, hlex, Disk.next]

end Rules

section Managers

variable {S} {disk : Disk}

/-- A query for ids. -/
theorem sends_select
    {stmt : Stmt} {rows : List Row}
    (hrun : stmt.run disk.db = some (disk.db.unchanged rows)) :
    Sends S (fun S => executeOnly S stmt) [stmt] disk
      (fun x d => x = rows ∧ d.db = disk.db) := by
  refine (sends_executeOnly stmt disk).weaken ?_
  rintro x d ⟨r, hr, rfl, rfl⟩
  rw [hrun] at hr
  obtain rfl := Option.some.inj hr
  exact ⟨rfl, rfl⟩

theorem sends_executeInsert
    (stmt : Stmt) (disk : Disk) {f : Db → Option (Nat × Db)}
    (hrun : ∀ db, stmt.run db =
      (f db).map (fun (n, db) => ⟨[], db, some n⟩)) :
    Sends S (fun S => executeInsert S stmt) [stmt] disk
      (fun n d => f disk.db = some (n, d.db)) := by
  refine Sends.bind_nil (sends_executeOnly stmt disk) ?_
  rintro rows d ⟨r, hr, rfl, rfl⟩
  rw [hrun] at hr
  obtain ⟨⟨n, db⟩, hf, rfl⟩ := Option.map_eq_some_iff.mp hr
  exact ⟨n, hf, fun _ => rfl⟩

theorem RRSetMgr.sends_lookupIds (rrset : RRSet) :
    Sends S (fun S => RRSetMgr.lookupIds S rrset)
      [.selectRrsetId rrset.zone.id rrset.label rrset.type] disk
      (fun x d =>
        x = { rrset with
          id := disk.db.rrsetId rrset.zone.id rrset.label.toUri
            rrset.type.toString } ∧ d.db = disk.db) := by
  refine Sends.bind_nil (sends_select rfl) ?_
  rintro rows d ⟨rfl, hd⟩
  refine sends_pure ⟨?_, hd⟩
  rw [tempInt_rrsetIds]

theorem RRMgr.sends_lookupIds (rr : RR) :
    Sends S (fun S => RRMgr.lookupIds S rr)
      (if rr.rrset.zone.id = 0 ∨ rr.rrset.id = 0 then []
        else [.selectRrId rr.rrset.id rr.rrData]) disk
      (fun x d => x = { rr with id := RRMgr.foundId disk.db rr } ∧
        d.db = disk.db) := by
  unfold RRMgr.lookupIds RRMgr.foundId
  split_ifs with hskip
  · exact sends_pure ⟨rfl, rfl⟩
  · refine Sends.bind_nil (sends_select rfl) ?_
    rintro rows d ⟨rfl, hd⟩
    refine sends_pure ⟨?_, hd⟩
    rw [tempInt_rrIds]

theorem RRSetMgr.sends_insert (rrset : RRSet) :
    Sends S (fun S => RRSetMgr.insert S rrset)
      [.insertRrset rrset.zone.id rrset.label rrset.clazz rrset.type] disk
      (fun x _ => x = { rrset with id := disk.db.rrsets.lastId + 1 }) := by
  have h := sends_executeInsert (S := S)
    (.insertRrset rrset.zone.id rrset.label rrset.clazz rrset.type) disk
    (f := fun db => db.insertRrset (RRSetMgr.row rrset)) (fun db => rfl)
  refine Sends.bind_nil h ?_
  intro n d hins
  refine sends_pure ?_
  rw [Db.insertRrset_id hins]

theorem RRMgr.sends_insert (rr : RR) :
    Sends S (fun S => RRMgr.insert S rr)
      [.insertRr rr.rrset.id rr.ttl rr.rrData] disk (fun _ _ => True) := by
  have h := sends_executeInsert (S := S)
    (.insertRr rr.rrset.id rr.ttl rr.rrData) disk
    (f := fun db => db.insertRr (RRMgr.row rr)) (fun db => rfl)
  exact Sends.bind_nil h (fun _ _ _ => sends_pure trivial)

theorem RRMgr.sends_remove (rr : RR) :
    Sends S (fun S => RRMgr.remove S rr) [.deleteRr rr.id] disk
      (fun _ _ => True) :=
  Sends.bind_nil (sends_executeOnly _ disk)
    (fun _ _ _ => sends_pure trivial)

theorem RRSetMgr.sends_removeRelatedRRs (rrset : RRSet) :
    Sends S (fun S => RRSetMgr.removeRelatedRRs S rrset)
      [.deleteRrs rrset.id] disk (fun _ _ => True) :=
  Sends.bind_nil (sends_executeOnly _ disk)
    (fun _ _ _ => sends_pure trivial)

end Managers

end Ndns

import Ndns.DbConnection
import Ndns.Lib.Machine

/-!
# The status of a connection

`open` and `close` set `DBError` when SQLite fails, and then go on and set the
status that they set when it does not.  `open` returns early only in the status
`DBConnected`, although a statement that failed leaves `DBError` with the
connection still open.

**Results.**
* `sound_step_iff`: the calls that keep the status right;
* `sound_iff`: the runs that do.
-/

namespace Ndns

namespace DbConnection

/-- The connection that the last `sqlite3_open` opened, unless it has been closed
since. -/
def openConn : List Call → Option Nat
  | [] => none
  | .opened conn code :: _ => if code = SQLITE_OK then some conn else none
  | .executed _ _ _ _ :: calls => openConn calls
  | .closed conn code :: calls =>
      if code = SQLITE_OK ∧ openConn calls = some conn then none
      else openConn calls

/-- No `sqlite3_open` overwrites a connection that is open. -/
def NoneOverwritten : List Call → Prop
  | [] => True
  | .opened _ _ :: calls => openConn calls = none ∧ NoneOverwritten calls
  | .executed _ _ _ _ :: calls => NoneOverwritten calls
  | .closed _ _ :: calls => NoneOverwritten calls

/-- Every `open` and `close` that failed left `DBError`. -/
def FailuresKept (left : List (Int × Status)) : Prop :=
  ∀ x ∈ left, x.1 ≠ SQLITE_OK → x.2 = .DBError

/-- What the status of a manager promises. -/
structure Sound (mgr : DBMgr) : Prop where
  /-- The last `sqlite3_open` succeeded, and the connection has not been closed
  since. -/
  connected : mgr.status = .DBConnected → openConn mgr.calls ≠ none
  failed : FailuresKept mgr.left
  kept : NoneOverwritten mgr.calls

/-- A call of a function of `DBMgr`. -/
inductive Op where
  | openDb
  | closeDb
  | execute (sql : Bytes)
  | executeOnly (sql : Bytes)
  | executeAll (sqls : List Bytes)
  | executeOnlyAll (sqls : List Bytes)
deriving DecidableEq

namespace Op

def run (r : Replies) (mgr : DBMgr) : Op → Outcome Unit × DBMgr
  | openDb => (.returned (), mgr.openDb r)
  | closeDb => (.returned (), mgr.closeDb r)
  | execute sql => mgr.execute r sql
  | executeOnly sql => mgr.executeOnly r sql
  | executeAll sqls => mgr.executeAll r sqls
  | executeOnlyAll sqls => mgr.executeOnlyAll r sqls

/-- The calls that keep the status right: SQLite opens and closes what it is told
to, a connection that is open is not opened again, and no element outside a list
is read. -/
def Keeps (r : Replies) (mgr : DBMgr) : Op → Prop
  | openDb => mgr.status ≠ .DBConnected → r.openCode = SQLITE_OK ∧
      (mgr.status = .DBError → openConn mgr.calls = none)
  | closeDb => mgr.status ≠ .DBClosed → r.closeCode = SQLITE_OK
  | execute _ => (mgr.status = .DBClosed → r.openCode = SQLITE_OK) ∧
      ((r.exec 0).1 = SQLITE_OK → r.closeCode = SQLITE_OK)
  | executeOnly _ => True
  | executeAll sqls => (mgr.status = .DBClosed → r.openCode = SQLITE_OK) ∧
      Bounded r sqls ∧ r.closeCode = SQLITE_OK
  | executeOnlyAll sqls => Bounded r sqls

end Op

/-- The state behind a call; there is none behind undefined behaviour. -/
def after (run : Outcome Unit × DBMgr) : Option DBMgr :=
  if run.1 = .undefined then none else some run.2

def step (i : Op × Replies) (state : Option DBMgr) : Option DBMgr :=
  state.bind (fun mgr => after (i.1.run i.2 mgr))

/-- What all calls keep, whatever SQLite answers. -/
structure Tied (mgr : DBMgr) : Prop where
  conn : ∀ conn, openConn mgr.calls = some conn → conn = mgr.conn
  closed : FailuresKept mgr.left → mgr.status = .DBClosed →
    openConn mgr.calls = none

section Statements

variable {r : Replies} {mgr mgr' : DBMgr}

/-- What statements leave alone. -/
structure Executed (mgr mgr' : DBMgr) : Prop where
  conn : mgr'.conn = mgr.conn
  left : mgr'.left = mgr.left
  openConn : openConn mgr'.calls = openConn mgr.calls
  kept : NoneOverwritten mgr'.calls ↔ NoneOverwritten mgr.calls
  status : mgr'.status = mgr.status ∨ mgr'.status = .DBError

theorem Executed.refl (mgr : DBMgr) : Executed mgr mgr :=
  ⟨rfl, rfl, rfl, Iff.rfl, Or.inl rfl⟩

theorem Executed.trans {mgr'' : DBMgr}
    (h : Executed mgr mgr') (h' : Executed mgr' mgr'') :
    Executed mgr mgr'' where
  conn := h'.conn.trans h.conn
  left := h'.left.trans h.left
  openConn := h'.openConn.trans h.openConn
  kept := h'.kept.trans h.kept
  status := by
    rcases h'.status with hstatus | hstatus
    · rw [hstatus]
      exact h.status
    · exact Or.inr hstatus

theorem Executed.sound (h : Executed mgr mgr') (hsound : Sound mgr) :
    Sound mgr' where
  connected := by
    intro hconnected
    rw [h.openConn]
    rcases h.status with hstatus | hstatus
    · exact hsound.connected (hstatus ▸ hconnected)
    · rw [hstatus] at hconnected
      cases hconnected
  failed := by
    rw [h.left]
    exact hsound.failed
  kept := h.kept.mpr hsound.kept

theorem Executed.tied (h : Executed mgr mgr') (htied : Tied mgr) :
    Tied mgr' where
  conn := by
    rw [h.openConn, h.conn]
    exact htied.conn
  closed := by
    rw [h.openConn, h.left]
    intro hfailed hclosed
    rcases h.status with hstatus | hstatus
    · exact htied.closed hfailed (hstatus ▸ hclosed)
    · rw [hstatus] at hclosed
      cases hclosed

theorem executed_sqlite3Exec
    (n : Nat) (sql : Bytes) (callback : Callback) (mgr : DBMgr) :
    Executed mgr (mgr.sqlite3Exec r n sql callback) :=
  ⟨rfl, rfl, rfl, Iff.rfl, Or.inl rfl⟩

theorem executed_appendErr (n : Nat) (mgr : DBMgr) :
    Executed mgr (mgr.appendErr r n) :=
  ⟨rfl, rfl, rfl, Iff.rfl, Or.inr rfl⟩

theorem executed_executeOnly (sql : Bytes) (mgr : DBMgr) :
    Executed mgr (mgr.executeOnly r sql).2 := by
  unfold DBMgr.executeOnly
  dsimp only
  split_ifs
  · exact Executed.refl mgr
  · exact ⟨rfl, rfl, rfl, Iff.rfl, Or.inr rfl⟩
  · exact executed_sqlite3Exec 0 sql .given mgr

theorem executed_executeLast (sqls : List Bytes) (n : Nat) (mgr : DBMgr) :
    Executed mgr (mgr.executeLast r sqls n).2 := by
  unfold DBMgr.executeLast
  cases sqls[DBMgr.sizeSub sqls.length 1]? with
  | none =>
      exact Executed.refl mgr
  | some sql =>
      dsimp only
      split_ifs
      · exact (executed_sqlite3Exec n sql .given mgr).trans
          (executed_appendErr n _)
      · exact executed_sqlite3Exec n sql .given mgr

theorem executed_executeFrom
    (sqls : List Bytes) (i : Nat) (rest : List Bytes) (mgr : DBMgr) :
    Executed mgr (mgr.executeFrom r sqls i rest).2 := by
  induction rest generalizing i mgr with
  | nil =>
      unfold DBMgr.executeFrom
      split_ifs
      · exact Executed.refl mgr
      · exact executed_executeLast sqls i mgr
  | cons sql rest ih =>
      have hone : Executed mgr (mgr.sqlite3Exec r i sql .doNothing) :=
        executed_sqlite3Exec i sql .doNothing mgr
      unfold DBMgr.executeFrom
      dsimp only
      split_ifs
      · exact hone.trans (executed_appendErr i _)
      · exact hone
      · exact hone.trans (ih (i + 1) _)
      · exact executed_executeLast sqls i mgr

end Statements

section OpenAndClose

variable {r : Replies} {mgr : DBMgr}

theorem openDb_connected (h : mgr.status = .DBConnected) :
    mgr.openDb r = mgr :=
  if_pos h

/-- What `open` does to the connection. -/
theorem openDb_of_ne (h : mgr.status ≠ .DBConnected) :
    (mgr.openDb r).status = .DBConnected ∧
      (mgr.openDb r).conn = r.conn ∧
      (mgr.openDb r).calls = .opened r.conn r.openCode :: mgr.calls ∧
      (mgr.openDb r).left = (r.openCode, .DBConnected) :: mgr.left := by
  unfold DBMgr.openDb
  rw [if_neg h]
  dsimp only
  split_ifs
  · exact ⟨rfl, rfl, rfl, rfl⟩
  · exact ⟨rfl, rfl, rfl, rfl⟩

theorem closeDb_closed (h : mgr.status = .DBClosed) :
    mgr.closeDb r = mgr :=
  if_pos h

/-- What `close` does to the connection. -/
theorem closeDb_of_ne (h : mgr.status ≠ .DBClosed) :
    (mgr.closeDb r).status = .DBClosed ∧
      (mgr.closeDb r).conn = mgr.conn ∧
      (mgr.closeDb r).calls = .closed mgr.conn r.closeCode :: mgr.calls ∧
      (mgr.closeDb r).left = (r.closeCode, .DBClosed) :: mgr.left := by
  unfold DBMgr.closeDb
  rw [if_neg h]
  dsimp only
  split_ifs
  · exact ⟨rfl, rfl, rfl, rfl⟩
  · exact ⟨rfl, rfl, rfl, rfl⟩

/-- What a successful `sqlite3_close` leaves open. -/
theorem openConn_closed (htied : Tied mgr) :
    openConn (.closed mgr.conn SQLITE_OK :: mgr.calls) = none := by
  cases hopen : openConn mgr.calls with
  | none =>
      simp [openConn, hopen]
  | some conn =>
      obtain rfl := htied.conn conn hopen
      simp [openConn, hopen]

theorem tied_openDb (htied : Tied mgr) : Tied (mgr.openDb r) := by
  by_cases hstatus : mgr.status = .DBConnected
  · rw [openDb_connected hstatus]
    exact htied
  · obtain ⟨hnow, hconn, hcalls, -⟩ := openDb_of_ne (r := r) hstatus
    constructor
    · intro conn hopen
      rw [hcalls, openConn] at hopen
      split_ifs at hopen
      rw [hconn]
      exact (Option.some.inj hopen).symm
    · intro _ hclosed
      rw [hnow] at hclosed
      cases hclosed

theorem tied_closeDb (htied : Tied mgr) : Tied (mgr.closeDb r) := by
  by_cases hstatus : mgr.status = .DBClosed
  · rw [closeDb_closed hstatus]
    exact htied
  · obtain ⟨hnow, hconn, hcalls, hleft⟩ := closeDb_of_ne (r := r) hstatus
    constructor
    · intro conn hopen
      rw [hcalls, openConn] at hopen
      split_ifs at hopen
      rw [hconn]
      exact htied.conn conn hopen
    · intro hfailed _
      have hcode : r.closeCode = SQLITE_OK := by
        by_contra hne
        have hlast := hfailed (r.closeCode, .DBClosed)
          (by rw [hleft]; simp) hne
        cases hlast
      rw [hcalls, hcode]
      exact openConn_closed htied

/-- `open` keeps the status right if it succeeds and nothing is open before it. -/
theorem sound_openDb_iff (htied : Tied mgr) (hsound : Sound mgr) :
    Sound (mgr.openDb r) ↔ Op.openDb.Keeps r mgr := by
  unfold Op.Keeps
  by_cases hstatus : mgr.status = .DBConnected
  · rw [openDb_connected hstatus]
    exact iff_of_true hsound (fun h => absurd hstatus h)
  · obtain ⟨hnow, -, hcalls, hleft⟩ := openDb_of_ne (r := r) hstatus
    constructor
    · rintro ⟨hconnected, -, hkept⟩ -
      rw [hcalls] at hconnected hkept
      refine ⟨?_, fun _ => hkept.1⟩
      by_contra hcode
      exact hconnected hnow (if_neg hcode)
    · intro h
      obtain ⟨hcode, herror⟩ := h hstatus
      refine ⟨fun _ => ?_, ?_, ?_⟩
      · rw [hcalls, openConn, if_pos hcode]
        simp
      · rw [hleft]
        intro x hx hne
        rcases List.mem_cons.mp hx with rfl | hx
        · exact absurd hcode hne
        · exact hsound.failed x hx hne
      · rw [hcalls]
        refine ⟨?_, hsound.kept⟩
        cases hcase : mgr.status with
        | DBConnected =>
            exact absurd hcase hstatus
        | DBClosed =>
            exact htied.closed hsound.failed hcase
        | DBError =>
            exact herror hcase

/-- `close` keeps the status right if it succeeds. -/
theorem sound_closeDb_iff (hsound : Sound mgr) :
    Sound (mgr.closeDb r) ↔ Op.closeDb.Keeps r mgr := by
  unfold Op.Keeps
  by_cases hstatus : mgr.status = .DBClosed
  · rw [closeDb_closed hstatus]
    exact iff_of_true hsound (fun h => absurd hstatus h)
  · obtain ⟨hnow, -, hcalls, hleft⟩ := closeDb_of_ne (r := r) hstatus
    constructor
    · rintro ⟨-, hfailed, -⟩ -
      by_contra hcode
      have hlast := hfailed (r.closeCode, .DBClosed)
        (by rw [hleft]; simp) hcode
      cases hlast
    · intro h
      refine ⟨?_, ?_, ?_⟩
      · rw [hnow]
        intro hconnected
        cases hconnected
      · rw [hleft]
        intro x hx hne
        rcases List.mem_cons.mp hx with rfl | hx
        · exact absurd (h hstatus) hne
        · exact hsound.failed x hx hne
      · rw [hcalls]
        exact hsound.kept

end OpenAndClose

section Execute

variable {r : Replies} {mgr : DBMgr}

theorem reopen_status (r : Replies) (mgr : DBMgr) :
    (mgr.reopen r).status ≠ .DBClosed := by
  unfold DBMgr.reopen
  split_ifs with hstatus
  · have hne : mgr.status ≠ .DBConnected := by
      rw [hstatus]
      decide
    obtain ⟨hnow, -⟩ := openDb_of_ne (r := r) hne
    rw [hnow]
    decide
  · exact hstatus

theorem tied_reopen (htied : Tied mgr) : Tied (mgr.reopen r) := by
  unfold DBMgr.reopen
  split_ifs
  · exact tied_openDb htied
  · exact htied

/-- What `execute` opens is right if it is opened. -/
theorem sound_reopen (htied : Tied mgr) (hsound : Sound mgr)
    (h : mgr.status = .DBClosed → r.openCode = SQLITE_OK) :
    Sound (mgr.reopen r) := by
  unfold DBMgr.reopen
  split_ifs with hstatus
  · refine (sound_openDb_iff htied hsound).mpr
      (fun _ => ⟨h hstatus, fun herror => ?_⟩)
    rw [hstatus] at herror
    cases herror
  · exact hsound

/-- Otherwise the status that `open` left is wrong for good. -/
theorem openCode_of_failuresKept (h : FailuresKept (mgr.reopen r).left) :
    mgr.status = .DBClosed → r.openCode = SQLITE_OK := by
  intro hstatus
  rw [DBMgr.reopen, if_pos hstatus] at h
  have hne : mgr.status ≠ .DBConnected := by
    rw [hstatus]
    decide
  obtain ⟨-, -, -, hleft⟩ := openDb_of_ne (r := r) hne
  by_contra hcode
  have hlast := h (r.openCode, .DBConnected) (by rw [hleft]; simp) hcode
  cases hlast

/-- There is a state behind a run, and its status is right. -/
def SoundState (state : Option DBMgr) : Prop :=
  ∃ mgr, state = some mgr ∧ Sound mgr

theorem soundState_after_iff (run : Outcome Unit × DBMgr) :
    SoundState (after run) ↔ run.1 ≠ .undefined ∧ Sound run.2 := by
  unfold SoundState after
  split_ifs with h
  · simp [h]
  · simp [h]

/-- What `execute` closes. -/
theorem sound_closeBehind_iff
    {run : Outcome Unit × DBMgr} (hsound : Sound run.2)
    (hstatus : run.2.status ≠ .DBClosed) :
    Sound (DBMgr.closeBehind r run).2 ↔
      (run.1 = .returned () → r.closeCode = SQLITE_OK) := by
  obtain ⟨outcome, mgr⟩ := run
  cases outcome with
  | returned =>
      have hclose := sound_closeDb_iff (r := r) hsound
      exact hclose.trans
        ⟨fun h _ => h hstatus, fun h _ => h rfl⟩
  | threw | terminated | undefined =>
      simpa [DBMgr.closeBehind] using hsound

theorem closeBehind_left
    (r : Replies) (run : Outcome Unit × DBMgr)
    (h : FailuresKept (DBMgr.closeBehind r run).2.left) :
    FailuresKept run.2.left := by
  obtain ⟨outcome, mgr⟩ := run
  cases outcome with
  | returned =>
      change FailuresKept (mgr.closeDb r).left at h
      by_cases hstatus : mgr.status = .DBClosed
      · rw [closeDb_closed hstatus] at h
        exact h
      · obtain ⟨-, -, -, hleft⟩ := closeDb_of_ne (r := r) hstatus
        rw [hleft] at h
        exact fun x hx => h x (List.mem_cons_of_mem _ hx)
  | threw | terminated | undefined =>
      exact h

theorem closeBehind_outcome (r : Replies) (run : Outcome Unit × DBMgr) :
    (DBMgr.closeBehind r run).1 = run.1 := by
  obtain ⟨outcome, mgr⟩ := run
  cases outcome <;> rfl

/-- Statements between opening and closing. -/
theorem soundState_closeBehind_iff
    {run : Outcome Unit × DBMgr} (htied : Tied mgr) (hsound : Sound mgr)
    (hrun : Executed (mgr.reopen r) run.2) :
    SoundState (after (DBMgr.closeBehind r run)) ↔
      (mgr.status = .DBClosed → r.openCode = SQLITE_OK) ∧
        run.1 ≠ .undefined ∧
        (run.1 = .returned () → r.closeCode = SQLITE_OK) := by
  have hstatus : run.2.status ≠ .DBClosed := by
    rcases hrun.status with h | h
    · rw [h]
      exact reopen_status r mgr
    · rw [h]
      decide
  rw [soundState_after_iff, closeBehind_outcome]
  constructor
  · rintro ⟨hdefined, hbehind⟩
    have hopen : mgr.status = .DBClosed → r.openCode = SQLITE_OK := by
      refine openCode_of_failuresKept ?_
      rw [← hrun.left]
      exact closeBehind_left r run hbehind.failed
    have hbefore : Sound run.2 :=
      hrun.sound (sound_reopen htied hsound hopen)
    exact ⟨hopen, hdefined,
      (sound_closeBehind_iff hbefore hstatus).mp hbehind⟩
  · rintro ⟨hopen, hdefined, hclose⟩
    have hbefore : Sound run.2 :=
      hrun.sound (sound_reopen htied hsound hopen)
    exact ⟨hdefined, (sound_closeBehind_iff hbefore hstatus).mpr hclose⟩

theorem executeOnly_defined (sql : Bytes) (mgr : DBMgr) :
    (mgr.executeOnly r sql).1 ≠ .undefined := by
  unfold DBMgr.executeOnly
  dsimp only
  split_ifs
  · simp
  · simp
  · simp

theorem executeOnly_returned_iff
    {sql : Bytes} (h : mgr.status ≠ .DBClosed) :
    (mgr.executeOnly r sql).1 = .returned () ↔
      (r.exec 0).1 = SQLITE_OK := by
  unfold DBMgr.executeOnly
  rw [if_neg h]
  dsimp only
  split_ifs with hcode
  · simpa using hcode
  · simpa using hcode

end Execute

section Runs

/-- Which calls keep the status right. -/
theorem sound_step_iff
    (op : Op) (r : Replies) {mgr : DBMgr}
    (htied : Tied mgr) (hsound : Sound mgr) :
    SoundState (after (op.run r mgr)) ↔ op.Keeps r mgr := by
  cases op with
  | openDb =>
      rw [soundState_after_iff]
      exact (and_iff_right (by simp [Op.run])).trans
        (sound_openDb_iff htied hsound)
  | closeDb =>
      rw [soundState_after_iff]
      exact (and_iff_right (by simp [Op.run])).trans
        (sound_closeDb_iff hsound)
  | execute sql =>
      have hrun := soundState_closeBehind_iff htied hsound
        (executed_executeOnly (r := r) sql (mgr.reopen r))
      rw [executeOnly_returned_iff (reopen_status r mgr)] at hrun
      exact hrun.trans (and_congr_right fun _ =>
        and_iff_right (executeOnly_defined sql _))
  | executeOnly sql =>
      rw [soundState_after_iff]
      exact iff_of_true ⟨executeOnly_defined sql mgr,
        (executed_executeOnly sql mgr).sound hsound⟩ trivial
  | executeAll sqls =>
      have hrun := soundState_closeBehind_iff htied hsound
        (executed_executeFrom (r := r) sqls 0 sqls (mgr.reopen r))
      refine hrun.trans (and_congr_right fun _ => ?_)
      have hdefined := executeOnlyAll_defined_iff r sqls (mgr.reopen r)
      constructor
      · rintro ⟨hne, hclose⟩
        refine ⟨hdefined.mp hne, hclose ?_⟩
        exact (DBMgr.executeFrom_outcome 0 sqls (mgr.reopen r)).resolve_right
          hne
      · rintro ⟨hbounded, hclose⟩
        exact ⟨hdefined.mpr hbounded, fun _ => hclose⟩
  | executeOnlyAll sqls =>
      rw [soundState_after_iff]
      refine (and_iff_left ?_).trans (executeOnlyAll_defined_iff r sqls mgr)
      exact (executed_executeFrom sqls 0 sqls mgr).sound hsound

/-- Every call keeps the connection and the calls of SQLite tied. -/
theorem tied_run (op : Op) (r : Replies) {mgr : DBMgr} (htied : Tied mgr) :
    Tied (op.run r mgr).2 := by
  have hbehind {run : Outcome Unit × DBMgr} (h : Tied run.2) :
      Tied (DBMgr.closeBehind r run).2 := by
    obtain ⟨outcome, mgr⟩ := run
    cases outcome with
    | returned =>
        exact tied_closeDb h
    | threw | terminated | undefined =>
        exact h
  cases op with
  | openDb =>
      exact tied_openDb htied
  | closeDb =>
      exact tied_closeDb htied
  | execute sql =>
      exact hbehind ((executed_executeOnly sql _).tied (tied_reopen htied))
  | executeOnly sql =>
      exact (executed_executeOnly sql mgr).tied htied
  | executeAll sqls =>
      exact hbehind ((executed_executeFrom sqls 0 sqls _).tied
        (tied_reopen htied))
  | executeOnlyAll sqls =>
      exact (executed_executeFrom sqls 0 sqls mgr).tied htied

/-- A manager of a file, as it is constructed. -/
def ofFile (dbfile : Bytes) : DBMgr :=
  { DBMgr.init with toDBMgr := Ndns.DBMgr.init.setDbfile dbfile }

theorem tied_ofFile (dbfile : Bytes) : Tied (ofFile dbfile) where
  conn := by
    intro conn h
    simp [ofFile, DBMgr.init, openConn] at h
  closed := fun _ _ => rfl

theorem sound_ofFile (dbfile : Bytes) : Sound (ofFile dbfile) where
  connected := by
    intro h
    simp [ofFile, DBMgr.init] at h
  failed := by
    intro x hx
    simp [ofFile, DBMgr.init] at hx
  kept := trivial

/-- The status is right throughout exactly the runs all of whose calls keep it
right. -/
theorem soundThroughout_iff (dbfile : Bytes) (run : List (Op × Replies)) :
    Machine.Throughout step SoundState run (some (ofFile dbfile)) ↔
      Machine.Along step
        (fun i state => ∀ mgr, state = some mgr → i.1.Keeps i.2 mgr) run
        (some (ofFile dbfile)) := by
  have hgiven :
      Machine.Along step (fun _ _ => True) run (some (ofFile dbfile)) :=
    Machine.along_of_forall (fun _ _ => trivial) run _
  refine Machine.throughout_iff_along
    (J := fun state => ∀ mgr, state = some mgr → Tied mgr)
    (fun i state htied _ => ?_) (fun i state htied _ hsound => ?_)
    hgiven ?_ ⟨_, rfl, sound_ofFile dbfile⟩
  · intro mgr' hstep
    cases state with
    | none =>
        cases hstep
    | some mgr =>
        change after (i.1.run i.2 mgr) = some mgr' at hstep
        unfold after at hstep
        split_ifs at hstep
        rw [← Option.some.inj hstep]
        exact tied_run i.1 i.2 (htied mgr rfl)
  · obtain ⟨mgr, rfl, hsound⟩ := hsound
    refine (sound_step_iff i.1 i.2 (htied mgr rfl) hsound).trans ?_
    constructor
    · rintro hkeeps _ hmgr
      rwa [← Option.some.inj hmgr]
    · intro h
      exact h mgr rfl
  · rintro mgr hmgr
    rw [← Option.some.inj hmgr]
    exact tied_ofFile dbfile

/-- `SQLITE_CANTOPEN` -/
def cannotOpen : Replies :=
  { successes with openCode := 14 }

/-- `SQLITE_BUSY` -/
def cannotClose : Replies :=
  { successes with closeCode := 5 }

/-- `SQLITE_ERROR` -/
def cannotExecute : Replies :=
  { successes with exec := fun _ => (1, []) }

/-- A failed `open` that leaves `DBConnected`, a failed `close` that leaves
`DBClosed`, and a connection that is opened once more behind a statement that
failed. -/
theorem status_not_sound :
    (∃ mgr, Machine.final step [(.openDb, cannotOpen)]
        (some DBMgr.init) = some mgr ∧
      mgr.status = .DBConnected ∧ openConn mgr.calls = none) ∧
    (∃ mgr, Machine.final step
        [(.openDb, successes), (.closeDb, cannotClose)]
        (some DBMgr.init) = some mgr ∧
      mgr.status = .DBClosed ∧ mgr.left.head? = some (5, .DBClosed)) ∧
    (∃ mgr, Machine.final step
        [(.openDb, successes), (.executeOnly (ascii "BEGIN"), cannotExecute),
          (.openDb, { successes with conn := 2 })]
        (some DBMgr.init) = some mgr ∧ ¬ NoneOverwritten mgr.calls) := by
  refine ⟨⟨_, rfl, rfl, rfl⟩, ⟨_, rfl, rfl, rfl⟩, ⟨_, rfl, ?_⟩⟩
  rintro ⟨hclosed, -⟩
  cases hclosed

end Runs

end DbConnection

end Ndns

import Ndns.DbFiles

/-!
# The connection of a manager

`db-mgr.cpp`, with the calls of SQLite it makes and the codes that these return.
The rest of the development executes a statement on an open connection; here the
connection is opened and closed, and each call may fail.

**Results.**
* `executeFrom_iff`: what the loop over a list of statements executes;
* `executesInOrder_iff`: the lists that are executed in order;
* `executeOnlyAll_defined_iff`: those that are left without undefined behaviour.
-/

namespace Ndns

namespace DbConnection

def SQLITE_OK : Int := 0

/-- `DBMgr::m_status` -/
inductive Status where
  | DBConnected
  | DBClosed
  | DBError
deriving DecidableEq

/-- The callback that is passed to `sqlite3_exec`. -/
inductive Callback where
  /-- `DBMgr::static_callback_doNothing` -/
  | doNothing
  /-- The one of the caller. -/
  | given
deriving DecidableEq

/-- A call of SQLite on a connection, with the code it returned. -/
inductive Call where
  | opened (conn : Nat) (code : Int)
  | executed (conn : Nat) (sql : Bytes) (callback : Callback) (code : Int)
  | closed (conn : Nat) (code : Int)
deriving DecidableEq

/-- What SQLite answers while one function of `DBMgr` runs.  None of them calls
`sqlite3_open` or `sqlite3_close` more than once. -/
structure Replies where
  openCode : Int
  /-- What `sqlite3_open` stores in `m_conn`, also if it fails. -/
  conn : Nat
  /-- The code of the `n`-th `sqlite3_exec`, and its `err_msg`. -/
  exec : Nat → Int × Bytes
  closeCode : Int

/-- A `DBMgr`, and what was done to it, the latest first. -/
structure DBMgr extends Ndns.DBMgr where
  conn : Nat
  err : Bytes
  reCode : Int
  status : Status
  calls : List Call
  /-- The codes of `sqlite3_open` and `sqlite3_close`, each with the status that
  `open` or `close` left behind. -/
  left : List (Int × Status)
deriving DecidableEq

namespace DBMgr

/-- `DBMgr::DBMgr` -/
def init : DBMgr where
  toDBMgr := Ndns.DBMgr.init
  conn := 0
  err := []
  reCode := -1
  status := .DBClosed
  calls := []
  left := []

/-- `m_reCode = sqlite3_open(…, &m_conn)` -/
def sqlite3Open (r : Replies) (mgr : DBMgr) : DBMgr :=
  { mgr with
    conn := r.conn
    reCode := r.openCode
    calls := .opened r.conn r.openCode :: mgr.calls }

/-- `m_reCode = sqlite3_exec(m_conn, …)`, the `n`-th one. -/
def sqlite3Exec (r : Replies) (n : Nat) (sql : Bytes) (callback : Callback)
    (mgr : DBMgr) : DBMgr :=
  { mgr with
    reCode := (r.exec n).1
    calls := .executed mgr.conn sql callback (r.exec n).1 :: mgr.calls }

@[simp] theorem sqlite3Exec_conn
    (r : Replies) (n : Nat) (sql : Bytes) (callback : Callback)
    (mgr : DBMgr) :
    (mgr.sqlite3Exec r n sql callback).conn = mgr.conn :=
  rfl

@[simp] theorem sqlite3Exec_reCode
    (r : Replies) (n : Nat) (sql : Bytes) (callback : Callback)
    (mgr : DBMgr) :
    (mgr.sqlite3Exec r n sql callback).reCode = (r.exec n).1 :=
  rfl

/-- `m_reCode = sqlite3_close(m_conn)` -/
def sqlite3Close (r : Replies) (mgr : DBMgr) : DBMgr :=
  { mgr with
    reCode := r.closeCode
    calls := .closed mgr.conn r.closeCode :: mgr.calls }

/-- `open` or `close` returns behind its call of SQLite. -/
def leave (mgr : DBMgr) : DBMgr :=
  { mgr with left := (mgr.reCode, mgr.status) :: mgr.left }

/-- `DBMgr::open` -/
def openDb (r : Replies) (mgr : DBMgr) : DBMgr :=
  if mgr.status = .DBConnected then mgr
  else
    let mgr := mgr.sqlite3Open r
    let mgr :=
      if mgr.reCode ≠ SQLITE_OK then
        { mgr with
          err := ascii "Cannot connect to the db: " ++ mgr.dbfile
          status := .DBError }
      else mgr
    leave { mgr with status := .DBConnected }

/-- `DBMgr::close` -/
def closeDb (r : Replies) (mgr : DBMgr) : DBMgr :=
  if mgr.status = .DBClosed then mgr
  else
    let mgr := mgr.sqlite3Close r
    let mgr :=
      if mgr.reCode ≠ SQLITE_OK then
        { mgr with
          err := ascii "Cannot close the db: " ++ mgr.dbfile
          status := .DBError }
      else mgr
    leave { mgr with status := .DBClosed }

/-- `DBMgr::executeOnly(std::string)` -/
def executeOnly (r : Replies) (sql : Bytes) (mgr : DBMgr) :
    Outcome Unit × DBMgr :=
  if mgr.status = .DBClosed then (.returned (), mgr)
  else
    let mgr := mgr.sqlite3Exec r 0 sql .given
    if mgr.reCode ≠ SQLITE_OK then
      let msg := ascii "execute SQL=[" ++ sql ++
        ascii "] and returns error:" ++ (r.exec 0).2
      (.threw msg, { mgr with status := .DBError, err := msg })
    else (.returned (), mgr)

/-- What `execute` opens before its statements. -/
def reopen (r : Replies) (mgr : DBMgr) : DBMgr :=
  if mgr.status = .DBClosed then mgr.openDb r else mgr

/-- What `execute` closes behind its statements, unless an exception leaves it. -/
def closeBehind (r : Replies) : Outcome Unit × DBMgr → Outcome Unit × DBMgr
  | (.returned (), mgr) => (.returned (), mgr.closeDb r)
  | (outcome, mgr) => (outcome, mgr)

/-- `DBMgr::execute(std::string)` -/
def execute (r : Replies) (sql : Bytes) (mgr : DBMgr) :
    Outcome Unit × DBMgr :=
  closeBehind r ((mgr.reopen r).executeOnly r sql)

/-- What a list of statements does about one that failed, the `n`-th one. -/
def appendErr (r : Replies) (n : Nat) (mgr : DBMgr) : DBMgr :=
  { mgr with
    status := .DBError
    err := mgr.err ++ (r.exec n).2 }

/-- The difference of two `size_t`. -/
def sizeSub (a b : Nat) : Nat :=
  if b ≤ a then a - b else a + 2 ^ 64 - b

/-- The part of `DBMgr::executeOnly(std::vector)` behind its loop, after `n`
statements. -/
def executeLast (r : Replies) (sqls : List Bytes) (n : Nat) (mgr : DBMgr) :
    Outcome Unit × DBMgr :=
  match sqls[sizeSub sqls.length 1]? with
  | none => (.undefined, mgr)
  | some sql =>
      let mgr := mgr.sqlite3Exec r n sql .given
      if mgr.reCode ≠ SQLITE_OK then (.returned (), mgr.appendErr r n)
      else (.returned (), mgr)

/-- The loop of `DBMgr::executeOnly(std::vector)` from the counter `i` on, with
the statements from `sqls[i]` on.  The counter is an `int`, and undefined when it
overflows. -/
def executeFrom (r : Replies) (sqls : List Bytes) :
    Nat → List Bytes → DBMgr → Outcome Unit × DBMgr
  | i, [], mgr =>
      if i < sizeSub sqls.length 2 then (.undefined, mgr)
      else mgr.executeLast r sqls i
  | i, sql :: rest, mgr =>
      if i < sizeSub sqls.length 2 then
        let mgr := mgr.sqlite3Exec r i sql .doNothing
        if mgr.reCode ≠ SQLITE_OK then (.returned (), mgr.appendErr r i)
        else if i + 1 = 2 ^ 31 then (.undefined, mgr)
        else executeFrom r sqls (i + 1) rest mgr
      else mgr.executeLast r sqls i

/-- `DBMgr::executeOnly(std::vector)` -/
def executeOnlyAll (r : Replies) (sqls : List Bytes) (mgr : DBMgr) :
    Outcome Unit × DBMgr :=
  executeFrom r sqls 0 sqls mgr

/-- `DBMgr::execute(std::vector)` -/
def executeAll (r : Replies) (sqls : List Bytes) (mgr : DBMgr) :
    Outcome Unit × DBMgr :=
  closeBehind r ((mgr.reopen r).executeOnlyAll r sqls)

end DBMgr

section Lists

variable {r : Replies} {conn : Nat} {sqls : List Bytes} {sql : Bytes}

/-- Every statement once, in the order of the list, until one fails.  The callback
goes with the last statement. -/
inductive Executes (conn : Nat) : List Bytes → List Call → Prop
  | nil :
      Executes conn [] []
  | last {sql : Bytes} {code : Int} :
      Executes conn [sql] [.executed conn sql .given code]
  | failed {sql : Bytes} {rest : List Bytes} {code : Int} :
      rest ≠ [] →
      code ≠ SQLITE_OK →
      Executes conn (sql :: rest) [.executed conn sql .doNothing code]
  | next {sql : Bytes} {rest : List Bytes} {calls : List Call} :
      rest ≠ [] →
      Executes conn rest calls →
      Executes conn (sql :: rest)
        (.executed conn sql .doNothing SQLITE_OK :: calls)

/-- A list of statements is executed as it is meant to, and no element outside it
is read. -/
structure InOrder (sqls : List Bytes) (before : DBMgr)
    (run : Outcome Unit × DBMgr) : Prop where
  inBounds : run.1 ≠ .undefined
  executes : ∃ calls, Executes before.conn sqls calls ∧
    run.2.calls = calls.reverse ++ before.calls

namespace DBMgr

/-- The last statement comes with the callback, if there is one. -/
theorem executeLast_calls
    (r : Replies) (sqls : List Bytes) (n : Nat) (mgr : DBMgr) :
    (mgr.executeLast r sqls n).2.calls = mgr.calls ∨
      ∃ sql, (mgr.executeLast r sqls n).2.calls =
        .executed mgr.conn sql .given (r.exec n).1 :: mgr.calls := by
  unfold executeLast
  cases sqls[sizeSub sqls.length 1]? with
  | none =>
      exact Or.inl rfl
  | some sql =>
      refine Or.inr ⟨sql, ?_⟩
      dsimp only
      split_ifs
      · rfl
      · rfl

variable {i : Nat} {rest : List Bytes} {mgr : DBMgr}

/-! The loop body, at a statement that is there. -/

theorem executeFrom_failed
    (h : i < sizeSub sqls.length 2) (hcode : (r.exec i).1 ≠ SQLITE_OK) :
    mgr.executeFrom r sqls i (sql :: rest) =
      (.returned (),
        (mgr.sqlite3Exec r i sql .doNothing).appendErr r i) := by
  rw [executeFrom, if_pos h]
  exact if_pos hcode

theorem executeFrom_overflow
    (h : i < sizeSub sqls.length 2) (hcode : (r.exec i).1 = SQLITE_OK)
    (hi : i + 1 = 2 ^ 31) :
    mgr.executeFrom r sqls i (sql :: rest) =
      (.undefined, mgr.sqlite3Exec r i sql .doNothing) := by
  rw [executeFrom, if_pos h]
  exact (if_neg (not_not.mpr hcode)).trans (if_pos hi)

theorem executeFrom_next
    (h : i < sizeSub sqls.length 2) (hcode : (r.exec i).1 = SQLITE_OK)
    (hi : i + 1 ≠ 2 ^ 31) :
    mgr.executeFrom r sqls i (sql :: rest) =
      (mgr.sqlite3Exec r i sql .doNothing).executeFrom r sqls (i + 1)
        rest := by
  rw [executeFrom, if_pos h]
  exact (if_neg (not_not.mpr hcode)).trans (if_neg hi)

theorem executeFrom_last (h : ¬ i < sizeSub sqls.length 2) :
    mgr.executeFrom r sqls i rest = mgr.executeLast r sqls i := by
  cases rest with
  | nil =>
      rw [executeFrom, if_neg h]
  | cons sql rest =>
      rw [executeFrom, if_neg h]

/-- Calls are only added. -/
theorem executeFrom_calls
    (i : Nat) (rest : List Bytes) (mgr : DBMgr) :
    ∃ calls, (mgr.executeFrom r sqls i rest).2.calls =
      calls ++ mgr.calls := by
  have hlast (n : Nat) (mgr : DBMgr) :
      ∃ calls, (mgr.executeLast r sqls n).2.calls = calls ++ mgr.calls := by
    rcases executeLast_calls r sqls n mgr with h | ⟨sql, h⟩
    · exact ⟨[], h⟩
    · exact ⟨[_], h⟩
  induction rest generalizing i mgr with
  | nil =>
      unfold executeFrom
      split_ifs
      · exact ⟨[], rfl⟩
      · exact hlast i mgr
  | cons sql rest ih =>
      unfold executeFrom
      dsimp only
      split_ifs
      · exact ⟨[_], rfl⟩
      · exact ⟨[_], rfl⟩
      · obtain ⟨calls, hcalls⟩ :=
          ih (i + 1) (mgr.sqlite3Exec r i sql .doNothing)
        exact ⟨calls ++ [_], by
          rw [hcalls, List.append_assoc]
          rfl⟩
      · exact hlast i mgr

/-- A list of statements throws nothing. -/
theorem executeFrom_outcome
    (i : Nat) (rest : List Bytes) (mgr : DBMgr) :
    (mgr.executeFrom r sqls i rest).1 = .returned () ∨
      (mgr.executeFrom r sqls i rest).1 = .undefined := by
  have hlast (n : Nat) (mgr : DBMgr) :
      (mgr.executeLast r sqls n).1 = .returned () ∨
        (mgr.executeLast r sqls n).1 = .undefined := by
    unfold executeLast
    cases sqls[sizeSub sqls.length 1]? with
    | none =>
        exact Or.inr rfl
    | some sql =>
        dsimp only
        split_ifs
        · exact Or.inl rfl
        · exact Or.inl rfl
  induction rest generalizing i mgr with
  | nil =>
      unfold executeFrom
      split_ifs
      · exact Or.inr rfl
      · exact hlast i mgr
  | cons sql rest ih =>
      unfold executeFrom
      dsimp only
      split_ifs
      · exact Or.inl rfl
      · exact Or.inr rfl
      · exact ih (i + 1) _
      · exact hlast i mgr

end DBMgr

/-- A statement in front that was executed without the callback. -/
theorem inOrder_cons_iff
    {mgr next : DBMgr} {rest : List Bytes} {run : Outcome Unit × DBMgr}
    (hrest : rest ≠ []) (hconn : next.conn = mgr.conn)
    (hnext : next.calls =
      .executed mgr.conn sql .doNothing SQLITE_OK :: mgr.calls)
    (hcalls : ∃ calls, run.2.calls = calls ++ next.calls) :
    InOrder (sql :: rest) mgr run ↔ InOrder rest next run := by
  constructor
  · rintro ⟨hinBounds, calls, hexecutes, hrun⟩
    refine ⟨hinBounds, ?_⟩
    obtain ⟨more, hmore⟩ := hcalls
    have hsplit : calls.reverse =
        more ++ [.executed mgr.conn sql .doNothing SQLITE_OK] := by
      rw [hmore, hnext] at hrun
      exact (List.append_cancel_right (by simpa using hrun)).symm
    cases hexecutes with
    | last =>
        exact absurd rfl hrest
    | failed _ hcode =>
        have hlast := congrArg List.getLast? hsplit
        simp [hcode] at hlast
    | @next _ _ calls _ hexecutes =>
        rw [List.reverse_cons] at hsplit
        obtain ⟨hreverse, -⟩ := List.append_inj' hsplit rfl
        exact ⟨calls, hconn ▸ hexecutes, by rw [hmore, hreverse]⟩
  · rintro ⟨hinBounds, calls, hexecutes, hrun⟩
    refine ⟨hinBounds, .executed mgr.conn sql .doNothing SQLITE_OK :: calls,
      .next hrest (hconn ▸ hexecutes), ?_⟩
    rw [hrun, hnext, List.reverse_cons, List.append_assoc]
    rfl

/-- With more than one statement left, the callback comes too early. -/
theorem not_inOrder_executeLast
    {rest : List Bytes} (hrest : 2 ≤ rest.length) (n : Nat) (mgr : DBMgr) :
    ¬ InOrder rest mgr (mgr.executeLast r sqls n) := by
  rintro ⟨-, calls, hexecutes, hrun⟩
  have hone : calls = [] ∨ ∃ sql, calls =
      [.executed mgr.conn sql .given (r.exec n).1] := by
    rcases DBMgr.executeLast_calls r sqls n mgr with h | ⟨sql, h⟩
    · left
      rw [h] at hrun
      simpa using hrun
    · right
      rw [h] at hrun
      have hreverse : calls.reverse =
          [.executed mgr.conn sql .given (r.exec n).1] :=
        (List.append_cancel_right (by simpa using hrun)).symm
      exact ⟨sql, by simpa using congrArg List.reverse hreverse⟩
  rcases hone with rfl | ⟨sql, rfl⟩
  · cases hexecutes
    simp at hrest
  · cases hexecutes
    simp at hrest

/-- What the loop executes, with at least two statements left. -/
theorem executeFrom_iff
    {rest : List Bytes} {i : Nat}
    (hi : i < 2 ^ 31) (hlength : i + rest.length = sqls.length)
    (htwo : 2 ≤ rest.length) (mgr : DBMgr) :
    InOrder rest mgr (mgr.executeFrom r sqls i rest) ↔
      ∃ k, i ≤ k ∧ k + 2 < sqls.length ∧ k < 2 ^ 31 ∧
        (r.exec k).1 ≠ SQLITE_OK := by
  induction rest generalizing i mgr with
  | nil =>
      simp at htwo
  | cons sql rest ih =>
      rw [List.length_cons] at hlength htwo
      have hbound : DBMgr.sizeSub sqls.length 2 = sqls.length - 2 :=
        if_pos (by omega)
      have hrest : rest ≠ [] := List.ne_nil_of_length_pos (by omega)
      by_cases hlast : i < DBMgr.sizeSub sqls.length 2
      · by_cases hcode : (r.exec i).1 = SQLITE_OK
        · by_cases hoverflow : i + 1 = 2 ^ 31
          · rw [DBMgr.executeFrom_overflow hlast hcode hoverflow]
            refine iff_of_false (fun h => h.inBounds rfl) ?_
            rintro ⟨k, hik, -, hk, hfails⟩
            obtain rfl : k = i := by omega
            exact hfails hcode
          · have hcalls :
                (mgr.sqlite3Exec r i sql .doNothing).calls =
                  .executed mgr.conn sql .doNothing SQLITE_OK ::
                    mgr.calls := by
              rw [← hcode]
              rfl
            rw [DBMgr.executeFrom_next hlast hcode hoverflow,
              inOrder_cons_iff hrest (DBMgr.sqlite3Exec_conn ..) hcalls
                (DBMgr.executeFrom_calls _ _ _),
              ih (by omega) (by omega) (by omega)]
            constructor
            · rintro ⟨k, hik, hk⟩
              exact ⟨k, by omega, hk⟩
            · rintro ⟨k, hik, hk, hlt, hfails⟩
              have hne : k ≠ i := by
                rintro rfl
                exact hfails hcode
              exact ⟨k, by omega, hk, hlt, hfails⟩
        · rw [DBMgr.executeFrom_failed hlast hcode]
          refine iff_of_true ⟨by simp, [_], .failed hrest hcode, rfl⟩ ?_
          exact ⟨i, le_rfl, by omega, hi, hcode⟩
      · rw [DBMgr.executeFrom_last hlast]
        refine iff_of_false
          (not_inOrder_executeLast (by rw [List.length_cons]; omega) i mgr) ?_
        rintro ⟨k, hik, hk, -, -⟩
        omega

/-- The loop bound of a shorter list. -/
theorem lt_sizeSub (h : sqls.length < 2) :
    0 < DBMgr.sizeSub sqls.length 2 := by
  rw [DBMgr.sizeSub, if_neg (by omega)]
  omega

/-- A list without a second statement to end with is not executed in order. -/
theorem not_inOrder_of_length_lt (h : sqls.length < 2) (mgr : DBMgr) :
    ¬ InOrder sqls mgr (mgr.executeOnlyAll r sqls) := by
  have hzero := lt_sizeSub h
  unfold DBMgr.executeOnlyAll
  cases sqls with
  | nil =>
      rw [DBMgr.executeFrom, if_pos hzero]
      exact fun h => h.inBounds rfl
  | cons sql rest =>
      obtain rfl : rest = [] := by
        rw [List.length_cons] at h
        exact List.eq_nil_of_length_eq_zero (by omega)
      by_cases hcode : (r.exec 0).1 = SQLITE_OK
      · have hone : 0 + 1 < DBMgr.sizeSub [sql].length 2 :=
          show 1 < DBMgr.sizeSub 1 2 by decide
        rw [DBMgr.executeFrom_next hzero hcode (by decide),
          DBMgr.executeFrom, if_pos hone]
        exact fun h => h.inBounds rfl
      · rw [DBMgr.executeFrom_failed hzero hcode]
        rintro ⟨-, calls, hexecutes, hrun⟩
        cases hexecutes with
        | last =>
            simp [DBMgr.appendErr, DBMgr.sqlite3Exec] at hrun
        | failed hne _ =>
            exact hne rfl
        | next hne _ =>
            exact hne rfl

/-- A list of statements is executed in order exactly if one of them fails that
has two behind it, within the range of the counter. -/
theorem executesInOrder_iff
    (r : Replies) (sqls : List Bytes) (mgr : DBMgr) :
    InOrder sqls mgr (mgr.executeOnlyAll r sqls) ↔
      ∃ i, i + 2 < sqls.length ∧ i < 2 ^ 31 ∧
        (r.exec i).1 ≠ SQLITE_OK := by
  by_cases htwo : 2 ≤ sqls.length
  · unfold DBMgr.executeOnlyAll
    rw [executeFrom_iff (by decide) (Nat.zero_add _) htwo]
    simp
  · refine iff_of_false (not_inOrder_of_length_lt (by omega) mgr) ?_
    rintro ⟨i, hi, -, -⟩
    omega

/-- Every call of SQLite succeeds. -/
def successes : Replies where
  openCode := SQLITE_OK
  conn := 1
  exec := fun _ => (SQLITE_OK, [])
  closeCode := SQLITE_OK

/-- No statement, one, and two of which the first is not executed. -/
theorem not_executesInOrder :
    (DBMgr.init.executeOnlyAll successes []).1 = .undefined ∧
      (DBMgr.init.executeOnlyAll successes [ascii "BEGIN"]).1 =
        .undefined ∧
      (DBMgr.init.executeOnlyAll successes
        [ascii "BEGIN", ascii "COMMIT"]).2.calls =
          [.executed 0 (ascii "COMMIT") .given SQLITE_OK] ∧
      ∀ sqls ∈ [[], [ascii "BEGIN"], [ascii "BEGIN", ascii "COMMIT"]],
        ¬ InOrder sqls DBMgr.init
          (DBMgr.init.executeOnlyAll successes sqls) := by
  refine ⟨rfl, rfl, rfl, ?_⟩
  intro sqls hsqls
  simp only [List.mem_cons, List.not_mem_nil, or_false] at hsqls
  rcases hsqls with rfl | rfl | rfl
  · exact not_inOrder_of_length_lt (by decide) _
  · exact not_inOrder_of_length_lt (by decide) _
  · rw [DBMgr.executeOnlyAll, DBMgr.executeFrom_last (by decide)]
    exact not_inOrder_executeLast (by decide) 0 _

/-- The last of two or more statements is there. -/
theorem executeLast_defined
    (h : 2 ≤ sqls.length) (n : Nat) (mgr : DBMgr) :
    (mgr.executeLast r sqls n).1 ≠ .undefined := by
  have hsize : DBMgr.sizeSub sqls.length 1 = sqls.length - 1 :=
    if_pos (by omega)
  unfold DBMgr.executeLast
  rw [hsize, List.getElem?_eq_getElem (by omega)]
  dsimp only
  split_ifs
  · simp
  · simp

/-- The loop over two or more statements ends before the counter overflows. -/
theorem executeFrom_defined_iff
    {rest : List Bytes} {i : Nat}
    (hi : i < 2 ^ 31) (hlength : i + rest.length = sqls.length)
    (htwo : 2 ≤ rest.length) (mgr : DBMgr) :
    (mgr.executeFrom r sqls i rest).1 ≠ .undefined ↔
      sqls.length ≤ 2 ^ 31 + 1 ∨
        ∃ k, i ≤ k ∧ k < sqls.length ∧ k < 2 ^ 31 ∧
          (r.exec k).1 ≠ SQLITE_OK := by
  induction rest generalizing i mgr with
  | nil =>
      simp at htwo
  | cons sql rest ih =>
      rw [List.length_cons] at hlength htwo
      have hbound : DBMgr.sizeSub sqls.length 2 = sqls.length - 2 :=
        if_pos (by omega)
      by_cases hlast : i < DBMgr.sizeSub sqls.length 2
      · by_cases hcode : (r.exec i).1 = SQLITE_OK
        · have hne {k : Nat} (hfails : (r.exec k).1 ≠ SQLITE_OK) :
              k ≠ i := by
            rintro rfl
            exact hfails hcode
          by_cases hoverflow : i + 1 = 2 ^ 31
          · rw [DBMgr.executeFrom_overflow hlast hcode hoverflow]
            refine iff_of_false (fun h => h rfl) ?_
            rintro (hshort | ⟨k, hik, -, hk, hfails⟩)
            · omega
            · have hki := hne hfails
              omega
          · rw [DBMgr.executeFrom_next hlast hcode hoverflow,
              ih (by omega) (by omega) (by omega)]
            refine or_congr_right ⟨?_, ?_⟩
            · rintro ⟨k, hik, hk⟩
              exact ⟨k, by omega, hk⟩
            · rintro ⟨k, hik, hk, hlt, hfails⟩
              have hki := hne hfails
              exact ⟨k, by omega, hk, hlt, hfails⟩
        · rw [DBMgr.executeFrom_failed hlast hcode]
          exact iff_of_true (by simp)
            (Or.inr ⟨i, le_rfl, by omega, hi, hcode⟩)
      · rw [DBMgr.executeFrom_last hlast]
        exact iff_of_true (executeLast_defined (by omega) i mgr)
          (Or.inl (by omega))

/-- Two statements at least and no more than the counter reaches, or one that
fails before the counter leaves the list. -/
def Bounded (r : Replies) (sqls : List Bytes) : Prop :=
  (2 ≤ sqls.length ∧ sqls.length ≤ 2 ^ 31 + 1) ∨
    ∃ i, i < sqls.length ∧ i < 2 ^ 31 ∧ (r.exec i).1 ≠ SQLITE_OK

/-- The lists of statements that are left without undefined behaviour. -/
theorem executeOnlyAll_defined_iff
    (r : Replies) (sqls : List Bytes) (mgr : DBMgr) :
    (mgr.executeOnlyAll r sqls).1 ≠ .undefined ↔ Bounded r sqls := by
  unfold DBMgr.executeOnlyAll Bounded
  by_cases htwo : 2 ≤ sqls.length
  · rw [executeFrom_defined_iff (by decide) (Nat.zero_add _) htwo]
    simp [htwo]
  · have hzero : 0 < DBMgr.sizeSub sqls.length 2 := lt_sizeSub (by omega)
    cases sqls with
    | nil =>
        rw [DBMgr.executeFrom, if_pos hzero]
        simp
    | cons sql rest =>
        obtain rfl : rest = [] := by
          rw [List.length_cons] at htwo
          exact List.eq_nil_of_length_eq_zero (by omega)
        by_cases hcode : (r.exec 0).1 = SQLITE_OK
        · have hone : 0 + 1 < DBMgr.sizeSub [sql].length 2 :=
            show 1 < DBMgr.sizeSub 1 2 by decide
          rw [DBMgr.executeFrom_next hzero hcode (by decide),
            DBMgr.executeFrom, if_pos hone]
          simp [hcode]
        · rw [DBMgr.executeFrom_failed hzero hcode]
          simp [hcode]

end Lists

end DbConnection

end Ndns

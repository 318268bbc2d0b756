import Ndns.DbFiles
import Ndns.PlainResolutions
import Ndns.RegistrationRuns
import Ndns.UpdatedSites

/-!
# Name servers that are started

`NameServer::run` looks its zone up and stops if there is none.  The database that it
finds was written by registrations and updates.  If their names are plain, every
server that comes up is one whose records a resolver can find.

**Results.**
* `Site.up_run_iff`: a server comes up if its zone has been registered;
* `Site.run_eq_processEvents`: it is the server that handles Interests;
* `Site.run_ready`: what holds of a server that comes up;
* `plainNs_final`: the tables that registrations and updates leave.
-/

namespace Ndns

section Started

namespace Site

/-- `NameServer::run` on the file of its Interests, as far as the filters.  A server
that finds no zone stops, and an exception ends the process. -/
def run (S : Sqlite) (routed zone : Name) (forwardingHint : Option Name)
    (disk : Disk) : Site :=
  match (ZoneMgr.lookupId S (Zone.ofName zone)).run disk with
  | .ok (zone, _) disk =>
      { server := NameServer.ofZone zone
        routed := routed
        forwardingHint := forwardingHint
        disk := disk
        up := decide (zone.id ≠ 0) }
  | .error _ disk =>
      { server := NameServer.ofZone (Zone.ofName zone)
        routed := routed
        forwardingHint := forwardingHint
        disk := disk
        up := false }

variable {S : Sqlite} {routed zone : Name} {forwardingHint : Option Name}
variable {disk : Disk}

@[simp] theorem routed_run :
    (run S routed zone forwardingHint disk).routed = routed := by
  unfold run
  split <;> rfl

@[simp] theorem forwardingHint_run :
    (run S routed zone forwardingHint disk).forwardingHint =
      forwardingHint := by
  unfold run
  split <;> rfl

/-- What a start finds, and leaves. -/
theorem run_cases :
    (run S routed zone forwardingHint disk).disk.db = disk.db ∧
      ((run S routed zone forwardingHint disk).up = true →
        (run S routed zone forwardingHint disk).server.zone =
          ⟨(disk.db.zoneIds zone).getLastD 0, zone⟩ ∧
        (disk.db.zoneIds zone).getLastD 0 ≠ 0) := by
  have hlookup := ZoneMgr.lookupId_triple S (Zone.ofName zone) disk disk rfl
  unfold run
  cases hrun : (ZoneMgr.lookupId S (Zone.ofName zone)).run disk with
  | ok x d =>
      obtain ⟨found, n⟩ := x
      rw [hrun] at hlookup
      obtain ⟨rfl, hfound⟩ := hlookup
      obtain ⟨rfl, -⟩ := Prod.mk.inj hfound
      exact ⟨rfl, fun hup => ⟨rfl, of_decide_eq_true hup⟩⟩
  | error e d =>
      rw [hrun] at hlookup
      obtain rfl : d = disk.next := hlookup
      exact ⟨rfl, fun hup => absurd hup (by simp)⟩

/-- The id of a zone that is stored is not zero. -/
theorem zoneIds_ne_zero_iff {db : Db} {zone : Name} :
    (db.zoneIds zone).getLastD 0 ≠ 0 ↔
      ∃ z ∈ db.zones.rows, z.2 = zone.toUri := by
  constructor
  · intro hne
    have hlength : (db.zoneIds zone).length ≠ 0 := by
      intro hnil
      rw [List.length_eq_zero_iff.mp hnil] at hne
      exact hne rfl
    obtain ⟨z, hz, hname, -⟩ := Db.exists_zone hlength 0
    exact ⟨z, hz, hname⟩
  · rintro ⟨z, hz, hname⟩
    have hmem : z.1 ∈ db.zoneIds zone :=
      List.mem_map_of_mem (List.mem_filter.mpr ⟨hz, by simpa using hname⟩)
    obtain ⟨z', hz', -, hid⟩ := Db.exists_zone
      (List.length_pos_of_mem hmem).ne' 0
    have := db.zones.id_pos z' hz'
    omega

/-- A server comes up exactly if its zone is stored. -/
theorem up_run_iff (hfails : ∀ n, S.fails n = false) :
    (run S routed zone forwardingHint disk).up = true ↔
      ∃ z ∈ disk.db.zones.rows, z.2 = zone.toUri := by
  have hperforms : Performs S (ZoneMgr.lookupId S (Zone.ofName zone))
      [.selectZoneId zone] disk _ _ :=
    ZoneMgr.performs_lookupId (Zone.ofName zone)
  have hlookup := hperforms disk rfl
  rw [← zoneIds_ne_zero_iff]
  unfold run
  cases hrun : (ZoneMgr.lookupId S (Zone.ofName zone)).run disk with
  | ok x d =>
      obtain ⟨found, n⟩ := x
      rw [hrun] at hlookup
      obtain ⟨-, hfound, -⟩ := hlookup
      obtain ⟨rfl, -⟩ := Prod.mk.inj hfound
      exact decide_eq_true_iff
  | error e d =>
      rw [hrun] at hlookup
      exfalso
      rcases hlookup with ⟨d₀, -, hstops⟩ | ⟨-, hfalse⟩
      · -- the only statement is executed
        have hnone := hstops.execute_eq_none
        simp only [Sqlite.execute, Sqlite.step, hfails, true_and] at hnone
        rw [if_pos (show Stmt.Clean (.selectZoneId zone) from trivial)]
          at hnone
        simp [Stmt.run] at hnone
      · exact hfalse

open DbFiles in
/-- A server on the default file that comes up handles the Interests of
`NameServer::run`, with the zone that it has found and behind its look-up. -/
theorem run_eq_processEvents
    {P : NameParser} {K : PacketCodec} {T : Bytes → Sqlite} {files : Files}
    (interests : List (Version × Interest))
    (hup : (run (T localFile) routed zone forwardingHint
      (files localFile)).up = true) :
    DbFiles.NameServer.run P T K (DbFiles.NameServer.init zone localFile)
        interests files =
      DbFiles.NameServer.processEvents P T K
        ⟨(run (T localFile) routed zone forwardingHint
          (files localFile)).server, DBMgr.init⟩ interests
        (Function.update files localFile (run (T localFile) routed zone
          forwardingHint (files localFile)).disk) := by
  have hlookup : ((DbFiles.NameServer.init zone localFile).zoneMgr.execute T
      (fun S => ZoneMgr.lookupId S (DbFiles.NameServer.init zone
        localFile).zone)).run files =
      (Effect.focus localFile (ZoneMgr.lookupId (T localFile)
        (Zone.ofName zone))).run files :=
    rfl
  rw [DbFiles.NameServer.run, hlookup, Effect.run_focus]
  unfold run at hup ⊢
  cases hrun : (ZoneMgr.lookupId (T localFile) (Zone.ofName zone)).run
      (files localFile) with
  | ok x d =>
      rfl
  | error e d =>
      rw [hrun] at hup
      exact absurd hup (by simp)

end Site

end Started

/-- All NS records are at plain labels. -/
def Db.PlainNs (db : Db) : Prop :=
  ∀ s ∈ db.rrsets.rows, s.2.type = RRType.NS.toString →
    ∃ n : Name, n.Plain ∧ s.2.label = n.toUri

section Delegations

variable {S : Sqlite} {db db' : Db} {disk : Disk}

theorem Db.PlainNs.plainDelegations (h : db.PlainNs) (zoneId : Nat) :
    PlainDelegations db zoneId :=
  fun s hs _ htype => h s hs htype

/-- A server that comes up on such tables is one whose records can be found. -/
theorem Site.run_ready
    {routed zone : Name} {forwardingHint : Option Name}
    (hrouted : routed.Plain)
    (hhint : ∀ hint, forwardingHint = some hint → hint.Plain)
    (hconsistent : disk.db.Consistent) (hns : disk.db.PlainNs)
    (hup : (Site.run S routed zone forwardingHint disk).up = true) :
    (Site.run S routed zone forwardingHint disk).Ready := by
  have hdb : (Site.run S routed zone forwardingHint disk).disk.db = disk.db :=
    Site.run_cases.1
  obtain ⟨hserver, hne⟩ := Site.run_cases.2 hup
  refine ⟨?_, ?_, ?_, ?_, ?_⟩
  · rw [Site.routed_run]
    exact hrouted
  · rw [Site.forwardingHint_run]
    exact hhint
  · rw [hdb]
    exact hconsistent
  · rw [hdb]
    exact hns.plainDelegations _
  · rw [hserver]
    exact hne

/-- What every statement keeps is kept by statements in a row. -/
theorem Db.keeps_of_behind
    {I : Db → Prop} {stmts : List Stmt}
    (hkeeps : ∀ stmt ∈ stmts, ∀ db r, I db → stmt.run db = some r → I r.db)
    (h : db.behind stmts = some db') (hdb : I db) : I db' := by
  induction stmts generalizing db with
  | nil =>
      obtain rfl := Option.some.inj h
      exact hdb
  | cons stmt stmts ih =>
      rw [Db.behind_cons, Option.bind_eq_some_iff] at h
      obtain ⟨r, hr, hrest⟩ := h
      exact ih (fun x hx => hkeeps x (List.mem_cons_of_mem stmt hx)) hrest
        (hkeeps stmt (List.mem_cons_self ..) db r hdb hr)

/-- It is kept by a call, wherever this ends. -/
theorem Performs.keeps
    {α : Type} {m : DbM α} {stmts : List Stmt} {Q : α → Disk → Prop}
    {E : Prop} {I : Db → Prop} (h : Performs S m stmts disk Q E)
    (hkeeps : ∀ stmt ∈ stmts, ∀ db r, I db → stmt.run db = some r → I r.db)
    (hdb : I disk.db) :
    I (Effect.behind m disk).db := by
  have hends := h disk rfl
  unfold Effect.behind
  cases hrun : m.run disk with
  | ok a d =>
      rw [hrun] at hends
      exact Db.keeps_of_behind hkeeps (Sqlite.execute_db hends.1) hdb
  | error e d =>
      rw [hrun] at hends
      rcases hends with ⟨d₀, rfl, done, stmt, rest, rfl, hdone, -⟩ |
          ⟨hall, -⟩
      · have hdone' : I d₀.db := Db.keeps_of_behind
          (fun x hx => hkeeps x (List.mem_append_left _ hx))
          (Sqlite.execute_db hdone) hdb
        exact hdone'
      · exact Db.keeps_of_behind hkeeps (Sqlite.execute_db hall) hdb

/-- The statement adds NS records at a plain label only. -/
def Stmt.PlainNs : Stmt → Prop
  | .insertRrset _ label _ type => type = .NS → label.Plain
  | _ => True

theorem Stmt.PlainNs.keeps
    {stmt : Stmt} (h : stmt.PlainNs) {r : Result} (hdb : db.PlainNs)
    (hrun : stmt.run db = some r) : r.db.PlainNs := by
  have hsame {db' : Db} (hsets : db'.rrsets = db.rrsets) : db'.PlainNs := by
    intro s hs
    rw [hsets] at hs
    exact hdb s hs
  cases stmt with
  | insertZone name =>
      obtain ⟨⟨n, db₁⟩, hins, rfl⟩ := Option.map_eq_some_iff.mp hrun
      exact hsame (Db.insertZone_eq_some hins).2.1
  | insertRrset zoneId label clazz type =>
      obtain ⟨⟨n, db₁⟩, hins, rfl⟩ := Option.map_eq_some_iff.mp hrun
      intro s hs htype
      rw [(Db.insertRrset_eq_some hins).2.2.1] at hs
      rcases List.mem_append.mp hs with hs | hs
      · exact hdb s hs htype
      · rw [List.mem_singleton.mp hs] at htype ⊢
        exact ⟨label, h (RRType.toString_injective htype), rfl⟩
  | insertRr rrsetId ttl rrData =>
      obtain ⟨⟨n, db₁⟩, hins, rfl⟩ := Option.map_eq_some_iff.mp hrun
      exact hsame (Db.insertRr_eq_some hins).2.1
  | _ =>
      obtain rfl := Option.some.inj hrun
      exact hsame rfl

end Delegations

namespace Call

variable {P : NameParser} {S : Sqlite} {disk : Disk}

/-- A call for plain names. -/
def PlainNs : Call → Prop
  | tryRegister register =>
      register.zone.authorizedName ≠ register.subzone.authorizedName →
        register.rrType = .NS → register.subLabel.Plain
  | update _ queryUpdate =>
      ∀ rr ∈ queryUpdate.update.rrs.head?,
        rr.rrset.type = .NS → rr.rrset.label.Plain

/-- The rrsets of a registration. -/
theorem plainNs_plan
    {register : ZoneRegister} (hplain : (tryRegister register).PlainNs) :
    ∀ stmt ∈ register.plan disk.db, stmt.PlainNs := by
  intro stmt hstmt
  rw [ZoneRegister.plan] at hstmt
  split_ifs at hstmt with htype hregisters
  · cases hstmt
  · rcases List.mem_cons.mp hstmt with rfl | hstmt
    · trivial
    · rw [ZoneRegister.insertions] at hstmt
      split_ifs at hstmt with htop
      · simp only [ZoneRegister.topInsertions, List.mem_cons,
          List.not_mem_nil, or_false] at hstmt
        rcases hstmt with rfl | rfl | rfl
        · trivial
        · exact fun htype => absurd htype (by decide)
        · trivial
      · simp only [ZoneRegister.zoneInsertions, List.cons_append,
          List.nil_append, List.mem_cons, List.mem_map] at hstmt
        rcases hstmt with rfl | rfl | rfl | ⟨a, -, rfl⟩
        · exact fun htype => absurd htype (by decide)
        · exact hplain htop
        · trivial
        · trivial
  · obtain rfl := List.mem_singleton.mp hstmt
    trivial

theorem tryRegister_plainNs
    {register : ZoneRegister} (hplain : (tryRegister register).PlainNs)
    (hallowed : (tryRegister register).Allowed disk) (h : disk.db.PlainNs) :
    ((tryRegister register).run P S disk).db.PlainNs := by
  have hperforms : Performs S (register.tryRegister P S)
      (register.plan disk.db) disk
      (fun x _ => x.1 = decide (register.Registers disk.db)) False := by
    unfold ZoneRegister.tryRegister
    split_ifs with htop
    · exact ZoneRegister.performs_doRegisterTop htop
    · exact ZoneRegister.performs_doRegisterZone htop (hallowed htop).1
  exact hperforms.keeps
    (fun stmt hstmt _ _ => (plainNs_plan hplain stmt hstmt).keeps) h

theorem update_plainNs
    {zone : Zone} {queryUpdate : QueryUpdate}
    (hplain : (update zone queryUpdate).PlainNs)
    (hallowed : (update zone queryUpdate).Allowed disk)
    (h : disk.db.PlainNs) :
    ((update zone queryUpdate).run P S disk).db.PlainNs := by
  unfold run
  cases hrrs : queryUpdate.update.rrs with
  | nil =>
      simp only [DyndnsMgr.update, hrrs]
      exact h
  | cons rr rrs =>
      obtain ⟨hquote, hclass, -⟩ := hallowed rr (by simp [hrrs])
      have hlabel := hplain rr (by simp [hrrs])
      have hchanged (db : Db)
          (hdb : DyndnsMgr.Changed S zone rr disk db) : db.PlainNs := by
        intro s hs htype
        rcases hdb.rrsets s hs with hs | hnew
        · exact h s hs htype
        · rw [hnew] at htype ⊢
          exact ⟨rr.rrset.label, hlabel (RRType.toString_injective htype),
            rfl⟩
      exact DyndnsMgr.update_of_triple (P := Db.PlainNs) hrrs
        ((DyndnsMgr.updateRr_triple zone hquote hclass disk).conseq
          (fun _ hs => hs) (fun _ _ hs => hchanged _ hs)
          (fun _ hs => hchanged _ hs))

/-- What registrations and updates leave of an empty database. -/
theorem plainNs_final
    {calls : List Call} (hempty : disk.db = Db.empty)
    (hrun : Machine.Along (run P S) Allowed calls disk)
    (hplain : ∀ call ∈ calls, call.PlainNs) :
    (Machine.final (run P S) calls disk).db.Sound ∧
      (Machine.final (run P S) calls disk).db.PlainNs := by
  have hstart : disk.db.Sound ∧ disk.db.PlainNs := by
    rw [hempty]
    exact ⟨Db.Sound.empty, by simp [Db.PlainNs, Db.empty]⟩
  clear hempty
  induction calls generalizing disk with
  | nil =>
      exact hstart
  | cons call calls ih =>
      obtain ⟨hallowed, hrest⟩ := hrun
      refine ih hrest (fun c hc => hplain c (List.mem_cons_of_mem call hc)) ?_
      have hcall := hplain call (List.mem_cons_self ..)
      cases call with
      | tryRegister register =>
          exact ⟨tryRegister_keeps hallowed hstart.1,
            tryRegister_plainNs hcall hallowed hstart.2⟩
      | update zone queryUpdate =>
          exact ⟨update_keeps hallowed hstart.1,
            update_plainNs hcall hallowed hstart.2⟩

end Call

end Ndns

import Ndns.NameServerReplies
import Ndns.UpdateRuns

/-!
# Updates over a lossy network

`dynamic-dns-update.cpp`: a client sends its Interest again when it times out, until
it has been sent `m_interestTriedMax` times.  The network loses copies, keeps them
back and hands them over more than once.  The server applies every copy that it
gets: it has a comment where a sequence number would be checked.

**Results.**
* `bounded_final`: no client sends its Interest too often;
* `receive_represents`: what a copy does to the records;
* `same_throughout_iff`: the records are those of the first deliveries exactly if
  every later copy finds its update in effect.
-/

namespace Ndns

/-- No exception leaves the call. -/
def Outcome.isReturned {α : Type} : Outcome α → Bool
  | .returned _ => true
  | _ => false

/-- `DynamicDNSUpdate` with the Interest that `send` builds. -/
structure UpdateClient (K : PacketCodec) where
  zone : Zone
  rrLabel : Name
  rrType : RRType
  rrData : Bytes
  action : UpdateAction
  inner : Version
  outer : Version
  interest : Interest
  interest_eq : ∃ tool,
    (DynamicDNSUpdate.init zone rrLabel rrType rrData action).toInterest K
      inner outer = some (interest, tool)
  fits : DynamicDNSUpdate.Fits K zone rrLabel rrType rrData action inner
  interestTriedMax : Nat
  interestTriedNum : Nat
  stopped : Bool

namespace UpdateClient

variable {K : PacketCodec} (c : UpdateClient K)

/-- The RR of a client, as the server reads it. -/
def received (label : Name) (type : RRType) : RR :=
  Response.received label type (DynamicDNSUpdate.init c.zone c.rrLabel
    c.rrType c.rrData c.action).record

/-- `DynamicDNSUpdate::send(const Interest&)` -/
def send : UpdateClient K :=
  { c with interestTriedNum := c.interestTriedNum + 1 }

/-- `DynamicDNSUpdate::onTimeout`: the copy that is sent, if one is. -/
def onTimeout : List Interest × UpdateClient K :=
  if c.interestTriedNum ≥ c.interestTriedMax then
    ([], { c with stopped := true })
  else
    ([c.interest], c.send)

/-- `DynamicDNSUpdate::onData` -/
def onData : UpdateClient K :=
  { c with stopped := true }

/-- What happens to a client. -/
inductive Event where
  | run
  | timeout
  /-- A reply comes back. -/
  | data

/-- The copies that a client sends, and the client behind them. -/
def handle : Event → List Interest × UpdateClient K
  | .run =>
      if c.interestTriedNum = 0 then ([c.interest], c.send) else ([], c)
  | .timeout =>
      if c.interestTriedNum > 0 ∧ c.stopped = false then c.onTimeout
      else ([], c)
  | .data => ([], c.onData)

/-- A client keeps its Interest. -/
@[simp] theorem interest_handle (event : Event) :
    (c.handle event).2.interest = c.interest := by
  cases event with
  | run =>
      simp only [handle]
      split_ifs <;> rfl
  | timeout =>
      simp only [handle, onTimeout]
      split_ifs <;> rfl
  | data =>
      rfl

/-- What a client sends is its Interest. -/
theorem mem_handle
    {event : Event} {interest : Interest}
    (h : interest ∈ (c.handle event).1) : interest = c.interest := by
  cases event with
  | run =>
      simp only [handle] at h
      split_ifs at h
      · exact List.mem_singleton.mp h
      · cases h
  | timeout =>
      simp only [handle, onTimeout] at h
      split_ifs at h
      · cases h
      · exact List.mem_singleton.mp h
      · cases h
  | data =>
      cases h

/-- A client sends its Interest once, and again while it may. -/
def Bounded : Prop :=
  c.interestTriedNum ≤ max 1 c.interestTriedMax

variable {c} in
theorem Bounded.handle
    (h : c.Bounded) (event : Event) : (c.handle event).2.Bounded := by
  cases event with
  | run =>
      simp only [UpdateClient.handle]
      split_ifs with hzero
      · have hone : c.send.interestTriedNum = 1 := congrArg (· + 1) hzero
        exact hone.trans_le (Nat.le_max_left _ _)
      · exact h
  | timeout =>
      simp only [UpdateClient.handle, onTimeout]
      split_ifs with hwaits hmax
      · exact h
      · exact (Nat.lt_of_not_le hmax).trans_le (Nat.le_max_right _ _)
      · exact h
  | data =>
      exact h

variable {c}

theorem handle_run (h : c.interestTriedNum = 0) :
    c.handle .run = ([c.interest], c.send) := by
  rw [handle, if_pos h]

theorem handle_timeout
    (hsent : c.interestTriedNum > 0) (hwaits : c.stopped = false)
    (hmax : c.interestTriedNum < c.interestTriedMax) :
    c.handle .timeout = ([c.interest], c.send) := by
  rw [handle, if_pos ⟨hsent, hwaits⟩, onTimeout, if_neg hmax.not_ge]

end UpdateClient

/-- Clients, the copies under way and the server. -/
structure Network (K : PacketCodec) where
  clients : List (UpdateClient K)
  flying : List Interest
  disk : Disk
  /-- The server handles Interests. -/
  up : Bool
  /-- The Interests that the server got, in the order of their first copies. -/
  firsts : List Interest

/-- What happens to a client or to a copy. -/
inductive Event where
  | client (i : Nat) (event : UpdateClient.Event)
  /-- A copy is handed over, and may be handed over again. -/
  | deliver (n : Nat) (version : Version)
  | lose (n : Nat)

namespace Network

variable (P : NameParser) (S : Sqlite) {K : PacketCodec}
variable (server : NameServer)

/-- Before any client has started. -/
def start (clients : List (UpdateClient K)) (disk : Disk) :
    Network K where
  clients := clients
  flying := []
  disk := disk
  up := true
  firsts := []

/-- A client acts, and copies are sent. -/
def act (w : Network K) (i : Nat)
    (copies : List Interest) (c : UpdateClient K) : Network K :=
  { w with
    clients := w.clients.set i c
    flying := w.flying ++ copies }

/-- The server gets a copy.  An exception ends it. -/
def receive (version : Version) (interest : Interest)
    (w : Network K) : Network K :=
  let handled :=
    NameServer.onInterest P S K server version interest w.disk
  { w with
    disk := handled.2
    up := handled.1.isReturned
    firsts := Machine.note interest w.firsts }

def step (event : Event) (w : Network K) : Network K :=
  match event with
  | .client i event =>
      match w.clients[i]? with
      | none => w
      | some c => w.act i (c.handle event).1 (c.handle event).2
  | .deliver n version =>
      match w.flying[n]? with
      | none => w
      | some interest =>
          if w.up then w.receive P S server version interest else w
  | .lose n => { w with flying := w.flying.eraseIdx n }

/-- What an Interest is meant to do to the records. -/
def applyInterest (K : PacketCodec) (interest : Interest) (m : Records) :
    Records :=
  match QueryUpdate.init.fromInterest P K interest with
  | none => m
  | some (_, queryUpdate) =>
      Request.apply server.zone (.update queryUpdate) m

/-- The records are those of the first deliveries, each applied once. -/
def Same (m : Records) (w : Network K) : Prop :=
  ∀ k, w.disk.db.dataAt k =
    (Machine.final (applyInterest P server K) w.firsts m k).elems

/-- The RR of an Interest, if its update is understood, is in effect. -/
def Absorbed (interest : Interest) (w : Network K) : Prop :=
  ∀ understood queryUpdate,
    QueryUpdate.init.fromInterest P K interest =
      some (understood, queryUpdate) →
    ∀ rr ∈ queryUpdate.update.rrs,
      DyndnsMgr.InEffect server.zone rr w.disk.db

/-- The update of a client is carried out if it arrives: none of the statements
that it sends fails. -/
structure Carried (w : Network K) (c : UpdateClient K) : Prop where
  clean : Stmt.CleanText c.rrData
  supported : c.action ∈ [UpdateAction.NONE, .ADD, .REMOVE, .REPLACE_ALL]
  fails : ∀ understood queryUpdate,
    QueryUpdate.init.fromInterest P K c.interest =
      some (understood, queryUpdate) →
    ∀ rr ∈ queryUpdate.update.rrs,
      ∀ n < (DyndnsMgr.plan w.disk.db server.zone rr).length,
        S.fails (w.disk.executed + n) = false
  room : ¬ w.disk.db.Full

/-- The server is up and gets a copy. -/
def Gets (event : Event) (w : Network K) (interest : Interest) : Prop :=
  w.up = true ∧ ∃ n version, event = .deliver n version ∧
    w.flying[n]? = some interest

/-- Every copy that arrives is one of an update that is carried out. -/
def CarriedOut (event : Event) (w : Network K) : Prop :=
  ∀ interest, Gets event w interest →
    ∀ c ∈ w.clients, c.interest = interest → Carried P S server w c

/-- A copy that arrives again finds its update in effect. -/
def LateInEffect (event : Event) (w : Network K) : Prop :=
  ∀ interest, Gets event w interest → interest ∈ w.firsts →
    Absorbed P server interest w

section Interests

variable {P} (c : UpdateClient K)

/-- The Interest of a client. -/
theorem interest_name :
    c.interest = ⟨updateName c.zone.authorizedName
      (componentOfBlock (K.wireEncode (DynamicDNSUpdate.sent c.zone
        c.rrLabel c.rrType c.rrData c.action c.inner))) c.outer, 4000⟩ := by
  obtain ⟨tool, hinterest⟩ := c.interest_eq
  obtain ⟨tool', hsend⟩ := DynamicDNSUpdate.toInterest_init c.outer c.fits
  rw [hsend, Option.some.injEq, Prod.mk.injEq] at hinterest
  exact hinterest.1.symm

/-- An Interest that is understood holds the RR of its client, as one that comes
off the wire. -/
theorem exists_received
    {understood : Bool} {queryUpdate : QueryUpdate}
    (hread : QueryUpdate.init.fromInterest P K c.interest =
      some (understood, queryUpdate)) :
    ∃ label type, queryUpdate.update.rrs = [c.received label type] := by
  rw [interest_name] at hread
  obtain ⟨-, r, -, hrrs⟩ := (DynamicDNSUpdate.ready_init c.zone c.rrLabel
    c.rrType c.rrData c.action).rrs_of_fromInterest c.fits hread
  exact ⟨r.rrLabel, r.rrType, hrrs⟩

end Interests

section Effects

variable {P S server} {w : Network K} {c : UpdateClient K} {m : Records}

/-- SQLite without its failures. -/
def unfailing (S : Sqlite) : Sqlite :=
  { S with fails := fun _ => false }

/-- Of an update only the statements that it sends have to succeed. -/
theorem exists_updateRr
    {rr : RR} {disk : Disk} (hzone : server.zone.id ≠ 0)
    (hclient : rr.ClientBuilt) (h : Represents disk.db m)
    (hroom : ¬ disk.db.Full)
    (hfails : ∀ n < (DyndnsMgr.plan disk.db server.zone rr).length,
      S.fails (disk.executed + n) = false) :
    ∃ x d, (DyndnsMgr.updateRr S server.zone rr).run disk = .ok x d ∧
      Represents d.db
        (m.update rr.updateAction (rr.keyIn server.zone) rr.rrData) := by
  have hupdated (T : Sqlite) (hT : ∀ n, T.fails n = false) (x : RR)
      (d : Disk)
      (hrun : (DyndnsMgr.updateRr T server.zone rr).run disk = .ok x d) :
      DyndnsMgr.Updated server.zone rr m x d :=
    (DyndnsMgr.updateRr_refines hT hzone hclient h).ok rfl hrun
  have hfull (T : Sqlite) (hT : ∀ n, T.fails n = false) (e : Bytes)
      (d : Disk)
      (hrun : (DyndnsMgr.updateRr T server.zone rr).run disk =
        .error e d) :
      disk.db.Full :=
    (DyndnsMgr.updateRr_refines hT hzone hclient h).error rfl hrun
  have hsends (T : Sqlite) :
      Sends T (fun S => DyndnsMgr.updateRr S server.zone rr)
        (DyndnsMgr.plan disk.db server.zone rr) disk (fun _ _ => True) :=
    DyndnsMgr.sends_updateRr hclient.supported
  have hsame : S.execute (DyndnsMgr.plan disk.db server.zone rr) disk =
      (unfailing S).execute (DyndnsMgr.plan disk.db server.zone rr) disk :=
    Sqlite.execute_congr hfails
  have hunfailing := hsends (unfailing S)
  have hsent := hsends S
  unfold Sends at hunfailing hsent
  rw [hsame] at hsent
  cases hexecute : (unfailing S).execute
      (DyndnsMgr.plan disk.db server.zone rr) disk with
  | none =>
      rw [hexecute] at hunfailing
      obtain ⟨e, d, hrun⟩ := hunfailing
      exact absurd (hfull _ (fun _ => rfl) e d hrun) hroom
  | some d =>
      rw [hexecute] at hunfailing hsent
      obtain ⟨x, -, hrun⟩ := hunfailing
      obtain ⟨x', -, hrun'⟩ := hsent
      have hrep := (hupdated _ (fun _ => rfl) x d (hrun S.foreign)).1
      exact ⟨x', d, hrun' S.foreign, hrep⟩

/-- What a copy does to the records. -/
theorem receive_represents
    (hzone : server.zone.id ≠ 0) (hcarried : Carried P S server w c)
    (h : Represents w.disk.db m) (version : Version) :
    Represents (w.receive P S server version c.interest).disk.db
      (applyInterest P server K c.interest m) := by
  have hmatch : (matchUpdateName c.interest.name.toUri).isSome = true := by
    rw [interest_name]
    exact matchUpdateName_isSome _ _ _
  simp only [receive, NameServer.onInterest, if_pos hmatch,
    NameServer.onUpdate, applyInterest]
  cases hread : QueryUpdate.init.fromInterest P K c.interest with
  | none =>
      exact h
  | some x =>
      obtain ⟨understood, queryUpdate⟩ := x
      obtain ⟨label, type, hone⟩ := exists_received c hread
      have hclient : (c.received label type).ClientBuilt :=
        ⟨rfl, rfl, hcarried.clean, hcarried.supported⟩
      obtain ⟨x, d, hrun, hrep⟩ := exists_updateRr hzone hclient h
        hcarried.room (hcarried.fails understood queryUpdate hread
          (c.received label type) (by simp [hone]))
      simp only [NameServer.update_setUpdateZone hone, Request.apply, hone,
        hrun]
      exact hrep

/-- An update changes nothing exactly if it is in effect. -/
theorem update_eq_self_iff
    {db : Db} {rr : RR} {zone : Zone} (h : Represents db m)
    (hsupported : DyndnsMgr.Supported rr) :
    m.update rr.updateAction (rr.keyIn zone) rr.rrData = m ↔
      DyndnsMgr.InEffect zone rr db := by
  have hshown : DyndnsMgr.shown zone rr db = (m (rr.keyIn zone)).elems :=
    (Db.dataAt_eq h.consistent (rr.keyIn zone)).symm.trans (h.dataAt_eq _)
  unfold Records.update DyndnsMgr.InEffect
  rw [hshown]
  cases haction : rr.updateAction with
  | NONE =>
      exact iff_of_true rfl trivial
  | ADD =>
      exact Function.update_eq_self_iff.trans OrderedSet.add_eq_self_iff
  | REMOVE =>
      exact Function.update_eq_self_iff.trans OrderedSet.remove_eq_self_iff
  | REPLACE_ALL =>
      exact Function.update_eq_self_iff.trans OrderedSet.single_eq_iff
  | REPLACE =>
      simp [DyndnsMgr.Supported, haction] at hsupported
  | UNKNOWN =>
      simp [DyndnsMgr.Supported, haction] at hsupported

/-- A copy of an update changes nothing exactly if the update is in effect. -/
theorem applyInterest_eq_self_iff
    (hcarried : Carried P S server w c) (h : Represents w.disk.db m) :
    applyInterest P server K c.interest m = m ↔
      Absorbed P server c.interest w := by
  unfold applyInterest Absorbed
  cases hread : QueryUpdate.init.fromInterest P K c.interest with
  | none =>
      simp
  | some x =>
      obtain ⟨understood, queryUpdate⟩ := x
      obtain ⟨label, type, hone⟩ := exists_received c hread
      have hsupported : DyndnsMgr.Supported (c.received label type) :=
        hcarried.supported
      simp only [Request.apply, hone]
      rw [update_eq_self_iff h hsupported]
      constructor
      · rintro heffect understood' queryUpdate' heq rr' hrr'
        obtain ⟨-, rfl⟩ := Prod.mk.inj (Option.some.inj heq)
        rw [hone, List.mem_singleton] at hrr'
        exact hrr' ▸ heffect
      · intro heffect
        exact heffect understood queryUpdate rfl _ (by simp [hone])

end Effects

section Runs

variable {P S server} {w : Network K} {event : Event}

theorem step_client
    {i : Nat} {c : UpdateClient K} (hc : w.clients[i]? = some c)
    (event : UpdateClient.Event) :
    step P S server (.client i event) w =
      w.act i (c.handle event).1 (c.handle event).2 := by
  simp only [step, hc]

variable (P S server) in
/-- Only the clients act for themselves. -/
theorem bounded_step
    (event : Event) (h : ∀ c ∈ w.clients, c.Bounded) :
    ∀ c ∈ (step P S server event w).clients, c.Bounded := by
  cases event with
  | client i event =>
      cases hc : w.clients[i]? with
      | none =>
          simpa only [step, hc] using h
      | some c =>
          rw [step_client hc]
          intro c' hc'
          rcases List.mem_or_eq_of_mem_set hc' with hold | rfl
          · exact h c' hold
          · exact (h c (List.mem_of_getElem? hc)).handle event
  | deliver n version =>
      simp only [step]
      cases w.flying[n]? with
      | none =>
          exact h
      | some interest =>
          dsimp only
          split_ifs
          · exact h
          · exact h
  | lose n =>
      exact h

variable (P S server) in
/-- No client sends its Interest too often. -/
theorem bounded_final
    (events : List Event) (h : ∀ c ∈ w.clients, c.Bounded) :
    ∀ c ∈ (Machine.final (step P S server) events w).clients,
      c.Bounded :=
  Machine.final_invariant (I := fun w : Network K => ∀ c ∈ w.clients, c.Bounded)
    (fun event _ h => bounded_step P S server event h) events h

variable (P S server) in
/-- What a step does to the server. -/
theorem step_cases (event : Event) (w : Network K) :
    (∃ version interest, Gets event w interest ∧
      step P S server event w =
        w.receive P S server version interest) ∨
    ((∀ interest, ¬ Gets event w interest) ∧
      (step P S server event w).disk = w.disk ∧
      (step P S server event w).firsts = w.firsts) := by
  cases event with
  | client i event =>
      refine Or.inr ⟨fun _ h => ?_, ?_⟩
      · obtain ⟨-, n, version, heq, -⟩ := h
        cases heq
      · simp only [step]
        cases w.clients[i]? <;> exact ⟨rfl, rfl⟩
  | deliver n version =>
      cases hflying : w.flying[n]? with
      | none =>
          refine Or.inr ⟨fun _ h => ?_, by simp [step, hflying]⟩
          obtain ⟨-, n', version', heq, hgets⟩ := h
          cases heq
          rw [hflying] at hgets
          cases hgets
      | some interest =>
          by_cases hup : w.up = true
          · exact Or.inl ⟨version, interest,
              ⟨hup, n, version, rfl, hflying⟩, by simp [step, hflying, hup]⟩
          · refine Or.inr ⟨fun _ h => hup h.1, ?_⟩
            simp [step, hflying, hup]
  | lose n =>
      refine Or.inr ⟨fun _ h => ?_, rfl, rfl⟩
      obtain ⟨-, n', version, heq, -⟩ := h
      cases heq

theorem Gets.unique
    {x y : Interest} (hx : Gets event w x) (hy : Gets event w y) :
    x = y := by
  obtain ⟨-, n, version, rfl, hn⟩ := hx
  obtain ⟨-, n', version', heq, hn'⟩ := hy
  cases heq
  exact Option.some.inj (hn.symm.trans hn')

/-- Every copy under way is one of a client, and the tables are consistent. -/
structure Sound (w : Network K) : Prop where
  consistent : w.disk.db.Consistent
  flying : ∀ interest ∈ w.flying,
    interest ∈ w.clients.map UpdateClient.interest

/-- A client keeps its Interest. -/
theorem map_interest_act
    {i : Nat} {c c' : UpdateClient K} (hc : w.clients[i]? = some c)
    (hsame : c'.interest = c.interest) (copies : List Interest) :
    (w.act i copies c').clients.map UpdateClient.interest =
      w.clients.map UpdateClient.interest := by
  obtain ⟨hi, rfl⟩ := List.getElem?_eq_some_iff.mp hc
  have hmap : i < (w.clients.map UpdateClient.interest).length := by
    simpa using hi
  rw [act, List.map_set, hsame, ← List.getElem_map UpdateClient.interest]
  exact List.set_getElem_self hmap

theorem Sound.act
    (h : w.Sound) {i : Nat} {c c' : UpdateClient K}
    (hc : w.clients[i]? = some c) (hsame : c'.interest = c.interest)
    {copies : List Interest} (hcopies : ∀ x ∈ copies, x = c.interest) :
    (w.act i copies c').Sound where
  consistent := h.consistent
  flying := by
    rw [map_interest_act hc hsame]
    intro x hx
    rcases List.mem_append.mp hx with hx | hx
    · exact h.flying x hx
    · rw [hcopies x hx]
      exact List.mem_map_of_mem (List.mem_of_getElem? hc)

/-- A copy that the server gets is one of a client. -/
theorem Sound.exists_client
    (h : w.Sound) {interest : Interest} (hgets : Gets event w interest) :
    ∃ c ∈ w.clients, c.interest = interest := by
  obtain ⟨-, n, version, -, hflying⟩ := hgets
  exact List.mem_map.mp (h.flying interest (List.mem_of_getElem? hflying))

/-- A step that is carried out keeps the tables consistent. -/
theorem Sound.step
    (hzone : server.zone.id ≠ 0) (h : w.Sound)
    (hcarried : CarriedOut P S server event w) :
    (step P S server event w).Sound := by
  constructor
  · rcases step_cases P S server event w with
      ⟨version, interest, hgets, hstep⟩ | ⟨-, hdisk, -⟩
    · obtain ⟨c, hc, rfl⟩ := h.exists_client hgets
      rw [hstep]
      exact (receive_represents hzone (hcarried _ hgets c hc rfl)
        (represents_ofDb h.consistent) version).consistent
    · rw [hdisk]
      exact h.consistent
  · cases event with
    | client i event =>
        simp only [Network.step]
        cases hc : w.clients[i]? with
        | none =>
            exact h.flying
        | some c =>
            exact (h.act hc (c.interest_handle event)
              (fun x hx => c.mem_handle hx)).flying
    | deliver n version =>
        simp only [Network.step]
        cases w.flying[n]? with
        | none =>
            exact h.flying
        | some interest =>
            dsimp only
            split_ifs
            · exact h.flying
            · exact h.flying
    | lose n =>
        intro x hx
        exact h.flying x (List.mem_of_mem_eraseIdx hx)

/-- The records are those of the first deliveries if the database represents
them. -/
theorem same_iff (hdb : w.disk.db.Consistent) {m : Records} :
    Same P server m w ↔ Represents w.disk.db
      (Machine.final (applyInterest P server K) w.firsts m) :=
  ⟨fun h => ⟨hdb, h⟩, fun h => h.dataAt_eq⟩

/-- A step keeps the records those of the first deliveries exactly if a copy
that comes again finds its update in effect. -/
theorem same_step_iff
    (hzone : server.zone.id ≠ 0) {m : Records} (h : w.Sound)
    (hcarried : CarriedOut P S server event w)
    (hsame : Same P server m w) :
    Same P server m (step P S server event w) ↔
      LateInEffect P server event w := by
  have hnext := h.step (P := P) hzone hcarried
  rw [same_iff h.consistent] at hsame
  rcases step_cases P S server event w with
    ⟨version, interest, hgets, hstep⟩ | ⟨hnone, hdisk, hfirsts⟩
  · obtain ⟨c, hc, rfl⟩ := h.exists_client hgets
    have hcarry := hcarried _ hgets c hc rfl
    have hdone := receive_represents (P := P) hzone hcarry hsame version
    have hlate : LateInEffect P server event w ↔
        (c.interest ∈ w.firsts → Absorbed P server c.interest w) := by
      constructor
      · intro hall
        exact hall _ hgets
      · intro hone x hx
        rw [← hgets.unique hx]
        exact hone
    rw [hlate, same_iff hnext.consistent, hstep]
    by_cases hmem : c.interest ∈ w.firsts
    · -- the specification does not take the copy
      have hfinal : Machine.final (applyInterest P server K)
          (w.receive P S server version c.interest).firsts m =
            Machine.final (applyInterest P server K) w.firsts m :=
        Machine.final_note_of_mem hmem m
      rw [hfinal, forall_prop_of_true hmem,
        ← applyInterest_eq_self_iff hcarry hsame]
      constructor
      · intro hrep
        exact hdone.unique hrep
      · intro heq
        exact heq ▸ hdone
    · have hfinal : Machine.final (applyInterest P server K)
          (w.receive P S server version c.interest).firsts m =
            applyInterest P server K c.interest
              (Machine.final (applyInterest P server K) w.firsts m) :=
        Machine.final_note_of_notMem hmem m
      rw [hfinal]
      exact iff_of_true hdone (fun h => absurd h hmem)
  · refine iff_of_true ?_ (fun x hx => absurd hx (hnone x))
    rw [same_iff hnext.consistent, hdisk, hfirsts]
    exact hsame

/-- Whatever the order of the steps, the records are those of the first deliveries,
each applied once, exactly if no copy comes again when its update is not in effect
any more. -/
theorem same_throughout_iff
    (hzone : server.zone.id ≠ 0) {disk : Disk} (hdb : disk.db.Consistent)
    (clients : List (UpdateClient K)) {events : List Event}
    (hcarried : Machine.Along (step P S server) (CarriedOut P S server)
      events (start clients disk)) :
    Machine.Throughout (step P S server)
        (Same P server (Records.ofDb hdb)) events (start clients disk) ↔
      Machine.Along (step P S server) (LateInEffect P server) events
        (start clients disk) := by
  have hsound : (start clients disk).Sound :=
    ⟨hdb, fun x hx => absurd hx (List.not_mem_nil)⟩
  exact Machine.throughout_iff_along
    (fun event w h hgiven => h.step hzone hgiven)
    (fun event w h hgiven hsame => same_step_iff hzone h hgiven hsame)
    hcarried hsound (fun k => rfl)

end Runs

section Hosts

open DyndnsMgr DynamicDNSUpdate NameServer Request

/-- A client that adds or removes the text record of `/www`. -/
theorem fits_host (action : UpdateAction) :
    Fits (ndnCodec digestSignature) (Zone.ofName [ascii "net"])
      [ascii "www"] .TXT (ascii "/isp") action firstVersion := by
  unfold Fits
  cases action <;> decide +kernel

def hostClient (action : UpdateAction) :
    UpdateClient (ndnCodec digestSignature) where
  zone := Zone.ofName [ascii "net"]
  rrLabel := [ascii "www"]
  rrType := .TXT
  rrData := ascii "/isp"
  action := action
  inner := firstVersion
  outer := firstVersion
  interest := _
  interest_eq := toInterest_init firstVersion (fits_host action)
  fits := fits_host action
  interestTriedMax := 2
  interestTriedNum := 0
  stopped := false

/-- The RR of the client, as the server of `/net` reads it. -/
def hostRecord (action : UpdateAction) : RR :=
  (hostClient action).received [ascii "www"] .TXT

theorem fromInterest_hostClient (action : UpdateAction) :
    ∃ queryUpdate, QueryUpdate.init.fromInterest uriParser
        (ndnCodec digestSignature) (hostClient action).interest =
          some (true, queryUpdate) ∧
      queryUpdate.update.rrs = [hostRecord action] := by
  have hdelivers := (delivers_iff uriParser firstVersion
    (show [ascii "www"] ≠ [] by simp) (fits_host action)).mpr
      ⟨by decide, by decide, markerExact_of_forall (by decide)⟩
  obtain ⟨interest, tool', q, rr, hsend, hread, hone, hlabel, htype, -⟩ :=
    hdelivers
  obtain ⟨tool, hinterest⟩ := (hostClient action).interest_eq
  obtain ⟨rfl, -⟩ := Prod.mk.inj (Option.some.inj
    (hinterest.symm.trans hsend))
  obtain ⟨label, type, hrrs⟩ := exists_received (hostClient action) hread
  obtain ⟨rfl, -⟩ := List.cons.inj (hone.symm.trans hrrs)
  obtain rfl : label = [ascii "www"] := hlabel
  obtain rfl : type = .TXT := htype
  exact ⟨q, hread, hrrs⟩

theorem reply_fits_host (action : UpdateAction) :
    (netServer.updateReply (hostClient action).interest .DyNDNS_OK
      (ascii "OK")).toBlock.value.length < 2 ^ 64 := by
  cases action <;> decide +kernel

/-- The server of `/net` gets a copy. -/
theorem receive_hostClient
    {action : UpdateAction} {w : Network (ndnCodec digestSignature)}
    {d : Disk} (hsupported : Supported (hostRecord action))
    (hrun : reliable.execute (plan w.disk.db netZone (hostRecord action))
      w.disk = some d) :
    w.receive uriParser reliable netServer firstVersion
        (hostClient action).interest =
      { w with
        disk := d
        up := true
        firsts := Machine.note (hostClient action).interest w.firsts } := by
  obtain ⟨queryUpdate, hread, hone⟩ := fromInterest_hostClient action
  obtain ⟨data, hhandled, -⟩ := onUpdate_returned netServer hread hone
    (reply_fits_host action) hsupported hrun reliable.foreign
  have hmatch : (matchUpdateName
      (hostClient action).interest.name.toUri).isSome = true := by
    rw [interest_name]
    exact matchUpdateName_isSome _ _ _
  have hreliable : reliable.withForeign reliable.foreign = reliable := rfl
  rw [hreliable] at hhandled
  rw [receive, onInterest, if_pos hmatch, hhandled]
  rfl

theorem step_deliver
    {clients : List (UpdateClient (ndnCodec digestSignature))}
    {flying firsts : List Interest} {n : Nat} {action : UpdateAction}
    {disk d : Disk} (hflying : flying[n]? = some (hostClient action).interest)
    (hsupported : Supported (hostRecord action))
    (hrun : reliable.execute (plan disk.db netZone (hostRecord action))
      disk = some d) :
    step uriParser reliable netServer (.deliver n firstVersion)
        ⟨clients, flying, disk, true, firsts⟩ =
      ⟨clients, flying, d, true,
        Machine.note (hostClient action).interest firsts⟩ := by
  simp only [step, hflying]
  exact receive_hostClient hsupported hrun

/-- The state behind an update of the record. -/
def behindHost (action : UpdateAction) (disk : Disk) : Disk :=
  (reliable.execute (plan disk.db netZone (hostRecord action))
    disk).getD disk

def addedDisk : Disk :=
  behindHost .ADD twoZonesDisk

def removedDisk : Disk :=
  behindHost .REMOVE addedDisk

def restoredDisk : Disk :=
  behindHost .ADD removedDisk

theorem execute_added :
    reliable.execute (plan twoZonesDisk.db netZone (hostRecord .ADD))
      twoZonesDisk = some addedDisk := by
  decide +kernel

theorem execute_removed :
    reliable.execute (plan addedDisk.db netZone (hostRecord .REMOVE))
      addedDisk = some removedDisk := by
  decide +kernel

theorem execute_restored :
    reliable.execute (plan removedDisk.db netZone (hostRecord .ADD))
      removedDisk = some restoredDisk := by
  decide +kernel

def twoClients : Network (ndnCodec digestSignature) :=
  start [hostClient .ADD, hostClient .REMOVE] twoZonesDisk

section States

variable (disk : Disk) (firsts : List Interest)

/-- The first client has sent its Interest. -/
def sentOnce : Network (ndnCodec digestSignature) :=
  ⟨[(hostClient .ADD).send, hostClient .REMOVE],
    [(hostClient .ADD).interest], disk, true, firsts⟩

/-- It has sent it again. -/
def sentTwice : Network (ndnCodec digestSignature) :=
  ⟨[(hostClient .ADD).send.send, hostClient .REMOVE],
    [(hostClient .ADD).interest, (hostClient .ADD).interest],
    disk, true, firsts⟩

/-- The second client has sent its own. -/
def sentBoth : Network (ndnCodec digestSignature) :=
  ⟨[(hostClient .ADD).send.send, (hostClient .REMOVE).send],
    [(hostClient .ADD).interest, (hostClient .ADD).interest,
      (hostClient .REMOVE).interest], disk, true, firsts⟩

theorem step_sentOnce :
    step uriParser reliable netServer (.client 0 .run) twoClients =
      sentOnce twoZonesDisk [] := by
  rw [step_client (c := hostClient .ADD) rfl, UpdateClient.handle_run rfl]
  rfl

theorem step_sentTwice :
    step uriParser reliable netServer (.client 0 .timeout)
      (sentOnce disk firsts) = sentTwice disk firsts := by
  rw [step_client (c := (hostClient .ADD).send) rfl,
    UpdateClient.handle_timeout (by decide) rfl (by decide)]
  rfl

theorem step_sentBoth :
    step uriParser reliable netServer (.client 1 .run)
      (sentTwice disk firsts) = sentBoth disk firsts := by
  rw [step_client (c := hostClient .REMOVE) rfl, UpdateClient.handle_run rfl]
  rfl

end States

theorem supported_add : Supported (hostRecord .ADD) :=
  List.mem_cons_of_mem _ List.mem_cons_self

theorem supported_remove : Supported (hostRecord .REMOVE) :=
  List.mem_cons_of_mem _ (List.mem_cons_of_mem _ List.mem_cons_self)

theorem interest_ne :
    (hostClient .REMOVE).interest ≠ (hostClient .ADD).interest := by
  obtain ⟨q, hread, hone⟩ := fromInterest_hostClient .REMOVE
  obtain ⟨q', hread', hone'⟩ := fromInterest_hostClient .ADD
  intro heq
  rw [heq, hread', Option.some.injEq, Prod.mk.injEq] at hread
  rw [hread.2, hone, List.cons.injEq] at hone'
  exact absurd (congrArg RR.updateAction hone'.1) (by decide)

/-- The Interests of both clients, in the order of their first copies. -/
theorem note_both :
    Machine.note (hostClient .ADD).interest
      (Machine.note (hostClient .REMOVE).interest
        [(hostClient .ADD).interest]) =
      [(hostClient .ADD).interest, (hostClient .REMOVE).interest] := by
  simp [Machine.note, interest_ne]

/-- One client adds a record and another removes it.  The second copy of the first
Interest comes last. -/
def lateAdd : List Event :=
  [.client 0 .run, .deliver 0 firstVersion, .client 0 .timeout,
    .client 1 .run, .deliver 2 firstVersion, .deliver 1 firstVersion]

theorem final_lateAdd :
    Machine.final (step uriParser reliable netServer) lateAdd twoClients =
      sentBoth restoredDisk
        [(hostClient .ADD).interest, (hostClient .REMOVE).interest] := by
  have hfirst : step uriParser reliable netServer (.deliver 0 firstVersion)
      (sentOnce twoZonesDisk []) =
        sentOnce addedDisk [(hostClient .ADD).interest] :=
    step_deliver rfl supported_add execute_added
  have hother : step uriParser reliable netServer (.deliver 2 firstVersion)
      (sentBoth addedDisk [(hostClient .ADD).interest]) =
        sentBoth removedDisk (Machine.note (hostClient .REMOVE).interest
          [(hostClient .ADD).interest]) :=
    step_deliver rfl supported_remove execute_removed
  have hlate : ∀ firsts, step uriParser reliable netServer
      (.deliver 1 firstVersion) (sentBoth removedDisk firsts) =
        sentBoth restoredDisk
          (Machine.note (hostClient .ADD).interest firsts) :=
    fun firsts => step_deliver rfl supported_add execute_restored
  simp only [lateAdd, Machine.final]
  rw [step_sentOnce, hfirst, step_sentTwice, step_sentBoth, hother, hlate,
    note_both]

/-- What an Interest of the clients is meant to do. -/
theorem applyInterest_hostClient (action : UpdateAction) (m : Records) :
    applyInterest uriParser netServer (ndnCodec digestSignature)
        (hostClient action).interest m =
      m.update action ((hostRecord .ADD).keyIn netZone) (ascii "/isp") := by
  obtain ⟨queryUpdate, hread, hone⟩ := fromInterest_hostClient action
  simp only [applyInterest, hread, Request.apply, hone]
  rfl

/-- The tables hold the record again, though the removal came last. -/
theorem lateAdd_not_same :
    ¬ Same uriParser netServer (Records.ofDb consistent_twoZones)
      (Machine.final (step uriParser reliable netServer) lateAdd
        twoClients) := by
  intro hsame
  have hheld := hsame ((hostRecord .ADD).keyIn netZone)
  rw [final_lateAdd] at hheld
  have hrestored : restoredDisk.db.dataAt
      ((hostRecord .ADD).keyIn netZone) = [ascii "/isp"] := by
    decide +kernel
  simp only [sentBoth, hrestored, Machine.final, applyInterest_hostClient,
    Records.update, Function.update_self] at hheld
  exact OrderedSet.notMem_remove _ _ (hheld ▸ List.mem_singleton_self _)

/-- The second copy comes while the record is there. -/
def copyInTime : List Event :=
  [.client 0 .run, .deliver 0 firstVersion, .client 0 .timeout,
    .deliver 1 firstVersion]

theorem carriedOut_hosts
    {w : Network (ndnCodec digestSignature)} (hroom : ¬ w.disk.db.Full)
    (h : ∀ c ∈ w.clients, c.rrData = ascii "/isp" ∧
      c.action ∈ [UpdateAction.ADD, .REMOVE])
    (event : Event) :
    CarriedOut uriParser reliable netServer event w := by
  intro interest hgets c hc hinterest
  obtain ⟨hdata, haction⟩ := h c hc
  exact {
    clean := hdata ▸ by decide
    supported := List.mem_cons_of_mem _
      (List.mem_append_left [UpdateAction.REPLACE_ALL] haction)
    fails := fun _ _ _ _ _ _ _ => rfl
    room := hroom }

theorem added_inTime (firsts : List Interest) :
    Absorbed uriParser netServer (hostClient .ADD).interest
      (sentTwice addedDisk firsts) := by
  obtain ⟨queryUpdate, hread, hone⟩ := fromInterest_hostClient .ADD
  intro understood queryUpdate' hread' rr hrr
  rw [hread, Option.some.injEq, Prod.mk.injEq] at hread'
  rw [← hread'.2, hone, List.mem_singleton] at hrr
  have hshown : ascii "/isp" ∈
      shown netZone (hostRecord .ADD) addedDisk.db := by
    decide +kernel
  exact hrr ▸ hshown

theorem same_throughout_copyInTime :
    Machine.Throughout (step uriParser reliable netServer)
      (Same uriParser netServer (Records.ofDb consistent_twoZones))
      copyInTime twoClients := by
  have hfirst : step uriParser reliable netServer (.deliver 0 firstVersion)
      (sentOnce twoZonesDisk []) =
        sentOnce addedDisk [(hostClient .ADD).interest] :=
    step_deliver rfl supported_add execute_added
  have hempty : ¬ twoZonesDisk.db.Full := by decide
  have hadded : ¬ addedDisk.db.Full := by decide +kernel
  have hcarried : Machine.Along (step uriParser reliable netServer)
      (CarriedOut uriParser reliable netServer) copyInTime twoClients := by
    simp only [copyInTime, Machine.Along]
    rw [step_sentOnce, hfirst, step_sentTwice]
    exact ⟨carriedOut_hosts hempty (by decide) _,
      carriedOut_hosts hempty (by decide) _,
      carriedOut_hosts hadded (by decide) _,
      carriedOut_hosts hadded (by decide) _, trivial⟩
  have hdb : twoZonesDisk.db.Consistent := consistent_twoZones
  refine (same_throughout_iff (by decide) hdb
    [hostClient .ADD, hostClient .REMOVE] hcarried).mpr ?_
  have hclient : ∀ i event (w : Network (ndnCodec digestSignature)),
      LateInEffect uriParser netServer (.client i event) w := by
    rintro i event w interest ⟨-, n, version, heq, -⟩
    cases heq
  change Machine.Along _ _ copyInTime twoClients
  simp only [copyInTime, Machine.Along]
  rw [step_sentOnce, hfirst, step_sentTwice]
  refine ⟨hclient _ _ _, ?_, hclient _ _ _, ?_, trivial⟩
  · intro interest hgets hmem
    cases hmem
  · rintro interest ⟨-, n, version, heq, hflying⟩ hmem
    cases heq
    cases hflying
    exact added_inTime _

end Hosts

end Network

end Ndns

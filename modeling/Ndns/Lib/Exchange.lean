import Ndns.Lib.Machine

/-!
# Exchanges over a lossy network

Any number of askers put their questions to any number of repliers.  What was sent
stays in the network: it may arrive late, again and again, in any order, or never,
and a reply may reach every asker whose question it satisfies.  An asker that cannot
take a reply brings the process of the askers down.

A contract says what the parties rely on and what they guarantee: the sessions, the
questions, the replies and the repliers each have a property.  It is shown for one
party at a time.

**Results.**
* `Kept.invariant`: what every party keeps, every run keeps, whatever arrives when;
* `Kept.exchange_with`: a replier and a session, whatever else is in the network;
* `Kept.exists_answer`: as long as somebody replies to its questions, a session can
  be brought to its end.
-/

namespace Exchange

variable {κ σ ι δ ω ν : Type}

/-- What the parties do.  The environment of a step is of type `ν`. -/
structure Parties (κ σ ι δ ω ν : Type) where
  /-- The session for a key; `none` for a breakdown. -/
  start : κ → Option σ
  /-- The question that is pending, if any. -/
  ask : σ → Option ι
  /-- `none` for a breakdown. -/
  tell : ν → σ → δ → Option σ
  timeout : σ → σ
  satisfies : δ → ι → Bool
  /-- The question is delivered to the replier. -/
  reaches : ι → ω → Bool
  reply : ν → ι → ω → List δ × ω

/-- The parties, and all that was ever sent. -/
structure Net (κ σ ι δ ω : Type) where
  /-- The process of the askers runs. -/
  up : Bool
  sessions : List (κ × σ)
  questions : List ι
  replies : List δ
  repliers : List ω

/-- What happens next; the parties and what reaches them are numbered. -/
inductive Event (κ ν : Type) where
  | start (key : κ)
  | work (question replier : Nat) (env : ν)
  | hear (session reply : Nat) (env : ν)
  | timeout (session : Nat)

section Steps

variable (C : Parties κ σ ι δ ω ν)

/-- A session goes on and sends what it asks. -/
def Net.update (net : Net κ σ ι δ ω) (n : Nat) (key : κ) (s : σ) :
    Net κ σ ι δ ω :=
  { net with
    sessions := net.sessions.set n (key, s)
    questions := net.questions ++ (C.ask s).toList }

def Net.start (net : Net κ σ ι δ ω) (key : κ) : Net κ σ ι δ ω :=
  match C.start key with
  | none => { net with up := false }
  | some s =>
      { net with
        sessions := net.sessions ++ [(key, s)]
        questions := net.questions ++ (C.ask s).toList }

def Net.work (net : Net κ σ ι δ ω) (n m : Nat) (env : ν) : Net κ σ ι δ ω :=
  match net.questions[n]?, net.repliers[m]? with
  | some i, some w =>
      if C.reaches i w then
        { net with
          replies := net.replies ++ (C.reply env i w).1
          repliers := net.repliers.set m (C.reply env i w).2 }
      else net
  | _, _ => net

def Net.hear (net : Net κ σ ι δ ω) (n m : Nat) (env : ν) : Net κ σ ι δ ω :=
  match net.sessions[n]?, net.replies[m]? with
  | some (key, s), some d =>
      match C.ask s with
      | some i =>
          if C.satisfies d i then
            match C.tell env s d with
            | none => { net with up := false }
            | some s' => net.update C n key s'
          else net
      | none => net
  | _, _ => net

def Net.timeout (net : Net κ σ ι δ ω) (n : Nat) : Net κ σ ι δ ω :=
  match net.sessions[n]? with
  | some (key, s) => net.update C n key (C.timeout s)
  | none => net

/-- One step; behind a breakdown of the askers only the repliers work. -/
def step : Event κ ν → Net κ σ ι δ ω → Net κ σ ι δ ω
  | .work n m env, net => net.work C n m env
  | .start key, net => if net.up then net.start C key else net
  | .hear n m env, net => if net.up then net.hear C n m env else net
  | .timeout n, net => if net.up then net.timeout C n else net

end Steps

/-- What is relied on and what is guaranteed. -/
structure Contract (κ σ ι δ ω ν : Type) where
  /-- The keys that come in. -/
  starts : κ → Prop
  session : κ → σ → Prop
  question : ι → Prop
  reply : δ → Prop
  replier : ω → Prop
  /-- The conditions under which a replier works. -/
  works : ν → ι → ω → Prop

namespace Contract

variable (G : Contract κ σ ι δ ω ν) (C : Parties κ σ ι δ ω ν)

/-- What is relied on in a step. -/
def Allowed : Event κ ν → Net κ σ ι δ ω → Prop
  | .start key, _ => G.starts key
  | .work n m env, net =>
      ∀ i ∈ net.questions[n]?, ∀ w ∈ net.repliers[m]?, G.works env i w
  | _, _ => True

/-- What is guaranteed of a network. -/
structure Holds (net : Net κ σ ι δ ω) : Prop where
  up : net.up = true
  session : ∀ x ∈ net.sessions, G.session x.1 x.2
  question : ∀ i ∈ net.questions, G.question i
  reply : ∀ d ∈ net.replies, G.reply d
  replier : ∀ w ∈ net.repliers, G.replier w
  /-- What is pending has been sent. -/
  sent : ∀ x ∈ net.sessions, ∀ i ∈ C.ask x.2, i ∈ net.questions

/-- Each party keeps its part of the contract if the others keep theirs. -/
structure Kept : Prop where
  start : ∀ key, G.starts key → ∃ s, C.start key = some s ∧ G.session key s
  ask : ∀ key s, G.session key s → ∀ i ∈ C.ask s, G.question i
  tell : ∀ env key s i d, G.session key s → i ∈ C.ask s →
    C.satisfies d i = true → G.reply d →
      ∃ s', C.tell env s d = some s' ∧ G.session key s'
  timeout : ∀ key s, G.session key s → G.session key (C.timeout s)
  reply : ∀ env i w, G.works env i w → C.reaches i w = true →
    G.question i → G.replier w →
      (∀ d ∈ (C.reply env i w).1, G.reply d) ∧
        G.replier (C.reply env i w).2

section Invariant

variable {G : Contract κ σ ι δ ω ν} {C : Parties κ σ ι δ ω ν}
variable {net : Net κ σ ι δ ω}

/-- A session that goes on as it should. -/
theorem Holds.update
    (h : G.Holds C net) (hkept : G.Kept C) {key : κ} {s : σ} {n : Nat}
    (hs : G.session key s) :
    G.Holds C (net.update C n key s) where
  up := h.up
  session x hx := by
    rcases List.mem_or_eq_of_mem_set hx with hx | rfl
    · exact h.session x hx
    · exact hs
  question i hi := by
    rcases List.mem_append.mp hi with hi | hi
    · exact h.question i hi
    · exact hkept.ask key s hs i (Option.mem_toList.mp hi)
  reply := h.reply
  replier := h.replier
  sent x hx i hi := by
    rcases List.mem_or_eq_of_mem_set hx with hx | rfl
    · exact List.mem_append_left _ (h.sent x hx i hi)
    · exact List.mem_append_right _ (Option.mem_toList.mpr hi)

theorem Holds.start
    (h : G.Holds C net) (hkept : G.Kept C) {key : κ} (hkey : G.starts key) :
    G.Holds C (net.start C key) := by
  obtain ⟨s, hstart, hs⟩ := hkept.start key hkey
  rw [Net.start, hstart]
  constructor
  · exact h.up
  · intro x hx
    rcases List.mem_append.mp hx with hx | hx
    · exact h.session x hx
    · obtain rfl := List.mem_singleton.mp hx
      exact hs
  · intro i hi
    rcases List.mem_append.mp hi with hi | hi
    · exact h.question i hi
    · exact hkept.ask key s hs i (Option.mem_toList.mp hi)
  · exact h.reply
  · exact h.replier
  · intro x hx i hi
    rcases List.mem_append.mp hx with hx | hx
    · exact List.mem_append_left _ (h.sent x hx i hi)
    · obtain rfl := List.mem_singleton.mp hx
      exact List.mem_append_right _ (Option.mem_toList.mpr hi)

theorem Holds.work
    (h : G.Holds C net) (hkept : G.Kept C) {n m : Nat} {env : ν}
    (hworks : ∀ i ∈ net.questions[n]?, ∀ w ∈ net.repliers[m]?,
      G.works env i w) :
    G.Holds C (net.work C n m env) := by
  unfold Net.work
  split
  · next i w hi hw =>
      split_ifs with hreaches
      · obtain ⟨hreply, hreplier⟩ := hkept.reply env i w (hworks i hi w hw)
          hreaches (h.question i (List.mem_of_getElem? hi))
          (h.replier w (List.mem_of_getElem? hw))
        refine ⟨h.up, h.session, h.question, ?_, ?_, h.sent⟩
        · intro d hd
          exact (List.mem_append.mp hd).elim (h.reply d) (hreply d)
        · intro w' hw'
          rcases List.mem_or_eq_of_mem_set hw' with hw' | rfl
          · exact h.replier w' hw'
          · exact hreplier
      · exact h
  · exact h

theorem Holds.hear
    (h : G.Holds C net) (hkept : G.Kept C) (n m : Nat) (env : ν) :
    G.Holds C (net.hear C n m env) := by
  unfold Net.hear
  split
  · next key s d hs hd =>
      split
      · next i hask =>
          split_ifs with hsatisfies
          · obtain ⟨s', htell, hs'⟩ := hkept.tell env key s i d
              (h.session (key, s) (List.mem_of_getElem? hs)) hask hsatisfies
              (h.reply d (List.mem_of_getElem? hd))
            rw [htell]
            exact h.update hkept hs'
          · exact h
      · exact h
  · exact h

theorem Holds.timeout
    (h : G.Holds C net) (hkept : G.Kept C) (n : Nat) :
    G.Holds C (net.timeout C n) := by
  unfold Net.timeout
  split
  · next key s hs =>
      exact h.update hkept (hkept.timeout key s
        (h.session (key, s) (List.mem_of_getElem? hs)))
  · exact h

/-- One step keeps the contract. -/
theorem Holds.step
    (hkept : G.Kept C) (e : Event κ ν) (net : Net κ σ ι δ ω)
    (hallowed : G.Allowed e net) (h : G.Holds C net) :
    G.Holds C (step C e net) := by
  cases e with
  | start key =>
      rw [Exchange.step, if_pos h.up]
      exact h.start hkept hallowed
  | work n m env => exact h.work hkept hallowed
  | hear n m env =>
      rw [Exchange.step, if_pos h.up]
      exact h.hear hkept n m env
  | timeout n =>
      rw [Exchange.step, if_pos h.up]
      exact h.timeout hkept n

/-- Every run keeps the contract. -/
theorem Kept.invariant
    (hkept : G.Kept C) {events : List (Event κ ν)}
    (hrun : Machine.Along (Exchange.step C) G.Allowed events net)
    (h : G.Holds C net) :
    G.Holds C (Machine.final (Exchange.step C) events net) :=
  hrun.invariant (Holds.step hkept) h

end Invariant

section Progress

variable {τ : Type}
variable (tag : ω → τ)

/-- Repliers keep their tags. -/
def KeepsTags : Prop :=
  ∀ env i w, G.works env i w → C.reaches i w = true → G.question i →
    G.replier w → tag (C.reply env i w).2 = tag w

/-- Who has one of the tags replies to the question. -/
def Answerable (tags : List τ) (i : ι) : Prop :=
  ∃ t ∈ tags, ∀ w, tag w = t → G.replier w →
    C.reaches i w = true ∧
      ∃ env, G.works env i w ∧
        ∃ d ∈ (C.reply env i w).1, C.satisfies d i = true

/-- A property of the sessions that are over behind so many replies. -/
structure EndsWithin (tags : List τ) (live : Nat → κ → σ → Prop) :
    Prop where
  done : ∀ key s, live 0 key s → C.ask s = none
  answerable : ∀ n key s, live n key s → ∀ i ∈ C.ask s,
    G.Answerable C tag tags i
  tell : ∀ n env key s s' i d, live (n + 1) key s → i ∈ C.ask s →
    C.satisfies d i = true → G.reply d → C.tell env s d = some s' →
      live n key s'

variable {G : Contract κ σ ι δ ω ν} {C : Parties κ σ ι δ ω ν}
variable {tag : ω → τ} {net : Net κ σ ι δ ω}

/-- What a replier that is reached does to the network. -/
theorem work_eq
    {n m : Nat} {i : ι} {w : ω} (env : ν) (hi : net.questions[n]? = some i)
    (hw : net.repliers[m]? = some w) (hreaches : C.reaches i w = true) :
    net.work C n m env =
      { net with
        replies := net.replies ++ (C.reply env i w).1
        repliers := net.repliers.set m (C.reply env i w).2 } := by
  simp [Net.work, hi, hw, hreaches]

/-- What a reply that is taken does to the network. -/
theorem hear_eq
    {n m : Nat} {key : κ} {s s' : σ} {i : ι} {d : δ} {env : ν}
    (hs : net.sessions[n]? = some (key, s)) (hd : net.replies[m]? = some d)
    (hask : C.ask s = some i) (hsatisfies : C.satisfies d i = true)
    (htell : C.tell env s d = some s') :
    net.hear C n m env = net.update C n key s' := by
  simp [Net.hear, hs, hd, hask, hsatisfies, htell]

theorem map_set_eq {l : List ω} {n : Nat} {w w' : ω}
    (hw : l[n]? = some w) (htag : tag w' = tag w) :
    (l.set n w').map tag = l.map tag := by
  have hget : (l.map tag)[n]? = some (tag w') := by
    rw [List.getElem?_map, hw, htag]
    rfl
  obtain ⟨hn, hget⟩ := List.getElem?_eq_some_iff.mp hget
  rw [List.map_set, ← hget, List.set_getElem_self]

theorem Holds.map_tag_work
    (h : G.Holds C net) (htag : G.KeepsTags C tag) {n m : Nat} {env : ν}
    (hworks : ∀ i ∈ net.questions[n]?, ∀ w ∈ net.repliers[m]?,
      G.works env i w) :
    (net.work C n m env).repliers.map tag = net.repliers.map tag := by
  unfold Net.work
  split
  · next i w hi hw =>
      split_ifs with hreaches
      · exact map_set_eq hw (htag env i w (hworks i hi w hw) hreaches
          (h.question i (List.mem_of_getElem? hi))
          (h.replier w (List.mem_of_getElem? hw)))
      · rfl
  · rfl

/-- Only a replier changes a replier. -/
theorem Holds.map_tag_step
    (htag : G.KeepsTags C tag) (e : Event κ ν) (net : Net κ σ ι δ ω)
    (hallowed : G.Allowed e net) (h : G.Holds C net) :
    (Exchange.step C e net).repliers.map tag = net.repliers.map tag := by
  cases e with
  | start key =>
      rw [Exchange.step, if_pos h.up, Net.start]
      split <;> rfl
  | work n m env => exact h.map_tag_work htag hallowed
  | hear n m env =>
      rw [Exchange.step, if_pos h.up, Net.hear]
      split
      · split
        · split_ifs
          · split <;> rfl
          · rfl
        · rfl
      · rfl
  | timeout n =>
      rw [Exchange.step, if_pos h.up, Net.timeout]
      split <;> rfl

/-- Every run keeps the tags. -/
theorem Kept.map_tag
    (hkept : G.Kept C) (htag : G.KeepsTags C tag)
    {events : List (Event κ ν)}
    (hrun : Machine.Along (Exchange.step C) G.Allowed events net)
    (h : G.Holds C net) :
    (Machine.final (Exchange.step C) events net).repliers.map tag =
      net.repliers.map tag := by
  refine (hrun.invariant (I := fun net' => G.Holds C net' ∧
    net'.repliers.map tag = net.repliers.map tag) ?_ ⟨h, rfl⟩).2
  rintro e net' hallowed ⟨hnet', htags⟩
  exact ⟨Holds.step hkept e net' hallowed hnet',
    (Holds.map_tag_step htag e net' hallowed hnet').trans htags⟩

/-- A replier that replies to a question moves its session on. -/
theorem Kept.exchange_with
    (hkept : G.Kept C) (env : ν) (h : G.Holds C net) {n m : Nat} {key : κ}
    {s : σ} {i : ι} {w : ω} {d : δ} {env' : ν}
    (hs : net.sessions[n]? = some (key, s)) (hask : C.ask s = some i)
    (hw : net.repliers[m]? = some w) (hreaches : C.reaches i w = true)
    (hworks : G.works env' i w) (hd : d ∈ (C.reply env' i w).1)
    (hsatisfies : C.satisfies d i = true) :
    ∃ e₁ e₂ s', G.Allowed e₁ net ∧ G.Allowed e₂ (step C e₁ net) ∧
      (step C e₂ (step C e₁ net)).sessions[n]? = some (key, s') ∧
      (step C e₂ (step C e₁ net)).repliers =
        net.repliers.set m (C.reply env' i w).2 ∧
      G.reply d ∧ C.tell env s d = some s' := by
  -- the question reaches the replier
  obtain ⟨a, ha⟩ := List.mem_iff_getElem?.mp
    (h.sent _ (List.mem_of_getElem? hs) i hask)
  have hwork : step C (.work a m env') net = _ :=
    work_eq env' ha hw hreaches
  have hallowed : G.Allowed (.work a m env') net := by
    intro i' hi' w' hw'
    rw [ha, Option.mem_some_iff] at hi'
    rw [hw, Option.mem_some_iff] at hw'
    exact hi' ▸ hw' ▸ hworks
  have hnet := Holds.step hkept _ net hallowed h
  -- and its reply the session
  have hmem : d ∈ (step C (.work a m env') net).replies := by
    rw [hwork]
    exact List.mem_append_right _ hd
  obtain ⟨c, hc⟩ := List.mem_iff_getElem?.mp hmem
  have hsame : (step C (.work a m env') net).sessions = net.sessions := by
    rw [hwork]
  obtain ⟨s', htell, -⟩ := hkept.tell env key s i d
    (h.session _ (List.mem_of_getElem? hs)) hask hsatisfies
    (hnet.reply d hmem)
  have hhear : step C (.hear n c env) (step C (.work a m env') net) =
      (step C (.work a m env') net).update C n key s' :=
    (if_pos hnet.up).trans (hear_eq (hsame ▸ hs) hc hask hsatisfies htell)
  refine ⟨.work a m env', .hear n c env, s', hallowed, trivial, ?_, ?_,
    hnet.reply d hmem, htell⟩
  · obtain ⟨hn, -⟩ := List.getElem?_eq_some_iff.mp hs
    rw [hhear, Net.update, hsame, List.getElem?_set_self hn]
  · rw [hhear, Net.update, hwork]

/-- A question that is answered moves its session on. -/
theorem Kept.exists_exchange
    (hkept : G.Kept C) (htag : G.KeepsTags C tag) (env : ν)
    (h : G.Holds C net) {n : Nat} {key : κ} {s : σ} {i : ι}
    (hs : net.sessions[n]? = some (key, s)) (hask : C.ask s = some i)
    (hanswerable : G.Answerable C tag (net.repliers.map tag) i) :
    ∃ e₁ e₂ d s', G.Allowed e₁ net ∧ G.Allowed e₂ (step C e₁ net) ∧
      (step C e₂ (step C e₁ net)).sessions[n]? = some (key, s') ∧
      (step C e₂ (step C e₁ net)).repliers.map tag =
        net.repliers.map tag ∧
      C.satisfies d i = true ∧ G.reply d ∧ C.tell env s d = some s' := by
  obtain ⟨t, ht, hreplies⟩ := hanswerable
  obtain ⟨w, hw, htw⟩ := List.mem_map.mp ht
  obtain ⟨hreaches, env', hworks, d, hd, hsatisfies⟩ :=
    hreplies w htw (h.replier w hw)
  obtain ⟨b, hb⟩ := List.mem_iff_getElem?.mp hw
  obtain ⟨e₁, e₂, s', hok₁, hok₂, hs', hrepliers, hreply, htell⟩ :=
    hkept.exchange_with env h hs hask hb hreaches hworks hd hsatisfies
  refine ⟨e₁, e₂, d, s', hok₁, hok₂, hs', ?_, hsatisfies, hreply, htell⟩
  rw [hrepliers]
  exact map_set_eq hb (htag env' i w hworks hreaches
    (hkept.ask key s (h.session _ (List.mem_of_getElem? hs)) i hask)
    (h.replier w hw))

/-- A session that ends within some replies can be brought to its end. -/
theorem Kept.exists_answer
    (hkept : G.Kept C) (htag : G.KeepsTags C tag) (env : ν)
    {tags : List τ} {live : Nat → κ → σ → Prop} {n : Nat} {key : κ}
    (hends : G.EndsWithin C tag tags live)
    (h : G.Holds C net) (htags : net.repliers.map tag = tags)
    {m : Nat} {s : σ} (hlive : live m key s)
    (hs : net.sessions[n]? = some (key, s)) :
    ∃ events m' s', Machine.Along (step C) G.Allowed events net ∧
      (Machine.final (step C) events net).sessions[n]? = some (key, s') ∧
      live m' key s' ∧ C.ask s' = none := by
  induction m generalizing net s with
  | zero =>
      exact ⟨[], 0, s, trivial, hs, hlive, hends.done key s hlive⟩
  | succ m ih =>
      cases hask : C.ask s with
      | none =>
          exact ⟨[], m + 1, s, trivial, hs, hlive, hask⟩
      | some i =>
          have hanswerable := hends.answerable _ key s hlive i hask
          rw [← htags] at hanswerable
          obtain ⟨e₁, e₂, d, s', hok₁, hok₂, hs', htags', hsatisfies, hd,
            htell⟩ := hkept.exists_exchange htag env h hs hask hanswerable
          have hnet := Holds.step hkept _ _ hok₂
            (Holds.step hkept _ _ hok₁ h)
          have hlive' := hends.tell m env key s s' i d hlive hask hsatisfies
            hd htell
          obtain ⟨events, m', s'', halong, hfinal, hend⟩ :=
            ih hnet (htags'.trans htags) hlive' hs'
          exact ⟨e₁ :: e₂ :: events, m', s'', ⟨hok₁, hok₂, halong⟩, hfinal,
            hend⟩

end Progress

end Contract

end Exchange

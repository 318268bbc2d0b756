import Ndns.Lib.Exchange

/-!
# What repliers have handled

In a run of an exchange every replier handles one question after the other, copies
and late ones too.  Nothing else changes it, so its state is the replay of what it
has handled, and every reply in the network was made on the way.  Which sessions
have heard a reply can be told from what they are.

**Results.**
* `repliers_final`: a replier is the replay of what it has handled;
* `Kept.along_handled`: the contract at every question it has handled;
* `mem_replies_final`: every reply was made for one of them;
* `Kept.exists_heard`: a session that was told something has heard a reply;
* `Kept.exists_asker`: every question was asked by a session.
-/

namespace Exchange

variable {κ σ ι δ ω ν : Type}

section Handled

variable (C : Parties κ σ ι δ ω ν)

/-- The question that a replier handles in a step, if it handles one. -/
def Net.handles (m : Nat) (net : Net κ σ ι δ ω) : Event κ ν → Option (ν × ι)
  | .work n m' env =>
      match net.questions[n]?, net.repliers[m']? with
      | some i, some w =>
          if m' = m ∧ C.reaches i w then some (env, i) else none
      | _, _ => none
  | _ => none

/-- The questions that a replier handles in a run. -/
def handled (m : Nat) :
    List (Event κ ν) → Net κ σ ι δ ω → List (ν × ι)
  | [], _ => []
  | e :: es, net => (net.handles C m e).toList ++ handled m es (step C e net)

/-- A replier behind a question. -/
def serve (x : ν × ι) (w : ω) : ω :=
  (C.reply x.1 x.2 w).2

variable {C} {net : Net κ σ ι δ ω} {m : Nat}

/-- What is handled in a step. -/
theorem handles_eq_some
    {e : Event κ ν} {x : ν × ι} (h : net.handles C m e = some x) :
    ∃ n w, e = .work n m x.1 ∧ net.questions[n]? = some x.2 ∧
      net.repliers[m]? = some w ∧ C.reaches x.2 w = true := by
  cases e with
  | start key => exact absurd h (by simp [Net.handles])
  | hear n k env => exact absurd h (by simp [Net.handles])
  | timeout n => exact absurd h (by simp [Net.handles])
  | work n k env =>
      simp only [Net.handles] at h
      split at h
      · next i w hi hw =>
          split_ifs at h with hreaches
          obtain ⟨rfl, hreaches⟩ := hreaches
          obtain rfl := Option.some.inj h
          exact ⟨n, w, rfl, hi, hw, hreaches⟩
      · exact absurd h (by simp)

/-- Only a piece of work changes the repliers. -/
theorem repliers_step_of_not_work
    {e : Event κ ν} (h : ∀ n k env, e ≠ .work n k env) :
    (step C e net).repliers = net.repliers ∧
      (step C e net).replies = net.replies := by
  cases e with
  | work n k env => exact absurd rfl (h n k env)
  | start key =>
      rw [step, Net.start]
      split_ifs
      · split <;> exact ⟨rfl, rfl⟩
      · exact ⟨rfl, rfl⟩
  | hear n k env =>
      rw [step, Net.hear]
      split_ifs
      · split
        · split
          · split_ifs
            · split <;> exact ⟨rfl, rfl⟩
            · exact ⟨rfl, rfl⟩
          · exact ⟨rfl, rfl⟩
        · exact ⟨rfl, rfl⟩
      · exact ⟨rfl, rfl⟩
  | timeout n =>
      rw [step, Net.timeout]
      split_ifs
      · split <;> exact ⟨rfl, rfl⟩
      · exact ⟨rfl, rfl⟩

/-- A step leaves a replier as what it handles makes of it. -/
theorem repliers_step (e : Event κ ν) :
    (step C e net).repliers[m]? = (net.repliers[m]?).map
      (Machine.final (serve C) (net.handles C m e).toList) := by
  have hidle {e' : Event κ ν} (hstep : (step C e' net).repliers =
      net.repliers) (hnone : net.handles C m e' = none) :
      (step C e' net).repliers[m]? = (net.repliers[m]?).map
        (Machine.final (serve C) (net.handles C m e').toList) := by
    rw [hstep, hnone]
    exact Option.map_id'.symm
  cases e with
  | start key => exact hidle (repliers_step_of_not_work (by simp)).1 rfl
  | hear n k env => exact hidle (repliers_step_of_not_work (by simp)).1 rfl
  | timeout n => exact hidle (repliers_step_of_not_work (by simp)).1 rfl
  | work n k env =>
      cases hi : net.questions[n]? with
      | none =>
          exact hidle (by simp [step, Net.work, hi])
            (by simp [Net.handles, hi])
      | some i =>
          cases hw : net.repliers[k]? with
          | none =>
              exact hidle (by simp [step, Net.work, hi, hw])
                (by simp [Net.handles, hi, hw])
          | some w =>
              by_cases hreaches : C.reaches i w = true
              · by_cases hk : k = m
                · subst hk
                  obtain ⟨hlt, -⟩ := List.getElem?_eq_some_iff.mp hw
                  rw [step, Contract.work_eq env hi hw hreaches, hw]
                  simp only [Net.handles, hi, hw, hreaches, and_self,
                    if_true, List.getElem?_set_self hlt]
                  rfl
                · have hset : (step C (.work n k env) net).repliers[m]? =
                      net.repliers[m]? := by
                    rw [step, Contract.work_eq env hi hw hreaches]
                    exact List.getElem?_set_ne hk
                  rw [hset]
                  simp only [Net.handles, hi, hw, hk, false_and, if_false]
                  exact Option.map_id'.symm
              · exact hidle (by simp [step, Net.work, hi, hw, hreaches])
                  (by simp [Net.handles, hi, hw, hreaches])

/-- What was asked stays in the network. -/
theorem questions_subset_step (e : Event κ ν) :
    net.questions ⊆ (step C e net).questions := by
  cases e with
  | start key =>
      rw [step, Net.start]
      split_ifs
      · split
        · exact List.Subset.refl _
        · exact List.subset_append_left _ _
      · exact List.Subset.refl _
  | work n k env =>
      rw [step, Net.work]
      split
      · split_ifs <;> exact List.Subset.refl _
      · exact List.Subset.refl _
  | hear n k env =>
      rw [step, Net.hear]
      split_ifs
      · split
        · split
          · split_ifs
            · split
              · exact List.Subset.refl _
              · exact List.subset_append_left _ _
            · exact List.Subset.refl _
          · exact List.Subset.refl _
        · exact List.Subset.refl _
      · exact List.Subset.refl _
  | timeout n =>
      rw [step, Net.timeout]
      split_ifs
      · split
        · exact List.subset_append_left _ _
        · exact List.Subset.refl _
      · exact List.Subset.refl _

/-- What is handled has been asked. -/
theorem mem_questions_of_handled
    (events : List (Event κ ν)) {x : ν × ι}
    (hx : x ∈ handled C m events net) :
    x.2 ∈ (Machine.final (step C) events net).questions := by
  induction events generalizing net with
  | nil =>
      cases hx
  | cons e es ih =>
      rcases List.mem_append.mp hx with hx | hx
      · obtain ⟨n, w, -, hi, -⟩ :=
          handles_eq_some (Option.mem_toList.mp hx)
        have hkeep (net' : Net κ σ ι δ ω) (h : x.2 ∈ net'.questions) :
            x.2 ∈ (Machine.final (step C) es net').questions :=
          Machine.final_invariant
            (I := fun net : Net κ σ ι δ ω => x.2 ∈ net.questions)
            (fun e' _ hmem => questions_subset_step e' hmem) es h
        exact hkeep _ (questions_subset_step e (List.mem_of_getElem? hi))
      · exact ih hx

/-- A replier is the replay of what it has handled. -/
theorem repliers_final (events : List (Event κ ν)) :
    (Machine.final (step C) events net).repliers[m]? =
      (net.repliers[m]?).map
        (Machine.final (serve C) (handled C m events net)) := by
  induction events generalizing net with
  | nil =>
      exact Option.map_id'.symm
  | cons e es ih =>
      rw [Machine.final, ih, repliers_step e, Option.map_map, handled]
      congr 1
      funext w
      cases net.handles C m e with
      | none => rfl
      | some x => rfl

/-- A new reply is made for a question that is handled. -/
theorem mem_replies_step
    {e : Event κ ν} {d : δ} (hd : d ∈ (step C e net).replies) :
    d ∈ net.replies ∨
      ∃ m w x, net.repliers[m]? = some w ∧ net.handles C m e = some x ∧
        d ∈ (C.reply x.1 x.2 w).1 := by
  cases e with
  | start key =>
      rw [(repliers_step_of_not_work (by simp)).2] at hd
      exact Or.inl hd
  | hear n k env =>
      rw [(repliers_step_of_not_work (by simp)).2] at hd
      exact Or.inl hd
  | timeout n =>
      rw [(repliers_step_of_not_work (by simp)).2] at hd
      exact Or.inl hd
  | work n k env =>
      rw [step, Net.work] at hd
      split at hd
      · next i w hi hw =>
          split_ifs at hd with hreaches
          · rcases List.mem_append.mp hd with hd | hd
            · exact Or.inl hd
            · exact Or.inr ⟨k, w, (env, i), hw,
                by simp [Net.handles, hi, hw, hreaches], hd⟩
          · exact Or.inl hd
      · exact Or.inl hd

/-- Every reply was made for a question that was handled. -/
theorem mem_replies_final
    (events : List (Event κ ν)) {d : δ}
    (hd : d ∈ (Machine.final (step C) events net).replies) :
    d ∈ net.replies ∨
      ∃ m w before x after, net.repliers[m]? = some w ∧
        handled C m events net = before ++ x :: after ∧
        d ∈ (C.reply x.1 x.2
          (Machine.final (serve C) before w)).1 := by
  induction events generalizing net with
  | nil =>
      exact Or.inl hd
  | cons e es ih =>
      rcases ih hd with hd | ⟨m, w, before, x, after, hw, hhandled, hd⟩
      · refine (mem_replies_step hd).imp_right ?_
        rintro ⟨m, w, x, hw, hx, hd⟩
        exact ⟨m, w, [], x, _, hw, by rw [handled, hx]; rfl, hd⟩
      · rw [repliers_step] at hw
        obtain ⟨w', hw', rfl⟩ := Option.map_eq_some_iff.mp hw
        refine Or.inr ⟨m, w', (net.handles C m e).toList ++ before, x, after,
          hw', by rw [handled, hhandled, List.append_assoc], ?_⟩
        cases hx : net.handles C m e with
        | none =>
            rw [hx] at hd
            exact hd
        | some y =>
            rw [hx] at hd
            exact hd

end Handled

namespace Contract

section Handled

variable {G : Contract κ σ ι δ ω ν} {C : Parties κ σ ι δ ω ν}
variable {net : Net κ σ ι δ ω} {m : Nat} {w : ω}

/-- What is relied on when a replier handles a question. -/
def Handles (G : Contract κ σ ι δ ω ν) (C : Parties κ σ ι δ ω ν)
    (x : ν × ι) (w : ω) : Prop :=
  G.question x.2 ∧ G.works x.1 x.2 w ∧ C.reaches x.2 w = true ∧ G.replier w

theorem Holds.handles
    (h : G.Holds C net) {e : Event κ ν} (hallowed : G.Allowed e net)
    (hw : net.repliers[m]? = some w) {x : ν × ι}
    (hx : net.handles C m e = some x) :
    G.Handles C x w := by
  obtain ⟨n, w', rfl, hi, hw', hreaches⟩ := handles_eq_some hx
  obtain rfl := Option.some.inj (hw'.symm.trans hw)
  exact ⟨h.question _ (List.mem_of_getElem? hi),
    hallowed _ hi _ hw', hreaches, h.replier _ (List.mem_of_getElem? hw')⟩

/-- The contract holds at every question that a replier has handled. -/
theorem Kept.along_handled
    (hkept : G.Kept C) {events : List (Event κ ν)}
    (hrun : Machine.Along (Exchange.step C) G.Allowed events net)
    (h : G.Holds C net) (hw : net.repliers[m]? = some w) :
    Machine.Along (serve C) (G.Handles C) (handled C m events net) w := by
  induction events generalizing net w with
  | nil =>
      trivial
  | cons e es ih =>
      obtain ⟨hallowed, hrest⟩ := hrun
      have hnext := Holds.step hkept e net hallowed h
      have hw' : (step C e net).repliers[m]? =
          some (Machine.final (serve C) (net.handles C m e).toList w) := by
        rw [repliers_step, hw]
        rfl
      have htail := ih hrest hnext hw'
      rw [handled]
      cases hx : net.handles C m e with
      | none =>
          rw [hx] at htail
          exact htail
      | some x =>
          rw [hx] at htail
          exact ⟨h.handles hallowed hw hx, htail⟩

end Handled

section Heard

variable {G : Contract κ σ ι δ ω ν} {C : Parties κ σ ι δ ω ν}
variable {net : Net κ σ ι δ ω}

/-- A kind of session that only a reply of some kind brings about. -/
structure FromReplies
    (G : Contract κ σ ι δ ω ν) (C : Parties κ σ ι δ ω ν)
    (told : κ → σ → Prop) (heard : κ → δ → Prop) : Prop where
  start : ∀ key s, G.starts key → C.start key = some s → ¬ told key s
  timeout : ∀ key s, G.session key s → told key (C.timeout s) → told key s
  tell : ∀ env key s i d s', G.session key s → i ∈ C.ask s →
    C.satisfies d i = true → C.tell env s d = some s' → told key s' →
      heard key d

variable {told : κ → σ → Prop} {heard : κ → δ → Prop}

/-- Whoever was told something has heard a reply that is in the network. -/
def Heard (told : κ → σ → Prop) (heard : κ → δ → Prop)
    (net : Net κ σ ι δ ω) : Prop :=
  ∀ x ∈ net.sessions, told x.1 x.2 → ∃ d ∈ net.replies, heard x.1 d

theorem Heard.update
    (h : Heard told heard net) {key : κ} {s : σ} {n : Nat}
    (hs : told key s → ∃ d ∈ net.replies, heard key d) :
    Heard told heard (net.update C n key s) := by
  intro x hx htold
  rcases List.mem_or_eq_of_mem_set hx with hx | rfl
  · exact h x hx htold
  · exact hs htold

theorem Heard.start
    (h : Heard told heard net) (hfrom : G.FromReplies C told heard)
    {key : κ} (hkey : G.starts key) :
    Heard told heard (net.start C key) := by
  rw [Net.start]
  split
  · exact h
  · next s hstart =>
      intro x hx htold
      rcases List.mem_append.mp hx with hx | hx
      · exact h x hx htold
      · obtain rfl := List.mem_singleton.mp hx
        exact absurd htold (hfrom.start key s hkey hstart)

theorem Heard.work
    (h : Heard told heard net) (n m : Nat) (env : ν) :
    Heard told heard (net.work C n m env) := by
  rw [Net.work]
  split
  · split_ifs
    · intro x hx htold
      obtain ⟨d, hd, hheard⟩ := h x hx htold
      exact ⟨d, List.mem_append_left _ hd, hheard⟩
    · exact h
  · exact h

theorem Heard.hear
    (h : Heard told heard net) (hfrom : G.FromReplies C told heard)
    (hholds : G.Holds C net) (n m : Nat) (env : ν) :
    Heard told heard (net.hear C n m env) := by
  rw [Net.hear]
  split
  · next key s d hs hd =>
      split
      · next i hask =>
          split_ifs with hsatisfies
          · split
            · exact h
            · next s' htell =>
                exact h.update (fun htold => ⟨d, List.mem_of_getElem? hd,
                  hfrom.tell env key s i d s'
                    (hholds.session (key, s) (List.mem_of_getElem? hs)) hask
                    hsatisfies htell htold⟩)
          · exact h
      · exact h
  · exact h

theorem Heard.timeout
    (h : Heard told heard net) (hfrom : G.FromReplies C told heard)
    (hholds : G.Holds C net) (n : Nat) :
    Heard told heard (net.timeout C n) := by
  rw [Net.timeout]
  split
  · next key s hs =>
      have hmem : (key, s) ∈ net.sessions := List.mem_of_getElem? hs
      exact h.update (fun htold => h _ hmem
        (hfrom.timeout key s (hholds.session _ hmem) htold))
  · exact h

/-- One step keeps it. -/
theorem Heard.step
    (hfrom : G.FromReplies C told heard) (e : Event κ ν)
    (hallowed : G.Allowed e net) (hholds : G.Holds C net)
    (h : Heard told heard net) :
    Heard told heard (Exchange.step C e net) := by
  cases e with
  | start key =>
      rw [Exchange.step, if_pos hholds.up]
      exact h.start hfrom hallowed
  | work n m env => exact h.work n m env
  | hear n m env =>
      rw [Exchange.step, if_pos hholds.up]
      exact h.hear hfrom hholds n m env
  | timeout n =>
      rw [Exchange.step, if_pos hholds.up]
      exact h.timeout hfrom hholds n

/-- A session that was told something has heard a reply. -/
theorem Kept.exists_heard
    (hkept : G.Kept C) (hfrom : G.FromReplies C told heard)
    {events : List (Event κ ν)}
    (hrun : Machine.Along (Exchange.step C) G.Allowed events net)
    (hholds : G.Holds C net) (h : Heard told heard net) :
    Heard told heard (Machine.final (Exchange.step C) events net) := by
  refine (hrun.invariant (I := fun net' => G.Holds C net' ∧
    Heard told heard net') ?_ ⟨hholds, h⟩).2
  rintro e net' hallowed ⟨hholds', h'⟩
  exact ⟨Holds.step hkept e net' hallowed hholds',
    Heard.step hfrom e hallowed hholds' h'⟩

end Heard

section Asked

variable {G : Contract κ σ ι δ ω ν} {C : Parties κ σ ι δ ω ν}
variable {net : Net κ σ ι δ ω} {asked : κ → ι → Prop}

/-- Every question was asked by a session. -/
def Asked (asked : κ → ι → Prop) (net : Net κ σ ι δ ω) : Prop :=
  ∀ i ∈ net.questions, ∃ key ∈ net.sessions.map Prod.fst, asked key i

theorem Asked.update
    (h : Asked asked net) {key : κ} {s₀ s : σ} {n : Nat}
    (hn : net.sessions[n]? = some (key, s₀))
    (hs : ∀ i ∈ C.ask s, asked key i) :
    Asked asked (net.update C n key s) := by
  have hkeys : (net.sessions.set n (key, s)).map Prod.fst =
      net.sessions.map Prod.fst :=
    map_set_eq hn rfl
  intro i hi
  rw [Net.update, hkeys]
  rcases List.mem_append.mp hi with hi | hi
  · exact h i hi
  · exact ⟨key, List.mem_map_of_mem (List.mem_of_getElem? hn),
      hs i (Option.mem_toList.mp hi)⟩

theorem Asked.start
    (h : Asked asked net) {key : κ}
    (hs : ∀ s, C.start key = some s → ∀ i ∈ C.ask s, asked key i) :
    Asked asked (net.start C key) := by
  rw [Net.start]
  split
  · exact h
  · next s hstart =>
      intro i hi
      rcases List.mem_append.mp hi with hi | hi
      · obtain ⟨key', hkey', hasked⟩ := h i hi
        exact ⟨key', by simpa using Or.inl (by simpa using hkey'), hasked⟩
      · exact ⟨key, by simp, hs s hstart i (Option.mem_toList.mp hi)⟩

theorem Asked.hear
    (h : Asked asked net) (hkept : G.Kept C)
    (hasks : ∀ key s, G.session key s → ∀ i ∈ C.ask s, asked key i)
    (hholds : G.Holds C net) (n m : Nat) (env : ν) :
    Asked asked (net.hear C n m env) := by
  rw [Net.hear]
  split
  · next key s d hs hd =>
      split
      · next i hask =>
          split_ifs with hsatisfies
          · obtain ⟨s', htell, hsession⟩ := hkept.tell env key s i d
              (hholds.session _ (List.mem_of_getElem? hs)) hask hsatisfies
              (hholds.reply d (List.mem_of_getElem? hd))
            rw [htell]
            exact h.update hs (hasks key s' hsession)
          · exact h
      · exact h
  · exact h

theorem Asked.timeout
    (h : Asked asked net) (hkept : G.Kept C)
    (hasks : ∀ key s, G.session key s → ∀ i ∈ C.ask s, asked key i)
    (hholds : G.Holds C net) (n : Nat) :
    Asked asked (net.timeout C n) := by
  rw [Net.timeout]
  split
  · next key s hs =>
      exact h.update hs (hasks key _ (hkept.timeout key s
        (hholds.session _ (List.mem_of_getElem? hs))))
  · exact h

/-- One step keeps it. -/
theorem Asked.step
    (hkept : G.Kept C)
    (hasks : ∀ key s, G.session key s → ∀ i ∈ C.ask s, asked key i)
    (e : Event κ ν) (hallowed : G.Allowed e net) (hholds : G.Holds C net)
    (h : Asked asked net) :
    Asked asked (Exchange.step C e net) := by
  cases e with
  | start key =>
      rw [Exchange.step, if_pos hholds.up]
      refine h.start (fun s hstart => ?_)
      obtain ⟨s', hs', hsession⟩ := hkept.start key hallowed
      obtain rfl := Option.some.inj (hs'.symm.trans hstart)
      exact hasks key s' hsession
  | work n m env =>
      rw [Exchange.step, Net.work]
      split
      · split_ifs
        · exact h
        · exact h
      · exact h
  | hear n m env =>
      rw [Exchange.step, if_pos hholds.up]
      exact h.hear hkept hasks hholds n m env
  | timeout n =>
      rw [Exchange.step, if_pos hholds.up]
      exact h.timeout hkept hasks hholds n

/-- Every question in the network was asked by one of the sessions. -/
theorem Kept.exists_asker
    (hkept : G.Kept C)
    (hasks : ∀ key s, G.session key s → ∀ i ∈ C.ask s, asked key i)
    {events : List (Event κ ν)}
    (hrun : Machine.Along (Exchange.step C) G.Allowed events net)
    (hholds : G.Holds C net) (h : Asked asked net) :
    Asked asked (Machine.final (Exchange.step C) events net) := by
  refine (hrun.invariant (I := fun net' => G.Holds C net' ∧
    Asked asked net') ?_ ⟨hholds, h⟩).2
  rintro e net' hallowed ⟨hholds', h'⟩
  exact ⟨Holds.step hkept e net' hallowed hholds',
    Asked.step hkept hasks e hallowed hholds' h'⟩

end Asked

end Contract

end Exchange

import LanRoom.Mobile.Moves

/-! # Where the calls inside a thread come from

A call of `attach`, `search` or `login` that is found inside a thread after a section has just been
made, or was there before and has performed the section itself. -/

namespace LanRoom.Mobile

/-! ## Fresh calls -/

/-- A call of `attach` has just been made. -/
def FreshAttach (s s' : Room) (a : Attach) : Prop :=
  ∃ s₁ server, s.generation ≤ s₁.generation ∧ s' = (Room.attach s₁ server).1 ∧
    a = (Room.attach s₁ server).2

/-- `attach` is not yet at another call. It calls it only after it has found and verified a
server. -/
theorem attach?_search (s : Room) (another : Bool) : (s.search another).2.attach? = none := by
  unfold Room.search
  split <;> rfl

/-! ## `attach` -/

/-- The search attaches to the preferred server among those it has found. -/
theorem FreshAttach.verified {x : Search} {s s' : Room} {servers : List FoundServer} {x' : Search}
    {a' : Attach} (h : x.verified s servers = (s', x')) (h' : x'.attach? = some a') :
    FreshAttach s s' a' := by
  unfold Search.verified at h
  split at h
  · cases h
    cases h'
  · simp only at h
    split at h
    · cases h
      cases h'
      exact ⟨{ s with servers := byID servers, busy := false }, _, le_refl _, rfl, rfl⟩
    · cases h
      cases h'

/-- The `attach` of a search is called once its servers are verified. -/
theorem Search.attach?_step {x x' : Search} {k : Outcome} {s s' : Room} {a' : Attach}
    (h : x.step k s = some (s', x')) (h' : x'.attach? = some a') :
    (∃ a, x.attach? = some a ∧ a.step false k s = some (s', a')) ∨ FreshAttach s s' a' := by
  -- the loop over the offers: `attach` is called when no offer is left to probe
  have hnext : ∀ (s₁ : Room) (verified rest : List FoundServer), s.generation = s₁.generation →
      x.next s₁ verified rest = (s', x') → FreshAttach s s' a' := by
    intro s₁ verified rest hle heq
    cases rest with
    | nil =>
        obtain ⟨s₂, server, hle', hs', ha'⟩ := FreshAttach.verified heq h'
        exact ⟨s₂, server, hle.le.trans hle', hs', ha'⟩
    | cons server rest =>
        cases heq
        cases h'
  unfold step at h
  split at h
  · split at h <;> cases h
    cases h'
  · split at h <;> cases h <;> cases h'
  · split at h <;> cases h <;> cases h'
  · split at h
    · cases h
      cases h'
    · -- the first offer of an answered `discover`
      split at h
      · exact .inr (hnext s _ _ rfl (Option.some.inj h))
      · cases h
    · cases h
  · -- a probe: its client is closed, and the next offer follows
    rename_i r server rest verified _
    split at h
    · exact .inr (hnext (s.closeClient r.client) _ _ rfl (Option.some.inj h))
    · obtain ⟨y, hstep, heq⟩ := Option.map_eq_some_iff.mp h
      cases heq
      cases h'
  · -- inside `attach`, which performs the section itself
    rename_i a hpc
    split at h
    · cases h
      cases h'
    · obtain ⟨y, hstep, heq⟩ := Option.map_eq_some_iff.mp h
      cases heq
      cases h'
      exact .inl ⟨a, by simp only [attach?, hpc], hstep⟩
  · cases h

/-- `_recover` attaches to the selected server. Without a selected server it searches instead. -/
theorem FreshAttach.recover {s : Room} {a' : Attach} (h' : s.recover.2.attach? = some a') :
    FreshAttach s s.recover.1 a' := by
  unfold Room.recover at h' ⊢
  split at h'
  · cases h'
  · rename_i hgoes
    rw [if_neg hgoes]
    split at h'
    · rename_i server hselected
      simp only
      cases h'
      exact ⟨s, server, le_refl _, rfl, rfl⟩
    · unfold Room.fallBack at h'
      split at h'
      · cases h'
      · split at h'
        · rw [show (RecoverPC.search (s.search false).2).attach? = (s.search false).2.attach? from rfl,
            attach?_search] at h'
          cases h'
        · cases h'

/-- A search run by another method: it goes on with the `attach` it is in, or has just called one. -/
theorem Search.attach?_inner {x x' : Search} {k : Outcome} {s s' : Room} {a' : Attach}
    (h : x.step k s = some (s', x')) (h' : x'.attach? = some a') :
    (∃ a silent, x.attach? = some a ∧ a.step silent k s = some (s', a')) ∨ FreshAttach s s' a' := by
  rcases Search.attach?_step h h' with ⟨a, ha, hstep⟩ | hfresh
  · exact .inl ⟨a, false, ha, hstep⟩
  · exact .inr hfresh

/-- The `attach` of `_recover` is its own, a silent one, or the one of the search it falls back to. -/
theorem RecoverPC.attach?_step {pc pc' : RecoverPC} {k : Outcome} {s s' : Room} {a' : Attach}
    (h : pc.step k s = some (s', pc')) (h' : pc'.attach? = some a') :
    (∃ a silent, pc.attach? = some a ∧ a.step silent k s = some (s', a')) ∨ FreshAttach s s' a' := by
  unfold step at h
  split at h
  · rename_i a
    split at h
    · cases h
      cases h'
    · -- the silent `attach` gave `false`: what follows is a search or the timer, no `attach`
      have heq := Option.some.inj h
      unfold Room.fallBack at heq
      split at heq
      · cases heq
        cases h'
      · split at heq
        · cases heq
          rw [show (RecoverPC.search (s.search false).2).attach? = (s.search false).2.attach? from rfl,
            attach?_search] at h'
          cases h'
        · cases heq
          cases h'
    · obtain ⟨y, hstep, heq⟩ := Option.map_eq_some_iff.mp h
      cases heq
      cases h'
      exact .inl ⟨a, true, rfl, hstep⟩
  · -- a search called by `_recover`
    rename_i x
    split at h
    · cases h
      cases h'
    · obtain ⟨y, hstep, heq⟩ := Option.map_eq_some_iff.mp h
      cases heq
      exact Search.attach?_inner hstep h'
  · cases h

/-- The place of `_recover` in a `reconnect` that has just started it. -/
theorem FreshAttach.restart {s : Room} {a' : Attach}
    (h' : (Thread.reconnect s.restart.2).attach? = some a') : FreshAttach s s.restart.1 a' :=
  FreshAttach.recover (s := { s with retry := false }) h'

/-- `reconnect` calls `attach` only through `_recover`. The timer is cancelled before, which no call
of `attach` looks at. -/
theorem FreshAttach.reconnect {s : Room} {probe : Bool} {a' : Attach}
    (h' : (Thread.reconnect (s.reconnect probe).2).attach? = some a') :
    FreshAttach s (s.reconnect probe).1 a' := by
  unfold Room.reconnect at h' ⊢
  split at h'
  · cases h'
  · rename_i hgoes
    rw [if_neg hgoes]
    split at h'
    · split at h' <;> cases h'
    · rename_i hopen
      rw [if_neg hopen]
      exact FreshAttach.restart h'

/-- The first section of a call. Of the calls that the user can make, those on a chosen server lead
there directly. -/
theorem Call.attach?_start {c : Call} {s s' : Room} {th' : Thread} {a' : Attach}
    (h : c.start s = some (s', th')) (h' : th'.attach? = some a') : FreshAttach s s' a' := by
  cases c with
  | search another =>
      cases h
      rw [show (Thread.search (s.search another).2).attach? = (s.search another).2.attach? from rfl,
        attach?_search] at h'
      cases h'
  | manual base =>
      cases h
      unfold Room.manual at h'
      split at h' <;> cases h'
  | attach server =>
      cases h
      cases h'
      exact ⟨s, server, le_refl _, rfl, rfl⟩
  | login =>
      cases h
      cases h'
  | rename value =>
      cases h
      unfold Room.rename at h'
      split at h' <;> cases h'
  -- coming to the foreground is `reconnect`, whose `_recover` may call `attach` at once
  | foreground active =>
      cases h
      cases active with
      | false => cases h'
      | true =>
          have heq : s.setForeground true = ({ s with foreground := true } : Room).reconnect false :=
            rfl
          rw [heq] at h' ⊢
          exact FreshAttach.reconnect (s := { s with foreground := true }) h'
  | text value =>
      cases h
      cases h'
  | choose recipients =>
      cases h
      cases h'
  -- the timer fires into `_recover`
  | retry =>
      simp only [Call.start] at h
      split at h <;> cases h
      unfold Room.fireRetry at h' ⊢
      split at h'
      · rename_i hfires
        rw [if_pos hfires]
        exact FreshAttach.recover (s := { s with retry := false }) h'
      · split at h' <;> cases h'
  | network =>
      simp only [Call.start] at h
      split at h <;> cases h
      cases h'
  | debounce =>
      simp only [Call.start] at h
      split at h <;> cases h
      unfold Room.fireDebounce at h' ⊢
      split at h'
      · rename_i hfires
        rw [if_pos hfires]
        exact FreshAttach.reconnect (s := { s with debounce := false }) h'
      · cases h'
  | frame ws f =>
      simp only [Call.start] at h
      split at h
      · cases h
      · split at h
        · cases h
        · split at h <;> cases h <;> cases h'
  -- the end of the current socket goes to `_recover` as well, after the state is set back
  | lost ws =>
      simp only [Call.start] at h
      split at h
      · cases h
      · split at h <;> cases h
        unfold Room.lostSocket Room.lost at h' ⊢
        simp only at h' ⊢
        split at h'
        · cases h'
        · rename_i hcurrent
          rw [if_neg hcurrent]
          split at h'
          · rename_i hgoes
            rw [if_pos hgoes]
            obtain ⟨s₁, server, hle, hs', ha'⟩ := FreshAttach.recover h'
            exact ⟨s₁, server, hle, hs', ha'⟩
          · cases h'
  | drop ws =>
      cases h
      cases h'
  | transfer =>
      simp only [Call.start] at h
      split at h <;> cases h <;> cases h'
  | dispose =>
      cases h
      cases h'

/-- The `attach` of `initialize` is the one of its search. Before the search there are only reads of
what has been stored. -/
theorem InitializePC.attach?_step {pc pc' : InitializePC} {k : Outcome} {s s' : Room} {a' : Attach}
    (h : pc.step k s = some (s', pc')) (h' : (Thread.initializing pc').attach? = some a') :
    (∃ a silent, (Thread.initializing pc).attach? = some a ∧ a.step silent k s = some (s', a')) ∨
      FreshAttach s s' a' := by
  unfold InitializePC.step at h
  split at h
  · split at h <;> cases h <;> cases h'
  · split at h <;> cases h <;> cases h'
  · split at h <;> cases h
    · cases h'
    · -- a search that has just been called is not in `attach` yet
      have hnone := attach?_search { s with network := true } false
      have hsome : (({ s with network := true } : Room).search false).2.attach? = some a' := h'
      rw [hnone] at hsome
      cases hsome
  · split at h
    · cases h
      cases h'
    · obtain ⟨z, hinner, heq⟩ := Option.map_eq_some_iff.mp h
      cases heq
      exact Search.attach?_inner hinner h'
  · cases h
  · cases h

/-- `manual` calls `attach` once the address has said who it is, after closing the client it has
asked with. -/
theorem ManualPC.attach?_step {pc pc' : ManualPC} {k : Outcome} {s s' : Room} {a' : Attach}
    (h : pc.step k s = some (s', pc')) (h' : (Thread.manual pc').attach? = some a') :
    (∃ a silent, (Thread.manual pc).attach? = some a ∧ a.step silent k s = some (s', a')) ∨
      FreshAttach s s' a' := by
  unfold ManualPC.step at h
  split at h
  · rename_i base r
    split at h
    · -- the probe is answered; `attach` is called only for an answer of the right form
      have heq := Option.some.inj h
      unfold Room.manualAnswered at heq
      split at heq
      · cases heq
        cases h'
      · split at heq
        · cases heq
          cases h'
        · cases heq
          cases h'
          exact .inr ⟨s.closeClient r.client, _, le_refl _, rfl, rfl⟩
    · cases h
      cases h'
    · obtain ⟨z, -, heq⟩ := Option.map_eq_some_iff.mp h
      cases heq
      cases h'
  · -- inside `attach`
    rename_i a
    split at h
    · cases h
      cases h'
    · obtain ⟨z, hinner, heq⟩ := Option.map_eq_some_iff.mp h
      cases heq
      cases h'
      exact .inl ⟨a, false, rfl, hinner⟩
  · cases h

/-- `rename` calls `attach` for the selected server when the name has been stored. -/
theorem RenamePC.attach?_step {pc pc' : RenamePC} {k : Outcome} {s s' : Room} {a' : Attach}
    (h : pc.step k s = some (s', pc')) (h' : (Thread.rename pc').attach? = some a') :
    (∃ a silent, (Thread.rename pc).attach? = some a ∧ a.step silent k s = some (s', a')) ∨
      FreshAttach s s' a' := by
  unfold RenamePC.step at h
  split at h
  · split at h <;> cases h <;> cases h'
    exact .inr ⟨s, _, le_refl _, rfl, rfl⟩
  · rename_i a
    split at h
    · cases h
      cases h'
    · obtain ⟨z, hinner, heq⟩ := Option.map_eq_some_iff.mp h
      cases heq
      cases h'
      exact .inl ⟨a, false, rfl, hinner⟩
  · cases h

/-- The `attach` of `reconnect` is the one of `_recover`, which it starts when the probe fails. -/
theorem ReconnectPC.attach?_step {pc pc' : ReconnectPC} {k : Outcome} {s s' : Room} {a' : Attach}
    (h : pc.step k s = some (s', pc')) (h' : (Thread.reconnect pc').attach? = some a') :
    (∃ a silent, (Thread.reconnect pc).attach? = some a ∧ a.step silent k s = some (s', a')) ∨
      FreshAttach s s' a' := by
  unfold ReconnectPC.step at h
  split at h
  · rename_i r
    split at h
    · cases h
      cases h'
    · -- the known address does not answer: `_recover` starts, unless the room is busy by now
      simp only at h
      split at h
      · cases h
        cases h'
      · cases h
        exact .inr (FreshAttach.restart (s := s.closeClient r.client) h')
    · obtain ⟨z, -, heq⟩ := Option.map_eq_some_iff.mp h
      cases heq
      cases h'
  · cases h
    cases h'
  · obtain ⟨z, hinner, heq⟩ := Option.map_eq_some_iff.mp h
    cases heq
    exact RecoverPC.attach?_step hinner h'
  · cases h

/-- A file transfer never calls `attach`. It works with the client that it has found at its
start. -/
theorem attach?_transferStep {r : Request} {th' : Thread} {k : Outcome} {s s' : Room}
    (h : transferStep k s r = some (s', th')) : th'.attach? = none := by
  unfold transferStep at h
  split at h
  · cases h
    rfl
  · cases h
    rfl
  · obtain ⟨y, -, heq⟩ := Option.map_eq_some_iff.mp h
    cases heq
    rfl

/-- **Where a call of `attach` comes from.** A thread that is in `attach` after a section was in the
same call before it, or the section has just made the call. -/
theorem Thread.attach?_step {th th' : Thread} {k : Outcome} {s s' : Room} {a' : Attach}
    (h : th.step k s = some (s', th')) (h' : th'.attach? = some a') :
    (∃ a silent, th.attach? = some a ∧ a.step silent k s = some (s', a')) ∨ FreshAttach s s' a' := by
  cases th with
  -- a call that starts
  | call c => exact .inr (Call.attach?_start h h')
  | transfer r =>
      -- a request of the upload calls nothing
      rw [attach?_transferStep h] at h'
      cases h'
  | ended => cases h
  | search x =>
      obtain ⟨y, hstep, heq⟩ := Option.map_eq_some_iff.mp h
      cases heq
      exact Search.attach?_inner hstep h'
  | attach a =>
      obtain ⟨y, hstep, heq⟩ := Option.map_eq_some_iff.mp h
      cases heq
      cases h'
      exact .inl ⟨a, false, rfl, hstep⟩
  | login l =>
      obtain ⟨y, -, heq⟩ := Option.map_eq_some_iff.mp h
      cases heq
      cases h'
  | recover pc =>
      obtain ⟨y, hstep, heq⟩ := Option.map_eq_some_iff.mp h
      cases heq
      exact RecoverPC.attach?_step hstep h'
  | initializing pc =>
      obtain ⟨y, hstep, heq⟩ := Option.map_eq_some_iff.mp h
      cases heq
      exact InitializePC.attach?_step hstep h'
  | manual pc =>
      obtain ⟨y, hstep, heq⟩ := Option.map_eq_some_iff.mp h
      cases heq
      exact ManualPC.attach?_step hstep h'
  | rename pc =>
      obtain ⟨y, hstep, heq⟩ := Option.map_eq_some_iff.mp h
      cases heq
      exact RenamePC.attach?_step hstep h'
  | reconnect pc =>
      obtain ⟨y, hstep, heq⟩ := Option.map_eq_some_iff.mp h
      cases heq
      exact ReconnectPC.attach?_step hstep h'

/-! ## `login` -/

/-- **Where a call of `login` comes from.** Either the call was there before or the user has just
made it. -/
theorem Thread.login?_step {th th' : Thread} {k : Outcome} {s s' : Room} {l' : Login}
    (h : th.step k s = some (s', th')) (h' : th'.login? = some l') :
    (∃ l, th.login? = some l ∧ l.step k s = some (s', l')) ∨ s' = s.login.1 ∧ l' = s.login.2 := by
  cases th with
  | login l =>
      obtain ⟨y, hstep, heq⟩ := Option.map_eq_some_iff.mp h
      cases heq
      cases h'
      exact .inl ⟨l, rfl, hstep⟩
  -- of the calls that start, only `login` is one; the others are split on what they test first
  | call c =>
      cases c with
      | login =>
          cases h
          cases h'
          exact .inr ⟨rfl, rfl⟩
      | frame ws f =>
          simp only [Thread.step, Call.start] at h
          split at h
          · cases h
          · split at h
            · cases h
            · split at h <;> cases h <;> cases h'
      | lost ws =>
          simp only [Thread.step, Call.start] at h
          split at h
          · cases h
          · split at h <;> cases h
            cases h'
      | transfer =>
          simp only [Thread.step, Call.start] at h
          split at h <;> cases h <;> cases h'
      | retry =>
          simp only [Thread.step, Call.start] at h
          split at h <;> cases h
          cases h'
      | network =>
          simp only [Thread.step, Call.start] at h
          split at h <;> cases h
          cases h'
      | debounce =>
          simp only [Thread.step, Call.start] at h
          split at h <;> cases h
          cases h'
      | _ =>
          cases h
          cases h'
  | transfer r =>
      simp only [Thread.step, transferStep] at h
      split at h
      · cases h
        cases h'
      · cases h
        cases h'
      · obtain ⟨y, -, heq⟩ := Option.map_eq_some_iff.mp h
        cases heq
        cases h'
  | ended => cases h
  | _ =>
      obtain ⟨y, -, heq⟩ := Option.map_eq_some_iff.mp h
      cases heq
      cases h'

/-! ## `_open` -/

/-- `_open` inside `attach` has just been called under a token that is current, or has performed the
section itself. -/
theorem Attach.opening_step {a a' : Attach} {silent : Bool} {k : Outcome} {s s' : Room} {pc' : OpenPC}
    (h : a.step silent k s = some (s', a')) (h' : a'.pc = .opening pc') :
    a'.token = a.token ∧
      ((∃ pc, a.pc = .opening pc ∧ openStep a.token k s pc = some (s', pc')) ∨
        a.token = s.generation ∧ s' = s.cancelSocket ∧ pc' = .cancel) := by
  -- the `catch` returns, so it is not at `_open`
  have hcaught : ∀ {s₁ : Room}, a.caught silent s₁ = (s', a') → False := by
    intro s₁ heq
    unfold caught finish at heq
    split at heq
    · cases heq
      cases h'
    · split at heq <;> cases heq <;> cases h'
  unfold step at h
  split at h
  · split at h <;> cases h
    cases h'
  · split at h
    · have heq := Option.some.inj h
      unfold checked at heq
      split at heq
      · exact (hcaught heq).elim
      · cases heq
        cases h'
    · exact (hcaught (Option.some.inj h)).elim
    · obtain ⟨y, -, heq⟩ := Option.map_eq_some_iff.mp h
      cases heq
      cases h'
  · split at h
    · exact (hcaught (Option.some.inj h)).elim
    · cases h
      cases h'
    · cases h
  · -- the second `info` is answered: `_open` is called under the current token
    split at h
    · have heq := Option.some.inj h
      unfold informed at heq
      split at heq
      · cases heq
        cases h'
      · rename_i hcurrent
        split at heq
        · cases heq
          cases h'
        · cases heq
          cases h'
          exact ⟨rfl, .inr ⟨not_not.mp (not_or.mp hcurrent).1, rfl, rfl⟩⟩
    · exact (hcaught (Option.some.inj h)).elim
    · obtain ⟨y, -, heq⟩ := Option.map_eq_some_iff.mp h
      cases heq
      cases h'
  · cases h
    cases h'
  · exact (hcaught (Option.some.inj h)).elim
  · -- inside `_open`
    rename_i pc _ _ hpc
    obtain ⟨y, hstep, heq⟩ := Option.map_eq_some_iff.mp h
    cases heq
    cases h'
    exact ⟨rfl, .inl ⟨pc, hpc, hstep⟩⟩
  · cases h

/-- `_open` inside `login` has just been called under the present generation, or has performed the
section itself. -/
theorem Login.opening_step {l l' : Login} {k : Outcome} {s s' : Room} {token : ℕ} {pc' : OpenPC}
    (h : l.step k s = some (s', l')) (h' : l'.pc = .opening token pc') :
    (∃ pc, l.pc = .opening token pc ∧ openStep token k s pc = some (s', pc')) ∨
      l.pc = .write ∧ token = s.generation ∧ s' = (l.stored s).1 ∧ pc' = .cancel := by
  unfold step at h
  split at h
  · split at h
    · have heq := Option.some.inj h
      unfold accepted at heq
      split at heq
      · cases heq
        cases h'
      · split at heq <;> cases heq <;> cases h'
    · cases h
      cases h'
    · obtain ⟨y, -, heq⟩ := Option.map_eq_some_iff.mp h
      cases heq
      cases h'
  · -- the cookie is stored: `_open` is called under the generation of this moment
    rename_i hpc
    split at h
    · cases h
      cases h'
    · cases h
      cases h'
      exact .inr ⟨hpc, rfl, rfl, rfl⟩
    · cases h
  · cases h
    cases h'
  · cases h
    cases h'
  · -- inside `_open`
    rename_i token pc _ _ hpc
    obtain ⟨y, hstep, heq⟩ := Option.map_eq_some_iff.mp h
    cases heq
    cases h'
    exact .inl ⟨pc, hpc, hstep⟩
  · cases h

end LanRoom.Mobile

import LanRoom.Mobile.Sections

/-! # What the operations do to the flags

The sections of `_open`, `attach`, `search` and `login`, with those put together that the flags do
not notice, and what the calls of `attach` and `search` do first. -/

namespace LanRoom.Mobile

/-! ## Tokens -/

/-- The tokens of an operation are not ahead of the generation, and that of an `attach` is newer
than that of the search that has called it. -/
def Op.Valid (s : Room) : Op → Prop
  | .idle => True
  | .attach caller a =>
      a.token ≤ s.generation ∧ ∀ token, caller = .search token → token < a.token
  | .search x => x.token ≤ s.generation
  | .login l => l.token ≤ s.generation ∧ ∀ token pc, l.pc = .opening token pc → token ≤ s.generation

/-- The tokens of an operation stay behind a generation that grows. -/
theorem Op.Valid.later {s s' : Room} {op : Op} (h : op.Valid s) (hlater : s.generation ≤ s'.generation) :
    op.Valid s' := by
  cases op with
  | idle => exact h
  | attach caller a => exact ⟨h.1.trans hlater, h.2⟩
  | search x => exact Nat.le_trans h hlater
  | login l => exact ⟨h.1.trans hlater, fun token pc hpc => (h.2 token pc hpc).trans hlater⟩

/-! ## `_open` -/

/-- A section of `_open`: only the last one sets flags. Before that it may find that it has been
overtaken, and closes its own socket again. -/
theorem openStep_quiet {token : ℕ} {k : Outcome} {s s' : Room} {pc pc' : OpenPC}
    (h : openStep token k s pc = some (s', pc')) :
    (∃ ws, pc = .lastAddress ws ∧ s' = (openConnected token s ws).1 ∧
      pc' = (openConnected token s ws).2) ∨
    Quiet s s' ∧ (pc' = .returned → pc = .closeStale) ∧
      (pc' = .closeStale → token ≠ s.generation ∨ s.disposed = true) := by
  cases pc with
  | cancel =>
      simp only [openStep] at h
      split at h <;> cases h
      exact .inr ⟨.closeWS s _, by simp, by simp⟩
  | close =>
      simp only [openStep] at h
      split at h <;> cases h
      · exact .inr ⟨.refl s, by simp, by simp⟩
      · exact .inr ⟨.refl s, by simp, by simp⟩
      · exact .inr ⟨.handshake s _, by simp, by simp⟩
  | connect c openedFor =>
      simp only [openStep] at h
      split at h
      · cases h
        exact .inr ⟨.refl s, by simp, by simp⟩
      · split at h <;> cases h
        exact .inr ⟨.established s c _, by simp, by simp⟩
      · cases h
  -- `connect` has returned: the only place where `_open` looks at its token
  | connected ws =>
      simp only [openStep] at h
      split at h
      · rename_i hstale
        cases h
        exact .inr ⟨.closeWS s _, by simp, fun _ => hstale.symm⟩
      · split at h <;> cases h
        · exact .inr ⟨.refl s, by simp, by simp⟩
        · exact .inr ⟨.of_eq rfl rfl rfl rfl rfl rfl rfl rfl rfl rfl rfl, by simp, by simp⟩
  | closeStale =>
      simp only [openStep] at h
      split at h <;> cases h
      · exact .inr ⟨.refl s, by simp, by simp⟩
      · exact .inr ⟨.refl s, by simp, by simp⟩
  | preferred ws =>
      simp only [openStep] at h
      split at h <;> cases h
      · exact .inr ⟨.refl s, by simp, by simp⟩
      · exact .inr ⟨.refl s, by simp, by simp⟩
      · exact .inr ⟨.write s _ _, by simp, by simp⟩
  -- the last section, which sets `connected` and listens
  | lastAddress ws =>
      simp only [openStep] at h
      split at h
      · cases h
        exact .inr ⟨.refl s, by simp, by simp⟩
      · have heq := Option.some.inj h
        exact .inl ⟨ws, rfl, (congrArg Prod.fst heq).symm, (congrArg Prod.snd heq).symm⟩
      · cases h
  | returned => cases h
  | threw => cases h

/-- The old client is closed and replaced. What `attach` does to the client is one quiet change and
one assignment. -/
theorem Room.renew_eq (s : Room) (token : ℕ) (server : FoundServer) : ∃ s₁ client,
    Quiet s s₁ ∧ s.renew token server = { s₁ with client } := by
  refine ⟨((s.note (.cancelled token s.generation)).closeCurrent).newClient
    { base := server.uri, owner := some server.id }, _, ?_, rfl⟩
  exact ((Quiet.note s _).trans (.closeCurrent _)).trans (.newClient _ _)

/-- The old client is closed and dropped. A search that finds nothing leaves the room without
one. -/
theorem Room.release_eq (s : Room) (token : ℕ) : ∃ s₁,
    Quiet s s₁ ∧ s.release token = { s₁ with client := none } := by
  refine ⟨(s.note (.cancelled token s.generation)).closeCurrent, ?_, rfl⟩
  exact (Quiet.note s _).trans (.closeCurrent _)

/-! ## `attach` -/

/-- `attach` has replaced the client and is not yet in `_open`. -/
def AttachPC.IsEarly : AttachPC → Prop
  | .plainInfo _ | .read _ | .info _ => True
  | _ => False

/-- What a section of `attach` does. -/
inductive Attach.Effect (silent : Bool) (k : Outcome) (a : Attach) (s : Room) : Room → Attach → Prop
  | renew (ha : a.pc = .cancel) : Effect silent k a s (s.renew a.token a.server)
      { a with pc := .plainInfo ⟨s.clients.length, .info, .opening⟩ }
  /-- Part of a request, or the reading of the cookie. -/
  | quiet {s' : Room} {pc : AttachPC} (ha : a.pc.IsEarly) (hpc : pc.IsEarly) (h : Quiet s s') :
      Effect silent k a s s' { a with pc }
  | caught (ha : a.pc.IsEarly ∨ a.pc = .opening .threw) :
      Effect silent k a s (a.caught silent s).1 (a.caught silent s).2
  /-- Another operation has started, or the room is gone. -/
  | stale (ha : a.pc.IsEarly) (h : a.token ≠ s.generation ∨ s.disposed = true) :
      Effect silent k a s (a.finish s true).1 (a.finish s true).2
  | askPin (next : ℕ) (ha : a.pc.IsEarly) (htoken : a.token = s.generation)
      (hdisposed : s.disposed = false) :
      Effect silent k a s (a.finish (s.askPin next) true).1 (a.finish (s.askPin next) true).2
  | openSocket (ha : a.pc.IsEarly) (htoken : a.token = s.generation) (hdisposed : s.disposed = false) :
      Effect silent k a s s.cancelSocket { a with pc := .opening .cancel }
  | opening {s' : Room} {pc pc' : OpenPC} (ha : a.pc = .opening pc)
      (h : openStep a.token k s pc = some (s', pc')) :
      Effect silent k a s s' { a with pc := .opening pc' }
  | opened (ha : a.pc = .opening .returned) :
      Effect silent k a s (a.finish s true).1 (a.finish s true).2

/-- The effect of a section that is written as the pair it leads to. -/
theorem Attach.Effect.of_eq {silent : Bool} {k : Outcome} {a a' : Attach} {s s' : Room}
    {x : Room × Attach} (h : Effect silent k a s x.1 x.2) (heq : some x = some (s', a')) :
    Effect silent k a s s' a' := by
  obtain rfl := Option.some.inj heq
  exact h

/-- **Every section of `attach` is one of these**: a check of the token decides at each program
point after an `await`. Later proofs speak of what was changed and of the next program point and do
not unfold the sections. -/
theorem Attach.effect {silent : Bool} {k : Outcome} {a a' : Attach} {s s' : Room}
    (h : a.step silent k s = some (s', a')) : Effect silent k a s s' a' := by
  unfold step at h
  split at h
  · -- `_socket?.cancel()` has returned
    split at h <;> cases h
    exact .renew ‹_›
  · rename_i r hpc
    have ha : a.pc.IsEarly := by rw [hpc]; trivial
    split at h
    · -- the first `info` is answered: its id is checked
      refine .of_eq ?_ h
      unfold checked
      split
      · exact .caught (.inl ha)
      · exact .quiet ha trivial (.refl s)
    · exact .of_eq (.caught (.inl ha)) h
    · obtain ⟨y, hstep, heq⟩ := Option.map_eq_some_iff.mp h
      cases heq
      exact .quiet ha trivial (.request hstep)
  · rename_i next hpc
    have ha : a.pc.IsEarly := by rw [hpc]; trivial
    split at h
    · exact .of_eq (.caught (.inl ha)) h
    · cases h
      exact .quiet ha trivial (.modifyClient s _ _)
    · cases h
  · rename_i r hpc
    have ha : a.pc.IsEarly := by rw [hpc]; trivial
    split at h
    · -- the second `info` is answered: the token is checked
      refine .of_eq ?_ h
      unfold informed
      split
      · exact .stale ha ‹_›
      · rename_i hcurrent
        obtain ⟨htoken, hdisposed⟩ := not_or.mp hcurrent
        have hdisposed : s.disposed = false := Bool.not_eq_true _ |>.mp hdisposed
        split
        · exact .askPin _ ha (not_not.mp htoken) hdisposed
        · exact .openSocket ha (not_not.mp htoken) hdisposed
    · exact .of_eq (.caught (.inl ha)) h
    · obtain ⟨y, hstep, heq⟩ := Option.map_eq_some_iff.mp h
      cases heq
      exact .quiet ha trivial (.request hstep)
  · exact .of_eq (.opened ‹_›) h
  · exact .of_eq (.caught (.inr ‹_›)) h
  · -- inside `_open`
    obtain ⟨y, hstep, heq⟩ := Option.map_eq_some_iff.mp h
    cases heq
    exact .opening ‹_› hstep
  · cases h

/-! ## `search` -/

/-- `search` has released the client and has not chosen a server. -/
def SearchPC.IsEarly : SearchPC → Prop
  | .permission | .interfaces | .discover | .probe .. => True
  | _ => False

/-- What a section of `search` does. -/
inductive Search.Effect (k : Outcome) (x : Search) (s : Room) : Room → Search → Prop
  | release (hx : x.pc = .cancel) : Effect k x s (s.release x.token) { x with pc := .permission }
  | quiet {s' : Room} {pc : SearchPC} (hx : x.pc.IsEarly) (hpc : pc.IsEarly) (h : Quiet s s') :
      Effect k x s s' { x with pc }
  | caught (hx : x.pc.IsEarly) : Effect k x s (x.caught s).1 (x.caught s).2
  /-- Another operation has started, or the room is gone. -/
  | stale {s₁ : Room} (hx : x.pc.IsEarly) (hquiet : Quiet s s₁)
      (h : s₁.disposed = true ∨ x.token ≠ s₁.generation) :
      Effect k x s (x.finish s₁).1 (x.finish s₁).2
  | startAttach {s₁ : Room} (servers : List FoundServer) (server : FoundServer) (hx : x.pc.IsEarly)
      (hquiet : Quiet s s₁) (htoken : x.token = s₁.generation) (hdisposed : s₁.disposed = false) :
      Effect k x s (Room.attach { s₁ with servers := servers, busy := false } server).1
        { x with pc := .attach (Room.attach { s₁ with servers := servers, busy := false } server).2 }
  | leave {s₁ : Room} (servers : List FoundServer) (hx : x.pc.IsEarly)
      (hquiet : Quiet s s₁) (htoken : x.token = s₁.generation) (hdisposed : s₁.disposed = false) :
      Effect k x s (x.finish (Room.leave { s₁ with servers := servers, busy := false } x.chooseAnother)).1
        (x.finish (Room.leave { s₁ with servers := servers, busy := false } x.chooseAnother)).2

/-- The same for `search`. It lets an effect be stated about the result of a section before the
result is named. -/
theorem Search.Effect.of_eq {k : Outcome} {x x' : Search} {s s' : Room} {y : Room × Search}
    (h : Effect k x s y.1 y.2) (heq : some y = some (s', x')) : Effect k x s s' x' := by
  obtain rfl := Option.some.inj heq
  exact h

/-- The search goes on to the next server, or to its end. A server that does not answer, or not as
expected, is skipped in this way. -/
theorem Search.Effect.next {k : Outcome} {x : Search} {s s₁ : Room} (hx : x.pc.IsEarly)
    (h : Quiet s s₁) (verified rest : List FoundServer) :
    Effect k x s (x.next s₁ verified rest).1 (x.next s₁ verified rest).2 := by
  cases rest with
  | cons server rest => exact .quiet hx trivial (h.trans (.newClient s₁ _))
  | nil =>
      show Effect k x s (x.verified s₁ verified).1 (x.verified s₁ verified).2
      unfold Search.verified
      split
      · exact .stale hx h ‹_›
      · rename_i hcurrent
        obtain ⟨hdisposed, htoken⟩ := not_or.mp hcurrent
        have hdisposed : s₁.disposed = false := Bool.not_eq_true _ |>.mp hdisposed
        simp only
        split
        · exact .startAttach _ _ hx h (not_not.mp htoken) hdisposed
        · exact .leave _ hx h (not_not.mp htoken) hdisposed

/-- **Every section of a `search` that is not inside `attach`.** Inside `attach` its sections are
those of `attach`. -/
theorem Search.effect {k : Outcome} {x x' : Search} {s s' : Room} (hop : x.op = .search x)
    (h : x.step k s = some (s', x')) : Effect k x s s' x' := by
  unfold step at h
  split at h
  · -- `_socket?.cancel()` has returned
    split at h <;> cases h
    exact .release ‹_›
  · rename_i hpc
    have hx : x.pc.IsEarly := by rw [hpc]; trivial
    split at h <;> cases h
    · exact .caught hx
    · exact .caught hx
    · exact .quiet hx trivial (.refl s)
  · rename_i hpc
    have hx : x.pc.IsEarly := by rw [hpc]; trivial
    split at h <;> cases h
    · exact .caught hx
    · exact .quiet hx trivial (.refl s)
  · rename_i hpc
    have hx : x.pc.IsEarly := by rw [hpc]; trivial
    split at h
    · exact .of_eq (.caught hx) h
    · split at h
      · exact .of_eq (.next hx (.refl s) _ _) h
      · cases h
    · cases h
  · -- an answered probe: the next one follows, or `attach`, or the search ends
    rename_i r server rest verified hpc
    have hx : x.pc.IsEarly := by rw [hpc]; trivial
    split at h
    · exact .of_eq (.next hx (.closeClient s _) _ _) h
    · obtain ⟨y, hstep, heq⟩ := Option.map_eq_some_iff.mp h
      cases heq
      exact .quiet hx trivial (.request hstep)
  · -- inside `attach`, which is an operation of its own
    rename_i a hpc
    unfold op at hop
    rw [hpc] at hop
    cases hop
  · cases h

/-! ## `login` -/

/-- `login` is not yet in `_open`. -/
def LoginPC.IsEarly : LoginPC → Prop
  | .post _ | .write => True
  | _ => False

/-- What a section of `login` does. -/
inductive Login.Effect (k : Outcome) (l : Login) (s : Room) : Room → Login → Prop
  /-- Part of the request, or the storing of the cookie. -/
  | quiet {s' : Room} {pc : LoginPC} (hl : l.pc.IsEarly) (hpc : pc.IsEarly) (h : Quiet s s') :
      Effect k l s s' { l with pc }
  /-- Another operation has started, or the room is gone. -/
  | stale (hl : l.pc.IsEarly) (h : s.disposed = true ∨ l.token ≠ s.generation) :
      Effect k l s (l.finish s).1 (l.finish s).2
  | caught {token : ℕ} (hl : l.pc.IsEarly ∧ token = l.token ∨ l.pc = .opening token .threw) :
      Effect k l s (l.caught token s).1 (l.caught token s).2
  | stored (hl : l.pc = .write) : Effect k l s (l.stored s).1 (l.stored s).2
  | opening {s' : Room} {token : ℕ} {pc pc' : OpenPC} (hl : l.pc = .opening token pc)
      (h : openStep token k s pc = some (s', pc')) :
      Effect k l s s' { l with pc := .opening token pc' }
  | opened {token : ℕ} (hl : l.pc = .opening token .returned) :
      Effect k l s (l.finish s).1 (l.finish s).2

/-- The same for `login`. It lets an effect be stated about the result of a section before the
result is named. -/
theorem Login.Effect.of_eq {k : Outcome} {l l' : Login} {s s' : Room} {x : Room × Login}
    (h : Effect k l s x.1 x.2) (heq : some x = some (s', l')) : Effect k l s s' l' := by
  obtain rfl := Option.some.inj heq
  exact h

/-- **Every section of `login` is one of these.** The proofs about `login` have one case for each of
them. -/
theorem Login.effect {k : Outcome} {l l' : Login} {s s' : Room} (h : l.step k s = some (s', l')) :
    Effect k l s s' l' := by
  unfold step at h
  split at h
  · rename_i r hpc
    have hl : l.pc.IsEarly := by rw [hpc]; trivial
    split at h
    · -- the PIN was accepted: the token is checked
      refine .of_eq ?_ h
      unfold accepted
      split
      · exact .stale hl ‹_›
      · split
        · exact .quiet hl trivial (.of_eq rfl rfl rfl rfl rfl rfl rfl rfl rfl rfl rfl)
        · exact .caught (.inl ⟨hl, rfl⟩)
    · exact .of_eq (.caught (.inl ⟨hl, rfl⟩)) h
    · obtain ⟨y, hstep, heq⟩ := Option.map_eq_some_iff.mp h
      cases heq
      exact .quiet hl trivial (.request hstep)
  · rename_i hpc
    have hl : l.pc.IsEarly := by rw [hpc]; trivial
    split at h
    · exact .of_eq (.caught (.inl ⟨hl, rfl⟩)) h
    · -- the cookie is stored, and `_open` is called whatever the generation is by now
      exact .of_eq (.stored hpc) h
    · cases h
  · exact .of_eq (.opened ‹_›) h
  · exact .of_eq (.caught (.inr ‹_›)) h
  · -- inside `_open`
    obtain ⟨y, hstep, heq⟩ := Option.map_eq_some_iff.mp h
    cases heq
    exact .opening ‹_› hstep
  · cases h

end LanRoom.Mobile

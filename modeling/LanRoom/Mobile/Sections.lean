import LanRoom.Mobile.Calls

/-! # The sections of an operation

At any time a thread is in at most one of the operations that set the flags of the room: `attach`,
`search` or `login` (`Op`). What a section does to it and to the room is one of a few things
(`Section`), whichever method has called the operation: `Thread.section` is the inversion from which
the invariants about these flags follow. -/

namespace LanRoom.Mobile

/-! ## What the flags do not notice -/

/-- The flags, the timer, the selected server, the client and the subscription are untouched. -/
structure Quiet (s s' : Room) : Prop where
  generation : s'.generation = s.generation
  selected : s'.selected = s.selected
  client : s'.client = s.client
  socket : s'.socket = s.socket
  disposed : s'.disposed = s.disposed
  busy : s'.busy = s.busy
  connected : s'.connected = s.connected
  needsPin : s'.needsPin = s.needsPin
  retry : s'.retry = s.retry
  leftToUser : s'.leftToUser = s.leftToUser
  sockets : ∀ (ws : ℕ) (x : Socket), s.sockets[ws]? = some x → ∃ x' : Socket,
    s'.sockets[ws]? = some x' ∧ x'.client = x.client ∧ x'.token = x.token ∧
      x'.listening = x.listening ∧ x'.ended = x.ended

namespace Quiet

variable {s s' s₁ : Room}

/-- A section that changes nothing. It is what a section that only waits for an answer does. -/
theorem refl (s : Room) : Quiet s s :=
  ⟨rfl, rfl, rfl, rfl, rfl, rfl, rfl, rfl, rfl, rfl, fun _ x hx => ⟨x, hx, rfl, rfl, rfl, rfl⟩⟩

/-- Two changes that the flags do not notice are one. A section is the composition of several such
changes. -/
theorem trans (h : Quiet s s₁) (h' : Quiet s₁ s') : Quiet s s' where
  generation := h'.generation.trans h.generation
  selected := h'.selected.trans h.selected
  client := h'.client.trans h.client
  socket := h'.socket.trans h.socket
  disposed := h'.disposed.trans h.disposed
  busy := h'.busy.trans h.busy
  connected := h'.connected.trans h.connected
  needsPin := h'.needsPin.trans h.needsPin
  retry := h'.retry.trans h.retry
  leftToUser := h'.leftToUser.trans h.leftToUser
  sockets := by
    intro ws x hx
    obtain ⟨y, hy, hclient, htoken, hlistening, hended⟩ := h.sockets ws x hx
    obtain ⟨z, hz, hclient', htoken', hlistening', hended'⟩ := h'.sockets ws y hy
    exact ⟨z, hz, hclient'.trans hclient, htoken'.trans htoken, hlistening'.trans hlistening,
      hended'.trans hended⟩

/-- Other fields change. Most of the small updates of the room are of this form. -/
theorem of_eq (hgeneration : s'.generation = s.generation) (hselected : s'.selected = s.selected)
    (hclient : s'.client = s.client) (hsocket : s'.socket = s.socket)
    (hdisposed : s'.disposed = s.disposed) (hbusy : s'.busy = s.busy)
    (hconnected : s'.connected = s.connected) (hneedsPin : s'.needsPin = s.needsPin)
    (hretry : s'.retry = s.retry) (hleft : s'.leftToUser = s.leftToUser)
    (hsockets : s'.sockets = s.sockets) : Quiet s s' := by
  refine ⟨hgeneration, hselected, hclient, hsocket, hdisposed, hbusy, hconnected, hneedsPin, hretry,
    hleft, fun ws x hx => ⟨x, ?_, rfl, rfl, rfl, rfl⟩⟩
  rw [hsockets]
  exact hx

/-- What is noted is not one of the flags. The log is read by the statements and not by the
program. -/
theorem note (s : Room) (e : Event) : Quiet s (s.note e) :=
  .of_eq rfl rfl rfl rfl rfl rfl rfl rfl rfl rfl rfl

/-- The storage is not looked at. It is read again at the next start of the app. -/
theorem write (s : Room) (key value : DartString) : Quiet s (s.write key value) :=
  .of_eq rfl rfl rfl rfl rfl rfl rfl rfl rfl rfl rfl

/-- A new client is not the current one. It becomes that when `attach` selects it. -/
theorem newClient (s : Room) (x : LanClient) : Quiet s (s.newClient x) :=
  .of_eq rfl rfl rfl rfl rfl rfl rfl rfl rfl rfl rfl

/-- What a client has stored in it is not looked at. Cookies and answers are kept there. -/
theorem modifyClient (s : Room) (c : ℕ) (f : LanClient → LanClient) : Quiet s (s.modifyClient c f) :=
  .of_eq rfl rfl rfl rfl rfl rfl rfl rfl rfl rfl rfl

/-- Sending a cookie is only noted. The request itself is the business of the server. -/
theorem sendCookie (s : Room) (c : ℕ) : Quiet s (s.sendCookie c) :=
  .of_eq rfl rfl rfl rfl rfl rfl rfl rfl rfl rfl rfl

/-- The handshake of a socket is only noted. Whether it succeeds is decided by the outcome of the
section. -/
theorem handshake (s : Room) (c : ℕ) : Quiet s (s.handshake c) :=
  .of_eq rfl rfl rfl rfl rfl rfl rfl rfl rfl rfl rfl

/-- The state of a socket is not part of its subscription. The subscription ends when the end of the
socket is noticed. -/
theorem closeWS (s : Room) (ws : Option ℕ) : Quiet s (s.closeWS ws) := by
  refine ⟨rfl, rfl, rfl, rfl, rfl, rfl, rfl, rfl, rfl, rfl, fun ws' x hx => ?_⟩
  cases ws with
  | none => exact ⟨x, hx, rfl, rfl, rfl, rfl⟩
  | some ws =>
      by_cases hws : ws = ws'
      · subst hws
        exact ⟨{ x with isOpen := false }, by simp [Room.closeWS, hx], rfl, rfl, rfl, rfl⟩
      · exact ⟨x, by simp [Room.closeWS, hws, hx], rfl, rfl, rfl, rfl⟩

/-- Closing a client closes its socket; its subscription ends when the socket reports that. -/
theorem closeClient (s : Room) (c : ℕ) : Quiet s (s.closeClient c) :=
  (closeWS s (s.socketOf c)).trans (modifyClient _ c _)

/-- Closing the current client leaves it the current one until it is replaced. -/
theorem closeCurrent (s : Room) : Quiet s s.closeCurrent := by
  refine (closeWS s s.currentSocket).trans ?_
  exact .of_eq rfl rfl rfl rfl rfl rfl rfl rfl rfl rfl rfl

/-- A new socket is added behind the others, so those keep their places. -/
theorem established (s : Room) (c : ℕ) (x : Socket) : Quiet s (s.established c x) :=
  ⟨rfl, rfl, rfl, rfl, rfl, rfl, rfl, rfl, rfl, rfl, fun _ y hy =>
    ⟨y, ThreadPool.getElem?_append hy [x], rfl, rfl, rfl, rfl⟩⟩

/-- No section of a request touches the flags. It changes what its client has heard. -/
theorem request {r r' : Request} {k : Outcome} (h : r.step k s = some (s', r')) : Quiet s s' := by
  unfold Request.step at h
  split at h
  · cases h
    exact refl s
  · split at h <;> cases h
    exact sendCookie s _
  · cases h
    exact refl s
  · split at h <;> cases h
    exact modifyClient s _ _
  · cases h
    exact refl s
  · cases h
    exact modifyClient s _ _
  · cases h

end Quiet

/-! ## Operations -/

/-- Who has called `attach`. -/
inductive Caller
  | user
  /-- A `search` with this token. -/
  | search (token : ℕ)
  | recover
  deriving DecidableEq

/-- `silent`. -/
def Caller.isSilent : Caller → Bool
  | .recover => true
  | _ => false

/-- The operation that a thread is in. -/
inductive Op
  | idle
  | attach (caller : Caller) (a : Attach)
  | search (x : Search)
  | login (l : Login)

def Search.op (x : Search) : Op :=
  match x.pc with
  | .attach a => .attach (.search x.token) a
  | .returned => .idle
  | _ => .search x

def RecoverPC.op : RecoverPC → Op
  | .attach a => .attach .recover a
  | .search x => x.op
  | .returned => .idle

def Login.op (l : Login) : Op :=
  match l.pc with
  | .returned => .idle
  | _ => .login l

/-- The operation of a thread. -/
def Thread.op : Thread → Op
  | .attach a | .manual (.attach a) | .rename (.attach a) => .attach .user a
  | .search x | .initializing (.search x) => x.op
  | .login l => l.op
  | .recover pc | .reconnect (.recover pc) => pc.op
  | _ => .idle

/-- What a section does to the room and to its operation. -/
inductive Section (k : Outcome) (s : Room) : Op → Room → Op → Prop
  /-- `attach` goes on. -/
  | attach {caller : Caller} {a a' : Attach} {s' : Room}
      (h : a.step caller.isSilent k s = some (s', a')) :
      Section k s (.attach caller a) s' (.attach caller a')
  /-- `search` goes on. -/
  | search {x x' : Search} {s' : Room} (hx : x.op = .search x) (h : x.step k s = some (s', x')) :
      Section k s (.search x) s' x'.op
  /-- `login` goes on. -/
  | login {l l' : Login} {s' : Room} (h : l.step k s = some (s', l')) :
      Section k s (.login l) s' l'.op
  /-- The caller of `attach` goes on and returns. -/
  | returned {caller : Caller} {a : Attach} {reached : Bool} (ha : a.pc = .returned reached)
      (hcaller : caller = .user ∨ caller = .recover ∧ reached = true) :
      Section k s (.attach caller a) s .idle
  /-- `search` goes on after `attach`, and returns. -/
  | searched {x : Search} {a : Attach} {reached : Bool} (ha : a.pc = .returned reached) :
      Section k s (.attach (.search x.token) a) (x.finish s).1 .idle
  /-- `_recover` goes on after a failure of `attach`. -/
  | fallBack {a : Attach} (ha : a.pc = .returned false) :
      Section k s (.attach .recover a) (s.fallBack (some a.server)).1
        (s.fallBack (some a.server)).2.op
  /-- Nothing that the flags would notice. -/
  | quiet {s' : Room} (h : Quiet s s') : Section k s .idle s' .idle
  /-- `attach` is called. -/
  | startAttach {s₁ : Room} (server : FoundServer) (h : Quiet s s₁) :
      Section k s .idle (s₁.attach server).1 (.attach .user (s₁.attach server).2)
  /-- `search` is called. -/
  | startSearch {s₁ : Room} (another : Bool) (h : Quiet s s₁) :
      Section k s .idle (s₁.search another).1 (s₁.search another).2.op
  /-- `login` is called. -/
  | startLogin : Section k s .idle s.login.1 s.login.2.op
  /-- `reconnect` gives the connection up. -/
  | restart {s₁ : Room} (h : Quiet s s₁) (hbusy : s₁.busy = false) :
      Section k s .idle ({ s₁ with retry := false } : Room).recover.1
        ({ s₁ with retry := false } : Room).recover.2.op
  /-- The timer fires. -/
  | fireRetry : Section k s .idle ({ s with retry := false } : Room).fireRetry.1
      ({ s with retry := false } : Room).fireRetry.2.op
  /-- A socket is lost. -/
  | lost {ws : ℕ} {x : Socket} (hx : s.sockets[ws]? = some x) (hlistening : x.listening = true) :
      Section k s .idle (s.lostSocket ws x).1 (s.lostSocket ws x).2.op
  /-- A request for a file transfer fails. -/
  | handleExpired (e : Failure) : Section k s .idle (s.handleExpired e) .idle
  | dispose : Section k s .idle s.dispose .idle

/-! ## Tokens -/

/-- **`attach` keeps its token and its server.** So what its checks compare is what it was called
with. -/
theorem Attach.step_same {a a' : Attach} {silent : Bool} {k : Outcome} {s s' : Room}
    (h : a.step silent k s = some (s', a')) : a'.token = a.token ∧ a'.server = a.server := by
  have hcaught : ∀ s₁ : Room, (a.caught silent s₁).2.token = a.token ∧
      (a.caught silent s₁).2.server = a.server := by
    intro s₁
    unfold caught
    split
    · exact ⟨rfl, rfl⟩
    · split <;> exact ⟨rfl, rfl⟩
  -- a section that is written as the pair it leads to
  have hof : ∀ {x : Room × Attach}, x.2.token = a.token ∧ x.2.server = a.server →
      some x = some (s', a') → a'.token = a.token ∧ a'.server = a.server := by
    intro x hx heq
    obtain rfl := Option.some.inj heq
    exact hx
  unfold step at h
  split at h
  · split at h <;> cases h
    exact ⟨rfl, rfl⟩
  · split at h
    · refine hof ?_ h
      unfold checked
      split
      · exact hcaught s
      · exact ⟨rfl, rfl⟩
    · exact hof (hcaught s) h
    · obtain ⟨x, -, heq⟩ := Option.map_eq_some_iff.mp h
      cases heq
      exact ⟨rfl, rfl⟩
  · split at h
    · exact hof (hcaught s) h
    · cases h
      exact ⟨rfl, rfl⟩
    · cases h
  · split at h
    · refine hof ?_ h
      unfold informed
      split
      · exact ⟨rfl, rfl⟩
      · split <;> exact ⟨rfl, rfl⟩
    · exact hof (hcaught s) h
    · obtain ⟨x, -, heq⟩ := Option.map_eq_some_iff.mp h
      cases heq
      exact ⟨rfl, rfl⟩
  · cases h
    exact ⟨rfl, rfl⟩
  · exact hof (hcaught s) h
  · obtain ⟨x, -, heq⟩ := Option.map_eq_some_iff.mp h
    cases heq
    exact ⟨rfl, rfl⟩
  · cases h

/-- `login` keeps its token and its client. It compares both when it goes on after each of its
requests. -/
theorem Login.step_same {l l' : Login} {k : Outcome} {s s' : Room}
    (h : l.step k s = some (s', l')) : l'.token = l.token ∧ l'.active = l.active := by
  -- each of the sections that may follow an answer keeps both
  have hof : ∀ {x : Room × Login}, x.2.token = l.token ∧ x.2.active = l.active →
      some x = some (s', l') → l'.token = l.token ∧ l'.active = l.active := by
    intro x hx heq
    obtain rfl := Option.some.inj heq
    exact hx
  unfold step at h
  split at h
  · split at h
    · refine hof ?_ h
      unfold accepted
      split
      · exact ⟨rfl, rfl⟩
      · split <;> exact ⟨rfl, rfl⟩
    · cases h
      exact ⟨rfl, rfl⟩
    · obtain ⟨x, -, heq⟩ := Option.map_eq_some_iff.mp h
      cases heq
      exact ⟨rfl, rfl⟩
  · split at h <;> cases h <;> exact ⟨rfl, rfl⟩
  · cases h
    exact ⟨rfl, rfl⟩
  · cases h
    exact ⟨rfl, rfl⟩
  · obtain ⟨x, -, heq⟩ := Option.map_eq_some_iff.mp h
    cases heq
    exact ⟨rfl, rfl⟩
  · cases h

/-! ## The inversion -/

/-- A search that has not called `attach` and has not returned. -/
theorem Search.op_of_ne {x : Search} (hattach : ∀ a, x.pc ≠ .attach a) (hreturned : x.pc ≠ .returned) :
    x.op = .search x := by
  unfold op
  split
  · exact absurd ‹_› (hattach _)
  · exact absurd ‹_› hreturned
  · rfl

/-- **A section of `search`.** While it is inside `attach` the section is one of that; otherwise it
is one of the search itself. -/
theorem Search.section {x x' : Search} {k : Outcome} {s s' : Room}
    (h : x.step k s = some (s', x')) : Section k s x.op s' x'.op := by
  by_cases hattach : ∃ a, x.pc = .attach a
  · -- inside `attach`, which goes on or has returned
    obtain ⟨a, hpc⟩ := hattach
    have hop : x.op = .attach (.search x.token) a := by simp only [op, hpc]
    rw [hop]
    unfold step at h
    rw [hpc] at h
    simp only at h
    split at h
    · cases h
      exact .searched ‹_›
    · obtain ⟨y, hstep, heq⟩ := Option.map_eq_some_iff.mp h
      cases heq
      exact .attach hstep
  · -- a search that has returned performs no section
    have hreturned : x.pc ≠ .returned := by
      intro hpc
      unfold step at h
      rw [hpc] at h
      cases h
    have hop := x.op_of_ne (fun a hpc => hattach ⟨a, hpc⟩) hreturned
    have hsection := Section.search hop h
    rwa [← hop] at hsection

/-- **A section of `_recover`.** After a failed `attach` it goes on by itself, and everything else
is a section of the call inside it. -/
theorem RecoverPC.section {pc pc' : RecoverPC} {k : Outcome} {s s' : Room}
    (h : pc.step k s = some (s', pc')) : Section k s pc.op s' pc'.op := by
  unfold step at h
  split at h
  · rename_i a
    split at h
    · cases h
      exact .returned ‹_› (.inr ⟨rfl, rfl⟩)
    · -- the silent `attach` gave `false`
      have hsection : Section k s (.attach .recover a) (s.fallBack (some a.server)).1
          (s.fallBack (some a.server)).2.op := .fallBack ‹_›
      rw [Option.some.inj h] at hsection
      exact hsection
    · obtain ⟨y, hstep, heq⟩ := Option.map_eq_some_iff.mp h
      cases heq
      exact .attach hstep
  · rename_i x
    split at h
    · -- the search has returned, which is no operation any more
      rename_i hpc
      cases h
      have hop : (RecoverPC.search x).op = .idle := by simp only [op, Search.op, hpc]
      rw [hop]
      exact .quiet (.refl s)
    · obtain ⟨y, hstep, heq⟩ := Option.map_eq_some_iff.mp h
      cases heq
      exact Search.section hstep
  · cases h

/-- **A section of `login`.** It calls no other operation. The effect is on the room and on its own
program point. -/
theorem Login.section {l l' : Login} {k : Outcome} {s s' : Room}
    (h : l.step k s = some (s', l')) : Section k s l.op s' l'.op := by
  have hop : l.op = .login l := by
    unfold op
    split
    · rename_i hpc
      unfold step at h
      rw [hpc] at h
      cases h
    · rfl
  have hsection := Section.login h
  rwa [← hop] at hsection

/-- `reconnect` as far as its first `await`: it probes the server, or gives the connection up. -/
theorem Section.reconnect {k : Outcome} {s s₁ : Room} (h : Quiet s s₁) (probe : Bool) :
    Section k s .idle (s₁.reconnect probe).1 (Thread.reconnect (s₁.reconnect probe).2).op := by
  unfold Room.reconnect
  split
  · exact .quiet h
  · rename_i hgoes
    split
    · split
      · exact .quiet (h.trans (.newClient s₁ _))
      · exact .quiet h
    · exact .restart h (Bool.not_eq_true _ |>.mp (not_or.mp hgoes).1)

/-- **The first section of a call.** Every method that is not an operation itself only does what the
flags do not notice, or calls one. -/
theorem Call.section {c : Call} {k : Outcome} {s s' : Room} {th' : Thread}
    (h : c.start s = some (s', th')) : Section k s .idle s' th'.op := by
  cases c with
  | search another =>
      cases h
      exact .startSearch another (.refl s)
  | manual base =>
      cases h
      unfold Room.manual
      split
      · exact .quiet (.newClient s _)
      · exact .quiet (.refl s)
  | attach server =>
      cases h
      exact .startAttach server (.refl s)
  | login =>
      cases h
      exact .startLogin
  | rename value =>
      cases h
      unfold Room.rename
      split
      · exact .quiet (.refl s)
      · exact .quiet (.of_eq rfl rfl rfl rfl rfl rfl rfl rfl rfl rfl rfl)
  | foreground active =>
      have hquiet : Quiet s { s with foreground := active } :=
        .of_eq rfl rfl rfl rfl rfl rfl rfl rfl rfl rfl rfl
      cases h
      cases active with
      | false => exact .quiet hquiet
      -- back in the foreground the connection is checked
      | true => exact .reconnect hquiet false
  | text value =>
      cases h
      refine .quiet ?_
      unfold Room.text
      split
      · exact .refl s
      · exact .note s _
  | choose recipients =>
      cases h
      exact .quiet (.of_eq rfl rfl rfl rfl rfl rfl rfl rfl rfl rfl rfl)
  | retry =>
      simp only [start] at h
      split at h <;> cases h
      exact .fireRetry
  | network =>
      simp only [start] at h
      split at h <;> cases h
      exact .quiet (.of_eq rfl rfl rfl rfl rfl rfl rfl rfl rfl rfl rfl)
  | debounce =>
      have hquiet : Quiet s { s with debounce := false } :=
        .of_eq rfl rfl rfl rfl rfl rfl rfl rfl rfl rfl rfl
      simp only [start] at h
      split at h <;> cases h
      unfold Room.fireDebounce
      split
      · -- the network has changed
        exact .reconnect hquiet true
      · exact .quiet hquiet
  | frame ws f =>
      simp only [start] at h
      split at h
      · cases h
      · split at h
        · cases h
        · split at h <;> cases h
          · exact .quiet (.refl s)
          · exact .quiet (.of_eq rfl rfl rfl rfl rfl rfl rfl rfl rfl rfl rfl)
  | lost ws =>
      simp only [start] at h
      split at h
      · cases h
      · split at h <;> cases h
        exact .lost ‹_› (Bool.not_eq_false _ |>.mp ‹_›)
  | drop ws =>
      cases h
      exact .quiet (.closeWS s _)
  | transfer =>
      simp only [start] at h
      split at h <;> cases h
      · exact .quiet (.refl s)
      · exact .quiet (.refl s)
  | dispose =>
      cases h
      exact .dispose

/-- The operation that `initialize` is in: after the first reads, that of its `search`. -/
theorem InitializePC.section {pc pc' : InitializePC} {k : Outcome} {s s' : Room}
    (h : pc.step k s = some (s', pc')) :
    Section k s (Thread.initializing pc).op s' (Thread.initializing pc').op := by
  unfold InitializePC.step at h
  split at h
  · split at h <;> cases h <;> exact .quiet (.refl s)
  · split at h <;> cases h
    · exact .quiet (.refl s)
    · exact .quiet (.of_eq rfl rfl rfl rfl rfl rfl rfl rfl rfl rfl rfl)
  · split at h <;> cases h
    · exact .quiet (.refl s)
    · -- the search begins after the network flag is set
      exact .startSearch false (.of_eq rfl rfl rfl rfl rfl rfl rfl rfl rfl rfl rfl)
  · rename_i x
    split at h
    · -- the search has returned, which is no operation any more
      rename_i hpc
      cases h
      have hop : (Thread.initializing (.search x)).op = .idle := by
        simp only [Thread.op, Search.op, hpc]
      rw [hop]
      exact .quiet (.refl s)
    · obtain ⟨z, hinner, heq⟩ := Option.map_eq_some_iff.mp h
      cases heq
      exact Search.section hinner
  · cases h
  · cases h

/-- The operation that `manual` is in: none while it asks the address for its identity, then that of
the `attach` it calls. -/
theorem ManualPC.section {pc pc' : ManualPC} {k : Outcome} {s s' : Room}
    (h : pc.step k s = some (s', pc')) :
    Section k s (Thread.manual pc).op s' (Thread.manual pc').op := by
  unfold ManualPC.step at h
  split at h
  · rename_i base r
    split at h
    · have heq := Option.some.inj h
      unfold Room.manualAnswered at heq
      -- whatever was answered, the client of the probe is closed first
      have hclose : Quiet s (s.closeClient r.client) := .closeClient s _
      split at heq
      · cases heq
        exact .quiet hclose
      · split at heq
        · cases heq
          exact .quiet hclose
        · cases heq
          exact .startAttach _ hclose
    · cases h
      exact .quiet (.closeClient s _)
    · obtain ⟨z, hinner, heq⟩ := Option.map_eq_some_iff.mp h
      cases heq
      exact .quiet (.request hinner)
  · rename_i a
    split at h
    · cases h
      exact .returned ‹_› (.inl rfl)
    · obtain ⟨z, hinner, heq⟩ := Option.map_eq_some_iff.mp h
      cases heq
      exact .attach hinner
  · cases h

/-- The operation that `rename` is in: none while the name is stored, then that of the `attach` it
calls to announce it. -/
theorem RenamePC.section {pc pc' : RenamePC} {k : Outcome} {s s' : Room}
    (h : pc.step k s = some (s', pc')) :
    Section k s (Thread.rename pc).op s' (Thread.rename pc').op := by
  unfold RenamePC.step at h
  split at h
  · split at h <;> cases h
    · exact .quiet (.refl s)
    · exact .quiet (.refl s)
    · exact .startAttach _ (.refl s)
  · rename_i a
    split at h
    · cases h
      exact .returned ‹_› (.inl rfl)
    · obtain ⟨z, hinner, heq⟩ := Option.map_eq_some_iff.mp h
      cases heq
      exact .attach hinner
  · cases h

/-- The operation that `reconnect` is in: none while it probes the server, then that of `_recover`,
unless another operation has become busy meanwhile. -/
theorem ReconnectPC.section {pc pc' : ReconnectPC} {k : Outcome} {s s' : Room}
    (h : pc.step k s = some (s', pc')) :
    Section k s (Thread.reconnect pc).op s' (Thread.reconnect pc').op := by
  unfold ReconnectPC.step at h
  split at h
  · rename_i r
    split at h
    · cases h
      exact .quiet (.closeClient s _)
    · have hclose : Quiet s (s.closeClient r.client) := .closeClient s _
      simp only at h
      split at h
      · cases h
        exact .quiet hclose
      · -- the room is not busy, so `_recover` starts
        rename_i hgoes
        cases h
        exact .restart hclose (Bool.not_eq_true _ |>.mp (not_or.mp hgoes).1)
    · obtain ⟨z, hinner, heq⟩ := Option.map_eq_some_iff.mp h
      cases heq
      exact .quiet (.request hinner)
  · cases h
    exact .quiet (.refl s)
  · obtain ⟨z, hinner, heq⟩ := Option.map_eq_some_iff.mp h
    cases heq
    exact RecoverPC.section hinner
  · cases h

/-- A file transfer sends requests, and a failure of one of them is handed to `handleExpired`. -/
theorem transferStep_section {r : Request} {th' : Thread} {k : Outcome} {s s' : Room}
    (h : transferStep k s r = some (s', th')) : Section k s .idle s' th'.op := by
  unfold transferStep at h
  split at h
  · cases h
    exact .quiet (.refl s)
  · cases h
    exact .handleExpired _
  · obtain ⟨y, hstep, heq⟩ := Option.map_eq_some_iff.mp h
    cases heq
    exact .quiet (.request hstep)

/-- **Every section of a thread is one of these.** The cases are the methods; each of them is in the
operation of the program point it has reached. -/
theorem Thread.section {th th' : Thread} {k : Outcome} {s s' : Room}
    (h : th.step k s = some (s', th')) : Section k s th.op s' th'.op := by
  -- a thread is a call, or is inside one of the functions; for each its own lemma
  cases th with
  | call c => exact Call.section h
  | ended => cases h
  | search x =>
      obtain ⟨y, hstep, heq⟩ := Option.map_eq_some_iff.mp h
      cases heq
      exact Search.section hstep
  | attach a =>
      obtain ⟨y, hstep, heq⟩ := Option.map_eq_some_iff.mp h
      cases heq
      exact .attach hstep
  | login l =>
      obtain ⟨y, hstep, heq⟩ := Option.map_eq_some_iff.mp h
      cases heq
      exact Login.section hstep
  | recover pc =>
      obtain ⟨y, hstep, heq⟩ := Option.map_eq_some_iff.mp h
      cases heq
      exact RecoverPC.section hstep
  | transfer r => exact transferStep_section h
  | initializing pc =>
      obtain ⟨y, hstep, heq⟩ := Option.map_eq_some_iff.mp h
      cases heq
      exact InitializePC.section hstep
  | manual pc =>
      obtain ⟨y, hstep, heq⟩ := Option.map_eq_some_iff.mp h
      cases heq
      exact ManualPC.section hstep
  | rename pc =>
      obtain ⟨y, hstep, heq⟩ := Option.map_eq_some_iff.mp h
      cases heq
      exact RenamePC.section hstep
  | reconnect pc =>
      obtain ⟨y, hstep, heq⟩ := Option.map_eq_some_iff.mp h
      cases heq
      exact ReconnectPC.section hstep

end LanRoom.Mobile

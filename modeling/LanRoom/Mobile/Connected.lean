import LanRoom.Concurrency.ExclusiveInvariant
import LanRoom.Mobile.Effects

/-! # What `connected` means

While `connected` is set, the subscribed socket is the one that the newest `_open` has opened on the
current client, and it has not ended (`connected_live`), in every run that keeps a rule. The code
looks at the generation once in `_open`; the rule says that where it does not look, there is nothing
to see. Under the rule `busy` is a lock: at most one operation is at work under the present
generation, and none but that one sets `connected`. -/

namespace LanRoom.Mobile

open ThreadPool (Act Config)

/-- The **rule** for the steps of a run: an operation is still the newest one when the old
subscription is cancelled, when `login` has stored the cookie and when `_open` has stored the server;
the room is not connected when `login` has stored the cookie; and `login` does not end the turn of
another operation. -/
def Event.isOrderly : Event → Bool
  | .cancelled token generation => token = generation
  | .loginWrote token generation connected => token = generation && !connected
  | .openWrote token generation => token = generation
  | .loginEnded token generation busy => token = generation || !busy
  | _ => true

/-- The subscribed socket was opened on the current client under the present generation, and it has
not reported its end. -/
def Room.IsLive (s : Room) : Prop :=
  ∃ ws x, s.socket = some ws ∧ s.sockets[ws]? = some x ∧ x.listening = true ∧ x.ended = false ∧
    s.client = some x.client ∧ x.token = s.generation

/-- The invariant of the room. -/
def Room.Honest (s : Room) : Prop := s.disposed = false → s.connected = true → s.IsLive

/-! ## Operations at work -/

/-- The operation is the newest one and goes on. -/
def Op.Works (s : Room) : Op → Prop
  | .idle => False
  | .attach _ a => a.token = s.generation ∧ ∀ reached, a.pc ≠ .returned reached
  | .search x => x.token = s.generation
  | .login l => l.token = s.generation

/-- The room may be connected meanwhile: `_open` has come to its end, or `login` not yet to it. -/
def Op.MayBeOnline : Op → Prop
  | .attach _ a => a.pc = .opening .returned
  | .login l => ∀ token pc, l.pc = .opening token pc → pc = .returned
  | _ => False

/-- The socket `ws` is opened on the current client under `token`, and nobody has listened to it. -/
def Room.Ready (s : Room) (token ws : ℕ) : Prop :=
  ∃ x, s.sockets[ws]? = some x ∧ x.token = token ∧ x.listening = false ∧ x.ended = false ∧
    s.client = some x.client

/-- What `_open` knows under the present generation. -/
def OpenPC.Knows (s : Room) (token : ℕ) : OpenPC → Prop
  | .connect c _ => s.client = some c
  | .connected ws => s.Ready token ws
  | .preferred ws | .lastAddress ws => s.Ready token ws ∧ s.selected ≠ none
  | _ => True

/-- What an operation knows of its `_open`. -/
def Op.Knows (s : Room) : Op → Prop
  | .attach _ a => ∀ pc, a.pc = .opening pc → pc.Knows s a.token
  | .login l => ∀ token pc, l.pc = .opening token pc → pc.Knows s token
  | _ => True

/-- `_open` is called by `login` under its own token. -/
def Op.Loyal : Op → Prop
  | .login l => ∀ token pc, l.pc = .opening token pc → token = l.token
  | _ => True

/-- The assertion of a thread. -/
structure Op.Holds (s : Room) (op : Op) : Prop where
  valid : op.Valid s
  loyal : op.Loyal
  busy : op.Works s → s.busy = true
  offline : op.Works s → ¬op.MayBeOnline → s.disposed = false → s.connected = false
  knows : op.Works s → op.Knows s

/-- A thread that is in no operation asserts nothing. This is the case of all threads that only send
or read. -/
theorem Op.holds_idle (s : Room) : Op.Holds s .idle :=
  ⟨trivial, trivial, fun h => h.elim, fun h => h.elim, fun h => h.elim⟩

/-- An operation that has returned. It is not at work any more, so only its token has to be a valid
one. -/
theorem Op.holds_returned {s : Room} {caller : Caller} {a : Attach} {reached : Bool}
    (hvalid : (Op.attach caller a).Valid s) :
    (Op.attach caller { a with pc := .returned reached }).Holds s := by
  refine ⟨hvalid, trivial, fun h => ?_, fun h => ?_, fun h => ?_⟩ <;>
    exact absurd rfl (h.2 reached)

/-- The operation that has just been begun, with its token. It has raised the generation, set `busy`
and cleared `connected`, and knows nothing of a socket yet. -/
theorem Op.holds_attach (s : Room) (server : FoundServer) (caller : Caller)
    (hcaller : ∀ token, caller = .search token → token ≤ s.generation) :
    (Op.attach caller (s.attach server).2).Holds (s.attach server).1 where
  valid := ⟨le_refl _, fun token htoken => Nat.lt_succ_of_le (hcaller token htoken)⟩
  loyal := trivial
  busy := fun _ => rfl
  offline := fun _ _ _ => rfl
  knows := fun _ pc hpc => by cases hpc

/-- A search that has just begun is busy, and the room is not connected; one that returns at once
asserts nothing. -/
theorem Op.holds_search (s : Room) (another : Bool) :
    (s.search another).2.op.Holds (s.search another).1 := by
  unfold Room.search
  split
  · exact Op.holds_idle s
  · exact ⟨le_refl _, trivial, fun _ => rfl, fun _ _ _ => rfl, fun _ => trivial⟩

/-! ## Sections that leave the connection alone -/

/-- No socket is subscribed, none of those to be subscribed ends, and the rest is as before. -/
structure Unharmed (s s' : Room) : Prop where
  generation : s'.generation = s.generation
  selected : s'.selected = s.selected
  client : s'.client = s.client
  disposed : s'.disposed = s.disposed
  busy : s'.busy = s.busy
  connected : s'.connected = true → s.connected = true
  sockets : ∀ (ws : ℕ) (x : Socket), s.sockets[ws]? = some x → x.listening = false → ∃ x' : Socket,
    s'.sockets[ws]? = some x' ∧ x'.client = x.client ∧ x'.token = x.token ∧
      x'.listening = false ∧ x'.ended = x.ended

/-- What the flags do not notice harms nobody. Subscriptions, tokens and the current client are
among what it leaves alone. -/
theorem Quiet.unharmed {s s' : Room} (h : Quiet s s') : Unharmed s s' where
  generation := h.generation
  selected := h.selected
  client := h.client
  disposed := h.disposed
  busy := h.busy
  connected := fun hconnected => h.connected ▸ hconnected
  sockets := by
    intro ws x hx hlistening
    obtain ⟨x', hx', hclient, htoken, hlistening', hended⟩ := h.sockets ws x hx
    exact ⟨x', hx', hclient, htoken, hlistening'.trans hlistening, hended⟩

/-- The same sockets. The flag `connected` may be cleared but not set. -/
theorem Unharmed.of_eq {s s' : Room} (hgeneration : s'.generation = s.generation)
    (hselected : s'.selected = s.selected) (hclient : s'.client = s.client)
    (hdisposed : s'.disposed = s.disposed) (hbusy : s'.busy = s.busy)
    (hconnected : s'.connected = true → s.connected = true) (hsockets : s'.sockets = s.sockets) :
    Unharmed s s' := by
  refine ⟨hgeneration, hselected, hclient, hdisposed, hbusy, hconnected, fun ws x hx hl => ?_⟩
  exact ⟨x, by rw [hsockets]; exact hx, rfl, rfl, hl, rfl⟩

/-- Two changes that harm nobody are one. A section that consists of several such changes is handled
by it. -/
theorem Unharmed.trans {s s₁ s' : Room} (h : Unharmed s s₁) (h' : Unharmed s₁ s') :
    Unharmed s s' where
  generation := h'.generation.trans h.generation
  selected := h'.selected.trans h.selected
  client := h'.client.trans h.client
  disposed := h'.disposed.trans h.disposed
  busy := h'.busy.trans h.busy
  connected := fun hconnected => h.connected (h'.connected hconnected)
  sockets := by
    intro ws x hx hlistening
    obtain ⟨y, hy, hclient, htoken, hlistening, hended⟩ := h.sockets ws x hx hlistening
    obtain ⟨z, hz, hclient', htoken', hlistening', hended'⟩ := h'.sockets ws y hy hlistening
    exact ⟨z, hz, hclient'.trans hclient, htoken'.trans htoken, hlistening', hended'.trans hended⟩

/-- What `_open` knows lasts. It is that its own socket is there, is not subscribed and has not
ended. -/
theorem OpenPC.Knows.unharmed {s s' : Room} (h : Unharmed s s') {token : ℕ} {pc : OpenPC}
    (hpc : pc.Knows s token) : pc.Knows s' token := by
  have hready : ∀ ws, s.Ready token ws → s'.Ready token ws := by
    rintro ws ⟨x, hx, htoken, hlistening, hended, hclient⟩
    obtain ⟨x', hx', hclient', htoken', hlistening', hended'⟩ := h.sockets ws x hx hlistening
    refine ⟨x', hx', htoken'.trans htoken, hlistening', hended'.trans hended, ?_⟩
    rw [h.client, hclient']
    exact hclient
  cases pc with
  | connect c openedFor => exact h.client.trans hpc
  | connected ws => exact hready ws hpc
  | preferred ws => exact ⟨hready ws hpc.1, h.selected ▸ hpc.2⟩
  | lastAddress ws => exact ⟨hready ws hpc.1, h.selected ▸ hpc.2⟩
  | _ => trivial

/-- Who is at work depends on the generation alone. A new generation ends the work of all older
operations. -/
theorem Op.Works.congr {s s' : Room} (h : s'.generation = s.generation) {op : Op} :
    op.Works s' ↔ op.Works s := by
  cases op <;> simp only [Op.Works, h]

/-- The assertion of an operation that does nothing meanwhile. Its token, the current client and the
socket it may be about to subscribe to are still the same. -/
theorem Op.Holds.unharmed {s s' : Room} (h : Unharmed s s') {op : Op} (hop : op.Holds s) :
    op.Holds s' := by
  have hworks : op.Works s' → op.Works s := (Op.Works.congr h.generation).mp
  refine ⟨hop.valid.later h.generation.ge, hop.loyal, fun hw => ?_, fun hw hf hd => ?_, fun hw => ?_⟩
  · rw [h.busy]
    exact hop.busy (hworks hw)
  · have hoff := hop.offline (hworks hw) hf (h.disposed ▸ hd)
    by_contra hon
    exact absurd (h.connected (Bool.not_eq_false _ |>.mp hon)) (by simp [hoff])
  · have hknows := hop.knows (hworks hw)
    cases op with
    | attach caller a => exact fun pc hpc => (hknows pc hpc).unharmed h
    | login l => exact fun token pc hpc => (hknows token pc hpc).unharmed h
    | _ => trivial

/-- The assertion of an operation that another one has replaced. What is asserted of an operation at
work is not asked of it any more. -/
theorem Op.Holds.replaced {s s' : Room} (h : s.generation < s'.generation) {op : Op}
    (hop : op.Holds s) : op.Holds s' ∧ ¬op.Works s' := by
  have hnot : ¬op.Works s' := by
    have hvalid := hop.valid
    cases op with
    | idle => exact id
    | attach caller a =>
        intro hw
        exact absurd hvalid.1 (by rw [hw.1]; omega)
    | search x =>
        intro hw
        have hle : x.token ≤ s.generation := hvalid
        have heq : x.token = s'.generation := hw
        omega
    | login l =>
        intro hw
        have hle : l.token ≤ s.generation := hvalid.1
        have heq : l.token = s'.generation := hw
        omega
  refine ⟨⟨hop.valid.later h.le, hop.loyal, fun hw => ?_, fun hw => ?_, fun hw => ?_⟩, hnot⟩ <;>
    exact absurd hw hnot

/-! ## The room -/

/-- What the flags do not notice keeps the room honest. The live subscription of a connected room is
still there. -/
theorem Quiet.honest {s s' : Room} (h : Quiet s s') (hs : s.Honest) : s'.Honest := by
  intro hdisposed hconnected
  obtain ⟨ws, x, hsocket, hx, hlistening, hended, hclient, htoken⟩ :=
    hs (h.disposed ▸ hdisposed) (h.connected ▸ hconnected)
  obtain ⟨x', hx', hclient', htoken', hlistening', hended'⟩ := h.sockets ws x hx
  refine ⟨ws, x', h.socket.trans hsocket, hx', hlistening'.trans hlistening, hended'.trans hended,
    ?_, ?_⟩
  · rw [h.client, hclient']
    exact hclient
  · rw [h.generation, htoken']
    exact htoken

/-- Flags and timers that say nothing about the connection. The subscription and the sockets are as
they were, so the live socket is still there. -/
theorem Room.Honest.congr {s s' : Room} (hs : s.Honest) (hgeneration : s'.generation = s.generation)
    (hclient : s'.client = s.client) (hsocket : s'.socket = s.socket)
    (hdisposed : s'.disposed = false → s.disposed = false)
    (hconnected : s'.connected = true → s.connected = true) (hsockets : s'.sockets = s.sockets) :
    s'.Honest := by
  intro hd hc
  obtain ⟨ws, x, h, hx, hlistening, hended, hof, htoken⟩ := hs (hdisposed hd) (hconnected hc)
  refine ⟨ws, x, hsocket.trans h, ?_, hlistening, hended, hclient.trans hof, htoken.trans hgeneration.symm⟩
  rw [hsockets]
  exact hx

/-- Nothing is promised while the room is not connected. Clearing the flag is always safe. -/
theorem Room.honest_of_offline {s : Room} (h : s.disposed = false → s.connected = false) :
    s.Honest := by
  intro hd hc
  rw [h hd] at hc
  cases hc

/-- `_open` has noted under which generation it sets `connected`. The rule of the runs is stated on
these notes, since it is about a moment inside of a section. -/
theorem openConnected_noted (token : ℕ) (s : Room) (ws : ℕ) :
    .openWrote token s.generation ∈ (openConnected token s ws).1.log := by
  unfold openConnected
  simp only
  split <;> exact List.mem_cons_self

/-- `caught` ends `attach` without a word when another operation has started. It reports that the
server was reached, so that its caller does nothing further. -/
theorem Attach.caught_stale {a : Attach} {silent : Bool} {s : Room} (h : a.token ≠ s.generation) :
    a.caught silent s = a.finish s true := by
  unfold caught
  rw [if_pos (.inl h)]

/-- The `finally` of a replaced `attach` leaves `busy` to the operation that has replaced it. It
compares the tokens first, as the source does. -/
theorem Attach.unharmed_finish {a : Attach} {s : Room} (h : a.token ≠ s.generation) (reached : Bool) :
    Unharmed s (a.finish s reached).1 := by
  refine .of_eq rfl rfl rfl rfl ?_ id rfl
  simp [finish, h]

/-- The `finally` of a replaced `search` does the same. It compares the tokens first and then
changes nothing. -/
theorem Search.unharmed_finish {x : Search} {s : Room} (h : x.token ≠ s.generation) :
    Unharmed s (x.finish s).1 := by
  refine .of_eq rfl rfl rfl rfl ?_ id rfl
  simp [finish, h]

/-- Arming the timer harms nobody. It only concerns what will happen later. -/
theorem Room.unharmed_schedule (s : Room) : Unharmed s s.schedule :=
  .of_eq rfl rfl rfl rfl rfl id rfl

/-- A search that is called while another operation is busy returns at once. Its generation is the
one of the operation that is busy, and it is at its end. -/
theorem Room.search_busy {s : Room} (h : s.busy = true) (another : Bool) :
    s.search another = (s, ⟨s.generation, another, .returned⟩) := by
  unfold search
  rw [if_pos (.inl h)]

/-- The end of a socket is reported to its subscriber only. No operation is waiting for this socket,
since it has been subscribed to. -/
theorem Room.unharmed_lost {s : Room} {ws : ℕ} {x : Socket} (hx : s.sockets[ws]? = some x)
    (hlistening : x.listening = true) (connected : Bool) (hconnected : connected = true → s.connected = true) :
    Unharmed s { s.modifySocket ws fun x =>
      { x with isOpen := false, listening := false, ended := true } with connected } := by
  refine ⟨rfl, rfl, rfl, rfl, rfl, hconnected, fun ws' y hy hquiet => ?_⟩
  refine ⟨y, ?_, rfl, rfl, hquiet, rfl⟩
  -- it is another socket
  have hne : ws ≠ ws' := by
    rintro rfl
    obtain rfl := Option.some.inj (hx.symm.trans hy)
    rw [hlistening] at hquiet
    cases hquiet
  simp [modifySocket, hne, hy]

/-- **An `attach` that another operation has replaced** ends without touching the connection: every
check of its token fails, and the rule excludes the two places where the token is not checked. -/
theorem Attach.outsider {caller : Caller} {a a' : Attach} {k : Outcome} {s s' : Room}
    (h : a.step caller.isSilent k s = some (s', a')) (hnot : ¬(Op.attach caller a).Works s)
    (hgeneration : s'.generation = s.generation) (hrule : ∀ e ∈ s'.log, e.isOrderly = true) :
    Unharmed s s' ∧ ¬(Op.attach caller a').Works s' := by
  have hstale : a.token ≠ s.generation := by
    intro htoken
    refine hnot ⟨htoken, fun reached hpc => ?_⟩
    unfold Attach.step at h
    rw [hpc] at h
    cases h
  refine ⟨?_, fun hw => hstale ?_⟩
  · cases Attach.effect h with
    | renew _ =>
        have hnewest := hrule (.cancelled a.token s.generation) List.mem_cons_self
        exact absurd (of_decide_eq_true hnewest) hstale
    | quiet _ _ hquiet => exact hquiet.unharmed
    | caught _ =>
        rw [Attach.caught_stale hstale]
        exact Attach.unharmed_finish hstale true
    | stale _ _ => exact Attach.unharmed_finish hstale true
    | askPin _ _ htoken _ => exact absurd htoken hstale
    | openSocket _ htoken _ => exact absurd htoken hstale
    | opening _ hopen =>
        -- `_open` does not check the token before it sets `connected`
        rcases openStep_quiet hopen with ⟨ws, -, rfl, -⟩ | ⟨hquiet, -, -⟩
        · have hnewest := hrule _ (openConnected_noted a.token s ws)
          exact absurd (of_decide_eq_true hnewest) hstale
        · exact hquiet.unharmed
    | opened _ => exact Attach.unharmed_finish hstale true
  · rw [← (Attach.step_same h).1, ← hgeneration]
    exact hw.1

/-- **A `search` that another operation has replaced** leaves the connection alone; on the way out it
may still arm the timer. -/
theorem Search.outsider {x x' : Search} {k : Outcome} {s s' : Room} (hx : x.op = .search x)
    (h : x.step k s = some (s', x')) (hstale : x.token ≠ s.generation)
    (hgeneration : s'.generation = s.generation) (hrule : ∀ e ∈ s'.log, e.isOrderly = true) :
    Unharmed s s' ∧ ¬x'.op.Works s' := by
  refine ⟨?_, ?_⟩
  · cases Search.effect hx h with
    -- what a stale search would do to the room is what the condition of the run excludes
    | release _ =>
        have hnewest := hrule (.cancelled x.token s.generation) List.mem_cons_self
        exact absurd (of_decide_eq_true hnewest) hstale
    | quiet _ _ hquiet => exact hquiet.unharmed
    | caught _ => exact s.unharmed_schedule.trans (Search.unharmed_finish hstale)
    | stale _ hquiet _ =>
        refine hquiet.unharmed.trans (Search.unharmed_finish ?_)
        rw [hquiet.generation]
        exact hstale
    | startAttach _ _ _ hquiet htoken _ => exact absurd (htoken.trans hquiet.generation) hstale
    | leave _ _ hquiet htoken _ => exact absurd (htoken.trans hquiet.generation) hstale
  · -- a search that goes on keeps its token, which stays stale
    cases Search.effect hx h with
    | release hpc => simpa only [Search.op, Op.Works, hgeneration] using hstale
    | @quiet _ pc _ hpc hquiet =>
        cases pc with
        | attach a => exact absurd hpc id
        | returned => exact absurd hpc id
        | _ => simpa only [Search.op, Op.Works, hgeneration] using hstale
    | caught _ => exact id
    | stale _ _ _ => exact id
    | startAttach _ _ _ hquiet htoken _ => exact absurd (htoken.trans hquiet.generation) hstale
    | leave _ _ _ _ _ => exact id

/-- **A `login` that another operation has replaced**: the rule excludes that it ends while the other
one is busy, and that it stores the cookie or sets `connected`; its remaining sections only send
requests. -/
theorem Login.outsider {l l' : Login} {k : Outcome} {s s' : Room} (h : l.step k s = some (s', l'))
    (hop : (Op.login l).Holds s) (hstale : l.token ≠ s.generation) (hbusy : s.busy = true)
    (hgeneration : s'.generation = s.generation) (hrule : ∀ e ∈ s'.log, e.isOrderly = true) :
    Unharmed s s' ∧ ¬l'.op.Works s' := by
  -- a stale login must not end while the room is busy with somebody else's call
  have hends : ∀ s₁ : Room, s₁.generation = s.generation → s₁.busy = s.busy →
      .loginEnded l.token s₁.generation s₁.busy ∈ s'.log → False := by
    intro s₁ hg hb hmem
    have hturn := hrule _ hmem
    simp [Event.isOrderly, hg, hb, hbusy, hstale] at hturn
  refine ⟨?_, fun hw => ?_⟩
  · cases Login.effect h with
    | quiet _ _ hquiet => exact hquiet.unharmed
    | stale _ _ => exact (hends s rfl rfl List.mem_cons_self).elim
    | @caught token _ =>
        exact (hends (s.note (.loginFailed token s.generation s.connected s.needsPin s.retry))
          rfl rfl List.mem_cons_self).elim
    -- in an orderly run only a current login writes `needsPin = false`
    | stored _ =>
        have hnewest := hrule (.loginWrote l.token s.generation s.connected) List.mem_cons_self
        exact absurd (of_decide_eq_true (Bool.and_eq_true _ _ |>.mp hnewest).1) hstale
    | @opening _ token _ _ hpc hopen =>
        -- `_open` runs under the token of the login, so its last section would be a stale one
        rcases openStep_quiet hopen with ⟨ws, -, rfl, -⟩ | ⟨hquiet, -, -⟩
        · have hnewest := hrule _ (openConnected_noted token s ws)
          rw [hop.loyal token _ hpc] at hnewest
          exact absurd (of_decide_eq_true hnewest) hstale
        · exact hquiet.unharmed
    | opened _ => exact (hends s rfl rfl List.mem_cons_self).elim
  · unfold Login.op at hw
    split at hw
    · exact hw
    · refine hstale ?_
      rw [← (Login.step_same h).1, ← hgeneration]
      exact hw

/-- While an operation is busy, the timer that fires starts none; it is armed again at most. The
operation that is busy brings the room back itself. -/
theorem Room.fireRetry_busy {s : Room} (hbusy : s.busy = true) :
    Unharmed s ({ s with retry := false } : Room).fireRetry.1 ∧
      ¬({ s with retry := false } : Room).fireRetry.2.op.Works
        ({ s with retry := false } : Room).fireRetry.1 := by
  have hunharmed : Unharmed s { s with retry := false } := .of_eq rfl rfl rfl rfl rfl id rfl
  unfold Room.fireRetry
  rw [if_neg fun hfires => by rw [hbusy] at hfires; cases hfires.2.1]
  split
  · exact ⟨hunharmed.trans (Room.unharmed_schedule _), id⟩
  · exact ⟨hunharmed, id⟩

/-- While an operation is busy, a lost socket starts none; if it was the current one, the room is no
longer connected. -/
theorem Room.lostSocket_busy {s : Room} (hbusy : s.busy = true) {ws : ℕ} {x : Socket}
    (hx : s.sockets[ws]? = some x) (hlistening : x.listening = true) :
    Unharmed s (s.lostSocket ws x).1 ∧ ¬(s.lostSocket ws x).2.op.Works (s.lostSocket ws x).1 := by
  unfold Room.lostSocket Room.lost
  split
  · exact ⟨Room.unharmed_lost hx hlistening s.connected id, id⟩
  · simp only
    have hunharmed := Room.unharmed_lost hx hlistening false (by simp)
    split
    · rename_i hgoes
      have hfree : s.busy = false := hgoes.2
      rw [hbusy] at hfree
      cases hfree
    · exact ⟨hunharmed.trans (Room.unharmed_schedule _), id⟩

/-- **Whoever is not at work leaves the connection alone**, as long as another operation is busy and
remains the newest one. -/
theorem Section.outsider {k : Outcome} {s s' : Room} {op op' : Op} (h : Section k s op s' op')
    (hop : op.Holds s) (hnot : ¬op.Works s) (hbusy : s.busy = true)
    (hgeneration : s'.generation = s.generation) (hrule : ∀ e ∈ s'.log, e.isOrderly = true) :
    Unharmed s s' ∧ ¬op'.Works s' := by
  cases h with
  | attach h => exact Attach.outsider h hnot hgeneration hrule
  | search hx h => exact Search.outsider hx h hnot hgeneration hrule
  | login h => exact Login.outsider h hop hnot hbusy hgeneration hrule
  | returned _ _ => exact ⟨(Quiet.refl s).unharmed, id⟩
  | @searched x a _ _ =>
      -- the `attach` has raised the generation above the token of its search
      have hlt := hop.valid.2 x.token rfl
      have hle := hop.valid.1
      exact ⟨Search.unharmed_finish (by omega), id⟩
  | @fallBack a _ =>
      have hreturns : s.fallBack (some a.server) = (s, .returned) := by
        unfold Room.fallBack
        rw [if_pos (.inr (.inl hbusy))]
      rw [hreturns]
      exact ⟨(Quiet.refl s).unharmed, id⟩
  | quiet hquiet => exact ⟨hquiet.unharmed, id⟩
  | @startAttach s₁ server hquiet =>
      -- a new `attach` would be the newest operation
      have hnext : s₁.generation + 1 = s.generation := hgeneration
      have hsame := hquiet.generation
      omega
  | startSearch another hquiet =>
      rw [Room.search_busy (hquiet.busy.trans hbusy)]
      exact ⟨hquiet.unharmed, id⟩
  | startLogin =>
      have hreturns : s.login = (s, ⟨s.generation, 0, .returned⟩) := by
        unfold Room.login
        rw [hbusy]
      rw [hreturns]
      exact ⟨(Quiet.refl s).unharmed, id⟩
  | restart hquiet hfree =>
      rw [hquiet.busy, hbusy] at hfree
      cases hfree
  | fireRetry => exact Room.fireRetry_busy hbusy
  | lost hx hlistening => exact Room.lostSocket_busy hbusy hx hlistening
  | handleExpired e =>
      refine ⟨.of_eq rfl rfl rfl rfl rfl ?_ rfl, id⟩
      intro hconnected
      exact (Bool.and_eq_true _ _ |>.mp hconnected).1
  | dispose =>
      have hnext : s.generation + 1 = s.generation := hgeneration
      omega

/-! ## The operation itself -/

/-- `caught` ends `attach`, perhaps with the timer armed. Which of the two it is depends on the
error and on who has called it. -/
theorem Attach.caught_eq (a : Attach) (silent : Bool) (s : Room) :
    ∃ s₁ reached, (s₁ = s ∨ s₁ = s.schedule) ∧ a.caught silent s = a.finish s₁ reached := by
  unfold caught
  split
  · exact ⟨s, true, .inl rfl, rfl⟩
  · split
    · exact ⟨s, false, .inl rfl, rfl⟩
    · exact ⟨s.schedule, false, .inr rfl, rfl⟩

/-- **A section of `_open`.** While it is the newest one, it sets `connected` with its own socket
subscribed on the current client. -/
theorem openStep_own {token : ℕ} {k : Outcome} {s s' : Room} {pc pc' : OpenPC}
    (h : openStep token k s pc = some (s', pc')) (hs : s.Honest)
    (hknows : token = s.generation → pc.Knows s token) (hrule : ∀ e ∈ s'.log, e.isOrderly = true) :
    s'.Honest ∧ s'.generation = s.generation ∧ s'.busy = s.busy ∧ s'.disposed = s.disposed ∧
      (pc' ≠ .returned → s'.connected = s.connected) ∧
      (token = s.generation → pc'.Knows s' token) := by
  rcases openStep_quiet h with ⟨ws, rfl, rfl, rfl⟩ | ⟨hquiet, -, -⟩
  · -- the last section, which sets `connected`; the rule says that it is the newest one
    have htoken : token = s.generation := of_decide_eq_true (hrule _ (openConnected_noted token s ws))
    obtain ⟨⟨x, hx, hx₁, hlistening, hended, hclient⟩, hselected⟩ := hknows htoken
    unfold openConnected
    simp only
    split
    · exact absurd ‹_› hselected
    · refine ⟨fun _ _ => ⟨ws, { x with listening := true }, rfl, ?_, rfl, hended, hclient, ?_⟩,
        rfl, rfl, rfl, fun hpc => absurd rfl hpc, fun _ => trivial⟩
      · simp [Room.listen, Room.modifySocket, Room.keepAlive, Room.note, hx]
      · exact hx₁.trans htoken
  · -- the earlier sections add one thing each to what `_open` knows of its socket
    refine ⟨hquiet.honest hs, hquiet.generation, hquiet.busy, hquiet.disposed, fun _ => hquiet.connected,
      fun htoken => ?_⟩
    have hlasts := fun hpc : pc.Knows s token => hpc.unharmed hquiet.unharmed
    have hpc := hknows htoken
    cases pc with
    | cancel =>
        simp only [openStep] at h
        split at h <;> cases h
        trivial
    | close =>
        simp only [openStep] at h
        split at h <;> cases h
        · trivial
        · trivial
        · -- `client!` is the current client
          assumption
    | connect c openedFor =>
        simp only [openStep] at h
        split at h
        · cases h
          trivial
        · split at h <;> cases h
          refine ⟨⟨c, token, openedFor, s.selectedID, true, false, false⟩, ?_, rfl, rfl, rfl, hpc⟩
          simp [Room.established, Room.modifyClient]
        · cases h
    | connected ws =>
        simp only [openStep] at h
        split at h
        · cases h
          trivial
        · split at h <;> cases h
          · trivial
          · rename_i server hselected
            refine ⟨hlasts hpc, ?_⟩
            rw [hquiet.selected, hselected]
            simp
    | closeStale =>
        simp only [openStep] at h
        split at h <;> cases h <;> trivial
    | preferred ws =>
        simp only [openStep] at h
        split at h <;> cases h
        · trivial
        · trivial
        · exact hlasts hpc
    | lastAddress ws =>
        simp only [openStep] at h
        split at h
        · cases h
          trivial
        · have heq := Option.some.inj h
          unfold openConnected at heq
          simp only at heq
          split at heq <;> cases heq <;> trivial
        · cases h
    | returned => cases h
    | threw => cases h

/-- `attach` goes on: the flags are as they were. The sections between its requests are of this
kind. -/
theorem Op.Holds.attach {s s' : Room} {caller : Caller} {a : Attach} {pc : AttachPC}
    (hop : (Op.attach caller a).Holds s) (hreturned : ∀ reached, a.pc ≠ .returned reached)
    (hfinishing : a.pc ≠ .opening .returned) (hgeneration : s'.generation = s.generation)
    (hbusy : s'.busy = s.busy) (hdisposed : s'.disposed = s.disposed)
    (hconnected : pc ≠ .opening .returned → s'.connected = s.connected)
    (hknows : a.token = s.generation → ∀ opc, pc = .opening opc → opc.Knows s' a.token) :
    (Op.attach caller { a with pc }).Holds s' := by
  have hworks : (Op.attach caller { a with pc }).Works s' → (Op.attach caller a).Works s :=
    fun hw => ⟨hw.1.trans hgeneration, hreturned⟩
  refine ⟨?_, trivial, fun hw => ?_, fun hw hf hd => ?_, fun hw => hknows (hworks hw).1⟩
  · exact ⟨hgeneration ▸ hop.valid.1, hop.valid.2⟩
  · rw [hbusy]
    exact hop.busy (hworks hw)
  · rw [hconnected hf]
    exact hop.offline (hworks hw) hfinishing (hdisposed ▸ hd)

/-- `search` goes on. It is busy and offline as before. -/
theorem Op.Holds.search {s s' : Room} {x : Search} {pc : SearchPC} (hop : (Op.search x).Holds s)
    (hpc : pc.IsEarly) (hgeneration : s'.generation = s.generation) (hbusy : s'.busy = s.busy)
    (hdisposed : s'.disposed = s.disposed) (hconnected : s'.connected = s.connected) :
    ({ x with pc } : Search).op.Holds s' := by
  have hcall : ({ x with pc } : Search).op = .search { x with pc } := by
    apply Search.op_of_ne
    · rintro a rfl
      exact hpc
    · rintro rfl
      exact hpc
  rw [hcall]
  have hworks : (Op.search { x with pc }).Works s' → (Op.search x).Works s :=
    fun hw => Eq.trans hw hgeneration
  refine ⟨?_, trivial, fun hw => ?_, fun hw _ hd => ?_, fun _ => trivial⟩
  · show x.token ≤ s'.generation
    rw [hgeneration]
    exact hop.valid
  · rw [hbusy]
    exact hop.busy (hworks hw)
  · rw [hconnected]
    exact hop.offline (hworks hw) id (hdisposed ▸ hd)

/-- `login` goes on. The last hypotheses are about the `_open` it may have reached. -/
theorem Op.Holds.login {s s' : Room} {l : Login} {pc : LoginPC} (hop : (Op.login l).Holds s)
    (hpc : pc ≠ .returned) (hgeneration : s'.generation = s.generation) (hbusy : s'.busy = s.busy)
    (hoffline : l.token = s.generation → ∀ token opc, pc = .opening token opc → opc ≠ .returned →
      s'.disposed = false → s'.connected = false)
    (hloyal : ∀ token opc, pc = .opening token opc → token = l.token)
    (hknows : l.token = s.generation → ∀ token opc, pc = .opening token opc → opc.Knows s' token) :
    ({ l with pc } : Login).op.Holds s' := by
  have hcall : ({ l with pc } : Login).op = .login { l with pc } := by
    unfold Login.op
    split
    · exact absurd ‹_› hpc
    · rfl
  rw [hcall]
  -- the worker after the section was the worker before it
  have hworks : (Op.login { l with pc }).Works s' → (Op.login l).Works s :=
    fun hw => Eq.trans hw hgeneration
  refine ⟨⟨hgeneration ▸ hop.valid.1, fun token opc hopc => ?_⟩, hloyal, fun hw => ?_,
    fun hw hf hd => ?_, fun hw => hknows (hworks hw)⟩
  · rw [hloyal token opc hopc, hgeneration]
    exact hop.valid.1
  · rw [hbusy]
    exact hop.busy (hworks hw)
  · -- such a login is at `_open`, which has not returned
    obtain ⟨token, hrest⟩ := not_forall.mp hf
    obtain ⟨opc, hrest⟩ := not_forall.mp hrest
    obtain ⟨hopc, hreturned⟩ := Classical.not_imp.mp hrest
    exact hoffline (hworks hw) token opc hopc hreturned hd

/-- What is called when nobody is at work. A new generation begins offline. -/
theorem Room.honest_search {s : Room} (hs : s.Honest) (another : Bool) :
    (s.search another).1.Honest := by
  unfold search
  split
  · exact hs
  · exact honest_of_offline fun _ => rfl

/-- After a failed `attach` the room stays honest, and the search that may begin holds its
assertion. -/
theorem Room.fallBack_own {s : Room} (hs : s.Honest) (server : Option FoundServer) :
    (s.fallBack server).1.Honest ∧ (s.fallBack server).2.op.Holds (s.fallBack server).1 := by
  unfold fallBack
  split
  · exact ⟨hs, Op.holds_idle s⟩
  · split
    · exact ⟨honest_search hs false, Op.holds_search s false⟩
    · exact ⟨hs.congr rfl rfl rfl id id rfl, Op.holds_idle _⟩

/-- `_recover` starts operations like any caller. It does nothing when another operation is busy. -/
theorem Room.recover_own {s : Room} (hs : s.Honest) :
    s.recover.1.Honest ∧ s.recover.2.op.Holds s.recover.1 := by
  unfold recover
  split
  · exact ⟨hs, Op.holds_idle s⟩
  · split
    · exact ⟨honest_of_offline fun _ => rfl, Op.holds_attach s _ .recover (by simp)⟩
    · exact fallBack_own hs none

/-- A socket of an older `_open` ends. It is not the one that the connected room is subscribed
to. -/
theorem Room.honest_lost {s : Room} (hs : s.Honest) {ws : ℕ} {x : Socket}
    (hx : s.sockets[ws]? = some x) (hstale : x.token ≠ s.generation ∨ s.disposed = true)
    (f : Socket → Socket) : (s.modifySocket ws f).Honest := by
  intro hdisposed hconnected
  obtain ⟨ws', y, hsocket, hy, hlistening, hended, hclient, htoken⟩ := hs hdisposed hconnected
  refine ⟨ws', y, hsocket, ?_, hlistening, hended, hclient, htoken⟩
  have hne : ws ≠ ws' := by
    rintro rfl
    obtain rfl := Option.some.inj (hx.symm.trans hy)
    rcases hstale with hstale | hgone
    · exact hstale htoken
    · have halive : s.disposed = false := hdisposed
      rw [hgone] at halive
      cases halive
  simp [modifySocket, hne, hy]

/-- **A section of `attach` keeps the promises of `attach`.** As long as it is the newest operation
and has not come to the end of `_open`, the room is not connected. -/
theorem Attach.own {caller : Caller} {a a' : Attach} {k : Outcome} {s s' : Room}
    (h : a.step caller.isSilent k s = some (s', a')) (hs : s.Honest)
    (hop : (Op.attach caller a).Holds s) (hrule : ∀ e ∈ s'.log, e.isOrderly = true) :
    s'.Honest ∧ (Op.attach caller a').Holds s' := by
  -- an operation that has replaced the client and is the newest one is not connected
  have hearly : a.pc.IsEarly → (∀ reached, a.pc ≠ .returned reached) ∧ a.pc ≠ .opening .returned := by
    intro ha
    refine ⟨fun reached hpc => ?_, fun hpc => ?_⟩ <;>
      · rw [hpc] at ha
        exact ha
  have hfinished : ∀ {s₁ : Room} (reached : Bool), s₁.Honest → s₁.generation = s.generation →
      (a.finish s₁ reached).1.Honest ∧
        (Op.attach caller (a.finish s₁ reached).2).Holds (a.finish s₁ reached).1 := by
    intro s₁ reached hs₁ hgeneration
    refine ⟨hs₁.congr rfl rfl rfl id id rfl, Op.holds_returned (a := a) ?_⟩
    exact hop.valid.later hgeneration.ge
  cases Attach.effect h with
  | renew hpc =>
      -- the client is only replaced by the newest operation, by the rule
      have hnewest : a.token = s.generation :=
        of_decide_eq_true (hrule (.cancelled a.token s.generation) List.mem_cons_self)
      have hoff := hop.offline ⟨hnewest, fun reached => by simp [hpc]⟩ (by simp [Op.MayBeOnline, hpc])
      obtain ⟨s₁, client, hquiet, heq⟩ := s.renew_eq a.token a.server
      rw [heq]
      refine ⟨Room.honest_of_offline fun hdisposed => ?_, ?_⟩
      · exact hquiet.connected.trans (hoff (hquiet.disposed ▸ hdisposed))
      · exact hop.attach (by simp [hpc]) (by simp [hpc]) hquiet.generation hquiet.busy
          hquiet.disposed (fun _ => hquiet.connected) fun _ opc hopc => by cases hopc
  | quiet ha hpc hquiet =>
      refine ⟨hquiet.honest hs, ?_⟩
      refine hop.attach (hearly ha).1 (hearly ha).2 hquiet.generation hquiet.busy hquiet.disposed
        (fun _ => hquiet.connected) fun _ opc hopc => ?_
      rw [hopc] at hpc
      exact absurd hpc id
  | caught _ =>
      -- the `catch`, with the timer armed or not
      obtain ⟨s₁, reached, hs₁, heq⟩ := a.caught_eq caller.isSilent s
      rw [heq]
      rcases hs₁ with rfl | rfl
      · exact hfinished reached hs rfl
      · exact hfinished reached (hs.congr rfl rfl rfl id id rfl) rfl
  | stale _ _ => exact hfinished true hs rfl
  | askPin next _ _ _ => exact hfinished true (hs.congr rfl rfl rfl id id rfl) rfl
  | openSocket ha htoken _ =>
      have hoff := hop.offline ⟨htoken, (hearly ha).1⟩ (hearly ha).2
      refine ⟨Room.honest_of_offline hoff, ?_⟩
      exact hop.attach (hearly ha).1 (hearly ha).2 rfl rfl rfl (fun _ => rfl)
        fun _ opc hopc => by cases hopc; trivial
  | @opening _ pc pc' hpc hopen =>
      have hends : pc ≠ .returned := by
        rintro rfl
        cases hopen
      obtain ⟨hs', hgeneration, hbusy, hdisposed, hconnected, hknows⟩ :=
        openStep_own hopen hs (fun htoken => hop.knows ⟨htoken, by simp [hpc]⟩ pc hpc) hrule
      refine ⟨hs', hop.attach (by simp [hpc]) (by simp [hpc, hends]) hgeneration hbusy hdisposed
        (fun hne => hconnected fun heq => hne (congrArg AttachPC.opening heq)) ?_⟩
      intro htoken opc hopc
      cases hopc
      exact hknows htoken
  | opened _ => exact hfinished true hs rfl

/-- A section of `search`. There is one case for each effect that a section can have. -/
theorem Search.own {x x' : Search} {k : Outcome} {s s' : Room} (hx : x.op = .search x)
    (h : x.step k s = some (s', x')) (hs : s.Honest) (hop : (Op.search x).Holds s)
    (hrule : ∀ e ∈ s'.log, e.isOrderly = true) : s'.Honest ∧ x'.op.Holds s' := by
  -- the `finally` ends the search and touches nothing else the invariant is about
  have hfinished : ∀ {s₁ : Room}, s₁.Honest →
      (x.finish s₁).1.Honest ∧ (x.finish s₁).2.op.Holds (x.finish s₁).1 :=
    fun hs₁ => ⟨hs₁.congr rfl rfl rfl id id rfl, Op.holds_idle _⟩
  cases Search.effect hx h with
  -- `_socket?.cancel()` has returned and the client is closed, so the room is offline
  | release hpc =>
      have hnewest : x.token = s.generation :=
        of_decide_eq_true (hrule (.cancelled x.token s.generation) List.mem_cons_self)
      obtain ⟨s₁, hquiet, heq⟩ := s.release_eq x.token
      rw [heq]
      refine ⟨Room.honest_of_offline fun hdisposed => ?_, ?_⟩
      · exact hquiet.connected.trans (hop.offline hnewest id (hquiet.disposed ▸ hdisposed))
      · exact hop.search trivial hquiet.generation hquiet.busy hquiet.disposed hquiet.connected
  | quiet _ hpc hquiet =>
      exact ⟨hquiet.honest hs,
        hop.search hpc hquiet.generation hquiet.busy hquiet.disposed hquiet.connected⟩
  | caught _ => exact hfinished (hs.congr rfl rfl rfl id id rfl)
  | stale _ hquiet _ => exact hfinished (hquiet.honest hs)
  -- `attach` begins by setting `connected` to false
  | startAttach servers server _ _ htoken _ =>
      refine ⟨Room.honest_of_offline fun _ => rfl, Op.holds_attach _ server (.search x.token) ?_⟩
      intro token heq
      cases heq
      exact htoken.le
  | leave servers _ hquiet _ _ =>
      exact hfinished ((hquiet.honest hs).congr rfl rfl rfl id id rfl)

/-- **A section of `login` keeps the promises of `login`.** When it stores the cookie it is the
newest operation and the room is not connected, by the rule; from then on it is like an `attach`
that opens its socket. -/
theorem Login.own {l l' : Login} {k : Outcome} {s s' : Room} (h : l.step k s = some (s', l'))
    (hs : s.Honest) (hop : (Op.login l).Holds s) (hrule : ∀ e ∈ s'.log, e.isOrderly = true) :
    s'.Honest ∧ l'.op.Holds s' := by
  have hfinished : ∀ {s₁ : Room}, s₁.Honest →
      (l.finish s₁).1.Honest ∧ (l.finish s₁).2.op.Holds (l.finish s₁).1 :=
    fun hs₁ => ⟨hs₁.congr rfl rfl rfl id id rfl, Op.holds_idle _⟩
  cases Login.effect h with
  | @quiet _ pc hl hpc hquiet =>
      have hearly : ∀ token opc, pc ≠ .opening token opc := by
        rintro token opc rfl
        exact hpc
      refine ⟨hquiet.honest hs, hop.login ?_ hquiet.generation hquiet.busy ?_ ?_ ?_⟩
      · rintro rfl
        exact hpc
      · intro _ token opc heq
        exact absurd heq (hearly token opc)
      · intro token opc heq
        exact absurd heq (hearly token opc)
      · intro _ token opc heq
        exact absurd heq (hearly token opc)
  | stale _ _ => exact hfinished hs
  | caught _ => exact hfinished (hs.congr rfl rfl rfl id id rfl)
  | stored hpc =>
      -- the rule about the section that stores the cookie
      have hwrote := hrule (.loginWrote l.token s.generation s.connected) List.mem_cons_self
      obtain ⟨hnewest, hoff⟩ := Bool.and_eq_true _ _ |>.mp hwrote
      have hnewest : l.token = s.generation := of_decide_eq_true hnewest
      have hoff : s.connected = false := Bool.not_eq_true' _ |>.mp hoff
      refine ⟨Room.honest_of_offline fun _ => hoff, hop.login (by simp) rfl rfl ?_ ?_ ?_⟩
      · intro _ token opc _ _ _
        exact hoff
      · intro token opc heq
        cases heq
        exact hnewest.symm
      · intro _ token opc heq
        cases heq
        trivial
  | @opening _ token pc pc' hpc hopen =>
      have hends : pc ≠ .returned := by
        rintro rfl
        cases hopen
      -- the token of `_open` is read anew; it is the one of the `login`
      have hmine : token = l.token := hop.loyal token pc hpc
      obtain ⟨hs', hgeneration, hbusy, hdisposed, hconnected, hknows⟩ :=
        openStep_own hopen hs (fun htoken => hop.knows (hmine.symm.trans htoken) token pc hpc) hrule
      refine ⟨hs', hop.login (by simp) hgeneration hbusy ?_ ?_ ?_⟩
      · intro htoken token' opc heq hreturned hd
        cases heq
        rw [hconnected hreturned]
        refine hop.offline htoken ?_ (hdisposed ▸ hd)
        intro hmay
        exact hends (hmay token pc hpc)
      · intro token' opc heq
        cases heq
        exact hmine
      · intro htoken token' opc heq
        cases heq
        exact hknows (hmine.trans htoken)
  | opened _ => exact hfinished hs

/-- **A section keeps its own promises**: the room stays honest, and the operation the thread is in
afterwards holds its assertion. -/
theorem Section.own {k : Outcome} {s s' : Room} {op op' : Op} (h : Section k s op s' op')
    (hs : s.Honest) (hop : op.Holds s) (hrule : ∀ e ∈ s'.log, e.isOrderly = true) :
    s'.Honest ∧ op'.Holds s' := by
  cases h with
  | attach h => exact Attach.own h hs hop hrule
  | search hx h => exact Search.own hx h hs hop hrule
  | login h => exact Login.own h hs hop hrule
  | returned _ _ => exact ⟨hs, Op.holds_idle s⟩
  | searched _ => exact ⟨hs.congr rfl rfl rfl id id rfl, Op.holds_idle _⟩
  | fallBack _ => exact Room.fallBack_own hs _
  | quiet hquiet => exact ⟨hquiet.honest hs, Op.holds_idle _⟩
  | startAttach server hquiet =>
      exact ⟨Room.honest_of_offline fun _ => rfl, Op.holds_attach _ server .user (by simp)⟩
  | startSearch another hquiet =>
      exact ⟨Room.honest_search (hquiet.honest hs) another, Op.holds_search _ another⟩
  | startLogin =>
      unfold Room.login
      split
      · refine ⟨hs.congr rfl rfl rfl id id rfl, ⟨le_refl _, ?_⟩, ?_, fun _ => rfl, ?_, ?_⟩
        · intro token pc hpc
          cases hpc
        · intro token pc hpc
          cases hpc
        · -- the room may be connected as long as the cookie is not stored
          intro _ hoffline
          refine absurd (fun token pc hpc => ?_) hoffline
          cases hpc
        · intro _ token pc hpc
          cases hpc
      · exact ⟨hs, Op.holds_idle s⟩
  | restart hquiet _ =>
      exact Room.recover_own ((hquiet.honest hs).congr rfl rfl rfl id id rfl)
  | fireRetry =>
      have hs₁ : ({ s with retry := false } : Room).Honest := hs.congr rfl rfl rfl id id rfl
      unfold Room.fireRetry
      split
      · exact Room.recover_own hs₁
      · split
        · exact ⟨hs₁.congr rfl rfl rfl id id rfl, Op.holds_idle _⟩
        · exact ⟨hs₁, Op.holds_idle _⟩
  | @lost ws x hx _ =>
      unfold Room.lostSocket Room.lost
      split
      · rename_i hstale
        exact ⟨Room.honest_lost hs hx hstale _, Op.holds_idle _⟩
      · simp only
        split
        · exact Room.recover_own (Room.honest_of_offline fun _ => rfl)
        · exact ⟨Room.honest_of_offline fun _ => rfl, Op.holds_idle _⟩
  | handleExpired e =>
      refine ⟨hs.congr rfl rfl rfl id ?_ rfl, Op.holds_idle _⟩
      intro hconnected
      exact (Bool.and_eq_true _ _ |>.mp hconnected).1
  | dispose =>
      refine ⟨fun hdisposed _ => ?_, Op.holds_idle _⟩
      cases hdisposed

/-! ## The invariant of a run -/

/-- **The invariant of the connection.** One operation at a time is at work, and it alone may make
the room connected; the others are bystanders, as `Section.outsider` has it. -/
theorem exclusiveInvariant_connected : app.ExclusiveInvariant Arrivals
    (fun s => ∀ e ∈ s.log, e.isOrderly = true) Room.Honest (fun s th => th.op.Holds s)
    fun s th => th.op.Works s where
  spawn := by
    intro c th harrive
    obtain ⟨call, rfl⟩ := harrive th rfl
    exact ⟨Op.holds_idle _, id⟩
  own := by
    intro t k s th s' th' fs hstep hrule hs hop
    obtain ⟨hsection, rfl⟩ := app_step.mp hstep
    obtain ⟨hs', hop'⟩ := (Thread.section hsection).own hs hop hrule
    exact ⟨hs', hop', fun f hf => absurd hf List.not_mem_nil⟩
  other := by
    intro t k s th s' th' fs hstep hrule hs hop u hu hboth
    have hsection := (app_step.mp hstep).1
    rcases (Thread.later hsection).generation.eq_or_lt with hsame | hnewer
    · by_cases hw : u.op.Works s
      · -- `u` is at work, so the section is that of an outsider
        obtain ⟨hunharmed, hout⟩ := (Thread.section hsection).outsider hop
          (fun h => hboth ⟨h, hw⟩) (hu.busy hw) hsame.symm hrule
        exact ⟨hu.unharmed hunharmed, fun _ => ⟨hw, hout⟩⟩
      · have hnot : ¬u.op.Works s' := fun h => hw ((Op.Works.congr hsame.symm).mp h)
        exact ⟨⟨hu.valid.later hsame.le, hu.loyal, fun h => absurd h hnot, fun h => absurd h hnot,
          fun h => absurd h hnot⟩, fun h => absurd h hnot⟩
    · obtain ⟨hholds, hnot⟩ := hu.replaced hnewer
      exact ⟨hholds, fun h => absurd h hnot⟩
  env := fun h => ⟨h, fun _ hu => ⟨hu, id⟩⟩

/-- **`connected` means the live socket**, in every run whose steps keep the rule: it was opened on the
current client under the present generation, and has not reported its end. -/
theorem connected_live {storage : DartString → Option DartString} {c : Config Room Thread}
    (hrun : app.Run Arrivals (boot storage) c) (hrule : ∀ e ∈ c.shared.log, e.isOrderly = true)
    (hdisposed : c.shared.disposed = false) (hconnected : c.shared.connected = true) :
    c.shared.IsLive := by
  have hboot : (boot storage).shared.Honest := Room.honest_of_offline fun _ => rfl
  have hthreads : ∀ th ∈ (boot storage).threads, th.op.Holds (boot storage).shared := by
    intro th hth
    obtain rfl := List.mem_singleton.mp hth
    exact Op.holds_idle _
  have hexclusive : ThreadPool.Machine.Exclusive (fun s (th : Thread) => th.op.Works s) (boot storage) := by
    intro t u th₁ th₂ _ h₁ _ hboth
    obtain rfl := List.mem_singleton.mp (List.mem_of_getElem? h₁)
    exact hboth.1
  exact (exclusiveInvariant_connected.run (lasting fun e => e.isOrderly = true) hrun hrule hboot
    hthreads hexclusive).1 hdisposed hconnected

/-! ## A stale `_open` -/

namespace Sample

/-- The user has entered the address `B`; before it answers, the user goes to the room `A`, where
`_open` comes to its last write. Then `B` answers, and its client is made. -/
def overtaking : List (Act Thread Outcome Unit) :=
  started ++ call 1 (.manual (some (address 'B'))) [] ++ visit 2 'A' (publicInfo 'A') ++
    goOn 2 [.done, .done, .done, .done, .done, .done] ++
    goOn 1 (answered (publicInfo 'B') ++ [.done, .done])

/-- The user goes to the room `A`. -/
def arriving : List (Act Thread Outcome Unit) :=
  started ++ visit 1 'A' (publicInfo 'A') ++ goOn 1 ([.done] ++ opened)

end Sample

/-- The `_open` for the room `A` sets `connected` under the generation of the room `B`. The current
client is that of `B`, so the socket that the flag speaks of is not live. -/
theorem connected_stale : ∃ c, app.Run Arrivals (boot fun _ => none) c ∧
    c.shared.disposed = false ∧ c.shared.connected = true ∧ ¬c.shared.IsLive := by
  have hrun : ((app.execAll (boot fun _ => none) (Sample.overtaking ++ Sample.goOn 2 [.done])).map
      fun c => (c.shared.disposed, c.shared.connected, c.shared.generation,
        c.shared.sockets.map Socket.token)) = some (false, true, 3, [2]) := by
    decide +kernel
  obtain ⟨c, hc, hstate⟩ := Option.map_eq_some_iff.mp hrun
  obtain ⟨hdisposed, hrest⟩ := Prod.mk.inj hstate
  obtain ⟨hconnected, hrest⟩ := Prod.mk.inj hrest
  obtain ⟨hgeneration, htokens⟩ := Prod.mk.inj hrest
  refine ⟨c, .of_execAll (Sample.arrivals rfl) hc, hdisposed, hconnected, ?_⟩
  -- the only socket has the token of the older `_open`
  rintro ⟨ws, x, -, hx, -, -, -, htoken⟩
  have hmem : x.token ∈ c.shared.sockets.map Socket.token :=
    List.mem_map_of_mem (List.mem_of_getElem? hx)
  rw [htokens, htoken, hgeneration] at hmem
  exact absurd hmem (by decide)

/-- There is a run with a socket that is established, subscribed and not lost. The theorem therefore
speaks of runs that do connect. -/
theorem connected_live_arriving : ∃ c, app.Run Arrivals (boot fun _ => none) c ∧
    c.shared.connected = true ∧ c.shared.IsLive := by
  have hrun : ((app.execAll (boot fun _ => none) Sample.arriving).map fun c =>
      (c.shared.disposed, c.shared.connected, c.shared.log.all Event.isOrderly)) =
        some (false, true, true) := by
    decide +kernel
  obtain ⟨c, hc, hstate⟩ := Option.map_eq_some_iff.mp hrun
  obtain ⟨hdisposed, hrest⟩ := Prod.mk.inj hstate
  obtain ⟨hconnected, hrule⟩ := Prod.mk.inj hrest
  have hreached : app.Run Arrivals (boot fun _ => none) c :=
    .of_execAll (Sample.arrivals rfl) hc
  exact ⟨c, hreached, hconnected,
    connected_live hreached (List.all_eq_true.mp hrule) hdisposed hconnected⟩

end LanRoom.Mobile

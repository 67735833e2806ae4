import LanRoom.Mobile.Calls

/-! # The chat log of the selected server

Whatever is in the list of messages arrived on a socket that was opened for the selected server
(`messages_of_selected`). A frame counts only while the token of its socket is the generation, a
token belongs to one selection, and `attach` empties the list when it selects another server. -/

namespace LanRoom.Mobile

open ThreadPool (Act Config)

/-- Under the present token, a socket is opened for the selected server. -/
def Socket.Matches (x : Socket) (s : Room) : Prop :=
  x.token ≤ s.generation ∧
    (x.token = s.generation → x.openedFor = s.selectedID ∧ x.establishedFor = s.selectedID)

/-- A message arrived on a socket that was opened for the server `id`. -/
def Message.CameFrom (m : Message) (s : Room) (id : DartString) : Prop :=
  ∃ x, s.sockets[m.socket]? = some x ∧ x.openedFor = some id ∧ x.establishedFor = some id

/-- The **invariant**. -/
structure Apart (s : Room) : Prop where
  sockets : ∀ (ws : ℕ) (x : Socket), s.sockets[ws]? = some x → x.Matches s
  messages : ∀ server : FoundServer, s.selected = some server →
    ∀ m : Message, m ∈ s.messages → m.CameFrom s server.id

/-- `_open` under `token` is at `pc`, for the selected server if the token is the present one. -/
def OpensFor (s : Room) (token : ℕ) (pc : OpenPC) : Prop :=
  token ≤ s.generation ∧
    ∀ c openedFor, pc = .connect c openedFor → token = s.generation → openedFor = s.selectedID

/-- The assertion of a thread. -/
structure Thread.OpensFor (s : Room) (th : Thread) : Prop where
  attach : ∀ a, th.attach? = some a → ∀ pc, a.pc = .opening pc → LanRoom.Mobile.OpensFor s a.token pc
  login : ∀ l, th.login? = some l → ∀ token pc, l.pc = .opening token pc →
    LanRoom.Mobile.OpensFor s token pc

/-- The rule for the socket that is established. -/
def matching : Rules := { Rules.none with establish := fun s x => x.Matches s }

namespace Apart

/-- A message keeps its origin. Sockets are never removed from the record and keep the server they
were opened for. -/
theorem cameFrom_later {s s' : Room} (h : Later s s') {m : Message} {id : DartString}
    (hm : m.CameFrom s id) : m.CameFrom s' id := by
  obtain ⟨x, hx, hopened, hestablished⟩ := hm
  obtain ⟨x', hx', -, -, hopened', hestablished'⟩ := h.sockets m.socket x hx
  exact ⟨x', hx', hopened'.trans hopened, hestablished'.trans hestablished⟩

/-- Neither the sockets nor the selected server nor the messages change. -/
theorem congr {s s' : Room} (h : Apart s) (hgeneration : s'.generation = s.generation)
    (hselected : s'.selected = s.selected) (hsockets : s'.sockets = s.sockets)
    (hmessages : s'.messages = s.messages) : Apart s' := by
  constructor
  · intro ws x hx
    rw [hsockets] at hx
    simpa only [Socket.Matches, Room.selectedID, hgeneration, hselected] using h.sockets ws x hx
  · intro server hs m hm
    rw [hselected] at hs
    rw [hmessages] at hm
    simpa only [Message.CameFrom, hsockets] using h.messages server hs m hm

/-- The generation goes on: no socket has the new token. The sockets opened so far are stale from
then on, so nothing is asked of them. -/
theorem next {s s' : Room} (h : Apart s) (hgeneration : s'.generation = s.generation + 1)
    (hsockets : s'.sockets = s.sockets)
    (hmessages : ∀ server, s'.selected = some server → ∀ m ∈ s'.messages, m.CameFrom s server.id) :
    Apart s' := by
  constructor
  · intro ws x hx
    rw [hsockets] at hx
    have hle := (h.sockets ws x hx).1
    constructor
    · omega
    · intro htoken
      omega
  · intro server hs m hm
    simpa only [Message.CameFrom, hsockets] using hmessages server hs m hm

/-- The elements of the list after a frame. A history frame replaces the list and a message frame
extends it. -/
theorem mem_received {messages : List Message} {ws : ℕ} {f : Frame} {m : Message}
    (hm : m ∈ received messages ws f) : m ∈ messages ∨ m.socket = ws := by
  cases f with
  | history bodies =>
      obtain ⟨body, -, rfl⟩ := List.mem_map.mp hm
      exact .inr rfl
  | message body =>
      have hmem : m ∈ messages ++ [⟨body, ws⟩] := by
        simp only [received] at hm
        split at hm
        · exact List.mem_of_mem_drop hm
        · exact hm
      rcases List.mem_append.mp hmem with hmem | hmem
      · exact .inl hmem
      · obtain rfl := List.mem_singleton.mp hmem
        exact .inr rfl
  | other => exact .inl hm

/-- **One move.** There is one case for each kind of move. The socket of a message has to be known
when the message is received, and the list is emptied when another server is selected. -/
theorem move {s s' : Room} (h : Apart s) (hmove : Move matching s s') : Apart s' := by
  have hlater := Later.of_move hmove
  cases hmove with
  | flags hseen =>
      exact h.congr hseen.generation hseen.selected hseen.sockets hseen.messages
  | note _ => exact h.congr rfl rfl rfl rfl
  | newClient _ => exact h.congr rfl rfl rfl rfl
  | modifyClient c _ _ _ _ => exact h.congr rfl rfl rfl rfl
  | takeCookie _ => exact h.congr rfl rfl rfl rfl
  | sendCookie c => exact h.congr rfl rfl rfl rfl
  | storeCookie _ => exact h.congr rfl rfl rfl rfl
  | @newSocket x hrule =>
      refine ⟨fun ws y hy => ?_, fun server hs m hm => ?_⟩
      · rcases ThreadPool.getElem?_append_cases hy with hy | ⟨-, hy⟩
        · exact h.sockets ws y hy
        · obtain rfl := List.mem_singleton.mp hy
          exact hrule
      · exact cameFrom_later hlater (h.messages server hs m hm)
  | @modifySocket ws f hf =>
      refine ⟨fun ws' y hy => ?_, fun server hs m hm => ?_⟩
      · simp only [Room.modifySocket, List.getElem?_modify, Option.map_eq_map,
          Option.map_eq_some_iff] at hy
        obtain ⟨x, hx, rfl⟩ := hy
        have hmatches : x.Matches (s.modifySocket ws f) := h.sockets ws' x hx
        split
        · obtain ⟨-, htoken, hopened, hestablished⟩ := hf x
          simpa only [Socket.Matches, htoken, hopened, hestablished] using hmatches
        · exact hmatches
      · exact cameFrom_later hlater (h.messages server hs m hm)
  | @frame ws x f hx htoken =>
      refine ⟨h.sockets, fun server hs m hm => ?_⟩
      rcases mem_received hm with hold | hnew
      · exact h.messages server hs m hold
      · -- the socket has the present token, so it was opened for the selected server
        obtain ⟨hopened, hestablished⟩ := (h.sockets ws x hx).2 htoken
        have hselected : s.selectedID = some server.id := congrArg (Option.map FoundServer.id) hs
        refine ⟨x, ?_, hopened.trans hselected, hestablished.trans hselected⟩
        rw [hnew]
        exact hx
  | attach server =>
      refine h.next rfl rfl ?_
      intro v hv m hm
      obtain rfl := Option.some.inj hv
      by_cases hclears : s.clears server = true
      · simp only [hclears, if_true] at hm
        exact absurd hm List.not_mem_nil
      · -- the server is the one already selected
        simp only [hclears] at hm
        have hsame : s.selectedID = some server.id := by simpa [Room.clears] using hclears
        obtain ⟨old, hold, hid⟩ := Option.map_eq_some_iff.mp hsame
        rw [← hid]
        exact h.messages old hold m hm
  | search another =>
      refine h.next rfl rfl ?_
      intro v hv m hm
      cases another with
      | true => cases hv
      | false => exact h.messages v hv m hm
  | choose recipients => exact h.congr rfl rfl rfl rfl
  | text value =>
      unfold Room.text
      split
      · exact h
      · exact h.congr rfl rfl rfl rfl
  | dispose => exact h.next rfl rfl h.messages

/-- A whole section. It is the induction on the moves it consists of. -/
theorem moves {s s' : Room} (hmoves : Moves matching s s') (h : Apart s) : Apart s' := by
  induction hmoves with
  | refl => exact h
  | tail _ hmove ih => exact ih.move hmove

end Apart

/-! ## Threads -/

/-- A thread that meets its assertion meets the rules. A socket is thus only opened for the server
that is selected under its token. -/
theorem Thread.OpensFor.abides {s : Room} {th : Thread} (h : th.OpensFor s) :
    th.Abides matching s where
  attach := by
    intro a ha
    refine ⟨fun c openedFor hpc => ?_, fun _ _ => trivial⟩
    obtain ⟨hle, hopened⟩ := h.attach a ha _ hpc
    exact ⟨hle, fun htoken => ⟨hopened c openedFor rfl htoken, rfl⟩⟩
  login := by
    intro l hl
    refine ⟨fun token c openedFor hpc => ?_, fun _ _ _ _ _ _ => trivial⟩
    obtain ⟨hle, hopened⟩ := h.login l hl token _ hpc
    exact ⟨hle, fun htoken => ⟨hopened c openedFor rfl htoken, rfl⟩⟩

/-- The selected server changes with the generation only. So a token that is still the present one
belongs to the server that it was taken for. -/
theorem OpensFor.later {s s' : Room} (hlater : Later s s') {token : ℕ} {pc : OpenPC}
    (h : OpensFor s token pc) : OpensFor s' token pc := by
  refine ⟨h.1.trans hlater.generation, fun c openedFor hpc htoken => ?_⟩
  have hsame : s'.generation = s.generation :=
    le_antisymm (htoken ▸ h.1) hlater.generation
  rw [h.2 c openedFor hpc (htoken.trans hsame)]
  simp only [Room.selectedID, hlater.selected hsame]

/-- A section of `_open`: `connect` is called for the selected server. -/
theorem OpensFor.step {s s' : Room} {token : ℕ} {k : Outcome} {pc pc' : OpenPC}
    (hlater : Later s s') (h : OpensFor s token pc)
    (hstep : openStep token k s pc = some (s', pc')) : OpensFor s' token pc' := by
  refine ⟨h.1.trans hlater.generation, fun c openedFor hpc htoken => ?_⟩
  subst hpc
  -- the same token and the same generation: no other server was selected meanwhile
  have hsame : s'.generation = s.generation := le_antisymm (htoken ▸ h.1) hlater.generation
  have hselected : s'.selectedID = s.selectedID := by
    simp only [Room.selectedID, hlater.selected hsame]
  rw [hselected]
  cases pc with
  -- the id is read where `connect` is called; no other section leads there
  | close =>
      simp only [openStep] at hstep
      split at hstep <;> cases hstep
      rfl
  | cancel =>
      simp only [openStep] at hstep
      split at hstep <;> cases hstep
  | connect c' openedFor' =>
      simp only [openStep] at hstep
      split at hstep
      · cases hstep
      · split at hstep <;> cases hstep
      · cases hstep
  | connected ws =>
      simp only [openStep] at hstep
      split at hstep
      · cases hstep
      · split at hstep <;> cases hstep
  | closeStale =>
      simp only [openStep] at hstep
      split at hstep <;> cases hstep
  | preferred ws =>
      simp only [openStep] at hstep
      split at hstep <;> cases hstep
  | lastAddress ws =>
      simp only [openStep] at hstep
      split at hstep
      · cases hstep
      · unfold openConnected at hstep
        simp only at hstep
        split at hstep <;> cases hstep
      · cases hstep
  | returned => cases hstep
  | threw => cases hstep

/-- `_open` has just been called under the present generation. -/
theorem OpensFor.start (s : Room) : OpensFor s s.generation .cancel :=
  ⟨le_refl _, fun _ _ hpc => by cases hpc⟩

/-- The assertion of the thread that performs the section. Its calls of `attach` and `login` go on
or have just begun. -/
theorem Thread.OpensFor.own {s s' : Room} {th th' : Thread} {k : Outcome} (h : th.OpensFor s)
    (hstep : th.step k s = some (s', th')) : th'.OpensFor s' where
  attach := by
    intro a' ha' pc' hpc'
    rcases Thread.attach?_step hstep ha' with ⟨a, silent, ha, hinner⟩ | ⟨s₁, server, -, -, rfl⟩
    · obtain ⟨htoken, ⟨pc, hpc, hopen⟩ | ⟨hcurrent, rfl, rfl⟩⟩ := Attach.opening_step hinner hpc'
      · rw [htoken]
        exact (h.attach a ha pc hpc).step (Thread.later hstep) hopen
      · rw [htoken, hcurrent]
        exact OpensFor.start s.cancelSocket
    · cases hpc'
  login := by
    intro l' hl' token pc' hpc'
    rcases Thread.login?_step hstep hl' with ⟨l, hl, hinner⟩ | ⟨-, rfl⟩
    · rcases Login.opening_step hinner hpc' with ⟨pc, hpc, hopen⟩ | ⟨-, rfl, rfl, rfl⟩
      · exact (h.login l hl token pc hpc).step (Thread.later hstep) hopen
      · exact OpensFor.start (l.stored s).1
    · unfold Room.login at hpc'
      split at hpc' <;> cases hpc'

/-- **The invariant of the messages**: a socket is opened for the server that is selected in that
section, and a frame counts only while its generation is the present one. -/
theorem localInvariant_apart :
    app.LocalInvariant Arrivals (fun _ => True) Apart fun s th => th.OpensFor s where
  spawn := by
    intro c th harrive
    obtain ⟨call, rfl⟩ := harrive th rfl
    constructor
    · intro a ha
      cases ha
    · intro l hl
      cases hl
  -- the thread that runs
  own := by
    intro t k s th s' th' fs hstep _ hI hA
    obtain ⟨hsection, rfl⟩ := app_step.mp hstep
    have hmoves := Thread.moves hA.abides hsection
    exact ⟨hI.moves hmoves, hA.own hsection, fun f hf => absurd hf List.not_mem_nil⟩
  -- the others, for which only the generation matters
  other := by
    intro t k s th s' th' fs hstep _ _ _ u hu
    have hlater := Thread.later (app_step.mp hstep).1
    constructor
    · intro a ha pc hpc
      exact (hu.attach a ha pc hpc).later hlater
    · intro l hl token pc hpc
      exact (hu.login l hl token pc hpc).later hlater
  env := fun h => ⟨h, fun _ hu => hu⟩

/-- **The chat logs of two servers never mix**: in every run, each message arrived on a socket that
was opened, from the handshake to its establishment, for the server that is selected. -/
theorem messages_of_selected {storage : DartString → Option DartString} {c : Config Room Thread}
    (hrun : app.Run Arrivals (boot storage) c) {server : FoundServer}
    (hselected : c.shared.selected = some server) :
    ∀ m ∈ c.shared.messages, m.CameFrom c.shared server.id := by
  have hboot : Apart (boot storage).shared := by
    constructor
    · intro ws x hx
      cases hx
    · intro server hs
      cases hs
  have hthreads : ∀ th ∈ (boot storage).threads, th.OpensFor (boot storage).shared := by
    intro th hth
    obtain rfl := List.mem_singleton.mp hth
    constructor
    · intro a ha
      cases ha
    · intro l hl
      cases hl
  have hlasting : app.Lasting fun _ => True := ⟨fun _ _ => trivial, fun _ => trivial⟩
  exact (localInvariant_apart.run hlasting hrun trivial hboot hthreads).1.messages server hselected

namespace Sample

/-- The user is in the room `A`, and a message arrives. -/
def reading : List (Act Thread Outcome Unit) :=
  started ++ visit 1 'A' (publicInfo 'A') ++ goOn 1 ([.done] ++ opened ++ [.done, .done]) ++
    call 2 (.frame 0 (.message ['h', 'i'])) []

end Sample

/-- The message of the room `A` stands in its log. It arrived on the socket that was opened for this
room. -/
theorem messages_of_selected_reading : ∃ c, app.Run Arrivals (boot fun _ => none) c ∧
    c.shared.messages = [⟨['h', 'i'], 0⟩] ∧ ∀ m ∈ c.shared.messages, m.CameFrom c.shared ['A'] := by
  have hrun : ((app.execAll (boot fun _ => none) Sample.reading).map
      fun c => (c.shared.selected, c.shared.messages)) =
        some (some ⟨['A'], Sample.address 'A'⟩, [⟨['h', 'i'], 0⟩]) := by
    decide +kernel
  obtain ⟨c, hc, hstate⟩ := Option.map_eq_some_iff.mp hrun
  obtain ⟨hselected, hmessages⟩ := Prod.mk.inj hstate
  have hreached : app.Run Arrivals (boot fun _ => none) c := .of_execAll (Sample.arrivals rfl) hc
  exact ⟨c, hreached, hmessages, messages_of_selected hreached hselected⟩

end LanRoom.Mobile

import LanRoom.Mobile.Room
import LanRoom.Concurrency.LocalInvariant

/-! # What a section can do to the room

A section of any operation is a sequence of a few kinds of `Move` (`Thread.moves`). Where a move
depends on what its thread has done before, it comes with a rule, to be chosen by the one who proves
an invariant and to be met by the thread. From the moves follows what holds of every run: the
generation only grows, the selected server changes only with the generation, clients and sockets keep
what they were made with, and what is noted stays noted (`Later`). -/

namespace LanRoom.Mobile

open Relation (ReflTransGen)

/-! ## The calls inside a thread -/

/-- The call of `attach` inside a search. -/
def Search.attach? (x : Search) : Option Attach :=
  match x.pc with
  | .attach a => some a
  | _ => none

/-- The call of `attach` inside `_recover`. -/
def RecoverPC.attach? : RecoverPC → Option Attach
  | .attach a => some a
  | .search x => x.attach?
  | .returned => none

/-- The call of `_recover` inside a thread. -/
def Thread.recover? : Thread → Option RecoverPC
  | .recover pc | .reconnect (.recover pc) => some pc
  | _ => none

/-- The call of `attach` inside a thread. -/
def Thread.attach? : Thread → Option Attach
  | .attach a | .manual (.attach a) | .rename (.attach a) => some a
  | .search x | .initializing (.search x) => x.attach?
  | th => th.recover?.bind RecoverPC.attach?

/-- The call of `login` in a thread. -/
def Thread.login? : Thread → Option Login
  | .login l => some l
  | _ => none

/-! ## Moves -/

/-- **Rules** for the moves that depend on what a thread has done before. -/
structure Rules where
  /-- For the socket that is established. -/
  establish : Room → Socket → Prop
  /-- For a client and the id under whose key its cookie is read. -/
  take : Room → ℕ → DartString → Prop
  /-- For the client that has logged in, the client whose cookie is stored, and the id under whose
  key. -/
  store : Room → ℕ → ℕ → DartString → Prop

/-- Nothing is asked. -/
def Rules.none : Rules := ⟨fun _ _ => True, fun _ _ _ => True, fun _ _ _ _ => True⟩

/-- Events about tokens and failures. -/
def Event.isPlain : Event → Bool
  | .attach .. | .chose .. | .text .. | .sent .. | .stored .. => false
  | _ => true

/-- The fields that the moves are about are equal. -/
structure SameSeen (s s' : Room) : Prop where
  generation : s'.generation = s.generation
  selected : s'.selected = s.selected
  lastSelected : s'.lastSelected = s.lastSelected
  recipients : s'.recipients = s.recipients
  chosen : s'.chosen = s.chosen
  messages : s'.messages = s.messages
  disposed : s'.disposed = s.disposed
  clients : s'.clients = s.clients
  sockets : s'.sockets = s.sockets
  log : s'.log = s.log

/-- A kind of change. -/
inductive Move (R : Rules) : Room → Room → Prop
  /-- Flags, timers, storage, the current client or socket. -/
  | flags {s s' : Room} (h : SameSeen s s') : Move R s s'
  | note (s : Room) {e : Event} (h : e.isPlain = true) : Move R s (s.note e)
  | newClient (s : Room) {x : LanClient} (h : x.cookieOf = none) : Move R s (s.newClient x)
  | modifyClient (s : Room) (c : ℕ) {f : LanClient → LanClient} (hbase : ∀ x, (f x).base = x.base)
      (howner : ∀ x, (f x).owner = x.owner) (hanswered : ∀ x, x.answered ⊆ (f x).answered)
      (hcookie : ∀ x, (f x).cookieOf = none ∨ (f x).cookieOf = x.cookieOf) :
      Move R s (s.modifyClient c f)
  | takeCookie (s : Room) {c : ℕ} {id : DartString} (h : R.take s c id) :
      Move R s (s.takeCookie c id)
  | sendCookie (s : Room) (c : ℕ) : Move R s (s.sendCookie c)
  | storeCookie (s : Room) {active c : ℕ} {id : DartString} (h : R.store s active c id) :
      Move R s (s.storeCookie active c id)
  | newSocket (s : Room) {x : Socket} (h : R.establish s x) :
      Move R s { s with sockets := s.sockets ++ [x] }
  | modifySocket (s : Room) (ws : ℕ) {f : Socket → Socket}
      (h : ∀ x, (f x).client = x.client ∧ (f x).token = x.token ∧ (f x).openedFor = x.openedFor ∧
        (f x).establishedFor = x.establishedFor) : Move R s (s.modifySocket ws f)
  /-- A frame of the present generation. -/
  | frame (s : Room) {ws : ℕ} {x : Socket} (f : Frame) (hx : s.sockets[ws]? = some x)
      (htoken : x.token = s.generation) :
      Move R s { s with messages := received s.messages ws f }
  /-- The first section of `attach` but for the subscription. -/
  | attach (s : Room) (server : FoundServer) :
      Move R s { s.note (.attach server (s.clears server) (s.chosen server.id)) with
        retry := false
        generation := s.generation + 1
        busy := true
        connected := false
        needsPin := false
        messages := if s.clears server then [] else s.messages
        recipients := if s.clears server then [] else s.recipients
        selected := some server
        lastSelected := some server.id
        leftToUser := false }
  /-- The first section of `search` but for the subscription. -/
  | search (s : Room) (chooseAnother : Bool) :
      Move R s { s with
        busy := true
        generation := s.generation + 1
        retry := false
        connected := false
        needsPin := false
        selected := if chooseAnother then none else s.selected }
  | choose (s : Room) (recipients : List DartString) : Move R s (s.choose recipients)
  | text (s : Room) (value : DartString) : Move R s (s.text value)
  | dispose (s : Room) : Move R s { s with
      disposed := true
      generation := s.generation + 1
      retry := false
      debounce := false
      network := false }

/-- A sequence of moves. -/
abbrev Moves (R : Rules) : Room → Room → Prop := ReflTransGen (Move R)

variable {R : Rules}

/-- A change the moves do not look at is a single move. Flags, timer and storage are of this
kind. -/
theorem SameSeen.moves {s s' : Room} (h : SameSeen s s') : Moves R s s' := .single (.flags h)

/-- The room after a section that leads to `x`. It is the form in which a branch of a section is
concluded. -/
theorem moves_of_eq {α : Type*} {s s' : Room} {x : Room × α} {y : α} (hmoves : Moves R s x.1)
    (h : some x = some (s', y)) : Moves R s s' := by
  obtain rfl := Option.some.inj h
  exact hmoves

/-! ## Sections as moves -/

namespace Room

variable (s : Room)

/-- Closing a socket changes its state, not what it was made with. No move but this one changes the
state of a socket that has been made. -/
theorem moves_closeWS (ws : Option ℕ) : Moves R s (s.closeWS ws) := by
  cases ws with
  | none => exact .refl
  | some ws => exact .single (.modifySocket s ws fun x => ⟨rfl, rfl, rfl, rfl⟩)

/-- `_socket?.cancel()` ends the current subscription; the socket itself stays what it was. Its end
is not reported to the room any more. -/
theorem moves_cancelSocket : Moves R s s.cancelSocket := by
  unfold cancelSocket
  split
  · exact .refl
  · exact .single (.modifySocket s _ fun x => ⟨rfl, rfl, rfl, rfl⟩)

/-- A closed client keeps its address, its owner and its answers. What has been learnt about a
server through it remains true. -/
theorem moves_closeClient (c : ℕ) : Moves R s (s.closeClient c) := by
  refine (s.moves_closeWS (s.socketOf c)).tail ?_
  exact .modifyClient _ c (fun _ => rfl) (fun _ => rfl) (fun _ => List.Subset.refl _)
    fun _ => .inr rfl

/-- Closing the current client and its socket, as `renew` and `release` do. Both happen in one
section, the client after the socket. -/
theorem moves_closeCurrent : Moves R s s.closeCurrent := by
  have hclose : Moves R s (s.closeWS s.currentSocket) := s.moves_closeWS s.currentSocket
  unfold closeCurrent
  split
  · exact hclose
  · refine hclose.tail ?_
    exact .modifyClient _ _ (fun _ => rfl) (fun _ => rfl) (fun _ => List.Subset.refl _)
      fun _ => .inr rfl

/-- A client is made without a cookie: it can only get one by `takeCookie` or from an answer. The
rules about cookies are therefore not asked for here. -/
theorem moves_newClient {x : LanClient} (h : x.cookieOf = none) : Moves R s (s.newClient x) :=
  .single (.newClient s h)

/-- An event that names a token or a failure is noted by itself. It can be read by the conditions on
runs and by nothing else. -/
theorem moves_note {e : Event} (h : e.isPlain = true) : Moves R s (s.note e) := .single (.note s h)

/-- The handshake of a socket sends the cookie of its client, if the client has one. That is noted,
since it is where a cookie leaves the app. -/
theorem moves_handshake (c : ℕ) : Moves R s (s.handshake c) := by
  unfold handshake
  split
  · exact .single (.sendCookie s c)
  · exact .refl

/-- The only place where a socket is made; the rule for it is passed to the caller of `_open`. The
server that it is for is noted in it at the start and at the end of the handshake. -/
theorem moves_established (c : ℕ) {x : Socket} (h : R.establish s x) :
    Moves R s (s.established c x) := by
  refine (ReflTransGen.single (.newSocket s h)).tail ?_
  exact .modifyClient _ c (fun _ => rfl) (fun _ => rfl) (fun _ => List.Subset.refl _)
    fun _ => .inr rfl

/-- Arming the timer is not noticed by any move. It is a flag to them. -/
theorem moves_schedule : Moves R s s.schedule :=
  SameSeen.moves ⟨rfl, rfl, rfl, rfl, rfl, rfl, rfl, rfl, rfl, rfl⟩

/-- Subscribing to a socket makes it the current one. The subscription before it is given up. -/
theorem moves_listen (ws : ℕ) : Moves R s (s.listen ws) := by
  have hflags : SameSeen s { s with socket := some ws } := ⟨rfl, rfl, rfl, rfl, rfl, rfl, rfl, rfl, rfl, rfl⟩
  exact hflags.moves.tail (.modifySocket _ ws fun x => ⟨rfl, rfl, rfl, rfl⟩)

/-- `attach` replaces the selection and everything that belongs to the old one, then ends the old
subscription. -/
theorem moves_attach (server : FoundServer) : Moves R s (s.attach server).1 :=
  .head (.attach s server) (moves_cancelSocket _)

/-- `search` raises the generation, unless it returns at once. In that case another operation is
busy and goes on. -/
theorem moves_search (chooseAnother : Bool) : Moves R s (s.search chooseAnother).1 := by
  unfold search
  split
  · exact .refl
  · exact .head (.search s chooseAnother) (moves_cancelSocket _)

/-- The first `await` of `attach` is over: the current client is replaced by one for the server. -/
theorem moves_renew (token : ℕ) (server : FoundServer) : Moves R s (s.renew token server) := by
  have hnote : Moves R s (s.note (.cancelled token s.generation)) := s.moves_note rfl
  have hclose := hnote.trans (moves_closeCurrent _)
  refine (hclose.trans (moves_newClient (x := { base := server.uri, owner := some server.id }) _
    rfl)).trans ?_
  exact SameSeen.moves ⟨rfl, rfl, rfl, rfl, rfl, rfl, rfl, rfl, rfl, rfl⟩

/-- The first `await` of `search` is over: the current client is closed and not replaced. Until
`attach` has made a new one the room has no client. -/
theorem moves_release (token : ℕ) : Moves R s (s.release token) := by
  have hnote : Moves R s (s.note (.cancelled token s.generation)) := s.moves_note rfl
  refine (hnote.trans (moves_closeCurrent _)).trans ?_
  exact SameSeen.moves ⟨rfl, rfl, rfl, rfl, rfl, rfl, rfl, rfl, rfl, rfl⟩

/-- A server that asks for a PIN takes the cookie from its client. The cookie has been refused, so
it is of no use. -/
theorem moves_askPin (c : ℕ) : Moves R s (s.askPin c) := by
  have hflags : SameSeen s { s with needsPin := true } := ⟨rfl, rfl, rfl, rfl, rfl, rfl, rfl, rfl, rfl, rfl⟩
  refine hflags.moves.tail ?_
  exact .modifyClient _ c (fun _ => rfl) (fun _ => rfl) (fun _ => List.Subset.refl _)
    fun _ => .inl rfl

/-- After a failed `attach`, `_recover` searches, arms the timer or gives up. Which of these it is
depends on the server it has failed on and on the app being in the foreground. -/
theorem moves_fallBack (server : Option FoundServer) : Moves R s (s.fallBack server).1 := by
  unfold fallBack
  split
  · exact .refl
  · split
    · exact s.moves_search false
    · exact s.moves_schedule

/-- `_recover` attaches to the selected server, if there is one. What follows are the moves of
`attach` or of the search. -/
theorem moves_recover : Moves R s s.recover.1 := by
  unfold recover
  split
  · exact .refl
  · split
    · exact s.moves_attach _
    · exact s.moves_fallBack none

/-- `reconnect` cancels the timer before it recovers. What follows are the moves of `_recover`. -/
theorem moves_restart : Moves R s s.restart.1 := by
  have hflags : SameSeen s { s with retry := false } := ⟨rfl, rfl, rfl, rfl, rfl, rfl, rfl, rfl, rfl, rfl⟩
  exact hflags.moves.trans (moves_recover _)

/-- `reconnect` probes the server while the socket is open, and recovers otherwise. The probe asks
through a client of its own. -/
theorem moves_reconnect (probe : Bool) : Moves R s (s.reconnect probe).1 := by
  unfold reconnect
  split
  · exact .refl
  · split
    · split
      · exact s.moves_newClient rfl
      · exact .refl
    · exact s.moves_restart

/-- The first section of `login`, which changes nothing else. It marks the room as busy and does not
raise the generation. -/
theorem moves_login : Moves R s s.login.1 := by
  unfold login
  split
  · refine (s.moves_note (e := .loginCalled s.connected s.owner s.selectedID) rfl).trans ?_
    exact SameSeen.moves ⟨rfl, rfl, rfl, rfl, rfl, rfl, rfl, rfl, rfl, rfl⟩
  · exact .refl

/-- A lost socket clears `connected`, then the room recovers or the timer is armed. It is ignored
when the socket belongs to an older generation. -/
theorem moves_lost (token : ℕ) : Moves R s (s.lost token).1 := by
  have hflags : SameSeen s { s with connected := false } :=
    ⟨rfl, rfl, rfl, rfl, rfl, rfl, rfl, rfl, rfl, rfl⟩
  unfold lost
  split
  · exact .refl
  · simp only
    split
    · exact hflags.moves.trans (moves_recover _)
    · exact hflags.moves.trans (moves_schedule _)

/-- The timer recovers, is armed once more or does nothing. The flag of the timer is cleared
before. -/
theorem moves_fireRetry : Moves R s s.fireRetry.1 := by
  unfold fireRetry
  split
  · exact s.moves_recover
  · split
    · exact s.moves_schedule
    · exact .refl

end Room

/-- **A section of a request.** It sends the cookie of its client on the way out, and reads a new
one and the answer on the way back; the client keeps its address and its owner. -/
theorem Request.moves {k : Outcome} {s s' : Room} {r r' : Request} (h : r.step k s = some (s', r')) :
    Moves R s s' := by
  unfold Request.step at h
  split at h
  · cases h
    exact .refl
  · split at h
    · cases h
      exact .single (.sendCookie s _)
    · cases h
  · cases h
    exact .refl
  · -- the request leaves, with the cookie of its client
    split at h
    · cases h
      apply ReflTransGen.single
      -- the answer may replace the cookie of the client, never its owner
      apply Move.modifyClient
      · intro x
        unfold LanClient.receive
        split <;> rfl
      · intro x
        unfold LanClient.receive
        split <;> rfl
      · intro x
        unfold LanClient.receive
        split <;> exact List.Subset.refl _
      · intro x
        unfold LanClient.receive
        split
        · exact .inr rfl
        · exact .inl rfl
    · cases h
  · cases h
    exact .refl
  · cases h
    apply ReflTransGen.single
    exact .modifyClient s _ (fun _ => rfl) (fun _ => rfl) (fun _ => List.subset_append_left _ _)
      fun _ => .inr rfl
  · cases h

/-- What `_open` stores and the last flag it sets. The last address is written and `connected` is
set. -/
theorem moves_openConnected (token : ℕ) (s : Room) (ws : ℕ) :
    Moves R s (openConnected token s ws).1 := by
  have hnote : Moves R s (s.note (.openWrote token s.generation)) := s.moves_note rfl
  have hflag : SameSeen (s.note (.openWrote token s.generation))
      { s.note (.openWrote token s.generation) with connected := true } :=
    ⟨rfl, rfl, rfl, rfl, rfl, rfl, rfl, rfl, rfl, rfl⟩
  have hconnected := hnote.trans hflag.moves
  unfold openConnected
  simp only
  split
  · exact hconnected
  · rename_i server _
    refine hconnected.trans ((SameSeen.moves ?_).trans (Room.moves_listen _ ws))
    exact ⟨rfl, rfl, rfl, rfl, rfl, rfl, rfl, rfl, rfl, rfl⟩

/-- **A section of `_open`.** The socket is made at one program point only, and there the rule for
it is needed. -/
theorem openStep_moves {token : ℕ} {k : Outcome} {s s' : Room} {pc pc' : OpenPC}
    (hR : ∀ c openedFor, pc = .connect c openedFor →
      R.establish s ⟨c, token, openedFor, s.selectedID, true, false, false⟩)
    (h : openStep token k s pc = some (s', pc')) : Moves R s s' := by
  have hstored : ∀ (s : Room) (key value : DartString), Moves R s (s.write key value) :=
    fun s key value => SameSeen.moves ⟨rfl, rfl, rfl, rfl, rfl, rfl, rfl, rfl, rfl, rfl⟩
  -- one case for each `await` of `_open`
  cases pc with
  | cancel =>
      simp only [openStep] at h
      split at h <;> cases h
      exact s.moves_closeWS _
  | close =>
      simp only [openStep] at h
      split at h <;> cases h
      · exact .refl
      · exact .refl
      · exact s.moves_handshake _
  | connect c openedFor =>
      simp only [openStep] at h
      split at h
      · cases h
        exact .refl
      · split at h <;> cases h
        exact s.moves_established c (hR c openedFor rfl)
      · cases h
  | connected ws =>
      -- another operation may have replaced this one while the socket was being connected
      simp only [openStep] at h
      split at h
      · cases h
        exact s.moves_closeWS _
      · split at h <;> cases h
        · exact .refl
        · exact SameSeen.moves ⟨rfl, rfl, rfl, rfl, rfl, rfl, rfl, rfl, rfl, rfl⟩
  | closeStale =>
      simp only [openStep] at h
      split at h <;> cases h
      · exact .refl
      · exact .refl
  | preferred ws =>
      simp only [openStep] at h
      split at h <;> cases h
      · exact .refl
      · exact .refl
      · exact hstored s _ _
  | lastAddress ws =>
      simp only [openStep] at h
      split at h
      · cases h
        exact .refl
      · exact moves_of_eq (moves_openConnected token s ws) h
      · cases h
  | returned => cases h
  | threw => cases h

namespace Attach

/-- A call of `attach` meets the rules. -/
structure Abides (R : Rules) (s : Room) (a : Attach) : Prop where
  establish : ∀ c openedFor, a.pc = .opening (.connect c openedFor) →
    R.establish s ⟨c, a.token, openedFor, s.selectedID, true, false, false⟩
  take : ∀ next, a.pc = .read next → R.take s next a.server.id

/-- The `finally` of `attach` clears `busy`. It does so for its own generation only. -/
theorem moves_finish (a : Attach) (s : Room) (reached : Bool) : Moves R s (a.finish s reached).1 :=
  SameSeen.moves ⟨rfl, rfl, rfl, rfl, rfl, rfl, rfl, rfl, rfl, rfl⟩

/-- The `catch` of `attach`: silent calls and replaced ones do not arm the timer. It is followed by
the `finally`, whatever has been caught. -/
theorem moves_caught (a : Attach) (silent : Bool) (s : Room) : Moves R s (a.caught silent s).1 := by
  unfold caught
  split
  · exact a.moves_finish s true
  · split
    · exact a.moves_finish s false
    · exact s.moves_schedule.trans (a.moves_finish _ false)

/-- The answer of the plain client has been checked against the server that is looked for. When they
agree the stored cookie is read next; otherwise `attach` ends without having used it. -/
theorem moves_checked (a : Attach) (silent : Bool) (s : Room) (next : ℕ) (plainInfo : Info) :
    Moves R s (a.checked silent s next plainInfo).1 := by
  unfold checked
  split
  · exact a.moves_caught silent s
  · exact .refl

/-- The server has said whether it needs a PIN. Either the PIN is asked for, or the old socket is
given up before the next one is opened. -/
theorem moves_informed (a : Attach) (s : Room) (next : ℕ) (info : Info) :
    Moves R s (a.informed s next info).1 := by
  unfold informed
  split
  · exact a.moves_finish s true
  · split
    · exact (s.moves_askPin next).trans (a.moves_finish _ true)
    · exact s.moves_cancelSocket

/-- **A section of `attach`.** A cookie is read under the id of the server it attaches to, and a
socket is made by its `_open`; for these two moves the call has to meet the rules. -/
theorem moves {a a' : Attach} {silent : Bool} {k : Outcome} {s s' : Room} (hR : a.Abides R s)
    (h : a.step silent k s = some (s', a')) : Moves R s s' := by
  unfold step at h
  split at h
  · -- the old client is closed and a new one made
    split at h <;> cases h
    exact s.moves_renew a.token a.server
  · split at h
    · -- the plain request, whose answer is compared with the server
      exact moves_of_eq (a.moves_checked silent s _ _) h
    · exact moves_of_eq (a.moves_caught silent s) h
    · obtain ⟨x, hstep, heq⟩ := Option.map_eq_some_iff.mp h
      cases heq
      exact Request.moves hstep
  · split at h
    · exact moves_of_eq (a.moves_caught silent s) h
    · cases h
      -- the cookie is read from the storage
      exact .single (.takeCookie s (hR.take _ ‹_›))
    · cases h
  · split at h
    · -- the request with the cookie
      exact moves_of_eq (a.moves_informed s _ _) h
    · exact moves_of_eq (a.moves_caught silent s) h
    · obtain ⟨x, hstep, heq⟩ := Option.map_eq_some_iff.mp h
      cases heq
      exact Request.moves hstep
  · exact moves_of_eq (a.moves_finish s true) h
  · exact moves_of_eq (a.moves_caught silent s) h
  · -- inside `_open`
    rename_i pc _ _ hpc
    obtain ⟨x, hstep, heq⟩ := Option.map_eq_some_iff.mp h
    cases heq
    refine openStep_moves (fun c openedFor hconnect => hR.establish c openedFor ?_) hstep
    rw [hpc, hconnect]
  · cases h

end Attach

namespace Search

/-- The `finally` of `search` clears `busy`. It does so for its own generation only. -/
theorem moves_finish (x : Search) (s : Room) : Moves R s (x.finish s).1 :=
  SameSeen.moves ⟨rfl, rfl, rfl, rfl, rfl, rfl, rfl, rfl, rfl, rfl⟩

/-- The `catch` of `search` arms the timer. It is followed by the `finally`. -/
theorem moves_caught (x : Search) (s : Room) : Moves R s (x.caught s).1 :=
  s.moves_schedule.trans (x.moves_finish _)

/-- The servers found are listed; if there is one to attach to, `attach` begins in the same section.
-/
theorem moves_verified (x : Search) (s : Room) (servers : List FoundServer) :
    Moves R s (x.verified s servers).1 := by
  have hlisted : Moves R s { s with servers := byID servers, busy := false } :=
    SameSeen.moves ⟨rfl, rfl, rfl, rfl, rfl, rfl, rfl, rfl, rfl, rfl⟩
  unfold verified
  split
  · exact x.moves_finish s
  · simp only
    split
    · exact hlisted.trans (Room.moves_attach _ _)
    · refine hlisted.trans (SameSeen.moves ?_)
      exact ⟨rfl, rfl, rfl, rfl, rfl, rfl, rfl, rfl, rfl, rfl⟩

/-- The next server is asked for its identity, by a client of its own. The client of the one before
has been closed. -/
theorem moves_next (x : Search) (s : Room) (verified rest : List FoundServer) :
    Moves R s (x.next s verified rest).1 := by
  cases rest with
  | nil => exact x.moves_verified s verified
  | cons server rest => exact s.moves_newClient rfl

/-- **A section of `search`.** The call of `attach` inside it has to meet the rules. -/
theorem moves {x x' : Search} {k : Outcome} {s s' : Room}
    (hR : ∀ a, x.attach? = some a → a.Abides R s) (h : x.step k s = some (s', x')) :
    Moves R s s' := by
  unfold step at h
  split at h
  · -- the current client is closed
    split at h <;> cases h
    exact s.moves_release x.token
  · split at h <;> cases h
    · exact x.moves_caught s
    · exact x.moves_caught s
    · exact .refl
  · split at h <;> cases h
    · exact x.moves_caught s
    · exact .refl
  · split at h
    · exact moves_of_eq (x.moves_caught s) h
    · split at h
      · exact moves_of_eq (x.moves_next s _ _) h
      · cases h
    · cases h
  · split at h
    · -- a server has answered, or its request goes on
      exact moves_of_eq ((s.moves_closeClient _).trans (x.moves_next _ _ _)) h
    · obtain ⟨y, hstep, heq⟩ := Option.map_eq_some_iff.mp h
      cases heq
      exact Request.moves hstep
  · -- inside `attach`
    rename_i hpc
    split at h
    · cases h
      exact x.moves_finish s
    · obtain ⟨y, hstep, heq⟩ := Option.map_eq_some_iff.mp h
      cases heq
      refine Attach.moves (hR _ ?_) hstep
      simp only [attach?, hpc]
  · cases h

end Search

/-- **A section of `_recover`.** It is one of `attach` or of `search`, or the step from the first to
the second. -/
theorem RecoverPC.moves {k : Outcome} {s s' : Room} {pc pc' : RecoverPC}
    (hR : ∀ a, pc.attach? = some a → a.Abides R s) (h : pc.step k s = some (s', pc')) :
    Moves R s s' := by
  unfold RecoverPC.step at h
  split at h
  · split at h
    · cases h
      exact .refl
    · exact moves_of_eq (s.moves_fallBack _) h
    · obtain ⟨x, hstep, heq⟩ := Option.map_eq_some_iff.mp h
      cases heq
      exact Attach.moves (hR _ rfl) hstep
  · split at h
    · cases h
      exact .refl
    · obtain ⟨x, hstep, heq⟩ := Option.map_eq_some_iff.mp h
      cases heq
      exact Search.moves hR hstep
  · cases h

/-- **A section of `reconnect`.** It closes the client it has probed with, and recovers if the probe
has failed. -/
theorem ReconnectPC.moves {k : Outcome} {s s' : Room} {pc pc' : ReconnectPC}
    (hR : ∀ a, (Thread.reconnect pc).attach? = some a → a.Abides R s)
    (h : pc.step k s = some (s', pc')) : Moves R s s' := by
  unfold ReconnectPC.step at h
  split at h
  · split at h
    · cases h
      exact s.moves_closeClient _
    · simp only at h
      split at h
      · -- the room has become busy while the address was asked
        cases h
        exact s.moves_closeClient _
      · cases h
        exact (s.moves_closeClient _).trans (Room.moves_restart _)
    · obtain ⟨x, hstep, heq⟩ := Option.map_eq_some_iff.mp h
      cases heq
      exact Request.moves hstep
  · cases h
    exact .refl
  · obtain ⟨x, hstep, heq⟩ := Option.map_eq_some_iff.mp h
    cases heq
    exact RecoverPC.moves hR hstep
  · cases h

namespace Login

/-- A call of `login` meets the rules. -/
structure Abides (R : Rules) (s : Room) (l : Login) : Prop where
  establish : ∀ token c openedFor, l.pc = .opening token (.connect c openedFor) →
    R.establish s ⟨c, token, openedFor, s.selectedID, true, false, false⟩
  store : ∀ server c, s.disposed = false → l.token = s.generation → s.selected = some server →
    s.client = some c → R.store s l.active c server.id

/-- The `finally` of `login` notes how it ended and clears `busy`. The note has its token, the
generation and `busy`, which conditions on runs can speak of. -/
theorem moves_finish (l : Login) (s : Room) : Moves R s (l.finish s).1 := by
  refine (s.moves_note (e := .loginEnded l.token s.generation s.busy) rfl).trans ?_
  exact SameSeen.moves ⟨rfl, rfl, rfl, rfl, rfl, rfl, rfl, rfl, rfl, rfl⟩

/-- The `catch` of `login` only notes what it saw: it sets no flag and arms no timer. Rules for runs
that are never stuck have to speak of this end. -/
theorem moves_caught (l : Login) (token : ℕ) (s : Room) : Moves R s (l.caught token s).1 :=
  (s.moves_note (e := .loginFailed token s.generation s.connected s.needsPin s.retry) rfl).trans
    (l.moves_finish _)

/-- The PIN has been accepted. The cookie of the client is stored under the id of the selected
server, for which the call has to meet the rule. -/
theorem moves_accepted {l : Login} {s : Room} (hR : l.Abides R s) : Moves R s (l.accepted s).1 := by
  unfold accepted
  split
  · exact l.moves_finish s
  · rename_i hcurrent
    obtain ⟨hdisposed, htoken⟩ := not_or.mp hcurrent
    split
    · rename_i server c hselected hclient
      refine .single (.storeCookie s (hR.store server c ?_ (not_not.mp htoken) hselected hclient))
      exact Bool.not_eq_true _ |>.mp hdisposed
    · exact l.moves_caught _ s

/-- The cookie has been stored: no PIN is needed any more, and the socket is opened. The storing
itself was the section before. -/
theorem moves_stored (l : Login) (s : Room) : Moves R s (l.stored s).1 := by
  refine (s.moves_note (e := .loginWrote l.token s.generation s.connected) rfl).trans ?_
  refine (SameSeen.moves ?_).trans (Room.moves_cancelSocket _)
  exact ⟨rfl, rfl, rfl, rfl, rfl, rfl, rfl, rfl, rfl, rfl⟩

/-- **A section of `login`.** Its cookie is stored and its socket made by the rules. -/
theorem moves {l l' : Login} {k : Outcome} {s s' : Room} (hR : l.Abides R s)
    (h : l.step k s = some (s', l')) : Moves R s s' := by
  unfold step at h
  split at h
  · split at h
    · exact moves_of_eq (moves_accepted hR) h
    · exact moves_of_eq (l.moves_caught _ s) h
    · obtain ⟨x, hstep, heq⟩ := Option.map_eq_some_iff.mp h
      cases heq
      exact Request.moves hstep
  · split at h <;> cases h
    · exact l.moves_caught _ s
    · exact l.moves_stored s
  · cases h
    exact l.moves_finish s
  · cases h
    exact l.moves_caught _ s
  · -- inside `_open`, under the generation it was called with
    rename_i token pc _ _ hpc
    obtain ⟨x, hstep, heq⟩ := Option.map_eq_some_iff.mp h
    cases heq
    refine openStep_moves (fun c openedFor hconnect => hR.establish token c openedFor ?_) hstep
    rw [hpc, hconnect]
  · cases h

end Login

/-- The address has said who it is; `manual` attaches to it, or gives up. The id is taken from the
answer, also when it begins with `manual:`. -/
theorem moves_manualAnswered (s : Room) (base : Uri) (info : Info) :
    Moves R s (s.manualAnswered base info).1 := by
  unfold Room.manualAnswered
  split
  · exact .refl
  · split
    · exact .refl
    · exact s.moves_attach _

/-- **A section of `manual`.** The client it has asked with is closed before `attach` begins. -/
theorem ManualPC.moves {k : Outcome} {s s' : Room} {pc pc' : ManualPC}
    (hR : ∀ a, (Thread.manual pc).attach? = some a → a.Abides R s)
    (h : pc.step k s = some (s', pc')) : Moves R s s' := by
  unfold ManualPC.step at h
  split at h
  · split at h
    · exact moves_of_eq ((s.moves_closeClient _).trans (moves_manualAnswered _ _ _)) h
    · cases h
      exact s.moves_closeClient _
    · obtain ⟨x, hstep, heq⟩ := Option.map_eq_some_iff.mp h
      cases heq
      exact Request.moves hstep
  · split at h
    · cases h
      exact .refl
    · obtain ⟨x, hstep, heq⟩ := Option.map_eq_some_iff.mp h
      cases heq
      exact Attach.moves (hR _ rfl) hstep
  · cases h

/-- **A section of `rename`.** After the name has been stored it is one of `attach`. -/
theorem RenamePC.moves {k : Outcome} {s s' : Room} {pc pc' : RenamePC}
    (hR : ∀ a, (Thread.rename pc).attach? = some a → a.Abides R s)
    (h : pc.step k s = some (s', pc')) : Moves R s s' := by
  unfold RenamePC.step at h
  split at h
  · split at h <;> cases h
    · exact .refl
    · exact .refl
    · exact s.moves_attach _
  · split at h
    · cases h
      exact .refl
    · obtain ⟨x, hstep, heq⟩ := Option.map_eq_some_iff.mp h
      cases heq
      exact Attach.moves (hR _ rfl) hstep
  · cases h

/-- **A section of `initialize`.** After the stored settings have been read it is one of `search`.
-/
theorem InitializePC.moves {k : Outcome} {s s' : Room} {pc pc' : InitializePC}
    (hR : ∀ a, (Thread.initializing pc).attach? = some a → a.Abides R s)
    (h : pc.step k s = some (s', pc')) : Moves R s s' := by
  unfold InitializePC.step at h
  split at h
  · split at h <;> cases h
    · exact .refl
    · exact .refl
  · split at h <;> cases h
    · exact .refl
    · exact SameSeen.moves ⟨rfl, rfl, rfl, rfl, rfl, rfl, rfl, rfl, rfl, rfl⟩
  · split at h <;> cases h
    · exact .refl
    · -- the search that ends `initialize`
      refine (SameSeen.moves ?_).trans (Room.moves_search _ false)
      exact ⟨rfl, rfl, rfl, rfl, rfl, rfl, rfl, rfl, rfl, rfl⟩
  · split at h
    · cases h
      exact .refl
    · obtain ⟨x, hstep, heq⟩ := Option.map_eq_some_iff.mp h
      cases heq
      exact Search.moves hR hstep
  · cases h
  · cases h

/-- The first section of a call. It is the part of the call that runs before its first `await`. -/
theorem Call.moves {s s' : Room} {c : Call} {th : Thread} (h : c.start s = some (s', th)) :
    Moves R s s' := by
  cases c with
  | search another =>
      cases h
      exact s.moves_search another
  | manual base =>
      cases h
      unfold Room.manual
      split
      · exact s.moves_newClient rfl
      · exact .refl
  | attach server =>
      cases h
      exact s.moves_attach server
  | login =>
      cases h
      exact s.moves_login
  | rename value =>
      cases h
      unfold Room.rename
      split
      · exact .refl
      · exact SameSeen.moves ⟨rfl, rfl, rfl, rfl, rfl, rfl, rfl, rfl, rfl, rfl⟩
  -- the flag is set first, then `reconnect` may start
  | foreground active =>
      have hflags : Moves R s { s with foreground := active } :=
        SameSeen.moves ⟨rfl, rfl, rfl, rfl, rfl, rfl, rfl, rfl, rfl, rfl⟩
      cases h
      unfold Room.setForeground
      simp only
      split
      · exact hflags.trans (Room.moves_reconnect _ false)
      · exact hflags
  | text value =>
      cases h
      exact .single (.text s value)
  | choose recipients =>
      cases h
      exact .single (.choose s recipients)
  -- the timer has fired; what follows may be `_recover`
  | retry =>
      have hflags : Moves R s { s with retry := false } :=
        SameSeen.moves ⟨rfl, rfl, rfl, rfl, rfl, rfl, rfl, rfl, rfl, rfl⟩
      simp only [Call.start] at h
      split at h <;> cases h
      exact hflags.trans (Room.moves_fireRetry _)
  | network =>
      simp only [Call.start] at h
      split at h <;> cases h
      exact SameSeen.moves ⟨rfl, rfl, rfl, rfl, rfl, rfl, rfl, rfl, rfl, rfl⟩
  | debounce =>
      have hflags : Moves R s { s with debounce := false } :=
        SameSeen.moves ⟨rfl, rfl, rfl, rfl, rfl, rfl, rfl, rfl, rfl, rfl⟩
      simp only [Call.start] at h
      split at h <;> cases h
      unfold Room.fireDebounce
      split
      · exact hflags.trans (Room.moves_reconnect _ true)
      · exact hflags
  | frame ws f =>
      simp only [Call.start] at h
      split at h
      · cases h
      · split at h
        · cases h
        · split at h <;> cases h
          · exact .refl
          · -- the frame of a current socket changes the chat
            exact .single (.frame s f ‹_› (not_not.mp ‹_›))
  | lost ws =>
      simp only [Call.start] at h
      split at h
      · cases h
      · split at h <;> cases h
        refine .head ?_ (Room.moves_lost _ _)
        -- the socket is no longer open, and the rest is the handling of its end
        exact .modifySocket s ws fun x => ⟨rfl, rfl, rfl, rfl⟩
  | drop ws =>
      cases h
      exact s.moves_closeWS _
  | transfer =>
      simp only [Call.start] at h
      split at h <;> cases h
      · exact .refl
      · exact .refl
  | dispose =>
      cases h
      exact .head (.dispose s) ((Room.moves_cancelSocket _).trans (Room.moves_closeCurrent _))

/-- A section of a file transfer is one of its request, or hands a failure on. It changes nothing
that a move looks at but what its client has been answered. -/
theorem moves_transferStep {k : Outcome} {s s' : Room} {r : Request} {th : Thread}
    (h : transferStep k s r = some (s', th)) : Moves R s s' := by
  unfold transferStep at h
  split at h
  · cases h
    exact .refl
  · cases h
    exact SameSeen.moves ⟨rfl, rfl, rfl, rfl, rfl, rfl, rfl, rfl, rfl, rfl⟩
  · obtain ⟨x, hstep, heq⟩ := Option.map_eq_some_iff.mp h
    cases heq
    exact Request.moves hstep

/-- A thread meets the rules. -/
structure Thread.Abides (R : Rules) (s : Room) (th : Thread) : Prop where
  attach : ∀ a, th.attach? = some a → a.Abides R s
  login : ∀ l, th.login? = some l → l.Abides R s

/-- **Every section is a sequence of moves.** What the moves preserve therefore holds in every run.
The moves are where the rules are asked for; everything else about sections is a change that no move
looks at. -/
theorem Thread.moves {k : Outcome} {s s' : Room} {th th' : Thread} (hR : th.Abides R s)
    (h : th.step k s = some (s', th')) : Moves R s s' := by
  cases th with
  | call c => exact Call.moves h
  | transfer r => exact moves_transferStep h
  | ended => cases h
  | initializing pc =>
      obtain ⟨x, hstep, heq⟩ := Option.map_eq_some_iff.mp h
      cases heq
      exact InitializePC.moves hR.attach hstep
  | search x =>
      obtain ⟨x, hstep, heq⟩ := Option.map_eq_some_iff.mp h
      cases heq
      exact Search.moves hR.attach hstep
  | manual pc =>
      obtain ⟨x, hstep, heq⟩ := Option.map_eq_some_iff.mp h
      cases heq
      exact ManualPC.moves hR.attach hstep
  | attach a =>
      obtain ⟨x, hstep, heq⟩ := Option.map_eq_some_iff.mp h
      cases heq
      exact Attach.moves (hR.attach a rfl) hstep
  | login l =>
      obtain ⟨x, hstep, heq⟩ := Option.map_eq_some_iff.mp h
      cases heq
      exact Login.moves (hR.login l rfl) hstep
  | rename pc =>
      obtain ⟨x, hstep, heq⟩ := Option.map_eq_some_iff.mp h
      cases heq
      exact RenamePC.moves hR.attach hstep
  | recover pc =>
      obtain ⟨x, hstep, heq⟩ := Option.map_eq_some_iff.mp h
      cases heq
      exact RecoverPC.moves hR.attach hstep
  | reconnect pc =>
      obtain ⟨x, hstep, heq⟩ := Option.map_eq_some_iff.mp h
      cases heq
      exact ReconnectPC.moves hR.attach hstep

/-- With no rules, every thread abides by them. It is used where only the order of states
matters. -/
theorem Thread.abides_none (s : Room) (th : Thread) : th.Abides .none s where
  attach := fun _ _ => ⟨fun _ _ _ => trivial, fun _ _ => trivial⟩
  login := fun _ _ => ⟨fun _ _ _ _ => trivial, fun _ _ _ _ _ _ => trivial⟩

/-! ## What moves preserve -/

/-- `s'` is a later state than `s`. -/
structure Later (s s' : Room) : Prop where
  generation : s.generation ≤ s'.generation
  /-- The selected server changes only with the generation. -/
  selected : s'.generation = s.generation → s'.selected = s.selected
  disposed : s.disposed = true → s'.disposed = true
  clients : ∀ (c : ℕ) (x : LanClient), s.clients[c]? = some x → ∃ x' : LanClient,
    s'.clients[c]? = some x' ∧ x'.base = x.base ∧ x'.owner = x.owner ∧ x.answered ⊆ x'.answered
  sockets : ∀ (ws : ℕ) (x : Socket), s.sockets[ws]? = some x → ∃ x' : Socket,
    s'.sockets[ws]? = some x' ∧ x'.client = x.client ∧ x'.token = x.token ∧
      x'.openedFor = x.openedFor ∧ x'.establishedFor = x.establishedFor
  log : s.log <:+ s'.log

namespace Later

/-- Nothing has happened yet. It is the start of the induction on a run. -/
theorem refl (s : Room) : Later s s where
  generation := le_refl _
  selected := fun _ => rfl
  disposed := id
  clients := fun _ x h => ⟨x, h, rfl, rfl, List.Subset.refl _⟩
  sockets := fun _ x h => ⟨x, h, rfl, rfl, rfl, rfl⟩
  log := List.suffix_refl _

/-- Two stretches of time are one. With it the step lemma becomes one about runs. -/
theorem trans {s t u : Room} (h : Later s t) (h' : Later t u) : Later s u where
  generation := h.generation.trans h'.generation
  selected := by
    intro heq
    have hfirst := h.generation
    have hsecond := h'.generation
    rw [h'.selected (by omega), h.selected (by omega)]
  disposed := fun hs => h'.disposed (h.disposed hs)
  clients := by
    intro c x hx
    obtain ⟨y, hy, hbase, howner, hanswered⟩ := h.clients c x hx
    obtain ⟨z, hz, hbase', howner', hanswered'⟩ := h'.clients c y hy
    exact ⟨z, hz, hbase'.trans hbase, howner'.trans howner,
      List.Subset.trans hanswered hanswered'⟩
  sockets := by
    intro ws x hx
    obtain ⟨y, hy, hclient, htoken, hopened, hestablished⟩ := h.sockets ws x hx
    obtain ⟨z, hz, hclient', htoken', hopened', hestablished'⟩ := h'.sockets ws y hy
    exact ⟨z, hz, hclient'.trans hclient, htoken'.trans htoken, hopened'.trans hopened,
      hestablished'.trans hestablished⟩
  log := h.log.trans h'.log

/-- Only the generation, the selected server, the log and one of the lists matter. The lists of
clients and sockets are extended or have one entry changed. -/
theorem of_move {s s' : Room} (h : Move R s s') : Later s s' := by
  -- most moves touch no client or no socket
  have hclients : s'.clients = s.clients → ∀ (c : ℕ) (x : LanClient), s.clients[c]? = some x → ∃ x' : LanClient,
      s'.clients[c]? = some x' ∧ x'.base = x.base ∧ x'.owner = x.owner ∧
        x.answered ⊆ x'.answered := by
    intro heq c x hx
    exact ⟨x, by rw [heq]; exact hx, rfl, rfl, List.Subset.refl _⟩
  have hsockets : s'.sockets = s.sockets → ∀ (ws : ℕ) (x : Socket), s.sockets[ws]? = some x → ∃ x' : Socket,
      s'.sockets[ws]? = some x' ∧ x'.client = x.client ∧ x'.token = x.token ∧
        x'.openedFor = x.openedFor ∧ x'.establishedFor = x.establishedFor := by
    intro heq ws x hx
    exact ⟨x, by rw [heq]; exact hx, rfl, rfl, rfl, rfl⟩
  have hmodified : ∀ (c : ℕ) (f : LanClient → LanClient), (∀ x, (f x).base = x.base) →
      (∀ x, (f x).owner = x.owner) → (∀ x, x.answered ⊆ (f x).answered) →
      s' = s.modifyClient c f → Later s s' := by
    rintro c f hbase howner hanswered rfl
    refine ⟨le_refl _, fun _ => rfl, id, fun c' x hx => ?_, hsockets rfl, List.suffix_refl _⟩
    by_cases hc : c = c'
    · subst hc
      refine ⟨_, ?_, hbase x, howner x, hanswered x⟩
      simp [Room.modifyClient, hx]
    · refine ⟨x, ?_, rfl, rfl, List.Subset.refl _⟩
      simp [Room.modifyClient, hc, hx]
  cases h with
  | flags h =>
      exact ⟨h.generation.ge, fun _ => h.selected, fun hs => h.disposed.trans hs,
        hclients h.clients, hsockets h.sockets, h.log ▸ List.suffix_refl _⟩
  | note h => exact ⟨le_refl _, fun _ => rfl, id, hclients rfl, hsockets rfl, List.suffix_cons _ _⟩
  | newClient h =>
      refine ⟨le_refl _, fun _ => rfl, id, fun c y hy => ?_, hsockets rfl, List.suffix_refl _⟩
      exact ⟨y, ThreadPool.getElem?_append hy _, rfl, rfl, List.Subset.refl _⟩
  | modifyClient c hbase howner hanswered => exact hmodified c _ hbase howner hanswered rfl
  | @takeCookie c id h =>
      refine hmodified c (fun x => { x with cookie := s.storage (cookieKey id), cookieOf := some id })
        (fun _ => rfl) (fun _ => rfl) (fun _ => List.Subset.refl _) rfl
  | sendCookie c =>
      exact ⟨le_refl _, fun _ => rfl, id, hclients rfl, hsockets rfl, List.suffix_append _ _⟩
  | storeCookie h =>
      exact ⟨le_refl _, fun _ => rfl, id, hclients rfl, hsockets rfl, List.suffix_cons _ _⟩
  | newSocket h =>
      refine ⟨le_refl _, fun _ => rfl, id, hclients rfl, fun ws y hy => ?_, List.suffix_refl _⟩
      exact ⟨y, ThreadPool.getElem?_append hy _, rfl, rfl, rfl, rfl⟩
  | modifySocket ws hf =>
      refine ⟨le_refl _, fun _ => rfl, id, hclients rfl, fun ws' x hx => ?_, List.suffix_refl _⟩
      by_cases hws : ws = ws'
      · subst hws
        refine ⟨_, ?_, hf x⟩
        simp [Room.modifySocket, hx]
      · refine ⟨x, ?_, rfl, rfl, rfl, rfl⟩
        simp [Room.modifySocket, hws, hx]
  | frame f hx htoken =>
      exact ⟨le_refl _, fun _ => rfl, id, hclients rfl, hsockets rfl, List.suffix_refl _⟩
  -- a new generation, so nothing is promised about the selected server
  | attach server =>
      refine ⟨Nat.le_succ _, fun heq => ?_, id, hclients rfl, hsockets rfl, List.suffix_cons _ _⟩
      exact absurd heq (Nat.succ_ne_self _)
  | search another =>
      refine ⟨Nat.le_succ _, fun heq => ?_, id, hclients rfl, hsockets rfl, List.suffix_refl _⟩
      exact absurd heq (Nat.succ_ne_self _)
  | choose recipients =>
      exact ⟨le_refl _, fun _ => rfl, id, hclients rfl, hsockets rfl, List.suffix_cons _ _⟩
  | text value =>
      unfold Room.text
      split
      · exact Later.refl s
      · exact ⟨le_refl _, fun _ => rfl, id, fun c x hx => ⟨x, hx, rfl, rfl, List.Subset.refl _⟩,
          fun ws x hx => ⟨x, hx, rfl, rfl, rfl, rfl⟩, List.suffix_cons _ _⟩
  | dispose =>
      refine ⟨Nat.le_succ _, fun heq => ?_, fun _ => rfl, hclients rfl, hsockets rfl,
        List.suffix_refl _⟩
      exact absurd heq (Nat.succ_ne_self _)

/-- **What holds of every run holds of every move**: the generation does not fall, the selected
server changes only with it, clients and sockets keep what they were made with, and the log only
grows. -/
theorem of_moves {s s' : Room} (h : Moves R s s') : Later s s' := by
  induction h with
  | refl => exact refl s
  | tail _ hmove ih => exact ih.trans (of_move hmove)

end Later

/-- A section leads to a later state. The generation and the records of clients and sockets only
grow. -/
theorem Thread.later {k : Outcome} {s s' : Room} {th th' : Thread}
    (h : th.step k s = some (s', th')) : Later s s' :=
  .of_moves (Thread.moves (th.abides_none s) h)

/-- A section of a thread of the app. It starts no further threads. -/
theorem app_step {t : ThreadPool.Tid} {k : Outcome} {s s' : Room} {th th' : Thread}
    {fs : List Thread} : app.step t k s th = some (s', th', fs) ↔
      th.step k s = some (s', th') ∧ fs = [] := by
  constructor
  · intro h
    obtain ⟨x, hstep, heq⟩ := Option.map_eq_some_iff.mp h
    cases heq
    exact ⟨hstep, rfl⟩
  · rintro ⟨hstep, rfl⟩
    exact Option.map_eq_some_iff.mpr ⟨_, hstep, rfl⟩

/-- A rule about everything that has been noted is lasting. Notes are never taken back, so what
breaks the rule stays in the log. -/
theorem lasting (P : Event → Prop) : app.Lasting fun s => ∀ e ∈ s.log, P e :=
  .of_log P (fun h => (Thread.later (app_step.mp h).1).log) (List.suffix_refl _)

end LanRoom.Mobile

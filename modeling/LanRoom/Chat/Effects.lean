import LanRoom.Chat.Steps

/-! # What a section of the hub can do

`Effect` lists the outcomes of one section of a goroutine of the hub. `deliver` and
`broadcastPresence` run on behalf of several callers, so their sections are listed once, with the
caller as a parameter. -/

namespace LanRoom.Chat

open LanRoom.Upload (Time)
open ThreadPool (Tid Machine Act)
open Function (update)

variable {u : UUIDPackage} {t : Tid} {k : Choice} {h h' : Hub} {c c' : Conn} {cl : Client}
  {f : Frame} {ok : Bool}

/-! ## Queues and membership -/

/-- The client with one more frame in its queue. -/
def Client.push (cl : Client) (f : Frame) : Client := { cl with send := cl.send ++ [f] }

/-- A frame that is enqueued has been placed, behind those before it. -/
@[simp] theorem Client.push_placed (cl : Client) (f : Frame) :
    (cl.push f).placed = cl.placed ++ [f] := by
  simp [push, placed]

/-- A client that is replaced is found under its connection. With its companion below it is all that
later proofs know of an update. -/
@[simp] theorem Hub.setClient_self : (h.setClient c cl).conns c = some cl := Function.update_self ..

/-- The other clients stay. Every section that touches one client is a frame for all the others by
this. -/
theorem Hub.setClient_of_ne (hne : c' ≠ c) : (h.setClient c cl).conns c' = h.conns c' :=
  Function.update_of_ne hne ..

/-- A client joins with an empty queue. Nothing has been placed for it, and its channel is open. -/
@[simp] theorem Hub.join_self (device : Device) : (h.join c device).conns c = some { device } :=
  Function.update_self ..

/-- The others do not notice that a client joins. Their queues and channels are those from
before. -/
theorem Hub.join_of_ne (device : Device) (hne : c' ≠ c) :
    (h.join c device).conns c' = h.conns c' :=
  Function.update_of_ne hne ..

/-- A send succeeds on an open channel with room. The frame is then the last one of the queue, and
nothing else in the hub is changed. -/
theorem Hub.trySend_true (hsend : h.trySend c f = (h', true)) :
    ∃ cl, h.conns c = some cl ∧ cl.closed = false ∧ cl.send.length < sendBuffer ∧
      h' = h.setClient c (cl.push f) := by
  unfold Hub.trySend at hsend
  split at hsend
  · cases hsend
  · split at hsend
    · cases hsend
    · split at hsend <;> cases hsend
      exact ⟨_, ‹_›, Bool.not_eq_true _ |>.mp ‹_›, ‹_›, rfl⟩

/-- A send that fails on an open channel found it full. A full queue leaves the hub as it is; the
other case is the send on a closed channel, which panics. -/
theorem Hub.trySend_false (hsend : h.trySend c f = (h', false)) :
    (h' = h ∧ ∀ cl, h.conns c = some cl → cl.closed = false ∧ sendBuffer ≤ cl.send.length) ∨
      (h' = { h with panicked := true } ∧ ∃ cl, h.conns c = some cl ∧ cl.closed = true) := by
  unfold Hub.trySend at hsend
  split at hsend
  · rename_i hnone
    cases hsend
    exact .inl ⟨rfl, fun cl hc => by simp [hnone] at hc⟩
  · rename_i cl hc
    split at hsend
    · cases hsend
      exact .inr ⟨rfl, cl, hc, ‹_›⟩
    · rename_i hopen
      split at hsend <;> cases hsend
      refine .inl ⟨rfl, fun cl' hc' => ?_⟩
      obtain rfl := Option.some.inj (hc.symm.trans hc')
      exact ⟨Bool.not_eq_true _ |>.mp hopen, not_lt.mp ‹_›⟩

/-- A send changes nothing but queues, unless the server panics. The clients registered, the
history, the counters and the clock are those from before. -/
theorem Hub.trySend_frame (hsend : h.trySend c f = (h', ok)) :
    ∃ conns panicked, h' = { h with conns := conns, panicked := panicked } := by
  cases ok with
  | true =>
      obtain ⟨cl, -, -, -, rfl⟩ := Hub.trySend_true hsend
      exact ⟨_, _, rfl⟩
  | false => rcases Hub.trySend_false hsend with ⟨rfl, -⟩ | ⟨rfl, -⟩ <;> exact ⟨_, _, rfl⟩

/-- Enqueueing changes the clients at most, and records a send on a closed channel. -/
theorem Hub.enqueueJSON_frame (h : Hub) (c : Conn) (f : Frame) :
    ∃ conns panicked, h.enqueueJSON c f = { h with conns := conns, panicked := panicked } := by
  unfold enqueueJSON
  split
  · exact trySend_frame (Prod.eta _).symm
  · exact ⟨_, _, rfl⟩

/-- **A send that succeeds**: the channel is open and has room, so the frame is put at its end. It
is the direction used when a section is to be computed; `trySend_true` is its converse. -/
theorem Hub.trySend_eq (cl : Client) (f : Frame) (hc : h.conns c = some cl) (hopen : cl.closed = false)
    (hroom : cl.send.length < sendBuffer) :
    h.trySend c f = (h.setClient c (cl.push f), true) := by
  simp [trySend, hc, hopen, hroom, Client.push]

/-- The hub without the registered client `cl` of `c`, whose channel is closed. -/
def Hub.remove (h : Hub) (c : Conn) (cl : Client) : Hub :=
  { h with
    clients := h.clients.erase c
    conns := update h.conns c (some { cl with closed := true })
    panicked := h.panicked || cl.closed }

/-- A client that is removed has its channel closed. Its queue stays, so what was placed can still
be written to the socket. -/
@[simp] theorem Hub.remove_self : (h.remove c cl).conns c = some { cl with closed := true } :=
  Function.update_self ..

/-- The others stay as they are when a client is removed. Removing one client closes one channel
only. -/
theorem Hub.remove_of_ne (hne : c' ≠ c) : (h.remove c cl).conns c' = h.conns c' :=
  Function.update_of_ne hne ..

/-- The client was registered: it is removed and its channel closed. -/
theorem Hub.unregister_true (hleave : h.unregister c = (h', true)) :
    c ∈ h.clients ∧ ∀ cl, h.conns c = some cl → h' = h.remove c cl := by
  unfold Hub.unregister at hleave
  split at hleave <;> cases hleave
  refine ⟨‹_›, fun cl hc => ?_⟩
  rw [hc]
  rfl

/-- The client was not registered: nothing happens. A second `Unregister` of the same client is such
a call. -/
theorem Hub.unregister_false (hleave : h.unregister c = (h', false)) :
    c ∉ h.clients ∧ h' = h := by
  unfold Hub.unregister at hleave
  split at hleave <;> cases hleave
  exact ⟨‹_›, rfl⟩

/-- `Unregister` changes nothing but the clients and their channels. -/
theorem Hub.unregister_frame (hleave : h.unregister c = (h', ok)) :
    ∃ clients conns panicked,
      h' = { h with clients := clients, conns := conns, panicked := panicked } := by
  unfold Hub.unregister at hleave
  split at hleave <;> cases hleave <;> exact ⟨_, _, _, rfl⟩

/-! ## Callers -/

/-- Who called `broadcastPresence`: `Register`, or `Unregister` on behalf of `ReadPump` or
`deliverSlow`. -/
inductive PresenceCaller
  | join
  | leave (c : Conn)
  | drop (c : Conn) (f : Frame)

namespace PresenceCaller

/-- The caller, while `broadcastPresence` is at `pc`. -/
def thread : PresenceCaller → PresencePC → Thread
  | join, pc => .register (.presence pc)
  | leave c, pc => .readPump c (.presence pc)
  | drop c f, pc => .slow c f (.presence pc)

/-- The caller, once `broadcastPresence` has returned. -/
def back : PresenceCaller → Thread
  | join => .register .registered
  | leave c => .readPump c .closed
  | drop c f => .slow c f .ended

/-- The goroutines the caller `t` starts then. -/
def forks (t : Tid) : PresenceCaller → List Thread
  | join => [.writePump t false, .readPump t .read]
  | _ => []

end PresenceCaller

/-- Who called `deliver`: `SendMessage` on behalf of a `ReadPump`, or `broadcastPresence`. -/
inductive Caller
  | send (c : Conn)
  | presence (p : PresenceCaller)

namespace Caller

/-- The caller, while `deliver` is at `pc`. -/
def thread : Caller → DeliverPC → Thread
  | send c, pc => .readPump c (.deliver pc)
  | presence p, pc => p.thread (.deliver pc)

/-- The caller, once `deliver` has returned. -/
def back : Caller → Thread
  | send c => .readPump c .read
  | presence p => p.back

/-- The goroutines the caller `t` starts then. -/
def forks (t : Tid) : Caller → List Thread
  | send _ => []
  | presence p => p.forks t

end Caller

/-! ## Outcomes -/

/-- The entry `SendMessage` makes of an incoming message. -/
def Hub.entry (h : Hub) (cl : Client) (toIDs : List GoString) (m : ChatMessage) : Entry :=
  ⟨h.accepted.length, h.newMessage cl.device toIDs m.payload⟩

/-- The outcomes of a section of thread `t`: the new hub, its new program point, and the goroutines
it starts. -/
inductive Effect (u : UUIDPackage) (t : Tid) (h : Hub) :
    Thread → Hub → Thread → List Thread → Prop
  | locked {p : Caller} {d : Delivery} {clients : List Conn} (hperm : clients.Perm h.clients) :
      Effect u t h (p.thread (.lock d)) h.rLock (p.thread (.loop d clients)) []
  | unlocked {p : Caller} {d : Delivery} :
      Effect u t h (p.thread (.loop d [])) h.rUnlock p.back (p.forks t)
  | skipped {p : Caller} {d : Delivery} {c : Conn} {rest : List Conn} {cl : Client}
      (hc : h.conns c = some cl) (hskip : d.passes cl.device = false) :
      Effect u t h (p.thread (.loop d (c :: rest))) h (p.thread (.loop d rest)) []
  | sent {p : Caller} {d : Delivery} {c : Conn} {rest : List Conn} {cl : Client} {h' : Hub}
      (hc : h.conns c = some cl) (hpass : d.passes cl.device = true)
      (hsend : h.trySend c d.frame = (h', true)) :
      Effect u t h (p.thread (.loop d (c :: rest))) h' (p.thread (.loop d rest)) []
  | forked {p : Caller} {d : Delivery} {c : Conn} {rest : List Conn} {cl : Client} {h' : Hub}
      (hc : h.conns c = some cl) (hpass : d.passes cl.device = true)
      (hsend : h.trySend c d.frame = (h', false)) :
      Effect u t h (p.thread (.loop d (c :: rest))) h' (p.thread (.loop d rest))
        [.slow c d.frame .start]
  | devices {p : PresenceCaller} {clients : List Conn} (hperm : clients.Perm h.clients) :
      Effect u t h (p.thread .devices) h.announce
        (p.thread (.deliver (.lock (.presence h.announced (h.devices clients))))) []
  | joined {device : Device} (hfree : h.readers = 0) :
      Effect u t h (.register (.start device)) (h.join t device) (.register .welcome) []
  | welcomed {cl : Client} (hc : h.conns t = some cl) :
      Effect u t h (.register .welcome) (h.enqueueJSON t (.welcome cl.device)) (.register .cutoff) []
  | cutoff : Effect u t h (.register .cutoff) h (.register (.snapshot h.cutoff)) []
  | noHistory {cutoff : ℤ} {cl : Client} (hc : h.conns t = some cl)
      (hnil : h.historyFor cutoff cl.device.id = []) :
      Effect u t h (.register (.snapshot cutoff)) h (.register (.presence .devices)) []
  | snapshot {cutoff : ℤ} {cl : Client} (hc : h.conns t = some cl)
      (hne : h.historyFor cutoff cl.device.id ≠ []) :
      Effect u t h (.register (.snapshot cutoff)) h
        (.register (.history (h.historyFor cutoff cl.device.id))) []
  | replayed {msgs : List Entry} :
      Effect u t h (.register (.history msgs)) (h.enqueueJSON t (.history msgs))
        (.register (.presence .devices)) []
  | failed {c : Conn} : Effect u t h (.readPump c .read) h (.readPump c .unregister) []
  | ignored {c : Conn} : Effect u t h (.readPump c .read) h (.readPump c .read) []
  | accepted {c : Conn} {cl : Client} {m : ChatMessage} {toIDs : List GoString}
      (hc : h.conns c = some cl) (hscreen : screen u cl.device m = some toIDs) :
      Effect u t h (.readPump c .read) (h.accept c m)
        (.readPump c (if toIDs = [] then .addToHistory (h.entry cl toIDs m)
          else .recipients (h.entry cl toIDs m))) []
  | recipients {c : Conn} {e : Entry} :
      Effect u t h (.readPump c (.recipients e)) h
        (.readPump c (.addToHistory { e with msg := h.fillRecipients e.msg })) []
  | addedToHistory {c : Conn} {e : Entry} (hfree : h.readers = 0) :
      Effect u t h (.readPump c (.addToHistory e)) (h.addToHistory e)
        (.readPump c (.deliver (.lock (.message e)))) []
  | left {c : Conn} {h' : Hub} (hfree : h.readers = 0) (hleave : h.unregister c = (h', true)) :
      Effect u t h (.readPump c .unregister) h' (.readPump c (.presence .devices)) []
  | hadLeft {c : Conn} {h' : Hub} (hfree : h.readers = 0)
      (hleave : h.unregister c = (h', false)) :
      Effect u t h (.readPump c .unregister) h' (.readPump c .closed) []
  | slowStarted {c : Conn} {f : Frame} :
      Effect u t h (.slow c f .start) h (.slow c f (.loop (h.now + slowClientRetryWindow))) []
  | slowContinued {c : Conn} {f : Frame} {deadline : Time} (htime : h.now < deadline) :
      Effect u t h (.slow c f (.loop deadline)) h (.slow c f (.attempt deadline)) []
  | slowTimedOut {c : Conn} {f : Frame} {deadline : Time} (htime : deadline ≤ h.now) :
      Effect u t h (.slow c f (.loop deadline)) h (.slow c f .check) []
  | slowSent {c : Conn} {f : Frame} {deadline : Time} {h' : Hub} (hmem : c ∈ h.clients)
      (hsend : h.trySend c f = (h', true)) :
      Effect u t h (.slow c f (.attempt deadline)) h' (.slow c f .ended) []
  | slowFull {c : Conn} {f : Frame} {deadline : Time} {h' : Hub} (hmem : c ∈ h.clients)
      (hsend : h.trySend c f = (h', false)) :
      Effect u t h (.slow c f (.attempt deadline)) h'
        (.slow c f (.sleep deadline (h.now + slowClientRetryDelay))) []
  | slowGone {c : Conn} {f : Frame} {deadline : Time} (hmem : c ∉ h.clients) :
      Effect u t h (.slow c f (.attempt deadline)) h (.slow c f .ended) []
  | slowWoke {c : Conn} {f : Frame} {deadline wake : Time} (htime : wake ≤ h.now) :
      Effect u t h (.slow c f (.sleep deadline wake)) h (.slow c f (.loop deadline)) []
  | slowStill {c : Conn} {f : Frame} (hmem : c ∈ h.clients) :
      Effect u t h (.slow c f .check) h (.slow c f .unregister) []
  | slowMissed {c : Conn} {f : Frame} (hmem : c ∉ h.clients) :
      Effect u t h (.slow c f .check) h (.slow c f .ended) []
  | slowKicked {c : Conn} {f : Frame} {h' : Hub} (hfree : h.readers = 0)
      (hleave : h.unregister c = (h', true)) :
      Effect u t h (.slow c f .unregister) h' (.slow c f (.presence .devices)) []
  | slowHadLeft {c : Conn} {f : Frame} {h' : Hub} (hfree : h.readers = 0)
      (hleave : h.unregister c = (h', false)) :
      Effect u t h (.slow c f .unregister) h' (.slow c f .ended) []
  | took {c : Conn} {cl : Client} {f : Frame} {rest : List Frame} (hc : h.conns c = some cl)
      (hsend : cl.send = f :: rest) :
      Effect u t h (.writePump c false)
        (h.setClient c { cl with send := rest, taken := cl.taken ++ [f] }) (.writePump c false) []
  | writeEnded {c : Conn} : Effect u t h (.writePump c false) h (.writePump c true) []

/-! ## Every section has one of them -/

/-- **The sections of a delivery**, whoever has called it: when the last client has been visited the
caller goes on, and may start goroutines. -/
theorem Effect.of_deliverStep {pc : DeliverPC} {next : Option DeliverPC} {fs : List Thread}
    (p : Caller) (hstep : deliverStep k h pc = some (h', next, fs)) :
    Effect u t h (p.thread pc) h' (next.elim p.back p.thread)
      (fs ++ next.elim (p.forks t) fun _ => []) := by
  cases pc with
  | lock d =>
      simp only [deliverStep] at hstep
      split at hstep
      · split at hstep
        · cases hstep
          exact .locked ‹_›
        · cases hstep
      · cases hstep
  | loop d rest =>
      -- nobody is left in the range: the lock is given back
      cases rest with
      | nil =>
          cases hstep
          exact .unlocked
      | cons c rest =>
          simp only [deliverStep] at hstep
          split at hstep
          · cases hstep
          · rename_i cl hc
            split at hstep
            · rename_i hpass
              split at hstep <;> cases hstep
              · -- there is room in the queue, or a goroutine is started for this client
                exact .sent hc hpass ‹_›
              · exact .forked hc hpass ‹_›
            · cases hstep
              exact .skipped hc (Bool.not_eq_true _ |>.mp ‹_›)

/-- **The sections of an announcement**: the list of devices is made first, then it is delivered.
The caller goes on, with the goroutines that it starts, when the delivery has come to its end. -/
theorem Effect.of_presenceStep {pc : PresencePC} {next : Option PresencePC} {fs : List Thread}
    (p : PresenceCaller) (hstep : presenceStep k h pc = some (h', next, fs)) :
    Effect u t h (p.thread pc) h' (next.elim p.back p.thread)
      (fs ++ next.elim (p.forks t) fun _ => []) := by
  cases pc with
  | devices =>
      simp only [presenceStep] at hstep
      split at hstep
      · split at hstep
        · cases hstep
          exact .devices ‹_›
        · cases hstep
      · cases hstep
  | deliver pc =>
      obtain ⟨⟨h₁, next₁, fs₁⟩, hdeliver, heq⟩ := Option.map_eq_some_iff.mp hstep
      cases heq
      have heffect := Effect.of_deliverStep (u := u) (t := t) (.presence p) hdeliver
      cases next₁ <;> exact heffect

/-- **The sections of `Register`.** Its announcement is one of the callers of `of_presenceStep`. The
other sections enqueue the greetings or read what goes into them. -/
theorem Effect.of_registerStep {pc pc' : RegisterPC} {fs : List Thread}
    (hstep : registerStep t k h pc = some (h', pc', fs)) :
    Effect u t h (.register pc) h' (.register pc') fs := by
  cases pc with
  | start device =>
      simp only [registerStep] at hstep
      split at hstep <;> cases hstep
      exact .joined ‹_›
  | welcome =>
      obtain ⟨cl, hc, heq⟩ := Option.map_eq_some_iff.mp hstep
      cases heq
      exact .welcomed hc
  | cutoff =>
      cases hstep
      exact .cutoff
  | snapshot cutoff =>
      obtain ⟨cl, hc, heq⟩ := Option.map_eq_some_iff.mp hstep
      cases heq
      -- an empty history is not sent
      by_cases hnil : h.historyFor cutoff cl.device.id = []
      · rw [if_pos hnil]
        exact .noHistory hc hnil
      · rw [if_neg hnil]
        exact .snapshot hc hnil
  | history msgs =>
      cases hstep
      exact .replayed
  | presence pc =>
      obtain ⟨⟨h₁, next, fs₁⟩, hpresence, heq⟩ := Option.map_eq_some_iff.mp hstep
      have heffect := Effect.of_presenceStep (u := u) (t := t) .join hpresence
      -- inside the announcement, or after its last client
      cases next <;> cases heq
      · exact heffect
      · rw [← List.append_nil fs₁]
        exact heffect
  | registered => cases hstep

/-- **The sections of `readPump`.** A message that is accepted is added to the history and
delivered; when reading ends, the client is unregistered and its leaving announced. -/
theorem Effect.of_readStep {pc pc' : ReadPC} {fs : List Thread}
    (hstep : readStep u c k h pc = some (h', pc', fs)) :
    Effect u t h (.readPump c pc) h' (.readPump c pc') fs := by
  cases pc with
  | read =>
      simp only [readStep] at hstep
      split at hstep
      · cases hstep
        exact .failed
      · -- a frame was read; `screen` rejects it or takes it
        obtain ⟨cl, hc, heq⟩ := Option.map_eq_some_iff.mp hstep
        split at heq <;> cases heq
        · exact .ignored
        · exact .accepted hc ‹_›
      · cases hstep
  | recipients e =>
      cases hstep
      exact .recipients
  | addToHistory e =>
      simp only [readStep] at hstep
      split at hstep <;> cases hstep
      exact .addedToHistory ‹_›
  | deliver pc =>
      obtain ⟨⟨h₁, next, fs₁⟩, hdeliver, heq⟩ := Option.map_eq_some_iff.mp hstep
      have heffect := Effect.of_deliverStep (u := u) (t := t) (.send c) hdeliver
      -- the pump starts no goroutine of its own after a delivery
      have hfs : (fs₁ ++ next.elim (Caller.forks t (.send c)) fun _ => []) = fs₁ := by
        cases next <;> exact List.append_nil _
      rw [hfs] at heffect
      cases next <;> cases heq <;> exact heffect
  | unregister =>
      simp only [readStep] at hstep
      -- the socket is closed: the client is taken out, if somebody else has not done so before
      split at hstep
      · split at hstep <;> cases hstep
        · exact .left ‹_› ‹_›
        · exact .hadLeft ‹_› ‹_›
      · cases hstep
  | presence pc =>
      obtain ⟨⟨h₁, next, fs₁⟩, hpresence, heq⟩ := Option.map_eq_some_iff.mp hstep
      have heffect := Effect.of_presenceStep (u := u) (t := t) (.leave c) hpresence
      have hfs : (fs₁ ++ next.elim (PresenceCaller.forks t (.leave c)) fun _ => []) = fs₁ := by
        cases next <;> exact List.append_nil _
      rw [hfs] at heffect
      cases next <;> cases heq <;> exact heffect
  | closed => cases hstep

/-- **The sections of `writePump`**: it takes the first frame of the queue, or ends. It ends when
the write to the socket fails or the channel has been closed and emptied. -/
theorem Effect.of_writeStep {ended ended' : Bool}
    (hstep : writeStep c k h ended = some (h', ended')) :
    Effect u t h (.writePump c ended) h' (.writePump c ended') [] := by
  cases ended with
  | true => cases hstep
  | false =>
      simp only [writeStep] at hstep
      split at hstep
      · cases hstep
        exact .writeEnded
      · rename_i cl hc
        split at hstep
        · cases hstep
          exact .took hc ‹_›
        · split at hstep <;> cases hstep
          exact .writeEnded
      · cases hstep

/-- **The sections of `deliverSlow`.** Its loop looks at the clock before each attempt; what the
attempt finds decides how it goes on. -/
theorem Effect.of_slowStep {pc pc' : SlowPC} {fs : List Thread}
    (hstep : slowStep c f k h pc = some (h', pc', fs)) :
    Effect u t h (.slow c f pc) h' (.slow c f pc') fs := by
  cases pc with
  | start =>
      cases hstep
      exact .slowStarted
  | loop deadline =>
      cases hstep
      -- the test of the loop
      split
      · exact .slowContinued ‹_›
      · exact .slowTimedOut (not_lt.mp ‹_›)
  | attempt deadline =>
      simp only [slowStep] at hstep
      -- the attempt under `mu`: still registered or gone
      split at hstep
      · split at hstep <;> cases hstep
        · exact .slowSent ‹_› ‹_›
        · exact .slowFull ‹_› ‹_›
      · cases hstep
        exact .slowGone ‹_›
  | sleep deadline wake =>
      simp only [slowStep] at hstep
      split at hstep <;> cases hstep
      exact .slowWoke ‹_›
  | check =>
      cases hstep
      -- after the loop the same question is asked again
      split
      · exact .slowStill ‹_›
      · exact .slowMissed ‹_›
  | unregister =>
      simp only [slowStep] at hstep
      split at hstep
      · split at hstep <;> cases hstep
        · exact .slowKicked ‹_› ‹_›
        · exact .slowHadLeft ‹_› ‹_›
      · cases hstep
  | presence pc =>
      obtain ⟨⟨h₁, next, fs₁⟩, hpresence, heq⟩ := Option.map_eq_some_iff.mp hstep
      have heffect := Effect.of_presenceStep (u := u) (t := t) (.drop c f) hpresence
      have hfs : (fs₁ ++ next.elim (PresenceCaller.forks t (.drop c f)) fun _ => []) = fs₁ := by
        cases next <;> exact List.append_nil _
      rw [hfs] at heffect
      cases next <;> cases heq <;> exact heffect
  | ended => cases hstep

/-- **Every section has an effect listed above.** Later proofs go through these effects and never
unfold the sections themselves. -/
theorem Effect.of_step {th th' : Thread} {fs : List Thread}
    (hstep : (machine u).step t k h th = some (h', th', fs)) : Effect u t h th h' th' fs := by
  cases th with
  | register pc =>
      obtain ⟨⟨h₁, pc₁, fs₁⟩, hpc, heq⟩ := Option.map_eq_some_iff.mp hstep
      cases heq
      exact .of_registerStep hpc
  | readPump c pc =>
      obtain ⟨⟨h₁, pc₁, fs₁⟩, hpc, heq⟩ := Option.map_eq_some_iff.mp hstep
      cases heq
      exact .of_readStep hpc
  | writePump c ended =>
      obtain ⟨⟨h₁, ended₁⟩, hpc, heq⟩ := Option.map_eq_some_iff.mp hstep
      cases heq
      exact .of_writeStep hpc
  | slow c f pc =>
      obtain ⟨⟨h₁, pc₁, fs₁⟩, hpc, heq⟩ := Option.map_eq_some_iff.mp hstep
      cases heq
      exact .of_slowStep hpc

end LanRoom.Chat

import LanRoom.Chat.Model

/-! # The chat hub as a pool of threads

Every `GET /ws` handler registers its connection and leaves behind a `WritePump` and a `ReadPump`;
a `deliver` that finds a queue full starts a `deliverSlow`. They interleave between their accesses
to the hub: every section that holds `mu` from beginning to end is one step, except `deliver`, which
shares `mu` with other readers while it goes through the clients one by one. -/

namespace LanRoom.Chat

open LanRoom.Upload (Time)
open ThreadPool (Tid Machine Act)

/-! ## Program points -/

/-- A call of `deliver`: `SendMessage` passes a chat message and filters by its `visibleTo`,
`broadcast` passes a presence frame and no filter. -/
inductive Delivery
  | message (e : Entry)
  | presence (seq : ℕ) (users : List Device)
  deriving DecidableEq

/-- The argument `message` of `deliver`. -/
def Delivery.frame : Delivery → Frame
  | .message e => .message e
  | .presence seq users => .presence seq users

/-- The argument `filter` of `deliver` lets the device through. -/
def Delivery.passes : Delivery → Device → Bool
  | .message e, device => e.msg.visibleTo device.id
  | .presence _ _, _ => true

/-- Program points of `deliver`. -/
inductive DeliverPC
  /-- Take `mu` for reading and start to iterate over the clients. -/
  | lock (d : Delivery)
  /-- The next client of the iteration. -/
  | loop (d : Delivery) (rest : List Conn)

/-- Program points of `broadcastPresence`. -/
inductive PresencePC
  /-- `devices`. -/
  | devices
  | deliver (pc : DeliverPC)

/-- Program points of a `GET /ws` handler from `NewClient` on. -/
inductive RegisterPC
  /-- Make the client and register it. -/
  | start (device : Device)
  | welcome
  /-- `sendHistory`: read the clock. -/
  | cutoff
  /-- `sendHistory`: collect the messages. -/
  | snapshot (cutoff : ℤ)
  /-- `sendHistory`: enqueue them. -/
  | history (messages : List Entry)
  | presence (pc : PresencePC)
  | registered

/-- Program points of `ReadPump`. -/
inductive ReadPC
  /-- `ReadMessage`. -/
  | read
  /-- `SendMessage`: fill in the recipients. -/
  | recipients (e : Entry)
  | addToHistory (e : Entry)
  | deliver (pc : DeliverPC)
  | unregister
  | presence (pc : PresencePC)
  | closed

/-- Program points of `deliverSlow`. -/
inductive SlowPC
  /-- Compute the deadline. -/
  | start
  /-- The condition of the loop. -/
  | loop (deadline : Time)
  | attempt (deadline : Time)
  | sleep (deadline wake : Time)
  /-- Read `stillThere`. -/
  | check
  | unregister
  | presence (pc : PresencePC)
  | ended

/-- A goroutine of the hub. -/
inductive Thread
  | register (pc : RegisterPC)
  | readPump (c : Conn) (pc : ReadPC)
  | writePump (c : Conn) (ended : Bool)
  | slow (c : Conn) (f : Frame) (pc : SlowPC)

/-- What the scheduler and the network decide for a step. -/
inductive Choice
  | go
  /-- The order in which the map `clients` is iterated. -/
  | order (clients : List Conn)
  /-- The network delivers a message. -/
  | incoming (m : ChatMessage)
  /-- The connection fails. -/
  | fail
  deriving DecidableEq

/-! ## Steps -/

/-- `deliver`; the program point is `none` when it has returned. -/
def deliverStep (k : Choice) (h : Hub) : DeliverPC → Option (Hub × Option DeliverPC × List Thread)
  | .lock d =>
      match k with
      | .order clients =>
          if clients.Perm h.clients then some (h.rLock, some (.loop d clients), []) else none
      | _ => none
  | .loop _ [] => some (h.rUnlock, none, [])
  | .loop d (c :: rest) =>
      match h.conns c with
      | none => none
      | some cl =>
          if d.passes cl.device then
            match h.trySend c d.frame with
            | (h', true) => some (h', some (.loop d rest), [])
            | (h', false) => some (h', some (.loop d rest), [.slow c d.frame .start])
          else some (h, some (.loop d rest), [])

/-- `broadcastPresence`. -/
def presenceStep (k : Choice) (h : Hub) :
    PresencePC → Option (Hub × Option PresencePC × List Thread)
  | .devices =>
      match k with
      | .order clients =>
          if clients.Perm h.clients then
            some (h.announce, some (.deliver (.lock (.presence h.announced (h.devices clients)))), [])
          else none
      | _ => none
  | .deliver pc => (deliverStep k h pc).map fun x => (x.1, x.2.1.map .deliver, x.2.2)

/-- The handler `t` of a connection; it starts the pumps once `Register` has returned. -/
def registerStep (t : Tid) (k : Choice) (h : Hub) :
    RegisterPC → Option (Hub × RegisterPC × List Thread)
  | .start device => if h.readers = 0 then some (h.join t device, .welcome, []) else none
  | .welcome => (h.conns t).map fun cl => (h.enqueueJSON t (.welcome cl.device), .cutoff, [])
  | .cutoff => some (h, .snapshot h.cutoff, [])
  | .snapshot cutoff => (h.conns t).map fun cl =>
      let msgs := h.historyFor cutoff cl.device.id
      (h, if msgs = [] then .presence .devices else .history msgs, [])
  | .history msgs => some (h.enqueueJSON t (.history msgs), .presence .devices, [])
  | .presence pc => (presenceStep k h pc).map fun x =>
      match x.2.1 with
      | some pc' => (x.1, .presence pc', x.2.2)
      | none => (x.1, .registered, x.2.2 ++ [.writePump t false, .readPump t .read])
  | .registered => none

/-- `ReadPump` of the connection `c`. -/
def readStep (u : UUIDPackage) (c : Conn) (k : Choice) (h : Hub) :
    ReadPC → Option (Hub × ReadPC × List Thread)
  | .read =>
      match k with
      | .fail => some (h, .unregister, [])
      | .incoming m => (h.conns c).map fun cl =>
          match screen u cl.device m with
          | none => (h, .read, [])
          | some toIDs =>
              let e : Entry := ⟨h.accepted.length, h.newMessage cl.device toIDs m.payload⟩
              (h.accept c m, if toIDs = [] then .addToHistory e else .recipients e, [])
      | _ => none
  | .recipients e => some (h, .addToHistory { e with msg := h.fillRecipients e.msg }, [])
  | .addToHistory e =>
      if h.readers = 0 then some (h.addToHistory e, .deliver (.lock (.message e)), []) else none
  | .deliver pc => (deliverStep k h pc).map fun x => (x.1, x.2.1.elim .read .deliver, x.2.2)
  | .unregister =>
      if h.readers = 0 then
        match h.unregister c with
        | (h', true) => some (h', .presence .devices, [])
        | (h', false) => some (h', .closed, [])
      else none
  | .presence pc => (presenceStep k h pc).map fun x => (x.1, x.2.1.elim .closed .presence, x.2.2)
  | .closed => none

/-- `WritePump` of the connection `c`: whether it has ended. -/
def writeStep (c : Conn) (k : Choice) (h : Hub) : Bool → Option (Hub × Bool)
  | true => none
  | false =>
      match k, h.conns c with
      | .fail, _ => some (h, true)
      | .go, some cl =>
          match cl.send with
          | f :: rest => some (h.setClient c { cl with send := rest, taken := cl.taken ++ [f] }, false)
          | [] => if cl.closed then some (h, true) else none
      | _, _ => none

/-- `deliverSlow` of the frame `f` to the connection `c`. -/
def slowStep (c : Conn) (f : Frame) (k : Choice) (h : Hub) :
    SlowPC → Option (Hub × SlowPC × List Thread)
  | .start => some (h, .loop (h.now + slowClientRetryWindow), [])
  | .loop deadline => some (h, if h.now < deadline then .attempt deadline else .check, [])
  | .attempt deadline =>
      if c ∈ h.clients then
        match h.trySend c f with
        | (h', true) => some (h', .ended, [])
        | (h', false) => some (h', .sleep deadline (h.now + slowClientRetryDelay), [])
      else some (h, .ended, [])
  | .sleep deadline wake => if wake ≤ h.now then some (h, .loop deadline, []) else none
  | .check => some (h, if c ∈ h.clients then .unregister else .ended, [])
  | .unregister =>
      if h.readers = 0 then
        match h.unregister c with
        | (h', true) => some (h', .presence .devices, [])
        | (h', false) => some (h', .ended, [])
      else none
  | .presence pc => (presenceStep k h pc).map fun x => (x.1, x.2.1.elim .ended .presence, x.2.2)
  | .ended => none

/-- The next section of the thread `t`. -/
def Thread.step (u : UUIDPackage) (t : Tid) (k : Choice) (h : Hub) :
    Thread → Option (Hub × Thread × List Thread)
  | .register pc => (registerStep t k h pc).map fun x => (x.1, .register x.2.1, x.2.2)
  | .readPump c pc => (readStep u c k h pc).map fun x => (x.1, .readPump c x.2.1, x.2.2)
  | .writePump c ended => (writeStep c k h ended).map fun x => (x.1, .writePump c x.2, [])
  | .slow c f pc => (slowStep c f k h pc).map fun x => (x.1, .slow c f x.2.1, x.2.2)

/-- The **chat hub** as a pool of threads; the environment lets time pass. -/
def machine (u : UUIDPackage) : Machine Hub Thread Choice ℕ where
  step t k h th := th.step u t k h
  env d h := { h with now := h.now + d }

/-- The hub of a server that has just been started. -/
def boot (historyTTL now : Time) : ThreadPool.Config Hub Thread := ⟨{ now, historyTTL }, []⟩

/-- Connections arrive, each with the device `NewClient` gave it. -/
def Arrivals (_ : ThreadPool.Config Hub Thread) (act : Act Thread Choice ℕ) : Prop :=
  ∀ th, act = .spawn th → ∃ device, th = .register (.start device)

/-- A configuration the hub can get into. -/
def Reachable (u : UUIDPackage) (c : ThreadPool.Config Hub Thread) : Prop :=
  ∃ historyTTL now, (machine u).Run Arrivals (boot historyTTL now) c

/-! ## Schedules

For runs on concrete inputs. -/

namespace Sample

/-- A UUID package that accepts no identifier. -/
def uuids : UUIDPackage := ⟨fun _ => none, fun _ => []⟩

/-- Thread `t` performs `n` sections that need no decision. -/
def go (t : Tid) (n : ℕ) : List (Act Thread Choice ℕ) := List.replicate n (.run t .go)

/-- Thread `t` starts to iterate over the clients. -/
def iterate (t : Tid) (clients : List Conn) : Act Thread Choice ℕ := .run t (.order clients)

/-- A connection of the device `id` arrives. -/
def arrive (id : UInt8) : Act Thread Choice ℕ := .spawn (.register (.start { id := [id] }))

/-- Thread `t` performs a whole `broadcastPresence`. -/
def broadcastPresence (t : Tid) (clients : List Conn) : List (Act Thread Choice ℕ) :=
  [iterate t clients, iterate t clients] ++ go t (clients.length + 1)

/-- A message for everyone, or for the devices in `toIDs`, as the network delivers it. -/
def hello (toIDs : List GoString) : ChatMessage :=
  { type := goString "message", toIDs, payload := { kind := [0x74] } }

/-- `ReadPump`, thread `t`, performs a whole `SendMessage` to everyone. -/
def sendMessage (t : Tid) (clients : List Conn) : List (Act Thread Choice ℕ) :=
  [.run t (.incoming (hello []))] ++ go t 1 ++ [iterate t clients] ++ go t (clients.length + 1)

/-- Thread `0` registers; its `ReadPump` is thread `2`. -/
def joins : List (Act Thread Choice ℕ) := [arrive 1] ++ go 0 4 ++ broadcastPresence 0 [0]

/-- Threads `0` and `3` have joined; their `ReadPump`s are threads `2` and `5`. -/
def bothJoin : List (Act Thread Choice ℕ) :=
  joins ++ [arrive 2] ++ go 3 4 ++ broadcastPresence 3 [0, 3]

/-- In a schedule, only connections arrive. -/
def tame : Act Thread Choice ℕ → Bool
  | .spawn (.register (.start _)) => true
  | .spawn _ => false
  | _ => true

/-- An action that passes the test is one that may happen. It is decided by looking at the action
alone, so a schedule can be checked by evaluation. -/
theorem arrivals_of_tame {act : Act Thread Choice ℕ} (htame : tame act = true)
    (d : ThreadPool.Config Hub Thread) : Arrivals d act := by
  rintro th rfl
  unfold tame at htame
  split at htame
  · rename_i device heq
    cases heq
    exact ⟨device, rfl⟩
  · cases htame
  · rename_i hne
    exact absurd rfl (hne th)

/-- A tame schedule leads to a configuration the hub can get into. -/
theorem reachable_of_execAll {d : ThreadPool.Config Hub Thread} {as : List (Act Thread Choice ℕ)}
    (htame : as.all tame = true) {u : UUIDPackage}
    (hexec : (machine u).execAll (boot 1000000000 0) as = some d) :
    Reachable u d :=
  ⟨1000000000, 0, .of_execAll (fun c act hact =>
    arrivals_of_tame (List.all_eq_true.mp htame act hact) c) hexec⟩

/-- A tame schedule that meets a condition is a run under it. The condition is evaluated in every
configuration that the schedule passes through. -/
theorem run_of_execAllIf {q : ThreadPool.Config Hub Thread → Act Thread Choice ℕ → Bool}
    {c₀ d : ThreadPool.Config Hub Thread} {u : UUIDPackage} {as : List (Act Thread Choice ℕ)}
    (htame : as.all tame = true) (hexec : (machine u).execAllIf q c₀ as = some d) :
    (machine u).Run (fun d act => Arrivals d act ∧ q d act = true) c₀ d :=
  .of_execAllIf (fun c act hact hq =>
    ⟨arrivals_of_tame (List.all_eq_true.mp htame act hact) c, hq⟩) hexec

end Sample

end LanRoom.Chat

import LanRoom.Concurrency.EventLoop

/-! # The connection of the page

The part of `web/static/app.js` that opens and closes the WebSocket: `connect` with its handlers,
`reconnectIfStale`, `enterChat` and `leaveChat`. The page reacts to one event at a time; the callback
of the reconnect timer is two events, since it waits for `loadConnectionInfo` in between. When a
timer fires and how long a request takes is left open.

Whatever happens, at most one WebSocket is connecting or open. Outside the chat there is none, unless
a callback goes on after the user has left: it looks at `isInChat()` before the request and not again
after it (`connected_only_in_chat`). -/

namespace LanRoom.Web

open EventLoop (run Throughout Along)

/-! ## The platform -/

/-- `readyState` of a WebSocket. -/
inductive ReadyState
  | connecting | opened | closing | closed
  deriving DecidableEq

/-- A WebSocket that the page has created. -/
structure Socket where
  /-- The `name` in its URL; for `null` that is the text `null`. -/
  name : Option String
  readyState : ReadyState := .connecting
  /-- Whether `onclose` is set. -/
  onclose : Bool := true

/-- It is connecting or open. -/
def Socket.isLive (x : Socket) : Bool := x.readyState = .connecting || x.readyState = .opened

/-- `ws.close()`. -/
def Socket.close (x : Socket) : Socket := if x.isLive then { x with readyState := .closing } else x

/-- A socket that has been told to close is no longer live. -/
theorem Socket.close_isLive (x : Socket) : x.close.isLive = false := by
  rw [Socket.close]
  by_cases hlive : x.isLive = true
  · rw [if_pos hlive]
    rfl
  · rw [if_neg hlive]
    exact Bool.eq_false_iff.mpr hlive

/-- `close` leaves the handler in place; `discard` is what takes it off. -/
theorem Socket.close_onclose (x : Socket) : x.close.onclose = x.onclose := by
  rw [Socket.close]
  split
  · rfl
  · rfl

/-- A closed socket is not live. Its `onclose` may still be about to come. -/
theorem Socket.not_isLive {x : Socket} (h : x.readyState = .closed) : x.isLive = false := by
  simp [Socket.isLive, h]

/-- A timer that has been set and has not fired. -/
structure Timer where
  id : ℕ
  /-- The delay in milliseconds, without the random part. -/
  backoff : ℕ

/-- What `loadConnectionInfo` finds out, as far as the callback looks at it. -/
structure ConnectionInfo where
  pinRequired : Bool
  authorized : Bool

/-- `info?.pinRequired && !info.authorized`; `none` is a request that has failed. -/
def needsPIN (info : Option ConnectionInfo) : Bool :=
  info.any fun i => i.pinRequired && !i.authorized

/-- The **state** of the page, as far as the connection depends on it. -/
structure Connection where
  /-- `document.body` has the class `in-chat`. -/
  inChat : Bool := false
  chatName : Option String := none
  ws : Option ℕ := none
  reconnectTimer : Option ℕ := none
  reconnectAttempts : ℕ := 0
  connStatus : String := "未连接"
  /-- `disabled` of the buttons to send and to attach. -/
  disabled : Bool := false
  /-- Every WebSocket created so far; `ws` is a place in this list. -/
  sockets : List Socket := []
  /-- The timers that are set. -/
  timers : List Timer := []
  /-- What `setTimeout` returns next. -/
  nextTimer : ℕ := 1
  /-- The callbacks that wait for `loadConnectionInfo`. -/
  waiting : ℕ := 0

namespace Connection

/-! ## The code -/

/-- `isInChat() && chatName`, as a condition. -/
def stays (s : Connection) : Bool := s.inChat && s.chatName.any (· ≠ "")

/-- `isOpen`. -/
def isOpen (s : Connection) : Bool :=
  (s.ws.bind fun n => s.sockets[n]?).any fun x => x.readyState = .opened

/-- `setConnected`. -/
def setConnected (s : Connection) (online : Bool) : Connection :=
  { s with
    connStatus := if online then "已连接" else if s.inChat then "重连中…" else "未连接"
    disabled := !online }

/-- `if (reconnectTimer) { clearTimeout(reconnectTimer); reconnectTimer = null; }`. -/
def clearReconnect (s : Connection) : Connection :=
  match s.reconnectTimer with
  | none => s
  | some id => { s with timers := s.timers.filter (·.id ≠ id), reconnectTimer := none }

/-- `if (ws) { ws.onclose = null; ws.close(); ws = null; }`. -/
def discard (s : Connection) : Connection :=
  match s.ws with
  | none => s
  | some n =>
      { s with
        sockets := s.sockets.modify n fun x => { x with onclose := false }.close
        ws := none }

/-- `ws = new WebSocket(…)` with its handlers. -/
def create (s : Connection) (name : Option String) : Connection :=
  { s with sockets := s.sockets ++ [{ name }], ws := some s.sockets.length }

/-- `connect`. -/
def connect (s : Connection) (name : Option String) : Connection := s.discard.create name

/-- `onopen`. -/
def onopen (s : Connection) : Connection :=
  { s.setConnected true with reconnectAttempts := 0 }.clearReconnect

/-- `onclose`. -/
def onclose (s : Connection) : Connection :=
  let s := { s with ws := none }.setConnected false
  if s.stays then
    { s with
      reconnectAttempts := s.reconnectAttempts + 1
      reconnectTimer := some s.nextTimer
      timers := s.timers ++ [⟨s.nextTimer, min (1000 * 2 ^ s.reconnectAttempts) 15000⟩]
      nextTimer := s.nextTimer + 1 }
  else s

/-- `onerror`. -/
def onerror (s : Connection) : Connection := s.setConnected false

/-- `leaveChat`. -/
def leaveChat (s : Connection) : Connection :=
  { s.clearReconnect.discard with chatName := none, inChat := false }

/-- `enterChat`. -/
def enterChat (s : Connection) (name : String) : Connection :=
  ({ s with chatName := some name, inChat := true }.setConnected false).connect (some name)

/-- The callback of the reconnect timer, up to its request. -/
def reconnect (s : Connection) : Connection := if s.stays then { s with waiting := s.waiting + 1 } else s

/-- The callback after its request. -/
def resume (s : Connection) (info : Option ConnectionInfo) : Connection :=
  let s := { s with waiting := s.waiting - 1 }
  if needsPIN info then s.leaveChat else s.connect s.chatName

/-- `reconnectIfStale`. -/
def reconnectIfStale (s : Connection) : Connection :=
  if !s.stays || s.isOpen then s
  else { s.clearReconnect with reconnectAttempts := 0 }.connect s.chatName

/-! ## The events -/

/-- `readyState` of one WebSocket changes. -/
def setReady (s : Connection) (n : ℕ) (r : ReadyState) : Connection :=
  { s with sockets := s.sockets.modify n fun x => { x with readyState := r } }

/-- The WebSocket `x` at place `n` is closed: the events `error`, if `failed`, and `close`. -/
def closed (s : Connection) (n : ℕ) (x : Socket) (failed : Bool) : Connection :=
  let s := s.setReady n .closed
  let s := if failed then s.onerror else s
  if x.onclose then s.onclose else s

end Connection

/-- What the page reacts to. -/
inductive Event
  /-- The user joins under this name, or `?auto=1` does. -/
  | enterChat (name : String)
  | leaveChat
  /-- The connection is established. -/
  | opened (n : ℕ)
  /-- The server has started to close the connection. -/
  | closing (n : ℕ)
  /-- The connection is closed, after an error if `failed`. -/
  | closed (n : ℕ) (failed : Bool)
  /-- A timer fires. -/
  | timer (id : ℕ)
  /-- A callback goes on with the outcome of `loadConnectionInfo`. -/
  | answered (info : Option ConnectionInfo)
  | visibilitychange (visible : Bool)
  | pageshow

namespace Connection

/-- One event; `none` when it cannot happen. -/
def step (s : Connection) : Event → Option Connection
  | .enterChat name => some (s.enterChat name)
  | .leaveChat => some s.leaveChat
  | .opened n =>
      if (s.sockets[n]?).any (·.readyState = .connecting) then some (s.setReady n .opened).onopen
      else none
  | .closing n =>
      if (s.sockets[n]?).any (·.readyState = .opened) then some (s.setReady n .closing) else none
  | .closed n failed =>
      (s.sockets[n]?).bind fun x =>
        if x.readyState = .closed then none else some (s.closed n x failed)
  | .timer id =>
      if s.timers.any (·.id = id) then
        some { s with timers := s.timers.filter (·.id ≠ id) }.reconnect
      else none
  | .answered info => if s.waiting = 0 then none else some (s.resume info)
  | .visibilitychange visible => some (if visible then s.reconnectIfStale else s)
  | .pageshow => some s.reconnectIfStale

/-- The WebSockets that are connecting or open. -/
def live (s : Connection) : List Socket := s.sockets.filter Socket.isLive

/-- Outside the chat none is connecting or open, and there is never more than one. -/
def IsSafe (s : Connection) : Prop := (s.inChat = false → s.live = []) ∧ s.live.length ≤ 1

/-- The **rule**: a callback that goes on to connect does so inside the chat. -/
def Orderly (s : Connection) : Event → Prop
  | .answered info => needsPIN info = true ∨ s.inChat = true
  | _ => True

instance (s : Connection) : ∀ e, Decidable (s.Orderly e)
  | .answered info => inferInstanceAs (Decidable (needsPIN info = true ∨ s.inChat = true))
  | .enterChat _ | .leaveChat | .opened _ | .closing _ | .closed _ _ | .timer _
  | .visibilitychange _ | .pageshow => isTrue trivial

/-! ## The invariant -/

/-- The **invariant**: a WebSocket that is connecting or open has its `onclose`, and one that still
waits for its `onclose` is `ws`. -/
structure Tidy (s : Connection) : Prop where
  listens : ∀ (n : ℕ) (x : Socket), s.sockets[n]? = some x → x.isLive = true → x.onclose = true
  tracked : ∀ (n : ℕ) (x : Socket), s.sockets[n]? = some x → x.onclose = true →
    x.readyState ≠ .closed → s.ws = some n

/-- No WebSocket waits for its `onclose`. -/
def Quiet (s : Connection) : Prop :=
  ∀ (n : ℕ) (x : Socket), s.sockets[n]? = some x → x.onclose = true → x.readyState = .closed

/-- Code that leaves the WebSockets alone. -/
structure Same (s s' : Connection) : Prop where
  sockets : s'.sockets = s.sockets
  ws : s'.ws = s.ws
  inChat : s'.inChat = s.inChat

/-- The invariant speaks of the sockets and the current one only. -/
theorem Tidy.of_same {s s' : Connection} (h : s.Tidy) (hsame : Same s s') : s'.Tidy := by
  constructor
  · rw [hsame.sockets]
    exact h.listens
  · rw [hsame.sockets, hsame.ws]
    exact h.tracked

/-- The indicator and the inputs are no part of the connection. -/
theorem same_setConnected (s : Connection) (online : Bool) : Same s (s.setConnected online) :=
  ⟨rfl, rfl, rfl⟩

/-- Clearing the timer leaves the sockets alone. It only takes away a reconnect that would have
come. -/
theorem same_clearReconnect (s : Connection) : Same s s.clearReconnect := by
  rw [clearReconnect]
  split
  · exact ⟨rfl, rfl, rfl⟩
  · exact ⟨rfl, rfl, rfl⟩

/-- `onopen` resets the backoff, clears the timer and updates the page. -/
theorem same_onopen (s : Connection) : Same s s.onopen := by
  have h := same_clearReconnect { s.setConnected true with reconnectAttempts := 0 }
  exact ⟨h.sockets, h.ws, h.inChat⟩

/-- The callback of the timer asks the server first; no socket is touched before the answer. -/
theorem same_reconnect (s : Connection) : Same s s.reconnect := by
  rw [reconnect]
  split
  · exact ⟨rfl, rfl, rfl⟩
  · exact ⟨rfl, rfl, rfl⟩

/-- After `onclose` the page has no WebSocket. It arms the timer while the user is in the chat. -/
theorem onclose_fields (s : Connection) :
    s.onclose.sockets = s.sockets ∧ s.onclose.ws = none ∧ s.onclose.inChat = s.inChat := by
  unfold onclose
  dsimp only
  split
  · exact ⟨rfl, rfl, rfl⟩
  · exact ⟨rfl, rfl, rfl⟩

/-- Without a current socket none waits for its `onclose`. The one that was current has been
discarded, or its `onclose` has come. -/
theorem Tidy.quiet {s : Connection} (h : s.Tidy) (hws : s.ws = none) : s.Quiet := by
  intro n x hx honclose
  by_contra hopen
  have hn := h.tracked n x hx honclose hopen
  rw [hws] at hn
  cases hn

/-- A WebSocket that waits for nothing is not live. Being current is what being live requires. -/
theorem Tidy.live_eq_nil {s : Connection} (h : s.Tidy) (hws : s.ws = none) : s.live = [] := by
  rw [live, List.filter_eq_nil_iff]
  intro x hx hlive
  obtain ⟨n, hn⟩ := List.mem_iff_getElem?.mp hx
  have hclosed := h.quiet hws n x hn (h.listens n x hn hlive)
  rw [Socket.not_isLive hclosed] at hlive
  cases hlive

/-- A list with one place where `p` holds. It is used with the place of the current socket. -/
theorem length_filter_le_one {α : Type*} {p : α → Bool} {xs : List α} {k : ℕ}
    (h : ∀ n x, xs[n]? = some x → p x = true → n = k) : (xs.filter p).length ≤ 1 := by
  induction xs generalizing k with
  | nil => exact Nat.zero_le 1
  | cons a xs ih =>
      by_cases ha : p a = true
      · -- the place is the first one, so nothing is left of the tail
        have hk : 0 = k := h 0 a rfl ha
        have htail : xs.filter p = [] := by
          rw [List.filter_eq_nil_iff]
          intro x hx hpx
          obtain ⟨n, hn⟩ := List.mem_iff_getElem?.mp hx
          have := h (n + 1) x hn hpx
          omega
        rw [List.filter_cons_of_pos ha, htail]
        rfl
      · rw [List.filter_cons_of_neg ha]
        apply ih (k := k - 1)
        intro n x hx hpx
        have := h (n + 1) x hx hpx
        omega

/-- **At most one socket is live.** Every live socket is the current one. It is what the invariant
says of all positions in the list of sockets. -/
theorem Tidy.length_live_le {s : Connection} (h : s.Tidy) : s.live.length ≤ 1 := by
  apply length_filter_le_one (k := s.ws.getD 0)
  intro n x hx hlive
  have hopen : x.readyState ≠ .closed := by
    intro hclosed
    rw [Socket.not_isLive hclosed] at hlive
    cases hlive
  rw [h.tracked n x hx (h.listens n x hx hlive) hopen]
  rfl

/-! ## What the code does to it -/

/-- After `discard` there is no current socket. Its `onclose` has been taken off before it is
closed. -/
theorem discard_ws (s : Connection) : s.discard.ws = none := by
  rw [discard]
  split
  · assumption
  · rfl

/-- Discarding the socket does not leave the chat. That is the business of its caller. -/
theorem discard_inChat (s : Connection) : s.discard.inChat = s.inChat := by
  rw [discard]
  split
  · rfl
  · rfl

/-- `discard` takes the handler off the current socket and closes it, so no live one is left behind.
-/
theorem Tidy.discard {s : Connection} (h : s.Tidy) : s.discard.Tidy := by
  rw [Connection.discard]
  split
  case h_1 => exact h
  case h_2 m hm =>
    constructor
    · intro n x hx hlive
      rw [List.getElem?_modify] at hx
      obtain ⟨y, hy, rfl⟩ := Option.map_eq_some_iff.mp hx
      by_cases hmn : m = n
      · rw [if_pos hmn, Socket.close_isLive] at hlive
        cases hlive
      · rw [if_neg hmn] at hlive ⊢
        exact h.listens n y hy hlive
    · intro n x hx honclose hopen
      rw [List.getElem?_modify] at hx
      obtain ⟨y, hy, rfl⟩ := Option.map_eq_some_iff.mp hx
      by_cases hmn : m = n
      · rw [if_pos hmn, Socket.close_onclose] at honclose
        cases honclose
      · -- another one that waits would be `ws` as well
        rw [if_neg hmn] at honclose hopen
        have hn := h.tracked n y hy honclose hopen
        exact absurd (Option.some.inj (hm.symm.trans hn)) hmn

/-- A new socket becomes the current one; the old one must be gone before. -/
theorem Tidy.create {s : Connection} (h : s.Tidy) (hws : s.ws = none) (name : Option String) :
    (s.create name).Tidy := by
  have hquiet := h.quiet hws
  constructor
  · intro n x hx hlive
    rcases Nat.lt_or_ge n s.sockets.length with hn | hn
    · rw [Connection.create, List.getElem?_append_left hn] at hx
      exact h.listens n x hx hlive
    · rw [Connection.create, List.getElem?_append_right hn] at hx
      obtain rfl := List.mem_singleton.mp (List.mem_of_getElem? hx)
      rfl
  · intro n x hx honclose hopen
    rcases Nat.lt_or_ge n s.sockets.length with hn | hn
    · rw [Connection.create, List.getElem?_append_left hn] at hx
      exact absurd (hquiet n x hx honclose) hopen
    · have hlt := (List.getElem?_eq_some_iff.mp hx).1
      rw [Connection.create, List.length_append, List.length_singleton] at hlt
      exact congrArg some (by omega)

/-- `connect` discards the current socket before it makes a new one. -/
theorem Tidy.connect {s : Connection} (h : s.Tidy) (name : Option String) :
    (s.connect name).Tidy :=
  h.discard.create s.discard_ws name

/-- Leaving the chat clears the timer and discards the socket. -/
theorem Tidy.leaveChat {s : Connection} (h : s.Tidy) : s.leaveChat.Tidy := by
  have hdiscard := (h.of_same s.same_clearReconnect).discard
  exact ⟨hdiscard.listens, hdiscard.tracked⟩

/-- After leaving the chat there is no current socket. The timer is cleared as well, so none will
come of itself. -/
theorem leaveChat_ws (s : Connection) : s.leaveChat.ws = none := s.clearReconnect.discard_ws

/-- A WebSocket that was not closed goes on to a state that is not live, or stays live. -/
theorem Tidy.setReady {s : Connection} (h : s.Tidy) {n : ℕ} {x : Socket} {r : ReadyState}
    (hx : s.sockets[n]? = some x) (hopen : x.readyState ≠ .closed)
    (hlive : ({ x with readyState := r } : Socket).isLive = true → x.isLive = true) :
    (s.setReady n r).Tidy := by
  constructor
  · intro m y hy hylive
    rw [Connection.setReady, List.getElem?_modify] at hy
    obtain ⟨z, hz, rfl⟩ := Option.map_eq_some_iff.mp hy
    -- the socket that changes, and all the others
    by_cases hnm : n = m
    · subst hnm
      obtain rfl := Option.some.inj (hx.symm.trans hz)
      rw [if_pos rfl] at hylive ⊢
      exact h.listens n x hx (hlive hylive)
    · rw [if_neg hnm] at hylive ⊢
      exact h.listens m z hz hylive
  · intro m y hy honclose hyopen
    rw [Connection.setReady, List.getElem?_modify] at hy
    obtain ⟨z, hz, rfl⟩ := Option.map_eq_some_iff.mp hy
    by_cases hnm : n = m
    · subst hnm
      obtain rfl := Option.some.inj (hx.symm.trans hz)
      rw [if_pos rfl] at honclose
      exact h.tracked n x hx honclose hopen
    · rw [if_neg hnm] at honclose hyopen
      exact h.tracked m z hz honclose hyopen

/-- Outside the chat the page has no WebSocket. -/
def Confined (s : Connection) : Prop := s.inChat = false → s.ws = none

/-- Being confined depends on the current socket and on being in the chat. -/
theorem Confined.of_same {s s' : Connection} (h : s.Confined) (hsame : Same s s') :
    s'.Confined := by
  intro houtside
  rw [hsame.inChat] at houtside
  rw [hsame.ws]
  exact h houtside

/-- In the chat, a socket may be current. The condition is about the time outside of the chat. -/
theorem confined_of_inChat {s : Connection} (h : s.inChat = true) : s.Confined := by
  intro houtside
  rw [h] at houtside
  cases houtside

/-- Connecting does not enter the chat. It is entered before, by `enterChat`. -/
theorem connect_inChat (s : Connection) (name : Option String) :
    (s.connect name).inChat = s.inChat := s.discard_inChat

/-- `reconnect` only goes on for a page that is in the chat. -/
theorem stays_inChat {s : Connection} (h : s.stays = true) : s.inChat = true := by
  rw [stays, Bool.and_eq_true] at h
  exact h.1

/-- `reconnectIfStale` looks at `isInChat()` and connects at once. -/
theorem reconnectIfStale_spec {s : Connection} (h : s.Tidy) :
    s.reconnectIfStale.Tidy ∧ (s.Confined → s.reconnectIfStale.Confined) := by
  rw [reconnectIfStale]
  split
  · exact ⟨h, id⟩
  next hstale =>
    have hstays : s.stays = true := by
      cases hs : s.stays with
      | true => rfl
      | false => simp [hs] at hstale
    have hsame := s.same_clearReconnect
    have htidy := h.of_same hsame
    have hreset : Connection.Tidy { s.clearReconnect with reconnectAttempts := 0 } :=
      ⟨htidy.listens, htidy.tracked⟩
    refine ⟨hreset.connect s.chatName, fun _ => ?_⟩
    apply confined_of_inChat
    rw [connect_inChat]
    exact hsame.inChat.trans (stays_inChat hstays)

/-- When a WebSocket is closed that waited for its `onclose`, no other one waits. -/
theorem Tidy.quiet_setReady {s : Connection} (h : s.Tidy) {n : ℕ} {x : Socket}
    (hx : s.sockets[n]? = some x) (hopen : x.readyState ≠ .closed) (honclose : x.onclose = true) :
    (s.setReady n .closed).Quiet := by
  intro m y hy hwaits
  have hn := h.tracked n x hx honclose hopen
  by_contra hyopen
  have htidy := h.setReady (r := .closed) hx hopen (fun hlive => by cases hlive)
  have hm : s.ws = some m := htidy.tracked m y hy hwaits hyopen
  obtain rfl := Option.some.inj (hn.symm.trans hm)
  rw [Connection.setReady, List.getElem?_modify_eq, hx] at hy
  obtain rfl := Option.some.inj hy
  exact hyopen rfl

/-- `onclose` forgets the current socket and, in the chat, arms the timer; none may be waiting for
its `onclose` by then. -/
theorem Tidy.onclose {s : Connection} (h : s.Tidy) (hquiet : s.Quiet) : s.onclose.Tidy := by
  obtain ⟨hsockets, -, -⟩ := s.onclose_fields
  constructor
  · rw [hsockets]
    exact h.listens
  · rw [hsockets]
    intro n x hx honclose hopen
    exact absurd (hquiet n x hx honclose) hopen

/-- A WebSocket is closed: `onclose` runs if it is set, which it is for `ws` only. -/
theorem closed_spec {s : Connection} (h : s.Tidy) {n : ℕ} {x : Socket}
    (hx : s.sockets[n]? = some x) (hopen : x.readyState ≠ .closed) (failed : Bool) :
    (s.closed n x failed).Tidy ∧ (s.Confined → (s.closed n x failed).Confined) := by
  have htidy := h.setReady (r := .closed) hx hopen (fun hlive => by cases hlive)
  have herror : Same (s.setReady n .closed)
      (if failed then (s.setReady n .closed).onerror else s.setReady n .closed) := by
    split
    · exact same_setConnected _ false
    · exact ⟨rfl, rfl, rfl⟩
  have hconfined : s.Confined → (s.setReady n .closed).Confined := id
  -- the handler is still attached, so the current socket has ended
  by_cases honclose : x.onclose = true
  · have heq : s.closed n x failed =
        (if failed then (s.setReady n .closed).onerror else s.setReady n .closed).onclose :=
      if_pos honclose
    rw [heq]
    have hquiet := h.quiet_setReady hx hopen honclose
    refine ⟨(htidy.of_same herror).onclose ?_, fun _ _ => (onclose_fields _).2.1⟩
    intro m y hy
    rw [herror.sockets] at hy
    exact hquiet m y hy
  · -- it was detached before: nothing but the state changes
    have heq : s.closed n x failed =
        if failed then (s.setReady n .closed).onerror else s.setReady n .closed :=
      if_neg honclose
    rw [heq]
    exact ⟨htidy.of_same herror, fun hout => (hconfined hout).of_same herror⟩

/-- The callback goes on: it leaves, or connects without another look at `isInChat()`. -/
theorem resume_spec {s : Connection} (h : s.Tidy) (info : Option ConnectionInfo) :
    (s.resume info).Tidy ∧ (s.Orderly (.answered info) → s.Confined → (s.resume info).Confined) := by
  have hresumed : Connection.Tidy { s with waiting := s.waiting - 1 } := ⟨h.listens, h.tracked⟩
  rw [resume]
  dsimp only
  split
  · exact ⟨hresumed.leaveChat, fun _ _ _ => leaveChat_ws _⟩
  next hconnect =>
    refine ⟨hresumed.connect s.chatName, fun horderly _ => ?_⟩
    apply confined_of_inChat
    rw [connect_inChat]
    exact horderly.resolve_left hconnect

/-- **Step lemma**: every event preserves the invariant, and an orderly one connects nobody outside
the chat. The events that make a socket discard the one before in the same turn. -/
theorem Tidy.step {s s' : Connection} {e : Event} (h : s.Tidy) (hstep : s.step e = some s') :
    s'.Tidy ∧ (s.Orderly e → s.Confined → s'.Confined) := by
  cases e with
  | enterChat name =>
      obtain rfl := Option.some.inj hstep
      have hjoined : Connection.Tidy { s with chatName := some name, inChat := true } :=
        ⟨h.listens, h.tracked⟩
      refine ⟨(hjoined.of_same (same_setConnected _ false)).connect (some name), fun _ _ => ?_⟩
      apply confined_of_inChat
      exact connect_inChat _ _
  | leaveChat =>
      obtain rfl := Option.some.inj hstep
      exact ⟨h.leaveChat, fun _ _ _ => s.leaveChat_ws⟩
  | opened n =>
      rw [Connection.step, Option.ite_none_right_eq_some] at hstep
      obtain ⟨hready, hs'⟩ := hstep
      obtain rfl := Option.some.inj hs'
      -- a connecting socket opens, and its handler runs
      obtain ⟨x, hx, hconnecting⟩ := (Option.any_eq_true _ _).mp hready
      have hready := of_decide_eq_true hconnecting
      have htidy := h.setReady (r := .opened) hx (by rw [hready]; decide) fun _ => by
        simp [Socket.isLive, hready]
      have hsame := same_onopen (s.setReady n .opened)
      refine ⟨htidy.of_same hsame, fun _ hconfined => ?_⟩
      exact Confined.of_same (s := s.setReady n .opened) hconfined hsame
  | closing n =>
      rw [Connection.step, Option.ite_none_right_eq_some] at hstep
      obtain ⟨hready, hs'⟩ := hstep
      obtain rfl := Option.some.inj hs'
      -- the peer has begun to close, and no handler runs yet
      obtain ⟨x, hx, hopened⟩ := (Option.any_eq_true _ _).mp hready
      have hready := of_decide_eq_true hopened
      refine ⟨h.setReady (r := .closing) hx (by rw [hready]; decide) ?_, fun _ hconfined => hconfined⟩
      intro hlive
      cases hlive
  | closed n failed =>
      obtain ⟨x, hx, hrest⟩ := Option.bind_eq_some_iff.mp hstep
      rw [Option.ite_none_left_eq_some] at hrest
      obtain ⟨hopen, hs'⟩ := hrest
      obtain rfl := Option.some.inj hs'
      exact ⟨(closed_spec h hx hopen failed).1, fun _ => (closed_spec h hx hopen failed).2⟩
  | timer id =>
      rw [Connection.step, Option.ite_none_right_eq_some] at hstep
      obtain ⟨-, hs'⟩ := hstep
      obtain rfl := Option.some.inj hs'
      -- the timer has fired and is gone
      have hfired : Connection.Tidy { s with timers := s.timers.filter (·.id ≠ id) } :=
        ⟨h.listens, h.tracked⟩
      have hsame := same_reconnect { s with timers := s.timers.filter (·.id ≠ id) }
      exact ⟨hfired.of_same hsame, fun _ hconfined => Confined.of_same (s := s) hconfined
        ⟨hsame.sockets, hsame.ws, hsame.inChat⟩⟩
  | answered info =>
      rw [Connection.step, Option.ite_none_left_eq_some] at hstep
      obtain ⟨-, hs'⟩ := hstep
      obtain rfl := Option.some.inj hs'
      -- the answer may come when the page has left the chat
      exact resume_spec h info
  | visibilitychange visible =>
      obtain rfl := Option.some.inj hstep
      cases visible with
      | true => exact ⟨(reconnectIfStale_spec h).1, fun _ => (reconnectIfStale_spec h).2⟩
      | false => exact ⟨h, fun _ hconfined => hconfined⟩
  | pageshow =>
      obtain rfl := Option.some.inj hstep
      exact ⟨(reconnectIfStale_spec h).1, fun _ => (reconnectIfStale_spec h).2⟩

/-! ## Whole runs -/

/-- The first callback that breaks the rule opens a WebSocket outside the chat. -/
theorem not_isSafe_of_not_orderly {s s' : Connection} {e : Event} (hbad : ¬s.Orderly e)
    (hstep : s.step e = some s') : ¬s'.IsSafe := by
  cases e with
  | answered info =>
      rw [Connection.step, Option.ite_none_left_eq_some] at hstep
      obtain ⟨-, hs'⟩ := hstep
      obtain rfl := Option.some.inj hs'
      obtain ⟨hneeds, hinside⟩ := not_or.mp hbad
      intro hsafe
      have houtside : (s.resume info).inChat = false := by
        rw [resume, if_neg hneeds, connect_inChat]
        exact Bool.eq_false_iff.mpr hinside
      have hlive := hsafe.1 houtside
      rw [resume, if_neg hneeds, live, connect, create, List.filter_append] at hlive
      exact absurd (List.append_eq_nil_iff.mp hlive).2 (List.cons_ne_nil _ _)
  | _ => exact absurd trivial hbad

/-- A page that has just been loaded has no socket. It is where every run begins. -/
theorem tidy_empty : Connection.Tidy {} :=
  ⟨fun _ _ hx => absurd hx (by simp), fun _ _ hx => absurd hx (by simp)⟩

/-- **The page and its connection.** In every run at most one WebSocket is connecting or open all
the time. There is none outside the chat all the time exactly if every callback of the reconnect
timer that goes on to connect, once it has its answer, does so inside the chat. -/
theorem connected_only_in_chat {es : List Event} {s : Connection} (hrun : run step {} es = some s) :
    Throughout step (fun s => s.live.length ≤ 1) {} es ∧
      (Throughout step IsSafe {} es ↔ Along step Orderly {} es) := by
  constructor
  · have htidy : Throughout step Tidy {} es :=
      EventLoop.throughout_of_invariant (fun _ _ _ h hstep => (h.step hstep).1) tidy_empty es
    exact htidy.mono fun s h => h.length_live_le
  · refine EventLoop.throughout_iff_along (I := fun s => s.Tidy ∧ s.Confined) ?_ ?_ ?_ ⟨tidy_empty, ?_⟩ hrun
    · intro s e s' h hok hstep
      exact ⟨(h.1.step hstep).1, (h.1.step hstep).2 hok h.2⟩
    · intro s h
      exact ⟨fun houtside => h.1.live_eq_nil (h.2 houtside), h.1.length_live_le⟩
    · intro s e s' _ hbad hstep
      exact not_isSafe_of_not_orderly hbad hstep
    · exact fun _ => rfl

/-- A reconnect whose answer comes before the user leaves. The condition of the theorem holds in
each of these steps. -/
theorem connected_only_in_chat_reconnect :
    Throughout step IsSafe {}
      [.enterChat "a", .closed 0 true, .timer 1, .answered none, .opened 1, .leaveChat] :=
  (connected_only_in_chat (s := ((run step {} [.enterChat "a", .closed 0 true, .timer 1,
    .answered none, .opened 1, .leaveChat]).getD {})) rfl).2.mpr (by decide)

/-- The user leaves while the callback waits for its answer: it connects under the name `null`. -/
theorem not_connected_only_in_chat :
    ¬∀ (es : List Event) (s : Connection), run step {} es = some s → s.IsSafe := by
  intro h
  have hsafe := h [.enterChat "a", .closed 0 true, .timer 1, .leaveChat, .answered none] _ rfl
  have hlive := hsafe.1 rfl
  cases hlive

end Connection

end LanRoom.Web

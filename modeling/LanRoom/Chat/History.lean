import LanRoom.Data.ExpiringLog
import LanRoom.Chat.Offers

/-! # The chat history that is pruned and the one that is not

`addToHistory` throws away the messages that have expired by the time it is called; `sendHistory`
shows a joining device those that have not expired by then. Here the calls come one after the other,
each reading the clock once, and are compared with a hub that never throws a message away: every
device is shown the same (`sendHistory_refines`). -/

namespace LanRoom.Chat

open LanRoom.Upload (Time)
open ThreadPool (Tid)
open ExpiringLog (live Agrees)

variable {h : Hub} {t : Tid} {k : Choice}

/-! ## The calls -/

/-- `sendHistory`: the frame it builds for a device, if there is a message to show. -/
def Hub.historyFrame (h : Hub) (deviceID : GoString) : Option Frame :=
  match h.historyFor h.cutoff deviceID with
  | [] => none
  | msgs => some (.history msgs)

/-- `sendHistory`. -/
def Hub.sendHistory (h : Hub) (c : Conn) : Hub :=
  match h.conns c with
  | none => h
  | some cl => match h.historyFrame cl.device.id with
    | none => h
    | some f => h.enqueueJSON c f

/-- What happens to a hub: time passes, a client is registered, or one of the two calls is made. -/
inductive HistoryCall
  | tick (n : ℕ)
  | join (c : Conn) (device : Device)
  | addToHistory (e : Entry)
  | sendHistory (c : Conn)

/-- One call. -/
def Hub.call (h : Hub) : HistoryCall → Hub
  | .tick n => h.tick n
  | .join c device => h.join c device
  | .addToHistory e => h.addToHistory e
  | .sendHistory c => h.sendHistory c

/-- The messages the calls added, in their order. -/
def added : List HistoryCall → List Entry
  | [] => []
  | .addToHistory e :: calls => e :: added calls
  | _ :: calls => added calls

/-! ## A hub that keeps every message -/

/-- `addToHistory` without the throwing away. -/
def Hub.record (h : Hub) (e : Entry) : Hub := { h with history := h.history ++ [e] }

/-- One call, on a hub that keeps every message. -/
def Hub.callKeeping (h : Hub) : HistoryCall → Hub
  | .addToHistory e => h.record e
  | call => h.call call

/-- A hub is like `full`, except that expired messages may be missing from its history. -/
structure Hub.Refines (h full : Hub) : Prop where
  same : h = { full with history := h.history }
  agrees : Agrees (fun e : Entry => e.msg.timestamp) h.cutoff h.history full.history

/-- Both hubs have the same clock, so the same cutoff. The retention time is the same on both, and
so is what counts as expired. -/
theorem Hub.Refines.cutoff_eq {h full : Hub} (href : h.Refines full) : h.cutoff = full.cutoff := by
  rw [href.same]
  rfl

/-- What a device is shown depends on the live messages only. Expired messages are filtered out when
the list is read, whether they have been pruned or not. -/
theorem Hub.historyFor_eq (h : Hub) (cutoff : ℤ) (deviceID : GoString) :
    h.historyFor cutoff deviceID = (live (fun e : Entry => e.msg.timestamp) cutoff h.history).filter
      fun e => e.msg.visibleTo deviceID := by
  unfold Hub.historyFor live
  rw [List.filter_filter]
  apply List.filter_congr
  intro e _
  exact Bool.and_comm ..

/-- Nobody is shown anything else because of the pruning. The hub that prunes and the hub that never
does agree on their live messages. -/
theorem Hub.Refines.historyFor_eq {h full : Hub} (href : h.Refines full) (deviceID : GoString) :
    h.historyFor h.cutoff deviceID = full.historyFor full.cutoff deviceID := by
  rw [Hub.historyFor_eq, Hub.historyFor_eq, ← href.cutoff_eq, href.agrees.live_eq]

/-- The history frame of the pruned hub is that of the one that never prunes. -/
theorem Hub.Refines.historyFrame_eq {h full : Hub} (href : h.Refines full) (deviceID : GoString) :
    h.historyFrame deviceID = full.historyFrame deviceID := by
  unfold Hub.historyFrame
  rw [href.historyFor_eq]

/-- Sending to a client does not depend on the history. The two can be exchanged, which lets the
refinement go through every call that sends. -/
theorem Hub.enqueueJSON_withHistory (h : Hub) (history : List Entry) (c : Conn) (f : Frame) :
    ({ h with history := history } : Hub).enqueueJSON c f =
      { h.enqueueJSON c f with history := history } := by
  by_cases hmem : c ∈ h.clients
  · simp only [Hub.enqueueJSON, Hub.trySend, if_pos hmem]
    split
    · rfl
    · split
      · rfl
      · split <;> rfl
  · simp only [Hub.enqueueJSON, if_neg hmem]

/-- Both hubs send the same to a client. The registered clients and their queues are the same on
both. -/
theorem Hub.Refines.enqueueJSON {h full : Hub} (href : h.Refines full) (c : Conn) (f : Frame) :
    (h.enqueueJSON c f).Refines (full.enqueueJSON c f) := by
  obtain ⟨conns, panicked, heq⟩ := h.enqueueJSON_frame c f
  obtain ⟨conns', panicked', heq'⟩ := full.enqueueJSON_frame c f
  refine ⟨?_, ?_⟩
  · have hsent : h.enqueueJSON c f = { full.enqueueJSON c f with history := h.history } := by
      rw [← Hub.enqueueJSON_withHistory, ← href.same]
    have hhistory : (h.enqueueJSON c f).history = h.history := by rw [heq]
    rw [hhistory]
    exact hsent
  · -- neither the clock nor a history has changed
    rw [heq, heq']
    exact href.agrees

/-- `sendHistory` has the same effect on both. The frame that is built is the same one, so the
queues stay equal. -/
theorem Hub.Refines.sendHistory {h full : Hub} (href : h.Refines full) (c : Conn) :
    (h.sendHistory c).Refines (full.sendHistory c) := by
  have hconns : h.conns = full.conns := by rw [href.same]
  unfold Hub.sendHistory
  rw [hconns]
  cases full.conns c with
  | none => exact href
  | some cl =>
      simp only [href.historyFrame_eq]
      cases full.historyFrame cl.device.id with
      | none => exact href
      | some f => exact href.enqueueJSON c f

/-- `addToHistory` throws away only what has expired. The live messages of both are extended by the
same entry. -/
theorem Hub.Refines.addToHistory {h full : Hub} (href : h.Refines full) (e : Entry) :
    (h.addToHistory e).Refines (full.record e) := by
  refine ⟨?_, ?_⟩
  · rw [Hub.addToHistory, href.same]
    rfl
  · exact href.agrees.prune.append [e]

/-- **The step theorem**: a call keeps the hubs alike. There is one case for each kind of call.
Ticks, joins and `sendHistory` do the same to both hubs; `addToHistory` prunes one of them. -/
theorem Hub.Refines.call {h full : Hub} (href : h.Refines full) (call : HistoryCall) :
    (h.call call).Refines (full.callKeeping call) := by
  cases call with
  | tick n =>
      refine ⟨?_, href.agrees.mono (h.cutoff_tick n)⟩
      show h.tick n = { full.tick n with history := h.history }
      rw [href.same]
      rfl
  | join c device =>
      refine ⟨?_, href.agrees⟩
      show h.join c device = { full.join c device with history := h.history }
      rw [href.same]
      rfl
  | addToHistory e => exact href.addToHistory e
  | sendHistory c => exact href.sendHistory c

/-! ## Runs -/

/-- Calls keep the hubs alike. The induction is on the list of calls, with the step theorem for
each. -/
theorem Hub.Refines.calls {h full : Hub} (href : h.Refines full) (calls : List HistoryCall) :
    (calls.foldl Hub.call h).Refines (calls.foldl Hub.callKeeping full) := by
  induction calls generalizing h full with
  | nil => exact href
  | cons call calls ih => exact ih (href.call call)

/-- `sendHistory` changes nothing but queues, unless the server panics. -/
theorem Hub.sendHistory_frame (h : Hub) (c : Conn) :
    ∃ conns panicked, h.sendHistory c = { h with conns := conns, panicked := panicked } := by
  unfold Hub.sendHistory
  split
  · exact ⟨_, _, rfl⟩
  · split
    · exact ⟨_, _, rfl⟩
    · exact h.enqueueJSON_frame c _

/-- A hub that keeps every message has those added. This is the reference against which what a
device is shown is stated. -/
theorem Hub.history_callKeeping (h : Hub) (calls : List HistoryCall) :
    (calls.foldl Hub.callKeeping h).history = h.history ++ added calls := by
  induction calls generalizing h with
  | nil => exact (List.append_nil _).symm
  | cons call calls ih =>
      rw [List.foldl_cons, ih]
      cases call with
      | tick n => rfl
      | join c device => rfl
      | addToHistory e =>
          show (h.history ++ [e]) ++ added calls = h.history ++ e :: added calls
          rw [List.append_assoc, List.singleton_append]
      | sendHistory c =>
          obtain ⟨conns, panicked, heq⟩ := h.sendHistory_frame c
          show (h.sendHistory c).history ++ added calls = h.history ++ added calls
          rw [heq]

/-- No call changes how long messages are kept. Together with the clock it fixes the cutoff after
any sequence of calls. -/
theorem Hub.historyTTL_callKeeping (h : Hub) (calls : List HistoryCall) :
    (calls.foldl Hub.callKeeping h).historyTTL = h.historyTTL := by
  induction calls generalizing h with
  | nil => rfl
  | cons call calls ih =>
      rw [List.foldl_cons, ih]
      cases call with
      | sendHistory c =>
          obtain ⟨conns, panicked, heq⟩ := h.sendHistory_frame c
          show (h.sendHistory c).historyTTL = h.historyTTL
          rw [heq]
      | _ => rfl

/-- **Pruned history refines the full log**: after any calls, the history frame for a device is made
of all the messages ever added that it may see and that are not older than `historyTTL`, in the
order they were added, and there is none when there is no such message. `sendHistory` enqueues this
frame to a connection and does nothing else. And apart from the history the hub is the one that keeps
every message, so that no queue depends on the pruning. -/
theorem sendHistory_refines (historyTTL now : Time) (calls : List HistoryCall) :
    let h := calls.foldl Hub.call { now, historyTTL }
    let shown := fun deviceID => (added calls).filter fun e =>
      decide (unix (h.now - historyTTL) ≤ e.msg.timestamp) && e.msg.visibleTo deviceID
    (∀ deviceID, h.historyFrame deviceID =
      match shown deviceID with
      | [] => none
      | msgs => some (.history msgs)) ∧
      (∀ c, h.sendHistory c =
        match h.conns c with
        | none => h
        | some cl =>
            match shown cl.device.id with
            | [] => h
            | msgs => h.enqueueJSON c (.history msgs)) ∧
      h = { calls.foldl Hub.callKeeping { now, historyTTL } with history := h.history } := by
  intro h shown
  have hboot : Hub.Refines { now, historyTTL } { now, historyTTL } := ⟨rfl, .refl⟩
  have href := hboot.calls calls
  have hall : (calls.foldl Hub.callKeeping { now, historyTTL }).history = added calls :=
    Hub.history_callKeeping _ calls
  have httl : h.historyTTL = historyTTL :=
    (congrArg Hub.historyTTL href.same).trans (Hub.historyTTL_callKeeping _ calls)
  have hcutoff : unix (h.now - historyTTL) =
      (calls.foldl Hub.callKeeping { now, historyTTL }).cutoff := by
    rw [← href.cutoff_eq, Hub.cutoff, httl]
  -- what `sendHistory` collects on the hub that keeps everything is what was added
  have hshown : ∀ deviceID, h.historyFor h.cutoff deviceID = shown deviceID := by
    intro deviceID
    show _ = (added calls).filter _
    rw [href.historyFor_eq, hcutoff, ← hall]
    rfl
  have hframe : ∀ deviceID, h.historyFrame deviceID =
      match shown deviceID with
      | [] => none
      | msgs => some (.history msgs) := by
    intro deviceID
    rw [Hub.historyFrame, hshown]
  refine ⟨hframe, fun c => ?_, href.same⟩
  rw [Hub.sendHistory]
  cases h.conns c with
  | none => rfl
  | some cl =>
      simp only [hframe]
      cases shown cl.device.id with
      | nil => rfl
      | cons e msgs => rfl

/-! ## The sections of a joining connection -/

/-- The sections with which a joining connection is shown the history, one right after the other,
are `sendHistory`. -/
theorem registerStep_sendHistory {cl : Client} (hc : h.conns t = some cl) :
    Relation.ReflTransGen (fun x y => registerStep t k x.1 x.2 = some (y.1, y.2, []))
      (h, .cutoff) (h.sendHistory t, .presence .devices) := by
  refine .head (b := (h, .snapshot h.cutoff)) rfl ?_
  unfold Hub.sendHistory Hub.historyFrame
  cases hmsgs : h.historyFor h.cutoff cl.device.id with
  | nil =>
      apply Relation.ReflTransGen.single
      simp [registerStep, hc, hmsgs]
  | cons e msgs =>
      refine .head (b := (h, .history (e :: msgs))) ?_ (.single ?_)
      · simp [registerStep, hc, hmsgs]
      · simp [registerStep, hc, hmsgs]

end LanRoom.Chat

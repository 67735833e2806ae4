import LanRoom.Chat.Effects
import LanRoom.Concurrency.ProofOutline

/-! # Proof outline of the hub

What holds of the hub and of every goroutine at its program point, in every interleaving:

* every chat message in the history, in a queue or in the hands of a goroutine is *authentic*: it
  was made by `SendMessage` from an incoming message and carries the device of the connection that
  read it;
* every chat message in the queue of a connection, or on its way there past the filter of `deliver`,
  is visible to the connection's device;
* the keys of `clients` are the connections whose channel is open, each of them once. -/

namespace LanRoom.Chat

open ThreadPool (Tid Machine Act Outline)
open Function (update)

variable {u : UUIDPackage} {t t' : Tid} {k : Choice} {h h' : Hub} {c c' : Conn} {cl cl' : Client}
  {f : Frame} {e : Entry} {device : Device} {th th' : Thread} {fs : List Thread}

/-! ## Assertions -/

/-- The chat messages in a frame. -/
def Frame.entries : Frame → List Entry
  | .history es => es
  | .message e => [e]
  | _ => []

/-- The entry is what `SendMessage` made of the incoming message with its number, on behalf of the
connection that read it. -/
def Authentic (u : UUIDPackage) (h : Hub) (e : Entry) : Prop :=
  ∃ (s : Conn) (m : ChatMessage) (cl : Client), h.accepted[e.seq]? = some (s, m) ∧
    h.conns s = some cl ∧ e.msg.sender = some cl.device ∧ e.msg.payload = m.payload ∧
    screen u cl.device m = some e.msg.toIDs

/-- The entry may be placed in the queue of a connection of the device. -/
def Fit (u : UUIDPackage) (h : Hub) (device : Device) (e : Entry) : Prop :=
  Authentic u h e ∧ e.msg.visibleTo device.id = true

/-- The **invariant of the hub**. -/
structure Inv (u : UUIDPackage) (h : Hub) : Prop where
  history : ∀ e ∈ h.history, Authentic u h e
  queue : ∀ c cl, h.conns c = some cl → ∀ f ∈ cl.placed, ∀ e ∈ f.entries, Fit u h cl.device e
  members : ∀ c, h.clients.count c = if (h.conns c).any (fun cl => !cl.closed) then 1 else 0

/-- The arguments of a call of `deliver`. -/
def DeliverPC.delivery : DeliverPC → Delivery
  | .lock d => d
  | .loop d _ => d

/-- The chat messages `broadcastPresence` has in hand. -/
def PresencePC.entries : PresencePC → List Entry
  | .devices => []
  | .deliver pc => pc.delivery.frame.entries

/-- The frame `deliverSlow` is still trying to send. -/
def SlowPC.pending (f : Frame) : SlowPC → List Frame
  | .start | .loop _ | .attempt _ | .sleep _ _ => [f]
  | _ => []

/-- The chat messages a goroutine has in hand. -/
def Thread.entries : Thread → List Entry
  | .register (.history msgs) => msgs
  | .register (.presence pc) => pc.entries
  | .readPump _ (.recipients e) => [e]
  | .readPump _ (.addToHistory e) => [e]
  | .readPump _ (.deliver pc) => pc.delivery.frame.entries
  | .readPump _ (.presence pc) => pc.entries
  | .slow _ _ (.presence pc) => pc.entries
  | .slow _ f pc => (pc.pending f).flatMap Frame.entries
  | _ => []

/-- The connection the messages in hand go to without a further check. -/
def Thread.addressee (t : Tid) : Thread → Option Conn
  | .register (.history _) => some t
  | .slow c f pc => if pc.pending f = [] then none else some c
  | _ => none

/-- The **assertion** of thread `t` at its program point. -/
structure Loc (u : UUIDPackage) (t : Tid) (h : Hub) (th : Thread) : Prop where
  authentic : ∀ e ∈ th.entries, Authentic u h e
  shown : ∀ c, th.addressee t = some c →
    ∃ cl, h.conns c = some cl ∧ ∀ e ∈ th.entries, e.msg.visibleTo cl.device.id = true
  fresh : ∀ device, th = .register (.start device) → h.conns t = none

/-- What a section of thread `t` **guarantees**: devices and accepted messages stay, and only `t`
itself can become a connection. -/
structure Grows (t : Tid) (h h' : Hub) : Prop where
  device : ∀ c cl, h.conns c = some cl → ∃ cl', h'.conns c = some cl' ∧ cl'.device = cl.device
  accepted : ∀ (n : ℕ) (x : Conn × ChatMessage), h.accepted[n]? = some x → h'.accepted[n]? = some x
  fresh : ∀ c, t ≠ c → h.conns c = none → h'.conns c = none

/-! ## Stability -/

/-- A section that touches neither the connections nor the accepted messages. -/
theorem Grows.of_eq (hconns : h'.conns = h.conns) (hacc : h'.accepted = h.accepted) :
    Grows t h h' where
  device c cl hc := ⟨cl, by rw [hconns]; exact hc, rfl⟩
  accepted n x hx := by rw [hacc]; exact hx
  fresh c _ hc := by rw [hconns]; exact hc

/-- A client may change as long as its device stays. Queues may be filled and emptied and channels
closed; who the connection belongs to is fixed. -/
theorem Grows.setClient (hc : h.conns c = some cl) (hdevice : cl'.device = cl.device) :
    Grows t h (h.setClient c cl') where
  device c₁ cl₁ h₁ := by
    by_cases heq : c₁ = c
    · subst heq
      obtain rfl := Option.some.inj (hc.symm.trans h₁)
      exact ⟨cl', Hub.setClient_self, hdevice⟩
    · exact ⟨cl₁, (Hub.setClient_of_ne heq).trans h₁, rfl⟩
  accepted n x hx := hx
  fresh c₁ _ h₁ := by
    have hne : c₁ ≠ c := by
      rintro rfl
      rw [hc] at h₁
      cases h₁
    exact (Hub.setClient_of_ne hne).trans h₁

/-- A connection that joins was not one before. Thread identifiers are not used twice, so no client
record is overwritten. -/
theorem Grows.join (hnone : h.conns t = none) : Grows t h (h.join t device) where
  device c cl hc := by
    have hne : c ≠ t := by
      rintro rfl
      rw [hnone] at hc
      cases hc
    exact ⟨cl, (Hub.join_of_ne device hne).trans hc, rfl⟩
  accepted n x hx := hx
  fresh c hne hc := (Hub.join_of_ne device (Ne.symm hne)).trans hc

/-- A connection that leaves keeps its device. Its record stays with the channel closed, so the
messages it sent keep their sender. -/
theorem Grows.remove (hc : h.conns c = some cl) : Grows t h (h.remove c cl) :=
  have hgrow : Grows t h (h.setClient c { cl with closed := true }) := .setClient hc rfl
  ⟨hgrow.device, hgrow.accepted, hgrow.fresh⟩

/-- Accepting a message only appends to the accepted ones. The number of a message is its place in
that list, so it keeps its meaning. -/
theorem Grows.accept (c : Conn) (m : ChatMessage) : Grows t h (h.accept c m) where
  device c₁ cl₁ h₁ := ⟨cl₁, h₁, rfl⟩
  accepted n x hx := by
    show (h.accepted ++ [(c, m)])[n]? = some x
    rw [List.getElem?_append_left (List.getElem?_eq_some_iff.mp hx).1]
    exact hx
  fresh _ _ hc := hc

/-- A message stays authentic: its sender and the accepted message it was built from do not go away.
-/
theorem Authentic.mono (hgrow : Grows t h h') (he : Authentic u h e) : Authentic u h' e := by
  obtain ⟨s, m, cl, hacc, hs, hsender, hpayload, hscreen⟩ := he
  obtain ⟨cl', hs', hdevice⟩ := hgrow.device s cl hs
  exact ⟨s, m, cl', hgrow.accepted _ _ hacc, hs', by rw [hdevice]; exact hsender, hpayload,
    by rw [hdevice]; exact hscreen⟩

/-- A message that fits a device keeps fitting it. The number it refers to and the device of its
sender are still there. -/
theorem Fit.mono (hgrow : Grows t h h') (he : Fit u h device e) : Fit u h' device e :=
  ⟨he.1.mono hgrow, he.2⟩

/-- **What a goroutine knows survives the sections of the others.** The hub only grows in what is
asserted, and a connection that this goroutine is about to make is made by nobody else. -/
theorem Loc.stable (htu : t ≠ t') (hgrow : Grows t h h') (hloc : Loc u t' h th) :
    Loc u t' h' th where
  authentic e he := (hloc.authentic e he).mono hgrow
  shown c hc := by
    obtain ⟨cl, hcl, hall⟩ := hloc.shown c hc
    obtain ⟨cl', hcl', hdevice⟩ := hgrow.device c cl hcl
    exact ⟨cl', hcl', by rw [hdevice]; exact hall⟩
  fresh device hth := hgrow.fresh t' htu (hloc.fresh device hth)

/-! ## What the sections do to the invariant -/

/-- The invariant only looks at queues, history and membership. A section that changes other parts
of the hub keeps it by this. -/
theorem Inv.of_eq (hinv : Inv u h) (hconns : h'.conns = h.conns) (hacc : h'.accepted = h.accepted)
    (hclients : h'.clients = h.clients)
    (hhistory : ∀ e ∈ h'.history, e ∈ h.history ∨ Authentic u h e) : Inv u h' := by
  have hgrow : Grows 0 h h' := .of_eq hconns hacc
  refine ⟨fun e he => ?_, fun c cl hc f hf e he => ?_, fun c => ?_⟩
  · rcases hhistory e he with hold | hnew
    · exact (hinv.history e hold).mono hgrow
    · exact hnew.mono hgrow
  · rw [hconns] at hc
    exact (hinv.queue c cl hc f hf e he).mono hgrow
  · rw [hconns, hclients]
    exact hinv.members c

/-- The queues stay fit when a client changes whose device stays and whose queue is fit. -/
theorem Inv.queue_update (hinv : Inv u h) (hc : h.conns c = some cl)
    (hdevice : cl'.device = cl.device) (hplaced : ∀ f ∈ cl'.placed, ∀ e ∈ f.entries, Fit u h cl.device e)
    (hself : h'.conns c = some cl') (hother : ∀ c', c' ≠ c → h'.conns c' = h.conns c') :
    ∀ c' cl₁, h'.conns c' = some cl₁ → ∀ f ∈ cl₁.placed, ∀ e ∈ f.entries, Fit u h cl₁.device e := by
  intro c' cl₁ h₁
  by_cases heq : c' = c
  · subst heq
    obtain rfl := Option.some.inj (hself.symm.trans h₁)
    rw [hdevice]
    exact hplaced
  · exact hinv.queue c' cl₁ ((hother c' heq).symm.trans h₁)

/-- A client may change as long as its device stays, its channel stays open or closed, and its queue
stays fit for it. -/
theorem Inv.setClient (hinv : Inv u h) (hc : h.conns c = some cl) (hdevice : cl'.device = cl.device)
    (hclosed : cl'.closed = cl.closed)
    (hplaced : ∀ f ∈ cl'.placed, ∀ e ∈ f.entries, Fit u h cl.device e) :
    Inv u (h.setClient c cl') := by
  have hgrow : Grows c h (h.setClient c cl') := .setClient hc hdevice
  have hqueue := hinv.queue_update hc hdevice hplaced (Hub.setClient_self (h := h))
    fun _ => Hub.setClient_of_ne
  refine ⟨fun e he => (hinv.history e he).mono hgrow, fun c₁ cl₁ h₁ f hf e he =>
    (hqueue c₁ cl₁ h₁ f hf e he).mono hgrow, fun c₁ => ?_⟩
  have hany : ((h.setClient c cl').conns c₁).any (fun cl => !cl.closed) =
      (h.conns c₁).any fun cl => !cl.closed := by
    by_cases heq : c₁ = c
    · subst heq
      simp [hc, hclosed]
    · rw [Hub.setClient_of_ne heq]
  rw [hany]
  exact hinv.members c₁

/-- A fit frame may be added to a queue. It is the only way in which a queue grows. -/
theorem Inv.push (hinv : Inv u h) (hc : h.conns c = some cl)
    (hfit : ∀ e ∈ f.entries, Fit u h cl.device e) : Inv u (h.setClient c (cl.push f)) := by
  refine hinv.setClient hc rfl rfl fun g hg e he => ?_
  rw [Client.push_placed, List.mem_append, List.mem_singleton] at hg
  rcases hg with hold | rfl
  · exact hinv.queue c cl hc g hold e he
  · exact hfit e he

/-- Whatever a send does, it keeps the invariant if the frame is fit for the client. -/
theorem Inv.trySend (hinv : Inv u h) {ok : Bool} (hsend : h.trySend c f = (h', ok))
    (hfit : ∀ cl, h.conns c = some cl → ∀ e ∈ f.entries, Fit u h cl.device e) :
    Inv u h' ∧ Grows t h h' := by
  cases ok with
  | true =>
      obtain ⟨cl, hc, -, -, rfl⟩ := Hub.trySend_true hsend
      exact ⟨hinv.push hc (hfit cl hc), .setClient hc rfl⟩
  | false =>
      rcases Hub.trySend_false hsend with ⟨rfl, -⟩ | ⟨rfl, -⟩
      · exact ⟨hinv, .of_eq rfl rfl⟩
      · exact ⟨hinv.of_eq rfl rfl rfl fun e he => .inl he, .of_eq rfl rfl⟩

/-- Enqueueing a frame preserves the invariant when its messages fit the client it is enqueued for.
-/
theorem Inv.enqueueJSON (hinv : Inv u h)
    (hfit : ∀ cl, h.conns c = some cl → ∀ e ∈ f.entries, Fit u h cl.device e) :
    Inv u (h.enqueueJSON c f) ∧ Grows t h (h.enqueueJSON c f) := by
  unfold Hub.enqueueJSON
  split
  · exact hinv.trySend (Prod.eta _).symm hfit
  · exact ⟨hinv, .of_eq rfl rfl⟩

/-- A client joins with an empty queue. The empty queue asks for nothing, and the new member has an
open channel. -/
theorem Inv.join (hinv : Inv u h) (hnone : h.conns t = none) : Inv u (h.join t device) := by
  have hgrow : Grows t h (h.join t device) := .join hnone
  refine ⟨fun e he => (hinv.history e he).mono hgrow, fun c cl hc f hf e he => ?_, fun c => ?_⟩
  · by_cases heq : c = t
    · subst heq
      obtain rfl := Option.some.inj ((Hub.join_self device).symm.trans hc)
      cases hf
    · have hold : h.conns c = some cl := (Hub.join_of_ne device heq).symm.trans hc
      exact (hinv.queue c cl hold f hf e he).mono hgrow
  · have hcount := hinv.members c
    show (h.clients ++ [t]).count c = _
    rw [List.count_append, hcount]
    by_cases heq : c = t
    · subst heq
      simp [hnone]
    · rw [Hub.join_of_ne device heq]
      simp [Ne.symm heq]

/-- A registered connection has an open channel. A send from under the read lock can therefore not
hit a closed channel. -/
theorem Inv.of_mem (hinv : Inv u h) (hmem : c ∈ h.clients) :
    ∃ cl, h.conns c = some cl ∧ cl.closed = false := by
  have hpos : 0 < h.clients.count c := List.count_pos_iff.mpr hmem
  have hcount := hinv.members c
  cases hc : h.conns c with
  | none => simp [hc, hcount] at hpos
  | some cl =>
      refine ⟨cl, rfl, ?_⟩
      by_contra hclosed
      rw [Bool.not_eq_false] at hclosed
      simp only [hc, Option.any_some, hclosed, Bool.not_true, Bool.false_eq_true, if_false] at hcount
      omega

/-- A connection whose channel is open is registered, once. The other direction of the same
equivalence; it excludes a second registration. -/
theorem Inv.count_of_open (hinv : Inv u h) (hc : h.conns c = some cl) (hopen : cl.closed = false) :
    h.clients.count c = 1 := by
  rw [hinv.members c, hc]
  simp [hopen]

/-- A client that leaves keeps its queue; no message is lost or added. -/
theorem Inv.unregister (hinv : Inv u h) {ok : Bool} (hleave : h.unregister c = (h', ok)) :
    Inv u h' ∧ Grows t h h' := by
  cases ok with
  | false =>
      obtain ⟨-, rfl⟩ := Hub.unregister_false hleave
      exact ⟨hinv, .of_eq rfl rfl⟩
  | true =>
      obtain ⟨hmem, heq⟩ := Hub.unregister_true hleave
      obtain ⟨cl, hc, hopen⟩ := hinv.of_mem hmem
      obtain rfl := heq cl hc
      have hgrow : Grows t h (h.remove c cl) := .remove hc
      have hself : (h.remove c cl).conns c = some { cl with closed := true } := Hub.remove_self
      have hdevice : ({ cl with closed := true } : Client).device = cl.device := rfl
      have hqueue := hinv.queue_update hc hdevice (hinv.queue c cl hc) hself fun _ => Hub.remove_of_ne
      refine ⟨⟨fun e he => (hinv.history e he).mono hgrow, fun c₁ cl₁ h₁ f hf e he =>
        (hqueue c₁ cl₁ h₁ f hf e he).mono hgrow, fun c₁ => ?_⟩, hgrow⟩
      show (h.clients.erase c).count c₁ = _
      by_cases heq : c₁ = c
      · subst heq
        rw [List.count_erase_self, hinv.count_of_open hc hopen]
        simp
      · rw [List.count_erase_of_ne heq, Hub.remove_of_ne heq]
        exact hinv.members c₁

/-! ## Sections keep the assertions -/

/-- The messages in hand while `broadcastPresence` runs. These are none, since a presence frame
carries no chat message. -/
@[simp] theorem PresenceCaller.entries_thread (p : PresenceCaller) (pc : PresencePC) :
    (p.thread pc).entries = pc.entries := by
  cases p <;> rfl

/-- A caller of an announcement holds no message when it goes on. -/
@[simp] theorem PresenceCaller.entries_back (p : PresenceCaller) : p.back.entries = [] := by
  cases p <;> rfl

/-- An announcement is not addressed to one connection. Its frame goes to every client, so there is
no one for whom it must be fit. -/
@[simp] theorem PresenceCaller.addressee_thread (p : PresenceCaller) (pc : PresencePC) :
    (p.thread pc).addressee t = none := by
  cases p <;> rfl

/-- A caller that goes on addresses nobody. Only a snapshot of the history and a frame that is
retried have an addressee. -/
@[simp] theorem PresenceCaller.addressee_back (p : PresenceCaller) : p.back.addressee t = none := by
  cases p <;> rfl

/-- The messages in hand while `deliver` runs. The message of a broadcast has to stay authentic
while clients come and go. -/
@[simp] theorem Caller.entries_thread (p : Caller) (pc : DeliverPC) :
    (p.thread pc).entries = pc.delivery.frame.entries := by
  cases p with
  | send c => rfl
  | presence p => exact p.entries_thread (.deliver pc)

/-- A caller holds no message when its delivery is over. So nothing about messages has to be shown
of it. -/
@[simp] theorem Caller.entries_back (p : Caller) : p.back.entries = [] := by
  cases p with
  | send c => rfl
  | presence p => exact p.entries_back

/-- A delivery is not addressed to one connection. Who it is for is decided client by client, by the
filter. -/
@[simp] theorem Caller.addressee_thread (p : Caller) (pc : DeliverPC) :
    (p.thread pc).addressee t = none := by
  cases p with
  | send c => rfl
  | presence p => exact p.addressee_thread _

/-- A caller addresses nobody when its delivery is over. What it does next concerns its own
connection only. -/
@[simp] theorem Caller.addressee_back (p : Caller) : p.back.addressee t = none := by
  cases p with
  | send c => rfl
  | presence p => exact p.addressee_back

/-- No thread in or after a call of `deliver` is at the start of a `Register`. -/
theorem Caller.thread_ne_start (p : Caller) (pc : DeliverPC) (device : Device) :
    p.thread pc ≠ .register (.start device) := by
  rcases p with _ | _ | _ | _ <;> exact nofun

/-- No caller goes on by registering. Only a connection that arrives stands at that program point,
and it has no client record yet. -/
theorem PresenceCaller.back_ne_start (p : PresenceCaller) (device : Device) :
    p.back ≠ .register (.start device) := by
  rcases p with _ | _ | _ <;> exact nofun

/-- No caller goes on by registering. It is the same fact for both kinds of callers, as the local
assertion needs it. -/
theorem Caller.back_ne_start (p : Caller) (device : Device) :
    p.back ≠ .register (.start device) := by
  cases p with
  | send c => exact nofun
  | presence p => exact p.back_ne_start device

/-- A thread with no message in hand, which is not about to register, asserts nothing. -/
theorem Loc.of_nil (hentries : th.entries = []) (haddressee : th.addressee t = none)
    (hstart : ∀ device, th ≠ .register (.start device)) : Loc u t h th where
  authentic e he := by
    rw [hentries] at he
    cases he
  shown c hc := by
    rw [haddressee] at hc
    cases hc
  fresh device hth := absurd hth (hstart device)

/-- A thread whose messages in hand still have to pass a filter asserts that they are authentic. -/
theorem Loc.of_filtered (hauth : ∀ e ∈ th.entries, Authentic u h e)
    (haddressee : th.addressee t = none) (hstart : ∀ device, th ≠ .register (.start device)) :
    Loc u t h th where
  authentic := hauth
  shown c hc := by
    rw [haddressee] at hc
    cases hc
  fresh device hth := absurd hth (hstart device)

/-- A `deliver` that is still running asserts what it asserted before. -/
theorem Loc.deliver {p : Caller} {pc pc' : DeliverPC} (hgrow : Grows t h h')
    (hloc : Loc u t h (p.thread pc)) (hsame : pc'.delivery = pc.delivery) :
    Loc u t h' (p.thread pc') := by
  refine .of_filtered (fun e he => ?_) (p.addressee_thread pc') (p.thread_ne_start pc')
  rw [p.entries_thread, hsame, ← p.entries_thread] at he
  exact (hloc.authentic e he).mono hgrow

/-- What passes the filter of `deliver` is fit for the client. The filter of a chat message is
`visibleTo`; a presence frame has no entries. -/
theorem Delivery.fit {d : Delivery} (hauth : ∀ e ∈ d.frame.entries, Authentic u h e)
    (hpass : d.passes device = true) : ∀ e ∈ d.frame.entries, Fit u h device e := by
  intro e he
  refine ⟨hauth e he, ?_⟩
  cases d with
  | message e' =>
      obtain rfl := List.mem_singleton.mp he
      exact hpass
  | presence seq users => cases he

/-- A goroutine of `deliverSlow` that still tries asserts that its frame is fit for its client. -/
theorem Loc.slow_fit {pc : SlowPC} (hloc : Loc u t h (.slow c f pc)) (hpc : pc.pending f = [f]) :
    ∀ cl, h.conns c = some cl → ∀ e ∈ f.entries, Fit u h cl.device e := by
  intro cl hc e he
  have hentries : e ∈ (Thread.slow c f pc).entries := by
    cases pc <;> simp_all [SlowPC.pending, Thread.entries]
  have haddressee : (Thread.slow c f pc).addressee t = some c := by
    simp [Thread.addressee, hpc]
  obtain ⟨cl', hc', hall⟩ := hloc.shown c haddressee
  obtain rfl := Option.some.inj (hc.symm.trans hc')
  exact ⟨hloc.authentic e hentries, hall e hentries⟩

/-- A `deliverSlow` that still tries asserts what it asserted before. -/
theorem Loc.slow {pc pc' : SlowPC} (hgrow : Grows t h h') (hloc : Loc u t h (.slow c f pc))
    (hpc : pc.pending f = [f]) (hpc' : pc'.pending f = [f]) : Loc u t h' (.slow c f pc') := by
  have hentries : ∀ pc : SlowPC, pc.pending f = [f] → (Thread.slow c f pc).entries = f.entries := by
    intro pc hpc
    cases pc <;> simp_all [SlowPC.pending, Thread.entries]
  obtain ⟨cl, hc, hall⟩ := hloc.shown c (by simp [Thread.addressee, hpc])
  obtain ⟨cl', hc', hdevice⟩ := hgrow.device c cl hc
  rw [hentries pc hpc] at hall
  refine ⟨fun e he => ?_, fun c₁ h₁ => ?_, nofun⟩
  · rw [hentries pc' hpc', ← hentries pc hpc] at he
    exact (hloc.authentic e he).mono hgrow
  · obtain rfl : c = c₁ := by simpa [Thread.addressee, hpc'] using h₁
    refine ⟨cl', hc', fun e he => ?_⟩
    rw [hentries pc' hpc'] at he
    rw [hdevice]
    exact hall e he

/-- What an outline asks of a section of thread `t`. -/
structure Sound (u : UUIDPackage) (t : Tid) (h h' : Hub) (th' : Thread) (fs : List Thread) : Prop where
  inv : Inv u h'
  grows : Grows t h h'
  loc : Loc u t h' th'
  forks : ∀ f ∈ fs, ∀ v, Loc u v h' f

/-- A section that starts no goroutine. The assertions at all program points but the one of the
thread that moves are kept by `Grows`. -/
theorem Sound.of_loc (hhub : Inv u h' ∧ Grows t h h') (hloc : Loc u t h' th') :
    Sound u t h h' th' [] :=
  ⟨hhub.1, hhub.2, hloc, fun _ hf => absurd hf List.not_mem_nil⟩

/-- A section after which the thread has no message in hand. Then the assertion at its new program
point holds by itself. -/
theorem Sound.of_nil (hhub : Inv u h' ∧ Grows t h h') (hentries : th'.entries = [])
    (haddressee : th'.addressee t = none) (hstart : ∀ device, th' ≠ .register (.start device)) :
    Sound u t h h' th' [] :=
  .of_loc hhub (.of_nil hentries haddressee hstart)

/-- A section that does not touch queues, history and membership. -/
theorem Inv.grows_of_eq (hinv : Inv u h) (hconns : h'.conns = h.conns)
    (hacc : h'.accepted = h.accepted) (hclients : h'.clients = h.clients)
    (hhistory : h'.history = h.history) : Inv u h' ∧ Grows t h h' :=
  ⟨hinv.of_eq hconns hacc hclients fun _ he => .inl (hhistory ▸ he), .of_eq hconns hacc⟩

/-- `deliver` comes to a client that passes the filter. Either the queue takes the frame, or a
`deliverSlow` starts with a frame that is fit for the client. -/
theorem Loc.sent_sound {p : Caller} {d : Delivery} {rest : List Conn} {ok : Bool} (hinv : Inv u h)
    (hloc : Loc u t h (p.thread (.loop d (c :: rest)))) (hc : h.conns c = some cl)
    (hpass : d.passes cl.device = true) (hsend : h.trySend c d.frame = (h', ok)) :
    (Inv u h' ∧ Grows t h h') ∧ ∀ v, Loc u v h' (.slow c d.frame .start) := by
  have hauth : ∀ e ∈ d.frame.entries, Authentic u h e := by
    intro e he
    refine hloc.authentic e ?_
    rw [p.entries_thread]
    exact he
  have hfit := Delivery.fit hauth hpass
  have hsound : Inv u h' ∧ Grows t h h' := hinv.trySend hsend fun cl' hc' => by
    obtain rfl := Option.some.inj (hc.symm.trans hc')
    exact hfit
  refine ⟨hsound, fun v => ⟨fun e he => ?_, fun c₁ h₁ => ?_, nofun⟩⟩
  · rw [show (Thread.slow c d.frame .start).entries = d.frame.entries from List.append_nil _] at he
    exact (hauth e he).mono hsound.2
  · obtain rfl : c = c₁ := Option.some.inj h₁
    obtain ⟨cl', hc', hdevice⟩ := hsound.2.device c cl hc
    refine ⟨cl', hc', fun e he => ?_⟩
    rw [show (Thread.slow c d.frame .start).entries = d.frame.entries from List.append_nil _] at he
    rw [hdevice]
    exact (hfit e he).2

/-- `sendHistory` has collected the messages. Each of them is authentic, being in the history, and
visible to the device by the filter. -/
theorem Loc.snapshot (hinv : Inv u h) (hc : h.conns t = some cl) (cutoff : ℤ) :
    Loc u t h (.register (.history (h.historyFor cutoff cl.device.id))) := by
  refine ⟨fun e he => ?_, fun c h₁ => ?_, nofun⟩
  · exact hinv.history e (List.mem_filter.mp he).1
  · obtain rfl : t = c := Option.some.inj h₁
    refine ⟨cl, hc, fun e he => ?_⟩
    exact (Bool.and_eq_true _ _ |>.mp (List.mem_filter.mp he).2).2

/-- `SendMessage` starts with an authentic message. Its number is the next one, so the accepted
message is found under it. -/
theorem Authentic.entry {m : ChatMessage} {toIDs : List GoString} (hc : h.conns c = some cl)
    (hscreen : screen u cl.device m = some toIDs) :
    Authentic u (h.accept c m) (h.entry cl toIDs m) :=
  ⟨c, m, cl, List.getElem?_concat_length .., hc, rfl, rfl, hscreen⟩

/-- `addToHistory` keeps the invariant. Pruning only removes entries, and the new one is
authentic. -/
theorem Inv.addToHistory (hinv : Inv u h) (hauth : Authentic u h e) : Inv u (h.addToHistory e) := by
  refine hinv.of_eq rfl rfl rfl fun e' he => ?_
  rcases List.mem_append.mp he with hold | hnew
  · exact .inl (List.mem_filter.mp hold).1
  · obtain rfl := List.mem_singleton.mp hnew
    exact .inr hauth

/-- **Soundness of one section.** It preserves the invariant, grows the hub, and establishes what
its own goroutine and those it starts know from there on. The cases that matter are those in which a
message is made, enters the history or is enqueued. -/
theorem step_sound (hinv : Inv u h) (hloc : Loc u t h th) (heffect : Effect u t h th h' th' fs) :
    Sound u t h h' th' fs := by
  have hsame : Inv u h ∧ Grows t h h := ⟨hinv, .of_eq rfl rfl⟩
  cases heffect with
  | locked hperm =>
      have hlock : Inv u h.rLock ∧ Grows t h h.rLock := hinv.grows_of_eq rfl rfl rfl rfl
      exact .of_loc hlock (hloc.deliver hlock.2 rfl)
  | @unlocked p d =>
      have hunlock : Inv u h.rUnlock ∧ Grows t h h.rUnlock := hinv.grows_of_eq rfl rfl rfl rfl
      refine ⟨hunlock.1, hunlock.2, .of_nil p.entries_back p.addressee_back p.back_ne_start, ?_⟩
      intro f hf v
      -- the goroutines started here have no message yet
      rcases p with _ | _ | _ | _ <;> simp only [Caller.forks, PresenceCaller.forks, List.mem_cons,
        List.not_mem_nil, or_false] at hf
      rcases hf with rfl | rfl <;> exact .of_nil rfl rfl (fun _ heq => by cases heq)
  | skipped hc hskip => exact .of_loc hsame (hloc.deliver hsame.2 rfl)
  | sent hc hpass hsend =>
      have hsent := (hloc.sent_sound hinv hc hpass hsend).1
      exact .of_loc hsent (hloc.deliver hsent.2 rfl)
  | forked hc hpass hsend =>
      obtain ⟨hsent, hslow⟩ := hloc.sent_sound hinv hc hpass hsend
      refine ⟨hsent.1, hsent.2, hloc.deliver hsent.2 rfl, fun f hf v => ?_⟩
      obtain rfl := List.mem_singleton.mp hf
      exact hslow v
  | @devices p clients hperm =>
      have hannounce : Inv u h.announce ∧ Grows t h h.announce := hinv.grows_of_eq rfl rfl rfl rfl
      exact .of_nil hannounce (p.entries_thread _) (p.addressee_thread _)
        (Caller.thread_ne_start (.presence p) _)
  | joined hfree =>
      have hnone := hloc.fresh _ rfl
      exact .of_nil ⟨hinv.join hnone, .join hnone⟩ rfl rfl (fun _ heq => by cases heq)
  | welcomed hc =>
      exact .of_nil (hinv.enqueueJSON fun _ _ _ he => absurd he List.not_mem_nil) rfl rfl (fun _ heq => by cases heq)
  | snapshot hc hne => exact .of_loc hsame (.snapshot hinv hc _)
  | replayed =>
      obtain ⟨cl, hc, hall⟩ := hloc.shown t rfl
      refine .of_nil (hinv.enqueueJSON fun cl' hc' e he => ?_) rfl rfl (fun _ heq => by cases heq)
      obtain rfl := Option.some.inj (hc.symm.trans hc')
      exact ⟨hloc.authentic e he, hall e he⟩
  -- the message is built from the device of its connection and from what it accepts
  | @accepted c cl m toIDs hc hscreen =>
      have hgrow : Grows t h (h.accept c m) := .accept c m
      have hinv' : Inv u (h.accept c m) :=
        ⟨fun e he => (hinv.history e he).mono hgrow, fun c₁ cl₁ h₁ f hf e he =>
          (hinv.queue c₁ cl₁ h₁ f hf e he).mono hgrow, hinv.members⟩
      refine .of_loc ⟨hinv', hgrow⟩ ?_
      split <;> refine .of_filtered (fun e he => ?_) rfl (fun _ heq => by cases heq)
      · obtain rfl := List.mem_singleton.mp he
        exact .entry hc hscreen
      · obtain rfl := List.mem_singleton.mp he
        exact .entry hc hscreen
  | @recipients c e =>
      refine .of_loc hsame (.of_filtered (fun e' he => ?_) rfl (fun _ heq => by cases heq))
      obtain rfl := List.mem_singleton.mp he
      exact hloc.authentic e (List.mem_singleton.mpr rfl)
  | @addedToHistory c e hfree =>
      have hauth : Authentic u h e := hloc.authentic e (List.mem_singleton.mpr rfl)
      -- the message enters the history, and from there it can be replayed
      have hgrow : Grows t h (h.addToHistory e) := .of_eq rfl rfl
      refine .of_loc ⟨hinv.addToHistory hauth, hgrow⟩ (.of_filtered (fun e' he => ?_) rfl (fun _ heq => by cases heq))
      obtain rfl := List.mem_singleton.mp he
      exact hauth.mono hgrow
  | left hfree hleave | hadLeft hfree hleave | slowKicked hfree hleave | slowHadLeft hfree hleave =>
      exact .of_nil (hinv.unregister hleave) rfl rfl (fun _ heq => by cases heq)
  | slowStarted | slowContinued htime | slowWoke htime =>
      exact .of_loc hsame (hloc.slow hsame.2 rfl rfl)
  | slowSent hmem hsend =>
      exact .of_nil (hinv.trySend hsend (hloc.slow_fit rfl)) rfl rfl (fun _ heq => by cases heq)
  | slowFull hmem hsend =>
      have hsent := hinv.trySend (t := t) hsend (hloc.slow_fit rfl)
      exact .of_loc hsent (hloc.slow hsent.2 rfl rfl)
  | @took c cl f rest hc hsend =>
      refine .of_nil ⟨hinv.setClient hc rfl rfl fun g hg => hinv.queue c cl hc g ?_,
        .setClient hc rfl⟩ rfl rfl (fun _ heq => by cases heq)
      simpa [Client.placed, hsend] using hg
  | cutoff | noHistory hc hnil | failed | ignored | slowTimedOut htime | slowGone hmem
  | slowStill hmem | slowMissed hmem | writeEnded => exact .of_nil hsame rfl rfl (fun _ heq => by cases heq)

/-! ## The outline -/

/-- The **proof outline** of the hub. -/
def outline (u : UUIDPackage) : Outline (machine u) Unit where
  starts th := ∃ device, th = .register (.start device)
  inv _ h := Inv u h
  loc t _ h th := Loc u t h th
  fresh t _ h := h.conns t = none
  guar t _ h _ h' := Grows t h h'
  move _ _ := False
  starts_loc _ hfresh hstart := by
    obtain ⟨device, rfl⟩ := hstart
    exact ⟨nofun, nofun, fun _ _ => hfresh⟩
  env_inv _ hinv := hinv.of_eq rfl rfl rfl fun _ he => .inl he
  env_loc _ _ hloc := ⟨hloc.authentic, hloc.shown, hloc.fresh⟩
  env_fresh _ hfresh := hfresh
  step_sound hinv hloc hstep := by
    have hsound := LanRoom.Chat.step_sound hinv hloc (.of_step hstep)
    exact ⟨(), hsound.inv, hsound.loc, hsound.grows, .refl, fun f hf v _ => hsound.forks f hf v⟩
  stable htu _ _ hgrow hloc := hloc.stable htu hgrow
  fresh_stable htu hgrow hfresh := hgrow.fresh _ htu hfresh

/-- The outline holds after start-up. There are no connections, no messages and no goroutines. -/
theorem valid_boot (u : UUIDPackage) (historyTTL now : LanRoom.Upload.Time) :
    (outline u).Valid () (boot historyTTL now) where
  inv := ⟨nofun, nofun, fun _ => rfl⟩
  loc t th hth := by simp [boot] at hth
  fresh _ _ := rfl

/-- **The outline holds in every configuration the hub can get into.** It is the rule of the
outlines applied to the hub: start-up satisfies it, arrivals keep it, and each section is sound. -/
theorem Reachable.valid {c : ThreadPool.Config Hub Thread} (hreach : Reachable u c) :
    (outline u).Valid () c := by
  obtain ⟨historyTTL, now, hrun⟩ := hreach
  obtain ⟨_, hvalid, _⟩ :=
    Outline.valid_run (O := outline u) (fun _ _ harrive => harrive) (valid_boot u historyTTL now) hrun
  exact hvalid

end LanRoom.Chat

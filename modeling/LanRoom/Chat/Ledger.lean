import LanRoom.Chat.Locking

/-! # The ledger of a connection

What has been placed in the queue of a connection, and what the goroutines will still place there.
A section moves a frame from the second to the first (`Effect.ledger`), and the frames of one
message, or of one `broadcastPresence`, never are more than one (`Reachable.unique`). -/

namespace LanRoom.Chat

open ThreadPool (Tid Machine Act Outline)

variable {u : UUIDPackage} {t : Tid} {k : Choice} {h h' : Hub} {c c' : Conn} {cl cl' : Client}
  {f : Frame} {th th' : Thread} {fs : List Thread} {d : ThreadPool.Config Hub Thread}
  {q : Frame → Bool} {ok : Bool}

/-! ## Placed frames -/

/-- Every frame ever placed in the queue of the connection `c`. -/
def Hub.placed (h : Hub) (c : Conn) : List Frame := ((h.conns c).map Client.placed).getD []

/-- What has been placed for a connection is what its client has taken and what is still queued. -/
theorem Hub.placed_of_conn (hc : h.conns c = some cl) : h.placed c = cl.placed := by
  rw [placed, hc]
  rfl

/-- For a connection nobody has made nothing has been placed. It is the start of every account of
what a queue has been given. -/
theorem Hub.placed_of_none (hc : h.conns c = none) : h.placed c = [] := by
  rw [placed, hc]
  rfl

/-- Changing one client. The account of that client grows by what is appended, and all others
stay. -/
theorem Hub.placed_setClient (hc : h.conns c = some cl) (fs : List Frame)
    (hplaced : cl'.placed = cl.placed ++ fs) (c' : Conn) :
    (h.setClient c cl').placed c' = h.placed c' ++ (if c' = c then fs else []) := by
  by_cases heq : c' = c
  · subst heq
    rw [placed_of_conn setClient_self, hplaced, placed_of_conn hc, if_pos rfl]
  · rw [if_neg heq, List.append_nil, placed, setClient_of_ne heq, placed]

/-- A send places the frame if it succeeds. A failed send leaves every account as it was. -/
theorem Hub.trySend_placed (hsend : h.trySend c f = (h', ok)) (c' : Conn) :
    h'.placed c' = h.placed c' ++ (if ok = true ∧ c' = c then [f] else []) := by
  cases ok with
  | true =>
      obtain ⟨cl, hc, -, -, rfl⟩ := Hub.trySend_true hsend
      rw [placed_setClient hc [f] (cl.push_placed f)]
      simp
  | false =>
      rcases Hub.trySend_false hsend with ⟨rfl, -⟩ | ⟨rfl, -⟩ <;> simp [placed]

/-- `enqueueJSON` sends the frame, or places nothing. The second case is the only one in which a
frame of `Register` itself gets into a queue. -/
theorem Hub.enqueueJSON_placed (h : Hub) (c : Conn) (f : Frame) (c' : Conn) :
    (h.enqueueJSON c f).placed c' = h.placed c' ∨
      c' = c ∧ c ∈ h.clients ∧ h.trySend c f = (h.enqueueJSON c f, true) := by
  unfold enqueueJSON
  by_cases hmem : c ∈ h.clients
  · rw [if_pos hmem, trySend_placed (Prod.eta _).symm]
    by_cases hsent : (h.trySend c f).2 = true ∧ c' = c
    · exact .inr ⟨hsent.2, hmem, Prod.ext rfl hsent.1⟩
    · exact .inl (by rw [if_neg hsent, List.append_nil])
  · rw [if_neg hmem]
    exact .inl rfl

/-- Joining places nothing: the queue of a new client is empty. This needs that the connection had
no client before, since a client record would be replaced. -/
theorem Hub.join_placed (hnone : h.conns c = none) (device : Device) (c' : Conn) :
    (h.join c device).placed c' = h.placed c' := by
  by_cases heq : c' = c
  · subst heq
    rw [placed_of_conn (join_self device), placed_of_none hnone]
    rfl
  · rw [placed, join_of_ne device heq, placed]

/-- Leaving places nothing. What was placed before stays on the account of the closed channel. -/
theorem Inv.unregister_placed (hinv : Inv u h) (hleave : h.unregister c = (h', ok)) (c' : Conn) :
    h'.placed c' = h.placed c' := by
  cases ok with
  | false =>
      obtain ⟨-, rfl⟩ := Hub.unregister_false hleave
      rfl
  | true =>
      obtain ⟨hmem, heq⟩ := Hub.unregister_true hleave
      obtain ⟨cl, hc, -⟩ := hinv.of_mem hmem
      obtain rfl := heq cl hc
      by_cases heq : c' = c
      · subst heq
        rw [Hub.placed_of_conn Hub.remove_self, Hub.placed_of_conn hc]
        rfl
      · rw [Hub.placed, Hub.remove_of_ne heq, Hub.placed]

/-- Who places a frame in the queue of `c`, and which one. -/
inductive Places (t : Tid) (c : Conn) (th th' : Thread) : Frame → Prop
  | deliver {p : Caller} {m : Delivery} {rest : List Conn} (hth : th = p.thread (.loop m (c :: rest)))
      (hth' : th' = p.thread (.loop m rest)) : Places t c th th' m.frame
  | retry {f : Frame} {deadline : LanRoom.Upload.Time} (hth : th = .slow c f (.attempt deadline))
      (hth' : th' = .slow c f .ended) : Places t c th th' f
  | welcome {device : Device} (htc : t = c) (hth : th = .register .welcome)
      (hth' : th' = .register .cutoff) : Places t c th th' (.welcome device)
  | history {msgs : List Entry} (htc : t = c) (hth : th = .register (.history msgs))
      (hth' : th' = .register (.presence .devices)) : Places t c th th' (.history msgs)

/-- A section has placed the frame in the queue of `c`, which had room; those who do not go through
the clients have looked `c` up. -/
structure Placed (t : Tid) (c : Conn) (h h' : Hub) (th th' : Thread) (f : Frame) : Prop where
  append : h'.placed c = h.placed c ++ [f]
  places : Places t c th th' f
  room : ∃ cl, h.conns c = some cl ∧ cl.send.length < sendBuffer
  clients : h'.clients = h.clients
  mem : (∃ rest, th.rest = some (c :: rest)) ∨ c ∈ h.clients

/-- A send that succeeds. It is the only way in which a section of `deliver` or `deliverSlow` places
something. -/
theorem Placed.of_trySend (hsend : h.trySend c f = (h', true)) (hplaces : Places t c th th' f)
    (hmem : (∃ rest, th.rest = some (c :: rest)) ∨ c ∈ h.clients) : Placed t c h h' th th' f := by
  have happend := Hub.trySend_placed hsend c
  rw [if_pos ⟨rfl, rfl⟩] at happend
  obtain ⟨cl, hc, -, hroom, rfl⟩ := Hub.trySend_true hsend
  exact ⟨happend, hplaces, ⟨cl, hc, hroom⟩, rfl, hmem⟩

/-- A section places at most one frame in the queue of a connection. -/
theorem Effect.placed (hinv : Inv u h) (hloc : Loc u t h th) (heffect : Effect u t h th h' th' fs)
    (c : Conn) : h'.placed c = h.placed c ∨ ∃ f, Placed t c h h' th th' f := by
  cases heffect with
  -- the queue of the client whose turn it is; the others stay
  | @sent p m c₁ rest cl h' hc hpass hsend =>
      by_cases heq : c = c₁
      · subst heq
        refine .inr ⟨m.frame, .of_trySend hsend (.deliver rfl rfl) (.inl ⟨rest, ?_⟩)⟩
        simp [Thread.rest, DeliverPC.rest]
      · refine .inl ?_
        rw [Hub.trySend_placed hsend, if_neg fun h => heq h.2, List.append_nil]
  -- a full queue takes nothing
  | forked hc hpass hsend | slowFull hmem hsend =>
      refine .inl ?_
      rw [Hub.trySend_placed hsend, if_neg fun h => Bool.false_ne_true h.1, List.append_nil]
  | @slowSent c₁ f deadline h' hmem hsend =>
      by_cases heq : c = c₁
      · subst heq
        exact .inr ⟨f, .of_trySend hsend (.retry rfl rfl) (.inr hmem)⟩
      · refine .inl ?_
        rw [Hub.trySend_placed hsend, if_neg fun h => heq h.2, List.append_nil]
  | welcomed hc =>
      rcases h.enqueueJSON_placed t (.welcome _) c with hsame | ⟨rfl, hmem, hsend⟩
      · exact .inl hsame
      · exact .inr ⟨_, .of_trySend hsend (.welcome rfl rfl rfl) (.inr hmem)⟩
  | replayed =>
      rcases h.enqueueJSON_placed t (.history _) c with hsame | ⟨rfl, hmem, hsend⟩
      · exact .inl hsame
      · exact .inr ⟨_, .of_trySend hsend (.history rfl rfl rfl) (.inr hmem)⟩
  | joined hfree => exact .inl (Hub.join_placed (hloc.fresh _ rfl) _ c)
  -- leaving closes the queue, and what was placed stays placed
  | left hfree hleave | hadLeft hfree hleave | slowKicked hfree hleave | slowHadLeft hfree hleave =>
      exact .inl (hinv.unregister_placed hleave c)
  | @took c₁ cl f rest hc hsend =>
      refine .inl ?_
      rw [Hub.placed_setClient hc [] (by simp [Client.placed, hsend])]
      simp
  | locked hperm | unlocked | skipped hc hskip | devices hperm | cutoff | noHistory hc hnil
  | snapshot hc hne | failed | ignored | accepted hc hscreen | recipients | addedToHistory hfree
  | slowStarted | slowContinued htime | slowTimedOut htime | slowGone hmem | slowWoke htime
  | slowStill hmem | slowMissed hmem | writeEnded => exact .inl rfl

/-- Nothing is placed in the queue of a connection that is not registered. -/
theorem Effect.placed_of_gone (hinv : Inv u h) (hloc : Loc u t h th)
    (hrest : ∀ rest, th.rest = some rest → ∀ c ∈ rest, c ∈ h.clients)
    (heffect : Effect u t h th h' th' fs) (hgone : c ∉ h'.clients) : h'.placed c = h.placed c := by
  rcases heffect.placed hinv hloc c with hsame | ⟨f, hplaced⟩
  · exact hsame
  · rw [hplaced.clients] at hgone
    rcases hplaced.mem with ⟨rest, heq⟩ | hmem
    · exact absurd (hrest _ heq c List.mem_cons_self) hgone
    · exact absurd hmem hgone

/-! ## Frames that are due -/

/-- How many frames with the property `q` a call of `deliver` will still send to `c`. -/
def DeliverPC.due (q : Frame → Bool) (c : Conn) : DeliverPC → ℕ
  | .lock m => if q m.frame then 1 else 0
  | .loop m rest => if q m.frame then rest.count c else 0

/-- `deliverSlow` has not given up and not succeeded. -/
def SlowPC.waiting : SlowPC → Bool
  | .start | .loop _ | .attempt _ | .sleep _ _ | .check | .unregister => true
  | .presence _ | .ended => false

/-- How many frames with the property `q` a goroutine will still send to `c`. -/
def Thread.due (q : Frame → Bool) (c : Conn) (th : Thread) : ℕ :=
  match th with
  | .slow c' f pc =>
      if pc.waiting then (if c' = c ∧ q f = true then 1 else 0)
      else (th.deliverPC.map (DeliverPC.due q c)).getD 0
  | _ => (th.deliverPC.map (DeliverPC.due q c)).getD 0

/-- How many frames with the property `q` become due when a goroutine calls `deliver`. -/
def calls (q : Frame → Bool) (th th' : Thread) : ℕ :=
  match th.deliverPC, th'.deliverPC with
  | none, some (.lock m) => if q m.frame then 1 else 0
  | _, _ => 0

/-- What is due from a delivery does not depend on who has called it. -/
@[simp] theorem Caller.due_thread (p : Caller) (pc : DeliverPC) :
    (p.thread pc).due q c = pc.due q c := by
  rcases p with _ | _ | _ | _ <;> rfl

/-- The same for the callers of a presence announcement. What is due is a matter of the program
point inside `deliver` and not of who has called it. -/
@[simp] theorem PresenceCaller.due_deliver (p : PresenceCaller) (pc : DeliverPC) :
    (p.thread (.deliver pc)).due q c = pc.due q c :=
  Caller.due_thread (.presence p) pc

/-- Before the list of devices has been made no frame is due. The frame is made from that list, so
until then there is nothing to count. -/
@[simp] theorem PresenceCaller.due_devices (p : PresenceCaller) :
    (p.thread .devices).due q c = 0 := by
  cases p <;> rfl

/-- A caller that goes on after its delivery owes nothing. All copies have been placed or handed to
goroutines of their own by then. -/
@[simp] theorem Caller.due_back (p : Caller) : p.back.due q c = 0 := by
  rcases p with _ | _ | _ | _ <;> rfl

/-- The pumps that are started when `Register` returns have no delivery under way, so nothing is due
from them. -/
theorem Caller.due_forks (p : Caller) : ((p.forks t).map (Thread.due q c)).sum = 0 := by
  rcases p with _ | _ | _ | _ <;> rfl

/-- No call of `deliver` begins while a goroutine is in one, or ends in none. -/
theorem calls_eq_zero (h : th.deliverPC ≠ none ∨ ∀ m, th'.deliverPC ≠ some (.lock m)) :
    calls q th th' = 0 := by
  unfold calls
  split
  · rename_i m hnone hlock
    rcases h with hsome | hnot
    · exact absurd hnone hsome
    · exact absurd hlock (hnot m)
  · rfl

/-- The property is about chat messages and presence frames only. -/
def Live (q : Frame → Bool) : Prop :=
  (∀ device, q (.welcome device) = false) ∧ ∀ msgs, q (.history msgs) = false

/-- A frame with the property was not for the client the goroutine came to. -/
def Skips (q : Frame → Bool) (h : Hub) (c : Conn) : Prop :=
  ∃ (m : Delivery) (cl : Client), q m.frame = true ∧ h.conns c = some cl ∧
    m.passes cl.device = false

/-- The balance of a section: what is placed and due after it, and what is lost in it, is what was
placed and due before, and what became due. A frame is only lost on a connection that is not
registered or that it is not for. -/
def Balance (q : Frame → Bool) (c : Conn) (h h' : Hub) (th th' : Thread) (fs : List Thread) : Prop :=
  ∃ lost, (h'.placed c).countP q + th'.due q c + (fs.map (Thread.due q c)).sum + lost =
    (h.placed c).countP q + th.due q c + calls q th th' ∧
      (lost = 0 ∨ c ∉ h'.clients ∨ Skips q h c)

/-- Nothing is placed, nothing becomes due, and what was due stays due. -/
theorem Balance.of_eq (hplaced : h'.placed c = h.placed c) (hdue : th'.due q c = th.due q c)
    (hcalls : calls q th th' = 0) : Balance q c h h' th th' [] := by
  refine ⟨0, ?_, .inl rfl⟩
  rw [hplaced, hdue, hcalls]
  simp

/-- Nothing is placed, and what was due is lost on a connection that is not registered. -/
theorem Balance.of_gone (hplaced : h'.placed c = h.placed c) (hdue : th'.due q c = 0)
    (hcalls : calls q th th' = 0) (hgone : th.due q c = 0 ∨ c ∉ h'.clients) :
    Balance q c h h' th th' [] := by
  refine ⟨th.due q c, ?_, ?_⟩
  · rw [hplaced, hdue, hcalls]
    simp
  · rcases hgone with hzero | hgone
    · exact .inl hzero
    · exact .inr (.inl hgone)

/-- A frame that is not counted is placed. The account of the counted frames does not change by it
on either side. -/
theorem Balance.of_uncounted (hplaced : h'.placed c = h.placed c ∨
    ∃ f, h'.placed c = h.placed c ++ [f] ∧ q f = false) (hdue : th'.due q c = th.due q c)
    (hcalls : calls q th th' = 0) : Balance q c h h' th th' [] := by
  rcases hplaced with hsame | ⟨f, happend, hnot⟩
  · exact .of_eq hsame hdue hcalls
  · refine ⟨0, ?_, .inl rfl⟩
    rw [happend, hdue, hcalls]
    simp [hnot]

/-- The frame due to one client is placed or handed to a `deliverSlow`. -/
theorem Balance.of_visit {p : Caller} {m : Delivery} {rest : List Conn}
    (hsend : h.trySend c' m.frame = (h', ok)) :
    Balance q c h h' (p.thread (.loop m (c' :: rest))) (p.thread (.loop m rest))
      (if ok then [] else [.slow c' m.frame .start]) := by
  refine ⟨0, ?_, .inl rfl⟩
  rw [calls_eq_zero (.inl (by simp)), Hub.trySend_placed hsend, List.countP_append,
    Caller.due_thread, Caller.due_thread, DeliverPC.due, DeliverPC.due, List.count_cons]
  cases ok with
  -- there was room: the copy is placed, and no longer due
  | true =>
      by_cases heq : c = c'
      · subst heq
        by_cases hq : q m.frame = true
        · simp [hq]
          omega
        · simp [hq]
      · have hne : ¬ c' = c := Ne.symm heq
        simp [heq, hne]
  | false =>
      -- there was none: a `deliverSlow` owes the copy from now on
      by_cases heq : c' = c
      · subst heq
        by_cases hq : q m.frame = true
        · simp [hq, Thread.due, SlowPC.waiting]
          omega
        · simp [hq, Thread.due, Thread.deliverPC]
      · simp [heq, Thread.due, SlowPC.waiting]

/-- A delivery has taken the read lock and copied the clients: what it called for becomes due to each
of them, and a connection that is not among them is not registered. -/
theorem Balance.of_locked {p : Caller} {m : Delivery} {clients : List Conn} (hinv : Inv u h)
    (hperm : clients.Perm h.clients) :
    Balance q c h h.rLock (p.thread (.lock m)) (p.thread (.loop m clients)) [] := by
  have hcount : clients.count c = h.clients.count c := hperm.count_eq c
  have hle : h.clients.count c = 0 ∨ h.clients.count c = 1 := by
    rw [hinv.members c]
    split <;> simp
  have hcalls : calls q (p.thread (.lock m)) (p.thread (.loop m clients)) = 0 :=
    calls_eq_zero (.inl (by simp))
  rcases hle with hzero | hone
  · refine .of_gone rfl ?_ hcalls (.inr (List.count_eq_zero.mp hzero))
    simp [DeliverPC.due, hcount, hzero]
  · exact .of_eq rfl (by simp [DeliverPC.due, hcount, hone]) hcalls

/-- A client the frame is not for is passed over, and the frame that was due to it is lost. -/
theorem Balance.of_skipped {p : Caller} {m : Delivery} {rest : List Conn} {cl : Client}
    (hc : h.conns c' = some cl) (hskip : m.passes cl.device = false) :
    Balance q c h h (p.thread (.loop m (c' :: rest))) (p.thread (.loop m rest)) [] := by
  have hcalls : calls q (p.thread (.loop m (c' :: rest))) (p.thread (.loop m rest)) = 0 :=
    calls_eq_zero (.inl (by simp))
  by_cases hlost : c' = c ∧ q m.frame = true
  · obtain ⟨rfl, hq⟩ := hlost
    refine ⟨1, ?_, .inr (.inr ⟨m, cl, hq, hc, hskip⟩)⟩
    rw [hcalls]
    simp only [Caller.due_thread, DeliverPC.due, hq, if_true, List.count_cons_self, List.map_nil,
      List.sum_nil]
    omega
  · refine .of_eq rfl ?_ hcalls
    simp only [Caller.due_thread, DeliverPC.due]
    by_cases hq : q m.frame = true
    · have hne : c' ≠ c := fun heq => hlost ⟨heq, hq⟩
      simp [hq, hne]
    · simp [hq]

/-- The frames `Register` writes itself, the welcome and the history, are never counted. -/
theorem Balance.of_enqueueJSON {f : Frame} (hnot : q f = false) (hdue : th'.due q c = th.due q c)
    (hcalls : calls q th th' = 0) : Balance q c h (h.enqueueJSON c' f) th th' [] := by
  refine .of_uncounted ?_ hdue hcalls
  rcases h.enqueueJSON_placed c' f c with hsame | ⟨rfl, -, hsend⟩
  · exact .inl hsame
  · have happend := Hub.trySend_placed hsend c
    rw [if_pos ⟨rfl, rfl⟩] at happend
    exact .inr ⟨_, happend, hnot⟩

/-- A `deliverSlow` that removes its client loses the frame it was waiting with: the client is not
registered any more, and it was registered once. -/
theorem Balance.of_kicked {f : Frame} (hinv : Inv u h) (hleave : h.unregister c' = (h', true))
    (hdue : th'.due q c = 0) (hcalls : calls q (.slow c' f .unregister) th' = 0) :
    Balance q c h h' (.slow c' f .unregister) th' [] := by
  refine .of_gone (hinv.unregister_placed hleave c) hdue hcalls ?_
  by_cases heq : c' = c
  · subst heq
    refine .inr ?_
    obtain ⟨hmem, hrem⟩ := Hub.unregister_true hleave
    obtain ⟨cl, hc, hopen⟩ := hinv.of_mem hmem
    obtain rfl := hrem cl hc
    have hone := hinv.count_of_open hc hopen
    show c' ∉ h.clients.erase c'
    rw [← List.count_eq_zero, List.count_erase_self, hone]
  · exact .inl (by simp [Thread.due, SlowPC.waiting, heq])

/-- **The ledger**: every section is balanced on every connection. The sections of a delivery and of
a `deliverSlow` move frames from due to placed or lose them; the others touch neither side. -/
theorem Effect.ledger (hinv : Inv u h) (hloc : Loc u t h th) (hlive : Live q)
    (heffect : Effect u t h th h' th' fs) (c : Conn) : Balance q c h h' th th' fs := by
  cases heffect with
  | locked hperm => exact .of_locked hinv hperm
  | @unlocked p m =>
      refine ⟨0, ?_, .inl rfl⟩
      rw [Caller.due_forks, Caller.due_back, Caller.due_thread, calls_eq_zero (.inl (by simp))]
      simp [DeliverPC.due, Hub.placed, Hub.rUnlock]
  | skipped hc hskip => exact .of_skipped hc hskip
  | sent hc hpass hsend => exact .of_visit hsend
  | forked hc hpass hsend => exact .of_visit hsend
  | @devices p clients hperm =>
      refine ⟨0, ?_, .inl rfl⟩
      simp [calls, DeliverPC.due, Hub.placed, Hub.announce]
  | @addedToHistory c₁ e hfree =>
      refine ⟨0, ?_, .inl rfl⟩
      simp [calls, Thread.due, Thread.deliverPC, DeliverPC.due, Hub.placed, Hub.addToHistory]
  | joined hfree => exact .of_eq (Hub.join_placed (hloc.fresh _ rfl) _ c) rfl rfl
  | welcomed hc => exact .of_enqueueJSON (hlive.1 _) rfl rfl
  | replayed => exact .of_enqueueJSON (hlive.2 _) rfl rfl
  | accepted hc hscreen =>
      split <;> exact .of_eq rfl rfl rfl
  | left hfree hleave | hadLeft hfree hleave =>
      exact .of_eq (hinv.unregister_placed hleave c) rfl rfl
  | slowKicked hfree hleave => exact .of_kicked hinv hleave rfl rfl
  -- the client of the `deliverSlow` has left by itself, with the frame still due to it
  | @slowHadLeft c₁ f h' hfree hleave =>
      obtain ⟨hnot, rfl⟩ := Hub.unregister_false hleave
      refine .of_gone rfl rfl rfl ?_
      by_cases heq : c₁ = c
      · subst heq
        exact .inr hnot
      · exact .inl (by simp [Thread.due, SlowPC.waiting, heq])
  | @slowGone c₁ f deadline hmem | @slowMissed c₁ f hmem =>
      refine .of_gone rfl rfl rfl ?_
      by_cases heq : c₁ = c
      · subst heq
        exact .inr hmem
      · exact .inl (by simp [Thread.due, SlowPC.waiting, heq])
  -- the attempt succeeds: what was due is placed
  | @slowSent c₁ f deadline h' hmem hsend =>
      refine ⟨0, ?_, .inl rfl⟩
      rw [Hub.trySend_placed hsend, List.countP_append]
      by_cases heq : c = c₁
      · subst heq
        by_cases hq : q f = true <;> simp [hq, Thread.due, SlowPC.waiting, calls, Thread.deliverPC]
      · have hne : ¬ c₁ = c := Ne.symm heq
        simp [heq, hne, Thread.due, SlowPC.waiting, calls, Thread.deliverPC]
  | slowFull hmem hsend =>
      refine .of_eq ?_ rfl rfl
      rw [Hub.trySend_placed hsend, if_neg fun h => Bool.false_ne_true h.1, List.append_nil]
  | @took c₁ cl f rest hc hsend =>
      refine .of_eq ?_ rfl rfl
      rw [Hub.placed_setClient hc [] (by simp [Client.placed, hsend])]
      simp
  | cutoff | noHistory hc hnil | snapshot hc hne | failed | ignored | recipients | slowStarted
  | slowContinued htime | slowTimedOut htime | slowWoke htime | slowStill hmem | writeEnded =>
      exact .of_eq rfl rfl rfl

/-! ## No frame is made twice -/

/-- What identifies a chat message or a presence frame among all of a run. -/
inductive Key
  | message (seq : ℕ)
  | presence (seq : ℕ)

/-- The frame has this identity. -/
def Key.matches : Key → Frame → Bool
  | .message n, .message e => e.seq = n
  | .presence n, .presence seq _ => seq = n
  | _, _ => false

/-- No frame with this identity has been made yet. -/
def Key.unused (h : Hub) : Key → Prop
  | .message n => h.accepted.length ≤ n
  | .presence n => h.announced ≤ n

/-- A key never matches the frames `Register` writes itself. Counting by number or by announcement
leaves the greetings out. -/
theorem Key.live (key : Key) : Live key.matches := by
  cases key <;> exact ⟨fun _ => rfl, fun _ => rfl⟩

/-- How many messages with the property `q` a `SendMessage` is about to put into the history. -/
def Thread.holds (q : Frame → Bool) : Thread → ℕ
  | .readPump _ (.recipients e) => if q (.message e) then 1 else 0
  | .readPump _ (.addToHistory e) => if q (.message e) then 1 else 0
  | _ => 0

/-- A delivery under way has its frame already; it holds no key back. -/
@[simp] theorem Caller.holds_thread (p : Caller) (pc : DeliverPC) : (p.thread pc).holds q = 0 := by
  rcases p with _ | _ | _ | _ <;> rfl

/-- A caller that goes on after its delivery holds no key. The key was given up when the call of
`deliver` began. -/
@[simp] theorem Caller.holds_back (p : Caller) : p.back.holds q = 0 := by
  rcases p with _ | _ | _ | _ <;> rfl

/-- An announcement numbers its frame in the section in which it makes it, so it holds no key
before. -/
@[simp] theorem PresenceCaller.holds_thread (p : PresenceCaller) (pc : PresencePC) :
    (p.thread pc).holds q = 0 := by
  cases p <;> rfl

/-- The pumps that are started when `Register` returns have no message in hand, so they hold no
key. -/
theorem Caller.holds_forks (p : Caller) : ((p.forks t).map (Thread.holds q)).sum = 0 := by
  rcases p with _ | _ | _ | _ <;> rfl

/-- Sending numbers nothing. The two counters are those from which messages and announcements get
their keys. -/
theorem Hub.trySend_counters (hsend : h.trySend c f = (h', ok)) :
    h'.accepted = h.accepted ∧ h'.announced = h.announced := by
  obtain ⟨_, _, rfl⟩ := trySend_frame hsend
  exact ⟨rfl, rfl⟩

/-- Enqueueing numbers nothing. It is the same fact one level up, for whatever becomes of the
send. -/
theorem Hub.enqueueJSON_counters (h : Hub) (c : Conn) (f : Frame) :
    (h.enqueueJSON c f).accepted = h.accepted ∧ (h.enqueueJSON c f).announced = h.announced := by
  obtain ⟨_, _, heq⟩ := h.enqueueJSON_frame c f
  rw [heq]
  exact ⟨rfl, rfl⟩

/-- Unregistering numbers nothing. The announcement that follows is numbered by a section of its
own. -/
theorem Hub.unregister_counters (hleave : h.unregister c = (h', ok)) :
    h'.accepted = h.accepted ∧ h'.announced = h.announced := by
  obtain ⟨_, _, _, rfl⟩ := unregister_frame hleave
  exact ⟨rfl, rfl⟩

/-- A section keeps the frames with an identity together: it makes one only when the identity is
unused, and then it is used. -/
def Key.Kept (key : Key) (h h' : Hub) (th th' : Thread) (fs : List Thread) : Prop :=
  (key.unused h' → key.unused h) ∧
    (th'.holds key.matches + (fs.map (Thread.holds key.matches)).sum + calls key.matches th th' ≤
        th.holds key.matches ∨
      th'.holds key.matches + (fs.map (Thread.holds key.matches)).sum + calls key.matches th th' ≤
          th.holds key.matches + 1 ∧ key.unused h ∧ ¬ key.unused h')

/-- A section that makes no frame. Then the number of owners of a key cannot have grown. -/
theorem Key.Kept.of_eq {key : Key} (hcounters : h'.accepted = h.accepted ∧ h'.announced = h.announced)
    (hfs : (fs.map (Thread.holds key.matches)).sum = 0)
    (hholds : th'.holds key.matches = 0) (hcalls : calls key.matches th th' = 0) :
    key.Kept h h' th th' fs := by
  refine ⟨fun hunused => ?_, .inl (by omega)⟩
  cases key with
  | message n => rwa [Key.unused, ← hcounters.1]
  | presence n => rwa [Key.unused, ← hcounters.2]

/-- **A key is handed out once.** A section that makes a frame uses a number nobody has used before,
and afterwards the number is used; every other section hands on what it holds. -/
theorem Effect.kept (key : Key) (heffect : Effect u t h th h' th' fs) : key.Kept h h' th th' fs := by
  cases heffect with
  | @locked p m clients hperm =>
      exact .of_eq ⟨rfl, rfl⟩ rfl (p.holds_thread _) (calls_eq_zero (.inl (by simp)))
  | @unlocked p m =>
      exact .of_eq ⟨rfl, rfl⟩ p.holds_forks p.holds_back (calls_eq_zero (.inl (by simp)))
  | @skipped p m c rest cl hc hskip =>
      exact .of_eq ⟨rfl, rfl⟩ rfl (p.holds_thread _) (calls_eq_zero (.inl (by simp)))
  | @sent p m c rest cl h' hc hpass hsend | @forked p m c rest cl h' hc hpass hsend =>
      exact .of_eq (Hub.trySend_counters hsend) rfl (p.holds_thread _)
        (calls_eq_zero (.inl (by simp)))
  | @devices p clients hperm =>
      have hcalls : calls key.matches (p.thread .devices)
          (p.thread (.deliver (.lock (.presence h.announced (h.devices clients))))) =
          if key.matches (.presence h.announced (h.devices clients)) then 1 else 0 := by
        cases p <;> rfl
      -- a presence frame takes the next announcement number
      have hunused : key.unused h.announce → key.unused h := by
        cases key with
        | message n => exact id
        | presence n => exact fun hle => Nat.le_of_succ_le hle
      refine ⟨hunused, ?_⟩
      rw [hcalls, PresenceCaller.holds_thread, PresenceCaller.holds_thread]
      by_cases hmatch : key.matches (.presence h.announced (h.devices clients)) = true
      · refine .inr ⟨by simp [hmatch], ?_⟩
        cases key with
        | message n => cases hmatch
        | presence n =>
            have hn : h.announced = n := of_decide_eq_true hmatch
            refine ⟨Nat.le_of_eq hn, ?_⟩
            show ¬ h.announced + 1 ≤ n
            omega
      · exact .inl (by simp [hmatch])
  | @accepted c cl m toIDs hc hscreen =>
      have hholds : (Thread.readPump c (if toIDs = [] then .addToHistory (h.entry cl toIDs m)
          else .recipients (h.entry cl toIDs m))).holds key.matches =
          if key.matches (.message (h.entry cl toIDs m)) then 1 else 0 := by
        split <;> rfl
      have hcalls : calls key.matches (.readPump c .read) (.readPump c (if toIDs = [] then
          .addToHistory (h.entry cl toIDs m) else .recipients (h.entry cl toIDs m))) = 0 := by
        split <;> rfl
      -- a message is numbered by its place among the accepted ones
      have hlength : (h.accept c m).accepted.length = h.accepted.length + 1 := List.length_append
      refine ⟨fun hunused => ?_, ?_⟩
      · cases key with
        | message n =>
            rw [Key.unused, hlength] at hunused
            exact Nat.le_of_succ_le hunused
        | presence n => exact hunused
      · rw [hholds, hcalls]
        by_cases hmatch : key.matches (.message (h.entry cl toIDs m)) = true
        · refine .inr ⟨by simp [hmatch], ?_⟩
          cases key with
          | presence n => cases hmatch
          | message n =>
              have hn : h.accepted.length = n := of_decide_eq_true hmatch
              refine ⟨Nat.le_of_eq hn, ?_⟩
              rw [Key.unused, hlength]
              omega
        · exact .inl (by simp [hmatch])
  | recipients =>
      refine ⟨id, .inl (Nat.le_of_eq ?_)⟩
      cases key <;> rfl
  | addedToHistory hfree => exact ⟨by cases key <;> exact id, .inl (Nat.le_of_eq (Nat.zero_add _))⟩
  | welcomed hc | replayed => exact .of_eq (h.enqueueJSON_counters ..) rfl rfl rfl
  | left hfree hleave | hadLeft hfree hleave | slowKicked hfree hleave | slowHadLeft hfree hleave =>
      exact .of_eq (Hub.unregister_counters hleave) rfl rfl rfl
  | slowSent hmem hsend | slowFull hmem hsend =>
      exact .of_eq (Hub.trySend_counters hsend) rfl rfl rfl
  | joined hfree | cutoff | noHistory hc hnil | snapshot hc hne | failed | ignored | slowStarted
  | slowContinued htime | slowTimedOut htime | slowGone hmem | slowWoke htime | slowStill hmem
  | slowMissed hmem | took hc hsend | writeEnded => exact .of_eq ⟨rfl, rfl⟩ rfl rfl rfl

/-- What a goroutine will still place, or is about to make. -/
def Thread.share (key : Key) (c : Conn) (th : Thread) : ℕ :=
  th.due key.matches c + th.holds key.matches

/-- All frames with an identity that are or may come into the queue of `c`. -/
def total (key : Key) (c : Conn) (d : ThreadPool.Config Hub Thread) : ℕ :=
  (d.shared.placed c).countP key.matches + (d.threads.map (Thread.share key c)).sum

/-- There is at most one frame with an identity, and none before it is used. -/
structure Unique (key : Key) (c : Conn) (d : ThreadPool.Config Hub Thread) : Prop where
  le_one : total key c d ≤ 1
  unused : key.unused d.shared → total key c d = 0

/-- The share of a thread in a key is what is due from it and what it holds. -/
theorem sum_share (key : Key) (c : Conn) (ths : List Thread) :
    (ths.map (Thread.share key c)).sum =
      (ths.map (Thread.due key.matches c)).sum + (ths.map (Thread.holds key.matches)).sum := by
  induction ths with
  | nil => rfl
  | cons th ths ih =>
      simp only [List.map_cons, List.sum_cons, ih, Thread.share]
      omega

/-- **Every action keeps a key unique on every connection.** A section that calls for the frame
holds the key, and no one else does. -/
theorem unique_exec {key : Key} {act : Act Thread Choice ℕ} {c₀ : ThreadPool.Config Hub Thread}
    (hvalid : (outline u).Valid () c₀) (hunique : Unique key c c₀) (harrive : Arrivals c₀ act)
    (hexec : (machine u).exec c₀ act = some d) : Unique key c d := by
  cases act with
  | spawn th =>
      obtain rfl := Option.some.inj hexec
      obtain ⟨device, rfl⟩ := harrive th rfl
      have htotal : total key c ⟨c₀.shared, c₀.threads ++ [.register (.start device)]⟩ =
          total key c c₀ := by
        unfold total
        rw [List.map_append, List.sum_append]
        rfl
      exact ⟨htotal ▸ hunique.le_one, fun h => htotal ▸ hunique.unused h⟩
  | env e =>
      obtain rfl := Option.some.inj hexec
      refine ⟨hunique.le_one, fun h => hunique.unused ?_⟩
      cases key <;> exact h
  -- the share of the thread is traded for what is placed, due or lost
  | run t k =>
      obtain ⟨th, h', th', fs, hth, hstep, rfl⟩ := (machine u).exec_run_iff.mp hexec
      have heffect : Effect u t c₀.shared th h' th' fs := .of_step hstep
      obtain ⟨lost, hbalance, -⟩ :=
        heffect.ledger hvalid.inv (hvalid.loc t th hth) key.live c
      obtain ⟨hmono, hmade⟩ := heffect.kept key
      have hsum := ThreadPool.sum_set_append (Thread.share key c) hth th' fs
      have hfs := sum_share key c fs
      have htotal : total key c ⟨h', c₀.threads.set t th' ++ fs⟩ + th.share key c =
          (h'.placed c).countP key.matches + (c₀.threads.map (Thread.share key c)).sum +
            th'.share key c + (fs.map (Thread.share key c)).sum := by
        show (h'.placed c).countP key.matches +
          ((c₀.threads.set t th' ++ fs).map (Thread.share key c)).sum + th.share key c = _
        omega
      have hold : total key c c₀ = (c₀.shared.placed c).countP key.matches +
        (c₀.threads.map (Thread.share key c)).sum := rfl
      have hshare : th.share key c = th.due key.matches c + th.holds key.matches := rfl
      have hshare' : th'.share key c = th'.due key.matches c + th'.holds key.matches := rfl
      have hle := hunique.le_one
      -- either the key was there before, or this section has handed it out
      rcases hmade with hnone | ⟨hone, hunused, hused⟩
      · refine ⟨by omega, fun h => ?_⟩
        have hzero := hunique.unused (hmono h)
        omega
      · have hzero := hunique.unused hunused
        exact ⟨by omega, fun h => absurd h hused⟩

/-- **Every message and every presence frame is one frame**: for every connection, at most one with
an identity is in the queue, due, or about to be made. -/
theorem Reachable.unique (hreach : Reachable u d) (key : Key) (c : Conn) : Unique key c d := by
  obtain ⟨historyTTL, now, hrun⟩ := hreach
  obtain ⟨_, -, -, hunique⟩ := Outline.run_invariant (O := outline u)
    (I := fun _ d => Unique key c d) (fun _ _ harrive => harrive) (valid_boot u historyTTL now)
    ⟨Nat.zero_le _, fun _ => rfl⟩
    (fun _ _ _ _ _ hvalid hunique harrive hexec _ => unique_exec hvalid hunique harrive hexec) hrun
  exact hunique

/-! ## The history -/

/-- A section leaves the history alone and begins no delivery of a message, or it is the
`addToHistory` of a message whose delivery begins. -/
theorem Effect.history (heffect : Effect u t h th h' th' fs) :
    (h'.history = h.history ∧
        ∀ q, (∀ seq users, q (.presence seq users) = false) → calls q th th' = 0) ∨
      ∃ c e, th = .readPump c (.addToHistory e) ∧
        th' = .readPump c (.deliver (.lock (.message e))) ∧ h' = h.addToHistory e := by
  have hsent : ∀ {c : Conn} {f : Frame} {ok : Bool}, h.trySend c f = (h', ok) →
      h'.history = h.history := by
    intro c f ok hsend
    obtain ⟨_, _, rfl⟩ := Hub.trySend_frame hsend
    rfl
  cases heffect with
  -- the one section that writes to the history hands the message to `deliver`
  | addedToHistory hfree => exact .inr ⟨_, _, rfl, rfl, rfl⟩
  | locked hperm | unlocked | skipped hc hskip =>
      exact .inl ⟨rfl, fun _ _ => calls_eq_zero (.inl (by simp))⟩
  | sent hc hpass hsend | forked hc hpass hsend =>
      exact .inl ⟨hsent hsend, fun _ _ => calls_eq_zero (.inl (by simp))⟩
  -- a call of `deliver` that is not one of a message
  | @devices p clients hperm =>
      refine .inl ⟨rfl, fun q hq => ?_⟩
      simp [calls, Delivery.frame, hq]
  | welcomed hc | replayed =>
      refine .inl ⟨?_, fun _ _ => rfl⟩
      obtain ⟨_, _, heq⟩ := h.enqueueJSON_frame t _
      rw [heq]
  | accepted hc hscreen => exact .inl ⟨rfl, fun _ _ => by split <;> rfl⟩
  -- these sections change the tables of the hub, and neither the history nor a call
  | left hfree hleave | hadLeft hfree hleave | slowKicked hfree hleave | slowHadLeft hfree hleave =>
      obtain ⟨_, _, _, rfl⟩ := Hub.unregister_frame hleave
      exact .inl ⟨rfl, fun _ _ => rfl⟩
  | slowSent hmem hsend | slowFull hmem hsend => exact .inl ⟨hsent hsend, fun _ _ => rfl⟩
  | joined hfree | cutoff | noHistory hc hnil | snapshot hc hne | failed | ignored | recipients
  | slowStarted | slowContinued htime | slowTimedOut htime | slowGone hmem | slowWoke htime
  | slowStill hmem | slowMissed hmem | took hc hsend | writeEnded => exact .inl ⟨rfl, fun _ _ => rfl⟩

/-- A message that has not expired stays in the history. Pruning is the only way out of the history,
and it takes what lies behind the cutoff. -/
theorem Effect.mem_history (heffect : Effect u t h th h' th' fs) (he : e ∈ h.history)
    (hunexpired : h.cutoff ≤ e.msg.timestamp) : e ∈ h'.history := by
  rcases heffect.history with ⟨hsame, -⟩ | ⟨c, e', -, -, rfl⟩
  · rw [hsame]
    exact he
  · exact List.mem_append_left _ (List.mem_filter.mpr ⟨he, decide_eq_true hunexpired⟩)

/-- No section moves the clock. The clock ticks between sections only, so one section sees one
time. -/
theorem Effect.cutoff_eq (heffect : Effect u t h th h' th' fs) : h'.cutoff = h.cutoff := by
  cases heffect with
  | sent hc hpass hsend | forked hc hpass hsend | slowSent hmem hsend | slowFull hmem hsend =>
      obtain ⟨_, _, rfl⟩ := Hub.trySend_frame hsend
      rfl
  | welcomed hc | replayed =>
      obtain ⟨_, _, heq⟩ := h.enqueueJSON_frame t _
      rw [heq]
      rfl
  | left hfree hleave | hadLeft hfree hleave | slowKicked hfree hleave | slowHadLeft hfree hleave =>
      obtain ⟨_, _, _, rfl⟩ := Hub.unregister_frame hleave
      rfl
  | _ => rfl

/-- Time passes. -/
def Hub.tick (h : Hub) (n : ℕ) : Hub := { h with now := h.now + n }

/-- Time only moves the cutoff forward. What has expired once has expired for good. -/
theorem Hub.cutoff_tick (h : Hub) (n : ℕ) : h.cutoff ≤ (h.tick n).cutoff := by
  unfold cutoff unix
  exact Int.ediv_le_ediv (by decide)
    (Int.sub_le_sub_right (Int.le_add_of_nonneg_right (Int.natCast_nonneg n)) _)

/-- The copies of the message with number `n` that are in the history or on their way there. -/
def recorded (n : ℕ) (d : ThreadPool.Config Hub Thread) : ℕ :=
  d.shared.history.countP (fun e => e.seq = n) +
    (d.threads.map (Thread.holds (Key.message n).matches)).sum

/-- A message is in the history at most once, and not before it was accepted. -/
structure RecordedOnce (n : ℕ) (d : ThreadPool.Config Hub Thread) : Prop where
  le_one : recorded n d ≤ 1
  unused : d.shared.accepted.length ≤ n → recorded n d = 0

/-- A message enters the history when its delivery begins. The inequality allows for pruning; it is
enough to bound how often a message can be there. -/
theorem Effect.countP_history (heffect : Effect u t h th h' th' fs) (n : ℕ) :
    h'.history.countP (fun e => e.seq = n) ≤
      h.history.countP (fun e => e.seq = n) + calls (Key.message n).matches th th' := by
  rcases heffect.history with ⟨hsame, -⟩ | ⟨c, e, rfl, rfl, rfl⟩
  · rw [hsame]
    exact Nat.le_add_right _ _
  · have hcalls : calls (Key.message n).matches (.readPump c (.addToHistory e))
        (.readPump c (.deliver (.lock (.message e)))) = [e].countP fun e => e.seq = n := by
      simp [calls, Thread.deliverPC, Delivery.frame, Key.matches, List.countP_singleton]
    rw [hcalls]
    show (h.history.filter _ ++ [e]).countP _ ≤ _
    rw [List.countP_append]
    exact Nat.add_le_add_right (List.Sublist.countP_le List.filter_sublist) _

/-- **Every action keeps a message in the history at most once**, whether it is there or about to
enter. What enters the history comes from the goroutine that holds the number, and leaves it at the
same time. -/
theorem recordedOnce_exec {n : ℕ} {act : Act Thread Choice ℕ} {c₀ : ThreadPool.Config Hub Thread}
    (honce : RecordedOnce n c₀) (harrive : Arrivals c₀ act)
    (hexec : (machine u).exec c₀ act = some d) : RecordedOnce n d := by
  cases act with
  | spawn th =>
      obtain rfl := Option.some.inj hexec
      obtain ⟨device, rfl⟩ := harrive th rfl
      have hsame : recorded n ⟨c₀.shared, c₀.threads ++ [.register (.start device)]⟩ =
          recorded n c₀ := by
        unfold recorded
        rw [List.map_append, List.sum_append]
        rfl
      exact ⟨hsame ▸ honce.le_one, fun h => hsame ▸ honce.unused h⟩
  | env e =>
      obtain rfl := Option.some.inj hexec
      exact ⟨honce.le_one, honce.unused⟩
  | run t k =>
      obtain ⟨th, h', th', fs, hth, hstep, rfl⟩ := (machine u).exec_run_iff.mp hexec
      have heffect : Effect u t c₀.shared th h' th' fs := .of_step hstep
      have hhistory := heffect.countP_history n
      obtain ⟨hmono, hmade⟩ := heffect.kept (.message n)
      have hsum := ThreadPool.sum_set_append (Thread.holds (Key.message n).matches) hth th' fs
      have hnew : recorded n ⟨h', c₀.threads.set t th' ++ fs⟩ =
        h'.history.countP (fun e => e.seq = n) +
          ((c₀.threads.set t th' ++ fs).map (Thread.holds (Key.message n).matches)).sum := rfl
      have hold : recorded n c₀ = c₀.shared.history.countP (fun e => e.seq = n) +
        (c₀.threads.map (Thread.holds (Key.message n).matches)).sum := rfl
      have hle := honce.le_one
      -- the section makes no message, or it makes the one with the next number
      rcases hmade with hnone | ⟨hone, hunused, hused⟩
      · refine ⟨by omega, fun h => ?_⟩
        have hzero := honce.unused (hmono h)
        omega
      · have hzero := honce.unused hunused
        exact ⟨by omega, fun h => absurd h hused⟩

/-- **The history holds every message at most once.** What is counted for a number are its entries
in the history and the goroutines that still hold it. -/
theorem Reachable.recordedOnce (hreach : Reachable u d) (n : ℕ) : RecordedOnce n d := by
  obtain ⟨historyTTL, now, hrun⟩ := hreach
  exact hrun.invariant (I := RecordedOnce n) ⟨Nat.zero_le _, fun _ => rfl⟩
    fun _ _ _ honce harrive hexec => recordedOnce_exec honce harrive hexec

end LanRoom.Chat

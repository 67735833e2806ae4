import LanRoom.Chat.Delivery
import LanRoom.Chat.Registering

/-! # Does a connection get the messages of one sender in order?

The `ReadPump` of a connection hands its messages to `SendMessage` one after the other, and `deliver`
sends each of them to every client with room in its queue before it returns. A message that found a
queue full is left to a `deliverSlow`, which is not waited for, so the sender's next message can get
into the queue first (`order_lost`). When no message of a sender is enqueued while an earlier one of
it is being retried, the order is kept (`order_kept`). -/

namespace LanRoom.Chat

open ThreadPool (Tid Machine Act Outline)

variable {u : UUIDPackage} {t t' : Tid} {k : Choice} {h h' : Hub} {c s : Conn} {cl : Client}
  {f : Frame} {e : Entry} {th th' : Thread} {fs : List Thread}
  {c₀ c₁ d : ThreadPool.Config Hub Thread} {q : Frame → Bool}

/-! ## Who has a message in hand -/

/-- The connection whose `ReadPump` the goroutine is. -/
def Thread.pump : Thread → Option Conn
  | .readPump s _ => some s
  | _ => none

/-- The chat message a call of `deliver` was made with. -/
def DeliverPC.hand (pc : DeliverPC) : Option Entry :=
  match pc.delivery with
  | .message e => some e
  | .presence _ _ => none

/-- The chat message a goroutine is working on in `SendMessage`. -/
def Thread.hand (th : Thread) : Option Entry :=
  match th with
  | .readPump _ (.recipients e) => some e
  | .readPump _ (.addToHistory e) => some e
  | _ => th.deliverPC.bind DeliverPC.hand

/-- What a delivery has in hand does not depend on its caller. It is the message that the call was
made with. -/
@[simp] theorem Caller.hand_thread (p : Caller) (pc : DeliverPC) : (p.thread pc).hand = pc.hand := by
  rcases p with _ | _ | _ | _ <;> rfl

/-- The same for the callers of an announcement. A presence frame is no chat message, so this is
none. -/
@[simp] theorem PresenceCaller.hand_deliver (p : PresenceCaller) (pc : DeliverPC) :
    (p.thread (.deliver pc)).hand = pc.hand :=
  Caller.hand_thread (.presence p) pc

/-- When a delivery is over nothing is in hand. Of a broadcast all copies have been placed or handed
to a `deliverSlow` by then. -/
@[simp] theorem Caller.hand_back (p : Caller) : p.back.hand = none := by
  rcases p with _ | _ | _ | _ <;> rfl

/-- A caller that goes on is the goroutine it was. A `ReadPump` is still the one of its connection
after `SendMessage`. -/
@[simp] theorem Caller.pump_back (p : Caller) (pc : DeliverPC) : p.back.pump = (p.thread pc).pump := by
  rcases p with _ | _ | _ | _ <;> rfl

/-- The program point of a delivery does not say which goroutine performs it. -/
theorem Caller.pump_thread (p : Caller) (pc pc' : DeliverPC) :
    (p.thread pc').pump = (p.thread pc).pump := by
  rcases p with _ | _ | _ | _ <;> rfl

/-- The same for an announcement. The sections of `broadcastPresence` do not turn it into another
goroutine. -/
theorem PresenceCaller.pump_thread (p : PresenceCaller) (pc pc' : PresencePC) :
    (p.thread pc').pump = (p.thread pc).pump := by
  cases p <;> rfl

/-- What a section does to the message in hand: it keeps it, lays it down, or makes it of an incoming
message. -/
inductive Hands (h h' : Hub) (th th' : Thread) : Prop
  | keeps (haccepted : h'.accepted = h.accepted)
      (hhand : ∀ e', th'.hand = some e' → ∃ e, th.hand = some e ∧ e'.seq = e.seq)
  | takes {s : Conn} {m : ChatMessage} (hpump : th.pump = some s)
      (haccepted : h'.accepted = h.accepted ++ [(s, m)])
      (hhand : ∀ e', th'.hand = some e' → e'.seq = h.accepted.length)

/-- A section that ends with no message in hand. There is nothing whose place among the accepted
messages had to be shown. -/
theorem Hands.of_none (haccepted : h'.accepted = h.accepted) (hhand : th'.hand = none) :
    Hands h h' th th' :=
  .keeps haccepted fun e' he' => by
    rw [hhand] at he'
    cases he'

/-- **What a section does to the message in hand**: it keeps it, lets it go, or takes up the one it
has just accepted; and a goroutine stays the `ReadPump` it is. -/
theorem Effect.hands (heffect : Effect u t h th h' th' fs) :
    Hands h h' th th' ∧ th'.pump = th.pump := by
  cases heffect with
  -- within a delivery the message in hand stays the same
  | @locked p m clients hperm =>
      exact ⟨.keeps rfl fun e' he' => ⟨e', by simpa [DeliverPC.hand, DeliverPC.delivery] using he', rfl⟩,
        p.pump_thread _ _⟩
  | @unlocked p m => exact ⟨.of_none rfl p.hand_back, p.pump_back _⟩
  | @skipped p m c rest cl hc hskip =>
      exact ⟨.keeps rfl fun e' he' => ⟨e', by simpa [DeliverPC.hand, DeliverPC.delivery] using he', rfl⟩,
        p.pump_thread _ _⟩
  | @sent p m c rest cl h' hc hpass hsend | @forked p m c rest cl h' hc hpass hsend =>
      exact ⟨.keeps (Hub.trySend_counters hsend).1 fun e' he' =>
        ⟨e', by simpa [DeliverPC.hand, DeliverPC.delivery] using he', rfl⟩, p.pump_thread _ _⟩
  | @devices p clients hperm => exact ⟨.of_none rfl (p.hand_deliver _), p.pump_thread _ _⟩
  -- the only section that takes a message is the one that accepts it from the sender
  | accepted hc hscreen =>
      refine ⟨.takes rfl rfl fun e' he' => ?_, rfl⟩
      split at he' <;> obtain rfl := Option.some.inj he' <;> rfl
  | @recipients c e =>
      refine ⟨.keeps rfl fun e' he' => ⟨e, rfl, ?_⟩, rfl⟩
      obtain rfl := Option.some.inj he'
      rfl
  | @addedToHistory c e hfree => exact ⟨.keeps rfl fun e' he' => ⟨e', he', rfl⟩, rfl⟩
  | welcomed hc | replayed => exact ⟨.of_none (h.enqueueJSON_counters ..).1 rfl, rfl⟩
  -- the sections of `deliverSlow` and of leaving carry no message of a pump
  | left hfree hleave | hadLeft hfree hleave | slowKicked hfree hleave | slowHadLeft hfree hleave =>
      exact ⟨.of_none (Hub.unregister_counters hleave).1 rfl, rfl⟩
  | slowSent hmem hsend | slowFull hmem hsend =>
      exact ⟨.of_none (Hub.trySend_counters hsend).1 rfl, rfl⟩
  | joined hfree | cutoff | noHistory hc hnil | snapshot hc hne | failed | ignored | slowStarted
  | slowContinued htime | slowTimedOut htime | slowGone hmem | slowWoke htime | slowStill hmem
  | slowMissed hmem | took hc hsend | writeEnded => exact ⟨.of_none rfl rfl, rfl⟩

/-- The only `ReadPump` a section starts is that of a connection whose `Register` ends. -/
theorem Effect.pump_forks (heffect : Effect u t h th h' th' fs) :
    (∀ f ∈ fs, f.pump = none) ∨ (∃ pc, th = .register (.presence pc)) ∧
      th' = .register .registered ∧ fs = [.writePump t false, .readPump t .read] := by
  cases heffect with
  | @unlocked p m =>
      rcases p with _ | _ | _ | _
      · exact .inl fun _ hf => absurd hf List.not_mem_nil
      · exact .inr ⟨⟨_, rfl⟩, rfl, rfl⟩
      · exact .inl fun _ hf => absurd hf List.not_mem_nil
      · exact .inl fun _ hf => absurd hf List.not_mem_nil
  | forked hc hpass hsend =>
      refine .inl fun f hf => ?_
      obtain rfl := List.mem_singleton.mp hf
      rfl
  | _ => exact .inl fun _ hf => absurd hf List.not_mem_nil

/-- Who has returned from `Register` does not move. That thread stays in its place, which marks that
its pumps have been started. -/
theorem Effect.ne_registered (heffect : Effect u t h th h' th' fs) : th ≠ .register .registered := by
  cases heffect with
  | @locked p | @unlocked p | @skipped p | @sent p | @forked p =>
      rcases p with _ | _ | _ | _ <;> exact nofun
  | @devices p => rcases p with _ | _ | _ <;> exact nofun
  | _ => exact nofun

/-! ## One `ReadPump` for each connection -/

/-- Whether the goroutine is the `ReadPump` of `s`. -/
def Thread.pumps (s : Conn) (th : Thread) : ℕ := if th.pump = some s then 1 else 0

/-- Every connection has at most one `ReadPump`, started when its `Register` ends, and the message a
`ReadPump` has in hand is the last one it has read. -/
structure Pumping (d : ThreadPool.Config Hub Thread) : Prop where
  once : ∀ s, (d.threads.map (Thread.pumps s)).sum ≤ 1
  after : ∀ s, 0 < (d.threads.map (Thread.pumps s)).sum →
    d.threads[s]? = some (.register .registered)
  latest : ∀ (t : Tid) (th : Thread), d.threads[t]? = some th → ∀ e, th.hand = some e →
    ∃ s m, th.pump = some s ∧ d.shared.accepted[e.seq]? = some (s, m) ∧
      ∀ n x, e.seq < n → d.shared.accepted[n]? = some x → x.1 ≠ s

/-- The message in hand stays the last one when another goroutine moves. -/
theorem Pumping.latest_other (hpumping : Pumping c₀) (hth : c₀.threads[t]? = some th)
    (hhands : Hands c₀.shared h' th th') (htt' : t' ≠ t) {w : Thread}
    (hw : c₀.threads[t']? = some w) (he : w.hand = some e) :
    ∃ s m, w.pump = some s ∧ h'.accepted[e.seq]? = some (s, m) ∧
      ∀ n x, e.seq < n → h'.accepted[n]? = some x → x.1 ≠ s := by
  obtain ⟨s, m, hpump, haccepted, hlast⟩ := hpumping.latest t' w hw e he
  cases hhands with
  | keeps hsame hhand =>
      rw [hsame]
      exact ⟨s, m, hpump, haccepted, hlast⟩
  | @takes s₁ m₁ hpump₁ happend hhand =>
      refine ⟨s, m, hpump, ?_, fun n x hn hx => ?_⟩
      · rw [happend, List.getElem?_append_left (List.getElem?_eq_some_iff.mp haccepted).1]
        exact haccepted
      · rw [happend] at hx
        rcases ThreadPool.getElem?_append_cases hx with hold | ⟨-, hnew⟩
        · exact hlast n x hn hold
        · obtain rfl := List.mem_singleton.mp hnew
          rintro rfl
          -- the goroutine that has read a message and this one are two
          have htwo := ThreadPool.add_le_sum_map (Thread.pumps s₁) htt' hw hth
          have hone := hpumping.once s₁
          simp only [Thread.pumps, hpump, hpump₁, if_true] at htwo hone
          omega

/-- **Every action keeps the pumps apart**: there is at most one `ReadPump` of a connection, it
starts when the registration is over, and the message in its hand is the latest one of its sender.
-/
theorem pumping_exec {act : Act Thread Choice ℕ} (hpumping : Pumping c₀) (harrive : Arrivals c₀ act)
    (hexec : (machine u).exec c₀ act = some d) : Pumping d := by
  cases act with
  | spawn th =>
      obtain rfl := Option.some.inj hexec
      obtain ⟨device, rfl⟩ := harrive th rfl
      have hsum : ∀ s, ((c₀.threads ++ [Thread.register (.start device)]).map (Thread.pumps s)).sum =
          (c₀.threads.map (Thread.pumps s)).sum := fun s => by
        rw [List.map_append, List.sum_append]
        rfl
      refine ⟨fun s => hsum s ▸ hpumping.once s, fun s hpos => ?_, fun t th hth e he => ?_⟩
      · have hpc := hpumping.after s (hsum s ▸ hpos)
        exact ThreadPool.getElem?_append hpc _
      · rcases ThreadPool.getElem?_append_cases hth with hold | ⟨-, hnew⟩
        · exact hpumping.latest t th hold e he
        · obtain rfl := List.mem_singleton.mp hnew
          cases he
  | env n =>
      obtain rfl := Option.some.inj hexec
      exact ⟨hpumping.once, hpumping.after, hpumping.latest⟩
  | run t k =>
      obtain ⟨th, h', th', fs, hth, hstep, rfl⟩ := (machine u).exec_run_iff.mp hexec
      have heffect : Effect u t c₀.shared th h' th' fs := .of_step hstep
      obtain ⟨hhands, hpump⟩ := heffect.hands
      have hforks := heffect.pump_forks
      have hlt := (List.getElem?_eq_some_iff.mp hth).1
      -- a goroutine that is started has nothing in hand
      have hnew : ∀ f ∈ fs, f.hand = none := by
        intro f hf
        have hdeliver := heffect.deliverPC_forks f hf
        rcases hforks with hnone | ⟨-, -, rfl⟩
        · have hf := hnone f hf
          cases f with
          | readPump s pc => cases hf
          | _ =>
              unfold Thread.hand
              rw [hdeliver]
              rfl
        · rcases List.mem_cons.mp hf with rfl | hf
          · rfl
          · obtain rfl := List.mem_singleton.mp hf
            rfl
      -- the number of pumps grows by those that are started
      have hsum : ∀ s, ((c₀.threads.set t th' ++ fs).map (Thread.pumps s)).sum =
          (c₀.threads.map (Thread.pumps s)).sum + (fs.map (Thread.pumps s)).sum := fun s => by
        have hset := ThreadPool.sum_set_append (Thread.pumps s) hth th' fs
        have hsame : th'.pumps s = th.pumps s := by rw [Thread.pumps, hpump, Thread.pumps]
        omega
      -- a `ReadPump` is started only where there was none
      have hstart : ∀ s, (fs.map (Thread.pumps s)).sum = 0 ∨ s = t ∧ th' = .register .registered ∧
          (fs.map (Thread.pumps s)).sum = 1 ∧ (c₀.threads.map (Thread.pumps s)).sum = 0 := by
        intro s
        rcases hforks with hnone | ⟨-, hreg, rfl⟩
        · refine .inl (ThreadPool.sum_map_eq_zero.mpr fun f hf => ?_)
          rw [Thread.pumps, hnone f hf]
          rfl
        · by_cases hst : s = t
          · subst hst
            refine .inr ⟨rfl, hreg, by simp [Thread.pumps, Thread.pump], ?_⟩
            by_contra hpos
            have hpc := hpumping.after s (Nat.pos_of_ne_zero hpos)
            exact heffect.ne_registered (Option.some.inj (hth.symm.trans hpc))
          · have hts : t ≠ s := Ne.symm hst
            exact .inl (by simp [Thread.pumps, Thread.pump, hts])
      refine ⟨fun s => ?_, fun s hpos => ?_, ?_⟩
      · have hone := hpumping.once s
        have hadd := hsum s
        show ((c₀.threads.set t th' ++ fs).map (Thread.pumps s)).sum ≤ 1
        rcases hstart s with hzero | ⟨-, -, hfs, hold⟩ <;> omega
      · have hadd := hsum s
        change 0 < ((c₀.threads.set t th' ++ fs).map (Thread.pumps s)).sum at hpos
        rcases hstart s with hzero | ⟨rfl, hreg, -⟩
        · have hpc := hpumping.after s (by omega)
          have hne : t ≠ s := by
            rintro rfl
            exact heffect.ne_registered (Option.some.inj (hth.symm.trans hpc))
          exact ThreadPool.getElem?_set_append_ne hpc hne th' fs
        · rw [← hreg]
          exact ThreadPool.getElem?_set_append_self hth th' fs
      · refine ThreadPool.forall_set_append (fun v w hne hw e he =>
          hpumping.latest_other hth hhands hne hw he) (fun e he => ?_) fun f hf _ e he => ?_
        · cases hhands with
          | keeps hsame hhand =>
              obtain ⟨e₀, he₀, hseq⟩ := hhand e he
              rw [hseq, hpump, hsame]
              exact hpumping.latest t th hth e₀ he₀
          | @takes s m hs happend hhand =>
              rw [hhand e he, hpump, happend]
              refine ⟨s, m, hs, List.getElem?_concat_length, fun n x hn hx => ?_⟩
              have hlt := (List.getElem?_eq_some_iff.mp hx).1
              rw [List.length_append, List.length_singleton] at hlt
              omega
        · rw [hnew f hf] at he
          cases he

/-- So in every reachable configuration the pumps are apart. It is the run lemma for the three parts
of the invariant. -/
theorem Reachable.pumping (hreach : Reachable u d) : Pumping d := by
  obtain ⟨historyTTL, now, hrun⟩ := hreach
  have hboot : Pumping (boot historyTTL now) :=
    ⟨fun _ => Nat.zero_le _, fun _ hpos => absurd hpos (lt_irrefl 0), fun t th hth => by
      simp [boot] at hth⟩
  exact hrun.invariant (I := Pumping) hboot
    fun _ _ _ hpumping harrive hexec => pumping_exec hpumping harrive hexec

/-! ## A message is not lost on its way -/

/-- The frame is message `n`, for the device. -/
def shows (n : ℕ) (device : Device) (f : Frame) : Bool :=
  (Key.message n).matches f && f.suits device

/-- The copies of frames with the property `q` that are in the queue of `c`, due to it, or about to be
delivered. -/
def copies (q : Frame → Bool) (c : Conn) (d : ThreadPool.Config Hub Thread) : ℕ :=
  owed q c d + (d.threads.map (Thread.holds q)).sum

/-- The frames that show a message are neither welcome nor history. -/
theorem shows_live (n : ℕ) (device : Device) : Live (shows n device) := by
  have hlive := (Key.message n).live
  constructor
  · intro device'
    rw [shows, hlive.1, Bool.false_and]
  · intro msgs
    rw [shows, hlive.2, Bool.false_and]

/-- `deliver` skips no client of the device. A message that the device is shown passes the filter of
`deliver` for it. -/
theorem not_skips_shows {n : ℕ} (hc : h.conns c = some cl) : ¬ Skips (shows n cl.device) h c := by
  rintro ⟨m, cl', hshows, hc', hskip⟩
  obtain rfl := Option.some.inj (hc.symm.trans hc')
  rw [shows, Bool.and_eq_true] at hshows
  cases m with
  | message e =>
      have hvisible := List.all_eq_true.mp hshows.2 e (List.mem_singleton.mpr rfl)
      rw [Delivery.passes, hvisible] at hskip
      cases hskip
  | presence seq users => cases hshows.1

/-- A section that takes a message out of a goroutine's hands makes it due. -/
theorem Effect.holds_le (hfill : ∀ e : Entry, q (.message e) = true →
      q (.message { e with msg := h.fillRecipients e.msg }) = true)
    (heffect : Effect u t h th h' th' fs) : th.holds q ≤ th'.holds q + calls q th th' := by
  cases heffect with
  | @recipients c e =>
      refine Nat.le_trans ?_ (Nat.le_add_right _ _)
      simp only [Thread.holds]
      by_cases he : q (.message e) = true
      · rw [if_pos he, if_pos (hfill e he)]
      · rw [if_neg he]
        exact Nat.zero_le _
  | addedToHistory hfree => exact Nat.le_add_left _ _
  | @locked p | @unlocked p | @skipped p | @sent p | @forked p =>
      rw [p.holds_thread]
      exact Nat.zero_le _
  | @devices p =>
      rw [p.holds_thread]
      exact Nat.zero_le _
  | _ => exact Nat.zero_le _

/-- The copies of a message for a connection that stays registered do not become fewer. -/
theorem copies_of_effect {n : ℕ} (hvalid : (outline u).Valid () c₀)
    (hc : c₀.shared.conns c = some cl) (hth : c₀.threads[t]? = some th)
    (heffect : Effect u t c₀.shared th h' th' fs) (hmem : c ∈ h'.clients) :
    copies (shows n cl.device) c c₀ ≤ copies (shows n cl.device) c ⟨h', c₀.threads.set t th' ++ fs⟩ := by
  have howed := owed_of_effect hvalid (shows_live n cl.device) (not_skips_shows hc) hth heffect hmem
  have hholds := heffect.holds_le (q := shows n cl.device) fun e he => he
  have hsum := ThreadPool.sum_set_append (Thread.holds (shows n cl.device)) hth th' fs
  show owed _ c c₀ + (c₀.threads.map _).sum ≤ owed _ c _ + ((c₀.threads.set t th' ++ fs).map _).sum
  omega

/-- A frame that shows message `n` is a chat message. Its number is that of the entry in it. -/
theorem message_of_shows {n : ℕ} {device : Device} (hshows : shows n device f = true) :
    ∃ e, f = .message e ∧ e.seq = n := by
  rw [shows, Bool.and_eq_true] at hshows
  cases f with
  | message e => exact ⟨e, rfl, of_decide_eq_true hshows.1⟩
  | welcome device | history msgs | presence seq users => cases hshows.1

/-- A message about to be delivered is in hand. By then the sender's `ReadPump` has read it and goes
on with nothing else. -/
theorem Thread.hand_of_holds (hholds : th.holds q ≠ 0) :
    ∃ e, th.hand = some e ∧ q (.message e) = true := by
  unfold holds at hholds
  split at hholds
  · rename_i s e
    refine ⟨e, rfl, ?_⟩
    by_contra hnot
    exact hholds (if_neg hnot)
  · rename_i s e
    refine ⟨e, rfl, ?_⟩
    by_contra hnot
    exact hholds (if_neg hnot)
  · exact absurd rfl hholds

/-- A message that is due is in hand, or being retried. In the first case the sender cannot have
read a later message yet; the second is the one in which order can be lost. -/
theorem Thread.hand_or_slow_of_due {n : ℕ} {device : Device}
    (hdue : th.due (shows n device) c ≠ 0) : (∃ e, th.hand = some e ∧ e.seq = n) ∨
      ∃ e pc, th = .slow c (.message e) pc ∧ pc.waiting = true ∧ e.seq = n := by
  -- a delivery under way has its message in hand
  have hdeliver : (th.deliverPC.map (DeliverPC.due (shows n device) c)).getD 0 ≠ 0 →
      ∃ e, th.hand = some e ∧ e.seq = n := by
    intro hpos
    cases hpc : th.deliverPC with
    | none =>
        rw [hpc] at hpos
        exact absurd rfl hpos
    | some pc =>
        rw [hpc] at hpos
        have hshows : shows n device pc.delivery.frame = true := by
          by_contra hnot
          cases pc <;> exact hpos (if_neg hnot)
        obtain ⟨e, hframe, hseq⟩ := message_of_shows hshows
        refine ⟨e, ?_, hseq⟩
        have hhand : pc.hand = some e := by
          unfold DeliverPC.hand
          split
          · rename_i e' hdelivery
            rw [hdelivery] at hframe
            cases hframe
            rfl
          · rename_i seq users hdelivery
            rw [hdelivery] at hframe
            cases hframe
        unfold Thread.hand
        split
        · cases hpc
        · cases hpc
        · rw [hpc]
          exact hhand
  unfold due at hdue
  split at hdue
  · -- a `deliverSlow` either waits, or has gone on to the announcement of the devices
    rename_i c' f pc
    by_cases hwaiting : pc.waiting = true
    · rw [if_pos hwaiting] at hdue
      have hfor : c' = c ∧ shows n device f = true := by
        by_contra hnot
        exact hdue (if_neg hnot)
      obtain ⟨rfl, hshows⟩ := hfor
      obtain ⟨e, rfl, hseq⟩ := message_of_shows hshows
      exact .inr ⟨e, pc, rfl, hwaiting, hseq⟩
    · rw [if_neg hwaiting] at hdue
      exact .inl (hdeliver hdue)
  · exact .inl (hdeliver hdue)

/-! ## The condition -/

/-- A message of `s` with a number below `n` is being retried for `c`. -/
def Thread.retries (h : Hub) (s c : Conn) (n : ℕ) : Thread → Bool
  | .slow c' (.message e) pc => decide (c' = c) && pc.waiting && decide (e.seq < n) &&
      (h.accepted[e.seq]?).any fun x => decide (x.1 = s)
  | _ => false

/-- No message of `s` gets into the queue of `c` while an earlier one of it is being retried. -/
def inTurn (s c : Conn) (d : ThreadPool.Config Hub Thread) : Act Thread Choice ℕ → Bool
  | .run t _ =>
      match (d.threads[t]?).bind (Thread.offers c) with
      | some (.message e) => !d.shared.takes c (.message e) ||
          !((d.shared.accepted[e.seq]?).any fun x => decide (x.1 = s)) ||
          d.threads.all fun th => !th.retries d.shared s c e.seq
      | _ => true
  | _ => true

/-- The condition, spelled out for the section that is about to place a message. -/
theorem inTurn_run {m : ChatMessage} (hturn : inTurn s c c₀ (.run t k) = true)
    (hth : c₀.threads[t]? = some th) (hoffers : th.offers c = some (.message e))
    (htakes : c₀.shared.takes c (.message e) = true)
    (hsender : c₀.shared.accepted[e.seq]? = some (s, m)) {w : Thread} (hw : w ∈ c₀.threads) :
    w.retries c₀.shared s c e.seq = false := by
  rw [inTurn, hth, Option.bind_some, hoffers] at hturn
  simp only [htakes, hsender, Option.any_some, decide_true, Bool.not_true, Bool.false_or,
    List.all_eq_true, Bool.not_eq_true'] at hturn
  exact hturn w hw

/-! ## One section -/

/-- When a message of `s` is placed in turn, every earlier one for the device has been placed. -/
theorem placed_of_inTurn {n : ℕ} {m m' : ChatMessage} (hpumping : Pumping c₀)
    (hturn : inTurn s c c₀ (.run t k) = true) (hth : c₀.threads[t]? = some th)
    (hoffers : th.offers c = some (.message e)) (htakes : c₀.shared.takes c (.message e) = true)
    (hn : n < e.seq) (hsender : c₀.shared.accepted[e.seq]? = some (s, m))
    (hsender' : c₀.shared.accepted[n]? = some (s, m')) {device : Device}
    (hcopies : 1 ≤ copies (shows n device) c c₀) :
    ∃ e₁, e₁.seq = n ∧ Frame.message e₁ ∈ c₀.shared.placed c := by
  -- the `ReadPump` of `s` has gone on to a later message
  have hgone : ∀ w ∈ c₀.threads, ∀ e₁, w.hand = some e₁ → e₁.seq ≠ n := by
    rintro w hw e₁ hhand rfl
    obtain ⟨t', ht'⟩ := List.mem_iff_getElem?.mp hw
    obtain ⟨s', m₁, -, haccepted, hlast⟩ := hpumping.latest t' w ht' e₁ hhand
    obtain ⟨rfl, -⟩ := Prod.mk.inj (Option.some.inj (hsender'.symm.trans haccepted))
    exact hlast _ _ hn hsender rfl
  have hholds : (c₀.threads.map (Thread.holds (shows n device))).sum = 0 := by
    refine ThreadPool.sum_map_eq_zero.mpr fun w hw => ?_
    by_contra hpos
    obtain ⟨e₁, hhand, hshows⟩ := Thread.hand_of_holds hpos
    obtain ⟨e₂, heq, hseq⟩ := message_of_shows hshows
    cases heq
    exact hgone w hw e₁ hhand hseq
  have hdue : (c₀.threads.map (Thread.due (shows n device) c)).sum = 0 := by
    refine ThreadPool.sum_map_eq_zero.mpr fun w hw => ?_
    by_contra hpos
    rcases Thread.hand_or_slow_of_due hpos with ⟨e₁, hhand, hseq⟩ | ⟨e₁, pc, rfl, hwaiting, rfl⟩
    · exact hgone w hw e₁ hhand hseq
    · have hnot := inTurn_run hturn hth hoffers htakes hsender hw
      simp [Thread.retries, hwaiting, hn, hsender'] at hnot
  have hplaced : 0 < (c₀.shared.placed c).countP (shows n device) := by
    unfold copies owed at hcopies
    omega
  obtain ⟨f, hf, hshows⟩ := List.countP_pos_iff.mp hplaced
  obtain ⟨e₁, rfl, hseq⟩ := message_of_shows hshows
  exact ⟨e₁, hseq, hf⟩

/-! ## Whole runs -/

/-- What holds of message `n`, which `s` has sent and which is for the device, and of the connection
`c` of that device: `c` has it or will get it, and it has it before any later message of `s`. -/
structure InOrder (n : ℕ) (s c : Conn) (device : Device) (d : ThreadPool.Config Hub Thread) : Prop where
  conn : ∃ cl, d.shared.conns c = some cl ∧ cl.device = device
  sender : ∃ m, d.shared.accepted[n]? = some (s, m)
  one : c ∈ d.shared.clients → 1 ≤ copies (shows n device) c d
  order : c ∈ d.shared.clients → ∀ (pre post : List Frame) (e : Entry) (m : ChatMessage),
    d.shared.placed c = pre ++ .message e :: post → n < e.seq →
      d.shared.accepted[e.seq]? = some (s, m) → ∃ e₁, e₁.seq = n ∧ Frame.message e₁ ∈ pre

/-- A section keeps the order: what it places is a frame of somebody else, or comes in turn. -/
theorem InOrder.order_of_effect {n : ℕ} {device : Device} (hreach : Reachable u c₀)
    (horder : InOrder n s c device c₀) (hturn : inTurn s c c₀ (.run t k) = true)
    (hth : c₀.threads[t]? = some th) (heffect : Effect u t c₀.shared th h' th' fs)
    (hmem₀ : c ∈ c₀.shared.clients) {pre post : List Frame} {m : ChatMessage}
    (hplaced : h'.placed c = pre ++ .message e :: post) (hn : n < e.seq)
    (hsender : h'.accepted[e.seq]? = some (s, m)) :
    ∃ e₁, e₁.seq = n ∧ Frame.message e₁ ∈ pre := by
  have hvalid := hreach.valid
  have hsound := step_sound hvalid.inv (hvalid.loc t th hth) heffect
  obtain ⟨cl, hc, -⟩ := horder.conn
  -- whoever has placed the message has it from `s`, before this section as after it
  have hbefore : ∀ {x : Conn × ChatMessage}, c₀.shared.accepted[e.seq]? = some x →
      c₀.shared.accepted[e.seq]? = some (s, m) := by
    intro x hx
    have hx' := hsound.grows.accepted _ x hx
    rw [hx, ← hx', hsender]
  have hold : ∀ post₁, c₀.shared.placed c = pre ++ .message e :: post₁ →
      ∃ e₁, e₁.seq = n ∧ Frame.message e₁ ∈ pre := by
    intro post₁ hplaced₀
    have hmem : Frame.message e ∈ cl.placed := by
      rw [← Hub.placed_of_conn hc, hplaced₀]
      exact List.mem_append_right _ List.mem_cons_self
    obtain ⟨s₁, m₁, cl₁, haccepted, -⟩ :=
      (hvalid.inv.queue c cl hc _ hmem e (List.mem_singleton.mpr rfl)).1
    exact horder.order hmem₀ pre post₁ e m hplaced₀ hn (hbefore haccepted)
  rcases heffect.placed hvalid.inv (hvalid.loc t th hth) c with hsame | ⟨f, hplaces⟩
  · rw [hsame] at hplaced
    exact hold post hplaced
  · rw [hplaces.append] at hplaced
    rcases List.eq_nil_or_concat post with rfl | ⟨post₁, x, rfl⟩
    · -- the message has just been placed
      obtain ⟨rfl, heq⟩ := List.append_inj' hplaced rfl
      obtain rfl : f = .message e := (List.cons.inj heq).1
      have hoffers : th.offers c = some (.message e) := by
        rcases hplaces.places.offers with hoffers | ⟨-, ⟨_, heq, -⟩ | ⟨_, heq, -⟩⟩
        · exact hoffers
        · cases heq
        · cases heq
      have htakes := heffect.takes hvalid.inv (hvalid.loc t th hth) hplaces
      obtain ⟨s₁, m₁, cl₁, haccepted, -⟩ := (hvalid.loc t th hth).authentic e
        (hplaces.places.entries (List.mem_singleton.mpr rfl))
      obtain ⟨m', hsender'⟩ := horder.sender
      exact placed_of_inTurn hreach.pumping hturn hth hoffers htakes hn (hbefore haccepted) hsender'
        (horder.one hmem₀)
    · have hinit : c₀.shared.placed c ++ [f] = (pre ++ .message e :: post₁) ++ [x] := by
        rw [hplaced]
        simp
      obtain ⟨hplaced₀, -⟩ := List.append_inj' hinit rfl
      exact hold post₁ hplaced₀

/-- **The step theorem**: an action that meets the condition keeps the order. A later message of the
sender can only be placed by its `ReadPump`, which by then has delivered or handed over the earlier
one. -/
theorem inOrder_exec {n : ℕ} {device : Device} {act : Act Thread Choice ℕ} (hreach : Reachable u c₀)
    (horder : InOrder n s c device c₀) (harrive : Arrivals c₀ act) (hturn : inTurn s c c₀ act = true)
    (hexec : (machine u).exec c₀ act = some d) : InOrder n s c device d := by
  have hvalid := hreach.valid
  have hconn := conn_exec hvalid horder.conn hexec
  obtain ⟨m', hsender'⟩ := horder.sender
  cases act with
  -- a thread that arrives owes nothing
  | spawn th =>
      obtain rfl := Option.some.inj hexec
      obtain ⟨device', rfl⟩ := harrive th rfl
      refine ⟨hconn, ⟨m', hsender'⟩, fun hmem => Nat.le_trans (horder.one hmem) (Nat.le_of_eq ?_),
        horder.order⟩
      unfold copies owed
      simp only [List.map_append, List.sum_append]
      rfl
  | env k =>
      obtain rfl := Option.some.inj hexec
      exact ⟨hconn, ⟨m', hsender'⟩, horder.one, horder.order⟩
  | run t k =>
      obtain ⟨th, h', th', fs, hth, hstep, rfl⟩ := (machine u).exec_run_iff.mp hexec
      have heffect : Effect u t c₀.shared th h' th' fs := .of_step hstep
      have hsound := step_sound hvalid.inv (hvalid.loc t th hth) heffect
      obtain ⟨cl, hc, hdevice⟩ := horder.conn
      subst hdevice
      refine ⟨hconn, ⟨m', hsound.grows.accepted _ _ hsender'⟩, fun hmem => ?_,
        fun hmem pre post e m hplaced hn hsender => ?_⟩
      · -- the connection was registered before, so it was counted before
        have hmem₀ := heffect.mem_clients hvalid.inv (hvalid.loc t th hth) hc hmem
        exact Nat.le_trans (horder.one hmem₀) (copies_of_effect hvalid hc hth heffect hmem)
      · have hmem₀ := heffect.mem_clients hvalid.inv (hvalid.loc t th hth) hc hmem
        exact horder.order_of_effect hreach hturn hth heffect hmem₀ hplaced hn hsender

/-- **The order of a sender is kept when retries come first**: let the `ReadPump` of `s` read a message
that is for the device of the registered connection `c`. In every run from there in which no message
of `s` gets into the queue of `c` while an earlier one of it is being retried, every later message of
`s` in the queue of `c` has that one before it, as long as `c` stays registered. -/
theorem order_kept {sender : Client} {incoming m : ChatMessage} {toIDs : List GoString}
    {pre post : List Frame} (hreach : Reachable u c₀)
    (hth : c₀.threads[t]? = some (.readPump s .read)) (hc : c₀.shared.conns c = some cl)
    (hs : c₀.shared.conns s = some sender)
    (hscreen : screen u sender.device incoming = some toIDs)
    (hvisible : (c₀.shared.entry sender toIDs incoming).msg.visibleTo cl.device.id = true)
    (hread : (machine u).exec c₀ (.run t (.incoming incoming)) = some c₁)
    (hrun : (machine u).Run (fun d act => Arrivals d act ∧ inTurn s c d act = true) c₁ d)
    (hregistered : c ∈ d.shared.clients) (hplaced : d.shared.placed c = pre ++ .message e :: post)
    (hsender : d.shared.accepted[e.seq]? = some (s, m)) (hlater : c₀.shared.accepted.length < e.seq) :
    ∃ e₁, e₁.seq = c₀.shared.accepted.length ∧ Frame.message e₁ ∈ pre := by
  have hreach₁ : Reachable u c₁ := hreach.exec (fun _ heq => by cases heq) hread
  have horder₁ : InOrder c₀.shared.accepted.length s c cl.device c₁ := by
    have hconn := conn_exec hreach.valid ⟨cl, hc, rfl⟩ hread
    obtain ⟨th, h', th', fs, hth', hstep, rfl⟩ := (machine u).exec_run_iff.mp hread
    obtain rfl := Option.some.inj (hth.symm.trans hth')
    have heq : h' = c₀.shared.accept s incoming ∧ th' = .readPump s (if toIDs = [] then
        .addToHistory (c₀.shared.entry sender toIDs incoming)
        else .recipients (c₀.shared.entry sender toIDs incoming)) := by
      obtain ⟨⟨h₁, pc₁, fs₁⟩, hpump, heq⟩ := Option.map_eq_some_iff.mp hstep
      simp only [readStep, hs, Option.map_some, hscreen] at hpump
      cases hpump
      cases heq
      exact ⟨rfl, rfl⟩
    obtain ⟨rfl, rfl⟩ := heq
    refine ⟨hconn, ⟨incoming, List.getElem?_concat_length⟩, fun _ => ?_,
      fun _ pre post e m hplaced hn hsender => ?_⟩
    · -- the `ReadPump` has the message in hand
      have hshows : shows c₀.shared.accepted.length cl.device
          (.message (c₀.shared.entry sender toIDs incoming)) = true := by
        rw [shows, Bool.and_eq_true]
        refine ⟨decide_eq_true rfl, List.all_eq_true.mpr fun e he => ?_⟩
        obtain rfl := List.mem_singleton.mp he
        exact hvisible
      have hholds : (Thread.readPump s (if toIDs = [] then
          .addToHistory (c₀.shared.entry sender toIDs incoming)
          else .recipients (c₀.shared.entry sender toIDs incoming))).holds
          (shows c₀.shared.accepted.length cl.device) = 1 := by
        split <;> exact if_pos hshows
      have hthread := ThreadPool.getElem?_set_append_self hth (.readPump s (if toIDs = [] then
          .addToHistory (c₀.shared.entry sender toIDs incoming)
          else .recipients (c₀.shared.entry sender toIDs incoming))) fs
      have hle := ThreadPool.le_sum_map (Thread.holds (shows c₀.shared.accepted.length cl.device))
        hthread
      rw [hholds] at hle
      exact Nat.le_trans hle (Nat.le_add_left _ _)
    · -- nothing that comes later has been read
      exfalso
      have hlt := (List.getElem?_eq_some_iff.mp hsender).1
      change e.seq < (c₀.shared.accepted ++ [(s, incoming)]).length at hlt
      rw [List.length_append, List.length_singleton] at hlt
      omega
  obtain ⟨-, horder⟩ : Reachable u d ∧ InOrder c₀.shared.accepted.length s c cl.device d := by
    refine hrun.invariant (I := fun d => Reachable u d ∧
      InOrder c₀.shared.accepted.length s c cl.device d) ⟨hreach₁, horder₁⟩ ?_
    rintro c₂ act d₂ ⟨hreach₂, horder₂⟩ ⟨harrive, hturn⟩ hexec
    exact ⟨hreach₂.exec harrive hexec, inOrder_exec hreach₂ horder₂ harrive hturn hexec⟩
  exact horder.order hregistered pre post e m hplaced hlater hsender

/-! ## A full queue -/

namespace Sample

/-- Thread `2`, the `ReadPump` of `0`, has called `deliver` with a message to everyone; it finishes and
sends another one. -/
def sendsTwice : List (Act Thread Choice ℕ) :=
  go 2 1 ++ [iterate 2 [0, 3]] ++ go 2 3 ++ sendMessage 2 [0, 3]

/-- Threads `0` and `3` have joined, and messages of `0` to everyone have filled both queues; then the
`WritePump` of `0` takes some frames. -/
def fullQueue : List (Act Thread Choice ℕ) :=
  bothJoin ++ go 1 1 ++ (List.replicate 254 (sendMessage 2 [0, 3])).flatten ++ go 1 8

/-- A message of `0` finds the queue of `3` full and is left to thread `6`; thread `4`, the `WritePump`
of `3`, takes a frame, and the next message of `0` gets its place; after another frame has been taken,
thread `6` succeeds. -/
def retried : List (Act Thread Choice ℕ) :=
  sendMessage 2 [0, 3] ++ go 4 1 ++ sendMessage 2 [0, 3] ++ go 4 1 ++ go 6 3

/-- Nothing has been read in `c₀`, where `0` and `3` are connected, and the second of the two messages
`0` has sent is the last frame of `3` in `d`. -/
def sentTwice (c₀ d : ThreadPool.Config Hub Thread) : Bool :=
  match (c₀.threads[2]? : Option Thread), c₀.shared.conns 3, c₀.shared.conns 0, d.shared.accepted,
    d.shared.placed 3 with
  | some (.readPump 0 .read), some _, some _, [(0, _), (0, _)], [_, _, .message _, .message e] =>
      decide (c₀.shared.accepted = []) && decide (3 ∈ d.shared.clients) && decide (e.seq = 1)
  | _, _, _, _, _ => false

/-- The last two frames of `3` are messages of `0`, the later one first. -/
def swapped (h : Hub) : Bool :=
  match (h.placed 3).reverse with
  | .message e₁ :: .message e₂ :: _ =>
      (h.accepted[e₁.seq]?).any (fun x => decide (x.1 = 0)) &&
        (h.accepted[e₂.seq]?).any (fun x => decide (x.1 = 0)) && decide (e₁.seq < e₂.seq) &&
        [Frame.message e₂, .message e₁].isSublist (h.placed 3)
  | _ => false

end Sample

/-- A message for everyone passes the screen. It names no recipients and is short enough. -/
theorem Sample.screen_hello (device : Device) : screen u device (Sample.hello []) = some [] := by
  simp [screen, hello, sanitizeRecipients]

/-- Two messages of one sender, placed in their order. Both copies are placed by `deliver` itself,
so the condition holds in every step of the run. -/
theorem order_kept_twice : ∃ (d : ThreadPool.Config Hub Thread) (e : Entry) (pre post : List Frame),
    d.shared.placed 3 = pre ++ .message e :: post ∧ e.seq = 1 ∧
      ∃ e₁, e₁.seq = 0 ∧ Frame.message e₁ ∈ pre := by
  -- one sender, two messages, both delivered while the queue has room
  have hrun : ((machine Sample.uuids).execAll (boot 1000000000 0) Sample.bothJoin).any fun c₀ =>
      ((machine Sample.uuids).exec c₀ (.run 2 (.incoming (Sample.hello [])))).any fun c₁ =>
        ((machine Sample.uuids).execAllIf (inTurn 0 3) c₁ Sample.sendsTwice).any fun d =>
          Sample.sentTwice c₀ d := by
    decide +kernel
  obtain ⟨c₀, hexec₀, hrun⟩ := (Option.any_eq_true _ _).mp hrun
  obtain ⟨c₁, hread, hrun⟩ := (Option.any_eq_true _ _).mp hrun
  obtain ⟨d, hexec, hrun⟩ := (Option.any_eq_true _ _).mp hrun
  unfold Sample.sentTwice at hrun
  split at hrun
  · rename_i cl sender m₁ m₂ f₁ f₂ e₁ e hthread hc hs haccepted hplaced
    simp only [Bool.and_eq_true, decide_eq_true_eq] at hrun
    obtain ⟨⟨hnone, hregistered⟩, hseq⟩ := hrun
    have hsteps := Sample.run_of_execAllIf (by decide) hexec
    have hplaced' : d.shared.placed 3 = [f₁, f₂, .message e₁] ++ .message e :: [] := hplaced
    have hsender : d.shared.accepted[e.seq]? = some (0, m₂) := by
      rw [haccepted, hseq]
      rfl
    have horder := order_kept (Sample.reachable_of_execAll (by decide) hexec₀) hthread hc hs
      (Sample.screen_hello _) rfl hread hsteps hregistered hplaced' hsender (by rw [hnone, hseq]; decide)
    rw [hnone] at horder
    exact ⟨d, e, _, _, hplaced', hseq, horder⟩
  · cases hrun

/-- A message that is being retried is overtaken by the next one of the same sender: both get into the
queue, in the wrong order, while both connections stay registered. -/
theorem order_lost : ∃ (d : ThreadPool.Config Hub Thread) (e₁ e₂ : Entry) (m₁ m₂ : ChatMessage),
    Reachable Sample.uuids d ∧ 0 ∈ d.shared.clients ∧ 3 ∈ d.shared.clients ∧
      d.shared.accepted[e₁.seq]? = some (0, m₁) ∧ d.shared.accepted[e₂.seq]? = some (0, m₂) ∧
      e₁.seq < e₂.seq ∧ [Frame.message e₂, .message e₁].Sublist (d.shared.placed 3) := by
  -- the first message waits in `deliverSlow` for room, and the second one finds it
  have hrun : ((machine Sample.uuids).execAll (boot 1000000000 0)
      (Sample.fullQueue ++ Sample.retried)).any fun d =>
        decide (0 ∈ d.shared.clients) && decide (3 ∈ d.shared.clients) && Sample.swapped d.shared := by
    decide +kernel
  obtain ⟨d, hexec, hrun⟩ := (Option.any_eq_true _ _).mp hrun
  simp only [Bool.and_eq_true, decide_eq_true_eq] at hrun
  obtain ⟨⟨hmem₀, hmem₃⟩, hrun⟩ := hrun
  unfold Sample.swapped at hrun
  split at hrun
  · rename_i e₁ e₂ rest hplaced
    simp only [Bool.and_eq_true, decide_eq_true_eq, List.isSublist_iff_sublist] at hrun
    obtain ⟨⟨⟨h₁, h₂⟩, hlt⟩, hsub⟩ := hrun
    obtain ⟨⟨s₁, m₁⟩, haccepted₁, h₁⟩ := (Option.any_eq_true _ _).mp h₁
    obtain ⟨⟨s₂, m₂⟩, haccepted₂, h₂⟩ := (Option.any_eq_true _ _).mp h₂
    obtain rfl : s₁ = 0 := of_decide_eq_true h₁
    obtain rfl : s₂ = 0 := of_decide_eq_true h₂
    have htame : (Sample.fullQueue ++ Sample.retried).all Sample.tame = true := by decide +kernel
    exact ⟨d, e₁, e₂, m₁, m₂, Sample.reachable_of_execAll htame hexec, hmem₀, hmem₃, haccepted₁,
      haccepted₂, hlt, hsub⟩
  · cases hrun

end LanRoom.Chat

import LanRoom.Chat.Ledger

/-! # Every delivery ends in exactly one copy, or in a disconnect

A call of `deliver` sends to a client with room in its queue and leaves a client whose queue is full
to a `deliverSlow`. That goroutine ends when it has sent the frame, when it finds the client gone, or
when it has unregistered it. -/

namespace LanRoom.Chat

open ThreadPool (Tid Machine Act Outline)

variable {u : UUIDPackage} {t : Tid} {k : Choice} {h h' : Hub} {c : Conn} {cl : Client}
  {f : Frame} {m : Delivery} {th th' : Thread} {fs : List Thread} {d : ThreadPool.Config Hub Thread}
  {q q' : Frame → Bool} {device : Device}

/-! ## The frames of one call -/

/-- The frame `deliver` was called with. -/
def Delivery.isFrame (m : Delivery) (f : Frame) : Bool := f = m.frame

/-- What identifies the call. -/
def Delivery.key : Delivery → Key
  | .message e => .message e.seq
  | .presence seq _ => .presence seq

/-- The frames of a delivery are neither welcome nor history. The counting of frames that `Register`
does not write itself applies to it. -/
theorem Delivery.live (m : Delivery) : Live m.isFrame := by
  cases m <;> exact ⟨fun _ => rfl, fun _ => rfl⟩

/-- The number of a delivery matches its frame. Counting by number counts the frame at least. -/
theorem Delivery.key_matches (hf : m.isFrame f = true) : m.key.matches f = true := by
  obtain rfl : f = m.frame := of_decide_eq_true hf
  cases m <;> exact decide_eq_true rfl

/-- A call is determined by its frame. Two deliveries with the same frame are therefore one and the
same call, whoever runs it. -/
theorem Delivery.frame_inj {m m' : Delivery} (hframe : m'.frame = m.frame) : m' = m := by
  cases m <;> cases m' <;> cases hframe <;> rfl

/-- What is due from a delivery grows with the frames that are counted. -/
theorem DeliverPC.due_mono (hq : ∀ f, q f = true → q' f = true) (c : Conn) (pc : DeliverPC) :
    pc.due q c ≤ pc.due q' c := by
  have hite : ∀ (m : Delivery) (n : ℕ),
      (if q m.frame = true then n else 0) ≤ if q' m.frame = true then n else 0 := by
    intro m n
    by_cases hm : q m.frame = true
    · rw [if_pos hm, if_pos (hq _ hm)]
    · rw [if_neg hm]
      exact Nat.zero_le _
  cases pc with
  | lock m => exact hite m 1
  | loop m rest => exact hite m (rest.count c)

/-- The same for any goroutine. It is used with the test for one frame and the test for its
number. -/
theorem Thread.due_mono (hq : ∀ f, q f = true → q' f = true) (c : Conn) (th : Thread) :
    th.due q c ≤ th.due q' c := by
  have hdeliver : (th.deliverPC.map (DeliverPC.due q c)).getD 0 ≤
      (th.deliverPC.map (DeliverPC.due q' c)).getD 0 := by
    cases th.deliverPC with
    | none => exact Nat.le_refl _
    | some pc => exact pc.due_mono hq c
  unfold due
  split
  · rename_i c' f pc
    split
    · by_cases hf : c' = c ∧ q f = true
      · rw [if_pos hf, if_pos ⟨hf.1, hq f hf.2⟩]
      · rw [if_neg hf]
        exact Nat.zero_le _
    · exact hdeliver
  · exact hdeliver

/-- The copies of frames with the property `q` that are in the queue of `c` or still due to it. -/
def owed (q : Frame → Bool) (c : Conn) (d : ThreadPool.Config Hub Thread) : ℕ :=
  (d.shared.placed c).countP q + (d.threads.map (Thread.due q c)).sum

/-- A sum of larger terms is larger. It is the comparison of the two sums over all goroutines. -/
theorem sum_map_le {w w' : Thread → ℕ} (hle : ∀ th, w th ≤ w' th) (ths : List Thread) :
    (ths.map w).sum ≤ (ths.map w').sum := by
  induction ths with
  | nil => exact Nat.le_refl _
  | cons th ths ih =>
      have hth := hle th
      simp only [List.map_cons, List.sum_cons]
      omega

/-- The copies owed are among all frames with the identity. A bound on the number of frames with an
identity thus bounds the copies of one of them. -/
theorem owed_le_total (key : Key) (hq : ∀ f, q f = true → key.matches f = true) (c : Conn)
    (d : ThreadPool.Config Hub Thread) : owed q c d ≤ total key c d := by
  refine Nat.add_le_add (List.countP_mono_left fun f _ => hq f) (sum_map_le (fun th => ?_) _)
  exact Nat.le_trans (Thread.due_mono hq c th) (Nat.le_add_right _ _)

/-! ## One action, whole runs -/

/-- How a section of a goroutine changes what is owed to a connection that stays registered and that
the frames are for: by the call of `deliver` that begins. -/
theorem owed_of_effect {c₀ : ThreadPool.Config Hub Thread} (hvalid : (outline u).Valid () c₀)
    (hlive : Live q) (hfor : ¬ Skips q c₀.shared c) (hth : c₀.threads[t]? = some th)
    (heffect : Effect u t c₀.shared th h' th' fs) (hmem : c ∈ h'.clients) :
    owed q c ⟨h', c₀.threads.set t th' ++ fs⟩ = owed q c c₀ + calls q th th' := by
  obtain ⟨lost, hbalance, hlost⟩ := heffect.ledger hvalid.inv (hvalid.loc t th hth) hlive c
  have hzero : lost = 0 := by
    rcases hlost with hzero | hgone | hskip
    · exact hzero
    · exact absurd hmem hgone
    · exact absurd hskip hfor
  have hsum := ThreadPool.sum_set_append (Thread.due q c) hth th' fs
  show (h'.placed c).countP q + ((c₀.threads.set t th' ++ fs).map (Thread.due q c)).sum =
    (c₀.shared.placed c).countP q + (c₀.threads.map (Thread.due q c)).sum + calls q th th'
  omega

/-- What is known of the connection `c` after the call `m` has begun: as long as `c` is registered,
there is one copy for it. -/
structure OneCopy (m : Delivery) (device : Device) (c : Conn) (d : ThreadPool.Config Hub Thread) :
    Prop where
  unique : Unique m.key c d
  conn : ∃ cl, d.shared.conns c = some cl ∧ cl.device = device
  one : c ∈ d.shared.clients → owed m.isFrame c d = 1

/-- **Every action keeps the one copy.** It is due until it is placed, and it is only lost by a
connection that is not registered any more. -/
theorem oneCopy_exec {act : Act Thread Choice ℕ} {c₀ : ThreadPool.Config Hub Thread}
    (hvalid : (outline u).Valid () c₀) (hpass : m.passes device = true)
    (hcopy : OneCopy m device c c₀) (harrive : Arrivals c₀ act)
    (hexec : (machine u).exec c₀ act = some d) : OneCopy m device c d := by
  have hunique := unique_exec hvalid hcopy.unique harrive hexec
  obtain ⟨cl, hc, hdevice⟩ := hcopy.conn
  cases act with
  | spawn th =>
      obtain rfl := Option.some.inj hexec
      obtain ⟨device', rfl⟩ := harrive th rfl
      refine ⟨hunique, ⟨cl, hc, hdevice⟩, fun hmem => ?_⟩
      rw [← hcopy.one hmem]
      unfold owed
      rw [List.map_append, List.sum_append]
      rfl
  | env e =>
      obtain rfl := Option.some.inj hexec
      exact ⟨hunique, ⟨cl, hc, hdevice⟩, hcopy.one⟩
  | run t k =>
      have hfor : ¬ Skips m.isFrame c₀.shared c := by
        rintro ⟨m', cl', hframe, hc', hskip⟩
        obtain rfl := Delivery.frame_inj (of_decide_eq_true hframe)
        obtain rfl := Option.some.inj (hc.symm.trans hc')
        rw [hdevice, hpass] at hskip
        cases hskip
      obtain ⟨th, h', th', fs, hth, hstep, rfl⟩ := (machine u).exec_run_iff.mp hexec
      have heffect : Effect u t c₀.shared th h' th' fs := .of_step hstep
      have hsound := step_sound hvalid.inv (hvalid.loc t th hth) heffect
      obtain ⟨cl', hc', hdevice'⟩ := hsound.grows.device c cl hc
      refine ⟨hunique, ⟨cl', hc', hdevice'.trans hdevice⟩, fun hmem => ?_⟩
      have hmem₀ := heffect.mem_clients hvalid.inv (hvalid.loc t th hth) hc hmem
      have howed := owed_of_effect hvalid m.live hfor hth heffect hmem
      have hone := hcopy.one hmem₀
      -- a second call with the same frame would be a second frame with the same identity
      have hle := owed_le_total (q := m.isFrame) m.key (fun _ => Delivery.key_matches) c
        ⟨h', c₀.threads.set t th' ++ fs⟩
      have htotal := hunique.le_one
      omega

/-- **Delivered exactly once or disconnected**: let `deliver` be called while the connection `c` is
registered and passes the filter. Whatever happens then, once the call and the `deliverSlow` it left
the frame to have ended, `c` has the frame in its queue exactly once, or is no longer registered. -/
theorem delivered_once {c₀ : ThreadPool.Config Hub Thread} {p : Caller} (hreach : Reachable u c₀)
    (hcall : c₀.threads[t]? = some (p.thread (.lock m))) (hmem : c ∈ c₀.shared.clients)
    (hc : c₀.shared.conns c = some cl) (hpass : m.passes cl.device = true)
    (hrun : (machine u).Run Arrivals c₀ d)
    (hreturned : ∀ th ∈ d.threads, th.deliverPC.map DeliverPC.delivery ≠ some m)
    (hended : ∀ pc, .slow c m.frame pc ∈ d.threads → pc = .ended) :
    (d.shared.placed c).count m.frame = 1 ∨ c ∉ d.shared.clients := by
  -- at the call one copy is owed: the message is due to `c`, and nothing else is placed, due or in
  -- a goroutine
  have hone : owed m.isFrame c c₀ = 1 := by
    have hle := owed_le_total (q := m.isFrame) m.key (fun _ => Delivery.key_matches) c c₀
    have htotal := (hreach.unique m.key c).le_one
    have hdue : (p.thread (.lock m)).due m.isFrame c = 1 := by
      rw [p.due_thread, DeliverPC.due, if_pos (by simp [Delivery.isFrame])]
    have hshare := ThreadPool.le_sum_map (Thread.due m.isFrame c) hcall
    have howed : owed m.isFrame c c₀ =
      (c₀.shared.placed c).countP m.isFrame + (c₀.threads.map (Thread.due m.isFrame c)).sum := rfl
    omega
  -- the copy is kept along the run as long as `c` is registered
  obtain ⟨_, -, -, hcopy⟩ := Outline.run_invariant (O := outline u)
    (I := fun _ d => OneCopy m cl.device c d) (fun _ _ harrive => harrive) hreach.valid
    ⟨hreach.unique m.key c, ⟨cl, hc, rfl⟩, fun _ => hone⟩
    (fun _ _ _ _ _ hvalid hcopy harrive hexec _ => oneCopy_exec hvalid hpass hcopy harrive hexec) hrun
  by_cases hregistered : c ∈ d.shared.clients
  · refine .inl ?_
    -- all deliveries and all goroutines of this frame are over, so nothing is due any more
    have hnothing : (d.threads.map (Thread.due m.isFrame c)).sum = 0 := by
      refine ThreadPool.sum_map_eq_zero.mpr fun th hth => ?_
      have hdeliver : (th.deliverPC.map (DeliverPC.due m.isFrame c)).getD 0 = 0 := by
        cases hpc : th.deliverPC with
        | none => rfl
        | some pc =>
            have hne : pc.delivery.frame ≠ m.frame := fun hframe => hreturned th hth (by
              rw [hpc, Option.map_some, Delivery.frame_inj hframe])
            cases pc <;> exact if_neg fun heq => hne (of_decide_eq_true heq)
      unfold Thread.due
      split
      · rename_i c' f pc
        split
        · refine if_neg fun heq => ?_
          obtain ⟨rfl, hframe⟩ := heq
          obtain rfl : f = m.frame := of_decide_eq_true hframe
          obtain rfl := hended pc hth
          contradiction
        · exact hdeliver
      · exact hdeliver
    -- what is owed is then what was placed
    have hcount : (d.shared.placed c).count m.frame = (d.shared.placed c).countP m.isFrame :=
      List.countP_congr fun f _ => by simp [Delivery.isFrame]
    have hone := hcopy.one hregistered
    unfold owed at hone
    omega
  · exact .inr hregistered

namespace Sample

/-- Thread `0` has joined and filled its own queue with messages to everyone; its `ReadPump`, thread
`2`, has just called `deliver` for the next one. -/
def calling : List (Act Thread Choice ℕ) :=
  joins ++ (List.replicate 254 (sendMessage 2 [0])).flatten ++ [.run 2 (.incoming (hello []))] ++ go 2 1

/-- The message that finds the queue full. -/
def greeting : Entry :=
  ⟨254, { type := goString "message", sender := some { id := [1] }, payload := { kind := [0x74] } }⟩

/-- `deliver` leaves the message to thread `3`, whose first attempt fails; thread `1`, the
`WritePump`, takes a frame, and the next attempt succeeds. -/
def placedLater : List (Act Thread Choice ℕ) :=
  iterate 2 [0] :: go 2 2 ++ go 3 3 ++ go 1 1 ++ [.env 150000000] ++ go 3 3

/-- The thread is the `ReadPump` of `0`, about to deliver the greeting. -/
def delivers : Option Thread → Bool
  | some (.readPump 0 (.deliver (.lock m))) => decide (m = .message greeting)
  | _ => false

/-- The thread is no `deliverSlow` that has yet to end. -/
def settled : Thread → Bool
  | .slow _ _ .ended => true
  | .slow _ _ _ => false
  | _ => true

end Sample

/-- A full queue: the frame is handed to a `deliverSlow`, which places it when there is room. -/
theorem delivered_once_retried : ∃ c₀ d : ThreadPool.Config Hub Thread,
    0 ∈ c₀.shared.clients ∧ (c₀.shared.conns 0).map (fun cl => cl.send.length) = some sendBuffer ∧
      (machine Sample.uuids).Run Arrivals c₀ d ∧
      (d.shared.placed 0).count (.message Sample.greeting) = 1 := by
  -- the queue is full when `deliver` gets to the client, and the goroutine places the frame later
  have hrun : ((machine Sample.uuids).execAll (boot 1000000000 0) Sample.calling).any fun c₀ =>
      ((machine Sample.uuids).execAll c₀ Sample.placedLater).any fun d =>
        Sample.delivers c₀.threads[2]? && (c₀.shared.conns 0).any (fun cl =>
          (Delivery.message Sample.greeting).passes cl.device && cl.send.length = sendBuffer) &&
            decide (0 ∈ c₀.shared.clients) && decide (0 ∈ d.shared.clients) &&
              d.threads.all fun th => decide (th.deliverPC.map DeliverPC.delivery ≠
                some (.message Sample.greeting)) && Sample.settled th := by
    decide +kernel
  obtain ⟨c₀, hexec₀, hrun⟩ := (Option.any_eq_true _ _).mp hrun
  obtain ⟨d, hexec, hrun⟩ := (Option.any_eq_true _ _).mp hrun
  simp only [Bool.and_eq_true, List.all_eq_true, decide_eq_true_eq] at hrun
  obtain ⟨⟨⟨⟨hcall, hclient⟩, hmem⟩, hstays⟩, hthreads⟩ := hrun
  obtain ⟨cl, hc, hclient⟩ := (Option.any_eq_true _ _).mp hclient
  obtain ⟨hpass, hfull⟩ := (Bool.and_eq_true _ _).mp hclient
  unfold Sample.delivers at hcall
  split at hcall
  · rename_i m hthread
    obtain rfl : m = .message Sample.greeting := of_decide_eq_true hcall
    have htame : Sample.calling.all Sample.tame = true := by decide +kernel
    have hreach : Reachable Sample.uuids c₀ := Sample.reachable_of_execAll htame hexec₀
    have hlater : ∀ act ∈ Sample.placedLater, Sample.tame act = true := by decide
    have hsteps : (machine Sample.uuids).Run Arrivals c₀ d :=
      .of_execAll (fun c act hact => Sample.arrivals_of_tame (hlater act hact) c) hexec
    have hcaller : c₀.threads[2]? = some (Caller.thread (.send 0) (.lock (.message Sample.greeting))) :=
      hthread
    have hended : ∀ pc, .slow 0 (.message Sample.greeting) pc ∈ d.threads → pc = .ended := by
      intro pc hpc
      have hsettled := (hthreads _ hpc).2
      cases pc with
      | ended => rfl
      | _ => cases hsettled
    refine ⟨c₀, d, hmem, ?_, hsteps, ?_⟩
    · rw [hc, Option.map_some, of_decide_eq_true hfull]
    · rcases delivered_once hreach hcaller hmem hc hpass hsteps (fun th hth => (hthreads th hth).1)
        hended with hone | hgone
      · exact hone
      · exact absurd hstays hgone
  · cases hcall

end LanRoom.Chat

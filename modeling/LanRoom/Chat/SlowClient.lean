import LanRoom.Chat.Registering

/-! # Is a client that keeps reading disconnected?

A `deliverSlow` tries for three seconds to place its frame and then disconnects the client. A client
that takes a frame in that time frees a place in its queue, but another send can fill it before the
next attempt, or the time can be up before there is one; then the client is disconnected although it
has been reading (`reader_kicked`). When the loop condition that comes next is evaluated in time, and
the freed place is still free at the attempt that follows, it is not: that attempt ends the call, and
whatever happens later cannot make it disconnect the client (`reader_kept`). -/

namespace LanRoom.Chat

open LanRoom.Upload (Time)
open ThreadPool (Tid Machine Act Outline)

variable {u : UUIDPackage} {t w : Tid} {k : Choice} {h h' : Hub} {c : Conn} {cl cl' : Client}
  {f : Frame} {th th' : Thread} {fs : List Thread} {c₀ c₁ c₂ d : ThreadPool.Config Hub Thread}

/-! ## How full a queue is -/

/-- What has been taken from a queue stays taken. A section either leaves the record as it was or
moves one more frame to it. -/
theorem Effect.taken_le (hinv : Inv u h) (hloc : Loc u t h th) (heffect : Effect u t h th h' th' fs)
    (hc : h.conns c = some cl) (hc' : h'.conns c = some cl') :
    cl.taken.length ≤ cl'.taken.length := by
  rcases heffect.retains hinv c with hsame | ⟨rfl, device, rfl, -⟩
  · rcases hsame with heq | ⟨cl₁, cl₂, hc₁, hc₂, hle⟩
    · rw [heq, hc] at hc'
      obtain rfl := Option.some.inj hc'
      exact Nat.le_refl _
    · obtain rfl := Option.some.inj (hc.symm.trans hc₁)
      obtain rfl := Option.some.inj (hc'.symm.trans hc₂)
      exact hle
  · -- nobody joins twice
    rw [hloc.fresh _ rfl] at hc
    cases hc

/-- A queue grows by the frame that is placed in it, and by nothing else. -/
theorem Effect.send_le (hinv : Inv u h) (hloc : Loc u t h th) (heffect : Effect u t h th h' th' fs)
    (hc : h.conns c = some cl) (hc' : h'.conns c = some cl') :
    cl'.send.length ≤ cl.send.length ∨
      cl'.send.length ≤ cl.send.length + 1 ∧ ∃ f, Placed t c h h' th th' f := by
  have htaken := heffect.taken_le hinv hloc hc hc'
  have hold : (h.placed c).length = cl.taken.length + cl.send.length := by
    rw [Hub.placed_of_conn hc, Client.placed, List.length_append]
  have hnew : (h'.placed c).length = cl'.taken.length + cl'.send.length := by
    rw [Hub.placed_of_conn hc', Client.placed, List.length_append]
  rcases heffect.placed hinv hloc c with hsame | ⟨f, hplaced⟩
  · rw [hsame] at hnew
    left
    omega
  · rw [hplaced.append, List.length_append, List.length_singleton] at hnew
    exact .inr ⟨by omega, f, hplaced⟩

/-- No queue holds more frames than its capacity. A send on a full queue fails, so the bound is
never passed. -/
theorem Reachable.send_le (hreach : Reachable u d) (hc : d.shared.conns c = some cl) :
    cl.send.length ≤ sendBuffer := by
  obtain ⟨historyTTL, now, hrun⟩ := hreach
  have hall : Reachable u d ∧ ∀ c cl, d.shared.conns c = some cl → cl.send.length ≤ sendBuffer := by
    refine hrun.invariant (I := fun d => Reachable u d ∧ ∀ c cl, d.shared.conns c = some cl →
      cl.send.length ≤ sendBuffer) ⟨⟨historyTTL, now, .refl⟩, nofun⟩ ?_
    rintro c₀ act d ⟨hreach, hall⟩ harrive hexec
    refine ⟨hreach.exec harrive hexec, fun c cl' hc' => ?_⟩
    cases act with
    | spawn th =>
        obtain rfl := Option.some.inj hexec
        exact hall c cl' hc'
    | env n =>
        obtain rfl := Option.some.inj hexec
        exact hall c cl' hc'
    | run t k =>
        obtain ⟨th, h', th', fs, hth, hstep, rfl⟩ := (machine u).exec_run_iff.mp hexec
        have heffect : Effect u t c₀.shared th h' th' fs := .of_step hstep
        have hvalid := hreach.valid
        cases hc : c₀.shared.conns c with
        | none =>
            -- a queue that has just been made is empty
            obtain ⟨rfl, device, -, rfl⟩ := heffect.joined_of_none hvalid.inv hc hc'
            obtain rfl := Option.some.inj ((Hub.join_self device).symm.trans hc')
            exact Nat.zero_le _
        | some cl =>
            have hle := hall c cl hc
            -- it has shrunk, or a frame was placed where there was room
            rcases heffect.send_le hvalid.inv (hvalid.loc t th hth) hc hc' with hless | ⟨hmore, f, hplaced⟩
            · exact hless.trans hle
            · obtain ⟨cl₁, hc₁, hroom⟩ := hplaced.room
              obtain rfl := Option.some.inj (hc.symm.trans hc₁)
              omega
  exact hall.2 c cl hc

/-! ## The condition -/

/-- `deliverSlow` has not found its deadline passed. -/
def SlowPC.trying : SlowPC → Bool
  | .start | .loop _ | .attempt _ | .sleep _ _ => true
  | _ => false

/-- `deliverSlow` is about to find its deadline passed. -/
def SlowPC.timesOut (h : Hub) : SlowPC → Bool
  | .loop deadline => decide (deadline ≤ h.now)
  | _ => false

/-- The handler of a connection is about to enqueue a frame of the handshake. -/
def Thread.greets : Thread → Bool
  | .register .welcome | .register (.history _) => true
  | _ => false

/-- The next section of thread `t` sends a frame that the queue of `c` takes. -/
def Thread.sends (t : Tid) (h : Hub) (c : Conn) (th : Thread) : Bool :=
  (th.offers c).any (h.takes c) || decide (t = c) && th.greets

/-- There is a place in the queue of `c`. -/
def Hub.hasPlace (h : Hub) (c : Conn) : Bool :=
  (h.conns c).any fun cl => decide (cl.send.length < sendBuffer)

/-- There is more than one place in the queue of `c`. -/
def Hub.hasPlaces (h : Hub) (c : Conn) : Bool :=
  (h.conns c).any fun cl => decide (cl.send.length + 1 < sendBuffer)

/-- The `deliverSlow` `t` makes an attempt to send its frame. -/
def attempts (t : Tid) (d : ThreadPool.Config Hub Thread) : Act Thread Choice ℕ → Bool
  | .run v _ =>
      match d.threads[v]? with
      | some (.slow _ _ (.attempt _)) => decide (v = t)
      | _ => false
  | _ => false

/-- No other goroutine takes the last place in the queue of `c`, and the `deliverSlow` `t`, if it
evaluates the condition of its loop, does so before its deadline. -/
def leavesPlace (t : Tid) (c : Conn) (d : ThreadPool.Config Hub Thread) : Act Thread Choice ℕ → Bool
  | .run v _ =>
      match d.threads[t]?, d.threads[v]? with
      | some (.slow _ _ pc), some th =>
          if v = t then !pc.timesOut d.shared
          else !th.sends v d.shared c || d.shared.hasPlaces c
      | _, _ => true
  | _ => true

/-- The condition, for a section of the call itself. It says that the loop test of this section
comes before the deadline. -/
theorem leavesPlace_self {pc : SlowPC} (hleaves : leavesPlace t c c₀ (.run t k) = true)
    (hth : c₀.threads[t]? = some (.slow c f pc)) : pc.timesOut c₀.shared = false := by
  simpa [leavesPlace, hth] using hleaves

/-- The condition, for a section of another goroutine that sends to the client. -/
theorem leavesPlace_other {pc : SlowPC} (hleaves : leavesPlace t c c₀ (.run w k) = true)
    (hth : c₀.threads[t]? = some (.slow c f pc)) (hw : c₀.threads[w]? = some th) (hwt : w ≠ t)
    (hsends : th.sends w c₀.shared c = true) : c₀.shared.hasPlaces c = true := by
  simpa [leavesPlace, hth, hw, hwt, hsends] using hleaves

/-- Until its attempt the call is not at one. A section that is no attempt to send is another
program point of the call. -/
theorem attempts_self {pc : SlowPC} (hth : c₀.threads[t]? = some (.slow c f pc))
    (hno : attempts t c₀ (.run t k) = false) (deadline : Time) : pc ≠ .attempt deadline := by
  rintro rfl
  simp [attempts, hth] at hno

/-- What is placed in the queue of `c` was sent to it. This is how a place that is gone is traced to
a goroutine that has taken it. -/
theorem Placed.sends (hinv : Inv u h) (hloc : Loc u t h th) (heffect : Effect u t h th h' th' fs)
    (hplaced : Placed t c h h' th th' f) : th.sends t h c = true := by
  rw [Thread.sends, Bool.or_eq_true]
  rcases hplaced.places.offers with hoffers | ⟨htc, ⟨_, -, hth⟩ | ⟨_, -, hth⟩⟩
  · rw [hoffers]
    exact .inl (heffect.takes hinv hloc hplaced)
  · subst hth
    exact .inr (by rw [htc]; simp [Thread.greets])
  · subst hth
    exact .inr (by rw [htc]; simp [Thread.greets])

/-! ## One section -/

/-- The call `t` of `deliverSlow` is in its window and finds a place if it tries. -/
def Keeping (t : Tid) (c : Conn) (f : Frame) (d : ThreadPool.Config Hub Thread) : Prop :=
  ∃ pc, d.threads[t]? = some (.slow c f pc) ∧ pc.trying = true ∧
    (c ∈ d.shared.clients → d.shared.hasPlace c = true)

/-- The call goes on to its attempt. Before the deadline, and before its attempt, a section of the
call changes nothing in the hub. -/
theorem keeping_self {pc pc' : SlowPC} (hstep : slowStep c f k h pc = some (h', pc', fs))
    (htime : pc.timesOut h = false) (htrying : pc.trying = true)
    (hno : ∀ deadline, pc ≠ .attempt deadline) : h' = h ∧ pc'.trying = true := by
  cases pc with
  | check | unregister | presence pc | ended => cases htrying
  | attempt deadline => exact absurd rfl (hno deadline)
  | start =>
      cases hstep
      exact ⟨rfl, rfl⟩
  | loop deadline =>
      -- the deadline has not passed, so the loop is entered
      have hlt : h.now < deadline := by
        rw [SlowPC.timesOut, decide_eq_false_iff_not] at htime
        exact not_le.mp htime
      rw [slowStep, if_pos hlt] at hstep
      cases hstep
      exact ⟨rfl, rfl⟩
  | sleep deadline wake =>
      simp only [slowStep] at hstep
      split at hstep
      · cases hstep
        exact ⟨rfl, rfl⟩
      · cases hstep

/-- An attempt that finds a place, or finds the client gone, is the last one. -/
theorem attempt_ends {pc' : SlowPC} {deadline : Time} (hinv : Inv u h)
    (hstep : slowStep c f k h (.attempt deadline) = some (h', pc', fs))
    (hplace : c ∈ h.clients → h.hasPlace c = true) : pc' = .ended := by
  simp only [slowStep] at hstep
  split at hstep
  · rename_i hmem
    -- the channel of a registered client is open, so a place is all that is needed
    obtain ⟨cl, hc, hopen⟩ := hinv.of_mem hmem
    have hroom : cl.send.length < sendBuffer := by
      have hplace := hplace hmem
      rw [Hub.hasPlace, hc] at hplace
      exact of_decide_eq_true hplace
    rw [Hub.trySend_eq cl f hc hopen hroom] at hstep
    cases hstep
    rfl
  · cases hstep
    rfl

/-- Whoever else moves leaves a place. Either the section does not send to `c`, or the condition
says that two places were free. -/
theorem keeping_other {pc : SlowPC} (hreach : Reachable u c₀)
    (hleaves : leavesPlace t c c₀ (.run w k) = true) (hth : c₀.threads[t]? = some (.slow c f pc))
    (hw : c₀.threads[w]? = some th) (heffect : Effect u w c₀.shared th h' th' fs) (hwt : w ≠ t)
    (hc : c₀.shared.conns c = some cl) (hplace : c ∈ c₀.shared.clients → c₀.shared.hasPlace c = true)
    (hmem : c ∈ h'.clients) : h'.hasPlace c = true := by
  have hvalid := hreach.valid
  have hinv : Inv u c₀.shared := hvalid.inv
  have hloc := hvalid.loc w th hw
  have hplace := hplace (heffect.mem_clients hinv hloc hc hmem)
  rw [Hub.hasPlace, hc, Option.any_some, decide_eq_true_eq] at hplace
  obtain ⟨cl', hc', -⟩ := (step_sound hinv hloc heffect).grows.device c cl hc
  rw [Hub.hasPlace, hc', Option.any_some, decide_eq_true_eq]
  rcases heffect.send_le hinv hloc hc hc' with hless | ⟨hmore, f', hplaced⟩
  · omega
  · -- the frame went to a queue with a second place
    have hplaces := leavesPlace_other hleaves hth hw hwt (hplaced.sends hinv hloc heffect)
    rw [Hub.hasPlaces, hc, Option.any_some, decide_eq_true_eq] at hplaces
    omega

/-- **The step theorem**: an action that meets the condition and is not the attempt keeps a place
for the call. The cases are a section of the call itself, one of another goroutine, and an action of
the environment. -/
theorem keeping_exec {act : Act Thread Choice ℕ} (hreach : Reachable u c₀)
    (hkeeping : Keeping t c f c₀) (hleaves : leavesPlace t c c₀ act = true)
    (hno : attempts t c₀ act = false) (hexec : (machine u).exec c₀ act = some d) :
    Keeping t c f d := by
  have hvalid := hreach.valid
  obtain ⟨pc, hth, htrying, hplace⟩ := hkeeping
  cases act with
  | spawn th =>
      obtain rfl := Option.some.inj hexec
      exact ⟨pc, ThreadPool.getElem?_append hth [th], htrying, hplace⟩
  | env n =>
      obtain rfl := Option.some.inj hexec
      exact ⟨pc, hth, htrying, hplace⟩
  | run w k =>
      obtain ⟨th, h', th', fs, hw, hstep, rfl⟩ := (machine u).exec_run_iff.mp hexec
      by_cases hwt : w = t
      · subst hwt
        obtain rfl := Option.some.inj (hw.symm.trans hth)
        obtain ⟨⟨h₁, pc', fs₁⟩, hslow, heq⟩ := Option.map_eq_some_iff.mp hstep
        cases heq
        obtain ⟨rfl, htrying'⟩ :=
          keeping_self hslow (leavesPlace_self hleaves hth) htrying (attempts_self hth hno)
        exact ⟨pc', ThreadPool.getElem?_set_append_self hth _ _, htrying', hplace⟩
      · refine ⟨pc, ThreadPool.getElem?_set_append_ne hth hwt th' fs, htrying, fun hmem => ?_⟩
        -- the frame in hand is for a connection that has joined
        have haddressee : (Thread.slow c f pc).addressee t = some c := by
          cases pc with
          | start | loop deadline | attempt deadline | sleep deadline wake => rfl
          | _ => cases htrying
        obtain ⟨cl, hc, -⟩ := (hvalid.loc t _ hth).shown c haddressee
        exact keeping_other hreach hleaves hth hw (.of_step hstep) hwt hc hplace hmem

/-- The frame that the `WritePump` takes leaves a place. From this moment on the next attempt of the
call finds room. -/
theorem keeping_of_took {pc : SlowPC} (hreach : Reachable u c₀)
    (hth : c₀.threads[t]? = some (.slow c f pc)) (htrying : pc.trying = true)
    (hw : c₀.threads[w]? = some (.writePump c false)) (hc : c₀.shared.conns c = some cl)
    (hqueue : cl.send ≠ []) (htook : (machine u).exec c₀ (.run w .go) = some c₁) :
    Keeping t c f c₁ := by
  obtain ⟨th, h', th', fs, hw', hstep, rfl⟩ := (machine u).exec_run_iff.mp htook
  obtain rfl := Option.some.inj (hw.symm.trans hw')
  -- the pump is another thread
  have hwt : w ≠ t := by
    rintro rfl
    rw [hth] at hw
    cases hw
  refine ⟨pc, ThreadPool.getElem?_set_append_ne hth hwt th' fs, htrying, fun _ => ?_⟩
  obtain ⟨⟨h₁, ended⟩, hwrite, heq⟩ := Option.map_eq_some_iff.mp hstep
  cases heq
  have hle := hreach.send_le hc
  cases hsend : cl.send with
  | nil => exact absurd hsend hqueue
  -- the consumption has made a place
  | cons g rest =>
      simp only [writeStep, hc, hsend] at hwrite
      cases hwrite
      rw [hsend, List.length_cons] at hle
      rw [Hub.hasPlace, Hub.setClient_self, Option.any_some, decide_eq_true_eq]
      show rest.length < sendBuffer
      omega

/-! ## Whole runs -/

/-- A call that has ended does nothing more. In particular it calls `Unregister` no more. -/
theorem ended_of_run (hended : c₀.threads[t]? = some (.slow c f .ended))
    (hrun : (machine u).Run Arrivals c₀ d) : d.threads[t]? = some (.slow c f .ended) := by
  refine hrun.invariant (I := fun d => d.threads[t]? = some (.slow c f .ended)) hended ?_
  intro c₂ act d₂ hended₂ _ hexec
  rcases (machine u).thread_after_exec hexec hended₂ with hsame | ⟨k, th', fs, -, hstep, -⟩
  · exact hsame
  · have hblocked : (machine u).step t k c₂.shared (.slow c f .ended) = none := rfl
    rw [hblocked] at hstep
    cases hstep

/-- **A client that keeps reading is kept**: let the `WritePump` of `c` take a frame while the call `t`
of `deliverSlow` for `c` is in its window. As long as the call has not made its next attempt, and no
other goroutine takes the last place in the queue, and the loop condition that comes before the
attempt is evaluated before the deadline, the call stays in its window. Its attempt then ends the
call: in every run from there, whatever is sent and however much time passes, it is over and has not
unregistered the connection. -/
theorem reader_kept {pc : SlowPC} (hreach : Reachable u c₀)
    (hth : c₀.threads[t]? = some (.slow c f pc)) (htrying : pc.trying = true)
    (hw : c₀.threads[w]? = some (.writePump c false)) (hc : c₀.shared.conns c = some cl)
    (hqueue : cl.send ≠ []) (htook : (machine u).exec c₀ (.run w .go) = some c₁)
    (hrun : (machine u).Run (fun d act => Arrivals d act ∧ leavesPlace t c d act = true ∧
      attempts t d act = false) c₁ c₂) :
    (∃ pc', c₂.threads[t]? = some (.slow c f pc') ∧ pc'.trying = true) ∧
      ∀ k c₃ d, attempts t c₂ (.run t k) = true → (machine u).exec c₂ (.run t k) = some c₃ →
        (machine u).Run Arrivals c₃ d → d.threads[t]? = some (.slow c f .ended) := by
  have hreach₁ : Reachable u c₁ := hreach.exec (fun _ heq => by cases heq) htook
  -- from the consumption to the attempt the call has a place
  obtain ⟨hreach₂, pc', hpc', htrying', hplace⟩ : Reachable u c₂ ∧ Keeping t c f c₂ := by
    refine hrun.invariant (I := fun d => Reachable u d ∧ Keeping t c f d)
      ⟨hreach₁, keeping_of_took hreach hth htrying hw hc hqueue htook⟩ ?_
    rintro d₁ act d₂ ⟨hreach₂, hkeeping₂⟩ ⟨harrive, hleaves, hno⟩ hexec
    exact ⟨hreach₂.exec harrive hexec, keeping_exec hreach₂ hkeeping₂ hleaves hno hexec⟩
  refine ⟨⟨pc', hpc', htrying'⟩, fun k c₃ d hattempts hexec hafter => ended_of_run ?_ hafter⟩
  obtain ⟨th, h', th', fs, hth', hstep, rfl⟩ := (machine u).exec_run_iff.mp hexec
  obtain rfl := Option.some.inj (hth'.symm.trans hpc')
  obtain ⟨deadline, rfl⟩ : ∃ deadline, pc' = .attempt deadline := by
    cases pc' with
    | attempt deadline => exact ⟨deadline, rfl⟩
    | _ => simp [attempts, hpc'] at hattempts
  obtain ⟨⟨h₁, pc₃, fs₁⟩, hslow, heq⟩ := Option.map_eq_some_iff.mp hstep
  cases heq
  obtain rfl := attempt_ends hreach₂.valid.inv hslow hplace
  exact ThreadPool.getElem?_set_append_self hpc' _ _

/-! ## Competing sends -/

namespace Sample

/-- Thread `0` has joined and filled its own queue with messages to everyone; the next message is left
to thread `3`, which has made its first attempt. -/
def waits : List (Act Thread Choice ℕ) :=
  joins ++ (List.replicate 255 (sendMessage 2 [0])).flatten ++ go 3 3

/-- Thread `3` wakes after `slowClientRetryDelay` and enters its loop again. -/
def retries : List (Act Thread Choice ℕ) := [.env 150000000] ++ go 3 2

/-- After its attempt another message is sent, and the deadline passes. -/
def goesOn : List (Act Thread Choice ℕ) := sendMessage 2 [0] ++ [.env 3000000000]

/-- Another message takes the place that has become free; thread `3` makes no attempt before its
deadline, and then gives up. -/
def competes : List (Act Thread Choice ℕ) := sendMessage 2 [0] ++ [.env 3000000000] ++ go 3 4

/-- Thread `3` is in its window for `0`, whose `WritePump`, thread `1`, can take a frame. -/
def pending (c₀ : ThreadPool.Config Hub Thread) : Bool :=
  match (c₀.threads[3]? : Option Thread), (c₀.threads[1]? : Option Thread), c₀.shared.conns 0 with
  | some (.slow 0 _ pc), some (.writePump 0 false), some cl => pc.trying && decide (cl.send ≠ [])
  | _, _, _ => false

/-- Thread `3` sleeps in `c₀` before its deadline, a frame is taken on the way to `c₁`, and thread `3`
has unregistered the client in `d`. -/
def kicked (c₀ c₁ d : ThreadPool.Config Hub Thread) : Bool :=
  match (c₀.threads[3]? : Option Thread), (d.threads[3]? : Option Thread), c₀.shared.conns 0,
    c₁.shared.conns 0 with
  | some (.slow 0 f (.sleep deadline _)), some (.slow 0 f' (.presence .devices)), some cl₀, some cl₁ =>
      decide (f = f') && decide (c₀.shared.now < deadline) &&
        decide (cl₁.taken.length = cl₀.taken.length + 1)
  | _, _, _, _ => false

end Sample

/-- A call that tries once more after the consumption, and ends without unregistering its client. -/
theorem reader_kept_attempts : ∃ (c₀ c₁ c₂ c₃ d : ThreadPool.Config Hub Thread) (f : Frame),
    (machine Sample.uuids).exec c₀ (.run 1 .go) = some c₁ ∧
      (machine Sample.uuids).Run (fun d act => Arrivals d act ∧ leavesPlace 3 0 d act = true ∧
        attempts 3 d act = false) c₁ c₂ ∧
      (machine Sample.uuids).exec c₂ (.run 3 .go) = some c₃ ∧
      (machine Sample.uuids).Run Arrivals c₃ d ∧ d.threads[3]? = some (.slow 0 f .ended) := by
  -- the pump takes a frame, and the next loop test of `deliverSlow` comes before the deadline
  have hrun : ((machine Sample.uuids).execAll (boot 1000000000 0) Sample.waits).any fun c₀ =>
      ((machine Sample.uuids).exec c₀ (.run 1 .go)).any fun c₁ =>
        ((machine Sample.uuids).execAllIf (fun d act => leavesPlace 3 0 d act && !attempts 3 d act) c₁
          Sample.retries).any fun c₂ =>
            ((machine Sample.uuids).exec c₂ (.run 3 .go)).any fun c₃ =>
              ((machine Sample.uuids).execAll c₃ Sample.goesOn).isSome && attempts 3 c₂ (.run 3 .go) &&
                Sample.pending c₀ := by
    decide +kernel
  obtain ⟨c₀, hexec₀, hrun⟩ := (Option.any_eq_true _ _).mp hrun
  obtain ⟨c₁, htook, hrun⟩ := (Option.any_eq_true _ _).mp hrun
  obtain ⟨c₂, hretries, hrun⟩ := (Option.any_eq_true _ _).mp hrun
  obtain ⟨c₃, hattempt, hrun⟩ := (Option.any_eq_true _ _).mp hrun
  rw [Bool.and_eq_true, Bool.and_eq_true] at hrun
  obtain ⟨⟨hsome, hattempts⟩, hrun⟩ := hrun
  obtain ⟨d, hexec⟩ := Option.isSome_iff_exists.mp hsome
  unfold Sample.pending at hrun
  split at hrun
  · rename_i f pc cl hth hw hc
    simp only [Bool.and_eq_true, decide_eq_true_eq] at hrun
    obtain ⟨htrying, hqueue⟩ := hrun
    have htame : Sample.waits.all Sample.tame = true := by decide +kernel
    -- until the attempt the place is left
    have hwaits : (machine Sample.uuids).Run (fun d act => Arrivals d act ∧
        leavesPlace 3 0 d act = true ∧ attempts 3 d act = false) c₁ c₂ := by
      refine (Sample.run_of_execAllIf (by decide) hretries).mono ?_
      rintro d act ⟨harrive, hok⟩
      rw [Bool.and_eq_true, Bool.not_eq_true'] at hok
      exact ⟨harrive, hok⟩
    have hlater : Sample.goesOn.all Sample.tame = true := by decide
    have hafter : (machine Sample.uuids).Run Arrivals c₃ d :=
      .of_execAll (fun c act hact => Sample.arrivals_of_tame (List.all_eq_true.mp hlater act hact) c)
        hexec
    have hkept := reader_kept (Sample.reachable_of_execAll htame hexec₀) hth htrying hw hc hqueue htook
      hwaits
    exact ⟨c₀, c₁, c₂, c₃, d, f, htook, hwaits, hattempt, hafter,
      hkept.2 .go c₃ d hattempts hattempt hafter⟩
  · cases hrun

/-- A frame is taken from the queue while a `deliverSlow` is in its window, another send takes the
place, and the client is unregistered. -/
theorem reader_kicked : ∃ (c₀ c₁ d : ThreadPool.Config Hub Thread) (f : Frame) (deadline wake : Time)
    (cl₀ cl₁ : Client), Reachable Sample.uuids c₀ ∧
      c₀.threads[3]? = some (.slow 0 f (.sleep deadline wake)) ∧ c₀.shared.now < deadline ∧
      c₀.shared.conns 0 = some cl₀ ∧ (machine Sample.uuids).exec c₀ (.run 1 .go) = some c₁ ∧
      c₁.shared.conns 0 = some cl₁ ∧ cl₁.taken.length = cl₀.taken.length + 1 ∧
      0 ∈ c₁.shared.clients ∧ (machine Sample.uuids).Run Arrivals c₁ d ∧
      d.threads[3]? = some (.slow 0 f (.presence .devices)) ∧ 0 ∉ d.shared.clients := by
  -- another sender takes the place first, and the deadline passes
  have hrun : ((machine Sample.uuids).execAll (boot 1000000000 0) Sample.waits).any fun c₀ =>
      ((machine Sample.uuids).exec c₀ (.run 1 .go)).any fun c₁ =>
        ((machine Sample.uuids).execAll c₁ Sample.competes).any fun d =>
          decide (0 ∈ c₁.shared.clients) && decide (0 ∉ d.shared.clients) &&
            Sample.kicked c₀ c₁ d := by
    decide +kernel
  obtain ⟨c₀, hexec₀, hrun⟩ := (Option.any_eq_true _ _).mp hrun
  obtain ⟨c₁, htook, hrun⟩ := (Option.any_eq_true _ _).mp hrun
  obtain ⟨d, hexec, hrun⟩ := (Option.any_eq_true _ _).mp hrun
  simp only [Bool.and_eq_true, decide_eq_true_eq] at hrun
  obtain ⟨⟨hmem, hgone⟩, hrun⟩ := hrun
  unfold Sample.kicked at hrun
  split at hrun
  · rename_i f deadline wake f' cl₀ cl₁ hth hth' hc₀ hc₁
    simp only [Bool.and_eq_true, decide_eq_true_eq] at hrun
    obtain ⟨⟨rfl, htime⟩, htaken⟩ := hrun
    have htame₀ : Sample.waits.all Sample.tame = true := by decide +kernel
    have htame : Sample.competes.all Sample.tame = true := by decide
    exact ⟨c₀, c₁, d, f, deadline, wake, cl₀, cl₁, Sample.reachable_of_execAll htame₀ hexec₀, hth,
      htime, hc₀, htook, hc₁, htaken, hmem, .of_execAll (fun c act hact =>
        Sample.arrivals_of_tame (List.all_eq_true.mp htame act hact) c) hexec, hth', hgone⟩
  · cases hrun

end LanRoom.Chat

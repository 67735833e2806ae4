import LanRoom.Chat.Registering

/-! # The handshake of a connection

`docs/api.md` promises a new connection its welcome frame first, then the history, then presence.
`Register` makes the connection visible to `deliver` before it has enqueued the first of them, so the
frame of another call can come in between (`handshake_overtaken`). When no other goroutine sends to
the connection while its handler has a frame to enqueue first, its queue begins as promised
(`handshake_order`). -/

namespace LanRoom.Chat

open ThreadPool (Tid Machine Act Outline)

variable {u : UUIDPackage} {t : Tid} {k : Choice} {h h' : Hub} {c : Conn} {cl : Client}
  {f : Frame} {e : Entry} {th th' : Thread} {fs : List Thread} {c₀ d₁ d : ThreadPool.Config Hub Thread}
  {device : Device} {past : Hub} {frames : List Frame} {msgs : List Entry} {now now' : ℤ}

/-! ## What is placed, and when -/

/-- `enqueueJSON` drops nothing while few frames have been placed. -/
theorem Inv.enqueueJSON_room (hinv : Inv u h) (hmem : c ∈ h.clients)
    (hfew : (h.placed c).length < sendBuffer) :
    (h.enqueueJSON c f).placed c = h.placed c ++ [f] := by
  obtain ⟨cl, hc, hopen⟩ := hinv.of_mem hmem
  have hroom : cl.send.length < sendBuffer := by
    rw [Hub.placed_of_conn hc, Client.placed, List.length_append] at hfew
    omega
  rw [Hub.enqueueJSON, if_pos hmem, Hub.trySend_eq cl _ hc hopen hroom,
    Hub.placed_setClient hc [f] (cl.push_placed _), if_pos rfl]

/-! ## The order of the handshake -/

/-- What the handler of a connection enqueues before it announces it. -/
def greetings (device : Device) (msgs : List Entry) : List Frame :=
  .welcome device :: if msgs = [] then [] else [.history msgs]

/-- The messages were collected after `past`, when the oldest unexpired second was between that of
`past` and `now`: none is missing that was in the history of `past`, is visible to the device and had
not expired by then. -/
def Collected (past : Hub) (device : Device) (now : ℤ) (msgs : List Entry) : Prop :=
  ∃ cutoff, past.cutoff ≤ cutoff ∧ cutoff ≤ now ∧ ∀ e ∈ past.history,
    e.msg.visibleTo device.id = true → cutoff ≤ e.msg.timestamp → e ∈ msgs

/-- The queue has the welcome frame first and the history frame second, if there are messages to
show; all else is chat messages and presence frames. -/
def Greeted (past : Hub) (device : Device) (now : ℤ) (frames : List Frame) : Prop :=
  ∃ msgs rest, frames = greetings device msgs ++ rest ∧ Collected past device now msgs ∧
    ∀ f ∈ rest, ∃ m : Delivery, f = m.frame

/-- The queue is a beginning of the handshake, or has all of it. -/
def Opening (past : Hub) (device : Device) (now : ℤ) (frames : List Frame) : Prop :=
  frames = [] ∨ frames = [.welcome device] ∨ Greeted past device now frames

/-- Time has not gone back since `past`, and its messages that have not expired are in the
history. -/
structure Since (past h : Hub) : Prop where
  cutoff : past.cutoff ≤ h.cutoff
  history : ∀ e ∈ past.history, h.cutoff ≤ e.msg.timestamp → e ∈ h.history

/-- What has been placed in the queue of a connection that joined in `past`, while its handler is at
a program point of `Register`. -/
def Handshake (past : Hub) (device : Device) (h : Hub) (frames : List Frame) : RegisterPC → Prop
  | .start _ => False
  | .welcome => frames = []
  | .cutoff => frames = [.welcome device] ∨ Greeted past device h.cutoff frames
  | .snapshot cutoff => (frames = [.welcome device] ∨ Greeted past device h.cutoff frames) ∧
      cutoff ≤ h.cutoff
  | .history msgs => frames = [.welcome device] ∧ msgs ≠ [] ∧ Collected past device h.cutoff msgs
  | .presence _ | .registered => Greeted past device h.cutoff frames

/-- A snapshot stays complete when more messages have expired. Only messages that are still live are
asked for, and these get fewer as time passes. -/
theorem Collected.mono (hcollected : Collected past device now msgs) (hle : now ≤ now') :
    Collected past device now' msgs := by
  obtain ⟨cutoff, hpast, hnow, hall⟩ := hcollected
  exact ⟨cutoff, hpast, hnow.trans hle, hall⟩

/-- A queue that begins with the greetings keeps doing so. The condition on the history frame
weakens as the clock goes on. -/
theorem Greeted.mono (hgreeted : Greeted past device now frames) (hle : now ≤ now') :
    Greeted past device now' frames := by
  obtain ⟨msgs, rest, hframes, hcollected, hrest⟩ := hgreeted
  exact ⟨msgs, rest, hframes, hcollected.mono hle, hrest⟩

/-- One more chat message or presence frame. It stands behind the greetings, so their positions do
not change. -/
theorem Greeted.push (hgreeted : Greeted past device now frames) (m : Delivery) :
    Greeted past device now (frames ++ [m.frame]) := by
  obtain ⟨msgs, rest, rfl, hcollected, hrest⟩ := hgreeted
  refine ⟨msgs, rest ++ [m.frame], List.append_assoc .., hcollected, fun f hf => ?_⟩
  rcases List.mem_append.mp hf with hold | hnew
  · exact hrest f hold
  · exact ⟨m, List.mem_singleton.mp hnew⟩

/-- So does one that has only begun with them. The prefix of the greetings that is there stays a
prefix. -/
theorem Opening.mono (hopening : Opening past device now frames) (hle : now ≤ now') :
    Opening past device now' frames :=
  hopening.imp_right (.imp_right fun hgreeted => hgreeted.mono hle)

/-- During the handshake the queue is a beginning of the greetings, or has all of them. -/
theorem Handshake.opening {pc : RegisterPC} (hshake : Handshake past device h frames pc) :
    Opening past device h.cutoff frames := by
  cases pc with
  | start device => exact hshake.elim
  | welcome => exact .inl hshake
  | cutoff => exact .inr hshake
  | snapshot cutoff => exact .inr hshake.1
  | history msgs => exact .inr (.inl hshake.1)
  | presence pc | registered => exact .inr (.inr hshake)

/-- What is known at a program point stays known while time passes. -/
theorem Handshake.mono {pc : RegisterPC} (hshake : Handshake past device h frames pc)
    (hle : h.cutoff ≤ h'.cutoff) : Handshake past device h' frames pc := by
  cases pc with
  | start device | welcome => exact hshake
  | cutoff => exact hshake.imp_right fun hgreeted => hgreeted.mono hle
  | snapshot cutoff =>
      obtain ⟨hframes, hcutoff⟩ := hshake
      exact ⟨hframes.imp_right fun hgreeted => hgreeted.mono hle, hcutoff.trans hle⟩
  | history msgs =>
      obtain ⟨hframes, hne, hcollected⟩ := hshake
      exact ⟨hframes, hne, hcollected.mono hle⟩
  | presence pc | registered => exact Greeted.mono hshake hle

/-! ## The condition -/

/-- The handler has a frame of the handshake to enqueue next: the welcome frame, the history frame, or
one that its snapshot would now make necessary. -/
def RegisterPC.greeting (h : Hub) (device : Device) : RegisterPC → Bool
  | .welcome | .history _ => true
  | .cutoff | .snapshot _ => decide (h.historyFor h.cutoff device.id ≠ [])
  | _ => false

/-- The handler `c` would collect messages for a queue that has more than the welcome frame. -/
def RegisterPC.late (h : Hub) (c : Conn) (device : Device) : RegisterPC → Bool
  | .snapshot oldest =>
      decide (h.historyFor oldest device.id ≠ []) && decide ((h.placed c).length ≠ 1)
  | _ => false

/-- While the handler of `c` has a frame of the handshake to enqueue next, no other goroutine sends to
`c` a frame that is for its device; and when it collects the history after such a frame, there is
nothing to collect. -/
def greetsFirst (c : Conn) (d : ThreadPool.Config Hub Thread) : Act Thread Choice ℕ → Bool
  | .run t _ =>
      match d.threads[t]?, d.threads[c]?, d.shared.conns c with
      | some th, some (.register pc), some cl =>
          if t = c then !pc.late d.shared c cl.device
          else !pc.greeting d.shared cl.device || (th.offers c).all fun f => !f.suits cl.device
      | _, _, _ => true
  | _ => true

/-- The condition, for a section of the handler itself. It reads as the absence of a frame from the
queue at the moment the greeting is written. -/
theorem greetsFirst_self {pc : RegisterPC} (hgreets : greetsFirst c c₀ (.run c k) = true)
    (hpc : c₀.threads[c]? = some (.register pc)) (hc : c₀.shared.conns c = some cl) :
    pc.late c₀.shared c cl.device = false := by
  simpa [greetsFirst, hpc, hc] using hgreets

/-- The condition, for a section of another goroutine that offers a frame. -/
theorem greetsFirst_other {pc : RegisterPC} (hgreets : greetsFirst c c₀ (.run t k) = true)
    (hth : c₀.threads[t]? = some th) (hpc : c₀.threads[c]? = some (.register pc))
    (hc : c₀.shared.conns c = some cl) (htc : t ≠ c) (hoffers : th.offers c = some f)
    (hsuits : f.suits cl.device = true) : pc.greeting c₀.shared cl.device = false := by
  simpa [greetsFirst, hth, hpc, hc, htc, hoffers, hsuits] using hgreets

/-! ## One section -/

/-- Time does not go back, and unexpired messages stay. It is the step of the invariant that ties
the moment of the join to every later state. -/
theorem since_exec {act : Act Thread Choice ℕ} (hsince : Since past c₀.shared)
    (hexec : (machine u).exec c₀ act = some d) : Since past d.shared := by
  cases act with
  | spawn th =>
      obtain rfl := Option.some.inj hexec
      exact hsince
  | env n =>
      obtain rfl := Option.some.inj hexec
      have hle := c₀.shared.cutoff_tick n
      exact ⟨hsince.cutoff.trans hle, fun e he hunexpired =>
        hsince.history e he (hle.trans hunexpired)⟩
  | run t k =>
      obtain ⟨th, h', th', fs, hth, hstep, rfl⟩ := (machine u).exec_run_iff.mp hexec
      have heffect : Effect u t c₀.shared th h' th' fs := .of_step hstep
      refine ⟨hsince.cutoff.trans (Int.le_of_eq heffect.cutoff_eq.symm), fun e he hunexpired => ?_⟩
      rw [show (⟨h', c₀.threads.set t th' ++ fs⟩ : ThreadPool.Config Hub Thread).shared.cutoff =
        c₀.shared.cutoff from heffect.cutoff_eq] at hunexpired
      exact heffect.mem_history (hsince.history e he hunexpired) hunexpired

/-- What `sendHistory` collects at any time after `past`, with a clock reading that is not later. -/
theorem Since.collected (hsince : Since past h) (device : Device) {cutoff : ℤ}
    (hcutoff : cutoff ≤ h.cutoff) :
    Collected past device h.cutoff (h.historyFor cutoff device.id) := by
  refine ⟨h.cutoff, hsince.cutoff, le_rfl, fun e he hvisible hunexpired => ?_⟩
  refine List.mem_filter.mpr ⟨hsince.history e he hunexpired, ?_⟩
  rw [hvisible, Bool.and_true]
  exact decide_eq_true (hcutoff.trans hunexpired)

/-- A frame that comes after the welcome frame while there is nothing to collect. -/
theorem Since.greeted (hsince : Since past h) (hnil : h.historyFor h.cutoff device.id = [])
    (hframes : frames = [.welcome device] ∨ Greeted past device h.cutoff frames) :
    Greeted past device h.cutoff frames := by
  rcases hframes with rfl | hgreeted
  · have hcollected := hsince.collected device (le_refl h.cutoff)
    rw [hnil] at hcollected
    exact ⟨[], [], rfl, hcollected, nofun⟩
  · exact hgreeted

/-- A section of the handler of `c` leads from one point of the handshake to the next. -/
theorem handshake_self {pc pc' : RegisterPC} (hreach : Reachable u c₀)
    (hgreets : greetsFirst c c₀ (.run c k) = true) (hsince : Since past c₀.shared)
    (hpc : c₀.threads[c]? = some (.register pc))
    (hstep : registerStep c k c₀.shared pc = some (h', pc', fs)) (hc : c₀.shared.conns c = some cl)
    (hmem : c ∈ c₀.shared.clients)
    (hshake : Handshake past cl.device c₀.shared (c₀.shared.placed c) pc) :
    Handshake past cl.device h' (h'.placed c) pc' := by
  have hvalid := hreach.valid
  have hinv : Inv u c₀.shared := hvalid.inv
  have heffect : Effect u c c₀.shared (.register pc) h' (.register pc') fs := .of_registerStep hstep
  have hlate := greetsFirst_self hgreets hpc hc
  cases pc with
  | start device => exact hshake.elim
  | registered => cases hstep
  | welcome =>
      obtain ⟨cl', hc', heq⟩ := Option.map_eq_some_iff.mp hstep
      obtain rfl := Option.some.inj (hc.symm.trans hc')
      cases heq
      have hempty : c₀.shared.placed c = [] := hshake
      refine .inl ?_
      rw [hinv.enqueueJSON_room hmem (by rw [hempty]; decide), hempty]
      rfl
  | cutoff =>
      cases hstep
      exact ⟨hshake, le_rfl⟩
  | snapshot cutoff =>
      obtain ⟨cl', hc', heq⟩ := Option.map_eq_some_iff.mp hstep
      obtain rfl := Option.some.inj (hc.symm.trans hc')
      obtain ⟨hframes, hcutoff⟩ := hshake
      have hcollected := hsince.collected cl.device hcutoff
      dsimp only at heq
      by_cases hnil : c₀.shared.historyFor cutoff cl.device.id = []
      · rw [if_pos hnil] at heq
        cases heq
        rcases hframes with hframes | hgreeted
        · refine ⟨[], [], ?_, hnil ▸ hcollected, nofun⟩
          rw [hframes]
          rfl
        · exact hgreeted
      · rw [if_neg hnil] at heq
        cases heq
        refine ⟨?_, hnil, hcollected⟩
        rcases hframes with hframes | ⟨msgs, rest, hframes, -, -⟩
        · exact hframes
        · -- there is only one frame, and the first one is the welcome frame
          have hone : (c₀.shared.placed c).length = 1 := by
            simpa [RegisterPC.late, hnil] using hlate
          rw [hframes, greetings, List.cons_append, List.length_cons, Nat.add_eq_right,
            List.length_eq_zero_iff] at hone
          rw [hframes, greetings, List.cons_append, hone]
  | history msgs =>
      cases hstep
      obtain ⟨hframes, hne, hcollected⟩ := hshake
      obtain ⟨_, _, heq⟩ := c₀.shared.enqueueJSON_frame c (.history msgs)
      refine ⟨msgs, [], ?_, ?_, nofun⟩
      · rw [hinv.enqueueJSON_room hmem (by rw [hframes]; simp [sendBuffer]), hframes, greetings, if_neg hne]
        rfl
      · rw [heq]
        exact hcollected
  | presence pc =>
      have hgreeted : Greeted past cl.device h'.cutoff (h'.placed c) := by
        rw [heffect.cutoff_eq]
        rcases heffect.placed hinv (hvalid.loc c _ hpc) c with hsame | ⟨f, happend, hplaces, -⟩
        · rw [hsame]
          exact hshake
        · rw [happend]
          rcases hplaces.offers with hoffers | ⟨-, ⟨_, -, heq⟩ | ⟨_, -, heq⟩⟩
          · obtain ⟨m, rfl⟩ := hreach.offers_frame hpc hoffers
            exact Greeted.push hshake m
          · cases heq
          · cases heq
      rcases registerStep_presence hstep with ⟨pc₁, rfl⟩ | rfl
      · exact hgreeted
      · exact hgreeted

/-- A section of another goroutine leaves the handshake in order. -/
theorem handshake_other {pc : RegisterPC} (hreach : Reachable u c₀)
    (hgreets : greetsFirst c c₀ (.run t k) = true) (hsince : Since past c₀.shared)
    (hth : c₀.threads[t]? = some th) (heffect : Effect u t c₀.shared th h' th' fs)
    (hpc : c₀.threads[c]? = some (.register pc)) (hc : c₀.shared.conns c = some cl) (htc : t ≠ c)
    (hshake : Handshake past cl.device c₀.shared (c₀.shared.placed c) pc) :
    Handshake past cl.device h' (h'.placed c) pc := by
  have hvalid := hreach.valid
  have hinv : Inv u c₀.shared := hvalid.inv
  have hle : c₀.shared.cutoff ≤ h'.cutoff := Int.le_of_eq heffect.cutoff_eq.symm
  -- another thread placed nothing for `c`, or one frame
  rcases heffect.placed hinv (hvalid.loc t th hth) c with hsame | ⟨f, hplaced⟩
  · rw [hsame]
    exact hshake.mono hle
  · have hoffers : th.offers c = some f := by
      rcases hplaced.places.offers with hoffers | ⟨heq, -⟩
      · exact hoffers
      · exact absurd heq htc
    obtain ⟨m, rfl⟩ := hreach.offers_frame hth hoffers
    have htakes := heffect.takes hinv (hvalid.loc t th hth) hplaced
    rw [Hub.takes, hc, Option.any_some, Bool.and_eq_true] at htakes
    -- the condition: a frame of the hub does not arrive while `welcome` or `history` is owed
    have hnot := greetsFirst_other hgreets hth hpc hc htc hoffers htakes.1
    rw [hplaced.append]
    cases pc with
    | start device => exact hshake.elim
    | welcome | history msgs => cases hnot
    | cutoff =>
        -- an empty history is not sent, so the greeting is complete after `welcome`
        have hnil : c₀.shared.historyFor c₀.shared.cutoff cl.device.id = [] := by
          simpa [RegisterPC.greeting] using hnot
        exact .inr (((hsince.greeted hnil hshake).push m).mono hle)
    | snapshot cutoff =>
        obtain ⟨hframes, hcutoff⟩ := hshake
        have hnil : c₀.shared.historyFor c₀.shared.cutoff cl.device.id = [] := by
          simpa [RegisterPC.greeting] using hnot
        exact ⟨.inr (((hsince.greeted hnil hframes).push m).mono hle), hcutoff.trans hle⟩
    | presence pc | registered => exact (Greeted.push hshake m).mono hle

/-! ## Whole runs -/

/-- What holds of a connection of the device that joined in `past`. -/
structure Shaking (past : Hub) (device : Device) (c : Conn) (d : ThreadPool.Config Hub Thread) :
    Prop where
  since : Since past d.shared
  conn : ∃ cl, d.shared.conns c = some cl ∧ cl.device = device
  opening : Opening past device d.shared.cutoff (d.shared.placed c)
  registered : Registering c
    (fun d _ pc => Handshake past device d.shared (d.shared.placed c) pc) d

/-- The queue keeps its beginning: what is placed while the connection is registered is part of the
handshake or comes after it, and nothing is placed later. -/
theorem opening_exec {act : Act Thread Choice ℕ} (hreach : Reachable u c₀)
    (hshaking : Shaking past device c c₀)
    (hregistered : Registering c
      (fun d _ pc => Handshake past device d.shared (d.shared.placed c) pc) d)
    (hconn : ∃ cl, d.shared.conns c = some cl) (hexec : (machine u).exec c₀ act = some d) :
    Opening past device d.shared.cutoff (d.shared.placed c) := by
  by_cases hmem : c ∈ d.shared.clients
  · -- while the connection is registered the opening follows from where its thread is
    obtain ⟨cl, hc⟩ := hconn
    obtain ⟨pc, -, hshake⟩ := hregistered cl hc hmem
    exact hshake.opening
  · cases act with
    | spawn th =>
        obtain rfl := Option.some.inj hexec
        exact hshaking.opening
    | env n =>
        obtain rfl := Option.some.inj hexec
        exact hshaking.opening.mono (c₀.shared.cutoff_tick n)
    | run t k =>
        obtain ⟨th, h', th', fs, hth, hstep, rfl⟩ := (machine u).exec_run_iff.mp hexec
        have heffect : Effect u t c₀.shared th h' th' fs := .of_step hstep
        -- once it is not registered, nothing is placed any more
        have hsame := heffect.placed_of_gone hreach.valid.inv (hreach.valid.loc t th hth)
          (hreach.locked.rest t th hth) hmem
        show Opening past device h'.cutoff (h'.placed c)
        rw [hsame]
        exact hshaking.opening.mono (Int.le_of_eq heffect.cutoff_eq.symm)

/-- **The step theorem**: an action that meets the condition keeps the handshake in order. A section
of the handler itself leads to its next greeting; a section of another goroutine places nothing
before the greetings, by the condition. -/
theorem shaking_exec {act : Act Thread Choice ℕ} (hreach : Reachable u c₀)
    (hshaking : Shaking past device c c₀) (hgreets : greetsFirst c c₀ act = true)
    (hexec : (machine u).exec c₀ act = some d) : Shaking past device c d := by
  obtain ⟨cl₀, hc₀, hdevice₀⟩ := hshaking.conn
  have hvalid := hreach.valid
  have hregistered : Registering c
      (fun d _ pc => Handshake past device d.shared (d.shared.placed c) pc) d := by
    refine hshaking.registered.exec hvalid hexec ?_ ?_ ?_
    · rintro - - hnone
      rw [hc₀] at hnone
      cases hnone
    · -- the thread of the join itself
      rintro k pc pc' h' fs cl cl' rfl hpc hstep rfl hc - - hmem - hshake
      obtain rfl := Option.some.inj (hc₀.symm.trans hc)
      subst hdevice₀
      exact handshake_self hreach hgreets hshaking.since hpc hstep hc hmem hshake
    · -- all the others
      rintro pc cl cl' hact hpc hc - - - - hshake
      obtain rfl := Option.some.inj (hc₀.symm.trans hc)
      subst hdevice₀
      cases act with
      | spawn th =>
          obtain rfl := Option.some.inj hexec
          exact hshake
      | env n =>
          obtain rfl := Option.some.inj hexec
          exact hshake.mono (c₀.shared.cutoff_tick n)
      | run t k =>
          obtain ⟨th, h', th', fs, hth, hstep, rfl⟩ := (machine u).exec_run_iff.mp hexec
          exact handshake_other hreach hgreets hshaking.since hth (.of_step hstep) hpc hc
            (fun heq => hact k (heq ▸ rfl)) hshake
  have hconn := conn_exec hvalid hshaking.conn hexec
  exact ⟨since_exec hshaking.since hexec, hconn,
    opening_exec hreach hshaking hregistered (hconn.imp fun _ h => h.1) hexec, hregistered⟩

/-- **The handshake comes first**: let `c` join. In every run whose steps all meet `greetsFirst`, the
queue of `c` has nothing before the welcome frame and nothing between it and the history frame, which
has every message that was in the history at the join, is visible to the device and had not expired
when the messages were collected; and while `c` stays registered, none of the two is missing once
`Register` is past it. -/
theorem handshake_order (hreach : Reachable u c₀)
    (hth : c₀.threads[c]? = some (.register (.start device)))
    (hjoin : (machine u).exec c₀ (.run c k) = some d₁)
    (hrun : (machine u).Run (fun d act => Arrivals d act ∧ greetsFirst c d act = true) d₁ d) :
    Opening d₁.shared device d.shared.cutoff (d.shared.placed c) ∧
      (c ∈ d.shared.clients → ∃ pc, d.threads[c]? = some (.register pc) ∧
        Handshake d₁.shared device d.shared (d.shared.placed c) pc) := by
  have hreach₁ : Reachable u d₁ := hreach.exec (fun _ heq => by cases heq) hjoin
  -- the section that joins: the queue is empty, and the history is what it is now
  have hshaking₁ : Shaking d₁.shared device c d₁ := by
    obtain ⟨th, h', th', fs, hth', hstep, rfl⟩ := (machine u).exec_run_iff.mp hjoin
    obtain rfl := Option.some.inj (hth.symm.trans hth')
    have hnone := (hreach.valid.loc c _ hth).fresh device rfl
    have heq : h' = c₀.shared.join c device ∧ th' = .register .welcome := by
      obtain ⟨⟨h₁, pc₁, fs₁⟩, hregister, heq⟩ := Option.map_eq_some_iff.mp hstep
      simp only [registerStep] at hregister
      split at hregister <;> cases hregister
      cases heq
      exact ⟨rfl, rfl⟩
    obtain ⟨rfl, rfl⟩ := heq
    have hempty : (c₀.shared.join c device).placed c = [] := by
      rw [Hub.join_placed hnone, Hub.placed_of_none hnone]
    exact ⟨⟨le_rfl, fun e he _ => he⟩, ⟨_, Hub.join_self device, rfl⟩, .inl hempty,
      fun cl _ _ => ⟨.welcome, ThreadPool.getElem?_set_append_self hth _ _, hempty⟩⟩
  obtain ⟨-, hshaking⟩ : Reachable u d ∧ Shaking d₁.shared device c d := by
    -- the step lemma along the run
    refine hrun.invariant (I := fun d => Reachable u d ∧ Shaking d₁.shared device c d)
      ⟨hreach₁, hshaking₁⟩ ?_
    rintro c₂ act d₂ ⟨hreach₂, hshaking₂⟩ ⟨harrive, hgreets⟩ hexec
    exact ⟨hreach₂.exec harrive hexec, shaking_exec hreach₂ hshaking₂ hgreets hexec⟩
  refine ⟨hshaking.opening, fun hmem => ?_⟩
  obtain ⟨cl, hc, -⟩ := hshaking.conn
  exact hshaking.registered cl hc hmem

/-! ## Overlaps -/

namespace Sample

/-- Thread `0` has joined and sent a message to everyone; thread `3` is about to join. -/
def arrivesLater : List (Act Thread Choice ℕ) := joins ++ sendMessage 2 [0] ++ [arrive 2]

/-- Thread `3` goes on after it has joined. -/
def greetsLater : List (Act Thread Choice ℕ) := go 3 4 ++ broadcastPresence 3 [0, 3]

/-- Thread `2`, the `ReadPump` of `0`, sends a message to everyone before thread `3`, which has
joined, enqueues its welcome frame. -/
def overtaken : List (Act Thread Choice ℕ) := sendMessage 2 [0, 3] ++ go 3 1

/-- The thread is about to register the device of thread `3`. -/
def registers : Option Thread → Bool
  | some (.register (.start device)) => decide (device = { id := [2] })
  | _ => false

/-- The frames are a message and the welcome frame of thread `3`. -/
def welcomedLate : List Frame → Bool
  | [.message _, .welcome device] => decide (device = { id := [2] })
  | _ => false

end Sample

/-- A connection that joins with another one online, and has its three frames in order. -/
theorem handshake_order_later : ∃ d₁ d : ThreadPool.Config Hub Thread,
    (machine Sample.uuids).Run (fun d act => Arrivals d act ∧ greetsFirst 3 d act = true) d₁ d ∧
      (d.shared.placed 3).length = 3 ∧ 3 ∈ d.shared.clients ∧
      Opening d₁.shared { id := [2] } d.shared.cutoff (d.shared.placed 3) := by
  have hrun : ((machine Sample.uuids).execAll (boot 1000000000 0) Sample.arrivesLater).any fun c₀ =>
      ((machine Sample.uuids).exec c₀ (.run 3 .go)).any fun d₁ =>
        ((machine Sample.uuids).execAllIf (greetsFirst 3) d₁ Sample.greetsLater).any fun d =>
          Sample.registers c₀.threads[3]? && decide ((d.shared.placed 3).length = 3) &&
            decide (3 ∈ d.shared.clients) := by
    decide +kernel
  obtain ⟨c₀, hexec₀, hrun⟩ := (Option.any_eq_true _ _).mp hrun
  obtain ⟨d₁, hjoin, hrun⟩ := (Option.any_eq_true _ _).mp hrun
  obtain ⟨d, hexec, hrun⟩ := (Option.any_eq_true _ _).mp hrun
  simp only [Bool.and_eq_true, decide_eq_true_eq] at hrun
  obtain ⟨⟨hstart, hlength⟩, hmem⟩ := hrun
  unfold Sample.registers at hstart
  split at hstart
  · rename_i device hth
    obtain rfl : device = { id := [2] } := of_decide_eq_true hstart
    have hsteps := Sample.run_of_execAllIf (by decide) hexec
    exact ⟨d₁, d, hsteps, hlength, hmem,
      (handshake_order (Sample.reachable_of_execAll (by decide) hexec₀) hth hjoin hsteps).1⟩
  · cases hstart

/-- A message is delivered to a connection that has joined and not been greeted: its queue begins
with the message. -/
theorem handshake_overtaken : ∃ (d₁ d : ThreadPool.Config Hub Thread) (e : Entry),
    (machine Sample.uuids).execAll (boot 1000000000 0) (Sample.arrivesLater ++ Sample.go 3 1) =
        some d₁ ∧
      d₁.shared.placed 3 = [] ∧ (machine Sample.uuids).Run Arrivals d₁ d ∧ 3 ∈ d.shared.clients ∧
      d.shared.placed 3 = [.message e, .welcome { id := [2] }] := by
  -- a message is delivered between `clients[c] = …` and `sendWelcome`
  have hrun : ((machine Sample.uuids).execAll (boot 1000000000 0)
      (Sample.arrivesLater ++ Sample.go 3 1)).any fun d₁ =>
        ((machine Sample.uuids).execAll d₁ Sample.overtaken).any fun d =>
          decide (d₁.shared.placed 3 = []) && decide (3 ∈ d.shared.clients) &&
            Sample.welcomedLate (d.shared.placed 3) := by
    decide +kernel
  obtain ⟨d₁, hexec₁, hrun⟩ := (Option.any_eq_true _ _).mp hrun
  obtain ⟨d, hexec, hrun⟩ := (Option.any_eq_true _ _).mp hrun
  simp only [Bool.and_eq_true, decide_eq_true_eq] at hrun
  obtain ⟨⟨hempty, hmem⟩, hframes⟩ := hrun
  unfold Sample.welcomedLate at hframes
  split at hframes
  · rename_i e device hplaced
    obtain rfl : device = { id := [2] } := of_decide_eq_true hframes
    have htame : Sample.overtaken.all Sample.tame = true := by decide
    exact ⟨d₁, d, e, hexec₁, hempty, .of_execAll (fun c act hact =>
      Sample.arrivals_of_tame (List.all_eq_true.mp htame act hact) c) hexec, hmem, hplaced⟩
  · cases hframes

end LanRoom.Chat

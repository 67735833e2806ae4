import LanRoom.Chat.Registering

/-! # The chat messages in the hub

Every chat message that is in the history or in a queue is one for the clients, and its `Recipients`
are the devices that `To` lists, in the same order (`Reachable.traffic`). -/

namespace LanRoom.Chat

open ThreadPool (Tid Machine Act Outline)

variable {u : UUIDPackage} {t : Tid} {h h' : Hub} {c : Conn} {f : Frame} {e : Entry}
  {th th' : Thread} {fs : List Thread} {d : ThreadPool.Config Hub Thread}

/-- A chat message that is ready for delivery. -/
structure Entry.Labelled (e : Entry) : Prop where
  type : e.msg.type = goString "message"
  recipients : e.msg.recipients.map Device.id = e.msg.toIDs

/-- The devices in `known` are there under their IDs. -/
def Hub.KnowsIDs (h : Hub) : Prop := ∀ id device, h.known id = some device → device.id = id

/-- The messages that a goroutine has in hand; one whose recipients are still to be filled in has
none yet. -/
def Thread.Labelled : Thread → Prop
  | .readPump _ (.recipients e) => e.msg.type = goString "message"
  | th => ∀ e ∈ th.entries, e.Labelled

/-! ## Sections -/

/-- An announcement holds no message but those of its delivery. The three callers differ in what
they do afterwards, and not in this. -/
theorem PresenceCaller.labelled_thread (p : PresenceCaller) (pc : PresencePC) :
    (p.thread pc).Labelled ↔ ∀ e ∈ pc.entries, e.Labelled := by
  cases p with
  | join | leave | drop => rfl

/-- A caller that goes on holds none. A presence frame has no messages to pass on. -/
theorem PresenceCaller.labelled_back (p : PresenceCaller) : p.back.Labelled := by
  cases p with
  | join | leave | drop => exact nofun

/-- A delivery holds the messages of its frame. What a delivery places is therefore labelled if the
goroutine is. -/
theorem Caller.labelled_thread (p : Caller) (pc : DeliverPC) :
    (p.thread pc).Labelled ↔ ∀ e ∈ pc.delivery.frame.entries, e.Labelled := by
  cases p with
  | send c => rfl
  | presence p => exact p.labelled_thread (.deliver pc)

/-- A caller that goes on holds none. What was in hand has been placed or handed over. -/
theorem Caller.labelled_back (p : Caller) : p.back.Labelled := by
  cases p with
  | send c => exact nofun
  | presence p => exact p.labelled_back

/-- A goroutine that is started holds none. These are the two pumps of a connection that has
joined. -/
theorem Caller.labelled_forks (p : Caller) : ∀ th ∈ p.forks t, th.Labelled := by
  intro th hth
  rcases p with _ | _ | _ | _
  all_goals first
    | cases hth; done
    | skip
  simp only [Caller.forks, PresenceCaller.forks, List.mem_cons, List.not_mem_nil, or_false] at hth
  rcases hth with rfl | rfl
  all_goals
    intro e he
    exact absurd he List.not_mem_nil

/-- `Recipients` are filled in for every ID. A device that is not known is listed under its ID
alone, so the IDs agree in any case. -/
theorem Hub.labelled_fillRecipients (hknown : h.KnowsIDs) (htype : e.msg.type = goString "message") :
    Entry.Labelled { e with msg := h.fillRecipients e.msg } where
  type := htype
  recipients := by
    show (e.msg.toIDs.map fun id => (h.known id).getD { id }).map Device.id = e.msg.toIDs
    rw [List.map_map]
    conv_rhs => rw [← List.map_id e.msg.toIDs]
    apply List.map_congr_left
    intro id _
    show ((h.known id).getD { id }).id = id
    cases hid : h.known id with
    | none => rfl
    | some device => exact hknown id device hid

/-- A section keeps what a goroutine has in hand labelled, and those it starts. -/
theorem Effect.labelled (heffect : Effect u t h th h' th' fs) (hknown : h.KnowsIDs)
    (hhistory : ∀ e ∈ h.history, e.Labelled) (hth : th.Labelled) :
    th'.Labelled ∧ ∀ th ∈ fs, th.Labelled := by
  have hnone : ∀ th ∈ ([] : List Thread), th.Labelled := nofun
  cases heffect with
  | locked hperm | skipped hc hskip =>
    rw [Caller.labelled_thread] at hth ⊢
    exact ⟨hth, hnone⟩
  | sent hc hpass hsend =>
    rw [Caller.labelled_thread] at hth ⊢
    exact ⟨hth, hnone⟩
  | unlocked => exact ⟨Caller.labelled_back _, Caller.labelled_forks _⟩
  -- the started goroutine carries the frame of the delivery
  | @forked p m c rest cl h' hc hpass hsend =>
    rw [Caller.labelled_thread] at hth ⊢
    refine ⟨hth, ?_⟩
    intro th hmem
    obtain rfl := List.mem_singleton.mp hmem
    intro e he
    rw [show (Thread.slow c m.frame .start).entries = m.frame.entries from List.append_nil _] at he
    exact hth e he
  | devices hperm =>
    rw [PresenceCaller.labelled_thread]
    exact ⟨nofun, hnone⟩
  -- what `historyFor` selects comes from the history
  | snapshot hc hne =>
    refine ⟨?_, hnone⟩
    intro e he
    exact hhistory e (List.mem_of_mem_filter he)
  | @accepted c cl m toIDs hc hscreen =>
    refine ⟨?_, hnone⟩
    split
    · rename_i hnil
      intro e he
      obtain rfl := List.mem_singleton.mp he
      exact ⟨rfl, hnil.symm⟩
    · rfl
  -- the list of recipients is filled in from the devices the hub knows
  | recipients =>
    refine ⟨?_, hnone⟩
    intro e he
    obtain rfl := List.mem_singleton.mp he
    exact Hub.labelled_fillRecipients hknown hth
  | addedToHistory hfree => exact ⟨hth, hnone⟩
  | slowStarted | slowContinued htime | slowFull hmem hsend | slowWoke htime => exact ⟨hth, hnone⟩
  | joined hfree | welcomed hc | cutoff | noHistory hc hnil | replayed | failed | ignored
  | left hfree hleave | hadLeft hfree hleave | slowTimedOut htime | slowSent hmem hsend | slowGone hmem
  | slowStill hmem | slowMissed hmem | slowKicked hfree hleave | slowHadLeft hfree hleave
  | took hc hsend | writeEnded => exact ⟨nofun, hnone⟩

/-- Who places a frame has its messages in hand. There is no other source for the messages in a
frame. -/
theorem Places.labelled (hplaces : Places t c th th' f) (hth : th.Labelled) :
    ∀ e ∈ f.entries, e.Labelled := by
  cases hplaces with
  | deliver hfrom _ =>
    subst hfrom
    rw [Caller.labelled_thread] at hth
    exact hth
  | retry hfrom _ =>
    subst hfrom
    intro e he
    exact hth e (List.mem_append_left _ he)
  | welcome _ _ _ => exact nofun
  | history _ hfrom _ =>
    subst hfrom
    exact hth

/-- Nobody but a device that joins is added to `known`. It is entered under its own ID, so the
invariant is kept. -/
theorem Effect.knowsIDs (heffect : Effect u t h th h' th' fs) (hknown : h.KnowsIDs) : h'.KnowsIDs := by
  have hsame : ∀ {h' : Hub}, h'.known = h.known → h'.KnowsIDs := by
    intro h' heq id device hid
    rw [heq] at hid
    exact hknown id device hid
  cases heffect with
  -- the only section that adds a device, under its own identifier
  | @joined device hfree =>
    intro id device' hid
    have hupdate : Function.update h.known device.id (some device) id = some device' := hid
    by_cases heq : id = device.id
    · subst heq
      rw [Function.update_self] at hupdate
      rw [Option.some.inj hupdate]
    · rw [Function.update_of_ne heq] at hupdate
      exact hknown id device' hupdate
  | sent hc hpass hsend | forked hc hpass hsend | slowSent hmem hsend | slowFull hmem hsend =>
    obtain ⟨_, _, rfl⟩ := Hub.trySend_frame hsend
    exact hsame rfl
  | welcomed hc | replayed =>
    obtain ⟨_, _, heq⟩ := h.enqueueJSON_frame t _
    rw [heq]
    exact hsame rfl
  | left hfree hleave | hadLeft hfree hleave | slowKicked hfree hleave | slowHadLeft hfree hleave =>
    obtain ⟨_, _, _, rfl⟩ := Hub.unregister_frame hleave
    exact hsame rfl
  | _ => exact hsame rfl

/-! ## Runs -/

/-- Every chat message in the hub is ready for delivery, or in hand to become so. -/
structure Traffic (d : ThreadPool.Config Hub Thread) : Prop where
  known : d.shared.KnowsIDs
  history : ∀ e ∈ d.shared.history, e.Labelled
  queue : ∀ c, ∀ f ∈ d.shared.placed c, ∀ e ∈ f.entries, e.Labelled
  hands : ∀ th ∈ d.threads, th.Labelled

/-- **Every action keeps every message ready for delivery**, or in hand to become so: its recipients
are filled in before it enters the history. -/
theorem traffic_exec {act : Act Thread Choice ℕ} {c₀ : ThreadPool.Config Hub Thread}
    (hvalid : (outline u).Valid () c₀) (htraffic : Traffic c₀) (harrive : Arrivals c₀ act)
    (hexec : (machine u).exec c₀ act = some d) : Traffic d := by
  cases act with
  | spawn th =>
    obtain rfl := Option.some.inj hexec
    obtain ⟨device, rfl⟩ := harrive th rfl
    refine ⟨htraffic.known, htraffic.history, htraffic.queue, ?_⟩
    intro th hth
    rcases List.mem_append.mp hth with hth | hth
    · exact htraffic.hands th hth
    · obtain rfl := List.mem_singleton.mp hth
      intro e he
      exact absurd he List.not_mem_nil
  | env e =>
    obtain rfl := Option.some.inj hexec
    exact ⟨htraffic.known, htraffic.history, htraffic.queue, htraffic.hands⟩
  | run t k =>
    obtain ⟨th, h', th', fs, hth, hstep, rfl⟩ := (machine u).exec_run_iff.mp hexec
    have heffect : Effect u t c₀.shared th h' th' fs := .of_step hstep
    have hown := htraffic.hands th (List.mem_of_getElem? hth)
    obtain ⟨hmoved, hforks⟩ := heffect.labelled htraffic.known htraffic.history hown
    refine ⟨heffect.knowsIDs htraffic.known, ?_, ?_, ?_⟩
    · -- the history grows by the message in the pump's hand
      rcases heffect.history with ⟨hsame, -⟩ | ⟨c, e, rfl, -, rfl⟩
      · rw [hsame]
        exact htraffic.history
      · intro x hx
        rcases List.mem_append.mp hx with hx | hx
        · exact htraffic.history x (List.mem_of_mem_filter hx)
        · exact hown x hx
    · intro c f hf
      -- a frame that is placed comes from the thread that places it
      rcases heffect.placed hvalid.inv (hvalid.loc t th hth) c with hsame | ⟨g, hplaced⟩
      · rw [hsame] at hf
        exact htraffic.queue c f hf
      · rw [hplaced.append] at hf
        rcases List.mem_append.mp hf with hf | hf
        · exact htraffic.queue c f hf
        · obtain rfl := List.mem_singleton.mp hf
          exact hplaced.places.labelled hown
    · intro w hw
      rcases List.mem_append.mp hw with hw | hw
      · rcases List.mem_or_eq_of_mem_set hw with hw | rfl
        · exact htraffic.hands w hw
        · exact hmoved
      · exact hforks w hw

/-- **Every chat message that is delivered is labelled**, in every interleaving. It is what the
clients rely on when they read the `type` and the recipients of a message. -/
theorem Reachable.traffic (hreach : Reachable u d) : Traffic d := by
  obtain ⟨historyTTL, now, hrun⟩ := hreach
  have hboth : (outline u).Valid () d ∧ Traffic d := by
    refine hrun.invariant (I := fun d => (outline u).Valid () d ∧ Traffic d) ?_ ?_
    · refine ⟨valid_boot u historyTTL now, nofun, nofun, ?_, nofun⟩
      intro c f hf
      cases hf
    · intro c act d ⟨hvalid, htraffic⟩ harrive hexec
      obtain ⟨_, hmatched⟩ := Outline.valid_exec hvalid harrive hexec
      exact ⟨hmatched.valid, traffic_exec hvalid htraffic harrive hexec⟩
  exact hboth.2

end LanRoom.Chat

import LanRoom.Chat.Ledger

/-! # Frames on offer

A goroutine offers a frame to a connection when its next section tries to send it. The queue takes it
if it is for the device of the connection and there is room. -/

namespace LanRoom.Chat

open ThreadPool (Tid Machine Act Outline)

variable {u : UUIDPackage} {t : Tid} {h h' : Hub} {c c' : Conn} {f : Frame} {th th' : Thread}
  {fs : List Thread} {d : ThreadPool.Config Hub Thread} {q : Frame → Bool}

/-! ## What a goroutine offers -/

/-- The frame a goroutine sends to `c` in its next section, if the queue has room. -/
def Thread.offers (c : Conn) (th : Thread) : Option Frame :=
  match th with
  | .slow c' f (.attempt _) => if c' = c then some f else none
  | _ =>
      match th.deliverPC with
      | some (.loop m (c' :: _)) => if c' = c then some m.frame else none
      | _ => none

/-- A delivery offers its frame to the client it comes to next. Nothing is offered to the clients
further down the list yet. -/
@[simp] theorem Caller.offers_loop (p : Caller) (m : Delivery) (rest : List Conn) :
    (p.thread (.loop m (c' :: rest))).offers c = if c' = c then some m.frame else none := by
  rcases p with _ | _ | _ | _ <;> rfl

/-- What is placed was on offer, or is part of the handshake of the connection itself. -/
theorem Places.offers (hplaces : Places t c th th' f) : th.offers c = some f ∨
    t = c ∧ ((∃ device, f = .welcome device ∧ th = .register .welcome) ∨
      ∃ msgs, f = .history msgs ∧ th = .register (.history msgs)) := by
  cases hplaces with
  | deliver hth _ =>
      subst hth
      exact .inl (by simp)
  | retry hth _ =>
      subst hth
      exact .inl (if_pos rfl)
  | welcome htc hth _ => exact .inr ⟨htc, .inl ⟨_, rfl, hth⟩⟩
  | history htc hth _ => exact .inr ⟨htc, .inr ⟨_, rfl, hth⟩⟩

/-- The chat messages in what is placed were in hand. A message in a queue can thus be traced back
to the goroutine that placed it. -/
theorem Places.entries {e : Entry} (hplaces : Places t c th th' f) (he : e ∈ f.entries) :
    e ∈ th.entries := by
  cases hplaces with
  | deliver hth _ =>
      rw [hth, Caller.entries_thread]
      exact he
  | retry hth _ =>
      rw [hth]
      exact List.mem_flatMap.mpr ⟨f, List.mem_singleton.mpr rfl, he⟩
  | welcome _ hth _ => cases he
  | history _ hth _ =>
      rw [hth]
      exact he

/-- What is due from a goroutine in a delivery is what is due from the delivery. -/
theorem Thread.due_of_deliverPC {pc : DeliverPC} (hpc : th.deliverPC = some pc) :
    th.due q c = pc.due q c := by
  unfold due
  split
  · rename_i c' f spc
    cases spc with
    | presence p =>
        cases p with
        | devices => cases hpc
        | deliver pc' =>
            obtain rfl := Option.some.inj hpc
            rfl
    | _ => cases hpc
  · rw [hpc]
    rfl

/-- What is on offer is due. The copy that is placed next is one of those counted as due. -/
theorem Thread.due_of_offers (hoffers : th.offers c = some f) (hf : q f = true) :
    1 ≤ th.due q c := by
  unfold offers at hoffers
  split at hoffers
  · rename_i c' f' deadline
    split at hoffers
    · obtain rfl := Option.some.inj hoffers
      rename_i heq
      simp [due, SlowPC.waiting, heq, hf]
    · cases hoffers
  · split at hoffers
    · rename_i m c' rest hpc
      split at hoffers
      · obtain rfl := Option.some.inj hoffers
        rename_i heq
        subst heq
        rw [due_of_deliverPC hpc, DeliverPC.due, if_pos hf, List.count_cons_self]
        exact Nat.le_add_left _ _
      · cases hoffers
    · cases hoffers

/-- The frame of a `deliverSlow`. -/
def Thread.retried : Thread → Option Frame
  | .slow _ f _ => some f
  | _ => none

/-- An announcement retries for nobody new. Retries belong to the goroutine of `deliverSlow` and not
to the caller of `deliver`. -/
theorem PresenceCaller.retried_thread (p : PresenceCaller) (pc pc' : PresencePC) :
    (p.thread pc').retried = (p.thread pc).retried := by
  cases p <;> rfl

/-- The program point of a delivery does not say whom its goroutine retries for. -/
theorem Caller.retried_thread (p : Caller) (pc pc' : DeliverPC) :
    (p.thread pc').retried = (p.thread pc).retried := by
  rcases p with _ | _ | _ | _ <;> rfl

/-- A caller that goes on retries for whom it retried before. Going on in its own code does not
change what has been handed over. -/
theorem Caller.retried_back (p : Caller) (pc : DeliverPC) :
    p.back.retried = (p.thread pc).retried := by
  rcases p with _ | _ | _ | _ <;> rfl

/-- The frame of a `deliverSlow` is one `deliver` was called with. -/
theorem Effect.retried (heffect : Effect u t h th h' th' fs) : th'.retried = th.retried ∧
    ∀ w ∈ fs, ∀ f, w.retried = some f → ∃ m : Delivery, f = m.frame := by
  have hnil : ∀ w ∈ ([] : List Thread), ∀ f, w.retried = some f → ∃ m : Delivery, f = m.frame :=
    fun _ hw => absurd hw List.not_mem_nil
  cases heffect with
  | @locked p | @skipped p | @sent p => exact ⟨p.retried_thread _ _, hnil⟩
  | @forked p m c rest cl h' hc hpass hsend =>
      refine ⟨p.retried_thread _ _, fun w hw f hf => ?_⟩
      obtain rfl := List.mem_singleton.mp hw
      obtain rfl := Option.some.inj hf
      exact ⟨m, rfl⟩
  | @unlocked p m =>
      refine ⟨p.retried_back _, fun w hw f hf => ?_⟩
      rcases p with _ | _ | _ | _
      · exact absurd hw List.not_mem_nil
      · rcases List.mem_cons.mp hw with rfl | hw
        · cases hf
        · obtain rfl := List.mem_singleton.mp hw
          cases hf
      · exact absurd hw List.not_mem_nil
      · exact absurd hw List.not_mem_nil
  | @devices p => exact ⟨p.retried_thread _ _, hnil⟩
  | _ => exact ⟨rfl, hnil⟩

/-- What is retried is a frame that has been delivered. Greetings are never retried, only what came
from a call of `deliver`. -/
theorem Reachable.slow_frame (hreach : Reachable u d) {pc : SlowPC}
    (hth : d.threads[t]? = some (.slow c f pc)) : ∃ m : Delivery, f = m.frame := by
  obtain ⟨historyTTL, now, hrun⟩ := hreach
  have hall : ∀ (t : Tid) (th : Thread), d.threads[t]? = some th →
      ∀ f, th.retried = some f → ∃ m : Delivery, f = m.frame := by
    refine hrun.invariant (I := fun d => ∀ (t : Tid) (th : Thread), d.threads[t]? = some th →
      ∀ f, th.retried = some f → ∃ m : Delivery, f = m.frame) (fun t th hth => ?_) ?_
    · simp [boot] at hth
    · intro c₀ act d hall harrive hexec
      cases act with
      | spawn th =>
          obtain rfl := Option.some.inj hexec
          obtain ⟨device, rfl⟩ := harrive th rfl
          intro t th hth f hf
          rcases ThreadPool.getElem?_append_cases hth with hold | ⟨-, hnew⟩
          · exact hall t th hold f hf
          · obtain rfl := List.mem_singleton.mp hnew
            cases hf
      | env e =>
          obtain rfl := Option.some.inj hexec
          exact hall
      | run t k =>
          obtain ⟨th, h', th', fs, hth, hstep, rfl⟩ := (machine u).exec_run_iff.mp hexec
          obtain ⟨hsame, hforks⟩ := (Effect.of_step hstep).retried
          refine ThreadPool.forall_set_append (fun v w _ hw => hall v w hw) ?_ fun w hw _ => hforks w hw
          rw [hsame]
          exact hall t th hth
  exact hall t _ hth f rfl

/-- What is on offer in a configuration the hub can get into is a chat message or a presence frame. -/
theorem Reachable.offers_frame (hreach : Reachable u d) (hth : d.threads[t]? = some th)
    (hoffers : th.offers c = some f) : ∃ m : Delivery, f = m.frame := by
  unfold Thread.offers at hoffers
  split at hoffers
  · rename_i c' f' deadline
    split at hoffers
    · obtain rfl := Option.some.inj hoffers
      exact hreach.slow_frame hth
    · cases hoffers
  · split at hoffers
    · split at hoffers
      · exact ⟨_, (Option.some.inj hoffers).symm⟩
      · cases hoffers
    · cases hoffers

/-! ## Frames that are taken -/

/-- The device may see all chat messages of the frame. -/
def Frame.suits (f : Frame) (device : Device) : Bool :=
  f.entries.all fun e => e.msg.visibleTo device.id

/-- The queue of `c` takes the frame: it is for its device, and there is room. -/
def Hub.takes (h : Hub) (c : Conn) (f : Frame) : Bool :=
  (h.conns c).any fun cl => f.suits cl.device && decide (cl.send.length < sendBuffer)

/-- What is placed has been taken. It is for the device behind `c`, and there was room for it. -/
theorem Effect.takes (hinv : Inv u h) (hloc : Loc u t h th) (heffect : Effect u t h th h' th' fs)
    (hplaced : Placed t c h h' th th' f) : h.takes c f = true := by
  obtain ⟨cl, hc, hroom⟩ := hplaced.room
  have hsound := step_sound hinv hloc heffect
  obtain ⟨cl', hc', hdevice⟩ := hsound.grows.device c cl hc
  have hf : f ∈ cl'.placed := by
    rw [← Hub.placed_of_conn hc', hplaced.append]
    exact List.mem_append_right _ (List.mem_singleton.mpr rfl)
  have hsuits : f.suits cl.device = true := List.all_eq_true.mpr fun e he => by
    rw [← hdevice]
    exact (hsound.inv.queue c cl' hc' f hf e he).2
  rw [Hub.takes, hc, Option.any_some, hsuits, Bool.true_and]
  exact decide_eq_true hroom

/-! ## Conditions on runs -/

/-- No queue is full. -/
def Hub.roomy (h : Hub) : Bool :=
  h.clients.all fun c => (h.conns c).all fun cl => cl.send.length < sendBuffer

/-- No message in the history has expired. -/
def Hub.unexpired (h : Hub) : Bool := h.history.all fun e => h.cutoff ≤ e.msg.timestamp

/-- No call of `Register`, `SendMessage`, `Unregister` or `deliverSlow` is under way. -/
def Thread.returned : Thread → Bool
  | .register .registered => true
  | .readPump _ .read | .readPump _ .closed => true
  | .writePump _ _ => true
  | .slow _ _ .ended => true
  | _ => false

/-- From a goroutine that has returned nothing is due. It has neither copies to place nor calls to
make. -/
theorem Thread.due_of_returned (hreturned : th.returned = true) : th.due q c = 0 := by
  unfold returned at hreturned
  split at hreturned
  · rfl
  · rfl
  · rfl
  · rfl
  · rfl
  · cases hreturned

/-- While none has expired, no message of the history is older than the cutoff. -/
theorem Hub.cutoff_le (hunexpired : h.unexpired = true) {e : Entry} (he : e ∈ h.history) :
    h.cutoff ≤ e.msg.timestamp :=
  of_decide_eq_true (List.all_eq_true.mp hunexpired e he)

/-- Pruning a history in which nothing has expired only appends the new message. -/
theorem Hub.history_unexpired (hunexpired : h.unexpired = true) (e : Entry) :
    (h.addToHistory e).history = h.history ++ [e] := by
  show h.history.filter _ ++ [e] = _
  rw [List.filter_eq_self.mpr fun x hx => List.all_eq_true.mp hunexpired x hx]

end LanRoom.Chat

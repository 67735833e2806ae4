import LanRoom.Chat.Offers

/-! # Following a connection through its `Register`

A connection is registered by its own handler, thread `c`. What holds of the connection at each
program point of that handler is followed from section to section by `Registering.exec`. -/

namespace LanRoom.Chat

open ThreadPool (Tid Machine Act Outline)

variable {u : UUIDPackage} {t : Tid} {k : Choice} {h h' : Hub} {c : Conn} {cl : Client}
  {th th' : Thread} {fs : List Thread} {c₀ d : ThreadPool.Config Hub Thread}

/-! ## What a section does to one client -/

/-- Client `c` is as it was, or changed without giving back what has been taken from its queue. -/
def Hub.Retains (h h' : Hub) (c : Conn) : Prop :=
  h'.conns c = h.conns c ∨ ∃ cl cl' : Client, h.conns c = some cl ∧ h'.conns c = some cl' ∧
    cl.taken.length ≤ cl'.taken.length

/-- A client that is replaced by one that has taken no less. The hub keeps account of what each
connection has taken out of its queue. -/
theorem Hub.retains_setClient {c₁ : Conn} {cl₁ cl₂ : Client} (hc₁ : h.conns c₁ = some cl₁)
    (hle : cl₁.taken.length ≤ cl₂.taken.length) (c : Conn) : h.Retains (h.setClient c₁ cl₂) c := by
  by_cases heq : c = c₁
  · subst heq
    exact .inr ⟨cl₁, cl₂, hc₁, Hub.setClient_self, hle⟩
  · exact .inl (Hub.setClient_of_ne heq)

/-- Sending takes nothing back. A frame is added at the other end of the queue, or nothing
happens. -/
theorem Hub.trySend_retains {c₁ : Conn} {f : Frame} {ok : Bool} (hsend : h.trySend c₁ f = (h', ok))
    (c : Conn) : h.Retains h' c := by
  cases ok with
  | true =>
      obtain ⟨cl₁, hc₁, -, -, rfl⟩ := Hub.trySend_true hsend
      have hle : cl₁.taken.length ≤ (cl₁.push f).taken.length := Nat.le_refl _
      exact Hub.retains_setClient hc₁ hle c
  | false => rcases Hub.trySend_false hsend with ⟨rfl, -⟩ | ⟨rfl, -⟩ <;> exact .inl rfl

/-- Enqueueing takes nothing back. Only the queue of `t` can have changed, and it has grown. -/
theorem Hub.enqueueJSON_retains (h : Hub) (t : Tid) (f : Frame) (c : Conn) :
    h.Retains (h.enqueueJSON t f) c := by
  unfold Hub.enqueueJSON
  split
  · exact Hub.trySend_retains (Prod.eta _).symm c
  · exact .inl rfl

/-- A client that leaves keeps what it has. Closing the channel leaves the record of the connection
in place. -/
theorem Inv.unregister_retains {c₁ : Conn} {ok : Bool} (hinv : Inv u h)
    (hleave : h.unregister c₁ = (h', ok)) (c : Conn) : h.Retains h' c := by
  cases ok with
  | true =>
      obtain ⟨hmem, heq⟩ := Hub.unregister_true hleave
      obtain ⟨cl₁, hc₁, -⟩ := hinv.of_mem hmem
      obtain rfl := heq cl₁ hc₁
      -- leaving closes the channel and changes nothing else of the client
      have hle : cl₁.taken.length ≤ ({ cl₁ with closed := true } : Client).taken.length :=
        Nat.le_refl _
      exact Hub.retains_setClient hc₁ hle c
  | false =>
      obtain ⟨-, rfl⟩ := Hub.unregister_false hleave
      exact .inl rfl

/-- Every section retains every client, except that the first of `Register` makes one. -/
theorem Effect.retains (heffect : Effect u t h th h' th' fs) (hinv : Inv u h) (c : Conn) :
    h.Retains h' c ∨ t = c ∧ ∃ device, th = .register (.start device) ∧
      th' = .register .welcome ∧ h' = h.join t device := by
  cases heffect with
  | joined hfree =>
      by_cases htc : t = c
      · exact .inr ⟨htc, _, rfl, rfl, rfl⟩
      · exact .inl (.inl (Hub.join_of_ne _ (Ne.symm htc)))
  | sent hc hpass hsend | forked hc hpass hsend | slowSent hmem hsend | slowFull hmem hsend =>
      exact .inl (Hub.trySend_retains hsend c)
  | welcomed hc => exact .inl (h.enqueueJSON_retains t _ c)
  | replayed => exact .inl (h.enqueueJSON_retains t _ c)
  | left hfree hleave | hadLeft hfree hleave | slowKicked hfree hleave | slowHadLeft hfree hleave =>
      exact .inl (hinv.unregister_retains hleave c)
  | took hc hsend =>
      refine .inl (Hub.retains_setClient hc ?_ c)
      rw [List.length_append]
      exact Nat.le_add_right _ _
  | locked hperm | unlocked | skipped hc hskip | devices hperm | cutoff | noHistory hc hnil
  | snapshot hc hne | failed | ignored | accepted hc hscreen | recipients | addedToHistory hfree
  | slowStarted | slowContinued htime | slowTimedOut htime | slowGone hmem | slowWoke htime
  | slowStill hmem | slowMissed hmem | writeEnded => exact .inl (.inl rfl)

/-- A client that was not there before a section has joined in it. -/
theorem Effect.joined_of_none (heffect : Effect u t h th h' th' fs) (hinv : Inv u h)
    (hnone : h.conns c = none) (hc : h'.conns c = some cl) :
    t = c ∧ ∃ device, th' = .register .welcome ∧ h' = h.join t device := by
  rcases heffect.retains hinv c with hsame | ⟨htc, device, -, hwelcome, hjoin⟩
  · rcases hsame with heq | ⟨cl₀, -, hc₀, -⟩
    · rw [heq, hnone] at hc
      cases hc
    · rw [hnone] at hc₀
      cases hc₀
  · exact ⟨htc, device, hwelcome, hjoin⟩

/-! ## Runs -/

/-- A configuration the hub can get into leads to others. One more action is one more step of the
run. -/
theorem Reachable.exec {act : Act Thread Choice ℕ} (hreach : Reachable u c₀)
    (harrive : Arrivals c₀ act) (hexec : (machine u).exec c₀ act = some d) : Reachable u d := by
  obtain ⟨historyTTL, now, hrun⟩ := hreach
  exact ⟨historyTTL, now, hrun.tail harrive hexec⟩

/-- A connection keeps its device. Every section lets the hub grow, and a client record is never
replaced by that of another device. -/
theorem conn_exec {act : Act Thread Choice ℕ} {device : Device} (hvalid : (outline u).Valid () c₀)
    (hconn : ∃ cl, c₀.shared.conns c = some cl ∧ cl.device = device)
    (hexec : (machine u).exec c₀ act = some d) :
    ∃ cl, d.shared.conns c = some cl ∧ cl.device = device := by
  cases act with
  | spawn th =>
      obtain rfl := Option.some.inj hexec
      exact hconn
  | env n =>
      obtain rfl := Option.some.inj hexec
      exact hconn
  | run t k =>
      obtain ⟨th, h', th', fs, hth, hstep, rfl⟩ := (machine u).exec_run_iff.mp hexec
      obtain ⟨cl, hc, hdevice⟩ := hconn
      have hsound := step_sound hvalid.inv (hvalid.loc t th hth) (.of_step hstep)
      obtain ⟨cl', hc', hdevice'⟩ := hsound.grows.device c cl hc
      exact ⟨cl', hc', hdevice'.trans hdevice⟩

/-- Where `Register` stands after `broadcastPresence` has moved. So `Register` returns at the end of
its announcement and nowhere else after it. -/
theorem registerStep_presence {pc : PresencePC} {pc' : RegisterPC}
    (hstep : registerStep t k h (.presence pc) = some (h', pc', fs)) :
    (∃ pc₁, pc' = .presence pc₁) ∨ pc' = .registered := by
  obtain ⟨⟨h₁, next, fs₁⟩, -, heq⟩ := Option.map_eq_some_iff.mp hstep
  cases next with
  | none =>
      cases heq
      exact .inr rfl
  | some pc₁ =>
      cases heq
      exact .inl ⟨pc₁, rfl⟩

/-- While the connection `c` is registered, its handler is in `Register` or past it, and `Φ` holds at
its program point. -/
def Registering (c : Conn) (Φ : ThreadPool.Config Hub Thread → Client → RegisterPC → Prop)
    (d : ThreadPool.Config Hub Thread) : Prop :=
  ∀ cl, d.shared.conns c = some cl → c ∈ d.shared.clients →
    ∃ pc, d.threads[c]? = some (.register pc) ∧ Φ d cl pc

/-- **Following a registration**: what holds when a connection has joined, is kept by the sections of
its own handler, and is not disturbed by anything else, holds while it is registered. -/
theorem Registering.exec {Φ : ThreadPool.Config Hub Thread → Client → RegisterPC → Prop}
    {act : Act Thread Choice ℕ} (hreg : Registering c Φ c₀) (hvalid : (outline u).Valid () c₀)
    (hexec : (machine u).exec c₀ act = some d)
    (hjoin : ∀ (k : Choice) (device : Device), c₀.shared.conns c = none →
      d.shared = c₀.shared.join c device → act = .run c k → Φ d { device } .welcome)
    (hself : ∀ (k : Choice) (pc pc' : RegisterPC) (h' : Hub) (fs : List Thread) (cl cl' : Client),
      act = .run c k → c₀.threads[c]? = some (.register pc) →
        registerStep c k c₀.shared pc = some (h', pc', fs) →
          d = ⟨h', c₀.threads.set c (.register pc') ++ fs⟩ → c₀.shared.conns c = some cl →
            h'.conns c = some cl' → cl'.device = cl.device → c ∈ c₀.shared.clients →
              c ∈ h'.clients → Φ c₀ cl pc → Φ d cl' pc')
    (hother : ∀ (pc : RegisterPC) (cl cl' : Client), (∀ k, act ≠ .run c k) →
      c₀.threads[c]? = some (.register pc) → c₀.shared.conns c = some cl →
        d.shared.conns c = some cl' → cl'.device = cl.device → c ∈ c₀.shared.clients →
          c ∈ d.shared.clients → Φ c₀ cl pc → Φ d cl' pc) :
    Registering c Φ d := by
  intro cl' hc' hmem
  cases act with
  | spawn th =>
      obtain rfl := Option.some.inj hexec
      obtain ⟨pc, hpc, hphase⟩ := hreg cl' hc' hmem
      exact ⟨pc, ThreadPool.getElem?_append hpc [th],
        hother pc cl' cl' (fun _ => nofun) hpc hc' hc' rfl hmem hmem hphase⟩
  | env n =>
      obtain rfl := Option.some.inj hexec
      obtain ⟨pc, hpc, hphase⟩ := hreg cl' hc' hmem
      exact ⟨pc, hpc, hother pc cl' cl' (fun _ => nofun) hpc hc' hc' rfl hmem hmem hphase⟩
  | run t k =>
      obtain ⟨th, h', th', fs, hth, hstep, rfl⟩ := (machine u).exec_run_iff.mp hexec
      have heffect : Effect u t c₀.shared th h' th' fs := .of_step hstep
      have hsound := step_sound hvalid.inv (hvalid.loc t th hth) heffect
      cases hc : c₀.shared.conns c with
      -- a client that has just got its entry is the one that joins
      | none =>
          obtain ⟨rfl, device, rfl, rfl⟩ := heffect.joined_of_none hvalid.inv hc hc'
          obtain rfl : ({ device } : Client) = cl' :=
            Option.some.inj ((Hub.join_self device).symm.trans hc')
          exact ⟨.welcome, ThreadPool.getElem?_set_append_self hth _ _, hjoin k device hc rfl rfl⟩
      | some cl =>
          have hmem₀ := heffect.mem_clients hvalid.inv (hvalid.loc t th hth) hc hmem
          obtain ⟨cl₁, hcl₁, hdevice⟩ := hsound.grows.device c cl hc
          obtain rfl : cl₁ = cl' := Option.some.inj (hcl₁.symm.trans hc')
          obtain ⟨pc, hpc, hphase⟩ := hreg cl hc hmem₀
          -- the section is one of the join itself, or one of another thread
          by_cases htc : t = c
          · subst htc
            obtain rfl := Option.some.inj (hth.symm.trans hpc)
            obtain ⟨⟨h₁, pc', fs₁⟩, hregister, heq⟩ := Option.map_eq_some_iff.mp hstep
            cases heq
            exact ⟨pc', ThreadPool.getElem?_set_append_self hpc _ _,
              hself k pc pc' _ _ cl cl₁ rfl hpc hregister rfl hc hc' hdevice hmem₀ hmem hphase⟩
          · exact ⟨pc, ThreadPool.getElem?_set_append_ne hpc htc _ _,
              hother pc cl cl₁ (fun k' heq => htc (Act.run.inj heq).1) hpc hc hc' hdevice hmem₀ hmem
                hphase⟩

end LanRoom.Chat

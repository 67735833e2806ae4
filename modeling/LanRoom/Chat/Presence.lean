import LanRoom.Chat.Registering

/-! # Does the list of online devices converge?

Every `Register` and every `Unregister` that removes a client ends with a `broadcastPresence`, which
takes a snapshot of the devices in one section and delivers it in others. A snapshot that is delivered
after a later one leaves an outdated list on the screen (`presence_diverges`). When an outdated list
is enqueued only while somebody is about to bring a current one, all lists are right in the end
(`presence_converges`). -/

namespace LanRoom.Chat

open ThreadPool (Tid Machine Act Outline)

variable {u : UUIDPackage} {t : Tid} {k : Choice} {h h' : Hub} {c : Conn} {cl : Client}
  {f : Frame} {th th' : Thread} {fs : List Thread} {c₀ d : ThreadPool.Config Hub Thread}
  {users : List Device}

/-! ## Current lists -/

/-- The device IDs of the registered connections. -/
def Hub.online (h : Hub) : List GoString :=
  h.clients.filterMap fun c => (h.conns c).map fun cl => cl.device.id

/-- The list has exactly the device IDs that have a registered connection, each of them once. -/
def Hub.upToDate (h : Hub) (users : List Device) : Bool :=
  decide (users.map Device.id).Nodup && (users.map Device.id).all (fun id => decide (id ∈ h.online)) &&
    h.online.all fun id => decide (id ∈ users.map Device.id)

/-- The devices a presence frame lists. -/
def Frame.listed : Frame → Option (List Device)
  | .presence _ users => some users
  | _ => none

/-- A presence frame with a current list. -/
def Hub.fresh (h : Hub) (f : Frame) : Bool := f.listed.any h.upToDate

/-- The list in the last presence frame. -/
def lastUsers (frames : List Frame) : Option (List Device) := (frames.filterMap Frame.listed).getLast?

/-- A list is up to date when it names each device that is online once, and no other. -/
theorem Hub.upToDate_iff : h.upToDate users = true ↔
    (users.map Device.id).Nodup ∧ ∀ id, id ∈ users.map Device.id ↔ id ∈ h.online := by
  simp only [upToDate, Bool.and_eq_true, decide_eq_true_eq, List.all_eq_true, and_assoc]
  constructor
  · rintro ⟨hnodup, hsub, hsup⟩
    exact ⟨hnodup, fun id => ⟨hsub id, hsup id⟩⟩
  · rintro ⟨hnodup, hiff⟩
    exact ⟨hnodup, fun id => (hiff id).mp, fun id => (hiff id).mpr⟩

/-- A device is online when one of its connections is registered. -/
theorem Hub.mem_online {id : GoString} :
    id ∈ h.online ↔ ∃ c ∈ h.clients, ∃ cl, h.conns c = some cl ∧ cl.device.id = id := by
  simp [online, List.mem_filterMap]

/-- The frames that are up to date are presence frames. The counting of frames that `Register` does
not write itself applies to them. -/
theorem Hub.fresh_live (h : Hub) : Live h.fresh := ⟨fun _ => rfl, fun _ => rfl⟩

/-- Whether a frame is up to date depends on who is online. A section that lets nobody join or leave
makes no snapshot out of date. -/
theorem Hub.fresh_congr (honline : h'.online = h.online) : h'.fresh = h.fresh := by
  funext f
  unfold fresh
  have hsame : h'.upToDate = h.upToDate := by
    funext users
    unfold upToDate
    rw [honline]
  rw [hsame]

/-- `deliver` skips nobody with a presence frame. They have no recipients, so each registered client
is sent one. -/
theorem not_skips_fresh : ¬ Skips h.fresh h c := by
  rintro ⟨m, cl, hfresh, -, hskip⟩
  cases m with
  | message e => cases hfresh
  | presence seq users => cases hskip

/-- A presence frame determines the last list; other frames leave it alone. -/
theorem lastUsers_append (frames : List Frame) (f : Frame) :
    lastUsers (frames ++ [f]) = (f.listed <|> lastUsers frames) := by
  unfold lastUsers
  rw [List.filterMap_append]
  cases hf : f.listed with
  | none => simp [hf]
  | some users => simp [hf]

/-! ## The snapshot -/

/-- What the loop of `devices` has collected: the devices it started with and those of the clients it
has come to, no ID twice. -/
theorem Hub.devices_loop (order : List Conn) (list : List Device)
    (hnodup : (list.map Device.id).Nodup) :
    let result := order.foldl (fun list c => match h.conns c with
      | none => list
      | some cl => if list.any fun d => d.id = cl.device.id then list else list ++ [cl.device]) list
    (result.map Device.id).Nodup ∧ ∀ id, id ∈ result.map Device.id ↔ id ∈ list.map Device.id ∨
      ∃ c ∈ order, ∃ cl, h.conns c = some cl ∧ cl.device.id = id := by
  -- induction on the order in which the map is ranged over
  induction order generalizing list with
  | nil => exact ⟨hnodup, fun id => by simp⟩
  | cons c order ih =>
      rw [List.foldl_cons]
      cases hc : h.conns c with
      | none =>
          obtain ⟨hresult, hiff⟩ := ih list hnodup
          refine ⟨hresult, fun id => (hiff id).trans ?_⟩
          simp [hc]
      | some cl =>
          -- the device is listed already
          by_cases hseen : (list.any fun d => decide (d.id = cl.device.id)) = true
          · obtain ⟨hresult, hiff⟩ := ih list hnodup
            have hin : cl.device.id ∈ list.map Device.id := by
              obtain ⟨device, hmem, heq⟩ := List.any_eq_true.mp hseen
              exact List.mem_map.mpr ⟨device, hmem, of_decide_eq_true heq⟩
            simp only [hseen, if_true]
            refine ⟨hresult, fun id => (hiff id).trans ?_⟩
            constructor
            · rintro (hold | ⟨c', hmem, hid⟩)
              · exact .inl hold
              · exact .inr ⟨c', List.mem_cons_of_mem _ hmem, hid⟩
            · rintro (hold | ⟨c', hmem, cl', hc', hid⟩)
              · exact .inl hold
              · rcases List.mem_cons.mp hmem with rfl | hmem
                · obtain rfl := Option.some.inj (hc.symm.trans hc')
                  exact .inl (hid ▸ hin)
                · exact .inr ⟨c', hmem, cl', hc', hid⟩
          · -- a new device is appended, and no other of the list has its id
            have hnew : cl.device.id ∉ list.map Device.id := fun hin => by
              obtain ⟨device, hmem, heq⟩ := List.mem_map.mp hin
              exact hseen (List.any_eq_true.mpr ⟨device, hmem, decide_eq_true heq⟩)
            have hnodup' : ((list ++ [cl.device]).map Device.id).Nodup := by
              rw [List.map_append, List.nodup_append]
              refine ⟨hnodup, by simp, fun id hid id' hid' => ?_⟩
              obtain rfl : id' = cl.device.id := List.mem_singleton.mp hid'
              rintro rfl
              exact hnew hid
            obtain ⟨hresult, hiff⟩ := ih (list ++ [cl.device]) hnodup'
            simp only [hseen]
            refine ⟨hresult, fun id => (hiff id).trans ?_⟩
            rw [List.map_append, List.mem_append]
            constructor
            · rintro ((hold | hthis) | ⟨c', hmem, hid⟩)
              · exact .inl hold
              · exact .inr ⟨c, List.mem_cons_self, cl, hc, (List.mem_singleton.mp hthis).symm⟩
              · exact .inr ⟨c', List.mem_cons_of_mem _ hmem, hid⟩
            · rintro (hold | ⟨c', hmem, cl', hc', hid⟩)
              · exact .inl (.inl hold)
              · rcases List.mem_cons.mp hmem with rfl | hmem
                · obtain rfl := Option.some.inj (hc.symm.trans hc')
                  exact .inl (.inr (List.mem_singleton.mpr hid.symm))
                · exact .inr ⟨c', hmem, cl', hc', hid⟩

/-- **`devices` lists exactly the devices that are online**, in whatever order it goes through the
clients. Each device of a registered connection is in it once, since the loop keeps the first record
of every ID. -/
theorem Hub.upToDate_devices {order : List Conn} (hperm : order.Perm h.clients) :
    h.upToDate (h.devices order) = true := by
  obtain ⟨hnodup, hiff⟩ := h.devices_loop order [] List.nodup_nil
  refine Hub.upToDate_iff.mpr ⟨hnodup, fun id => (hiff id).trans ?_⟩
  rw [Hub.mem_online]
  constructor
  · rintro (hnil | ⟨c, hmem, hid⟩)
    · cases hnil
    · exact ⟨c, hperm.mem_iff.mp hmem, hid⟩
  · rintro ⟨c, hmem, hid⟩
    exact .inr ⟨c, hperm.mem_iff.mpr hmem, hid⟩

/-! ## Who will bring the list up to date -/

/-- The goroutine has added or removed a client and has not taken its snapshot yet. -/
def Thread.announces : Thread → Bool
  | .register .welcome | .register .cutoff | .register (.snapshot _) | .register (.history _) => true
  | .register (.presence .devices) => true
  | .readPump _ (.presence .devices) => true
  | .slow _ _ (.presence .devices) => true
  | _ => false

/-- A delivery under way announces nothing besides. The snapshot, if it is one that is delivered,
was made before. -/
@[simp] theorem Caller.announces_thread (p : Caller) (pc : DeliverPC) :
    (p.thread pc).announces = false := by
  rcases p with _ | _ | _ | _ <;> rfl

/-- The clients change only when somebody is about to announce it. -/
theorem Effect.clients_eq (heffect : Effect u t h th h' th' fs) :
    h'.clients = h.clients ∨ th'.announces = true := by
  cases heffect with
  | joined hfree | left hfree hleave | slowKicked hfree hleave => exact .inr rfl
  | sent hc hpass hsend | forked hc hpass hsend | slowSent hmem hsend | slowFull hmem hsend =>
      obtain ⟨_, _, rfl⟩ := Hub.trySend_frame hsend
      exact .inl rfl
  | welcomed hc | replayed =>
      obtain ⟨_, _, heq⟩ := h.enqueueJSON_frame t _
      exact .inl (by rw [heq])
  | hadLeft hfree hleave | slowHadLeft hfree hleave =>
      obtain ⟨-, rfl⟩ := Hub.unregister_false hleave
      exact .inl rfl
  | _ => exact .inl rfl

/-- As long as the clients stay, so do the devices that are online. -/
theorem Effect.online_eq (hinv : Inv u h) (hloc : Loc u t h th)
    (heffect : Effect u t h th h' th' fs) (hclients : h'.clients = h.clients) :
    h'.online = h.online := by
  unfold Hub.online
  rw [hclients]
  refine List.filterMap_congr fun c hmem => ?_
  obtain ⟨cl, hc, -⟩ := hinv.of_mem hmem
  obtain ⟨cl', hc', hdevice⟩ := (step_sound hinv hloc heffect).grows.device c cl hc
  rw [hc, hc', Option.map_some, Option.map_some, hdevice]

/-- Who is about to announce something goes on to its snapshot, which lists what is online. -/
theorem Effect.announces (heffect : Effect u t h th h' th' fs) (hann : th.announces = true) :
    th'.announces = true ∨ ∃ m : Delivery, h'.fresh m.frame = true ∧ th'.due h'.fresh c = 1 := by
  cases heffect with
  | welcomed hc | cutoff | noHistory hc hnil | snapshot hc hne | replayed => exact .inl rfl
  | @devices p clients hperm =>
      have hfresh : h.announce.fresh (.presence h.announced (h.devices clients)) = true :=
        h.upToDate_devices hperm
      refine .inr ⟨.presence h.announced (h.devices clients), hfresh, ?_⟩
      rw [PresenceCaller.due_deliver, DeliverPC.due]
      exact if_pos hfresh
  | @locked p | @unlocked p | @skipped p | @sent p | @forked p =>
      rw [p.announces_thread] at hann
      cases hann
  | _ => cases hann

/-- Somebody is about to bring the list of `c` up to date: it will take a snapshot, or has a current
list that is due to `c`. -/
def pending (c : Conn) (d : ThreadPool.Config Hub Thread) : Bool :=
  d.threads.any fun th => th.announces || decide (0 < th.due d.shared.fresh c)

/-- The list of `c` is current, or somebody is about to bring it up to date. -/
def Current (c : Conn) (d : ThreadPool.Config Hub Thread) : Prop :=
  pending c d = true ∨ (lastUsers (d.shared.placed c)).any d.shared.upToDate = true

/-- A goroutine that is going to announce, or has an up to date frame for `c`, is pending. -/
theorem pending_of_mem (hmem : th ∈ d.threads)
    (hpending : th.announces = true ∨ 0 < th.due d.shared.fresh c) : pending c d = true := by
  refine List.any_eq_true.mpr ⟨th, hmem, ?_⟩
  rw [Bool.or_eq_true, decide_eq_true_eq]
  exact hpending

/-- An outdated list is enqueued to `c` only while somebody is about to bring it up to date. -/
def catchesUp (c : Conn) (d : ThreadPool.Config Hub Thread) : Act Thread Choice ℕ → Bool
  | .run t _ =>
      match (d.threads[t]?).bind (Thread.offers c) with
      | some (.presence seq users) => !d.shared.takes c (.presence seq users) ||
          d.shared.upToDate users || pending c d
      | _ => true
  | _ => true

/-! ## One section -/

/-- Whoever is about to bring the list of `c` up to date still is after a section that does not change
what is online, or has just done it. -/
theorem current_of_pending (hvalid : (outline u).Valid () c₀) (hth : c₀.threads[t]? = some th)
    (heffect : Effect u t c₀.shared th h' th' fs) (honline : h'.online = c₀.shared.online)
    (hmem : c ∈ h'.clients) (hpending : pending c c₀ = true) :
    Current c ⟨h', c₀.threads.set t th' ++ fs⟩ := by
  have hfresh := Hub.fresh_congr honline
  obtain ⟨w, hw, hwpending⟩ := List.any_eq_true.mp hpending
  rw [Bool.or_eq_true, decide_eq_true_eq, ← hfresh] at hwpending
  rcases ThreadPool.mem_set_append hth hw th' fs with rfl | hw'
  · -- it is the goroutine that moves
    rcases hwpending with hann | hdue
    · rcases heffect.announces (c := c) hann with hann' | ⟨-, -, hdue'⟩
      · exact .inl (pending_of_mem (ThreadPool.mem_set_append_self hth) (.inl hann'))
      · refine .inl (pending_of_mem (ThreadPool.mem_set_append_self hth) (.inr ?_))
        show 0 < th'.due h'.fresh c
        omega
    · obtain ⟨lost, hbalance, hlost⟩ :=
        heffect.ledger hvalid.inv (hvalid.loc t w hth) h'.fresh_live c
      have hzero : lost = 0 := by
        rcases hlost with hzero | hgone | hskip
        · exact hzero
        · exact absurd hmem hgone
        · rw [hfresh] at hskip
          exact absurd hskip not_skips_fresh
      by_cases hself : 0 < th'.due h'.fresh c
      · exact .inl (pending_of_mem (ThreadPool.mem_set_append_self hth) (.inr hself))
      · by_cases hforks : ∃ f ∈ fs, 0 < f.due h'.fresh c
        · obtain ⟨f, hf, hdue'⟩ := hforks
          exact .inl (pending_of_mem (List.mem_append_right _ hf) (.inr hdue'))
        · -- the list has been enqueued
          have hnone : (fs.map (Thread.due h'.fresh c)).sum = 0 :=
            ThreadPool.sum_map_eq_zero.mpr fun f hf => by
              by_contra hpos
              exact hforks ⟨f, hf, Nat.pos_of_ne_zero hpos⟩
          refine .inr ?_
          show (lastUsers (h'.placed c)).any h'.upToDate = true
          rcases heffect.placed hvalid.inv (hvalid.loc t w hth) c with hsame | ⟨f, happend, -⟩
          · rw [hsame] at hbalance
            omega
          · rw [happend, List.countP_append, List.countP_singleton] at hbalance
            have hf : h'.fresh f = true := by
              by_contra hnot
              rw [if_neg hnot] at hbalance
              omega
            obtain ⟨users, hlisted, husers⟩ := (Option.any_eq_true _ _).mp hf
            rw [happend, lastUsers_append, hlisted]
            exact husers
  · exact .inl (pending_of_mem hw' hwpending)

/-- What is enqueued under the condition is no outdated list, unless somebody is about to bring a
current one. -/
theorem current_of_last (hreach : Reachable u c₀) (hcatches : catchesUp c c₀ (.run t k) = true)
    (hth : c₀.threads[t]? = some th) (heffect : Effect u t c₀.shared th h' th' fs)
    (honline : h'.online = c₀.shared.online) (hnone : pending c c₀ = false)
    (hlast : (lastUsers (c₀.shared.placed c)).any c₀.shared.upToDate = true) :
    (lastUsers (h'.placed c)).any h'.upToDate = true := by
  have hvalid := hreach.valid
  have hsame : h'.upToDate = c₀.shared.upToDate := by
    funext users
    unfold Hub.upToDate
    rw [honline]
  rw [hsame]
  -- the list of online devices has not changed, so an up-to-date list stays so unless another one
  -- is placed
  rcases heffect.placed hvalid.inv (hvalid.loc t th hth) c with hplaced | ⟨f, hplaced⟩
  · rw [hplaced]
    exact hlast
  · rw [hplaced.append, lastUsers_append]
    cases hf : f.listed with
    | none => exact hlast
    | some users =>
        have hoffers : th.offers c = some f := by
          rcases hplaced.places.offers with hoffers | ⟨-, ⟨_, rfl, -⟩ | ⟨_, rfl, -⟩⟩
          · exact hoffers
          · cases hf
          · cases hf
        have htakes := heffect.takes hvalid.inv (hvalid.loc t th hth) hplaced
        cases f with
        | presence seq users' =>
            obtain rfl := Option.some.inj hf
            -- the condition of the run: the frame that is placed last is up to date, or another one
            -- is still to come
            rw [catchesUp, hth, Option.bind_some, hoffers] at hcatches
            simpa [htakes, hnone] using hcatches
        | welcome device | history msgs | message e => cases hf

/-- **The step theorem**: an action that meets the condition keeps the list of `c` current, or
somebody about to bring it up to date. -/
theorem current_exec {act : Act Thread Choice ℕ} (hreach : Reachable u c₀)
    (hcurrent : c ∈ c₀.shared.clients → Current c c₀) (harrive : Arrivals c₀ act)
    (hcatches : catchesUp c c₀ act = true) (hexec : (machine u).exec c₀ act = some d)
    (hmem : c ∈ d.shared.clients) : Current c d := by
  have hvalid := hreach.valid
  cases act with
  | spawn th =>
      obtain rfl := Option.some.inj hexec
      rcases hcurrent hmem with hpending | hlast
      · obtain ⟨w, hw, hwpending⟩ := List.any_eq_true.mp hpending
        exact .inl (List.any_eq_true.mpr ⟨w, List.mem_append_left _ hw, hwpending⟩)
      · exact .inr hlast
  | env n =>
      obtain rfl := Option.some.inj hexec
      exact hcurrent hmem
  | run t k =>
      obtain ⟨th, h', th', fs, hth, hstep, rfl⟩ := (machine u).exec_run_iff.mp hexec
      have heffect : Effect u t c₀.shared th h' th' fs := .of_step hstep
      -- the set of clients is the same, or the thread that has changed it owes an announcement
      rcases heffect.clients_eq with hclients | hann
      · have honline := heffect.online_eq hvalid.inv (hvalid.loc t th hth) hclients
        have hmem₀ : c ∈ c₀.shared.clients := hclients ▸ hmem
        by_cases hpending : pending c c₀ = true
        · exact current_of_pending hvalid hth heffect honline hmem hpending
        · rcases hcurrent hmem₀ with hyes | hlast
          · exact absurd hyes hpending
          · exact .inr (current_of_last hreach hcatches hth heffect honline
              (Bool.not_eq_true _ |>.mp hpending) hlast)
      · exact .inl (pending_of_mem (ThreadPool.mem_set_append_self hth) (.inl hann))

/-! ## Whole runs -/

/-- A goroutine that has returned announces nothing. It is the end of the account of pending
announcements. -/
theorem Thread.announces_of_returned (hreturned : th.returned = true) : th.announces = false := by
  unfold returned at hreturned
  split at hreturned
  · rfl
  · rfl
  · rfl
  · rfl
  · rfl
  · cases hreturned

/-- **The list of online devices converges**: in every run in which an outdated list is enqueued to
`c` only while somebody is about to bring it up to date, once all calls have returned the last
presence frame in the queue of the registered connection `c` lists exactly the devices that have a
registered connection, each of them once. -/
theorem presence_converges {historyTTL now : LanRoom.Upload.Time}
    (hrun : (machine u).Run (fun d act => Arrivals d act ∧ catchesUp c d act = true)
      (boot historyTTL now) d)
    (hmem : c ∈ d.shared.clients) (hreturned : ∀ th ∈ d.threads, th.returned = true) :
    ∃ users, lastUsers (d.shared.placed c) = some users ∧ (users.map Device.id).Nodup ∧
      ∀ id, id ∈ users.map Device.id ↔
        ∃ c' ∈ d.shared.clients, ∃ cl, d.shared.conns c' = some cl ∧ cl.device.id = id := by
  obtain ⟨-, hcurrent⟩ : Reachable u d ∧ (c ∈ d.shared.clients → Current c d) := by
    refine hrun.invariant (I := fun d => Reachable u d ∧ (c ∈ d.shared.clients → Current c d))
      ⟨⟨historyTTL, now, .refl⟩, fun hmem => absurd hmem List.not_mem_nil⟩ ?_
    rintro c₀ act d₁ ⟨hreach, hcurrent⟩ ⟨harrive, hcatches⟩ hexec
    exact ⟨hreach.exec harrive hexec, current_exec hreach hcurrent harrive hcatches hexec⟩
  rcases hcurrent hmem with hpending | hlast
  · -- nobody is under way any more
    exfalso
    obtain ⟨th, hth, hyes⟩ := List.any_eq_true.mp hpending
    rw [Thread.announces_of_returned (hreturned th hth), Thread.due_of_returned (hreturned th hth)] at hyes
    cases hyes
  · obtain ⟨users, hlisted, husers⟩ := (Option.any_eq_true _ _).mp hlast
    obtain ⟨hnodup, hiff⟩ := Hub.upToDate_iff.mp husers
    exact ⟨users, hlisted, hnodup, fun id => (hiff id).trans Hub.mem_online⟩

/-! ## Overlaps -/

namespace Sample

/-- Thread `0` joins and takes its snapshot; thread `1` joins, takes its snapshot and delivers it; then
thread `0` delivers its own. -/
def joinsOvertaken : List (Act Thread Choice ℕ) :=
  [arrive 1, arrive 2] ++ go 0 4 ++ [iterate 0 [0]] ++ go 1 4 ++ broadcastPresence 1 [0, 1] ++
    [iterate 0 [0, 1]] ++ go 0 3

end Sample

/-- Two devices join, and the one that was there first sees both. -/
theorem presence_converges_bothJoin : ∃ (d : ThreadPool.Config Hub Thread) (users : List Device),
    lastUsers (d.shared.placed 3) = some users ∧ d.shared.clients = [0, 3] ∧
      ∀ id, id ∈ users.map Device.id ↔
        ∃ c' ∈ d.shared.clients, ∃ cl, d.shared.conns c' = some cl ∧ cl.device.id = id := by
  have hrun : ((machine Sample.uuids).execAllIf (catchesUp 3) (boot 1000000000 0)
      Sample.bothJoin).any fun d =>
        decide (d.shared.clients = [0, 3]) && d.threads.all Thread.returned := by
    decide +kernel
  obtain ⟨d, hexec, hrun⟩ := (Option.any_eq_true _ _).mp hrun
  simp only [Bool.and_eq_true, decide_eq_true_eq, List.all_eq_true] at hrun
  obtain ⟨hclients, hreturned⟩ := hrun
  have hmem : 3 ∈ d.shared.clients := by
    rw [hclients]
    decide
  obtain ⟨users, hlisted, -, hiff⟩ :=
    presence_converges (Sample.run_of_execAllIf (by decide) hexec) hmem hreturned
  exact ⟨d, users, hlisted, hclients, hiff⟩

/-- Two joins overlap, no queue is full, and in the end both connections show a list without the second
device. -/
theorem presence_diverges : ∃ (d : ThreadPool.Config Hub Thread) (users : List Device) (cl : Client),
    (machine Sample.uuids).Run (fun d act => Arrivals d act ∧ d.shared.roomy = true)
        (boot 1000000000 0) d ∧
      (∀ th ∈ d.threads, th.returned = true) ∧ 1 ∈ d.shared.clients ∧
      d.shared.conns 1 = some cl ∧ lastUsers (d.shared.placed 0) = some users ∧
      lastUsers (d.shared.placed 1) = some users ∧ cl.device.id ∉ users.map Device.id := by
  have hrun : ((machine Sample.uuids).execAllIf (fun d _ => d.shared.roomy) (boot 1000000000 0)
      Sample.joinsOvertaken).any fun d => (d.shared.conns 1).any fun cl =>
        (lastUsers (d.shared.placed 0)).any fun users =>
          d.threads.all Thread.returned && decide (1 ∈ d.shared.clients) &&
            decide (lastUsers (d.shared.placed 1) = some users) &&
            decide (cl.device.id ∉ users.map Device.id) := by
    decide +kernel
  obtain ⟨d, hexec, hrun⟩ := (Option.any_eq_true _ _).mp hrun
  obtain ⟨cl, hc, hrun⟩ := (Option.any_eq_true _ _).mp hrun
  obtain ⟨users, hlisted, hrun⟩ := (Option.any_eq_true _ _).mp hrun
  simp only [Bool.and_eq_true, decide_eq_true_eq, List.all_eq_true] at hrun
  obtain ⟨⟨⟨hreturned, hmem⟩, hlisted'⟩, hnot⟩ := hrun
  exact ⟨d, users, cl, Sample.run_of_execAllIf (by decide) hexec, hreturned, hmem, hc, hlisted,
    hlisted', hnot⟩

end LanRoom.Chat

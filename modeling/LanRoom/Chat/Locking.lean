import LanRoom.Chat.Outline

/-! # Channels are never misused

A client's channel is closed by `Unregister` and sent to by `deliver`, `deliverSlow` and
`enqueueJSON`; a send on a closed channel, or a second close, would end the whole server. Every send
holds `mu` for reading and has seen the client in `clients` since it took it: `deliverSlow` and
`enqueueJSON` look the client up, and `deliver` iterates over `clients`, which nobody changes while
readers hold `mu`. -/

namespace LanRoom.Chat

open ThreadPool (Tid Machine Act Outline)

variable {u : UUIDPackage} {t : Tid} {k : Choice} {h h' : Hub} {c : Conn} {cl : Client}
  {f : Frame} {th th' : Thread} {fs : List Thread} {d : ThreadPool.Config Hub Thread}

/-! ## Who holds the lock -/

/-- The call of `deliver` a goroutine is in. -/
def Thread.deliverPC : Thread → Option DeliverPC
  | .register (.presence (.deliver pc)) => some pc
  | .readPump _ (.deliver pc) => some pc
  | .readPump _ (.presence (.deliver pc)) => some pc
  | .slow _ _ (.presence (.deliver pc)) => some pc
  | _ => none

/-- The clients a call of `deliver` that holds `mu` has yet to come to. -/
def DeliverPC.rest : DeliverPC → Option (List Conn)
  | .lock _ => none
  | .loop _ rest => some rest

/-- The clients a goroutine that holds `mu` for reading has yet to come to. -/
def Thread.rest (th : Thread) : Option (List Conn) := th.deliverPC.bind DeliverPC.rest

/-- Whether a goroutine holds `mu` for reading between two steps. -/
def Thread.reads (th : Thread) : ℕ := if th.rest.isSome then 1 else 0

/-- Where a goroutine is in the delivery of an announcement. It is the projection that the invariant
of the lock is stated with. -/
@[simp] theorem PresenceCaller.deliverPC_thread (p : PresenceCaller) (pc : DeliverPC) :
    (p.thread (.deliver pc)).deliverPC = some pc := by
  cases p <;> rfl

/-- While the list of devices is made no delivery has begun. The read lock for the list is taken and
given back within one section. -/
@[simp] theorem PresenceCaller.deliverPC_devices (p : PresenceCaller) :
    (p.thread .devices).deliverPC = none := by
  cases p <;> rfl

/-- When a caller goes on its delivery is over. So it does not count as a reader any more. -/
@[simp] theorem PresenceCaller.deliverPC_back (p : PresenceCaller) : p.back.deliverPC = none := by
  cases p <;> rfl

/-- Where a goroutine is in its delivery. The caller keeps it inside its own program point while it
is in `deliver`. -/
@[simp] theorem Caller.deliverPC_thread (p : Caller) (pc : DeliverPC) :
    (p.thread pc).deliverPC = some pc := by
  cases p with
  | send c => rfl
  | presence p => exact p.deliverPC_thread pc

/-- When a caller goes on its delivery is over. What remains of its work needs no lock of the
hub. -/
@[simp] theorem Caller.deliverPC_back (p : Caller) : p.back.deliverPC = none := by
  cases p with
  | send c => rfl
  | presence p => exact p.deliverPC_back

/-- The goroutines started by a section are in no call of `deliver`. -/
theorem Effect.deliverPC_forks (heffect : Effect u t h th h' th' fs) :
    ∀ f ∈ fs, f.deliverPC = none := by
  intro f hf
  cases heffect with
  | @unlocked p d =>
      rcases p with _ | _ | _ | _ <;> simp only [Caller.forks, PresenceCaller.forks, List.mem_cons,
        List.not_mem_nil, or_false] at hf
      rcases hf with rfl | rfl <;> rfl
  | forked hc hpass hsend =>
      obtain rfl := List.mem_singleton.mp hf
      rfl
  | _ => cases hf

/-- A connection that has joined before a section and is registered after it was registered before
it: nobody registers twice. -/
theorem Effect.mem_clients (hinv : Inv u h) (hloc : Loc u t h th)
    (heffect : Effect u t h th h' th' fs) (hc : h.conns c = some cl) (hmem : c ∈ h'.clients) :
    c ∈ h.clients := by
  -- leaving takes one client away
  have hleft : ∀ {c' : Conn} {ok : Bool}, h.unregister c' = (h', ok) → c ∈ h.clients := by
    intro c' ok hleave
    cases ok with
    | true =>
        obtain ⟨hmem', heq⟩ := Hub.unregister_true hleave
        obtain ⟨cl', hc', -⟩ := hinv.of_mem hmem'
        obtain rfl := heq cl' hc'
        exact List.mem_of_mem_erase hmem
    | false =>
        obtain ⟨-, rfl⟩ := Hub.unregister_false hleave
        exact hmem
  cases heffect with
  -- a connection joins once, before it has a client
  | joined hfree =>
      rcases List.mem_append.mp hmem with hold | hnew
      · exact hold
      · obtain rfl := List.mem_singleton.mp hnew
        rw [hloc.fresh _ rfl] at hc
        cases hc
  | sent _ _ hsend | forked _ _ hsend | slowSent _ hsend | slowFull _ hsend =>
      obtain ⟨_, _, rfl⟩ := Hub.trySend_frame hsend
      exact hmem
  | welcomed _ =>
      obtain ⟨_, _, heq⟩ := h.enqueueJSON_frame t (.welcome _)
      rwa [heq] at hmem
  | replayed =>
      obtain ⟨_, _, heq⟩ := h.enqueueJSON_frame t (.history _)
      rwa [heq] at hmem
  | left _ hleave | hadLeft _ hleave | slowKicked _ hleave | slowHadLeft _ hleave =>
      exact hleft hleave
  | _ => exact hmem

/-! ## One section -/

/-- What a section does to the lock and to the clients: `mu` is held for reading by as many
goroutines as before, give or take the one that moves, and clients only leave when nobody reads. -/
structure Locks (h h' : Hub) (th th' : Thread) : Prop where
  readers : h'.readers + th.reads = h.readers + th'.reads
  clients : h.readers = 0 ∨ h'.clients = h.clients
  rest : ∀ rest, th'.rest = some rest → ∀ c ∈ rest, c ∈ h'.clients
  panicked : h'.panicked = h.panicked

/-- A section that does not touch lock and clients, of a goroutine that does not hold the lock
before or after it. -/
theorem Locks.of_none (hreaders : h'.readers = h.readers) (hclients : h.readers = 0 ∨
    h'.clients = h.clients) (hpanicked : h'.panicked = h.panicked) (hth : th.rest = none)
    (hth' : th'.rest = none) : Locks h h' th th' where
  readers := by rw [hreaders, Thread.reads, Thread.reads, hth, hth']
  clients := hclients
  rest rest hrest := by
    rw [hth'] at hrest
    cases hrest
  panicked := hpanicked

/-- Sending to a registered client does not panic and leaves lock and clients alone. -/
theorem Inv.trySend_locks (hinv : Inv u h) (hmem : c ∈ h.clients) {ok : Bool}
    (hsend : h.trySend c f = (h', ok)) :
    h'.readers = h.readers ∧ h'.clients = h.clients ∧ h'.panicked = h.panicked := by
  obtain ⟨cl, hc, hopen⟩ := hinv.of_mem hmem
  cases ok with
  | true =>
      obtain ⟨-, -, -, -, rfl⟩ := Hub.trySend_true hsend
      exact ⟨rfl, rfl, rfl⟩
  | false =>
      rcases Hub.trySend_false hsend with ⟨rfl, -⟩ | ⟨-, cl', hc', hclosed⟩
      · exact ⟨rfl, rfl, rfl⟩
      · obtain rfl := Option.some.inj (hc.symm.trans hc')
        rw [hopen] at hclosed
        cases hclosed

/-- Enqueueing under the lock touches neither the lock nor the registered clients, and never sends
on a closed channel. -/
theorem Inv.enqueueJSON_locks (hinv : Inv u h) (c : Conn) (f : Frame) :
    (h.enqueueJSON c f).readers = h.readers ∧ (h.enqueueJSON c f).clients = h.clients ∧
      (h.enqueueJSON c f).panicked = h.panicked := by
  unfold Hub.enqueueJSON
  split
  · exact hinv.trySend_locks ‹_› (Prod.eta _).symm
  · exact ⟨rfl, rfl, rfl⟩

/-- Closing the channel of a registered client does not panic. The client was registered, so by the
invariant its channel was open before. -/
theorem Inv.unregister_locks (hinv : Inv u h) (hfree : h.readers = 0) {ok : Bool}
    (hleave : h.unregister c = (h', ok)) (hth : th.rest = none) (hth' : th'.rest = none) :
    Locks h h' th th' := by
  cases ok with
  | false =>
      obtain ⟨-, rfl⟩ := Hub.unregister_false hleave
      exact .of_none rfl (.inl hfree) rfl hth hth'
  | true =>
      obtain ⟨hmem, heq⟩ := Hub.unregister_true hleave
      obtain ⟨cl, hc, hopen⟩ := hinv.of_mem hmem
      obtain rfl := heq cl hc
      refine .of_none rfl (.inl hfree) ?_ hth hth'
      rw [Hub.remove, hopen, Bool.or_false]

/-- **One section keeps to the lock**, if the goroutine that performs it does. A section that takes
or gives back the read lock counts itself in or out, and one that writes needs that there are no
readers. -/
theorem Effect.locks (hinv : Inv u h) (hpos : th.reads ≤ h.readers)
    (hrest : ∀ rest, th.rest = some rest → ∀ c ∈ rest, c ∈ h.clients)
    (heffect : Effect u t h th h' th' fs) : Locks h h' th th' := by
  cases heffect with
  -- `RLock`: from here on the thread ranges over the clients that are registered
  | @locked p d clients hperm =>
      refine ⟨?_, .inr rfl, fun rest heq c hmem => ?_, rfl⟩
      · simp [Thread.reads, Thread.rest, DeliverPC.rest, Hub.rLock]
      · obtain rfl : clients = rest := by simpa [Thread.rest, DeliverPC.rest] using heq
        exact hperm.mem_iff.mp hmem
  -- `RUnlock`
  | @unlocked p d =>
      refine ⟨?_, .inr rfl, fun rest heq => ?_, rfl⟩
      · simp only [Thread.reads, Thread.rest, Caller.deliverPC_thread, Option.bind_some,
          DeliverPC.rest, Option.isSome_some, if_true] at hpos ⊢
        simp only [Hub.rUnlock, Caller.deliverPC_back, Option.bind_none, Option.isSome_none,
          Bool.false_eq_true, if_false]
        omega
      · simp [Thread.rest] at heq
  | @skipped p d c rest cl hc hskip =>
      refine ⟨by simp [Thread.reads, Thread.rest, DeliverPC.rest], .inr rfl, fun rest' heq c' hmem => ?_,
        rfl⟩
      obtain rfl : rest = rest' := by simpa [Thread.rest, DeliverPC.rest] using heq
      exact hrest (c :: rest) (by simp [Thread.rest, DeliverPC.rest]) c' (List.mem_cons_of_mem _ hmem)
  -- while it holds the lock, the rest of the range stays registered
  | @sent p d c rest cl h' hc hpass hsend | @forked p d c rest cl h' hc hpass hsend =>
      have hall := hrest (c :: rest) (by simp [Thread.rest, DeliverPC.rest])
      obtain ⟨hreaders, hclients, hpanicked⟩ := hinv.trySend_locks (hall c List.mem_cons_self) hsend
      refine ⟨?_, .inr hclients, fun rest' heq c' hmem => ?_, hpanicked⟩
      · rw [hreaders]
        simp [Thread.reads, Thread.rest, DeliverPC.rest]
      · obtain rfl : rest = rest' := by simpa [Thread.rest, DeliverPC.rest] using heq
        rw [hclients]
        exact hall c' (List.mem_cons_of_mem _ hmem)
  | @devices p clients hperm =>
      exact .of_none rfl (.inr rfl) rfl (by simp [Thread.rest]) (by simp [Thread.rest, DeliverPC.rest])
  | joined hfree => exact .of_none rfl (.inl hfree) rfl rfl rfl
  | welcomed hc =>
      obtain ⟨hreaders, hclients, hpanicked⟩ := hinv.enqueueJSON_locks t (.welcome _)
      exact .of_none hreaders (.inr hclients) hpanicked rfl rfl
  | replayed =>
      obtain ⟨hreaders, hclients, hpanicked⟩ := hinv.enqueueJSON_locks t (.history _)
      exact .of_none hreaders (.inr hclients) hpanicked rfl rfl
  | accepted hc hscreen => exact .of_none rfl (.inr rfl) rfl rfl (by split <;> rfl)
  -- leaving needs the write lock, which nobody gets while somebody reads
  | left hfree hleave | hadLeft hfree hleave | slowKicked hfree hleave | slowHadLeft hfree hleave =>
      exact hinv.unregister_locks hfree hleave rfl rfl
  | slowSent hmem hsend | slowFull hmem hsend =>
      obtain ⟨hreaders, hclients, hpanicked⟩ := hinv.trySend_locks hmem hsend
      exact .of_none hreaders (.inr hclients) hpanicked rfl rfl
  | cutoff | noHistory hc hnil | snapshot hc hne | failed | ignored | recipients
  | addedToHistory hfree | slowStarted | slowContinued htime | slowTimedOut htime | slowGone hmem
  | slowWoke htime | slowStill hmem | slowMissed hmem | took hc hsend | writeEnded =>
      exact .of_none rfl (.inr rfl) rfl rfl rfl

/-! ## Whole runs -/

/-- The **lock discipline**: `mu` is held for reading by exactly the calls of `deliver` that iterate,
all of whose clients are registered; and no channel was misused. -/
structure Locked (d : ThreadPool.Config Hub Thread) : Prop where
  readers : d.shared.readers = (d.threads.map Thread.reads).sum
  rest : ∀ (t : Tid) (th : Thread), d.threads[t]? = some th →
    ∀ rest, th.rest = some rest → ∀ c ∈ rest, c ∈ d.shared.clients
  panicked : d.shared.panicked = false

/-- When nobody holds the lock, no call of `deliver` iterates. The count of readers is the number of
these calls, so a writer runs while none of them is under way. -/
theorem Locked.rest_of_free (hlocked : Locked d) (hfree : d.shared.readers = 0)
    (hth : d.threads[t]? = some th) : th.rest = none := by
  have hsum : (d.threads.map Thread.reads).sum = 0 := by rw [← hlocked.readers, hfree]
  have hzero : th.reads = 0 := ThreadPool.sum_map_eq_zero.mp hsum th (List.mem_of_getElem? hth)
  unfold Thread.reads at hzero
  split at hzero
  · cases hzero
  · exact Option.not_isSome_iff_eq_none.mp ‹_›

/-- **Every action keeps the lock as it should be**: the readers are the deliveries that hold it,
and while there is one no client is registered or removed. -/
theorem locked_exec {act : Act Thread Choice ℕ} {c : ThreadPool.Config Hub Thread}
    (hvalid : (outline u).Valid () c) (hlocked : Locked c) (harrive : Arrivals c act)
    (hexec : (machine u).exec c act = some d) : Locked d := by
  cases act with
  | spawn th =>
      obtain rfl := Option.some.inj hexec
      obtain ⟨device, rfl⟩ := harrive th rfl
      refine ⟨?_, fun t th hth rest hrest => ?_, hlocked.panicked⟩
      · rw [List.map_append, List.sum_append]
        exact hlocked.readers
      · rcases ThreadPool.getElem?_append_cases hth with hold | ⟨-, hnew⟩
        · exact hlocked.rest t th hold rest hrest
        · obtain rfl := List.mem_singleton.mp hnew
          cases hrest
  | env e =>
      obtain rfl := Option.some.inj hexec
      exact ⟨hlocked.readers, hlocked.rest, hlocked.panicked⟩
  | run t k =>
      obtain ⟨th, h', th', fs, hth, hstep, rfl⟩ := (machine u).exec_run_iff.mp hexec
      have heffect : Effect u t c.shared th h' th' fs := .of_step hstep
      have hpos : th.reads ≤ c.shared.readers := by
        rw [hlocked.readers]
        exact ThreadPool.le_sum_map Thread.reads hth
      have hlocks := heffect.locks hvalid.inv hpos (hlocked.rest t th hth)
      have hforks : ∀ f ∈ fs, f.rest = none := fun f hf => by
        rw [Thread.rest, heffect.deliverPC_forks f hf]
        rfl
      refine ⟨?_, ?_, hlocks.panicked.trans hlocked.panicked⟩
      · have hsum := ThreadPool.sum_set_append Thread.reads hth th' fs
        have hnone : (fs.map Thread.reads).sum = 0 := ThreadPool.sum_map_eq_zero.mpr fun f hf => by
          simp [Thread.reads, hforks f hf]
        have hreaders := hlocks.readers
        rw [hlocked.readers] at hreaders
        show h'.readers = ((c.threads.set t th' ++ fs).map Thread.reads).sum
        omega
      · -- a client can only leave when no other call of `deliver` iterates
        refine ThreadPool.forall_set_append (fun v w _ hw rest hrest c' hmem => ?_) hlocks.rest
          fun f hf _ rest hrest => ?_
        · rcases hlocks.clients with hfree | hsame
          · rw [hlocked.rest_of_free hfree hw] at hrest
            cases hrest
          · rw [hsame]
            exact hlocked.rest v w hw rest hrest c' hmem
        · rw [hforks f hf] at hrest
          cases hrest

/-- The lock discipline holds in every configuration the hub can get into. -/
theorem Reachable.locked (hreach : Reachable u d) : Locked d := by
  obtain ⟨historyTTL, now, hrun⟩ := hreach
  have hboot : Locked (boot historyTTL now) := ⟨rfl, fun t th hth => by simp [boot] at hth, rfl⟩
  obtain ⟨_, -, -, hlocked⟩ := Outline.run_invariant (O := outline u) (I := fun _ c => Locked c)
    (fun _ _ harrive => harrive) (valid_boot u historyTTL now) hboot
    (fun _ _ _ _ _ hvalid hlocked harrive hexec _ => locked_exec hvalid hlocked harrive hexec) hrun
  exact hlocked

/-- **No send on a closed channel and no double close**: in every configuration the hub can get into
no channel was misused, and the channel of a client that has joined is closed exactly when it is no
longer registered. -/
theorem channels_safe (hreach : Reachable u d) : d.shared.panicked = false ∧
    ∀ c cl, d.shared.conns c = some cl → (cl.closed = true ↔ c ∉ d.shared.clients) := by
  refine ⟨hreach.locked.panicked, fun c cl hc => ?_⟩
  have hinv : Inv u d.shared := hreach.valid.inv
  constructor
  · intro hclosed hmem
    obtain ⟨cl', hc', hopen⟩ := hinv.of_mem hmem
    obtain rfl := Option.some.inj (hc.symm.trans hc')
    rw [hopen] at hclosed
    cases hclosed
  · intro hgone
    by_contra hopen
    have hone := hinv.count_of_open hc (Bool.not_eq_true _ |>.mp hopen)
    rw [List.count_eq_zero.mpr hgone] at hone
    cases hone

/-- A run in which a client has left and its channel is closed. The equivalence is therefore not
about open channels only. -/
theorem channels_safe_leave : ∃ d : ThreadPool.Config Hub Thread,
    (d.shared.conns 0).any Client.closed = true ∧ d.shared.panicked = false ∧
      ∀ c cl, d.shared.conns c = some cl → (cl.closed = true ↔ c ∉ d.shared.clients) := by
  have hrun : ((machine Sample.uuids).execAll (boot 1000000000 0)
      (Sample.joins ++ [.run 2 .fail] ++ Sample.go 2 1)).any fun d =>
        (d.shared.conns 0).any Client.closed := by
    decide +kernel
  obtain ⟨d, hexec, hclosed⟩ := (Option.any_eq_true _ _).mp hrun
  exact ⟨d, hclosed, channels_safe (Sample.reachable_of_execAll (by decide) hexec)⟩

end LanRoom.Chat

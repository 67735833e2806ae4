import LanRoom.Chat.Registering

/-! # Do all devices see the messages in the same order?

`SendMessage` appends a message to the history in one section and delivers it in others, client by
client. Two calls that overlap can reach the clients in different orders, and in another order than
that of the history (`order_disagrees`). A connection to which a message is no longer due when the
next one is appended never gets the two the other way round (`order_agrees`). -/

namespace LanRoom.Chat

open ThreadPool (Tid Machine Act Outline)

variable {u : UUIDPackage} {t : Tid} {k : Choice} {h h' : Hub} {c : Conn} {cl : Client}
  {f : Frame} {e e₁ e₂ : Entry} {th th' : Thread} {fs : List Thread}
  {c₀ d : ThreadPool.Config Hub Thread} {key : Key}

/-! ## Order in a list -/

/-- In the list, `y` never comes before `x`. -/
def Precedes {α : Type*} (x y : α) (l : List α) : Prop := ¬ [y, x].Sublist l

/-- If both are in the list, `x` comes before `y`. This turns the statement about two positions into
one about what a receiver has been sent. -/
theorem Precedes.sublist {α : Type*} {x y : α} {l : List α} (hprecedes : Precedes x y l) (hne : x ≠ y)
    (hx : x ∈ l) (hy : y ∈ l) : [x, y].Sublist l := by
  obtain ⟨pre, post, rfl⟩ := List.append_of_mem hy
  have hpre : x ∈ pre := by
    rcases List.mem_append.mp hx with hpre | hpost
    · exact hpre
    · rcases List.mem_cons.mp hpost with heq | hpost
      · exact absurd heq hne
      · exfalso
        apply hprecedes
        have hlast : [y, x].Sublist (y :: post) :=
          (List.singleton_sublist.mpr hpost).cons_cons y
        exact hlast.trans (List.sublist_append_right _ _)
  have hfirst : [x].Sublist pre := List.singleton_sublist.mpr hpre
  exact hfirst.append ((List.nil_sublist post).cons_cons y)

/-- `x` is not among the later elements, and `y` not among the earlier ones. -/
theorem Precedes.of_append {α : Type*} {x y : α} {pre post : List α} (hy : y ∉ pre)
    (hx : x ∉ post) : Precedes x y (pre ++ post) := by
  intro hsub
  obtain ⟨l₁, l₂, heq, hl₁, hl₂⟩ := List.sublist_append_iff.mp hsub
  cases l₁ with
  | nil =>
      obtain rfl : [y, x] = l₂ := heq
      exact hx (hl₂.subset (List.mem_cons_of_mem _ (List.mem_singleton.mpr rfl)))
  | cons z l₁ =>
      obtain rfl : y = z := (List.cons.inj heq).1
      exact hy (hl₁.subset List.mem_cons_self)

/-! ## A message that is no longer due -/

/-- Message `n` has been accepted, and no goroutine is about to put it into the history. -/
structure Recorded (n : ℕ) (d : ThreadPool.Config Hub Thread) : Prop where
  accepted : n < d.shared.accepted.length
  holds : (d.threads.map (Thread.holds (Key.message n).matches)).sum = 0

/-- How many copies of message `n` are still due to `c`. -/
def dueOf (n : ℕ) (c : Conn) (d : ThreadPool.Config Hub Thread) : ℕ :=
  (d.threads.map (Thread.due (Key.message n).matches c)).sum

/-- Message `n` is where it will be: in the history, or dropped from it, and in the queue of `c`, or
not for it. -/
structure Settled (n : ℕ) (c : Conn) (d : ThreadPool.Config Hub Thread) : Prop extends
    Recorded n d where
  due : dueOf n c d = 0

/-- No section makes a recorded message once more. Its number is behind the counter, so neither the
history nor a call of `deliver` can use it again. -/
theorem Recorded.of_effect {n : ℕ} (hrecorded : Recorded n c₀) (hth : c₀.threads[t]? = some th)
    (heffect : Effect u t c₀.shared th h' th' fs) :
    Recorded n ⟨h', c₀.threads.set t th' ++ fs⟩ ∧ calls (Key.message n).matches th th' = 0 := by
  obtain ⟨hmono, hmade⟩ := heffect.kept (.message n)
  have hused : ¬ (Key.message n).unused c₀.shared := Nat.not_le.mpr hrecorded.accepted
  have hsum := ThreadPool.sum_set_append (Thread.holds (Key.message n).matches) hth th' fs
  have hle := ThreadPool.le_sum_map (Thread.holds (Key.message n).matches) hth
  have hzero := hrecorded.holds
  rcases hmade with hnone | ⟨-, hunused, -⟩
  · refine ⟨⟨Nat.not_le.mp fun hunused => hused (hmono hunused), ?_⟩, by omega⟩
    show ((c₀.threads.set t th' ++ fs).map (Thread.holds (Key.message n).matches)).sum = 0
    omega
  · exact absurd hunused hused

/-- No section adds a recorded message to the history. New entries have numbers that are not used
yet, and pruning keeps the order of the rest. -/
theorem Recorded.history {n : ℕ} (hrecorded : Recorded n c₀) (hth : c₀.threads[t]? = some th)
    (heffect : Effect u t c₀.shared th h' th' fs) :
    ∃ old new, h'.history = old ++ new ∧ old.Sublist c₀.shared.history ∧ ∀ e ∈ new, e.seq ≠ n := by
  rcases heffect.history with ⟨hsame, -⟩ | ⟨s, e, rfl, -, rfl⟩
  · exact ⟨c₀.shared.history, [], by rw [hsame, List.append_nil], .refl _, nofun⟩
  · refine ⟨_, [e], rfl, List.filter_sublist, fun x hx => ?_⟩
    obtain rfl := List.mem_singleton.mp hx
    rintro rfl
    have hle := ThreadPool.le_sum_map (Thread.holds (Key.message x.seq).matches) hth
    have hholds : (Thread.readPump s (.addToHistory x)).holds (Key.message x.seq).matches = 1 := by
      simp [Thread.holds, Key.matches]
    have hzero := hrecorded.holds
    omega

/-- A section places another frame than a settled one, if any. For the frames with this number the
queue has therefore come to rest. -/
theorem Settled.of_effect {n : ℕ} (hvalid : (outline u).Valid () c₀) (hsettled : Settled n c c₀)
    (hth : c₀.threads[t]? = some th) (heffect : Effect u t c₀.shared th h' th' fs) :
    Settled n c ⟨h', c₀.threads.set t th' ++ fs⟩ ∧ ∃ new, h'.placed c = c₀.shared.placed c ++ new ∧
      ∀ f ∈ new, (Key.message n).matches f = false := by
  -- placed, due and dropped together never grow for a message that is recorded
  obtain ⟨lost, hbalance, -⟩ :=
    heffect.ledger hvalid.inv (hvalid.loc t th hth) (Key.message n).live c
  obtain ⟨hrecorded, hcalls⟩ := hsettled.toRecorded.of_effect hth heffect
  have hsum := ThreadPool.sum_set_append (Thread.due (Key.message n).matches c) hth th' fs
  have hle := ThreadPool.le_sum_map (Thread.due (Key.message n).matches c) hth
  have hzero : (c₀.threads.map (Thread.due (Key.message n).matches c)).sum = 0 := hsettled.due
  obtain ⟨new, happend⟩ : ∃ new, h'.placed c = c₀.shared.placed c ++ new := by
    rcases heffect.placed hvalid.inv (hvalid.loc t th hth) c with hsame | ⟨f, happend, -⟩
    · exact ⟨[], by rw [hsame, List.append_nil]⟩
    · exact ⟨[f], happend⟩
  rw [happend, List.countP_append] at hbalance
  refine ⟨⟨hrecorded, ?_⟩, new, happend, fun f hf => ?_⟩
  · show ((c₀.threads.set t th' ++ fs).map (Thread.due (Key.message n).matches c)).sum = 0
    omega
  · -- a further copy would have to come from what is due, and nothing is
    by_contra hmatch
    rw [Bool.not_eq_false] at hmatch
    have hpos := List.countP_pos_iff.mpr ⟨f, hf, hmatch⟩
    omega

/-! ## Whole runs -/

/-- The history has only shrunk since it was `log`, but for messages other than `n`. -/
def HistoryAfter (n : ℕ) (log : List Entry) (d : ThreadPool.Config Hub Thread) : Prop :=
  ∃ old new, d.shared.history = old ++ new ∧ old.Sublist log ∧ ∀ e ∈ new, e.seq ≠ n

/-- Only frames other than message `n` have been placed since `frames` had been. -/
def QueueAfter (n : ℕ) (c : Conn) (frames : List Frame) (d : ThreadPool.Config Hub Thread) : Prop :=
  ∃ new, d.shared.placed c = frames ++ new ∧ ∀ f ∈ new, (Key.message n).matches f = false

/-- **Every action keeps a recorded message recorded**, and the history only grows behind it. So
whatever enters the history from then on has another number and stands behind. -/
theorem recorded_exec {n : ℕ} {log : List Entry} {act : Act Thread Choice ℕ}
    (hrecorded : Recorded n c₀) (hafter : HistoryAfter n log c₀) (harrive : Arrivals c₀ act)
    (hexec : (machine u).exec c₀ act = some d) : Recorded n d ∧ HistoryAfter n log d := by
  cases act with
  | spawn th =>
      obtain rfl := Option.some.inj hexec
      obtain ⟨device, rfl⟩ := harrive th rfl
      refine ⟨⟨hrecorded.accepted, ?_⟩, hafter⟩
      rw [List.map_append, List.sum_append]
      exact hrecorded.holds
  | env m =>
      obtain rfl := Option.some.inj hexec
      exact ⟨⟨hrecorded.accepted, hrecorded.holds⟩, hafter⟩
  | run t k =>
      obtain ⟨th, h', th', fs, hth, hstep, rfl⟩ := (machine u).exec_run_iff.mp hexec
      have heffect : Effect u t c₀.shared th h' th' fs := .of_step hstep
      refine ⟨(hrecorded.of_effect hth heffect).1, ?_⟩
      -- what was in the history before may be pruned; what is new stands behind it
      obtain ⟨old, new, hhistory, hold, hnew⟩ := hafter
      obtain ⟨old', new', hhistory', hold', hnew'⟩ := hrecorded.history hth heffect
      rw [hhistory] at hold'
      obtain ⟨l₁, l₂, rfl, hl₁, hl₂⟩ := List.sublist_append_iff.mp hold'
      refine ⟨l₁, l₂ ++ new', ?_, hl₁.trans hold, fun e he => ?_⟩
      · rw [← List.append_assoc]
        exact hhistory'
      · rcases List.mem_append.mp he with he | he
        · exact hnew e (hl₂.subset he)
        · exact hnew' e he

/-- **Every action keeps a settled message settled**, and the queue only grows behind it. No copy of
it is due, so every frame that is placed for `c` is another one. -/
theorem settled_exec {n : ℕ} {frames : List Frame} {act : Act Thread Choice ℕ}
    (hvalid : (outline u).Valid () c₀) (hsettled : Settled n c c₀) (hafter : QueueAfter n c frames c₀)
    (harrive : Arrivals c₀ act) (hexec : (machine u).exec c₀ act = some d) :
    Settled n c d ∧ QueueAfter n c frames d := by
  cases act with
  | spawn th =>
      have hhistory : HistoryAfter n c₀.shared.history c₀ :=
        ⟨_, [], (List.append_nil _).symm, .refl _, nofun⟩
      have hrecorded := (recorded_exec hsettled.toRecorded hhistory harrive hexec).1
      obtain rfl := Option.some.inj hexec
      obtain ⟨device, rfl⟩ := harrive th rfl
      refine ⟨⟨hrecorded, ?_⟩, hafter⟩
      unfold dueOf
      rw [List.map_append, List.sum_append]
      exact hsettled.due
  | env m =>
      obtain rfl := Option.some.inj hexec
      exact ⟨⟨⟨hsettled.accepted, hsettled.holds⟩, hsettled.due⟩, hafter⟩
  -- the frames placed since are extended by those of this section, none of them the message's
  | run t k =>
      obtain ⟨th, h', th', fs, hth, hstep, rfl⟩ := (machine u).exec_run_iff.mp hexec
      obtain ⟨hnext, new', happend', hnew'⟩ := hsettled.of_effect hvalid hth (.of_step hstep)
      obtain ⟨new, happend, hnew⟩ := hafter
      refine ⟨hnext, new ++ new', ?_, fun f hf => ?_⟩
      · rw [← List.append_assoc, ← happend]
        exact happend'
      · rcases List.mem_append.mp hf with hf | hf
        · exact hnew f hf
        · exact hnew' f hf

/-- **Messages that do not overlap keep their order**: let a `SendMessage` append `e₂` to the history
while `e₁` is in it. Whatever happens then, `e₂` never comes before `e₁` in the history, nor in the
queue of any connection to which `e₁` was no longer due at that moment. -/
theorem order_agrees {s : Conn} (hreach : Reachable u c₀)
    (hadd : c₀.threads[t]? = some (.readPump s (.addToHistory e₂))) (he₁ : e₁ ∈ c₀.shared.history)
    (hrun : (machine u).Run Arrivals c₀ d) :
    Precedes e₁ e₂ d.shared.history ∧ ∀ c, dueOf e₁.seq c c₀ = 0 →
      Precedes (.message e₁) (.message e₂) (d.shared.placed c) := by
  have hholds : ∀ n, (Thread.readPump s (.addToHistory e₂)).holds (Key.message n).matches =
      if e₂.seq = n then 1 else 0 := fun n => by
    simp [Thread.holds, Key.matches]
  have hmade := ThreadPool.le_sum_map (Thread.holds (Key.message e₂.seq).matches) hadd
  rw [hholds, if_pos rfl] at hmade
  -- `e₂` is in no history and in no queue yet
  have hnew₂ : e₂ ∉ c₀.shared.history := by
    intro hin
    have hpos : 0 < c₀.shared.history.countP fun e => e.seq = e₂.seq :=
      List.countP_pos_iff.mpr ⟨e₂, hin, decide_eq_true rfl⟩
    have hone := (hreach.recordedOnce e₂.seq).le_one
    unfold recorded at hone
    omega
  have hrecorded : Recorded e₁.seq c₀ := by
    obtain ⟨s₁, m₁, cl₁, haccepted, -⟩ := hreach.valid.inv.history e₁ he₁
    have hpos : 0 < c₀.shared.history.countP fun e => e.seq = e₁.seq :=
      List.countP_pos_iff.mpr ⟨e₁, he₁, decide_eq_true rfl⟩
    have hone := (hreach.recordedOnce e₁.seq).le_one
    unfold recorded at hone
    exact ⟨(List.getElem?_eq_some_iff.mp haccepted).1, by omega⟩
  refine ⟨?_, fun c hdue => ?_⟩
  · obtain ⟨-, old, new, hhistory, hold, hnew⟩ :=
      hrun.invariant (I := fun d => Recorded e₁.seq d ∧ HistoryAfter e₁.seq c₀.shared.history d)
        ⟨hrecorded, _, [], (List.append_nil _).symm, .refl _,
          fun _ hin => absurd hin List.not_mem_nil⟩
        fun _ _ _ hkept harrive hexec => recorded_exec hkept.1 hkept.2 harrive hexec
    rw [hhistory]
    exact .of_append (fun hin => hnew₂ (hold.subset hin)) fun hin => hnew e₁ hin rfl
  · obtain ⟨-, -, new, happend, hnew⟩ :=
      hrun.invariant (I := fun d => Reachable u d ∧ Settled e₁.seq c d ∧
        QueueAfter e₁.seq c (c₀.shared.placed c) d)
        ⟨hreach, ⟨hrecorded, hdue⟩, [], (List.append_nil _).symm,
          fun _ hin => absurd hin List.not_mem_nil⟩
        fun _ _ _ hkept harrive hexec => ⟨hkept.1.exec harrive hexec,
          settled_exec hkept.1.valid hkept.2.1 hkept.2.2 harrive hexec⟩
    rw [happend]
    refine .of_append (fun hin => ?_) fun hin => ?_
    · have hpos : 0 < (c₀.shared.placed c).countP (Key.message e₂.seq).matches :=
        List.countP_pos_iff.mpr ⟨_, hin, decide_eq_true rfl⟩
      have hone := (hreach.unique (.message e₂.seq) c).le_one
      have hshare := sum_share (.message e₂.seq) c c₀.threads
      unfold total at hone
      omega
    · have hmatch : (Key.message e₁.seq).matches (.message e₁) = true := decide_eq_true rfl
      rw [hnew _ hin] at hmatch
      cases hmatch

/-! ## Overlaps -/

namespace Sample

/-- Thread `2` has sent a message to everyone, and thread `5` is about to append one to the
history. -/
def sendsNext : List (Act Thread Choice ℕ) :=
  bothJoin ++ sendMessage 2 [0, 3] ++ [.run 5 (.incoming (hello []))]

/-- Threads `2` and `5` send a message to everyone at the same time: both have been appended to the
history when the two calls of `deliver` begin, and these go through the clients in opposite
orders. -/
def sendsTogether : List (Act Thread Choice ℕ) :=
  bothJoin ++ [.run 2 (.incoming (hello []))] ++ go 2 1 ++ [.run 5 (.incoming (hello []))] ++ go 5 1 ++
    [iterate 2 [0, 3], iterate 5 [3, 0]] ++ go 2 1 ++ go 5 1 ++ go 2 2 ++ go 5 2

/-- Thread `5` is about to append a second message to the history of `c₀`, which is not due to thread
`3`; both messages are in the queue of `3` in `d`. -/
def nextOf (c₀ d : ThreadPool.Config Hub Thread) : Bool :=
  match (c₀.threads[5]? : Option Thread), c₀.shared.history with
  | some (.readPump _ (.addToHistory e₂)), [e₁] =>
      decide (dueOf e₁.seq 3 c₀ = 0) && decide (e₁ ≠ e₂) &&
        decide (Frame.message e₁ ∈ d.shared.placed 3) && decide (Frame.message e₂ ∈ d.shared.placed 3)
  | _, _ => false

/-- The two messages of the history are in the queues of `0` and `3` in different orders. -/
def disordered (h : Hub) : Bool :=
  match h.history with
  | [e₁, e₂] => decide (e₁ ≠ e₂) && [Frame.message e₁, .message e₂].isSublist (h.placed 0) &&
      [Frame.message e₂, .message e₁].isSublist (h.placed 3)
  | _ => false

end Sample

/-- Two messages, sent one after the other. No copy of the first is due any more when the second is
sent, and the receiver gets them in this order. -/
theorem order_agrees_next : ∃ (c₀ d : ThreadPool.Config Hub Thread) (e₁ e₂ : Entry),
    (machine Sample.uuids).Run Arrivals c₀ d ∧ e₂ ∉ c₀.shared.history ∧
      [Frame.message e₁, .message e₂].Sublist (d.shared.placed 3) := by
  -- the second message is sent when nothing of the first is due any more
  have hrun : ((machine Sample.uuids).execAll (boot 1000000000 0) Sample.sendsNext).any fun c₀ =>
      ((machine Sample.uuids).execAll c₀ (Sample.go 5 1 ++ [Sample.iterate 5 [0, 3]] ++
        Sample.go 5 3)).any fun d => Sample.nextOf c₀ d := by
    decide +kernel
  obtain ⟨c₀, hexec₀, hrun⟩ := (Option.any_eq_true _ _).mp hrun
  obtain ⟨d, hexec, hrun⟩ := (Option.any_eq_true _ _).mp hrun
  unfold Sample.nextOf at hrun
  split at hrun
  · rename_i s e₂ e₁ hthread hhistory
    simp only [Bool.and_eq_true, decide_eq_true_eq] at hrun
    obtain ⟨⟨⟨hdue, hne⟩, hmem₁⟩, hmem₂⟩ := hrun
    have hsteps : (machine Sample.uuids).Run Arrivals c₀ d := by
      refine .of_execAll (fun c act hact => Sample.arrivals_of_tame ?_ c) hexec
      exact List.all_eq_true.mp (by decide : (Sample.go 5 1 ++ [Sample.iterate 5 [0, 3]] ++
        Sample.go 5 3).all Sample.tame = true) act hact
    have he₁ : e₁ ∈ c₀.shared.history := by
      rw [hhistory]
      exact List.mem_singleton.mpr rfl
    have horder := (order_agrees (Sample.reachable_of_execAll (by decide) hexec₀) hthread he₁
      hsteps).2 3 hdue
    refine ⟨c₀, d, e₁, e₂, hsteps, ?_, horder.sublist (fun heq => hne ?_) hmem₁ hmem₂⟩
    · rw [hhistory, List.mem_singleton]
      exact Ne.symm hne
    · cases heq
      rfl
  · cases hrun

/-- Two messages that are sent at the same time reach two connections in different orders, although no
queue is full; one of the two orders is not that of the history. -/
theorem order_disagrees : ∃ (d : ThreadPool.Config Hub Thread) (e₁ e₂ : Entry),
    (machine Sample.uuids).Run (fun d act => Arrivals d act ∧ d.shared.roomy = true)
        (boot 1000000000 0) d ∧
      (∀ th ∈ d.threads, th.returned = true) ∧ 0 ∈ d.shared.clients ∧ 3 ∈ d.shared.clients ∧
      e₁ ≠ e₂ ∧ d.shared.history = [e₁, e₂] ∧
      [Frame.message e₁, .message e₂].Sublist (d.shared.placed 0) ∧
      [Frame.message e₂, .message e₁].Sublist (d.shared.placed 3) := by
  -- two pumps have recorded their messages, and then range over the clients at the same time
  have hrun : ((machine Sample.uuids).execAllIf (fun d _ => d.shared.roomy) (boot 1000000000 0)
      Sample.sendsTogether).any fun d =>
        d.threads.all Thread.returned && decide (0 ∈ d.shared.clients) &&
          decide (3 ∈ d.shared.clients) && Sample.disordered d.shared := by
    decide +kernel
  obtain ⟨d, hexec, hrun⟩ := (Option.any_eq_true _ _).mp hrun
  simp only [Bool.and_eq_true, decide_eq_true_eq, List.all_eq_true] at hrun
  obtain ⟨⟨⟨hreturned, hmem₀⟩, hmem₃⟩, horders⟩ := hrun
  unfold Sample.disordered at horders
  split at horders
  · rename_i e₁ e₂ hhistory
    simp only [Bool.and_eq_true, decide_eq_true_eq, List.isSublist_iff_sublist] at horders
    obtain ⟨⟨hne, hfirst⟩, hsecond⟩ := horders
    exact ⟨d, e₁, e₂, Sample.run_of_execAllIf (by decide) hexec, hreturned, hmem₀, hmem₃, hne,
      hhistory, hfirst, hsecond⟩
  · cases horders

end LanRoom.Chat

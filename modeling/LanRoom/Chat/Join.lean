import LanRoom.Chat.Delivery
import LanRoom.Chat.Registering

/-! # What a joining connection gets to see

`Register` makes the connection visible to `deliver`, then collects the history, and then enqueues
it; `SendMessage` appends to the history and then delivers. A receiver replaces its list by a history
frame and appends every message. A message delivered between the snapshot and its enqueueing is lost
on the receiver unless the snapshot has it, and a message in the snapshot that is delivered after it
is seen twice (`join_inexact`). When neither happens, the receiver sees every message of the history
that is visible to it exactly once (`join_exact`). -/

namespace LanRoom.Chat

open ThreadPool (Tid Machine Act Outline)

variable {u : UUIDPackage} {t : Tid} {k : Choice} {h h' : Hub} {c : Conn} {cl : Client}
  {f : Frame} {e : Entry} {th th' : Thread} {fs : List Thread} {c₀ d : ThreadPool.Config Hub Thread}
  {device : Device} {due due' : Entry → ℕ}

/-! ## The receiver -/

/-- What a receiver does with a frame: `ws.onmessage` in `app.js`, the listener in `room.dart`. -/
def receive (log : List Entry) : Frame → List Entry
  | .history es => es
  | .message e => log ++ [e]
  | _ => log

/-- What a receiver shows after all frames of its queue. -/
def replay (frames : List Frame) : List Entry := frames.foldl receive []

/-- What the receiver shows after one frame more. It is the fold of the receiver, read from the
end. -/
theorem replay_append (frames : List Frame) (f : Frame) :
    replay (frames ++ [f]) = receive (replay frames) f := by
  rw [replay, List.foldl_append]
  rfl

/-- The copies of a message still due to `c`. -/
def dueTo (c : Conn) (d : ThreadPool.Config Hub Thread) (e : Entry) : ℕ :=
  (d.threads.map (Thread.due (Delivery.message e).isFrame c)).sum

/-- A connection that arrives owes nothing. Its goroutine has not called `deliver` for any
message. -/
theorem dueTo_spawn (e : Entry) :
    dueTo c ⟨c₀.shared, c₀.threads ++ [.register (.start device)]⟩ e = dueTo c c₀ e := by
  unfold dueTo
  rw [List.map_append, List.sum_append]
  rfl

/-- A frame other than a history frame shows a message as often as it is one. -/
theorem count_replay (frames : List Frame) (f : Frame) (hf : ∀ msgs, f ≠ .history msgs) (e : Entry) :
    (replay (frames ++ [f])).count e + frames.countP (Delivery.message e).isFrame =
      (replay frames).count e + (frames ++ [f]).countP (Delivery.message e).isFrame := by
  rw [replay_append, List.countP_append, List.countP_singleton]
  cases f with
  | history msgs => exact absurd rfl (hf msgs)
  | message e' =>
      have hframe : (Delivery.message e).isFrame (.message e') = (e' == e) := by
        simp [Delivery.isFrame, Delivery.frame, beq_eq_decide]
      rw [receive, List.count_append, List.count_singleton, hframe]
      omega
  | welcome device => rfl
  | presence seq users => rfl

/-! ## One section -/

/-- A message in the history is not about to enter it. Its number has been used, and no number is
used twice. -/
theorem calls_of_mem (honce : ∀ n, RecordedOnce n c₀) (hth : c₀.threads[t]? = some th)
    (heffect : Effect u t c₀.shared th h' th' fs) (he : e ∈ c₀.shared.history) :
    calls (Delivery.message e).isFrame th th' = 0 := by
  rcases heffect.history with ⟨-, hcalls⟩ | ⟨c, e', rfl, rfl, -⟩
  · exact hcalls _ fun _ _ => rfl
  · by_contra hne
    have hframe : Frame.message e' = .message e := by
      by_contra hframe
      exact hne (if_neg fun heq => hframe (of_decide_eq_true heq))
    obtain rfl : e' = e := by cases hframe; rfl
    have hone := (honce e'.seq).le_one
    have hholds := ThreadPool.le_sum_map (Thread.holds (Key.message e'.seq).matches) hth
    have hheld : (Thread.readPump c (.addToHistory e')).holds (Key.message e'.seq).matches = 1 := by
      simp [Thread.holds, Key.matches]
    have hpos : 0 < c₀.shared.history.countP fun x => x.seq = e'.seq :=
      List.countP_pos_iff.mpr ⟨e', he, decide_eq_true rfl⟩
    have hold : recorded e'.seq c₀ = c₀.shared.history.countP (fun x => x.seq = e'.seq) +
      (c₀.threads.map (Thread.holds (Key.message e'.seq).matches)).sum := rfl
    omega

/-- The history grows by the messages whose delivery begins. As long as nothing expires no message
leaves the history, so the two sides are equal. -/
theorem Effect.count_history (heffect : Effect u t h th h' th' fs) (hunexpired : h.unexpired = true)
    (e : Entry) :
    h'.history.count e = h.history.count e + calls (Delivery.message e).isFrame th th' := by
  rcases heffect.history with ⟨hsame, hcalls⟩ | ⟨c, e', rfl, rfl, rfl⟩
  · rw [hsame, hcalls _ fun _ _ => rfl]
    rfl
  · rw [Hub.history_unexpired hunexpired, List.count_append, List.count_singleton]
    have hcalls : calls (Delivery.message e).isFrame (.readPump c (.addToHistory e'))
        (.readPump c (.deliver (.lock (.message e')))) = if (e' == e) = true then 1 else 0 := by
      simp [calls, Thread.deliverPC, Delivery.isFrame, Delivery.frame]
    rw [hcalls]

/-- A section that does not enqueue the snapshot shows as many copies of a message as it takes from
those due. -/
theorem view_of_effect (hreach : Reachable u c₀) (hc : c₀.shared.conns c = some cl)
    (hvisible : e.msg.visibleTo cl.device.id = true) (hth : c₀.threads[t]? = some th)
    (heffect : Effect u t c₀.shared th h' th' fs) (hmem : c ∈ h'.clients)
    (hnot : t = c → ∀ msgs, th ≠ .register (.history msgs)) :
    (replay (h'.placed c)).count e + dueTo c ⟨h', c₀.threads.set t th' ++ fs⟩ e =
      (replay (c₀.shared.placed c)).count e + dueTo c c₀ e +
        calls (Delivery.message e).isFrame th th' := by
  have hvalid := hreach.valid
  -- the message is visible to the device, so `deliver` never leaves `c` out
  have hfor : ¬ Skips (Delivery.message e).isFrame c₀.shared c := by
    rintro ⟨m, cl', hframe, hc', hskip⟩
    obtain rfl := Delivery.frame_inj (of_decide_eq_true hframe)
    obtain rfl := Option.some.inj (hc.symm.trans hc')
    rw [Delivery.passes, hvisible] at hskip
    cases hskip
  have howed := owed_of_effect hvalid (Delivery.message e).live hfor hth heffect hmem
  -- placed and shown differ by the same amount before and after: no `history` frame is placed here
  have hview : (replay (h'.placed c)).count e +
      (c₀.shared.placed c).countP (Delivery.message e).isFrame =
      (replay (c₀.shared.placed c)).count e + (h'.placed c).countP (Delivery.message e).isFrame := by
    rcases heffect.placed hvalid.inv (hvalid.loc t th hth) c with hsame | ⟨f, happend, hplaces, -⟩
    · rw [hsame]
    · rw [happend]
      refine count_replay _ f (fun msgs hmsgs => ?_) e
      rcases hplaces.offers with hoffers | ⟨htc, ⟨device, hwelcome, -⟩ | ⟨msgs', -, hhistory⟩⟩
      · obtain ⟨m, hm⟩ := hreach.offers_frame hth hoffers
        rw [hmsgs] at hm
        cases m <;> cases hm
      · rw [hmsgs] at hwelcome
        cases hwelcome
      · exact hnot htc msgs' hhistory
  have hnew : owed (Delivery.message e).isFrame c ⟨h', c₀.threads.set t th' ++ fs⟩ =
    (h'.placed c).countP (Delivery.message e).isFrame +
      dueTo c ⟨h', c₀.threads.set t th' ++ fs⟩ e := rfl
  have hold : owed (Delivery.message e).isFrame c c₀ =
    (c₀.shared.placed c).countP (Delivery.message e).isFrame + dueTo c c₀ e := rfl
  omega

/-- No section makes more copies due than it calls for. Copies are only made at the call of
`deliver`, and placing one takes it off what is due. -/
theorem dueTo_le (hvalid : (outline u).Valid () c₀) (hth : c₀.threads[t]? = some th)
    (heffect : Effect u t c₀.shared th h' th' fs) (c : Conn) (e : Entry) :
    dueTo c ⟨h', c₀.threads.set t th' ++ fs⟩ e ≤
      dueTo c c₀ e + calls (Delivery.message e).isFrame th th' := by
  obtain ⟨lost, hbalance, -⟩ :=
    heffect.ledger hvalid.inv (hvalid.loc t th hth) (Delivery.message e).live c
  have hsum := ThreadPool.sum_set_append (Thread.due (Delivery.message e).isFrame c) hth th'
    fs
  have hplaced : (c₀.shared.placed c).countP (Delivery.message e).isFrame ≤
      (h'.placed c).countP (Delivery.message e).isFrame := by
    rcases heffect.placed hvalid.inv (hvalid.loc t th hth) c with hsame | ⟨f, happend, -⟩
    · rw [hsame]
    · rw [happend, List.countP_append]
      exact Nat.le_add_right _ _
  show ((c₀.threads.set t th' ++ fs).map (Thread.due (Delivery.message e).isFrame c)).sum ≤
    (c₀.threads.map (Thread.due (Delivery.message e).isFrame c)).sum + _
  omega

/-! ## The condition -/

/-- The snapshot of the history the connection `c` is about to enqueue. -/
def snapshotOf (c : Conn) (d : ThreadPool.Config Hub Thread) : Option (List Entry) :=
  match d.threads[c]? with
  | some (.register (.history msgs)) => some msgs
  | _ => none

/-- While `c` holds a snapshot of the history, only messages in it are sent to `c`, and when `c`
enqueues it, no message in it is still due to `c`. -/
def handsOver (c : Conn) (d : ThreadPool.Config Hub Thread) : Act Thread Choice ℕ → Bool
  | .run t _ =>
      match snapshotOf c d with
      | none => true
      | some msgs =>
          if t = c then msgs.all fun e => dueTo c d e = 0
          else match (d.threads[t]?).bind (Thread.offers c) with
            | some (.message e) =>
                decide (e ∈ msgs) || !(d.shared.conns c).any fun cl => e.msg.visibleTo cl.device.id
            | _ => true
  | _ => true

/-! ## The invariant -/

/-- What the connection `c` of the device shows at a program point of its `Register`, when `due` are
the copies still due to it: until the snapshot, nothing that is not in the history; with the snapshot
in hand, every message of the history is in it or still due; afterwards, every one has been shown or
is still due. -/
def Phase (h : Hub) (due : Entry → ℕ) (c : Conn) (device : Device) : RegisterPC → Prop
  | .start _ => False
  | .welcome | .cutoff => ∀ e ∈ replay (h.placed c), e ∈ h.history
  | .snapshot cutoff => (∀ e ∈ replay (h.placed c), e ∈ h.history) ∧ cutoff ≤ h.cutoff
  | .history msgs => ∀ e, e.msg.visibleTo device.id = true →
      msgs.count e + (if e ∈ msgs then 0 else due e) = h.history.count e
  | .presence _ | .registered => ∀ e, e.msg.visibleTo device.id = true →
      (replay (h.placed c)).count e + due e = h.history.count e

/-- The **invariant of a join**: what is due to `c` is in the history, and while `c` is registered its
`Register` is in phase. -/
structure Joining (c : Conn) (d : ThreadPool.Config Hub Thread) : Prop where
  due : ∀ e, 0 < dueTo c d e → e ∈ d.shared.history
  phase : Registering c (fun d cl pc => Phase d.shared (dueTo c d) c cl.device pc) d

/-- Before the snapshot, a section keeps what is shown in the history. -/
theorem shown_of_run (hvalid : (outline u).Valid () c₀) (hreach : Reachable u c₀)
    (hjoin : Joining c c₀) (hth : c₀.threads[t]? = some th)
    (heffect : Effect u t c₀.shared th h' th' fs) (hnot : t = c → ∀ msgs, th ≠ .register (.history msgs))
    (hmono : ∀ e ∈ c₀.shared.history, e ∈ h'.history)
    (hshown : ∀ e ∈ replay (c₀.shared.placed c), e ∈ c₀.shared.history) :
    ∀ e ∈ replay (h'.placed c), e ∈ h'.history := by
  intro e he
  refine hmono e ?_
  rcases heffect.placed hvalid.inv (hvalid.loc t th hth) c with hsame | ⟨f, happend, hplaces, -⟩
  · rw [hsame] at he
    exact hshown e he
  · rw [happend, replay_append] at he
    rcases hplaces.offers with hoffers | ⟨htc, ⟨device, rfl, -⟩ | ⟨msgs, -, hhistory⟩⟩
    · obtain ⟨m, rfl⟩ := hreach.offers_frame hth hoffers
      cases m with
      | presence seq users => exact hshown e he
      | message e' =>
          rcases List.mem_append.mp he with hold | hnew
          · exact hshown e hold
          · -- it was due, and what is due is in the history
            obtain rfl := List.mem_singleton.mp hnew
            have hdue := Thread.due_of_offers (q := (Delivery.message e).isFrame) hoffers
              (decide_eq_true rfl)
            have hle := ThreadPool.le_sum_map (Thread.due (Delivery.message e).isFrame c) hth
            exact hjoin.due e (Nat.lt_of_lt_of_le hdue hle)
    · exact hshown e he
    · exact absurd hhistory (hnot htc msgs)

/-- A snapshot of an unexpired history is all of it that is visible. -/
theorem count_historyFor (hunexpired : h.unexpired = true) {cutoff : ℤ} (hcutoff : cutoff ≤ h.cutoff)
    (hvisible : e.msg.visibleTo device.id = true) :
    (h.historyFor cutoff device.id).count e = h.history.count e := by
  by_cases hmem : e ∈ h.history
  · have htime : h.cutoff ≤ e.msg.timestamp :=
      of_decide_eq_true (List.all_eq_true.mp hunexpired e hmem)
    refine List.count_filter ?_
    rw [hvisible, Bool.and_true]
    exact decide_eq_true (hcutoff.trans htime)
  · rw [List.count_eq_zero.mpr hmem]
    exact List.count_eq_zero.mpr fun hin => hmem (List.mem_filter.mp hin).1

/-- A section that changes neither what is placed for `c`, nor the history, nor what is due, keeps
the phase. This is how a section that does not concern the connection is carried over. -/
theorem Phase.congr {c : Conn} {pc : RegisterPC} (hplaced : h'.placed c = h.placed c)
    (hhistory : h'.history = h.history) (hcutoff : h.cutoff ≤ h'.cutoff) (hdue : due' = due)
    (hphase : Phase h due c device pc) : Phase h' due' c device pc := by
  subst hdue
  cases pc with
  | start device => exact hphase
  | welcome | cutoff =>
      intro e he
      rw [hhistory]
      exact hphase e (hplaced ▸ he)
  -- a later cutoff only drops more, so the cutoff that was read stays at most the current one
  | snapshot cutoff =>
      refine ⟨fun e he => ?_, hphase.2.trans hcutoff⟩
      rw [hhistory]
      exact hphase.1 e (hplaced ▸ he)
  | history msgs =>
      intro e he
      rw [hhistory]
      exact hphase e he
  | presence pc | registered =>
      intro e he
      rw [hplaced, hhistory]
      exact hphase e he

/-- While `c` holds a snapshot, a message that is not in it is not sent to `c`. -/
theorem unsent_of_handsOver (hreach : Reachable u c₀) (hsafe : handsOver c c₀ (.run t k) = true)
    (hth : c₀.threads[t]? = some th) (heffect : Effect u t c₀.shared th h' th' fs)
    (hc : c₀.shared.conns c = some cl) (htc : t ≠ c) {msgs : List Entry}
    (hpc : c₀.threads[c]? = some (.register (.history msgs)))
    (hvisible : e.msg.visibleTo cl.device.id = true) (hin : e ∉ msgs) :
    (replay (h'.placed c)).count e = (replay (c₀.shared.placed c)).count e := by
  have hvalid := hreach.valid
  rcases heffect.placed hvalid.inv (hvalid.loc t th hth) c with hsame | ⟨f, happend, hplaces, -⟩
  · rw [hsame]
  · rw [happend, replay_append]
    -- the placed frame is one of a message; the condition of the run says that `e` is another one
    rcases hplaces.offers with hoffers | ⟨heq, -⟩
    · obtain ⟨m, rfl⟩ := hreach.offers_frame hth hoffers
      cases m with
      | presence seq users => rfl
      | message e' =>
          have hne : e' ≠ e := by
            rintro rfl
            have hsnapshot : snapshotOf c c₀ = some msgs := by rw [snapshotOf, hpc]
            simp only [handsOver, hsnapshot, if_neg htc, hth, Option.bind_some, hoffers,
              Delivery.frame, hc, Option.any_some, hvisible, Bool.not_true, Bool.or_false,
              decide_eq_true_eq] at hsafe
            exact hin hsafe
          show (replay (c₀.shared.placed c) ++ [e']).count e = _
          rw [List.count_append, List.count_singleton, if_neg (by simpa using hne)]
          rfl
    · -- nobody else places frames of a join
      exact absurd heq htc

/-- A section of another goroutine keeps the phase. The cases are whether it begins a delivery,
places a frame for the connection, or does neither. -/
theorem phase_of_other (hreach : Reachable u c₀) (honce : ∀ n, RecordedOnce n c₀)
    (hjoin : Joining c c₀) (hunexpired : c₀.shared.unexpired = true)
    (hsafe : handsOver c c₀ (.run t k) = true) (hth : c₀.threads[t]? = some th)
    (heffect : Effect u t c₀.shared th h' th' fs) (hc : c₀.shared.conns c = some cl)
    (hmem : c ∈ h'.clients) (htc : t ≠ c) {pc : RegisterPC}
    (hpc : c₀.threads[c]? = some (.register pc)) (hcutoff : h'.cutoff = c₀.shared.cutoff)
    (hphase : Phase c₀.shared (dueTo c c₀) c cl.device pc) :
    Phase h' (dueTo c ⟨h', c₀.threads.set t th' ++ fs⟩) c cl.device pc := by
  have hvalid := hreach.valid
  have hnot : t = c → ∀ msgs, th ≠ .register (.history msgs) := fun heq => absurd heq htc
  have hcount := heffect.count_history hunexpired
  have hmono : ∀ e ∈ c₀.shared.history, e ∈ h'.history := fun e he =>
    heffect.mem_history he (Hub.cutoff_le hunexpired he)
  cases pc with
  | start device => exact hphase
  | welcome | cutoff => exact shown_of_run hvalid hreach hjoin hth heffect hnot hmono hphase
  | snapshot cutoff =>
      exact ⟨shown_of_run hvalid hreach hjoin hth heffect hnot hmono hphase.1, hcutoff ▸ hphase.2⟩
  | history msgs =>
      intro e he
      have hold := hphase e he
      have hgrown := hcount e
      by_cases hin : e ∈ msgs
      · -- the message is in the history already, so it is not added again
        have hpos := List.count_pos_iff.mpr hin
        rw [if_pos hin] at hold ⊢
        have hmem' : e ∈ c₀.shared.history := List.count_pos_iff.mp (by omega)
        have hzero := calls_of_mem honce hth heffect hmem'
        omega
      · rw [if_neg hin] at hold ⊢
        have hboth := view_of_effect hreach hc he hth heffect hmem hnot
        have hsame := unsent_of_handsOver hreach hsafe hth heffect hc htc hpc he hin
        omega
  | presence pc | registered =>
      intro e he
      have hold := hphase e he
      have hgrown := hcount e
      have hboth := view_of_effect hreach hc he hth heffect hmem hnot
      omega

/-- **The snapshot is taken.** It is all of the history that is visible, and whatever is still due to
`c` is in the history; so with the snapshot in hand every message is in it or not in the history at
all. From an empty snapshot the call goes on at once, and then nothing has been shown either. -/
theorem phase_of_snapshot (hreach : Reachable u c₀) (hjoin : Joining c c₀)
    (hunexpired : c₀.shared.unexpired = true) {cutoff : ℤ} {pc' : RegisterPC}
    (hpc : c₀.threads[c]? = some (.register (.snapshot cutoff)))
    (hstep : registerStep c k c₀.shared (.snapshot cutoff) = some (h', pc', fs))
    (hc : c₀.shared.conns c = some cl) (hmem : c ∈ h'.clients)
    (hphase : Phase c₀.shared (dueTo c c₀) c cl.device (.snapshot cutoff)) :
    Phase h' (dueTo c ⟨h', c₀.threads.set c (.register pc') ++ fs⟩) c cl.device pc' := by
  have heffect : Effect u c c₀.shared (.register (.snapshot cutoff)) h' (.register pc') fs :=
    .of_registerStep hstep
  have hcount := heffect.count_history hunexpired
  have hview : ∀ e, e.msg.visibleTo cl.device.id = true →
      (replay (h'.placed c)).count e + dueTo c ⟨h', c₀.threads.set c (.register pc') ++ fs⟩ e =
        (replay (c₀.shared.placed c)).count e + dueTo c c₀ e +
          calls (Delivery.message e).isFrame (.register (.snapshot cutoff)) (.register pc') :=
    fun e he => view_of_effect hreach hc he hpc heffect hmem fun _ _ => nofun
  obtain ⟨cl', hc', heq⟩ := Option.map_eq_some_iff.mp hstep
  obtain rfl := Option.some.inj (hc.symm.trans hc')
  obtain ⟨hshown, hcutoff⟩ := hphase
  have hall : ∀ e, e.msg.visibleTo cl.device.id = true →
      (c₀.shared.historyFor cutoff cl.device.id).count e = c₀.shared.history.count e :=
    fun e => count_historyFor hunexpired hcutoff
  -- a visible message outside the snapshot is outside the history, so it is not due
  have hdue : ∀ e, e ∉ c₀.shared.historyFor cutoff cl.device.id →
      e.msg.visibleTo cl.device.id = true → dueTo c c₀ e = 0 := by
    intro e hnot he
    by_contra hpos
    have hin := List.count_pos_iff.mpr (hjoin.due e (Nat.pos_of_ne_zero hpos))
    rw [← hall e he, List.count_eq_zero.mpr hnot] at hin
    omega
  dsimp only at heq
  by_cases hnil : c₀.shared.historyFor cutoff cl.device.id = []
  · rw [if_pos hnil] at heq
    cases heq
    intro e he
    have hboth := hview e he
    have hzero : calls (Delivery.message e).isFrame (.register (.snapshot cutoff))
      (.register (.presence .devices)) = 0 := rfl
    have hnone := hdue e (by rw [hnil]; exact List.not_mem_nil) he
    have hempty : c₀.shared.history.count e = 0 := by
      rw [← hall e he, hnil]
      rfl
    have hview₀ : (replay (c₀.shared.placed c)).count e = 0 :=
      List.count_eq_zero.mpr fun hin => List.count_eq_zero.mp hempty (hshown e hin)
    omega
  · rw [if_neg hnil] at heq
    cases heq
    intro e he
    have hboth := hview e he
    have hzero : calls (Delivery.message e).isFrame (.register (.snapshot cutoff))
      (.register (.history (c₀.shared.historyFor cutoff cl.device.id))) = 0 := rfl
    have hsnapshot := hall e he
    split
    · omega
    · have hnone := hdue e ‹_› he
      omega

/-- **The snapshot is enqueued.** The frame replaces what was shown before, so afterwards exactly the
snapshot is shown; the condition says that nothing in it is still due, and what is not in it has been
accounted for by `Phase` all along. -/
theorem phase_of_handOver (hreach : Reachable u c₀) (hunexpired : c₀.shared.unexpired = true)
    (hroomy : c₀.shared.roomy = true) (hsafe : handsOver c c₀ (.run c k) = true)
    {msgs : List Entry} {pc' : RegisterPC}
    (hpc : c₀.threads[c]? = some (.register (.history msgs)))
    (hstep : registerStep c k c₀.shared (.history msgs) = some (h', pc', fs))
    (hc : c₀.shared.conns c = some cl) (hmem₀ : c ∈ c₀.shared.clients)
    (hphase : Phase c₀.shared (dueTo c c₀) c cl.device (.history msgs)) :
    Phase h' (dueTo c ⟨h', c₀.threads.set c (.register pc') ++ fs⟩) c cl.device pc' := by
  have heffect : Effect u c c₀.shared (.register (.history msgs)) h' (.register pc') fs :=
    .of_registerStep hstep
  have hcount := heffect.count_history hunexpired
  cases hstep
  obtain ⟨cl', hc', hopen⟩ := hreach.valid.inv.of_mem hmem₀
  obtain rfl := Option.some.inj (hc.symm.trans hc')
  have hroom : cl.send.length < sendBuffer := by
    have hall := List.all_eq_true.mp hroomy c hmem₀
    rw [hc] at hall
    exact of_decide_eq_true hall
  have hplaced : (c₀.shared.enqueueJSON c (.history msgs)).placed c =
      c₀.shared.placed c ++ [.history msgs] := by
    rw [Hub.enqueueJSON, if_pos hmem₀, Hub.trySend_eq cl _ hc hopen hroom,
      Hub.placed_setClient hc [.history msgs] (cl.push_placed _), if_pos rfl]
  have hdue : ∀ e, dueTo c ⟨c₀.shared.enqueueJSON c (.history msgs),
      c₀.threads.set c (.register (.presence .devices)) ++ []⟩ e = dueTo c c₀ e := fun e => by
    have hsum := ThreadPool.sum_set_append (Thread.due (Delivery.message e).isFrame c) hpc
      (.register (.presence .devices)) []
    exact Nat.add_right_cancel hsum
  intro e he
  have hold := hphase e he
  have hgrown := hcount e
  have hzero : calls (Delivery.message e).isFrame (.register (.history msgs))
    (.register (.presence .devices)) = 0 := rfl
  rw [hplaced, replay_append, hdue e, receive]
  by_cases hin : e ∈ msgs
  · -- no message of the snapshot is still due
    have hsnapshot : snapshotOf c c₀ = some msgs := by rw [snapshotOf, hpc]
    simp only [handsOver, hsnapshot, if_true] at hsafe
    have hnone : dueTo c c₀ e = 0 := of_decide_eq_true (List.all_eq_true.mp hsafe e hin)
    rw [if_pos hin] at hold
    omega
  · rw [if_neg hin] at hold
    omega

/-- **A section of the `Register` of `c` leads to the next phase.** Each case is one program point
of the handler; the one that collects the history is where the messages due and the messages
collected are balanced. -/
theorem phase_of_self (hreach : Reachable u c₀) (hjoin : Joining c c₀)
    (hunexpired : c₀.shared.unexpired = true) (hroomy : c₀.shared.roomy = true)
    (hsafe : handsOver c c₀ (.run c k) = true) {pc pc' : RegisterPC}
    (hpc : c₀.threads[c]? = some (.register pc))
    (hstep : registerStep c k c₀.shared pc = some (h', pc', fs))
    (hc : c₀.shared.conns c = some cl) (hmem : c ∈ h'.clients) (hmem₀ : c ∈ c₀.shared.clients)
    (hphase : Phase c₀.shared (dueTo c c₀) c cl.device pc) :
    Phase h' (dueTo c ⟨h', c₀.threads.set c (.register pc') ++ fs⟩) c cl.device pc' := by
  have heffect : Effect u c c₀.shared (.register pc) h' (.register pc') fs := .of_registerStep hstep
  cases pc with
  -- before `clients` holds the connection there is nothing to keep
  | start device => exact hphase.elim
  | registered => cases hstep
  | welcome =>
      have hpc' : pc' = .cutoff := by
        obtain ⟨cl', -, heq⟩ := Option.map_eq_some_iff.mp hstep
        cases heq
        rfl
      subst hpc'
      exact shown_of_run hreach.valid hreach hjoin hpc heffect (fun _ _ => nofun)
        (fun e he => heffect.mem_history he (Hub.cutoff_le hunexpired he)) hphase
  | cutoff =>
      cases hstep
      exact ⟨hphase, le_rfl⟩
  | snapshot cutoff => exact phase_of_snapshot hreach hjoin hunexpired hpc hstep hc hmem hphase
  | history msgs => exact phase_of_handOver hreach hunexpired hroomy hsafe hpc hstep hc hmem₀ hphase
  -- after the `history` frame the client shows exactly what is in `h.history`, up to what is due
  | presence pc =>
      have hlast : ∀ e, e.msg.visibleTo cl.device.id = true →
          (replay (h'.placed c)).count e + dueTo c ⟨h', c₀.threads.set c (.register pc') ++ fs⟩ e =
            h'.history.count e := by
        intro e he
        have hold := hphase e he
        have hgrown := heffect.count_history hunexpired e
        have hboth := view_of_effect hreach hc he hpc heffect hmem fun _ _ => nofun
        omega
      rcases registerStep_presence hstep with ⟨pc₁, rfl⟩ | rfl
      · exact hlast
      · exact hlast

/-- What is due stays in the history. A message enters the history before the first copy of it can
be due. -/
theorem due_exec {act : Act Thread Choice ℕ} (hvalid : (outline u).Valid () c₀)
    (hdue : ∀ e, 0 < dueTo c c₀ e → e ∈ c₀.shared.history) (harrive : Arrivals c₀ act)
    (hunexpired : c₀.shared.unexpired = true) (hexec : (machine u).exec c₀ act = some d) :
    ∀ e, 0 < dueTo c d e → e ∈ d.shared.history := by
  intro e he
  cases act with
  | spawn th =>
      obtain rfl := Option.some.inj hexec
      obtain ⟨device, rfl⟩ := harrive th rfl
      rw [dueTo_spawn] at he
      exact hdue e he
  | env n =>
      obtain rfl := Option.some.inj hexec
      exact hdue e he
  | run t k =>
      obtain ⟨th, h', th', fs, hth, hstep, rfl⟩ := (machine u).exec_run_iff.mp hexec
      have heffect : Effect u t c₀.shared th h' th' fs := .of_step hstep
      have hle := dueTo_le hvalid hth heffect c e
      have hgrown := heffect.count_history hunexpired e
      refine List.count_pos_iff.mp ?_
      show 0 < h'.history.count e
      -- a message that becomes due is the one that has just been recorded
      by_cases hpos : 0 < dueTo c c₀ e
      · have hin := List.count_pos_iff.mpr (hdue e hpos)
        omega
      · omega

/-- **The step theorem**: an action that meets the condition keeps the invariant of a join. The
section belongs to the handler of `c` or to another goroutine, and these two cases have lemmas of
their own. -/
theorem joining_exec {act : Act Thread Choice ℕ} (hreach : Reachable u c₀)
    (honce : ∀ n, RecordedOnce n c₀) (hjoin : Joining c c₀) (harrive : Arrivals c₀ act)
    (hunexpired : c₀.shared.unexpired = true) (hroomy : c₀.shared.roomy = true)
    (hsafe : handsOver c c₀ act = true) (hexec : (machine u).exec c₀ act = some d) : Joining c d := by
  have hvalid := hreach.valid
  refine ⟨due_exec hvalid hjoin.due harrive hunexpired hexec,
    hjoin.phase.exec hvalid hexec ?_ ?_ ?_⟩
  · -- `c` has just joined: its queue is empty
    rintro k device hc hd - e he
    rw [hd, Hub.join_placed hc, Hub.placed_of_none hc] at he
    cases he
  · rintro k pc pc' h' fs cl cl' rfl hpc hstep rfl hc hc' hdevice hmem₀ hmem hphase
    rw [hdevice]
    exact phase_of_self hreach hjoin hunexpired hroomy hsafe hpc hstep hc hmem hmem₀ hphase
  · rintro pc cl cl' hact hpc hc hc' hdevice hmem₀ hmem hphase
    rw [hdevice]
    cases act with
    | spawn th =>
        obtain rfl := Option.some.inj hexec
        obtain ⟨device, rfl⟩ := harrive th rfl
        exact hphase.congr rfl rfl le_rfl (funext dueTo_spawn)
    | env n =>
        obtain rfl := Option.some.inj hexec
        have hplaced : (c₀.shared.tick n).placed c = c₀.shared.placed c := rfl
        exact hphase.congr hplaced rfl (c₀.shared.cutoff_tick n) rfl
    | run t k =>
        obtain ⟨th, h', th', fs, hth, hstep, rfl⟩ := (machine u).exec_run_iff.mp hexec
        have heffect : Effect u t c₀.shared th h' th' fs := .of_step hstep
        have htc : t ≠ c := fun heq => hact k (heq ▸ rfl)
        exact phase_of_other hreach honce hjoin hunexpired hsafe hth heffect hc hmem htc hpc
          heffect.cutoff_eq hphase

/-! ## Whole runs -/

/-- No queue is full and no message has expired. -/
def quiet (d : ThreadPool.Config Hub Thread) : Bool := d.shared.roomy && d.shared.unexpired

/-- A message that is shown came in some frame. Either it is the frame of that message alone or a
history frame with the message among its entries. -/
theorem mem_replay {frames : List Frame} (he : e ∈ replay frames) : ∃ f ∈ frames, e ∈ f.entries := by
  induction frames using List.reverseRecOn with
  | nil => cases he
  | append_singleton frames f ih =>
      rw [replay_append] at he
      have hold : e ∈ replay frames → ∃ g ∈ frames ++ [f], e ∈ g.entries := fun hin => by
        obtain ⟨g, hg, heg⟩ := ih hin
        exact ⟨g, List.mem_append_left _ hg, heg⟩
      have hlast : f ∈ frames ++ [f] := List.mem_append_right _ (List.mem_singleton.mpr rfl)
      cases f with
      | history msgs => exact ⟨_, hlast, he⟩
      | message e' =>
          rcases List.mem_append.mp he with hin | hnew
          · exact hold hin
          · exact ⟨_, hlast, hnew⟩
      | welcome device => exact hold he
      | presence seq users => exact hold he

/-- **No message is lost or doubled at a join that hands over**: in every run in which no queue is
full, no message expires, and every step meets `handsOver`, once all calls have returned the receiver
`c` shows every message of the history that is visible to its device exactly once, and nothing
else. -/
theorem join_exact {historyTTL now : LanRoom.Upload.Time}
    (hrun : (machine u).Run (fun d act => Arrivals d act ∧ (quiet d && handsOver c d act) = true)
      (boot historyTTL now) d)
    (hc : d.shared.conns c = some cl) (hmem : c ∈ d.shared.clients)
    (hreturned : ∀ th ∈ d.threads, th.returned = true) (e : Entry) :
    (replay (d.shared.placed c)).count e =
      if e ∈ d.shared.history ∧ e.msg.visibleTo cl.device.id = true then 1 else 0 := by
  have hboot : Joining c (boot historyTTL now) := ⟨fun e he => absurd he (lt_irrefl 0), nofun⟩
  obtain ⟨hreach, hjoin⟩ : Reachable u d ∧ Joining c d := by
    -- the step lemma along the run
    refine hrun.invariant (I := fun d => Reachable u d ∧ Joining c d)
      ⟨⟨historyTTL, now, .refl⟩, hboot⟩ ?_
    rintro c₀ act d₁ ⟨hreach, hjoin⟩ ⟨harrive, hok⟩ hexec
    rw [Bool.and_eq_true, quiet, Bool.and_eq_true] at hok
    obtain ⟨⟨hroomy, hunexpired⟩, hsafe⟩ := hok
    exact ⟨hreach.exec harrive hexec, joining_exec hreach (fun n => hreach.recordedOnce n) hjoin harrive hunexpired
      hroomy hsafe hexec⟩
  by_cases hvisible : e.msg.visibleTo cl.device.id = true
  · obtain ⟨pc, hpc, hphase⟩ := hjoin.phase cl hc hmem
    -- all calls have returned, so nothing is due any more
    have hdue : dueTo c d e = 0 :=
      ThreadPool.sum_map_eq_zero.mpr fun th hth => Thread.due_of_returned (hreturned th hth)
    have hlast := hreturned _ (List.mem_of_getElem? hpc)
    cases pc with
    | registered =>
        have hcount := hphase e hvisible
        rw [hdue, Nat.add_zero] at hcount
        rw [hcount]
        by_cases hin : e ∈ d.shared.history
        · rw [if_pos ⟨hin, hvisible⟩]
          have hpos := List.count_pos_iff.mpr hin
          have hone := (hreach.recordedOnce e.seq).le_one
          have hle : d.shared.history.count e ≤ d.shared.history.countP fun x => x.seq = e.seq :=
            -- an entry of the history is there once, since its number is
            List.countP_mono_left fun x _ hx => decide_eq_true (congrArg Entry.seq (eq_of_beq hx))
          unfold recorded at hone
          omega
        · rw [if_neg fun h => hin h.1]
          exact List.count_eq_zero.mpr hin
    | _ => cases hlast
  · rw [if_neg fun h => hvisible h.2]
    refine List.count_eq_zero.mpr fun hin => hvisible ?_
    -- what is shown was placed in the queue, and only visible messages are
    obtain ⟨f, hf, hef⟩ := mem_replay hin
    rw [Hub.placed_of_conn hc] at hf
    exact (hreach.valid.inv.queue c cl hc f hf e hef).2

/-! ## Overlaps -/

namespace Sample

/-- Thread `0` joins and sends a message to everyone; then thread `3` joins. -/
def joinsLater : List (Act Thread Choice ℕ) :=
  joins ++ sendMessage 2 [0] ++ [arrive 2] ++ go 3 5 ++ broadcastPresence 3 [0, 3]

/-- Threads `0` and `3` have joined. Thread `6` joins while thread `2`, the `ReadPump` of `0`, has
put a message into the history and not delivered it yet, and while thread `5`, the `ReadPump` of
`3`, sends one after the snapshot of thread `6`. -/
def joinsBetween : List (Act Thread Choice ℕ) :=
  joins ++ [arrive 2] ++ go 3 4 ++ broadcastPresence 3 [0, 3] ++ [arrive 3] ++ go 6 1 ++
    [.run 2 (.incoming (hello []))] ++ go 2 1 ++ go 6 3 ++ sendMessage 5 [0, 3, 6] ++ go 6 1 ++
    [iterate 2 [0, 3, 6]] ++ go 2 4 ++ broadcastPresence 6 [0, 3, 6]

end Sample

/-- A device that joins later, and sees the one message exactly once. -/
theorem join_exact_later : ∃ (d : ThreadPool.Config Hub Thread) (cl : Client),
    d.shared.conns 3 = some cl ∧ d.shared.history.length = 1 ∧
      ∀ e, (replay (d.shared.placed 3)).count e =
        if e ∈ d.shared.history ∧ e.msg.visibleTo cl.device.id = true then 1 else 0 := by
  have hrun : ((machine Sample.uuids).execAllIf (fun d act => quiet d && handsOver 3 d act)
      (boot 1000000000 0) Sample.joinsLater).any fun d => (d.shared.conns 3).any fun _ =>
        decide (d.shared.history.length = 1) && decide (3 ∈ d.shared.clients) &&
          d.threads.all Thread.returned := by
    decide +kernel
  obtain ⟨d, hexec, hrun⟩ := (Option.any_eq_true _ _).mp hrun
  obtain ⟨cl, hc, hrun⟩ := (Option.any_eq_true _ _).mp hrun
  simp only [Bool.and_eq_true, decide_eq_true_eq, List.all_eq_true] at hrun
  obtain ⟨⟨hlength, hmem⟩, hreturned⟩ := hrun
  exact ⟨d, cl, hc, hlength,
    join_exact (Sample.run_of_execAllIf (by decide) hexec) hc hmem hreturned⟩

/-- A join during which one message is doubled and another one lost, although no queue is full and no
message expires. -/
theorem join_inexact : ∃ (d : ThreadPool.Config Hub Thread) (cl : Client) (e₁ e₂ : Entry),
    (machine Sample.uuids).Run (fun d act => Arrivals d act ∧ quiet d = true)
        (boot 1000000000 0) d ∧
      d.shared.conns 6 = some cl ∧ 6 ∈ d.shared.clients ∧ (∀ th ∈ d.threads, th.returned = true) ∧
      (e₁ ∈ d.shared.history ∧ e₁.msg.visibleTo cl.device.id = true ∧
        (replay (d.shared.placed 6)).count e₁ = 2) ∧
      e₂ ∈ d.shared.history ∧ e₂.msg.visibleTo cl.device.id = true ∧
        (replay (d.shared.placed 6)).count e₂ = 0 := by
  -- the first message is in the snapshot and delivered after it, the second one is overwritten by
  -- it
  have hrun : ((machine Sample.uuids).execAllIf (fun d _ => quiet d) (boot 1000000000 0)
      Sample.joinsBetween).any fun d => (d.shared.conns 6).any fun cl =>
        decide (6 ∈ d.shared.clients) && d.threads.all Thread.returned &&
          d.shared.history.any (fun e => e.msg.visibleTo cl.device.id &&
            decide ((replay (d.shared.placed 6)).count e = 2)) &&
          d.shared.history.any fun e => e.msg.visibleTo cl.device.id &&
            decide ((replay (d.shared.placed 6)).count e = 0) := by
    decide +kernel
  obtain ⟨d, hexec, hrun⟩ := (Option.any_eq_true _ _).mp hrun
  obtain ⟨cl, hc, hrun⟩ := (Option.any_eq_true _ _).mp hrun
  simp only [Bool.and_eq_true, decide_eq_true_eq, List.all_eq_true, List.any_eq_true] at hrun
  obtain ⟨⟨⟨hmem, hreturned⟩, e₁, h₁, hvisible₁, htwo⟩, e₂, h₂, hvisible₂, hzero⟩ := hrun
  exact ⟨d, cl, e₁, e₂, Sample.run_of_execAllIf (by decide) hexec, hc, hmem, hreturned,
    ⟨h₁, hvisible₁, htwo⟩, h₂, hvisible₂, hzero⟩

end LanRoom.Chat

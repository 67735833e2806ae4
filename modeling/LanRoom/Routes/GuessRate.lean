import LanRoom.Data.FixedWindow
import LanRoom.Routes.Secrecy

/-! # How many wrong PINs a peer can try in a minute

The documentation speaks of `authFailLimit` wrong PINs of one client in a minute. The limiter keeps
one fixed window, which restarts with the first failure after its end, so two windows can meet
inside a minute: nine wrong PINs are compared within one `authFailWindow` (`exceedsLimit_meeting`),
and never more when requests are handled one after the other (`wrongPINs_le`), or just do not
overlap with others of their peer (`wrongPINs_lt`). -/

namespace LanRoom.Routes

open LanRoom.Upload (Time)
open LanRoom.Auth (AuthState AuthRequest AuthPC Peer authStep authFailLimit authFailWindow)
open ThreadPool (Tid Machine Act)
open FixedWindow (since Kept Room)
open Function (update)

variable {cfg : Config} {peer : Peer} {a a' : AuthState} {s s' : Auth.State}
  {c d : ThreadPool.Config Auth.State Thread} {th th' : Thread}

/-! ## What is counted -/

/-- What a peer has done. -/
inductive Attempt
  /-- A wrong PIN of the peer is compared with the room's. -/
  | wrong (time : Time)
  /-- The peer gets a session. -/
  | success (time : Time)
  deriving DecidableEq

/-- The attempts of `peer` seen in an action. -/
def attempts (peer : Peer) (c : ThreadPool.Config Auth.State Thread) :
    Act Thread Unit ℕ → List Attempt
  | .run t _ =>
      match c.threads[t]? with
      | some (.request r (.auth .compare)) =>
          if r.peer = peer ∧ r.wrong c.shared.auth.pin = true then [.wrong c.shared.auth.now] else []
      | some (.request r (.auth (.letIn _))) =>
          if r.peer = peer then [.success c.shared.auth.now] else []
      | _ => []
  | _ => []

/-- A wrong PIN compared at `x` or within one `authFailWindow` after it. -/
def Attempt.wrongIn (x : Time) : Attempt → Bool
  | .wrong t => x ≤ t && t ≤ x + authFailWindow
  | .success _ => false

/-- A wrong PIN compared at `x` or later. -/
def Attempt.wrongFrom (x : Time) : Attempt → Bool
  | .wrong t => x ≤ t
  | .success _ => false

/-- A request of `peer` has passed the check and has not been answered yet. -/
def Thread.busy (peer : Peer) : Thread → Bool
  | .request r (.auth .compare) => r.peer = peer
  | .request r (.auth .recordFail) => r.peer = peer
  | .request r (.auth (.letIn _)) => r.peer = peer
  | _ => false

/-- A request of `peer` has compared a wrong PIN and not recorded it yet. -/
def Thread.recording (peer : Peer) : Thread → Bool
  | .request r (.auth .recordFail) => r.peer = peer
  | _ => false

/-- A request comes to the check only when no other of its peer is busy. -/
def oneAtATime (c : ThreadPool.Config Auth.State Thread) : Act Thread Unit ℕ → Bool
  | .run t _ =>
      match c.threads[t]? with
      | some (.request r (.auth .start)) => c.threads.all fun th => !th.busy r.peer
      | _ => true
  | _ => true

/-- The thread has nothing left to do. -/
def Thread.ended : Thread → Bool
  | .request _ .start => false
  | .request _ (.auth (.done _)) => true
  | .request _ (.auth _) => false
  | .request _ _ => true
  | .prune .ended => true
  | .prune _ => false

/-- A request or a tick comes only when those before have been handled. -/
def sequential (c : ThreadPool.Config Auth.State Thread) : Act Thread Unit ℕ → Bool
  | .spawn _ => c.threads.all Thread.ended
  | _ => true

/-! ## The window of a peer -/

/-- The count and the start of the window of `peer`. -/
def window (a : AuthState) (peer : Peer) : Option (ℕ × Time) :=
  (a.fails peer).map fun f => (f.count, f.start)

/-- The window of `peer` is left alone, or dropped after its end. -/
def Lapses (a a' : AuthState) (peer : Peer) : Prop :=
  a'.fails peer = a.fails peer ∨
    a'.fails peer = none ∧ ∀ f, a.fails peer = some f → authFailWindow < a.now - f.start

/-- The check drops the window of a peer only when it has expired. -/
theorem lapses_tooManyFails (a : AuthState) (p peer : Peer) :
    Lapses a (a.tooManyFails p).1 peer := by
  unfold AuthState.tooManyFails
  split
  · exact .inl rfl
  · rename_i f hf
    split
    · rename_i hexpired
      by_cases hp : peer = p
      · subst hp
        refine .inr ⟨Function.update_self .., fun f' hf' => ?_⟩
        obtain rfl := Option.some.inj (hf.symm.trans hf')
        exact of_decide_eq_true hexpired
      · exact .inl (Function.update_of_ne hp ..)
    · exact .inl rfl

/-- A `prune` may have read the clock some time ago. What had expired by that time has expired
now. -/
theorem lapses_pruneAt {now : Time} (hle : now ≤ a.now) (peer : Peer) :
    Lapses a (pruneAt a now) peer := by
  show (a.fails peer).filter _ = a.fails peer ∨ (a.fails peer).filter _ = none ∧ _
  cases hf : a.fails peer with
  | none => exact .inl rfl
  | some f =>
      by_cases hold : authFailWindow < now - f.start
      · refine .inr ⟨?_, fun f' hf' => ?_⟩
        · have hexpired : ({ a with now }).expired f = true := decide_eq_true hold
          simp [hexpired]
        · obtain rfl := Option.some.inj hf'
          exact lt_of_lt_of_le hold (sub_le_sub_right hle f.start)
      · have hexpired : ({ a with now }).expired f = false := decide_eq_false hold
        exact .inl (by simp [hexpired])

/-- A window that is left alone or dropped after its end still agrees with the log. -/
theorem kept_of_lapses {log : List Time} (hlapse : Lapses a a' peer) (hle : a.now ≤ a'.now)
    (h : Kept authFailWindow authFailLimit a.now (window a peer) log) :
    Kept authFailWindow authFailLimit a'.now (window a' peer) log := by
  have hkept : Kept authFailWindow authFailLimit a.now (window a' peer) log := by
    rcases hlapse with heq | ⟨hnone, hold⟩
    · unfold window
      rw [heq]
      exact h
    · unfold window at h ⊢
      rw [hnone]
      cases hf : a.fails peer with
      | none =>
          rw [hf] at h
          exact h
      | some f =>
          rw [hf] at h
          exact h.drop (hold f hf)
  exact hkept.tick hle

/-- Room in a window is kept when it is left alone or dropped. -/
theorem room_of_lapses (hlapse : Lapses a a' peer) (h : Room authFailLimit (window a peer)) :
    Room authFailLimit (window a' peer) := by
  unfold window at h ⊢
  rcases hlapse with heq | ⟨hnone, -⟩
  · rw [heq]
    exact h
  · intro count start hsome
    rw [hnone] at hsome
    cases hsome

/-- Recording a failure counts the guess. It was compared before the section that records it, hence
the two times. -/
theorem kept_recordFail {recorded : List Time} {g : Time} (hg : g ≤ a.now)
    (hroom : Room authFailLimit (window a peer))
    (h : Kept authFailWindow authFailLimit a.now (window a peer) recorded) :
    Kept authFailWindow authFailLimit a.now (window (a.recordFail peer) peer) (recorded ++ [g]) := by
  have hwindow : window (a.recordFail peer) peer =
      some ((a.currentWindow peer).count + 1, (a.currentWindow peer).start) := by
    have hfails : (a.recordFail peer).fails peer =
        some { a.currentWindow peer with count := (a.currentWindow peer).count + 1 } :=
      Function.update_self ..
    unfold window
    rw [hfails]
    rfl
  rw [hwindow]
  cases hf : a.fails peer with
  | none =>
      have hcurrent : a.currentWindow peer = ⟨0, a.now⟩ := by simp [AuthState.currentWindow, hf]
      rw [hcurrent]
      unfold window at h
      rw [hf] at h
      exact h.record_new (by decide) hg
  | some f =>
      have hsome : window a peer = some (f.count, f.start) := by simp [window, hf]
      rw [hsome] at h
      -- `recordFail` opens a new window when the old one is empty or over
      by_cases hnew : f.count = 0 ∨ a.expired f = true
      · have hcurrent : a.currentWindow peer = ⟨0, a.now⟩ := by
          simp [AuthState.currentWindow, hf, hnew]
        rw [hcurrent]
        rcases hnew with hzero | hexpired
        · -- an open window never holds zero failures
          obtain ⟨-, -, before, first, rest, -, hcount, -⟩ := h.opened f.count f.start rfl
          omega
        · exact (h.drop (of_decide_eq_true hexpired)).record_new (by decide) hg
      · -- within the window the failure is counted
        have hcurrent : a.currentWindow peer = f := by simp [AuthState.currentWindow, hf, hnew]
        rw [hcurrent]
        exact h.record_same (hroom f.count f.start hsome) hg

/-! ## The invariant -/

/-- The wrong PINs compared in one `authFailWindow` without a success stay below twice the limit. -/
def Below (log : List Attempt) : Prop :=
  ∀ x, (∀ t, Attempt.success t ∈ log → ¬(x ≤ t ∧ t ≤ x + authFailWindow)) →
    log.countP (Attempt.wrongIn x) < 2 * authFailLimit

/-- The **invariant** for `peer`: `recorded` are the wrong PINs counted by the limiter since the last
success, `pending` the one that is about to be. -/
structure Paced (peer : Peer) (c : ThreadPool.Config Auth.State Thread) (log : List Attempt)
    (recorded pending : List Time) : Prop where
  below : Below log
  /-- From any time after the last success on, the log has the wrong PINs counted or pending. -/
  account : ∀ x, (∀ t, Attempt.success t ∈ log → t < x) →
    log.countP (Attempt.wrongFrom x) = since x (recorded ++ pending)
  /-- Nothing has happened in the future. -/
  past : ∀ t, Attempt.success t ∈ log ∨ Attempt.wrong t ∈ log → t ≤ c.shared.auth.now
  pending_past : ∀ g ∈ pending, g ≤ c.shared.auth.now
  pending_length : pending.length = c.threads.countP (Thread.recording peer)
  kept : Kept authFailWindow authFailLimit c.shared.auth.now (window c.shared.auth peer) recorded
  /-- A busy request has found room in the window. -/
  room : ∀ th ∈ c.threads, th.busy peer = true → Room authFailLimit (window c.shared.auth peer)
  one : c.threads.countP (Thread.busy peer) ≤ 1

variable {pin : GoString} {now : Time} {log : List Attempt} {recorded pending : List Time}

/-- A request that records a failure is busy with a wrong PIN. -/
theorem Thread.busy_of_recording (h : th.recording peer = true) : th.busy peer = true := by
  unfold Thread.recording at h
  split at h
  · exact h
  · cases h

/-- An action in which the peer makes no attempt: no request of the peer becomes busy, or the only
one that does has found room. -/
theorem Paced.quiet (h : Paced peer c log recorded pending)
    (hnow : c.shared.auth.now ≤ d.shared.auth.now) (hlapse : Lapses c.shared.auth d.shared.auth peer)
    (hrecording : d.threads.countP (Thread.recording peer) =
      c.threads.countP (Thread.recording peer))
    (hbusies : d.threads.countP (Thread.busy peer) ≤ c.threads.countP (Thread.busy peer) ∨
      d.threads.countP (Thread.busy peer) ≤ 1 ∧
        Room authFailLimit (window d.shared.auth peer)) : Paced peer d log recorded pending where
  below := h.below
  account := h.account
  past t ht := (h.past t ht).trans hnow
  pending_past g hg := (h.pending_past g hg).trans hnow
  pending_length := h.pending_length.trans hrecording.symm
  kept := kept_of_lapses hlapse hnow h.kept
  room th hth hbusy := by
    rcases hbusies with hle | ⟨-, hroom⟩
    · have hpos : 0 < d.threads.countP (Thread.busy peer) :=
        List.countP_pos_iff.mpr ⟨th, hth, hbusy⟩
      obtain ⟨th', hth', hbusy'⟩ := List.countP_pos_iff.mp (hpos.trans_le hle)
      exact room_of_lapses hlapse (h.room th' hth' hbusy')
    · exact hroom
  one := by
    rcases hbusies with hle | ⟨hone, -⟩
    · exact hle.trans h.one
    · exact hone

/-- A wrong PIN of the peer is compared: the limiter will count it, and one interval more has it. -/
theorem Paced.guess (h : Paced peer c log recorded pending) {t : Tid}
    (hth : c.threads[t]? = some th) (hbusy : th.busy peer = true)
    (hnow : d.shared.auth = c.shared.auth)
    (hrecording : d.threads.countP (Thread.recording peer) =
      c.threads.countP (Thread.recording peer) + 1)
    (hbusies : d.threads.countP (Thread.busy peer) = c.threads.countP (Thread.busy peer)) :
    Paced peer d (log ++ [.wrong c.shared.auth.now]) recorded [c.shared.auth.now] := by
  have hroom := h.room th (List.mem_of_getElem? hth) hbusy
  have hmono : d.threads.countP (Thread.recording peer) ≤ d.threads.countP (Thread.busy peer) :=
    List.countP_mono_left fun th _ hth => Thread.busy_of_recording hth
  have hone := h.one
  -- one request at a time: no other wrong PIN of this peer is waiting for its `recordFail`
  have hpending : pending = [] := by
    rw [← List.length_eq_zero_iff, h.pending_length]
    omega
  subst hpending
  have haccount := h.account
  simp only [List.append_nil] at haccount
  constructor
  · -- the guess lies within the minute from `x`, so all those since `x` are counted, and there was
    -- still room
    intro x hx
    have hold := h.below x fun t ht => hx t (List.mem_append_left _ ht)
    rw [List.countP_append, List.countP_singleton]
    split
    · rename_i hin
      obtain ⟨hfrom, hto⟩ : x ≤ c.shared.auth.now ∧ c.shared.auth.now ≤ x + authFailWindow := by
        simpa [Attempt.wrongIn] using hin
      have hbefore : ∀ t, Attempt.success t ∈ log → t < x := by
        intro t ht
        by_contra hlate
        exact hx t (List.mem_append_left _ ht)
          ⟨not_lt.mp hlate, (h.past t (.inl ht)).trans hto⟩
      have hle : log.countP (Attempt.wrongIn x) ≤ log.countP (Attempt.wrongFrom x) := by
        apply List.countP_mono_left
        intro e _ he
        cases e with
        | wrong t => exact (Bool.and_eq_true _ _ |>.mp he).1
        | success t => cases he
      have hfew := h.kept.since_lt hroom (by decide) (sub_le_iff_le_add.mpr hto)
      rw [haccount x hbefore] at hle
      omega
    · exact hold
  · intro x hx
    have hold := haccount x fun t ht => hx t (List.mem_append_left _ ht)
    rw [List.countP_append, hold, FixedWindow.since_append, FixedWindow.since_singleton,
      List.countP_singleton]
    simp [Attempt.wrongFrom]
  · intro t ht
    rw [hnow]
    simp only [List.mem_append, List.mem_singleton, reduceCtorEq, or_false,
      Attempt.wrong.injEq] at ht
    rcases ht with ht | ht | rfl
    · exact h.past t (.inl ht)
    · exact h.past t (.inr ht)
    · exact le_refl _
  · intro g hg
    rw [hnow, List.mem_singleton.mp hg]
  · rw [hrecording, ← h.pending_length]
    rfl
  · -- the window is not touched before `recordFail`
    rw [hnow]
    exact h.kept
  · intro th' _ _
    rw [hnow]
    exact hroom
  · rw [hbusies]
    exact h.one

/-- The limiter counts the wrong PIN. What was pending is now on the books of the limiter. -/
theorem Paced.record (h : Paced peer c log recorded pending) {t : Tid}
    (hth : c.threads[t]? = some th) (hself : th.recording peer = true)
    (hd : d.shared.auth = c.shared.auth.recordFail peer)
    (hrecording : d.threads.countP (Thread.recording peer) + 1 =
      c.threads.countP (Thread.recording peer))
    (hbusies : d.threads.countP (Thread.busy peer) + 1 = c.threads.countP (Thread.busy peer)) :
    Paced peer d log (recorded ++ pending) [] := by
  have hroom := h.room th (List.mem_of_getElem? hth) (Thread.busy_of_recording hself)
  have hmono : c.threads.countP (Thread.recording peer) ≤ c.threads.countP (Thread.busy peer) :=
    List.countP_mono_left fun th _ hth => Thread.busy_of_recording hth
  have hone := h.one
  have hlength := h.pending_length
  -- the one wrong PIN that is waiting is the one that is recorded
  obtain ⟨g, rfl⟩ : ∃ g, pending = [g] := List.length_eq_one_iff.mp (by omega)
  have hnow : d.shared.auth.now = c.shared.auth.now := by
    rw [hd]
    rfl
  constructor
  · exact h.below
  · intro x hx
    rw [List.append_nil]
    exact h.account x hx
  · intro t ht
    rw [hnow]
    exact h.past t ht
  · exact fun g hg => absurd hg List.not_mem_nil
  · rw [List.length_singleton] at hlength
    rw [List.length_nil]
    omega
  · rw [hnow, hd]
    -- the failure is dated by the guess, which is not after the section that records it
    exact kept_recordFail (h.pending_past g List.mem_cons_self) hroom h.kept
  · intro th' hth' hbusy'
    have hpos : 0 < d.threads.countP (Thread.busy peer) :=
      List.countP_pos_iff.mpr ⟨th', hth', hbusy'⟩
    omega
  · omega

/-- The peer is let in. Its window is dropped, and counting starts from nothing. -/
theorem Paced.success (h : Paced peer c log recorded pending)
    (hnow : d.shared.auth.now = c.shared.auth.now) (hnone : d.shared.auth.fails peer = none)
    (hrecording : d.threads.countP (Thread.recording peer) ≤
      d.threads.countP (Thread.busy peer))
    (hbusies : d.threads.countP (Thread.busy peer) + 1 = c.threads.countP (Thread.busy peer)) :
    Paced peer d (log ++ [.success c.shared.auth.now]) [] [] := by
  have hone := h.one
  have hwindow : window d.shared.auth peer = none := by
    unfold window
    rw [hnone]
    rfl
  constructor
  · intro x hx
    have hold := h.below x fun t ht => hx t (List.mem_append_left _ ht)
    rw [List.countP_append, List.countP_singleton]
    exact hold
  · -- after a success the accounts start anew, and every guess of the log lies before it
    intro x hx
    have hlate : c.shared.auth.now < x :=
      hx _ (List.mem_append_right _ (List.mem_singleton.mpr rfl))
    rw [List.append_nil]
    apply List.countP_eq_zero.mpr
    intro e he
    cases e with
    | wrong t =>
        have ht : Attempt.wrong t ∈ log := by simpa using he
        have hpast := h.past t (.inr ht)
        simpa [Attempt.wrongFrom] using hpast.trans_lt hlate
    | success t => exact Bool.false_ne_true
  · intro t ht
    rw [hnow]
    simp only [List.mem_append, List.mem_singleton, reduceCtorEq, or_false,
      Attempt.success.injEq] at ht
    rcases ht with (ht | rfl) | ht
    · exact h.past t (.inl ht)
    · exact le_refl _
    · exact h.past t (.inr ht)
  · exact fun g hg => absurd hg List.not_mem_nil
  · rw [List.length_nil]
    omega
  · -- `clearFails` has removed the window
    rw [hwindow]
    exact .empty (by decide)
  · intro th' _ _
    rw [hwindow]
    rintro count start ⟨⟩
  · omega

/-! ## Sections -/

/-- A `prune` has read the clock before. -/
def Stamped (c : ThreadPool.Config Auth.State Thread) : Prop :=
  ∀ t, Thread.prune (.drop t) ∈ c.threads → t ≤ c.shared.auth.now

/-- A request that passes the check has found room. It is room for one more failure in the window of
the peer. -/
theorem room_of_passes {r : AuthRequest} (h : Auth.passes a r = true) :
    Room authFailLimit (window (a.tooManyFails r.peer).1 r.peer) := by
  have hfew : (a.tooManyFails r.peer).2 = false := by
    unfold Auth.passes at h
    simpa using (Bool.and_eq_true _ _ |>.mp h).2
  intro count start hsome
  unfold AuthState.tooManyFails at hfew hsome
  cases hf : a.fails r.peer with
  | none => simp [window, hf] at hsome
  | some f =>
      simp only [hf] at hfew hsome
      split at hfew
      · rename_i hexpired
        simp [hexpired, window, AuthState.setFails] at hsome
      · rename_i hexpired
        simp only [hexpired, Bool.false_eq_true, if_false, window, hf, Option.map_some,
          Option.some.injEq, Prod.mk.injEq] at hsome
        have hcount := of_decide_eq_false hfew
        omega

/-- Finding the handler of a request changes nothing, and makes nobody busy. -/
theorem idle_of_start (peer : Peer) {r : Request} {pc : RequestPC}
    (h : requestStep cfg s r .start = some (s', pc)) :
    s' = s ∧ (Thread.request r pc).busy peer = false ∧
      (Thread.request r pc).recording peer = false := by
  simp only [requestStep] at h
  split at h
  · rename_i reg hmux
    obtain ⟨rfl, rfl⟩ := Prod.mk.inj (Option.some.inj h)
    refine ⟨rfl, ?_⟩
    unfold dispatch
    split
    · exact ⟨rfl, rfl⟩
    · split
      · exact ⟨rfl, rfl⟩
      · exact ⟨rfl, rfl⟩
      · exact ⟨rfl, rfl⟩
  · obtain ⟨rfl, rfl⟩ := Prod.mk.inj (Option.some.inj h)
    exact ⟨rfl, rfl, rfl⟩

/-- The check does not move the clock. All times in one section are readings of the same clock. -/
theorem now_tooManyFails {p : Peer} : (a.tooManyFails p).1.now = a.now := by
  unfold AuthState.tooManyFails
  split
  · rfl
  · split <;> rfl

/-- The window of another peer is left alone. So only sections of requests from the peer need to be
looked at. -/
theorem lapses_of_ne {p : Peer} (hne : p ≠ peer) (f : Option Auth.FailWindow) :
    Lapses a (a.setFails p f) peer :=
  .inl (Function.update_of_ne (Ne.symm hne) ..)

/-- One section has moved a thread from `th` to `th'`. -/
structure Moved (c d : ThreadPool.Config Auth.State Thread) (t : Tid) (th th' : Thread) : Prop where
  before : c.threads[t]? = some th
  count : ∀ q : Thread → Bool, d.threads.countP q + (if q th then 1 else 0) =
    c.threads.countP q + (if q th' then 1 else 0)

/-- A `run` action is a section of one thread, and the others stay where they are. -/
theorem Moved.of_exec {t : Tid} {k : Unit} (h : (machine cfg).exec c (.run t k) = some d) :
    ∃ th th', Moved c d t th th' ∧ th.step cfg c.shared = some (d.shared, th') := by
  obtain ⟨th, s', th', fs, hth, hstep, rfl⟩ := Machine.exec_run_iff _ |>.mp h
  obtain ⟨x, hx, heq⟩ := Option.map_eq_some_iff.mp hstep
  cases heq
  refine ⟨th, x.2, ⟨hth, fun q => ?_⟩, hx⟩
  obtain ⟨th₁, s₁, th₁', fs₁, hth₁, hstep₁, -, hq⟩ := Machine.countP_of_run q h
  obtain rfl := Option.some.inj (hth.symm.trans hth₁)
  rw [hstep] at hstep₁
  cases hstep₁
  simpa using hq

/-- A section in which the peer makes no attempt and no request of it becomes busy. -/
theorem Paced.still {t : Tid} (h : Paced peer c log recorded pending) (hmoved : Moved c d t th th')
    (hnow : d.shared.auth.now = c.shared.auth.now) (hlapse : Lapses c.shared.auth d.shared.auth peer)
    (hsame : th.recording peer = th'.recording peer)
    (hless : th'.busy peer = true → th.busy peer = true) : Paced peer d log recorded pending := by
  have hrecording := hmoved.count (Thread.recording peer)
  have hbusies := hmoved.count (Thread.busy peer)
  rw [hsame] at hrecording
  refine h.quiet (le_of_eq hnow.symm) hlapse (Nat.add_right_cancel hrecording) (.inl ?_)
  cases hb : th'.busy peer with
  | true =>
      rw [hb, hless hb] at hbusies
      omega
  | false =>
      rw [hb] at hbusies
      simp only [Bool.false_eq_true, if_false] at hbusies
      omega

/-- A section of `handleAuth`. There is one case for each outcome of a section. -/
theorem paced_section {t : Tid} {k : Unit} {r : Request} {pc pc' : AuthPC}
    (h : Paced peer c log recorded pending)
    (hmoved : Moved c d t (.request r (.auth pc)) (.request r (.auth pc')))
    (hseq : oneAtATime c (.run t k) = true)
    (hstep : authStep c.shared r.toAuthRequest pc = some (d.shared, pc')) :
    ∃ recorded' pending',
      Paced peer d (log ++ attempts peer c (.run t k)) recorded' pending' := by
  have hth := hmoved.before
  have hrecording := hmoved.count (Thread.recording peer)
  have hbusies := hmoved.count (Thread.busy peer)
  generalize hd : d.shared = s' at hstep
  cases Auth.Section.of_step hstep with
  | answered =>
      refine ⟨recorded, pending, ?_⟩
      simp only [attempts, hth, List.append_nil]
      exact h.still hmoved (by rw [hd]) (.inl (by rw [hd])) rfl Bool.noConfusion
  | refused =>
      refine ⟨recorded, pending, ?_⟩
      simp only [attempts, hth, List.append_nil]
      refine h.still hmoved ?_ ?_ rfl Bool.noConfusion
      · rw [hd]
        exact now_tooManyFails
      · rw [hd]
        exact lapses_tooManyFails ..
  | passed hpass =>
      refine ⟨recorded, pending, ?_⟩
      simp only [attempts, hth, List.append_nil]
      have hlapse : Lapses c.shared.auth d.shared.auth peer := by
        rw [hd]
        exact lapses_tooManyFails ..
      have hnow : d.shared.auth.now = c.shared.auth.now := by
        rw [hd]
        exact now_tooManyFails
      by_cases hpeer : r.peer = peer
      · subst hpeer
        -- the only busy request of its peer, which has found room
        have hnone : c.threads.countP (Thread.busy r.peer) = 0 := by
          apply List.countP_eq_zero.mpr
          simpa [oneAtATime, hth] using hseq
        refine h.quiet (le_of_eq hnow.symm) hlapse ?_ (.inr ⟨?_, ?_⟩)
        · simpa [Thread.recording] using hrecording
        · rw [hnone] at hbusies
          simp only [Thread.busy, Bool.false_eq_true, if_false, decide_true, if_true] at hbusies
          omega
        · rw [hd]
          exact room_of_passes hpass
      · refine h.still hmoved hnow hlapse rfl fun hbusy => ?_
        exact absurd (of_decide_eq_true hbusy) hpeer
  | ended hright =>
      refine ⟨recorded, pending, ?_⟩
      simp only [attempts, hth, hright, Bool.false_eq_true, and_false, if_false, List.append_nil]
      exact h.still hmoved (by rw [hd]) (.inl (by rw [hd])) rfl Bool.noConfusion
  | wrong hwrong =>
      by_cases hpeer : r.peer = peer
      · refine ⟨recorded, [c.shared.auth.now], ?_⟩
        simp only [attempts, hth, hpeer, hwrong, and_self, if_true]
        refine h.guess hth (decide_eq_true hpeer) (by rw [hd]; rfl) ?_ ?_
        · simpa [Thread.recording, hpeer] using hrecording
        · simpa [Thread.busy, hpeer] using hbusies
      · refine ⟨recorded, pending, ?_⟩
        simp only [attempts, hth, hpeer, false_and, if_false, List.append_nil]
        refine h.still hmoved (by rw [hd]; rfl) (.inl (by rw [hd]; rfl)) ?_ id
        exact (decide_eq_false hpeer).symm
  | right hright =>
      refine ⟨recorded, pending, ?_⟩
      simp only [attempts, hth, hright, Bool.false_eq_true, and_false, if_false, List.append_nil]
      exact h.still hmoved (by rw [hd]) (.inl (by rw [hd])) rfl id
  | recorded =>
      simp only [attempts, hth, List.append_nil]
      by_cases hpeer : r.peer = peer
      · subst hpeer
        refine ⟨_, [], h.record hth (decide_eq_true rfl) (by rw [hd]; rfl) ?_ ?_⟩
        · simpa [Thread.recording] using hrecording
        · simpa [Thread.busy] using hbusies
      · refine ⟨recorded, pending, h.still hmoved (by rw [hd]; rfl) ?_ ?_ Bool.noConfusion⟩
        · rw [hd]
          exact lapses_of_ne hpeer _
        · exact decide_eq_false hpeer
  | @admitted token ans =>
      by_cases hpeer : r.peer = peer
      · subst hpeer
        refine ⟨[], [], ?_⟩
        simp only [attempts, hth, if_true]
        refine h.success (by rw [hd]; rfl) ?_ ?_ ?_
        · rw [hd]
          exact Function.update_self ..
        · exact List.countP_mono_left fun th _ hth => Thread.busy_of_recording hth
        · simpa [Thread.busy] using hbusies
      · refine ⟨recorded, pending, ?_⟩
        simp only [attempts, hth, hpeer, if_false, List.append_nil]
        refine h.still hmoved (by rw [hd]; rfl) ?_ rfl Bool.noConfusion
        rw [hd]
        exact lapses_of_ne (a := c.shared.auth.setSession token _) hpeer none

/-- **The step theorem for sections**: every section of a run in which requests come one at a time
keeps the pace. The sections of other handlers and of other peers leave the window of the peer
alone. -/
theorem paced_run {t : Tid} {k : Unit} (hseq : oneAtATime c (.run t k) = true) (hstamp : Stamped c)
    (hexec : (machine cfg).exec c (.run t k) = some d) (h : Paced peer c log recorded pending) :
    ∃ recorded' pending',
      Paced peer d (log ++ attempts peer c (.run t k)) recorded' pending' := by
  obtain ⟨th, th', hmoved, hstep⟩ := Moved.of_exec hexec
  have hth := hmoved.before
  cases th with
  | prune pc =>
      refine ⟨recorded, pending, ?_⟩
      simp only [attempts, hth, List.append_nil]
      cases pc with
      | start =>
          obtain ⟨hd, rfl⟩ := Prod.mk.inj (Option.some.inj hstep)
          exact h.still hmoved (by rw [← hd]) (.inl (by rw [← hd])) rfl id
      -- `prune` drops the windows that were over at the time it read, which is not after the
      -- present
      | drop now =>
          obtain ⟨hd, rfl⟩ := Prod.mk.inj (Option.some.inj hstep)
          refine h.still hmoved (by rw [← hd]; rfl) ?_ rfl id
          rw [← hd]
          exact lapses_pruneAt (hstamp now (List.mem_of_getElem? hth)) peer
      | ended => cases hstep
  | request r pc =>
      obtain ⟨⟨s₁, pc₁⟩, hx, heq⟩ := Option.map_eq_some_iff.mp hstep
      obtain ⟨rfl, rfl⟩ := Prod.mk.inj heq
      cases pc with
      | start =>
          refine ⟨recorded, pending, ?_⟩
          simp only [attempts, hth, List.append_nil]
          obtain ⟨hd, hbusy, hrecording⟩ := idle_of_start peer hx
          refine h.still hmoved (by rw [hd]) (.inl (by rw [hd])) hrecording.symm fun hb => ?_
          exact absurd (hbusy.symm.trans hb) Bool.false_ne_true
      | auth pc =>
          obtain ⟨⟨s₂, pc₂⟩, hsection, heq⟩ := Option.map_eq_some_iff.mp hx
          obtain ⟨hd, rfl⟩ := Prod.mk.inj heq
          -- the sections of `handleAuth`, the only ones that try a PIN
          exact paced_section h hmoved hseq (hd ▸ hsection)
      | inner h => cases hx
      | info resp => cases hx
      | refused a => cases hx
      | unmatched => cases hx

/-- A `prune` that is about to drop has just read the clock. The two sections of a tick are the
reading and the dropping. -/
theorem stamp_of_pruneStep {pc : PrunePC} {time : Time}
    (h : pruneStep s pc = some (s', .drop time)) : time = s.auth.now := by
  cases pc with
  | start =>
      cases h
      rfl
  | drop now => cases h
  | ended => cases h

/-- No `prune` has read a clock that is ahead. A reading is made from the clock, and the clock never
goes back. -/
theorem stamped_exec {act : Act Thread Unit ℕ} (harrive : Arrivals c act)
    (hexec : (machine cfg).exec c act = some d) (h : Stamped c) : Stamped d := by
  intro time hmem
  have hle := now_le_of_run (.tail .refl harrive hexec)
  obtain ⟨t, ht⟩ := List.mem_iff_getElem?.mp hmem
  rcases Machine.thread_of_exec _ hexec ht with hold | rfl | ⟨k, th, fs, rfl, -, hstep⟩ |
    ⟨u, k, th, th₁, fs, rfl, -, hstep, hnew⟩
  · exact (h time (List.mem_of_getElem? hold)).trans hle
  · rcases harrive _ rfl with ⟨r, hr⟩ | hp
    · cases hr
    · cases hp
  · obtain ⟨⟨s₁, th₁⟩, hx, heq⟩ := Option.map_eq_some_iff.mp hstep
    obtain ⟨-, rfl, -⟩ : s₁ = d.shared ∧ th₁ = .prune (.drop time) ∧ [] = fs := by
      simpa using heq
    cases th with
    | request r pc =>
        obtain ⟨y, -, hy⟩ := Option.map_eq_some_iff.mp hx
        exact absurd (Prod.mk.inj hy).2 Thread.noConfusion
    -- the time a `prune` thread holds is the one of the section in which it read it
    | prune pc =>
        obtain ⟨⟨s₂, pc₂⟩, hy, heq⟩ := Option.map_eq_some_iff.mp hx
        obtain rfl : pc₂ = .drop time := Thread.prune.inj (Prod.mk.inj heq).2
        rw [stamp_of_pruneStep hy]
        exact hle
  · obtain ⟨x, -, heq⟩ := Option.map_eq_some_iff.mp hstep
    obtain rfl : [] = fs := (Prod.mk.inj (Prod.mk.inj heq).2).2
    cases hnew

/-- **The step theorem**: one action keeps the pace. Each kind of thread that can move has a lemma
of its own above. -/
theorem paced_exec {act : Act Thread Unit ℕ} (harrive : Arrivals c act)
    (hseq : oneAtATime c act = true) (hstamp : Stamped c)
    (hexec : (machine cfg).exec c act = some d) (h : Paced peer c log recorded pending) :
    ∃ recorded' pending', Paced peer d (log ++ attempts peer c act) recorded' pending' := by
  cases act with
  | run t k => exact paced_run hseq hstamp hexec h
  -- time passes
  | env e =>
      have hnow := now_le_of_run (.tail .refl harrive hexec)
      obtain rfl := Option.some.inj hexec
      refine ⟨recorded, pending, ?_⟩
      simp only [attempts, List.append_nil]
      exact h.quiet hnow (.inl rfl) rfl (.inl (le_refl _))
  -- a thread that arrives has read nothing of the request yet
  | spawn th =>
      obtain rfl := Option.some.inj hexec
      have hnew : th.busy peer = false ∧ th.recording peer = false := by
        rcases harrive th rfl with ⟨r, rfl⟩ | rfl
        · exact ⟨rfl, rfl⟩
        · exact ⟨rfl, rfl⟩
      refine ⟨recorded, pending, ?_⟩
      simp only [attempts, List.append_nil]
      refine h.quiet (le_refl _) (.inl rfl) ?_ (.inl ?_)
      · simp [List.countP_append, hnew.2]
      · simp [List.countP_append, hnew.1]

/-- A logged run is paced. The induction is on the run, with the log that it has produced so far. -/
theorem paced_of_logged
    (hrun : (machine cfg).Logged (fun c act => Arrivals c act ∧ oneAtATime c act = true)
      (attempts peer) (boot pin now) c log) :
    Stamped c ∧ ∃ recorded pending, Paced peer c log recorded pending := by
  induction hrun with
  | refl =>
      refine ⟨fun t ht => absurd ht List.not_mem_nil, [], [], ?_⟩
      constructor
      · intro x _
        exact Nat.succ_pos 9
      · intro x _
        rfl
      · rintro t (ht | ht)
        · exact absurd ht List.not_mem_nil
        · exact absurd ht List.not_mem_nil
      · exact fun g hg => absurd hg List.not_mem_nil
      · rfl
      · exact .empty (by decide)
      · exact fun th hth => absurd hth List.not_mem_nil
      · exact Nat.zero_le 1
  | tail hrun hok hexec ih =>
      obtain ⟨hstamp, recorded, pending, hpaced⟩ := ih
      exact ⟨stamped_exec hok.1 hexec hstamp, paced_exec hok.1 hok.2 hstamp hexec hpaced⟩

/-- **The guessing rate**: along every run in which the requests of a peer do not overlap between
the check and the answer, fewer than `2 * authFailLimit` wrong PINs of the peer are compared in an
interval of one `authFailWindow` in which the peer gets no session. -/
theorem wrongPINs_lt
    (hrun : (machine cfg).Logged (fun c act => Arrivals c act ∧ oneAtATime c act = true)
      (attempts peer) (boot pin now) c log)
    (x : Time) (hfail : ∀ t, Attempt.success t ∈ log → ¬(x ≤ t ∧ t ≤ x + authFailWindow)) :
    log.countP (Attempt.wrongIn x) < 2 * authFailLimit := by
  obtain ⟨-, recorded, pending, hpaced⟩ := paced_of_logged hrun
  exact hpaced.below x hfail

/-! ## Sequential runs -/

/-- A thread that has ended performs no section. It stays in the configuration as the record of its
answer. -/
theorem Thread.not_ended_of_step (h : th.step cfg s = some (s', th')) : th.ended = false := by
  cases th with
  | prune pc =>
      cases pc with
      | ended => cases h
      | _ => rfl
  | request r pc =>
      cases pc with
      | start => rfl
      | auth pc =>
          cases pc with
          | done ans => cases h
          | _ => rfl
      | _ => cases h

/-- A request that has been answered is not busy. It does not stand in the way of the next one. -/
theorem Thread.not_busy_of_ended (h : th.ended = true) : th.busy peer = false := by
  unfold Thread.busy
  split
  · cases h
  · cases h
  · cases h
  · rfl

/-- One for a thread that has something left to do. -/
def Thread.live (th : Thread) : ℕ := if th.ended then 0 else 1

/-- In a sequential run at most one thread has something left to do. -/
theorem single_exec {act : Act Thread Unit ℕ} (hseq : sequential c act = true)
    (hexec : (machine cfg).exec c act = some d) (h : (c.threads.map Thread.live).sum ≤ 1) :
    (d.threads.map Thread.live).sum ≤ 1 := by
  cases act with
  | spawn th =>
      obtain rfl := Option.some.inj hexec
      -- a request may arrive only when all the others have ended
      have hnone : (c.threads.map Thread.live).sum = 0 := by
        apply ThreadPool.sum_map_eq_zero.mpr
        intro th' hth'
        exact if_pos (List.all_eq_true.mp hseq th' hth')
      have hone : th.live ≤ 1 := by
        unfold Thread.live
        split <;> decide
      show ((c.threads ++ [th]).map Thread.live).sum ≤ 1
      rw [List.map_append, List.sum_append, hnone, Nat.zero_add]
      exact hone
  | env e =>
      obtain rfl := Option.some.inj hexec
      exact h
  | run t k =>
      obtain ⟨th, s', th', fs, hth, hstep, rfl⟩ := Machine.exec_run_iff _ |>.mp hexec
      obtain ⟨x, hx, heq⟩ := Option.map_eq_some_iff.mp hstep
      cases heq
      have hsum := ThreadPool.sum_set_append Thread.live hth x.2 []
      have hlive : th.live = 1 := if_neg (by simp [Thread.not_ended_of_step hx])
      have hone : x.2.live ≤ 1 := by
        unfold Thread.live
        split <;> decide
      rw [List.map_nil, List.sum_nil] at hsum
      show ((c.threads.set t x.2 ++ []).map Thread.live).sum ≤ 1
      omega

/-- Sequential requests come to the check one at a time. A client that waits for each answer
satisfies the condition by itself. -/
theorem oneAtATime_of_single {act : Act Thread Unit ℕ}
    (h : (c.threads.map Thread.live).sum ≤ 1) : oneAtATime c act = true := by
  cases act with
  | spawn th => rfl
  | env e => rfl
  | run t k =>
      simp only [oneAtATime]
      split
      · rename_i r hth
        apply List.all_eq_true.mpr
        intro th hmem
        rw [Bool.not_eq_true']
        obtain ⟨u, hu⟩ := List.mem_iff_getElem?.mp hmem
        by_cases htu : t = u
        · subst htu
          obtain rfl := Option.some.inj (hth.symm.trans hu)
          rfl
        · by_contra hbusy
          have hlive : th.live = 1 :=
            if_neg fun hended => hbusy (Thread.not_busy_of_ended hended)
          -- two threads with something left to do
          have htwo := ThreadPool.add_le_sum_map Thread.live htu hth hu
          have hself : (Thread.request r (.auth .start)).live = 1 := rfl
          omega
      · rfl

/-- **The guessing rate of sequential requests**: fewer than `2 * authFailLimit` wrong PINs of a
peer are compared in an interval of one `authFailWindow` in which the peer gets no session. -/
theorem wrongPINs_le (cfg : Config) {pin : GoString} {now : Time} (peer : Peer)
    (hrun : (machine cfg).Logged (fun c act => Arrivals c act ∧ sequential c act = true)
      (attempts peer) (boot pin now) c log)
    (x : Time) (hfail : ∀ t, Attempt.success t ∈ log → ¬(x ≤ t ∧ t ≤ x + authFailWindow)) :
    log.countP (Attempt.wrongIn x) ≤ 2 * authFailLimit - 1 := by
  have hrun' : (c.threads.map Thread.live).sum ≤ 1 ∧
      (machine cfg).Logged (fun c act => Arrivals c act ∧ oneAtATime c act = true)
        (attempts peer) (boot pin now) c log := by
    clear hfail
    induction hrun with
    | refl => exact ⟨Nat.zero_le 1, .refl⟩
    | tail hrun hok hexec ih =>
        exact ⟨single_exec hok.2 hexec ih.1, ih.2.tail ⟨hok.1, oneAtATime_of_single ih.1⟩ hexec⟩
  exact Nat.le_sub_one_of_lt (wrongPINs_lt hrun'.2 x hfail)

/-! ## Two windows meet -/

namespace Sample

/-- A guess at the PIN `1`. -/
def guess : Thread :=
  .request { method := .post, peer := [0x61], pin := some [0x30], path := authPath } .start

/-- The guess that arrives as thread `t` is handled. -/
def handled (t : Tid) : List (Act Thread Unit ℕ) :=
  [.spawn guess, .run t (), .run t (), .run t (), .run t ()]

/-- One guess opens a window; four more come when it is one `authFailWindow` old, and five more
right after its end. -/
def meeting : List (Act Thread Unit ℕ) :=
  handled 0 ++ [.env 60000000000] ++ (List.range 4).flatMap (fun i => handled (i + 1)) ++
    [.env 1] ++ (List.range 5).flatMap fun i => handled (i + 5)

/-- The run and the log of the guesser's attempts. -/
def logged : Option (ThreadPool.Config Auth.State Thread × List Attempt) :=
  (machine room).logAll sequential (attempts [0x61]) (boot [0x31] 0) [] meeting

/-- Everything that arrives in the run has just arrived. It is checked on the list of actions. -/
theorem arrivals_meeting (c : ThreadPool.Config Auth.State Thread) (act : Act Thread Unit ℕ)
    (hact : act ∈ meeting) : Arrivals c act := by
  rintro th rfl
  have hhandled : ∀ t, Act.spawn th ∈ handled t → th = guess := by
    intro t ht
    simpa [handled] using ht
  have hth : th = guess := by
    simp only [meeting, List.mem_append, List.mem_flatMap, List.mem_singleton, reduceCtorEq,
      or_false] at hact
    rcases hact with (hact | ⟨i, -, hact⟩) | ⟨i, -, hact⟩
    · exact hhandled _ hact
    · exact hhandled _ hact
    · exact hhandled _ hact
  exact .inl ⟨_, hth⟩

end Sample

/-- Nine wrong PINs within one minute, which is as many as the bound allows. -/
theorem wrongPINs_le_meeting : ∃ c log,
    (machine Sample.room).Logged (fun c act => Arrivals c act ∧ sequential c act = true)
      (attempts [0x61]) (boot [0x31] 0) c log ∧
    log.countP (Attempt.wrongIn 1) = 9 ∧
    log.countP (Attempt.wrongIn 1) ≤ 2 * authFailLimit - 1 := by
  have hrun : Sample.logged.any fun x => decide (x.2.countP (Attempt.wrongIn 1) = 9) &&
      x.2.all fun e => e.wrongFrom 0 := by
    decide +kernel
  obtain ⟨⟨c, log⟩, hexec, hcheck⟩ := (Option.any_eq_true _ _).mp hrun
  obtain ⟨hnine, hwrong⟩ := Bool.and_eq_true _ _ |>.mp hcheck
  have hlogged : (machine Sample.room).Logged
      (fun c act => Arrivals c act ∧ sequential c act = true) (attempts [0x61]) (boot [0x31] 0) c log :=
    .of_logAll (fun c act hact hseq => ⟨Sample.arrivals_meeting c act hact, hseq⟩) .refl hexec
  have hfail : ∀ t, Attempt.success t ∈ log → ¬(1 ≤ t ∧ t ≤ 1 + authFailWindow) := by
    intro t ht
    exact absurd (List.all_eq_true.mp hwrong _ ht) Bool.false_ne_true
  exact ⟨c, log, hlogged, of_decide_eq_true hnine, wrongPINs_le _ [0x61] hlogged 1 hfail⟩

/-- Nine wrong PINs within one minute, without a success of the peer. -/
theorem exceedsLimit_meeting : ∃ c log x,
    (machine Sample.room).Logged (fun c act => Arrivals c act ∧ sequential c act = true)
      (attempts [0x61]) (boot [0x31] 0) c log ∧
    (∀ t, Attempt.success t ∉ log) ∧ authFailLimit < log.countP (Attempt.wrongIn x) := by
  have hrun : Sample.logged.any fun x => decide (authFailLimit < x.2.countP (Attempt.wrongIn 1)) &&
      x.2.all fun e => e.wrongFrom 0 := by
    decide +kernel
  obtain ⟨⟨c, log⟩, hexec, hcheck⟩ := (Option.any_eq_true _ _).mp hrun
  obtain ⟨hmany, hwrong⟩ := Bool.and_eq_true _ _ |>.mp hcheck
  refine ⟨c, log, 1, .of_logAll (fun c act hact hseq => ⟨Sample.arrivals_meeting c act hact, hseq⟩)
    .refl hexec, fun t ht => ?_, of_decide_eq_true hmany⟩
  exact absurd (List.all_eq_true.mp hwrong _ ht) Bool.false_ne_true

end LanRoom.Routes

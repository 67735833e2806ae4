import LanRoom.Auth.Model

/-! # How many wrong PINs a peer can try

`handleAuth` checks the recorded failures, reads and compares the PIN, and records a failure, in
three separate sections. A peer whose requests overlap passes the check many times before its first
failure is recorded, so the limit of `authFailLimit` wrong PINs in one `failWindow` is not kept in
general (`exceedsLimit_overlapping`). It is kept when a request with a wrong PIN only passes the
check while the failures recorded and those still under way are fewer than the limit
(`guesses_le`). -/

namespace LanRoom.Auth

open LanRoom.Upload (Time)
open ThreadPool (Tid Machine Act)
open Function (update)

variable {s s' : State} {a : AuthState} {r : AuthRequest} {peer : Peer} {pc pc' : AuthPC}
  {c d : ThreadPool.Config State Thread}

/-! ## What a section can do -/

/-- The request passes the checks before its body is read. -/
def passes (a : AuthState) (r : AuthRequest) : Bool :=
  decide (r.method = .post) && a.enabled && !(a.tooManyFails r.peer).2

/-- The outcomes of a section of `handleAuth`. -/
inductive Section (s : State) (r : AuthRequest) : AuthPC → State → AuthPC → Prop
  | answered {ans : Answer} : Section s r .start s (.done ans)
  | refused {ans : Answer} : Section s r .start (s.become (s.auth.tooManyFails r.peer).1) (.done ans)
  | passed (hpass : passes s.auth r = true) :
      Section s r .start (s.become (s.auth.tooManyFails r.peer).1) .compare
  | ended {ans : Answer} (hright : r.wrong s.auth.pin = false) : Section s r .compare s (.done ans)
  | wrong (hwrong : r.wrong s.auth.pin = true) :
      Section s r .compare (s.guessed r.peer) .recordFail
  | right {token : GoString} (hright : r.wrong s.auth.pin = false) :
      Section s r .compare s (.letIn token)
  | recorded {ans : Answer} : Section s r .recordFail (s.become (s.auth.recordFail r.peer)) (.done ans)
  | admitted {token : GoString} {ans : Answer} :
      Section s r (.letIn token) (s.become (s.auth.letIn r.peer token)) (.done ans)

/-- **Every section of `handleAuth` is one of these.** The proofs below have one case for each
constructor and never unfold the handler. -/
theorem Section.of_step (h : authStep s r pc = some (s', pc')) : Section s r pc s' pc' := by
  cases pc with
  | start =>
      simp only [authStep] at h
      split at h
      · -- not a POST
        cases h
        exact .answered
      · rename_i hpost
        split at h
        · -- no PIN is configured
          cases h
          exact .answered
        · rename_i henabled
          split at h
          · rename_i a hfails
            cases h
            have ha : a = (s.auth.tooManyFails r.peer).1 := by rw [hfails]
            rw [ha]
            exact .refused
          · rename_i a hfails
            cases h
            have ha : a = (s.auth.tooManyFails r.peer).1 := by rw [hfails]
            rw [ha]
            -- only what goes on to the comparison counts as passed
            have hpass : passes s.auth r = true := by
              simp [passes, not_not.mp hpost, Bool.not_eq_false _ |>.mp henabled, hfails]
            exact .passed hpass
  | compare =>
      simp only [authStep] at h
      split at h
      · -- a body that is not JSON holds no PIN to try
        rename_i hpin
        cases h
        exact .ended (by simp [AuthRequest.wrong, hpin])
      · rename_i pin hpin
        split at h
        · rename_i hwrong
          cases h
          exact .wrong (by simp [AuthRequest.wrong, hpin, hwrong])
        · rename_i hwrong
          have hright : r.wrong s.auth.pin = false := by
            simp [AuthRequest.wrong, hpin, not_not.mp hwrong]
          -- without a token the answer is an error, but the PIN was right
          split at h <;> cases h
          · exact .ended hright
          · exact .right hright
  | recordFail =>
      cases h
      exact .recorded
  | letIn token =>
      cases h
      exact .admitted
  | done ans => cases h

/-! ## Windows -/

/-- The failures recorded in the window of `peer`. -/
def AuthState.failures (a : AuthState) (peer : Peer) : ℕ :=
  ((a.fails peer).map FailWindow.count).getD 0

/-- Leaving the window of `peer` alone does not end it. The count of guesses belongs to a window and
goes on with it. -/
theorem State.guesses_become_of_eq (h : a.fails peer = s.auth.fails peer) :
    (s.become a).guesses peer = s.guesses peer := by
  have hends : windowEnds s.auth a peer = false := by
    unfold windowEnds
    rw [h]
    cases s.auth.fails peer <;> simp
  simp [State.become, hends]

/-- Dropping the window of `peer`, if there is one, ends it. Counting starts again with the next
failure. -/
theorem State.guesses_become_of_none (h : a.fails peer = none)
    (hne : s.auth.fails peer ≠ none) : (s.become a).guesses peer = 0 := by
  obtain ⟨f, hf⟩ := Option.ne_none_iff_exists'.mp hne
  simp [State.become, windowEnds, h, hf]

/-- The section leaves the window of `peer` alone or drops it. -/
def Drops (a a' : AuthState) (peer : Peer) : Prop :=
  a'.fails peer = a.fails peer ∨ a'.fails peer = none

/-- A window that is dropped leaves no failures. A section that drops windows can only make room. -/
theorem AuthState.failures_of_drops {a' : AuthState} (h : Drops a a' peer) :
    a'.failures peer ≤ a.failures peer := by
  unfold AuthState.failures
  rcases h with h | h
  · rw [h]
  · rw [h]
    exact Nat.zero_le _

/-- The guesses of a peer stay within its failures, and `n` more, when its window is left alone or
dropped. -/
theorem State.guesses_of_drops {n : ℕ} (hdrops : Drops s.auth a peer)
    (h : s.guesses peer ≤ s.auth.failures peer + n) :
    (s.become a).guesses peer ≤ a.failures peer + n := by
  rcases hdrops with heq | hnone
  · rw [State.guesses_become_of_eq heq, AuthState.failures, heq]
    exact h
  · by_cases hwindow : s.auth.fails peer = none
    · have heq : a.fails peer = s.auth.fails peer := hnone.trans hwindow.symm
      rw [State.guesses_become_of_eq heq, AuthState.failures, heq]
      exact h
    · rw [State.guesses_become_of_none hnone hwindow]
      exact Nat.zero_le _

/-- The check drops the window of its own peer at most. It does so when the window has expired, and
leaves all the others alone. -/
theorem drops_tooManyFails (a : AuthState) (p peer : Peer) :
    Drops a (a.tooManyFails p).1 peer := by
  unfold AuthState.tooManyFails
  split
  · exact .inl rfl
  · split
    · by_cases hp : peer = p
      · subst hp
        exact .inr (Function.update_self ..)
      · exact .inl (Function.update_of_ne hp ..)
    · exact .inl rfl

/-- A login drops the window of its own peer. The failures before a correct PIN are forgotten, those
of other peers are not. -/
theorem drops_letIn (a : AuthState) (p peer : Peer) (token : GoString) :
    Drops a (a.letIn p token) peer := by
  by_cases hp : peer = p
  · subst hp
    exact .inr (Function.update_self ..)
  · exact .inl (Function.update_of_ne hp ..)

/-- The timer drops the windows that have expired. For each peer its window is either kept as it was
or gone. -/
theorem drops_prune (a : AuthState) (peer : Peer) : Drops a a.prune peer := by
  show (a.fails peer).filter _ = a.fails peer ∨ (a.fails peer).filter _ = none
  cases hf : a.fails peer with
  | none => exact .inl rfl
  | some f =>
      cases hexp : a.expired f with
      | true => exact .inr (by simp [hexp])
      | false => exact .inl (by simp [hexp])

/-- `recordFail` adds one failure to the current window, whose guesses do not exceed what was
recorded before by more than what the old window's did. -/
theorem State.guesses_recordFail {n : ℕ} (h : s.guesses peer ≤ s.auth.failures peer + n) :
    ∃ count, (s.auth.recordFail peer).failures peer = count + 1 ∧
      count ≤ s.auth.failures peer ∧
      (s.become (s.auth.recordFail peer)).guesses peer ≤ count + n := by
  have hfails : (s.auth.recordFail peer).fails peer =
      some { s.auth.currentWindow peer with count := (s.auth.currentWindow peer).count + 1 } :=
    Function.update_self ..
  refine ⟨(s.auth.currentWindow peer).count, by simp [AuthState.failures, hfails], ?_⟩
  cases hwindow : s.auth.fails peer with
  | none =>
      simp only [AuthState.failures, hwindow] at h
      simpa [AuthState.failures, AuthState.currentWindow, State.become, windowEnds, hwindow] using h
  | some f =>
      simp only [AuthState.failures, hwindow, Option.map_some, Option.getD_some] at h ⊢
      by_cases hnew : f.count = 0 ∨ s.auth.expired f = true
      · have hcurrent : s.auth.currentWindow peer = ⟨0, s.auth.now⟩ := by
          simp [AuthState.currentWindow, hwindow, hnew]
        rw [hcurrent] at hfails ⊢
        refine ⟨Nat.zero_le _, ?_⟩
        show (if windowEnds s.auth _ peer then 0 else s.guesses peer) ≤ 0 + n
        split
        · exact Nat.zero_le _
        · rename_i hends
          rcases hnew with hzero | hexp
          · omega
          · -- an expired window started earlier than the new one
            exfalso
            apply hends
            have hlt : authFailWindow < s.auth.now - f.start := of_decide_eq_true hexp
            have hne : s.auth.now ≠ f.start := by
              intro heq
              rw [heq, sub_self] at hlt
              exact absurd hlt (by decide)
            simp [windowEnds, hwindow, hfails, hne]
      · have hcurrent : s.auth.currentWindow peer = f := by
          simp [AuthState.currentWindow, hwindow, hnew]
        rw [hcurrent] at hfails ⊢
        refine ⟨Nat.le_refl _, ?_⟩
        have hends : windowEnds s.auth (s.auth.recordFail peer) peer = false := by
          simp [windowEnds, hwindow, hfails]
        simpa [State.become, hends] using h

/-! ## Requests under way -/

/-- The thread has compared a wrong PIN of `peer` and not recorded it yet. -/
def Thread.recording (peer : Peer) : Thread → Bool
  | .auth r .recordFail => decide (r.peer = peer)
  | _ => false

/-- The thread has passed the check of `peer` with a wrong PIN and not recorded it yet. -/
def Thread.guessing (pin : GoString) (peer : Peer) : Thread → Bool
  | .auth r .compare => decide (r.peer = peer) && r.wrong pin
  | .auth r .recordFail => decide (r.peer = peer)
  | _ => false

/-- The number of wrong PINs of `peer` that are under way. -/
def underWay (c : ThreadPool.Config State Thread) (peer : Peer) : ℕ :=
  c.threads.countP (Thread.guessing c.shared.auth.pin peer)

/-- A request with a wrong PIN passes the check only while the failures recorded for its peer and
the wrong PINs of the peer that are under way are together fewer than `authFailLimit`. -/
def spaced (c : ThreadPool.Config State Thread) : Act Thread Unit ℕ → Bool
  | .run t _ =>
      match c.threads[t]? with
      | some (.auth r .start) =>
          !(passes c.shared.auth r && r.wrong c.shared.auth.pin) ||
            decide ((c.shared.auth.tooManyFails r.peer).1.failures r.peer +
              underWay c r.peer < authFailLimit)
      | _ => true
  | _ => true

/-- The **invariant** for `peer`: each guess has been recorded or is about to be, and the recorded
failures leave room for every wrong PIN under way. -/
structure Bounded (c : ThreadPool.Config State Thread) (peer : Peer) : Prop where
  guesses : c.shared.guesses peer ≤
    c.shared.auth.failures peer + c.threads.countP (Thread.recording peer)
  room : c.shared.auth.failures peer + underWay c peer ≤ authFailLimit

/-- A request that is about to record its failure has guessed. Its comparison is behind it, so it
counts among the wrong PINs under way. -/
theorem Thread.guessing_of_recording {pin : GoString} {th : Thread}
    (h : th.recording peer = true) : th.guessing pin peer = true := by
  unfold Thread.recording at h
  split at h
  · exact h
  · cases h

/-- The guesses of a bounded peer do not exceed the limit. Each guess is recorded or about to be,
and both together are at most the limit. -/
theorem Bounded.le_limit (h : Bounded c peer) : c.shared.guesses peer ≤ authFailLimit := by
  have hmono : c.threads.countP (Thread.recording peer) ≤ underWay c peer :=
    List.countP_mono_left fun th _ hth => Thread.guessing_of_recording hth
  have hguesses := h.guesses
  have hroom := h.room
  omega

/-- No section changes the PIN. Which PINs are wrong is thus the same in the whole run. -/
theorem pin_of_step {th th' : Thread} (h : th.step s = some (s', th')) :
    s'.auth.pin = s.auth.pin := by
  cases th with
  | prune ended =>
      cases ended <;> cases h
      rfl
  | auth r pc =>
      obtain ⟨⟨s₁, pc'⟩, hsection, heq⟩ := Option.map_eq_some_iff.mp h
      cases heq
      cases Section.of_step hsection with
      | answered | ended | wrong | right | recorded | admitted => rfl
      | refused | passed =>
          show (s.auth.tooManyFails r.peer).1.pin = s.auth.pin
          unfold AuthState.tooManyFails
          split
          · rfl
          · split <;> rfl

/-- A guess of one peer is a guess of no other. The count of `peer` grows by one if it is its own
guess, and by nothing otherwise. -/
theorem State.guesses_guessed (s : State) (p peer : Peer) :
    (s.guessed p).guesses peer = s.guesses peer + if p = peer then 1 else 0 := by
  by_cases hpeer : p = peer
  · subst hpeer
    rw [if_pos rfl]
    exact Function.update_self ..
  · rw [if_neg hpeer]
    exact Function.update_of_ne (Ne.symm hpeer) ..

/-- A section that counts no thread differently and at most drops the window of `peer`: the failures
do not grow, and a dropped window takes its guesses along. -/
theorem bounded_of_drops {a : AuthState} {rec way : ℕ} (hdrops : Drops s.auth a peer)
    (hguesses : s.guesses peer ≤ s.auth.failures peer + rec)
    (hroom : s.auth.failures peer + way ≤ authFailLimit) :
    (s.become a).guesses peer ≤ a.failures peer + rec ∧ a.failures peer + way ≤ authFailLimit := by
  have hle := AuthState.failures_of_drops hdrops
  exact ⟨State.guesses_of_drops hdrops hguesses, by omega⟩

/-- A failure is recorded: the guess it belongs to leaves those under way, and the failures grow by
one. -/
theorem bounded_of_recordFail {rec way : ℕ}
    (hguesses : s.guesses peer ≤ s.auth.failures peer + (rec + 1))
    (hroom : s.auth.failures peer + (way + 1) ≤ authFailLimit) :
    (s.become (s.auth.recordFail peer)).guesses peer ≤ (s.auth.recordFail peer).failures peer + rec ∧
      (s.auth.recordFail peer).failures peer + way ≤ authFailLimit := by
  obtain ⟨count, hcount, hle, hguesses'⟩ := State.guesses_recordFail hguesses
  exact ⟨by omega, by omega⟩

/-- **The effect of a section on the counters of `peer`**, given how it changes the threads counted.
The guess is counted in the section that compares the PIN, the failure in the one after it. -/
theorem step_bounded {th th' : Thread} {rec rec' way way' : ℕ} (h : th.step s = some (s', th'))
    (hrec : rec' + (if th.recording peer then 1 else 0) =
      rec + (if th'.recording peer then 1 else 0))
    (hway : way' + (if th.guessing s.auth.pin peer then 1 else 0) =
      way + (if th'.guessing s.auth.pin peer then 1 else 0))
    (hspaced : ∀ r, th = .auth r .start → r.peer = peer → passes s.auth r = true →
      r.wrong s.auth.pin = true → (s.auth.tooManyFails peer).1.failures peer + way < authFailLimit)
    (hguesses : s.guesses peer ≤ s.auth.failures peer + rec)
    (hroom : s.auth.failures peer + way ≤ authFailLimit) :
    s'.guesses peer ≤ s'.auth.failures peer + rec' ∧
      s'.auth.failures peer + way' ≤ authFailLimit := by
  cases th with
  | prune ended =>
      cases ended <;> cases h
      simp only [Thread.recording, Thread.guessing, Bool.false_eq_true, if_false] at hrec hway
      subst hrec hway
      exact bounded_of_drops (drops_prune s.auth peer) hguesses hroom
  | auth r pc =>
      obtain ⟨⟨s₁, pc'⟩, hsection, heq⟩ := Option.map_eq_some_iff.mp h
      cases heq
      cases Section.of_step hsection with
      | answered =>
          simp only [Thread.recording, Thread.guessing, Bool.false_eq_true, if_false] at hrec hway
          subst hrec hway
          exact ⟨hguesses, hroom⟩
      | refused =>
          simp only [Thread.recording, Thread.guessing, Bool.false_eq_true, if_false] at hrec hway
          subst hrec hway
          exact bounded_of_drops (drops_tooManyFails ..) hguesses hroom
      | passed hpass =>
          simp only [Thread.recording, Thread.guessing, Bool.false_eq_true, if_false] at hrec hway
          -- a wrong PIN of `peer` passes: the condition leaves room for it
          by_cases hguess : r.peer = peer ∧ r.wrong s.auth.pin = true
          · obtain ⟨rfl, hwrong⟩ := hguess
            have hless := hspaced r rfl rfl hpass hwrong
            simp only [hwrong, decide_true, Bool.and_self, if_true] at hway
            have hdrops := drops_tooManyFails s.auth r.peer r.peer
            obtain rfl : rec' = rec := hrec
            exact ⟨State.guesses_of_drops hdrops hguesses, by
              show (s.auth.tooManyFails r.peer).1.failures r.peer + way' ≤ authFailLimit
              omega⟩
          · have hnot : (decide (r.peer = peer) && r.wrong s.auth.pin) = false := by
              simpa using hguess
            simp only [hnot, Bool.false_eq_true, if_false] at hway
            subst hrec hway
            exact bounded_of_drops (drops_tooManyFails ..) hguesses hroom
      | ended hright =>
          simp only [Thread.recording, Thread.guessing, hright, Bool.and_false,
            Bool.false_eq_true, if_false] at hrec hway
          subst hrec hway
          exact ⟨hguesses, hroom⟩
      | wrong hwrong =>
          simp only [Thread.recording, Thread.guessing, hwrong, Bool.and_true, Bool.false_eq_true,
            if_false] at hrec hway
          have hguessed := s.guesses_guessed r.peer peer
          by_cases hpeer : r.peer = peer
          · subst hpeer
            simp only [decide_true, if_true] at hrec hway hguessed
            refine ⟨?_, ?_⟩
            · show (s.guessed r.peer).guesses r.peer ≤ s.auth.failures r.peer + rec'
              omega
            · show s.auth.failures r.peer + way' ≤ authFailLimit
              omega
          · simp only [hpeer, decide_false, Bool.false_eq_true, if_false] at hrec hway hguessed
            subst hrec hway
            exact ⟨hguessed.trans_le hguesses, hroom⟩
      | right hright =>
          simp only [Thread.recording, Thread.guessing, hright, Bool.and_false,
            Bool.false_eq_true, if_false] at hrec hway
          subst hrec hway
          exact ⟨hguesses, hroom⟩
      | recorded =>
          simp only [Thread.recording, Thread.guessing, Bool.false_eq_true, if_false] at hrec hway
          by_cases hpeer : r.peer = peer
          · subst hpeer
            simp only [decide_true, if_true] at hrec hway
            subst hrec hway
            exact bounded_of_recordFail hguesses hroom
          · simp only [hpeer, decide_false, Bool.false_eq_true, if_false] at hrec hway
            subst hrec hway
            exact bounded_of_drops (.inl (Function.update_of_ne (Ne.symm hpeer) ..)) hguesses hroom
      | admitted =>
          simp only [Thread.recording, Thread.guessing, Bool.false_eq_true, if_false] at hrec hway
          subst hrec hway
          exact bounded_of_drops (drops_letIn ..) hguesses hroom

/-- **The step theorem**: a spaced action keeps every peer bounded. The check makes room by dropping
an expired window, the comparison turns a wrong PIN under way into a guess, and `recordFail` turns
it into a recorded failure; the sum that is bounded only grows when a wrong PIN passes the check,
which is where the condition is needed. -/
theorem bounded_exec {act : Act Thread Unit ℕ} (harrive : Arrivals c act)
    (hspaced : spaced c act = true) (hexec : machine.exec c act = some d) (h : Bounded c peer) :
    Bounded d peer := by
  cases act with
  | spawn th =>
      obtain rfl := Option.some.inj hexec
      -- a request that arrives has neither tried a PIN nor a failure to record
      have hcounts : th.recording peer = false ∧ th.guessing c.shared.auth.pin peer = false := by
        rcases harrive th rfl with ⟨r, rfl⟩ | rfl <;> exact ⟨rfl, rfl⟩
      constructor
      · show _ ≤ _ + (c.threads ++ [th]).countP _
        rw [List.countP_append, List.countP_singleton, hcounts.1]
        exact h.guesses
      · show _ + (c.threads ++ [th]).countP _ ≤ _
        rw [List.countP_append, List.countP_singleton, hcounts.2]
        exact h.room
  | env e =>
      obtain rfl := Option.some.inj hexec
      exact ⟨h.guesses, h.room⟩
  | run t k =>
      -- the run of one thread moves at most that thread in the two counts
      obtain ⟨th, s', th', fs, hth, hstep, hd, hrec⟩ :=
        Machine.countP_of_run (Thread.recording peer) hexec
      obtain ⟨th₁, s₁, th₁', fs₁, hth₁, hstep₁, -, hway⟩ :=
        Machine.countP_of_run (Thread.guessing c.shared.auth.pin peer) hexec
      obtain rfl := Option.some.inj (hth.symm.trans hth₁)
      obtain ⟨x, hx, heq⟩ := Option.map_eq_some_iff.mp hstep
      obtain ⟨rfl, hrest⟩ := Prod.mk.inj heq
      obtain ⟨rfl, rfl⟩ := Prod.mk.inj hrest
      rw [hstep] at hstep₁
      cases hstep₁
      have hpin := pin_of_step hx
      -- the condition of the run, for a wrong PIN that passes `tooManyFails` in this section
      have hless : ∀ r, th = .auth r .start → r.peer = peer → passes c.shared.auth r = true →
          r.wrong c.shared.auth.pin = true →
            (c.shared.auth.tooManyFails peer).1.failures peer + underWay c peer <
              authFailLimit := by
        rintro r rfl rfl hpass hwrong
        simp only [spaced, hth] at hspaced
        simpa [hpass, hwrong] using hspaced
      obtain ⟨hguesses, hroom⟩ := step_bounded hx hrec hway hless h.guesses h.room
      constructor
      · rw [hd]
        exact hguesses
      · unfold underWay
        rw [hd, hpin]
        exact hroom

/-- **The guessing limit holds for spaced requests**: in every run in which a request with a wrong
PIN passes the check only while the failures recorded for its peer and the wrong PINs under way are
fewer than `authFailLimit`, at most `authFailLimit` wrong PINs of a peer are compared until its
`failWindow` ends, counted from the end of the window before. -/
theorem guesses_le {pin : GoString} {now : Time}
    (hrun : machine.Run (fun c act => Arrivals c act ∧ spaced c act = true) (boot pin now) c)
    (peer : Peer) : c.shared.guesses peer ≤ authFailLimit := by
  have hboot : Bounded (boot pin now) peer := ⟨Nat.le_refl _, Nat.zero_le _⟩
  have hbounded : Bounded c peer := hrun.invariant hboot fun _ _ _ h hok hexec =>
    bounded_exec hok.1 hok.2 hexec h
  exact hbounded.le_limit

/-! ## Overlapping requests -/

namespace Sample

/-- The peer that guesses. -/
def guesser : Peer := [0x31]

/-- A guess at the PIN `1`. -/
def guess : Thread := .auth { method := .post, peer := guesser, pin := some [0x30] } .start

/-- Six guesses, each of which has been handled before the next one arrives. -/
def sequential : List (Act Thread Unit ℕ) :=
  (List.range 6).flatMap fun i => .spawn guess :: List.replicate (if i < 5 then 3 else 1) (.run i ())

/-- Seven guesses arrive and pass the check; the first of them is recorded. -/
def overlapping : List (Act Thread Unit ℕ) :=
  List.replicate 7 (.spawn guess) ++ (List.range 7).map (.run · ()) ++ [.run 0 (), .run 0 ()]

/-- The other six are compared. -/
def compared : List (Act Thread Unit ℕ) := (List.range 6).map fun i => .run (i + 1) ()

end Sample

/-- Five guesses of one peer, one after the other. The bound is reached, so it cannot be lowered. -/
theorem guesses_le_sequential : ∃ c : ThreadPool.Config State Thread,
    c.shared.guesses Sample.guesser = 5 ∧ c.shared.guesses Sample.guesser ≤ authFailLimit := by
  have hrun : (machine.execAllIf spaced (boot [0x31] 0) Sample.sequential).any fun c =>
      c.shared.guesses Sample.guesser = 5 := by
    decide +kernel
  obtain ⟨c, hexec, hfive⟩ := (Option.any_eq_true _ _).mp hrun
  have hspaced : machine.Run (fun c act => Arrivals c act ∧ spaced c act = true) (boot [0x31] 0) c := by
    refine .of_execAllIf (fun c act hact hspaced => ⟨?_, hspaced⟩) hexec
    rintro th rfl
    have hth : (∃ i, i < 6) ∧ th = Sample.guess := by simpa [Sample.sequential] using hact
    exact .inl ⟨_, hth.2⟩
  exact ⟨c, of_decide_eq_true hfive, guesses_le hspaced _⟩

/-- Seven overlapping guesses: after the first has opened a window, six more wrong PINs are compared
within the life of this window. -/
theorem exceedsLimit_overlapping :
    ∃ (c d : ThreadPool.Config State Thread) (f g : FailWindow),
      Reachable [0x31] c ∧ machine.Run Arrivals c d ∧
        c.shared.auth.fails Sample.guesser = some f ∧ d.shared.auth.fails Sample.guesser = some g ∧
        g.start = f.start ∧
        c.shared.guesses Sample.guesser + authFailLimit < d.shared.guesses Sample.guesser := by
  -- the requests all pass `tooManyFails` before the first of them reaches `recordFail`
  have hrun : (machine.execAll (boot [0x31] 0) Sample.overlapping).any fun c =>
      (machine.execAll c Sample.compared).any fun d =>
        (c.shared.auth.fails Sample.guesser).any fun f =>
          (d.shared.auth.fails Sample.guesser).any fun g => g.start = f.start ∧
            c.shared.guesses Sample.guesser + authFailLimit < d.shared.guesses Sample.guesser := by
    decide +kernel
  obtain ⟨c, hexec, hrun⟩ := (Option.any_eq_true _ _).mp hrun
  obtain ⟨d, hexec', hrun⟩ := (Option.any_eq_true _ _).mp hrun
  obtain ⟨f, hf, hrun⟩ := (Option.any_eq_true _ _).mp hrun
  obtain ⟨g, hg, hrun⟩ := (Option.any_eq_true _ _).mp hrun
  obtain ⟨hstart, hmany⟩ := of_decide_eq_true hrun
  have harrive : ∀ c, ∀ act ∈ Sample.overlapping, Arrivals c act := by
    rintro c act hact th rfl
    have hth : th = Sample.guess := by simpa [Sample.overlapping] using hact
    exact .inl ⟨_, hth⟩
  have harrive' : ∀ c, ∀ act ∈ Sample.compared, Arrivals c act := by
    rintro c act hact th rfl
    simp [Sample.compared] at hact
  exact ⟨c, d, f, g, ⟨0, .of_execAll harrive hexec⟩, .of_execAll harrive' hexec', hf, hg, hstart,
    hmany⟩

end LanRoom.Auth

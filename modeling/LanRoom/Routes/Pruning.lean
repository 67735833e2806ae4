import LanRoom.Routes.GuessRate
import LanRoom.Routes.Independence

/-! # Pruning cannot be observed

`prune` of `internal/server/auth.go` runs on a timer and drops the sessions and windows that are
over. Whoever reads `authState` looks at the clock again, with comparisons of other strictness, so
what `prune` drops counted for nothing already: the state with ticks and the state without them
differ in entries that are over (`Pruned`), no request can tell them apart, and the ticks can be
deleted from a run (`prune_unobservable`). -/

namespace LanRoom.Routes

open LanRoom.Upload (Time)
open LanRoom.Auth (AuthState AuthRequest AuthPC Peer authStep authFailWindow)
open ThreadPool (Tid Machine Act)
open Function (update)

variable {cfg : Config} {peer : Peer} {a a₁ : AuthState} {s s' s₁ : Auth.State}
  {c d : ThreadPool.Config Auth.State Thread} {th th' : Thread}

/-! ## What may be missing -/

/-- In `a`, entries of `a₁` are missing that are over. -/
structure Pruned (a a₁ : AuthState) : Prop where
  now : a₁.now = a.now
  pin : a₁.pin = a.pin
  sessions : ∀ token, a.sessions token = a₁.sessions token ∨
    a.sessions token = none ∧ ∀ expiry, a₁.sessions token = some expiry → expiry ≤ a.now
  fails : ∀ peer, Lapses a₁ a peer

/-- A state that has not been pruned. Both runs begin in the same state. -/
theorem Pruned.refl (a : AuthState) : Pruned a a :=
  ⟨rfl, rfl, fun _ => .inl rfl, fun _ => .inl rfl⟩

/-- What is over stays over. The two clocks show the same time, and it goes on for both. -/
theorem Pruned.elapse (h : Pruned a a₁) (t : ℕ) :
    Pruned { a with now := a.now + t } { a₁ with now := a₁.now + t } where
  now := by
    show a₁.now + t = a.now + t
    rw [h.now]
  pin := h.pin
  sessions token := by
    refine (h.sessions token).imp_right fun ⟨hnone, hover⟩ => ⟨hnone, fun expiry hexpiry => ?_⟩
    exact (hover expiry hexpiry).trans (Int.le_add_of_nonneg_right (Int.natCast_nonneg t))
  fails p := by
    refine (h.fails p).imp_right fun ⟨hnone, hover⟩ => ⟨hnone, fun f hf => ?_⟩
    have hmore : a₁.now ≤ a₁.now + t := Int.le_add_of_nonneg_right (Int.natCast_nonneg t)
    exact lt_of_lt_of_le (hover f hf) (sub_le_sub_right hmore f.start)

/-- The sessions that still count are there. A session that has been dropped had expired, so it did
not count either way. -/
theorem Pruned.authorized (h : Pruned a a₁) (r : Request) : authorized a₁ r = authorized a r := by
  unfold Routes.authorized AuthState.enabled
  rw [h.pin, h.now]
  split
  · rfl
  · cases r.cookie sessionCookie with
    | none => rfl
    | some value =>
        dsimp only
        rcases h.sessions value with hsame | ⟨hnone, hover⟩
        · rw [hsame]
        · rw [hnone]
          cases hexpiry : a₁.sessions value with
          | none => rfl
          | some expiry => exact decide_eq_false (not_lt.mpr (hover expiry hexpiry))

/-- The windows that still count are there: what is missing is over. -/
theorem Pruned.window (h : Pruned a a₁) (p : Peer) :
    a.fails p = a₁.fails p ∨
      a.fails p = none ∧ ∀ f, a₁.fails p = some f → a₁.expired f = true :=
  (h.fails p).imp_right fun ⟨hnone, hover⟩ => ⟨hnone, fun f hf => decide_eq_true (hover f hf)⟩

/-- Pruning does not move the clock. What is over in one state is over in the other. -/
theorem Pruned.expired (h : Pruned a a₁) (f : Auth.FailWindow) : a₁.expired f = a.expired f := by
  unfold AuthState.expired
  rw [h.now]

/-- Writing the same window in both states. A window that is written is there in both, whatever was
there before. -/
theorem Pruned.setFails (h : Pruned a a₁) (p : Peer) (f : Option Auth.FailWindow) :
    Pruned (a.setFails p f) (a₁.setFails p f) where
  now := h.now
  pin := h.pin
  sessions := h.sessions
  fails q := by
    by_cases hq : q = p
    · subst hq
      left
      show update a.fails q f q = update a₁.fails q f q
      rw [Function.update_self, Function.update_self]
    · show update a.fails p f q = update a₁.fails p f q ∨ update a.fails p f q = none ∧
        ∀ g, update a₁.fails p f q = some g → _
      rw [Function.update_of_ne hq, Function.update_of_ne hq]
      exact h.fails q

/-- A token is stored in both states alike. It counts in both from then on. -/
theorem Pruned.setSession (h : Pruned a a₁) (token : GoString) (expiry : Time) :
    Pruned (a.setSession token expiry) (a₁.setSession token expiry) where
  now := h.now
  pin := h.pin
  sessions other := by
    by_cases hother : other = token
    · subst hother
      left
      show update a.sessions other _ other = update a₁.sessions other _ other
      rw [Function.update_self, Function.update_self]
    · show update a.sessions token _ other = update a₁.sessions token _ other ∨
        update a.sessions token _ other = none ∧
          ∀ e, update a₁.sessions token _ other = some e → _
      rw [Function.update_of_ne hother, Function.update_of_ne hother]
      exact h.sessions other
  fails := h.fails

/-- `tooManyFails` deletes what `prune` may have dropped before. -/
theorem Pruned.tooManyFails (h : Pruned a a₁) (p : Peer) :
    (a₁.tooManyFails p).2 = (a.tooManyFails p).2 ∧
      Pruned (a.tooManyFails p).1 (a₁.tooManyFails p).1 := by
  unfold AuthState.tooManyFails
  rcases h.window p with hsame | ⟨hnone, hover⟩
  · -- the window is still there on both sides
    rw [hsame]
    cases a₁.fails p with
    | none => exact ⟨rfl, h⟩
    | some f =>
        simp only [h.expired f]
        split
        · exact ⟨rfl, h.setFails p none⟩
        · exact ⟨rfl, h⟩
  · -- it was pruned, so on the other side it is over, and `tooManyFails` deletes it now
    rw [hnone]
    cases hf : a₁.fails p with
    | none => exact ⟨rfl, h⟩
    | some f =>
        simp only [hover f hf, if_true]
        refine ⟨trivial, ?_⟩
        have hgone : a.setFails p none = a := by
          unfold AuthState.setFails
          rw [← hnone, Function.update_eq_self]
        have hboth := h.setFails p none
        rwa [hgone] at hboth

/-- `recordFail` begins a new window where the old one is over, dropped or not. -/
theorem Pruned.recordFail (h : Pruned a a₁) (p : Peer) :
    Pruned (a.recordFail p) (a₁.recordFail p) := by
  have hwindow : a₁.currentWindow p = a.currentWindow p := by
    unfold AuthState.currentWindow
    rcases h.window p with hsame | ⟨hnone, hover⟩
    · rw [hsame, h.now]
      simp only [h.expired]
    · rw [hnone]
      cases hf : a₁.fails p with
      | none => exact congrArg (Auth.FailWindow.mk 0) h.now
      | some f =>
          simp only [hover f hf, or_true, if_true]
          exact congrArg (Auth.FailWindow.mk 0) h.now
  unfold AuthState.recordFail
  rw [hwindow]
  exact h.setFails p _

/-- A login does the same to both states. The window of the peer is dropped in both, if it was still
there. -/
theorem Pruned.letIn (h : Pruned a a₁) (p : Peer) (token : GoString) :
    Pruned (a.letIn p token) (a₁.letIn p token) := by
  unfold AuthState.letIn
  rw [h.now]
  exact (h.setSession token _).setFails p none

/-- One more `prune` drops entries that are over, even if it has read the clock some time ago. -/
theorem Pruned.pruneAt (h : Pruned a a₁) {time : Time} (hle : time ≤ a.now) :
    Pruned (pruneAt a time) a₁ where
  now := h.now
  pin := h.pin
  sessions token := by
    show (a.sessions token).filter (fun expiry => !decide (expiry < time)) = a₁.sessions token ∨
      (a.sessions token).filter (fun expiry => !decide (expiry < time)) = none ∧ _
    rcases h.sessions token with hsame | ⟨hnone, hover⟩
    · rw [hsame]
      cases hexpiry : a₁.sessions token with
      | none => exact .inl rfl
      | some expiry =>
          by_cases hold : expiry < time
          · refine .inr ⟨by simp [hold], fun e he => ?_⟩
            obtain rfl := Option.some.inj he
            exact hold.le.trans hle
          · exact .inl (by simp [hold])
    · rw [hnone]
      exact .inr ⟨rfl, hover⟩
  fails p := by
    -- pruning an entry once more, at an earlier time
    have hdrop := lapses_pruneAt hle p
    rcases h.fails p with hsame | ⟨hnone, hover⟩
    · refine hdrop.imp (fun heq => heq.trans hsame) fun ⟨hgone, hold⟩ => ⟨hgone, fun f hf => ?_⟩
      rw [h.now]
      exact hold f (hsame.trans hf)
    · refine .inr ⟨?_, hover⟩
      show (a.fails p).filter _ = none
      rw [hnone]
      rfl

/-- **Pruning is a congruence**: every operation of the handlers takes related states to related
states and answers alike. What the two states differ in has expired and is not looked at. -/
theorem congruence_pruned (peer : Peer) : Congruence Pruned peer where
  pin h := h.pin
  tooManyFails h := h.tooManyFails peer
  recordFail h := h.recordFail peer
  letIn h token := h.letIn peer token

/-- The failures of a peer that count. -/
def countedFails (a : AuthState) (peer : Peer) : Option Auth.FailWindow :=
  (a.fails peer).filter fun f => !a.expired f

/-- What is pruned does not count any more. An expired window is dropped by the next check in any
case. -/
theorem Pruned.countedFails (h : Pruned a a₁) (p : Peer) :
    countedFails a₁ p = countedFails a p := by
  unfold Routes.countedFails
  rcases h.window p with hsame | ⟨hnone, hover⟩
  · rw [hsame]
    simp only [h.expired]
  · rw [hnone]
    cases hf : a₁.fails p with
    | none => rfl
    | some f => simp [hover f hf]

/-- A handler finds the same, and shows the same. It reads sessions through `authorized`, and the
PIN and the clock are the same. -/
theorem Pruned.dispatch (h : Pruned a a₁) (r : Request) (reg : Registration) :
    dispatch cfg a₁ r reg = dispatch cfg a r reg := by
  have henabled : a₁.enabled = a.enabled := by
    unfold AuthState.enabled
    rw [h.pin]
  unfold Routes.dispatch handleInfo
  rw [h.authorized, h.pin, henabled]

/-! ## Threads -/

/-- What stays when the ticks of the cleanup timer are deleted. -/
def Thread.isRequest : Thread → Bool
  | .request _ _ => true
  | .prune _ => false

/-- A `prune` that is about to drop has read the clock before. -/
def Punctual (s : Auth.State) (th : Thread) : Prop :=
  ∀ time, th = .prune (.drop time) → time ≤ s.auth.now

/-- A section does not turn a request into a tick of the timer. -/
theorem isRequest_step (hstep : th.step cfg s = some (s', th')) :
    th'.isRequest = th.isRequest := by
  cases th with
  | request r pc =>
      obtain ⟨x, -, heq⟩ := Option.map_eq_some_iff.mp hstep
      cases heq
      rfl
  | prune pc =>
      obtain ⟨x, -, heq⟩ := Option.map_eq_some_iff.mp hstep
      cases heq
      rfl

/-- Every section keeps the times that were stored behind the clock. -/
theorem punctual_step (hstep : th.step cfg s = some (s', th')) : Punctual s' th' := by
  rintro time rfl
  rw [(Effect.of_step hstep).now]
  cases th with
  | request r pc =>
      obtain ⟨x, -, heq⟩ := Option.map_eq_some_iff.mp hstep
      cases heq
  | prune pc =>
      obtain ⟨⟨s₂, pc₂⟩, hprune, heq⟩ := Option.map_eq_some_iff.mp hstep
      obtain rfl : pc₂ = .drop time := Thread.prune.inj (Prod.mk.inj heq).2
      exact (stamp_of_pruneStep hprune).le

/-- A section of a request has the same outcome with and without the ticks. -/
theorem Pruned.own_step (h : Pruned s.auth s₁.auth) (hrequest : th.isRequest = true)
    (hstep : th.step cfg s = some (s', th')) :
    ∃ s₁', th.step cfg s₁ = some (s₁', th') ∧ Pruned s'.auth s₁'.auth := by
  cases th with
  | prune pc => cases hrequest
  | request r pc =>
      obtain ⟨⟨s₂, pc'⟩, hrequest, heq⟩ := Option.map_eq_some_iff.mp hstep
      cases heq
      cases pc with
      | start =>
          refine ⟨s₁, ?_⟩
          unfold requestStep at hrequest
          show Option.map _ (requestStep cfg s₁ r .start) = _ ∧ _
          unfold requestStep
          -- the route does not depend on the state
          cases hmux : mux (registrations cfg) r.path with
          | registered reg =>
              rw [hmux] at hrequest
              cases hrequest
              exact ⟨by rw [← h.dispatch r reg]; rfl, h⟩
          | redirect =>
              rw [hmux] at hrequest
              cases hrequest
              exact ⟨rfl, h⟩
          | notFound =>
              rw [hmux] at hrequest
              cases hrequest
              exact ⟨rfl, h⟩
      -- a section of `handleAuth`
      | auth pc =>
          obtain ⟨⟨s₃, pc₃⟩, hsection, heq⟩ := Option.map_eq_some_iff.mp hrequest
          cases heq
          obtain ⟨s₁', hsection₁, hpruned⟩ := (congruence_pruned r.peer).section h hsection
          refine ⟨s₁', ?_, hpruned⟩
          show Option.map _ (Option.map _ (authStep s₁ r.toAuthRequest pc)) = _
          rw [hsection₁]
          rfl
      | inner handler => cases hrequest
      | info resp => cases hrequest
      | refused ans => cases hrequest
      | unmatched => cases hrequest

/-- A tick drops entries that are over. No request can tell that it has run. -/
theorem Pruned.other_step (h : Pruned s.auth s₁.auth) (hpunctual : Punctual s th)
    (htick : th.isRequest = false) (hstep : th.step cfg s = some (s', th')) :
    Pruned s'.auth s₁.auth := by
  cases th with
  | request r pc => cases htick
  | prune pc =>
      obtain ⟨⟨s₂, pc'⟩, hprune, heq⟩ := Option.map_eq_some_iff.mp hstep
      cases heq
      cases pc with
      | start =>
          cases hprune
          exact h
      | drop time =>
          cases hprune
          exact h.pruneAt (hpunctual time rfl)
      | ended => cases hprune

/-- **The ticks can be deleted.** The conditions of the library are those of the lemmas above. -/
theorem erasable_machine (cfg : Config) :
    (machine cfg).Erasable (fun s s₁ => Pruned s.auth s₁.auth) Thread.isRequest Punctual where
  own := by
    -- a request does the same on the server that is never pruned
    rintro t k s s₁ th s' th' fs hpruned hpunctual hrequest hstep
    obtain ⟨x, hx, heq⟩ := Option.map_eq_some_iff.mp hstep
    cases heq
    obtain ⟨s₁', hx₁, hpruned'⟩ := hpruned.own_step hrequest hx
    refine ⟨(isRequest_step hx).trans hrequest, punctual_step hx,
      fun f hf => absurd hf List.not_mem_nil, s₁', hpruned', fun u => ?_⟩
    show Option.map _ (th.step cfg s₁) = _
    rw [hx₁]
    rfl
  other := by
    -- `prune` leads to states that are still alike
    rintro t k s s₁ th s' th' fs hpruned hpunctual htick hstep
    obtain ⟨x, hx, heq⟩ := Option.map_eq_some_iff.mp hstep
    cases heq
    exact ⟨hpruned.other_step hpunctual htick hx, (isRequest_step hx).trans htick,
      punctual_step hx, fun f hf => absurd hf List.not_mem_nil⟩
  env t s s₁ h := h.elapse t
  lasts := by
    rintro t k s th s' th' fs u hstep hu time rfl
    obtain ⟨x, hx, heq⟩ := Option.map_eq_some_iff.mp hstep
    cases heq
    rw [(Effect.of_step hx).now]
    exact hu time rfl
  lasts_env := by
    rintro t s u hu time rfl
    exact (hu time rfl).trans (Int.le_add_of_nonneg_right (Int.natCast_nonneg t))

/-- **Pruning cannot be observed**: for any schedule of requests, ticks of the cleanup timer and
passing time, the schedule without the ticks executes. It takes every request to the same program
point (authorized or refused, turned away, compared, recorded, let in, with the same answer) and
leaves the same failures counted and the same cookies accepted. -/
theorem prune_unobservable (cfg : Config) {pin : GoString} {now : Time}
    {acts : List (Act Thread Unit ℕ)} (harrive : ∀ c, ∀ act ∈ acts, Arrivals c act)
    (hexec : (machine cfg).execAll (boot pin now) acts = some c) :
    ∃ d, (machine cfg).execAll (boot pin now)
        ((machine cfg).restrictAll Thread.isRequest (boot pin now) acts) = some d ∧
      d.threads = c.threads.filter Thread.isRequest ∧
      (∀ r, authorized d.shared.auth r = authorized c.shared.auth r) ∧
      ∀ peer, countedFails d.shared.auth peer = countedFails c.shared.auth peer := by
  have hboot : Machine.Without (fun s s₁ : Auth.State => Pruned s.auth s₁.auth) Thread.isRequest
      (Punctual (boot pin now).shared) (boot pin now) (boot pin now) :=
    ⟨Pruned.refl _, rfl, fun th hth => absurd hth List.not_mem_nil⟩
  have hpunctual : ∀ (s : Auth.State) (th : Thread), Act.spawn th ∈ acts → Punctual s th := by
    rintro s th hth time rfl
    rcases harrive (boot pin now) _ hth _ rfl with ⟨r, hr⟩ | hp
    · cases hr
    · cases hp
  obtain ⟨d, hd, hwithout⟩ := (erasable_machine cfg).execAll hboot hpunctual hexec
  exact ⟨d, hd, hwithout.threads, hwithout.shared.authorized, hwithout.shared.countedFails⟩

namespace Sample

/-- A wrong PIN, a tick within the window, a tick that has read the clock in it and drops later, a
tick after its end, and one more wrong PIN. -/
def ticks : List (Act Thread Unit ℕ) :=
  [.spawn stranger, .run 0 (), .run 0 (), .run 0 (), .run 0 (), .spawn (.prune .start), .run 1 (),
    .spawn (.prune .start), .run 2 (), .env 60000000001, .run 1 (), .run 2 (),
    .spawn (.prune .start), .run 3 (), .run 3 (), .spawn stranger, .run 4 (), .run 4 (), .run 4 (),
    .run 4 ()]

end Sample

/-- A run with ticks of the timer, and the same run without them. -/
theorem prune_unobservable_ticks : ∃ c d,
    (machine ⟨[], 8787, false, 0, 0, []⟩).execAll (boot [0x31] 0) Sample.ticks = some c ∧
    (machine ⟨[], 8787, false, 0, 0, []⟩).execAll (boot [0x31] 0)
      ((machine ⟨[], 8787, false, 0, 0, []⟩).restrictAll Thread.isRequest (boot [0x31] 0)
        Sample.ticks) = some d ∧
    c.threads.length = 5 ∧ d.threads = c.threads.filter Thread.isRequest := by
  have hrun : ((machine ⟨[], 8787, false, 0, 0, []⟩).execAll (boot [0x31] 0) Sample.ticks).any
      fun c => decide (c.threads.length = 5) := by
    decide +kernel
  obtain ⟨c, hexec, hlength⟩ := (Option.any_eq_true _ _).mp hrun
  have harrive : ∀ c, ∀ act ∈ Sample.ticks, Arrivals c act := by
    rintro c act hact th rfl
    have hwho : th = Sample.stranger ∨ th = .prune .start ∨ th = Sample.stranger := by
      simpa [Sample.ticks] using hact
    rcases hwho with rfl | rfl | rfl
    · exact .inl ⟨_, rfl⟩
    · exact .inr rfl
    · exact .inl ⟨_, rfl⟩
  obtain ⟨d, hd, heq, -, -⟩ := prune_unobservable _ harrive hexec
  exact ⟨c, d, hexec, hd, of_decide_eq_true hlength, heq⟩

end LanRoom.Routes

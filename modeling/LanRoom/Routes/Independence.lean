import LanRoom.Routes.Secrecy

/-! # One client cannot lock out another

What `handleAuth` answers a peer depends on the PIN, the clock and this peer's own `failWindow`
(`Alike`). Requests of the other peers leave all three alone, so they can be deleted from a run
without a change in what the peer is answered (`answersTo_eq`). -/

namespace LanRoom.Routes

open LanRoom.Upload (Time)
open LanRoom.Auth (AuthState AuthRequest AuthPC Peer authStep)
open ThreadPool (Tid Machine Act)
open Function (update)

variable {cfg : Config} {peer : Peer} {a a₁ : AuthState} {s s' s₁ : Auth.State}
  {c d : ThreadPool.Config Auth.State Thread}

/-! ## What a peer depends on -/

/-- The states agree on all that `handleAuth` reads for a request of `peer`. -/
structure Alike (peer : Peer) (a a₁ : AuthState) : Prop where
  now : a₁.now = a.now
  pin : a₁.pin = a.pin
  window : a₁.fails peer = a.fails peer

/-- The clock is the same. What has expired in one state has expired in the other. -/
theorem Alike.expired (h : Alike peer a a₁) (f : Auth.FailWindow) : a₁.expired f = a.expired f := by
  unfold AuthState.expired
  rw [h.now]

/-- The window of the peer is set in both states alike. The windows of the other peers may differ
and go on differing. -/
theorem Alike.setFails (h : Alike peer a a₁) (f : Option Auth.FailWindow) :
    Alike peer (a.setFails peer f) (a₁.setFails peer f) where
  now := h.now
  pin := h.pin
  window := by
    show update a₁.fails peer f peer = update a.fails peer f peer
    rw [Function.update_self, Function.update_self]

/-- The check of the peer answers alike. It looks at the window of its own peer and at the clock. -/
theorem Alike.tooManyFails (h : Alike peer a a₁) :
    (a₁.tooManyFails peer).2 = (a.tooManyFails peer).2 ∧
      Alike peer (a.tooManyFails peer).1 (a₁.tooManyFails peer).1 := by
  unfold AuthState.tooManyFails
  rw [h.window]
  cases a.fails peer with
  | none => exact ⟨rfl, h⟩
  | some f =>
      simp only [h.expired f]
      split
      · exact ⟨rfl, h.setFails none⟩
      · exact ⟨rfl, h⟩

/-- A failure of the peer is recorded alike. Its window is the same in both states before, and so
after. -/
theorem Alike.recordFail (h : Alike peer a a₁) :
    Alike peer (a.recordFail peer) (a₁.recordFail peer) := by
  have hwindow : a₁.currentWindow peer = a.currentWindow peer := by
    unfold AuthState.currentWindow
    rw [h.window, h.now]
    simp only [h.expired]
  unfold AuthState.recordFail
  rw [hwindow]
  exact h.setFails _

/-- A login of the peer is alike. The token is stored in both, and the window of the peer is dropped
in both. -/
theorem Alike.letIn (h : Alike peer a a₁) (token : GoString) :
    Alike peer (a.letIn peer token) (a₁.letIn peer token) := by
  have hstored : Alike peer (a.setSession token (a.now + Auth.sessionTTL))
      (a₁.setSession token (a₁.now + Auth.sessionTTL)) := ⟨h.now, h.pin, h.window⟩
  exact hstored.setFails none

/-- A `prune` drops the window in both states or in neither. The decision depends on the window
itself and on the time that was read. -/
theorem Alike.pruneAt (h : Alike peer a a₁) (now : Time) :
    Alike peer (pruneAt a now) (pruneAt a₁ now) where
  now := h.now
  pin := h.pin
  window := by
    show (a₁.fails peer).filter _ = (a.fails peer).filter _
    rw [h.window]
    rfl

/-! ## Sections -/

/-- A relation between states that no section of `handleAuth` for `peer` can tell apart. -/
structure Congruence (R : AuthState → AuthState → Prop) (peer : Peer) : Prop where
  pin : ∀ {a a₁}, R a a₁ → a₁.pin = a.pin
  tooManyFails : ∀ {a a₁}, R a a₁ → (a₁.tooManyFails peer).2 = (a.tooManyFails peer).2 ∧
    R (a.tooManyFails peer).1 (a₁.tooManyFails peer).1
  recordFail : ∀ {a a₁}, R a a₁ → R (a.recordFail peer) (a₁.recordFail peer)
  letIn : ∀ {a a₁}, R a a₁ → ∀ token, R (a.letIn peer token) (a₁.letIn peer token)

/-- A section has the same outcome in related states. It is what makes the relation one that runs
can be compared by. -/
theorem Congruence.section {R : AuthState → AuthState → Prop} {r : AuthRequest} {pc pc' : AuthPC}
    (hR : Congruence R r.peer) (h : R s.auth s₁.auth)
    (hstep : authStep s r pc = some (s', pc')) :
    ∃ s₁', authStep s₁ r pc = some (s₁', pc') ∧ R s'.auth s₁'.auth := by
  cases pc with
  | start =>
      have henabled : s₁.auth.enabled = s.auth.enabled := by
        unfold AuthState.enabled
        rw [hR.pin h]
      simp only [authStep] at hstep ⊢
      rw [henabled]
      split at hstep
      · rename_i hpost
        cases hstep
        exact ⟨s₁, by rw [if_pos hpost], h⟩
      · rename_i hpost
        simp only [if_neg hpost]
        split at hstep
        · rename_i hoff
          cases hstep
          exact ⟨s₁, by rw [if_pos hoff], h⟩
        · -- the two windows answer alike, and what is left of them is alike
          rename_i hon
          simp only [if_neg hon]
          obtain ⟨hmany, hafter⟩ := hR.tooManyFails h
          generalize s.auth.tooManyFails r.peer = out at hmany hafter hstep
          generalize s₁.auth.tooManyFails r.peer = out₁ at hmany hafter ⊢
          obtain ⟨b, many⟩ := out
          obtain ⟨b₁, many₁⟩ := out₁
          obtain rfl : many₁ = many := hmany
          cases many₁ <;> cases hstep <;> exact ⟨s₁.become b₁, rfl, hafter⟩
  -- the comparison depends on the PIN only
  | compare =>
      simp only [authStep] at hstep ⊢
      rw [hR.pin h]
      split at hstep
      · cases hstep
        exact ⟨s₁, rfl, h⟩
      · split at hstep
        · rename_i hwrong
          cases hstep
          exact ⟨s₁.guessed r.peer, by rw [if_pos hwrong], h⟩
        · rename_i hright
          rw [if_neg hright]
          split at hstep
          · cases hstep
            exact ⟨s₁, rfl, h⟩
          · cases hstep
            exact ⟨s₁, rfl, h⟩
  -- the failure is added to two windows that are alike
  | recordFail =>
      cases hstep
      exact ⟨s₁.become (s₁.auth.recordFail r.peer), rfl, hR.recordFail h⟩
  | letIn token =>
      cases hstep
      exact ⟨s₁.become (s₁.auth.letIn r.peer token), rfl, hR.letIn h token⟩
  | done ans => cases hstep

/-- **No section of `handleAuth` for the peer tells the states apart.** The check, the record of a
failure and the login each have a lemma above. -/
theorem congruence_alike (peer : Peer) : Congruence (Alike peer) peer where
  pin h := h.pin
  tooManyFails h := h.tooManyFails
  recordFail h := h.recordFail
  letIn h := h.letIn

/-- A section of a request of `peer` has the same outcome in alike states. -/
theorem Alike.own_section {r : AuthRequest} {pc pc' : AuthPC} (h : Alike r.peer s.auth s₁.auth)
    (hstep : authStep s r pc = some (s', pc')) :
    ∃ s₁', authStep s₁ r pc = some (s₁', pc') ∧ Alike r.peer s'.auth s₁'.auth :=
  (congruence_alike r.peer).section h hstep

/-- A section of a request of another peer keeps states alike. -/
theorem Alike.other_section {r : AuthRequest} {pc pc' : AuthPC} (hne : r.peer ≠ peer)
    (h : Alike peer s.auth s₁.auth) (hstep : authStep s r pc = some (s', pc')) :
    Alike peer s'.auth s₁.auth := by
  -- another peer's window is another entry of the map
  have hset : ∀ (a : AuthState) (f : Option Auth.FailWindow), Alike peer a s₁.auth →
      Alike peer (a.setFails r.peer f) s₁.auth := by
    intro a f ha
    refine ⟨ha.now, ha.pin, ?_⟩
    show _ = update a.fails r.peer f peer
    rw [Function.update_of_ne (Ne.symm hne)]
    exact ha.window
  have hfails : Alike peer (s.auth.tooManyFails r.peer).1 s₁.auth := by
    unfold AuthState.tooManyFails
    split
    · exact h
    · split
      · exact hset s.auth none h
      · exact h
  cases Auth.Section.of_step hstep with
  | answered => exact h
  | refused => exact hfails
  | passed hpass => exact hfails
  | ended hright => exact h
  | wrong hwrong => exact h
  | right hright => exact h
  | recorded => exact hset s.auth _ h
  -- a session is stored, which is not looked at by `handleAuth`
  | @admitted token ans =>
      exact hset (s.auth.setSession token _) none ⟨h.now, h.pin, h.window⟩

/-! ## Threads -/

/-- What stays when the requests of the peers other than `peer` are deleted. -/
def Thread.mine (peer : Peer) : Thread → Bool
  | .request r _ => r.peer = peer
  | .prune _ => true

/-- A `prune`, or a request that goes to `handleAuth`. -/
def Thread.Authenticates : Thread → Prop
  | .request r pc => r.path = authPath ∧ (pc = .start ∨ ∃ pc', pc = .auth pc')
  | .prune _ => True

/-- `authPath` leads to `handleAuth`. The route is open to everybody, with no wrapper around it. -/
theorem mux_authPath : mux (registrations cfg) authPath = .registered ⟨authPath, false, .handleAuth⟩ := by
  have hfind : (registrations cfg).find? (fun reg => reg.pattern = authPath) =
      some ⟨authPath, false, .handleAuth⟩ := by
    have hprefix : ([⟨goString "/api/info", false, .handleInfo⟩,
        ⟨goString "/api/qrcode", false, .handleQRCode⟩, ⟨authPath, false, .handleAuth⟩] :
          List Registration).find? (fun reg => reg.pattern = authPath) =
        some ⟨authPath, false, .handleAuth⟩ := by
      decide +kernel
    unfold registrations
    exact List.find?_append.trans (by
      have hall : ∀ rest : List Registration, (([⟨goString "/api/info", false, .handleInfo⟩,
          ⟨goString "/api/qrcode", false, .handleQRCode⟩, ⟨authPath, false, .handleAuth⟩] ++ rest :
            List Registration).find? (fun reg => reg.pattern = authPath)) =
          some ⟨authPath, false, .handleAuth⟩ := by
        intro rest
        rw [List.find?_append, hprefix]
        rfl
      exact congrArg (Option.or · _) (hall _))
  unfold mux
  rw [hfind]

/-- The section that finds the handler of a request to `authPath`. -/
theorem step_authPath {r : Request} (hpath : r.path = authPath) :
    (Thread.request r .start).step cfg s = some (s, .request r (.auth .start)) := by
  show (requestStep cfg s r .start).map _ = _
  unfold requestStep
  rw [hpath, mux_authPath]
  simp [dispatch]

/-- A thread stays one that authenticates, and keeps its request. -/
theorem authenticates_step (peer : Peer) {th th' : Thread} (hok : th.Authenticates)
    (hstep : th.step cfg s = some (s', th')) :
    th'.Authenticates ∧ th'.mine peer = th.mine peer := by
  cases th with
  | prune pc =>
      obtain ⟨x, -, heq⟩ := Option.map_eq_some_iff.mp hstep
      cases heq
      exact ⟨trivial, rfl⟩
  | request r pc =>
      obtain ⟨hpath, rfl | ⟨pc, rfl⟩⟩ := hok
      · rw [step_authPath hpath] at hstep
        cases hstep
        exact ⟨⟨hpath, .inr ⟨.start, rfl⟩⟩, rfl⟩
      · obtain ⟨x, hx, heq⟩ := Option.map_eq_some_iff.mp hstep
        obtain ⟨y, -, rfl⟩ := Option.map_eq_some_iff.mp hx
        cases heq
        exact ⟨⟨hpath, .inr ⟨y.2, rfl⟩⟩, rfl⟩

/-- A section of a `prune` or of a request of `peer` has the same outcome in alike states. -/
theorem Alike.own_step {th th' : Thread} (h : Alike peer s.auth s₁.auth) (hok : th.Authenticates)
    (hmine : th.mine peer = true) (hstep : th.step cfg s = some (s', th')) :
    ∃ s₁', th.step cfg s₁ = some (s₁', th') ∧ Alike peer s'.auth s₁'.auth := by
  cases th with
  -- `prune` treats both servers the same, as their clocks agree
  | prune pc =>
      cases pc with
      | start =>
          cases hstep
          refine ⟨s₁, ?_, h⟩
          show some (s₁, Thread.prune (.drop s₁.auth.now)) = _
          rw [h.now]
      | drop now =>
          cases hstep
          exact ⟨s₁.become (Routes.pruneAt s₁.auth now), rfl, h.pruneAt now⟩
      | ended => cases hstep
  | request r pc =>
      obtain rfl : r.peer = peer := of_decide_eq_true hmine
      obtain ⟨hpath, rfl | ⟨pc, rfl⟩⟩ := hok
      · rw [step_authPath hpath] at hstep ⊢
        cases hstep
        exact ⟨s₁, rfl, h⟩
      · -- a section of `handleAuth`
        obtain ⟨x, hx, heq⟩ := Option.map_eq_some_iff.mp hstep
        obtain ⟨⟨s₂, pc'⟩, hsection, rfl⟩ := Option.map_eq_some_iff.mp hx
        cases heq
        obtain ⟨s₁', hsection₁, halike⟩ := h.own_section hsection
        refine ⟨s₁', ?_, halike⟩
        show Option.map _ (Option.map _ (authStep s₁ r.toAuthRequest pc)) = _
        rw [hsection₁]
        rfl

/-- A section of a request of another peer keeps states alike. -/
theorem Alike.other_step {th th' : Thread} (h : Alike peer s.auth s₁.auth) (hok : th.Authenticates)
    (hother : th.mine peer = false) (hstep : th.step cfg s = some (s', th')) :
    Alike peer s'.auth s₁.auth := by
  cases th with
  | prune pc => cases hother
  | request r pc =>
      have hne : r.peer ≠ peer := of_decide_eq_false hother
      obtain ⟨hpath, rfl | ⟨pc, rfl⟩⟩ := hok
      · rw [step_authPath hpath] at hstep
        cases hstep
        exact h
      · obtain ⟨x, hx, heq⟩ := Option.map_eq_some_iff.mp hstep
        obtain ⟨⟨s₂, pc'⟩, hsection, rfl⟩ := Option.map_eq_some_iff.mp hx
        cases heq
        exact h.other_section hne hsection

/-- **Requests of other peers can be deleted.** The conditions of the library are those of the
lemmas above. -/
theorem separable_machine (cfg : Config) (peer : Peer) :
    (machine cfg).Separable (fun s s₁ => Alike peer s.auth s₁.auth) (Thread.mine peer)
      Thread.Authenticates where
  -- the kept threads do on the reduced server what they do on the full one
  own := by
    rintro t k s s₁ th s' th' fs halike hok hmine hstep
    obtain ⟨x, hx, heq⟩ := Option.map_eq_some_iff.mp hstep
    cases heq
    obtain ⟨hok', hmine'⟩ := authenticates_step peer hok hx
    obtain ⟨s₁', hx₁, halike'⟩ := halike.own_step hok hmine hx
    refine ⟨hmine'.trans hmine, hok', fun f hf => absurd hf List.not_mem_nil, s₁', halike', ?_⟩
    intro u
    show Option.map _ (th.step cfg s₁) = _
    rw [hx₁]
    rfl
  -- a thread that is left out changes nothing the others can see
  other := by
    rintro t k s s₁ th s' th' fs halike hok hother hstep
    obtain ⟨x, hx, heq⟩ := Option.map_eq_some_iff.mp hstep
    cases heq
    obtain ⟨hok', hmine'⟩ := authenticates_step peer hok hx
    exact ⟨halike.other_step hok hother hx, hmine'.trans hother, hok',
      fun f hf => absurd hf List.not_mem_nil⟩
  env := by
    rintro d s s₁ ⟨hnow, hpin, hwindow⟩
    refine ⟨?_, hpin, hwindow⟩
    show s₁.auth.now + d = s.auth.now + d
    rw [hnow]

/-! ## The answers -/

/-- What `handleAuth` has answered a request. -/
def Thread.authAnswer : Thread → Option Auth.Answer
  | .request _ (.auth (.done ans)) => some ans
  | _ => none

/-- The thread is a request of `peer`. -/
def Thread.ofPeer (peer : Peer) : Thread → Bool
  | .request r _ => r.peer = peer
  | .prune _ => false

/-- The answers to the requests of `peer`, in the order of these requests. -/
def answersTo (peer : Peer) (c : ThreadPool.Config Auth.State Thread) : List (Option Auth.Answer) :=
  (c.threads.filter (Thread.ofPeer peer)).map Thread.authAnswer

/-- **One client cannot lock out another**: for any schedule of requests to `handleAuth` and ticks
of the cleanup timer, the schedule without the requests of the other peers executes, and gives
`peer` the same answers. -/
theorem answersTo_eq (cfg : Config) {pin : GoString} {now : Time} (peer : Peer)
    {acts : List (Act Thread Unit ℕ)}
    (harrive : ∀ th, Act.spawn th ∈ acts →
      (∃ r : Request, r.path = authPath ∧ th = .request r .start) ∨ th = .prune .start)
    (hexec : (machine cfg).execAll (boot pin now) acts = some c) :
    ∃ d, (machine cfg).execAll (boot pin now)
        ((machine cfg).restrictAll (Thread.mine peer) (boot pin now) acts) = some d ∧
      answersTo peer d = answersTo peer c := by
  -- both servers start the same
  have hboot : Machine.Without (fun s s₁ : Auth.State => Alike peer s.auth s₁.auth)
      (Thread.mine peer) Thread.Authenticates (boot pin now) (boot pin now) :=
    ⟨⟨rfl, rfl, rfl⟩, rfl, fun th hth => absurd hth List.not_mem_nil⟩
  have hauth : ∀ th, Act.spawn th ∈ acts → th.Authenticates := by
    intro th hth
    rcases harrive th hth with ⟨r, hpath, rfl⟩ | rfl
    · exact ⟨hpath, .inl rfl⟩
    · trivial
  obtain ⟨d, hd, hwithout⟩ := (separable_machine cfg peer).execAll hboot hauth hexec
  refine ⟨d, hd, ?_⟩
  -- `prune` is kept as well, and answers nobody
  have hfilter : ∀ th : Thread, (th.ofPeer peer && th.mine peer) = th.ofPeer peer := by
    intro th
    cases th with
    | request r pc => exact Bool.and_self _
    | prune pc => rfl
  unfold answersTo
  rw [hwithout.threads, List.filter_filter]
  simp only [hfilter]

namespace Sample

/-- Someone who does not know the PIN `1`. -/
def stranger : Thread :=
  .request { method := .post, peer := [0x61], pin := some [0x30], path := authPath } .start

/-- Someone who knows it. -/
def guest : Thread :=
  .request
    { method := .post, peer := [0x62], pin := some [0x31], rand := some (Vector.replicate 16 0),
      path := authPath }
    .start

/-- The stranger's first guess passes the check, then the guest is let in, then the stranger's guess
is compared. -/
def visits : List (Act Thread Unit ℕ) :=
  [.spawn stranger, .run 0 (), .run 0 (), .spawn guest, .run 1 (), .run 1 (), .env 5, .run 1 (),
    .run 1 (), .run 0 (), .run 0 ()]

end Sample

/-- A run with the requests of two peers, and the same run with those of one. -/
theorem answersTo_eq_sample : ∃ c d,
    (machine ⟨[], 8787, false, 0, 0, []⟩).execAll (boot [0x31] 0) Sample.visits = some c ∧
    (machine ⟨[], 8787, false, 0, 0, []⟩).execAll (boot [0x31] 0)
      ((machine ⟨[], 8787, false, 0, 0, []⟩).restrictAll (Thread.mine [0x62]) (boot [0x31] 0)
        Sample.visits) = some d ∧
    c.threads.length = 2 ∧ answersTo [0x62] d = answersTo [0x62] c := by
  have hrun : ((machine ⟨[], 8787, false, 0, 0, []⟩).execAll (boot [0x31] 0) Sample.visits).any
      fun c => decide (c.threads.length = 2) := by
    decide +kernel
  obtain ⟨c, hexec, hlength⟩ := (Option.any_eq_true _ _).mp hrun
  have harrive : ∀ th, Act.spawn th ∈ Sample.visits →
      (∃ r : Request, r.path = authPath ∧ th = .request r .start) ∨ th = .prune .start := by
    intro th hth
    have hwho : th = Sample.stranger ∨ th = Sample.guest := by simpa [Sample.visits] using hth
    rcases hwho with rfl | rfl
    · exact .inl ⟨_, rfl, rfl⟩
    · exact .inl ⟨_, rfl, rfl⟩
  obtain ⟨d, hd, heq⟩ := answersTo_eq _ [0x62] harrive hexec
  exact ⟨c, d, hexec, hd, of_decide_eq_true hlength, heq⟩

end LanRoom.Routes

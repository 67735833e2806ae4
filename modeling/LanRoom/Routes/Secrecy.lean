import LanRoom.Concurrency.Comparison
import LanRoom.Routes.Gate

/-! # The PIN does not leak

Two servers that differ in their PIN only answer the same, as long as nobody sends either PIN
(`answers_eq`): they run in lockstep, since the PIN is read to compare it with the one in a body,
and to show it to a device that has a session, and without the right PIN there are no sessions.

The handlers behind `requireAuth` and the file server do not access `authState`; here they are any
program of their own (`Backend`). -/

namespace LanRoom.Routes

open LanRoom.Upload (Time)
open LanRoom.Auth (AuthState AuthRequest AuthPC Peer authStep)
open ThreadPool (Tid Machine Act)

/-! ## The whole server -/

/-- The handlers that do not access `authState`, with the state they share, and what a client sees
of one. -/
structure Backend (ω ι ρ κ ε : Type*) where
  machine : Machine ω ι κ ε
  /-- `next(w, r)`. -/
  call : Handler → Request → ι
  reply : ι → Option ρ
  /-- `s.hub.ClientCount()`. -/
  clientCount : ω → ℕ

/-- A thread of the server. -/
inductive ServerThread (ι : Type*)
  /-- A request on its way to its handler, in `handleInfo` or in `handleAuth`, or a `prune`. -/
  | front (th : Thread)
  /-- `handleQRCode` has answered. -/
  | image (answer : Except Auth.Answer Bytes)
  /-- Another handler. -/
  | back (th : ι)

/-- What a client sees of its request. -/
inductive Reply (ρ : Type*)
  | auth (a : Auth.Answer)
  | info (resp : InfoResponse)
  /-- `http.ServeMux` answers. -/
  | unmatched
  | image (answer : Except Auth.Answer Bytes)
  | back (answer : ρ)

section Server

variable {ω ι ρ κ ε : Type*} (cfg : Config) (encode : GoString → Option Bytes)
  (B : Backend ω ι ρ κ ε)

/-- The answer of a request, once there is one. -/
def ServerThread.answer : ServerThread ι → Option (Reply ρ)
  | .front (.request _ (.auth (.done a))) => some (.auth a)
  | .front (.request _ (.info resp)) => some (.info resp)
  | .front (.request _ (.refused a)) => some (.auth a)
  | .front (.request _ .unmatched) => some .unmatched
  | .front _ => none
  | .image answer => some (.image answer)
  | .back th => (B.reply th).map .back

/-- A request whose handler has been found goes to it. -/
def enter : Thread → ServerThread ι
  | .request r (.inner .handleQRCode) => .image (handleQRCode cfg encode r)
  | .request r (.inner h) => .back (B.call h r)
  | th => .front th

/-- The number of clients is read when the request is handled. -/
def Thread.counted (n : ℕ) : Thread → Thread
  | .request r .start => .request { r with clientCount := n } .start
  | th => th

/-- The next section of a thread of the server. -/
def serverStep (t : Tid) (k : κ) (s : Auth.State × ω) :
    ServerThread ι → Option ((Auth.State × ω) × ServerThread ι × List (ServerThread ι))
  | .front th => ((th.counted (B.clientCount s.2)).step cfg s.1).map fun x =>
      ((x.1, s.2), enter cfg encode B x.2, [])
  | .image _ => none
  | .back th => (B.machine.step t k s.2 th).map fun x =>
      ((s.1, x.1), .back x.2.1, x.2.2.map .back)

/-- The **server** with all its handlers; time passes for `authState` and something happens to the
rest. -/
def server : Machine (Auth.State × ω) (ServerThread ι) κ (ℕ ⊕ ε) where
  step := serverStep cfg encode B
  env
    | .inl d, s => ((machine cfg).env d s.1, s.2)
    | .inr e, s => (s.1, B.machine.env e s.2)

/-- The server has been started with a PIN. -/
def start (pin : GoString) (now : Time) (w : ω) :
    ThreadPool.Config (Auth.State × ω) (ServerThread ι) :=
  ⟨(⟨Auth.newAuthState pin now, fun _ => 0⟩, w), []⟩

/-- The answers so far, request by request. -/
def answers (c : ThreadPool.Config (Auth.State × ω) (ServerThread ι)) : List (Option (Reply ρ)) :=
  c.threads.map (ServerThread.answer B)

/-- The path of `handleAuth`. -/
def authPath : GoString := goString "/api/auth"

/-- What arrives: a request or a tick of the cleanup timer, or a thread of the other handlers. A
request to `handleAuth` carries neither PIN. -/
def ServerThread.Unaware (p q : GoString) : ServerThread ι → Prop
  | .front (.request r .start) => r.path = authPath → r.pin ≠ some p ∧ r.pin ≠ some q
  | .front (.prune .start) => True
  | .back _ => True
  | _ => False

end Server

/-! ## Two PINs -/

variable {cfg : Config} {p q : GoString} {a : AuthState} {s s' : Auth.State} {r : Request}

/-- The same state with another PIN. -/
def rekey (q : GoString) (s : Auth.State) : Auth.State :=
  { s with auth := { s.auth with pin := q } }

/-- The servers' states: they differ in the PIN, and nobody has a session. -/
structure Twin (p q : GoString) (s s₁ : Auth.State) : Prop where
  twin : s₁ = rekey q s
  pin : s.auth.pin = p
  sessions : ∀ token, s.auth.sessions token = none

/-- The request of a thread carries neither PIN, and has not been let in. -/
def Thread.Ignorant (p q : GoString) : Thread → Prop
  | .request r .start => r.path = authPath → r.pin ≠ some p ∧ r.pin ≠ some q
  | .request r (.auth pc) =>
      (r.pin ≠ some p ∧ r.pin ≠ some q) ∧ ∀ token, pc ≠ .letIn token
  | _ => True

/-- `tooManyFails` does not read the PIN. It is a function of the peer, its window and the clock. -/
theorem tooManyFails_rekey (peer : Peer) :
    ({ a with pin := q }).tooManyFails peer =
      ({ (a.tooManyFails peer).1 with pin := q }, (a.tooManyFails peer).2) := by
  unfold AuthState.tooManyFails
  cases hwindow : a.fails peer with
  | none => rfl
  | some f =>
      by_cases hexpired : a.expired f = true
      · have hexpired' : ({ a with pin := q }).expired f = true := hexpired
        simp only [hexpired, hexpired', if_true]
        rfl
      · have hexpired' : ¬({ a with pin := q }).expired f = true := hexpired
        simp only [hexpired, hexpired', Bool.false_eq_true, if_false]

/-- Sessions are not touched by `tooManyFails`. A failed attempt says nothing about who is logged
in. -/
theorem sessions_tooManyFails (peer : Peer) :
    (a.tooManyFails peer).1.sessions = a.sessions ∧ (a.tooManyFails peer).1.pin = a.pin := by
  unfold AuthState.tooManyFails
  split
  · exact ⟨rfl, rfl⟩
  · split <;> exact ⟨rfl, rfl⟩

/-- A path that leads to `handleAuth` is `authPath`. The PIN is compared in this handler alone. -/
theorem path_of_handleAuth {path : GoString} {reg : Registration}
    (h : mux (registrations cfg) path = .registered reg) (hauth : reg.handler = .handleAuth) :
    path = authPath := by
  have hreg : reg.pattern = authPath := by
    have hmem := mem_of_mux h
    unfold registrations at hmem
    rcases List.mem_append.mp hmem with hmem | hmem
    · simp only [List.mem_cons, List.not_mem_nil, or_false] at hmem
      rcases hmem with rfl | rfl | rfl | rfl | rfl | rfl | rfl | rfl <;> first | rfl | cases hauth
    · split at hmem
      · obtain rfl := List.mem_singleton.mp hmem
        cases hauth
      · cases hmem
  unfold mux at h
  split at h
  · rename_i reg' hfind
    obtain rfl := Match.registered.inj h
    have hpattern := List.find?_some hfind
    exact (of_decide_eq_true hpattern).symm.trans hreg
  · split at h
    · cases h
    · split at h
      · -- `authPath` does not end in a slash
        rename_i reg' hmax
        obtain rfl := Match.registered.inj h
        have hcovers := (List.mem_filter.mp (List.argmax_mem hmax)).2
        unfold Registration.covers at hcovers
        rw [hreg] at hcovers
        exact absurd (Bool.and_eq_true _ _ |>.mp hcovers).1 (by decide +kernel)
      · cases h

/-- A PIN that is not empty is required. The two servers of the comparison both ask for one. -/
theorem enabled_of_ne (h : a.pin ≠ []) : a.enabled = true := decide_eq_true h

/-- Whoever has no session is not authorized, whatever the PIN is. -/
theorem authorized_eq_false (hpin : a.pin ≠ []) (hsessions : ∀ token, a.sessions token = none) :
    authorized a r = false := by
  have henabled : a.enabled = true := enabled_of_ne hpin
  unfold authorized
  rw [henabled]
  simp only [Bool.true_eq_false, if_false]
  split
  · rfl
  · rw [hsessions]

/-- A section of `handleAuth` for a request that carries neither PIN: the same outcome in both
states, and the request is not let in. -/
theorem twin_authStep {s₁ : Auth.State} {r : AuthRequest} {pc : AuthPC} (hp : p ≠ []) (hq : q ≠ [])
    (htwin : Twin p q s s₁) (hpins : r.pin ≠ some p ∧ r.pin ≠ some q)
    (hout : ∀ token, pc ≠ .letIn token) :
    Option.Rel (fun x y => Twin p q x.1 y.1 ∧ x.2 = y.2 ∧ ∀ token, x.2 ≠ .letIn token)
      (authStep s r pc) (authStep s₁ r pc) := by
  obtain ⟨rfl, rfl, hsessions⟩ := htwin
  have htwin : Twin s.auth.pin q s (rekey q s) := ⟨rfl, rfl, hsessions⟩
  have henabled : s.auth.enabled = true := enabled_of_ne hp
  have henabled' : (rekey q s).auth.enabled = true := enabled_of_ne hq
  cases pc with
  | start =>
      unfold authStep
      by_cases hpost : r.method ≠ .post
      · simp only [if_pos hpost]
        exact .some ⟨htwin, rfl, fun _ => AuthPC.noConfusion⟩
      · -- the counting of failures does not look at the PIN
        have hfails := tooManyFails_rekey (a := s.auth) (q := q) r.peer
        have hkept := sessions_tooManyFails (a := s.auth) r.peer
        have hafter : Twin s.auth.pin q (s.become (s.auth.tooManyFails r.peer).1)
            ((rekey q s).become { (s.auth.tooManyFails r.peer).1 with pin := q }) :=
          ⟨rfl, hkept.2, fun token => by
            show (s.auth.tooManyFails r.peer).1.sessions token = none
            rw [hkept.1]
            exact hsessions token⟩
        have hfails' : (rekey q s).auth.tooManyFails r.peer =
            ({ (s.auth.tooManyFails r.peer).1 with pin := q }, (s.auth.tooManyFails r.peer).2) :=
          hfails
        simp only [if_neg hpost, henabled, henabled', Bool.true_eq_false, if_false, hfails']
        generalize s.auth.tooManyFails r.peer = out at hafter
        obtain ⟨a', many⟩ := out
        cases many with
        | true => exact .some ⟨hafter, rfl, fun _ => AuthPC.noConfusion⟩
        | false => exact .some ⟨hafter, rfl, fun _ => AuthPC.noConfusion⟩
  | compare =>
      unfold authStep
      cases hpin : r.pin with
      | none => exact .some ⟨htwin, rfl, fun _ => AuthPC.noConfusion⟩
      -- a submitted PIN is neither of the two, so both servers refuse it
      | some pin =>
          have hwrong : pin ≠ s.auth.pin := fun heq => hpins.1 (heq ▸ hpin)
          have hwrong' : pin ≠ (rekey q s).auth.pin := fun heq => hpins.2 (hpin.trans (congrArg some heq))
          simp only [if_pos hwrong, if_pos hwrong']
          exact .some ⟨⟨rfl, rfl, hsessions⟩, rfl, fun _ => AuthPC.noConfusion⟩
  | recordFail =>
      refine .some ⟨⟨?_, rfl, hsessions⟩, rfl, fun _ => AuthPC.noConfusion⟩
      show (rekey q s).become ((rekey q s).auth.recordFail r.peer) =
        rekey q (s.become (s.auth.recordFail r.peer))
      rfl
  | letIn token => exact absurd rfl (hout token)
  | done ans => exact .none

/-- The handler found for a request is called with the same outcome, and a request that comes to
`handleAuth` carries neither PIN. -/
theorem twin_dispatch {s₁ : Auth.State} (hp : p ≠ []) (hq : q ≠ []) (htwin : Twin p q s s₁)
    (hpins : r.path = authPath → r.pin ≠ some p ∧ r.pin ≠ some q) {reg : Registration}
    (hmux : mux (registrations cfg) r.path = .registered reg) :
    dispatch cfg s.auth r reg = dispatch cfg s₁.auth r reg ∧
      (Thread.request r (dispatch cfg s.auth r reg)).Ignorant p q := by
  obtain ⟨rfl, rfl, hsessions⟩ := htwin
  have hno : authorized s.auth r = false := authorized_eq_false hp hsessions
  have hno' : authorized (rekey q s).auth r = false := authorized_eq_false hq hsessions
  have henabled : s.auth.enabled = true := enabled_of_ne hp
  have henabled' : (rekey q s).auth.enabled = true := enabled_of_ne hq
  have hinfo : handleInfo cfg s.auth r = handleInfo cfg (rekey q s).auth r := by
    simp [handleInfo, hno, hno', henabled, henabled']
  unfold dispatch
  rw [hno, hno']
  split
  · exact ⟨rfl, trivial⟩
  · cases hhandler : reg.handler with
    | handleInfo => exact ⟨congrArg RequestPC.info hinfo, trivial⟩
    | handleAuth =>
        exact ⟨rfl, hpins (path_of_handleAuth hmux hhandler), fun _ => AuthPC.noConfusion⟩
    | _ => exact ⟨rfl, trivial⟩

/-- **The step theorem**: a section of the front has the same outcome for both servers. The two
states differ in the PIN alone, and the requests carry neither of the two PINs, so every comparison
fails on both. -/
theorem twin_step (cfg : Config) {s₁ : Auth.State} {th : Thread} (hp : p ≠ []) (hq : q ≠ [])
    (htwin : Twin p q s s₁) (hth : th.Ignorant p q) :
    Option.Rel (fun x y => Twin p q x.1 y.1 ∧ x.2 = y.2 ∧ x.2.Ignorant p q)
      (th.step cfg s) (th.step cfg s₁) := by
  cases th with
  | prune pc =>
      obtain ⟨rfl, rfl, hsessions⟩ := htwin
      cases pc with
      | start => exact .some ⟨⟨rfl, rfl, hsessions⟩, rfl, trivial⟩
      -- there are no sessions to prune on either server
      | drop now =>
          refine .some ⟨⟨rfl, rfl, fun token => ?_⟩, rfl, trivial⟩
          show (s.auth.sessions token).filter _ = none
          rw [hsessions]
          rfl
      | ended => exact .none
  | request r pc =>
      cases pc with
      -- the middleware and the dispatch
      | start =>
          show Option.Rel _ (Option.map _ (requestStep cfg s r .start))
            (Option.map _ (requestStep cfg s₁ r .start))
          unfold requestStep
          cases hmux : mux (registrations cfg) r.path with
          | registered reg =>
              obtain ⟨heq, hignorant⟩ := twin_dispatch hp hq htwin hth hmux
              exact .some ⟨htwin, by rw [heq], hignorant⟩
          | redirect => exact .some ⟨htwin, rfl, trivial⟩
          | notFound => exact .some ⟨htwin, rfl, trivial⟩
      -- a section of `handleAuth`
      | auth pc =>
          have hsection := twin_authStep (s := s) hp hq htwin hth.1 hth.2
          show Option.Rel _ (Option.map _ (Option.map _ (authStep s r.toAuthRequest pc)))
            (Option.map _ (Option.map _ (authStep s₁ r.toAuthRequest pc)))
          generalize authStep s r.toAuthRequest pc = out at hsection
          generalize authStep s₁ r.toAuthRequest pc = out₁ at hsection
          cases hsection with
          | none => exact .none
          | some hrel =>
              obtain ⟨htwin', heq, hout⟩ := hrel
              exact .some ⟨htwin', by simp only [heq], hth.1, hout⟩
      | inner h => exact .none
      | info resp => exact .none
      | refused a => exact .none
      | unmatched => exact .none

/-! ## Lockstep -/

section Server

variable {ω ι ρ κ ε : Type*} {encode : GoString → Option Bytes} {B : Backend ω ι ρ κ ε}

/-- No thread of the front carries either PIN. -/
def ServerThread.Ignorant (p q : GoString) : ServerThread ι → Prop
  | .front th => th.Ignorant p q
  | _ => True

/-- A thread that does not know the PIN does not learn it by starting. -/
theorem ignorant_of_unaware {th : ServerThread ι} (h : th.Unaware p q) : th.Ignorant p q := by
  unfold ServerThread.Unaware at h
  split at h
  · exact h
  · trivial
  · trivial
  · exact h.elim

/-- Going to another handler takes no PIN along. The handler sees the request, and the request is
the same on both servers. -/
theorem ignorant_enter {th : Thread} (h : th.Ignorant p q) :
    (enter cfg encode B th).Ignorant p q := by
  unfold enter
  split
  · trivial
  · trivial
  · exact h

/-- The count of a route does not depend on the PIN. Metering looks at the peer and at the route. -/
theorem ignorant_counted {th : Thread} {n : ℕ} (h : th.Ignorant p q) :
    (th.counted n).Ignorant p q := by
  unfold Thread.counted
  split
  · exact h
  · exact h

/-- The two servers run in lockstep. Each section of one server is one of the other, with the same
answers. -/
theorem lockstep_server (cfg : Config) (encode : GoString → Option Bytes) (B : Backend ω ι ρ κ ε)
    (hp : p ≠ []) (hq : q ≠ []) :
    (server cfg encode B).Lockstep (fun s s₁ => Twin p q s.1 s₁.1 ∧ s.2 = s₁.2)
      (ServerThread.Ignorant p q) where
  step := by
    rintro t k ⟨s, w⟩ ⟨s₁, w₁⟩ th ⟨htwin, rfl⟩ hth
    -- in front of the handlers the two servers differ in the PIN only
    cases th with
    | front th =>
        have hsection := twin_step cfg hp hq htwin
          (ignorant_counted (n := B.clientCount w) hth)
        show Option.Rel _ (Option.map _ ((th.counted (B.clientCount w)).step cfg s))
          (Option.map _ ((th.counted (B.clientCount w)).step cfg s₁))
        generalize (th.counted (B.clientCount w)).step cfg s = out at hsection
        generalize (th.counted (B.clientCount w)).step cfg s₁ = out₁ at hsection
        cases hsection with
        | none => exact .none
        | some hrel =>
            obtain ⟨htwin', heq, hignorant⟩ := hrel
            exact .some ⟨⟨htwin', rfl⟩, by simp only [heq], ignorant_enter hignorant,
              fun f hf => absurd hf List.not_mem_nil⟩
    | image answer => exact .none
    -- behind them the backend does not know the PIN
    | back th =>
        show Option.Rel _ (Option.map _ (B.machine.step t k w th))
          (Option.map _ (B.machine.step t k w th))
        cases B.machine.step t k w th with
        | none => exact .none
        | some out =>
            refine .some ⟨⟨htwin, rfl⟩, rfl, trivial, fun f hf => ?_⟩
            obtain ⟨i, -, rfl⟩ := List.mem_map.mp hf
            trivial
  env := by
    rintro e ⟨s, w⟩ ⟨s₁, w₁⟩ ⟨htwin, rfl⟩
    obtain ⟨rfl, rfl, hsessions⟩ := htwin
    cases e with
    | inl d => exact ⟨⟨rfl, rfl, hsessions⟩, rfl⟩
    | inr e => exact ⟨⟨rfl, rfl, hsessions⟩, rfl⟩

/-- **The PIN does not leak**: two servers configured with different PINs and otherwise identical
give the same answers along every schedule in which no request carries either PIN. -/
theorem answers_eq (cfg : Config) (encode : GoString → Option Bytes) (B : Backend ω ι ρ κ ε)
    (w : ω) (now : Time) (hp : p ≠ []) (hq : q ≠ []) (acts : List (Act (ServerThread ι) κ (ℕ ⊕ ε)))
    (hunaware : ∀ th, Act.spawn th ∈ acts → th.Unaware p q) :
    ((server cfg encode B).execAll (start p now w) acts).map (answers B) =
      ((server cfg encode B).execAll (start q now w) acts).map (answers B) := by
  have hstart : Machine.Level (fun s s₁ : Auth.State × ω => Twin p q s.1 s₁.1 ∧ s.2 = s₁.2)
      (ServerThread.Ignorant p q) (start p now w : ThreadPool.Config _ (ServerThread ι)) (start q now w) :=
    ⟨⟨⟨rfl, rfl, fun _ => rfl⟩, rfl⟩, rfl, fun th hth => absurd hth List.not_mem_nil⟩
  have harrive : ∀ th, Act.spawn th ∈ acts → th.Ignorant p q := fun th hth =>
    ignorant_of_unaware (hunaware th hth)
  have hrun := (lockstep_server cfg encode B hp hq).execAll hstart harrive
  generalize (server cfg encode B).execAll (start p now w) acts = out at hrun
  generalize (server cfg encode B).execAll (start q now w) acts = out₁ at hrun
  cases hrun with
  | none => rfl
  | some hlevel =>
      show some (answers B _) = some (answers B _)
      unfold answers
      rw [hlevel.threads]

end Server

namespace Sample

/-- No other handler is ever called. -/
def backend : Backend Unit Unit Unit Unit Unit where
  machine := { step := fun _ _ _ _ => none, env := fun _ s => s }
  call _ _ := ()
  reply _ := none
  clientCount _ := 0

/-- Someone without a cookie opens the page. -/
def visit : ServerThread Unit :=
  .front (.request { method := .get, peer := [], pin := none, path := goString "/api/info" } .start)

/-- Someone tries the PIN `3`. -/
def attempt : ServerThread Unit :=
  .front (.request { method := .post, peer := [], pin := some [0x33], path := authPath } .start)

/-- A visit and an attempt are handled, with a tick of the cleanup timer between them. -/
def probes : List (Act (ServerThread Unit) Unit (ℕ ⊕ Unit)) :=
  [.spawn visit, .spawn attempt, .spawn (.front (.prune .start)), .run 0 (), .run 1 (), .run 1 (),
    .run 2 (), .env (.inl 7), .run 2 (), .run 1 (), .run 1 ()]

/-- The requests of the run know neither PIN. What is submitted in it is a third PIN, which is wrong
on both servers. -/
theorem unaware (th : ServerThread Unit) (h : Act.spawn th ∈ probes) :
    th.Unaware [0x31] [0x32] := by
  have hth : th = visit ∨ th = attempt ∨ th = .front (.prune .start) := by
    simpa [probes] using h
  rcases hth with rfl | rfl | rfl
  · intro hpath
    exact absurd hpath (by decide +kernel)
  · exact fun _ => by decide
  · trivial

end Sample

/-- Three requests, answered alike by two servers with different PINs. -/
theorem answers_eq_sample : ∃ xs, xs.length = 3 ∧
    ((server ⟨[], 8787, false, 0, 0, []⟩ (fun _ => none) Sample.backend).execAll
      (start [0x31] 0 ()) Sample.probes).map (answers Sample.backend) = some xs ∧
    ((server ⟨[], 8787, false, 0, 0, []⟩ (fun _ => none) Sample.backend).execAll
      (start [0x32] 0 ()) Sample.probes).map (answers Sample.backend) = some xs := by
  have hlength : (((server ⟨[], 8787, false, 0, 0, []⟩ (fun _ => none) Sample.backend).execAll
      (start [0x31] 0 ()) Sample.probes).map (answers Sample.backend)).map List.length =
        some 3 := by
    decide +kernel
  obtain ⟨xs, hxs, hthree⟩ := Option.map_eq_some_iff.mp hlength
  refine ⟨xs, hthree, hxs, ?_⟩
  rw [← hxs]
  exact (answers_eq _ _ Sample.backend () 0 (by decide) (by decide) Sample.probes
    Sample.unaware).symm

end LanRoom.Routes

import LanRoom.Auth.GuessLimit
import LanRoom.Routes.Model

/-! # The session cookie opens the gate

With a PIN configured, a protected handler runs, and `handleInfo` shows the PIN, only for a request
whose session cookie `handleAuth` has handed out less than `sessionTTL` ago in answer to the right
PIN (`session_required`). What carries the argument is where a stored session comes from
(`Accounted`): storing it is the last section of a `handleAuth` that has compared the PIN. -/

namespace LanRoom.Routes

open LanRoom.Upload (Time)
open LanRoom.Auth (AuthState AuthRequest AuthPC Peer authStep sessionTTL admitted)
open ThreadPool (Tid Machine Act)

variable {cfg : Config} {pin : GoString} {now : Time} {s s' : Auth.State} {a : AuthState}
  {r : Request} {th th' : Thread} {t : Tid} {c d : ThreadPool.Config Auth.State Thread}

/-! ## Which handlers are wrapped -/

/-- The handlers that only a device in the room may reach. -/
def Handler.guarded : Handler → Bool
  | .handleUpload | .handleUploadCreate | .handleUploadSession | .handleDownload
  | .handleWebSocket => true
  | _ => false

/-- A path leads to a registered handler only. What is not registered ends in a fixed answer of the
mux itself. -/
theorem mem_of_mux {regs : List Registration} {path : GoString} {reg : Registration}
    (h : mux regs path = .registered reg) : reg ∈ regs := by
  unfold mux at h
  split at h
  · rename_i reg' hfind
    obtain rfl := Match.registered.inj h
    exact List.mem_of_find?_eq_some hfind
  · split at h
    · cases h
    · split at h
      · rename_i reg' hmax
        obtain rfl := Match.registered.inj h
        exact (List.mem_filter.mp (List.argmax_mem hmax)).1
      · cases h

/-- No guarded handler is registered without the wrapper. It is read off the list of
registrations. -/
theorem protect_of_guarded {reg : Registration} (hmem : reg ∈ registrations cfg)
    (hguarded : reg.handler.guarded = true) : reg.protect = true := by
  unfold registrations at hmem
  rcases List.mem_append.mp hmem with hmem | hmem
  · simp only [List.mem_cons, List.not_mem_nil, or_false] at hmem
    rcases hmem with rfl | rfl | rfl | rfl | rfl | rfl | rfl | rfl
    · cases hguarded
    · cases hguarded
    · cases hguarded
    · rfl
    · rfl
    · rfl
    · rfl
    · rfl
  · split at hmem
    · obtain rfl := List.mem_singleton.mp hmem
      cases hguarded
    · cases hmem

/-! ## Admission -/

/-- The request has got what only a device in the room may have: a guarded handler runs for it, or
it is shown a join URL with something added to it. -/
def Thread.Enters (cfg : Config) (r : Request) : Thread → Prop
  | .request r' (.inner h) => r' = r ∧ h.guarded = true
  | .request r' (.info resp) => r' = r ∧ resp.joinURL ≠ bareJoinURL cfg r
  | _ => False

/-- An authorized request carries a session that is not over. -/
theorem session_of_authorized (henabled : a.enabled = true) (h : authorized a r = true) :
    ∃ token expiry, r.cookie sessionCookie = some token ∧ a.sessions token = some expiry ∧
      a.now < expiry := by
  unfold authorized at h
  rw [henabled] at h
  simp only [Bool.true_eq_false, if_false] at h
  split at h
  · cases h
  · rename_i token hcookie
    split at h
    · cases h
    · rename_i expiry hsession
      exact ⟨token, expiry, hcookie, hsession, of_decide_eq_true h⟩

/-- Only authorized requests are let in. The wrapper answers all others itself, before the handler
is entered. -/
theorem authorized_of_dispatch {reg : Registration} (hmem : reg ∈ registrations cfg)
    (h : (Thread.request r (dispatch cfg a r reg)).Enters cfg r) : authorized a r = true := by
  by_contra hno
  have hno : authorized a r = false := Bool.not_eq_true _ |>.mp hno
  unfold dispatch at h
  split at h
  · exact h
  · rename_i hopen
    have hunguarded : reg.handler.guarded = false := by
      by_contra hguarded
      have hguarded := Bool.not_eq_false _ |>.mp hguarded
      exact hopen ⟨protect_of_guarded hmem hguarded, hno⟩
    split at h
    · -- the PIN is not shown to a request that is not authorized
      refine h.2 ?_
      simp [handleInfo, hno]
    · exact h
    · exact absurd (hunguarded.symm.trans h.2) (by decide)

/-- **The step theorem**: the section that lets a request in has found its session. The wrapper and
`handleInfo` look the session up in the same section in which they let the request in. -/
theorem authorized_of_enters {th₀ : Thread} (hstep : th₀.step cfg s = some (s', th))
    (henter : th.Enters cfg r) : th₀ = .request r .start ∧ s' = s ∧ authorized s.auth r = true := by
  cases th₀ with
  | prune pc =>
      obtain ⟨x, -, heq⟩ := Option.map_eq_some_iff.mp hstep
      cases heq
      exact henter.elim
  | request r' pc =>
      obtain ⟨⟨s₁, pc₁⟩, hx, heq⟩ := Option.map_eq_some_iff.mp hstep
      cases heq
      cases pc with
      -- only the section that dispatches a request enters a handler
      | start =>
          simp only [requestStep] at hx
          split at hx
          · -- a route matched, so the middleware has asked for the session
            rename_i reg hmux
            obtain ⟨rfl, rfl⟩ := Prod.mk.inj (Option.some.inj hx)
            have hr : r' = r := by
              unfold Thread.Enters at henter
              split at henter
              · rename_i heq
                exact (Thread.request.inj heq).1.trans henter.1
              · rename_i heq
                exact (Thread.request.inj heq).1.trans henter.1
              · exact henter.elim
            subst hr
            exact ⟨rfl, rfl, authorized_of_dispatch (mem_of_mux hmux) henter⟩
          · obtain ⟨rfl, rfl⟩ := Prod.mk.inj (Option.some.inj hx)
            exact henter.elim
      -- `handleAuth` leads to its own places only
      | auth pc =>
          obtain ⟨y, -, heq⟩ := Option.map_eq_some_iff.mp hx
          cases heq
          exact henter.elim
      | inner h => cases hx
      | info resp => cases hx
      | refused ans => cases hx
      | unmatched => cases hx

/-! ## Where sessions come from -/

/-- What a section does to `authState`: a session is stored by the last section of `handleAuth`
only. -/
structure Effect (s : Auth.State) (th : Thread) (s' : Auth.State) : Prop where
  pin : s'.auth.pin = s.auth.pin
  now : s'.auth.now = s.auth.now
  sessions : ∀ token expiry, s'.auth.sessions token = some expiry →
    s.auth.sessions token = some expiry ∨
      ∃ q, th = .request q (.auth (.letIn token)) ∧ expiry = s.auth.now + sessionTTL

/-- A section that changes nothing issues no token. This is the case of all sections that only
read. -/
theorem Effect.refl : Effect s th s := ⟨rfl, rfl, fun _ _ h => .inl h⟩

/-- A section that leaves PIN, clock and sessions alone. What else it changes does not matter for
what may be entered. -/
theorem Effect.of_same (hpin : s'.auth.pin = s.auth.pin) (hnow : s'.auth.now = s.auth.now)
    (hsessions : s'.auth.sessions = s.auth.sessions) : Effect s th s' :=
  ⟨hpin, hnow, fun token expiry h => .inl (by rwa [hsessions] at h)⟩

/-- The check touches the windows of failures only. No session is begun or ended by it. -/
theorem effect_tooManyFails (s : Auth.State) (peer : Peer) :
    Effect s th (s.become (s.auth.tooManyFails peer).1) := by
  have hsame : ∃ fails, (s.auth.tooManyFails peer).1 = { s.auth with fails } := by
    unfold AuthState.tooManyFails
    split
    · exact ⟨_, rfl⟩
    · split <;> exact ⟨_, rfl⟩
  obtain ⟨fails, heq⟩ := hsame
  rw [heq]
  exact .of_same rfl rfl rfl

/-- A login adds one session, which expires `sessionTTL` later. -/
theorem effect_letIn (s : Auth.State) (q : Request) (token : GoString) :
    Effect s (.request q (.auth (.letIn token))) (s.become (s.auth.letIn q.peer token)) := by
  refine ⟨rfl, rfl, fun token' expiry h => ?_⟩
  by_cases heq : token' = token
  · subst heq
    have hnew : some (s.auth.now + sessionTTL) = some expiry := by
      rw [← h]
      exact (Function.update_self token' (some (s.auth.now + sessionTTL)) s.auth.sessions).symm
    exact .inr ⟨q, rfl, (Option.some.inj hnew).symm⟩
  · refine .inl ?_
    rw [← h]
    exact (Function.update_of_ne heq (some (s.auth.now + sessionTTL)) s.auth.sessions).symm

/-- The timer only removes sessions and windows. A token that is valid afterwards was valid
before. -/
theorem effect_prune (s : Auth.State) (now : Time) :
    Effect s th (s.become (pruneAt s.auth now)) := by
  refine ⟨rfl, rfl, fun token expiry h => .inl ?_⟩
  have hkept : (s.auth.sessions token).filter (fun expiry => !decide (expiry < now)) =
      some expiry := h
  exact (Option.filter_eq_some_iff.mp hkept).1

/-- Every section of a thread has such an effect. Later proofs use this and do not unfold the
handlers. -/
theorem Effect.of_step (h : th.step cfg s = some (s', th')) : Effect s th s' := by
  cases th with
  | prune pc =>
      obtain ⟨x, hx, heq⟩ := Option.map_eq_some_iff.mp h
      cases heq
      cases pc with
      | start =>
          obtain rfl := Option.some.inj hx
          exact .refl
      | drop now =>
          obtain rfl := Option.some.inj hx
          exact effect_prune s now
      | ended => cases hx
  | request q pc =>
      obtain ⟨x, hx, heq⟩ := Option.map_eq_some_iff.mp h
      cases heq
      cases pc with
      | start =>
          simp only [requestStep] at hx
          -- dispatching a request changes nothing
          split at hx <;> cases hx <;> exact .refl
      | auth pc =>
          obtain ⟨y, hy, heq⟩ := Option.map_eq_some_iff.mp hx
          cases heq
          have hsection : Auth.Section s q.toAuthRequest pc y.1 y.2 := .of_step hy
          generalize y.1 = s₁, y.2 = pc₁ at hsection
          cases hsection with
          -- the sections of `handleAuth`; only the last one stores a session
          | answered | ended hright | right hright => exact .refl
          | refused | passed hpass => exact effect_tooManyFails s q.peer
          | wrong hwrong | recorded => exact .of_same rfl rfl rfl
          | admitted => exact effect_letIn s q _
      | inner h => cases hx
      | info resp => cases hx
      | refused ans => cases hx
      | unmatched => cases hx

/-- `handleAuth` goes on to hand out a session only after the right PIN. -/
theorem pin_of_letIn {q : AuthRequest} {pc : AuthPC} {token : GoString}
    (h : authStep s q pc = some (s', .letIn token)) : q.pin = some s.auth.pin := by
  cases pc with
  | start =>
      simp only [authStep] at h
      split at h
      · cases h
      · split at h
        · cases h
        · split at h <;> cases h
  -- the token is drawn where the submitted PIN was found equal to the configured one
  | compare =>
      simp only [authStep] at h
      split at h
      · cases h
      · rename_i pin hpin
        split at h
        · cases h
        · rename_i hright
          rw [hpin, not_not.mp hright]
  | recordFail => cases h
  | letIn token => cases h
  | done ans => cases h

/-- Thread `t` handles `q` with `handleAuth` and answers with the session cookie `token`. -/
def Issues (cfg : Config) (t : Tid) (q : Request) (token : GoString)
    (c d : ThreadPool.Config Auth.State Thread) : Prop :=
  (machine cfg).exec c (.run t ()) = some d ∧
    c.threads[t]? = some (.request q (.auth (.letIn token))) ∧
    d.threads[t]? = some (.request q (.auth (.done (admitted q.toAuthRequest token))))

/-- On the way to `c`, the session `token` was handed out at `time` in answer to the PIN. -/
def Issued (cfg : Config) (pin : GoString) (now : Time)
    (c : ThreadPool.Config Auth.State Thread) (token : GoString) (time : Time) : Prop :=
  ∃ t q c₁ c₂, (machine cfg).Run Arrivals (boot pin now) c₁ ∧ Issues cfg t q token c₁ c₂ ∧
    (machine cfg).Run Arrivals c₂ c ∧ q.pin = some pin ∧ c₁.shared.auth.now = time

/-- What is handed out stays handed out. The moment at which a token was issued is a fact about the
past of the run. -/
theorem Issued.trans {token : GoString} {time : Time} (h : Issued cfg pin now c token time)
    (hrun : (machine cfg).Run Arrivals c d) : Issued cfg pin now d token time := by
  obtain ⟨t, q, c₁, c₂, hbefore, hissues, hafter, hpin, htime⟩ := h
  exact ⟨t, q, c₁, c₂, hbefore, hissues, hafter.trans hrun, hpin, htime⟩

/-- The invariant: every stored session was handed out `sessionTTL` before it is over, and whoever
is about to be handed one has sent the PIN. -/
structure Accounted (cfg : Config) (pin : GoString) (now : Time)
    (c : ThreadPool.Config Auth.State Thread) : Prop where
  configured : c.shared.auth.pin = pin
  sessions : ∀ token expiry, c.shared.auth.sessions token = some expiry →
    Issued cfg pin now c token (expiry - sessionTTL)
  admits : ∀ (t : Tid) q token, c.threads[t]? = some (.request q (.auth (.letIn token))) →
    q.pin = some pin

/-- A thread that has come to the last section of `handleAuth` has compared the PIN just before. -/
theorem pin_of_step {q : Request} {token : GoString}
    (h : th.step cfg s = some (s', .request q (.auth (.letIn token)))) :
    q.pin = some s.auth.pin := by
  cases th with
  | prune pc =>
      obtain ⟨x, -, heq⟩ := Option.map_eq_some_iff.mp h
      cases heq
  | request q' pc =>
      obtain ⟨⟨s₁, pc₁⟩, hx, heq⟩ := Option.map_eq_some_iff.mp h
      cases heq
      cases pc with
      | start =>
          simp only [requestStep] at hx
          split at hx
          · rename_i reg hmux
            -- no request is dispatched into the middle of `handleAuth`
            have hpc := (Prod.mk.inj (Option.some.inj hx)).2
            unfold dispatch at hpc
            split at hpc
            · cases hpc
            · split at hpc <;> cases hpc
          · cases hx
      | auth pc =>
          obtain ⟨⟨s₂, pc₂⟩, hy, heq⟩ := Option.map_eq_some_iff.mp hx
          cases heq
          exact pin_of_letIn hy
      | inner h => cases hx
      | info resp => cases hx
      | refused ans => cases hx
      | unmatched => cases hx

/-- Whoever is about to be handed a session has sent the PIN. -/
theorem admits_exec {act : Act Thread Unit ℕ} (harrive : Arrivals c act)
    (hexec : (machine cfg).exec c act = some d) (h : Accounted cfg pin now c) {q : Request}
    {token : GoString} (hth : d.threads[t]? = some (.request q (.auth (.letIn token)))) :
    q.pin = some pin := by
  rcases (machine cfg).thread_of_exec hexec hth with hold | rfl | ⟨k, th, fs, -, -, hstep⟩ |
    ⟨u, k, th, th₁, fs, -, -, hstep, hmem⟩
  · exact h.admits t q token hold
  · -- a request that has just arrived is at its first program point
    rcases harrive _ rfl with ⟨r, hstart⟩ | hstart <;> cases hstart
  · obtain ⟨x, hx, heq⟩ := Option.map_eq_some_iff.mp hstep
    have hself := (Prod.mk.inj (Prod.mk.inj heq).2).1
    have hpin := pin_of_step (hx.trans (congrArg some (Prod.ext rfl hself)))
    rwa [h.configured] at hpin
  · obtain ⟨x, -, heq⟩ := Option.map_eq_some_iff.mp hstep
    rw [← (Prod.mk.inj (Prod.mk.inj heq).2).2] at hmem
    cases hmem

/-- **The step theorem**: every action keeps sessions accounted for. A session is only stored by the
last section of a `handleAuth` that has compared a right PIN. -/
theorem accounted_exec {act : Act Thread Unit ℕ}
    (hrun : (machine cfg).Run Arrivals (boot pin now) c) (harrive : Arrivals c act)
    (hexec : (machine cfg).exec c act = some d) (h : Accounted cfg pin now c) :
    Accounted cfg pin now d := by
  have hmore : (machine cfg).Run Arrivals c d := .tail .refl harrive hexec
  have hold : ∀ token expiry, c.shared.auth.sessions token = some expiry →
      Issued cfg pin now d token (expiry - sessionTTL) := fun token expiry hsession =>
    (h.sessions token expiry hsession).trans hmore
  have hadmits : ∀ (t : Tid) (q : Request) (token : GoString),
      d.threads[t]? = some (.request q (.auth (.letIn token))) → q.pin = some pin :=
    fun t q token => admits_exec harrive hexec h
  cases act with
  | spawn th =>
      obtain rfl := Option.some.inj hexec
      exact ⟨h.configured, hold, hadmits⟩
  | env e =>
      obtain rfl := Option.some.inj hexec
      exact ⟨h.configured, hold, hadmits⟩
  | run t k =>
      obtain ⟨th, s', th', fs, hth, hmachine, hd⟩ := (machine cfg).exec_run_iff.mp hexec
      obtain ⟨⟨s₁, th₁⟩, hstep, heq⟩ := Option.map_eq_some_iff.mp hmachine
      obtain ⟨rfl, hrest⟩ := Prod.mk.inj heq
      obtain ⟨rfl, rfl⟩ := Prod.mk.inj hrest
      have heffect : Effect c.shared th s₁ := .of_step hstep
      refine ⟨?_, fun token expiry hsession => ?_, hadmits⟩
      · rw [hd]
        exact heffect.pin.trans h.configured
      · rw [hd] at hsession
        rcases heffect.sessions token expiry hsession with hkept | ⟨q, rfl, hexpiry⟩
        · exact hold token expiry hkept
        · -- this section has handed the session out
          have hdone : th₁ = .request q (.auth (.done (admitted q.toAuthRequest token))) :=
            (Prod.mk.inj (Option.some.inj hstep)).2.symm
          have hself : d.threads[t]? = some th₁ := by
            rw [hd, List.append_nil]
            exact List.getElem?_set_self (List.getElem?_eq_some_iff.mp hth).1
          have htime : c.shared.auth.now = expiry - sessionTTL := eq_sub_of_add_eq hexpiry.symm
          exact ⟨t, q, c, d, hrun, ⟨hexec, hth, hself.trans (congrArg some hdone)⟩, .refl,
            h.admits t q token hth, htime⟩

/-! ## The gate -/

/-- Every reachable configuration accounts for its sessions. Each of them goes back to a login with
the right PIN at a time that is recorded. -/
theorem accounted_of_run (hrun : (machine cfg).Run Arrivals (boot pin now) c) :
    Accounted cfg pin now c := by
  have hboot : Accounted cfg pin now (boot pin now) :=
    ⟨rfl, fun token expiry h => (Option.some_ne_none expiry h.symm).elim, fun t q token h => by
      cases h⟩
  induction hrun with
  | refl => exact hboot
  | tail hbefore harrive hexec ih => exact accounted_exec hbefore harrive hexec ih

/-- The clock does not go back. An expiry that has passed has therefore passed for good. -/
theorem now_le_of_run (hrun : (machine cfg).Run Arrivals c d) :
    c.shared.auth.now ≤ d.shared.auth.now := by
  induction hrun with
  | refl => exact le_refl _
  | @tail c₁ c₂ act _ _ hexec ih =>
      refine ih.trans ?_
      cases act with
      | spawn th =>
          obtain rfl := Option.some.inj hexec
          exact le_refl _
      | env e =>
          obtain rfl := Option.some.inj hexec
          exact Int.le_add_of_nonneg_right (Int.natCast_nonneg e)
      | run t k =>
          obtain ⟨th, s', th', fs, -, hmachine, rfl⟩ := (machine cfg).exec_run_iff.mp hexec
          obtain ⟨x, hstep, heq⟩ := Option.map_eq_some_iff.mp hmachine
          obtain ⟨rfl, -⟩ := Prod.mk.inj heq
          exact Int.le_of_eq (Effect.of_step hstep).now.symm

/-- **The session cookie opens the gate**: with a PIN configured, in any interleaving of requests
and ticks of the cleanup timer, when a section of a request lets it in (a guarded handler runs, or
`handleInfo` puts the PIN into the join URL), then the request's session cookie was handed out by
`handleAuth`, less than `sessionTTL` ago, in answer to a request with the right PIN. -/
theorem session_required (hpin : pin ≠ []) (hrun : (machine cfg).Run Arrivals (boot pin now) c)
    (hexec : (machine cfg).exec c (.run t ()) = some d) (hth : d.threads[t]? = some th)
    (henter : th.Enters cfg r) :
    ∃ token t₁ q c₁ c₂, r.cookie sessionCookie = some token ∧
      (machine cfg).Run Arrivals (boot pin now) c₁ ∧ Issues cfg t₁ q token c₁ c₂ ∧
      (machine cfg).Run Arrivals c₂ c ∧ q.pin = some pin ∧
      c₁.shared.auth.now ≤ c.shared.auth.now ∧
      c.shared.auth.now - c₁.shared.auth.now < sessionTTL := by
  have haccounted := accounted_of_run hrun
  obtain ⟨th₀, s', th', fs, hth₀, hmachine, hd⟩ := (machine cfg).exec_run_iff.mp hexec
  obtain ⟨⟨s₁, th₁⟩, hstep, heq⟩ := Option.map_eq_some_iff.mp hmachine
  obtain ⟨rfl, hrest⟩ := Prod.mk.inj heq
  obtain ⟨rfl, rfl⟩ := Prod.mk.inj hrest
  have hself : th₁ = th := by
    rw [hd, List.append_nil, List.getElem?_set_self (List.getElem?_eq_some_iff.mp hth₀).1] at hth
    exact Option.some.inj hth
  subst hself
  obtain ⟨-, -, hauthorized⟩ := authorized_of_enters hstep henter
  -- a PIN is configured, so the middleware is not switched off
  have henabled : c.shared.auth.enabled = true := by
    show decide (c.shared.auth.pin ≠ []) = true
    rw [haccounted.configured]
    exact decide_eq_true hpin
  -- the cookie names a session of the table that has not expired, and each of them was issued
  obtain ⟨token, expiry, hcookie, hsession, hlive⟩ := session_of_authorized henabled hauthorized
  obtain ⟨t₁, q, c₁, c₂, hbefore, hissues, hafter, hright, htime⟩ :=
    haccounted.sessions token expiry hsession
  have hstarted : c₁.shared.auth.now ≤ c.shared.auth.now := by
    have hissue := now_le_of_run (.tail .refl (fun _ heq => by cases heq) hissues.1)
    exact hissue.trans (now_le_of_run hafter)
  have hfresh : c.shared.auth.now - c₁.shared.auth.now < sessionTTL := by
    rw [htime, sub_lt_iff_lt_add, add_sub_cancel]
    exact hlive
  exact ⟨token, t₁, q, c₁, c₂, hcookie, hbefore, hissues, hafter, hright, hstarted, hfresh⟩

/-! ## A device logs in and uploads -/

namespace Sample

/-- A room in a local network. -/
def room : Config := { port := 8080, maxUploadBytes := 1048576, retention := 86400000000000 }

/-- The PIN `1` is sent. -/
def login : Request :=
  { method := .post, peer := [0x31], pin := some [0x31], rand := some (Vector.replicate 16 0)
    path := goString "/api/auth" }

/-- A file is sent, with the session cookie of `login`. -/
def upload : Request :=
  { method := .post, peer := [0x31], pin := none, path := goString "/api/upload"
    cookies := [(sessionCookie, Upload.randomID (Vector.replicate 16 0))] }

/-- The login is handled before the file is sent. -/
def schedule : List (Act Thread Unit ℕ) :=
  .spawn (.request login .start) :: List.replicate 4 (.run 0 ()) ++
    [.env 1000, .spawn (.request upload .start)]

end Sample

/-- An upload that is let in, with the login its token comes from. -/
theorem session_required_upload : ∃ (r : Request) (token : GoString) (t : Tid) (q : Request)
    (c₁ c₂ c : ThreadPool.Config Auth.State Thread), r.path = goString "/api/upload" ∧
      r.cookie sessionCookie = some token ∧
      (machine Sample.room).Run Arrivals (boot [0x31] 0) c₁ ∧ Issues Sample.room t q token c₁ c₂ ∧
      (machine Sample.room).Run Arrivals c₂ c ∧ q.pin = some [0x31] ∧
      c.shared.auth.now - c₁.shared.auth.now < sessionTTL := by
  have hrun : ((machine Sample.room).execAll (boot [0x31] 0) Sample.schedule).any fun c =>
      ((machine Sample.room).exec c (.run 1 ())).any fun d =>
        d.threads[1]?.any fun th => match th with
          | Thread.request r (.inner h) =>
              h.guarded && decide (r.path = goString "/api/upload")
          | _ => false := by
    decide +kernel
  obtain ⟨c, hexecAll, hrun⟩ := (Option.any_eq_true _ _).mp hrun
  obtain ⟨d, hexec, hrun⟩ := (Option.any_eq_true _ _).mp hrun
  obtain ⟨th, hth, hrun⟩ := (Option.any_eq_true _ _).mp hrun
  split at hrun
  · rename_i r h
    obtain ⟨hguarded, hpath⟩ := (Bool.and_eq_true _ _).mp hrun
    -- the run logs in and uploads
    have harrive : ∀ c, ∀ act ∈ Sample.schedule, Arrivals c act := by
      rintro c act hact th rfl
      have hth : th = .request Sample.login .start ∨ th = .request Sample.upload .start := by
        simpa [Sample.schedule] using hact
      rcases hth with rfl | rfl
      · exact .inl ⟨_, rfl⟩
      · exact .inl ⟨_, rfl⟩
    obtain ⟨token, t, q, c₁, c₂, hcookie, hbefore, hissues, hafter, hpin, -, hfresh⟩ :=
      session_required (r := r) (by decide) (.of_execAll harrive hexecAll) hexec hth ⟨rfl, hguarded⟩
    exact ⟨r, token, t, q, c₁, c₂, c, of_decide_eq_true hpath, hcookie, hbefore, hissues, hafter,
      hpin, hfresh⟩
  · cases hrun

end LanRoom.Routes

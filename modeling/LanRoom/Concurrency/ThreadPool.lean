import Mathlib

/-! # Pools of threads over a shared state

A program made of concurrent handlers is modelled as a *pool*: a shared state together with the
list of the threads started so far, each thread being a program point with its local variables.
A `Machine` says what the next atomic section of a thread does; the scheduler (`Act`) picks which
thread runs, starts new threads and lets the environment move. Nothing here mentions a particular
program.

* `Machine.exec` performs one scheduler action and `Machine.execAll` a whole schedule; both are
  executable, so a concrete interleaving can be evaluated.
* `Machine.Run ok c d` is a run from `c` to `d` each of whose actions meets the condition `ok` in
  the configuration before it, with the induction rule `Run.invariant`.
* `Machine.Logged ok obs c d log` is such a run with the log of what an observer sees of it. -/

namespace ThreadPool

/-- A thread identifier: the position of the thread in the pool. -/
abbrev Tid := ℕ

/-- A **configuration**: the shared state and the threads, in the order they were started. -/
structure Config (σ τ : Type*) where
  /-- The state all threads read and write. -/
  shared : σ
  /-- Program point and locals of every thread ever started. -/
  threads : List τ

/-- A thread of a pool extended by `fs` is an old one, at its place, or one of `fs`. -/
theorem getElem?_append_cases {τ : Type*} {ts fs : List τ} {t : Tid} {th : τ}
    (h : (ts ++ fs)[t]? = some th) : ts[t]? = some th ∨ ts.length ≤ t ∧ th ∈ fs := by
  rw [List.getElem?_append] at h
  split at h
  · exact .inl h
  · exact .inr ⟨Nat.not_lt.mp ‹_›, List.mem_of_getElem? h⟩

/-- A property of every thread of a pool after thread `t` has moved and started `fs`. The three
hypotheses are about the threads that did not move, the one that did and those it has started. -/
theorem forall_set_append {τ : Type*} {Q : Tid → τ → Prop} {ts fs : List τ} {t : Tid} {th' : τ}
    (hother : ∀ u th, u ≠ t → ts[u]? = some th → Q u th) (hself : Q t th')
    (hnew : ∀ th ∈ fs, ∀ u, Q u th) :
    ∀ u th, (ts.set t th' ++ fs)[u]? = some th → Q u th := by
  intro u th hth
  rcases getElem?_append_cases hth with hold | ⟨-, hmem⟩
  · by_cases hut : u = t
    · subst hut
      have hlt : u < ts.length := by
        have hlt := (List.getElem?_eq_some_iff.mp hold).1
        rwa [List.length_set] at hlt
      rw [List.getElem?_set_self hlt] at hold
      obtain rfl := Option.some.inj hold
      exact hself
    · rw [List.getElem?_set_ne (Ne.symm hut)] at hold
      exact hother u th hut hold
  · exact hnew th hmem u

/-- A thread is the one that moves, or still there when thread `t` has moved. So a fact about every
thread before the section gives one about every thread after it, up to the mover. -/
theorem mem_set_append {τ : Type*} {ts : List τ} {t : Tid} {th w : τ} (hth : ts[t]? = some th)
    (hw : w ∈ ts) (th' : τ) (fs : List τ) : w = th ∨ w ∈ ts.set t th' ++ fs := by
  obtain ⟨u, hu⟩ := List.mem_iff_getElem?.mp hw
  by_cases htu : t = u
  · subst htu
    exact .inl (Option.some.inj (hu.symm.trans hth))
  · refine .inr (List.mem_append_left _ (List.mem_of_getElem? (i := u) ?_))
    rw [List.getElem?_set_ne htu]
    exact hu

/-- The thread that has moved is in the pool. It stands at its new program point. -/
theorem mem_set_append_self {τ : Type*} {ts fs : List τ} {t : Tid} {th th' : τ}
    (hth : ts[t]? = some th) : th' ∈ ts.set t th' ++ fs :=
  List.mem_append_left _ (List.mem_set (List.getElem?_eq_some_iff.mp hth).1 th')

/-- Threads that arrive come after those that are there. So identifiers keep their meaning when
threads are started. -/
theorem getElem?_append {τ : Type*} {ts : List τ} {t : Tid} {th : τ} (hth : ts[t]? = some th)
    (fs : List τ) : (ts ++ fs)[t]? = some th := by
  rw [List.getElem?_append_left (List.getElem?_eq_some_iff.mp hth).1]
  exact hth

/-- The thread that has moved is where it was. Its identifier is the one it had. -/
theorem getElem?_set_append_self {τ : Type*} {ts : List τ} {t : Tid} {th : τ}
    (hth : ts[t]? = some th) (th' : τ) (fs : List τ) : (ts.set t th' ++ fs)[t]? = some th' := by
  have hlt := (List.getElem?_eq_some_iff.mp hth).1
  exact getElem?_append (List.getElem?_set_self hlt) fs

/-- The other threads are where they were. A section moves its own thread and starts new ones behind
the last. -/
theorem getElem?_set_append_ne {τ : Type*} {ts : List τ} {t u : Tid} {th : τ}
    (hth : ts[u]? = some th) (hne : t ≠ u) (th' : τ) (fs : List τ) :
    (ts.set t th' ++ fs)[u]? = some th := by
  refine getElem?_append ?_ fs
  rw [List.getElem?_set_ne hne]
  exact hth

/-- How a total over all threads changes when thread `t` has moved and started `fs`. With `w th`
added on the left instead of subtracted on the right, the equation is one `omega` can use on natural
numbers. -/
theorem sum_set_append {τ : Type*} (w : τ → ℕ) {ts : List τ} {t : Tid} {th : τ}
    (hth : ts[t]? = some th) (th' : τ) (fs : List τ) :
    ((ts.set t th' ++ fs).map w).sum + w th = (ts.map w).sum + w th' + (fs.map w).sum := by
  rw [List.map_append, List.sum_append]
  have hset : ((ts.set t th').map w).sum + w th = (ts.map w).sum + w th' := by
    induction ts generalizing t with
    | nil => cases hth
    | cons x ts ih =>
        cases t with
        | zero =>
            obtain rfl := Option.some.inj hth
            simp only [List.set_cons_zero, List.map_cons, List.sum_cons]
            omega
        | succ t =>
            have hrest := ih (t := t) hth
            simp only [List.set_cons_succ, List.map_cons, List.sum_cons]
            omega
  omega

/-- One thread's share of a total over all threads. An invariant that bounds the total therefore
bounds each thread. -/
theorem le_sum_map {τ : Type*} (w : τ → ℕ) {ts : List τ} {t : Tid} {th : τ}
    (hth : ts[t]? = some th) : w th ≤ (ts.map w).sum := by
  have hmem := List.mem_of_getElem? hth
  induction ts generalizing t with
  | nil => cases hth
  | cons x ts ih =>
      rw [List.map_cons, List.sum_cons]
      cases t with
      | zero =>
          obtain rfl := Option.some.inj hth
          exact Nat.le_add_right _ _
      | succ t =>
          have hrest := ih (t := t) hth (List.mem_of_getElem? (i := t) hth)
          omega

/-- The shares of two threads of a total over all threads. A total of at most one therefore excludes
that two threads have a share at once. -/
theorem add_le_sum_map {τ : Type*} (w : τ → ℕ) {ts : List τ} {t u : Tid} {th th' : τ} (htu : t ≠ u)
    (hth : ts[t]? = some th) (hu : ts[u]? = some th') : w th + w th' ≤ (ts.map w).sum := by
  induction ts generalizing t u with
  | nil => cases hth
  | cons x ts ih =>
      rw [List.map_cons, List.sum_cons]
      cases t with
      | zero =>
          cases u with
          | zero => exact absurd rfl htu
          | succ u =>
              obtain rfl := Option.some.inj hth
              exact Nat.add_le_add_left (le_sum_map w (t := u) hu) _
      | succ t =>
          cases u with
          | zero =>
              obtain rfl := Option.some.inj hu
              rw [Nat.add_comm]
              exact Nat.add_le_add_left (le_sum_map w (t := t) hth) _
          | succ u =>
              have hrest := ih (t := t) (u := u) (fun heq => htu (congrArg Nat.succ heq)) hth hu
              omega

/-- A total over all threads is zero when every share is. This is how "nothing is due any more" is
read off a configuration. -/
theorem sum_map_eq_zero {τ : Type*} {w : τ → ℕ} {ts : List τ} :
    (ts.map w).sum = 0 ↔ ∀ th ∈ ts, w th = 0 := by
  rw [List.sum_eq_zero_iff_forall_eq_nat]
  constructor
  · intro h th hth
    exact h _ (List.mem_map_of_mem hth)
  · intro h n hn
    obtain ⟨th, hth, rfl⟩ := List.mem_map.mp hn
    exact h th hth

/-- A **machine**: the atomic section a thread performs next, and the moves of the environment. -/
structure Machine (σ τ κ ε : Type*) where
  /-- Thread `t` at program point `th` performs its next section under the choice `k`: the new
  shared state, its new program point and the threads it starts; `none` when it is blocked or has
  ended. -/
  step : Tid → κ → σ → τ → Option (σ × τ × List τ)
  /-- What an event of the environment (such as the passing of time) does to the shared state. -/
  env : ε → σ → σ

/-- An **action** of the scheduler. -/
inductive Act (τ κ ε : Type*)
  /-- A new thread arrives. -/
  | spawn (th : τ)
  /-- Thread `t` performs its next atomic section under the choice `k`. -/
  | run (t : Tid) (k : κ)
  /-- The environment moves. -/
  | env (e : ε)

namespace Machine

variable {σ τ κ ε : Type*} (M : Machine σ τ κ ε)

/-- Perform one action; `none` when the chosen thread does not exist or cannot move. -/
def exec (c : Config σ τ) : Act τ κ ε → Option (Config σ τ)
  | .spawn th => some ⟨c.shared, c.threads ++ [th]⟩
  | .run t k =>
      match c.threads[t]? with
      | none => none
      | some th =>
          (M.step t k c.shared th).map fun r => ⟨r.1, c.threads.set t r.2.1 ++ r.2.2⟩
  | .env e => some ⟨M.env e c.shared, c.threads⟩

/-- Perform a whole schedule. -/
def execAll (c : Config σ τ) : List (Act τ κ ε) → Option (Config σ τ)
  | [] => some c
  | a :: as => (M.exec c a).bind fun d => execAll d as

/-- A new thread is put behind the others. The shared state is not looked at. -/
@[simp] theorem exec_spawn (c : Config σ τ) (th : τ) :
    M.exec c (.spawn th) = some ⟨c.shared, c.threads ++ [th]⟩ := rfl

/-- The environment leaves the threads alone. It changes the shared state on its own. -/
@[simp] theorem exec_env (c : Config σ τ) (e : ε) :
    M.exec c (.env e) = some ⟨M.env e c.shared, c.threads⟩ := rfl

/-- A `run` action performs one step of an existing thread and changes no other thread. The threads
it has started stand at the end, so that identifiers are never used again. -/
theorem exec_run_iff {c d : Config σ τ} {t : Tid} {k : κ} :
    M.exec c (.run t k) = some d ↔
      ∃ th s' th' fs, c.threads[t]? = some th ∧ M.step t k c.shared th = some (s', th', fs) ∧
        d = ⟨s', c.threads.set t th' ++ fs⟩ := by
  rw [exec]
  cases hth : c.threads[t]? with
  | none => simp
  | some th =>
      constructor
      · intro h
        obtain ⟨⟨s', th', fs⟩, hstep, rfl⟩ := Option.map_eq_some_iff.mp h
        exact ⟨th, s', th', fs, rfl, hstep, rfl⟩
      · rintro ⟨_, s', th', fs, hth', hstep, rfl⟩
        obtain rfl := Option.some.inj hth'
        simp only [hstep, Option.map_some]

/-- Where a thread of the pool comes from: it was there before the action, it has just arrived, it
has just performed its section, or it was just started by one. -/
theorem thread_of_exec {c d : Config σ τ} {a : Act τ κ ε} {t : Tid} {th' : τ}
    (h : M.exec c a = some d) (hth' : d.threads[t]? = some th') :
    c.threads[t]? = some th' ∨ a = .spawn th' ∨
      (∃ k th fs, a = .run t k ∧ c.threads[t]? = some th ∧
        M.step t k c.shared th = some (d.shared, th', fs)) ∨
      ∃ u k th th₁ fs, a = .run u k ∧ c.threads[u]? = some th ∧
        M.step u k c.shared th = some (d.shared, th₁, fs) ∧ th' ∈ fs := by
  cases a with
  | spawn th =>
      obtain rfl := Option.some.inj h
      rcases getElem?_append_cases hth' with hold | ⟨-, hnew⟩
      · exact .inl hold
      · exact .inr (.inl (congrArg Act.spawn (List.mem_singleton.mp hnew).symm))
  | env e =>
      obtain rfl := Option.some.inj h
      exact .inl hth'
  | run u k =>
      obtain ⟨th, s', th₁, fs, hth, hstep, rfl⟩ := M.exec_run_iff.mp h
      rcases getElem?_append_cases hth' with hold | ⟨-, hnew⟩
      · by_cases hut : u = t
        · subst hut
          rw [List.getElem?_set_self (List.getElem?_eq_some_iff.mp hth).1] at hold
          obtain rfl := Option.some.inj hold
          exact .inr (.inr (.inl ⟨k, th, fs, rfl, hth, hstep⟩))
        · rw [List.getElem?_set_ne hut] at hold
          exact .inl hold
      · exact .inr (.inr (.inr ⟨u, k, th, th₁, fs, rfl, hth, hstep, hnew⟩))

/-- What becomes of a thread: it stays where it is, or performs its section. Threads never
disappear; one that has finished stays at its last program point. -/
theorem thread_after_exec {c d : Config σ τ} {a : Act τ κ ε} {t : Tid} {th : τ}
    (h : M.exec c a = some d) (hth : c.threads[t]? = some th) :
    d.threads[t]? = some th ∨ ∃ k th' fs, a = .run t k ∧
      M.step t k c.shared th = some (d.shared, th', fs) ∧ d.threads[t]? = some th' := by
  cases a with
  | spawn th₁ =>
      obtain rfl := Option.some.inj h
      exact .inl (getElem?_append hth [th₁])
  | env e =>
      obtain rfl := Option.some.inj h
      exact .inl hth
  | run u k =>
      obtain ⟨th₁, s', th', fs, hu, hstep, rfl⟩ := M.exec_run_iff.mp h
      by_cases hut : u = t
      · subst hut
        obtain rfl := Option.some.inj (hth.symm.trans hu)
        exact .inr ⟨k, th', fs, rfl, hstep, getElem?_set_append_self hth th' fs⟩
      · exact .inl (getElem?_set_append_ne hth hut th' fs)

/-- A **run** all of whose actions meet `ok` in the configuration they are taken in. -/
inductive Run (ok : Config σ τ → Act τ κ ε → Prop) (c : Config σ τ) : Config σ τ → Prop
  /-- The empty run. -/
  | refl : Run ok c c
  /-- One more action. -/
  | tail {d e : Config σ τ} {a : Act τ κ ε} (hrun : Run ok c d) (hok : ok d a)
      (hexec : M.exec d a = some e) : Run ok c e

variable {M} {ok ok' : Config σ τ → Act τ κ ε → Prop} {c d e : Config σ τ}

/-- Runs compose. Facts about one stretch of a run can be put together with facts about the next. -/
theorem Run.trans (h₁ : M.Run ok c d) (h₂ : M.Run ok d e) : M.Run ok c e := by
  induction h₂ with
  | refl => exact h₁
  | tail _ hok hexec ih => exact ih.tail hok hexec

/-- A run under a stronger condition is a run under a weaker one. A theorem about all runs under the
weaker condition applies to it. -/
theorem Run.mono (hle : ∀ c a, ok c a → ok' c a) (h : M.Run ok c d) : M.Run ok' c d := by
  induction h with
  | refl => exact .refl
  | tail _ hok hexec ih => exact ih.tail (hle _ _ hok) hexec

/-- **Invariant rule**: what every admitted action preserves, every run preserves. It is the
induction behind all the other rules of this library. -/
theorem Run.invariant {I : Config σ τ → Prop} (h : M.Run ok c d) (h₀ : I c)
    (hstep : ∀ c a d, I c → ok c a → M.exec c a = some d → I d) : I d := by
  induction h with
  | refl => exact h₀
  | tail _ hok hexec ih => exact hstep _ _ _ ih hok hexec

/-- A schedule that executes is a run, when each of its actions is admitted in any
configuration. -/
theorem Run.of_execAll {as : List (Act τ κ ε)} (hok : ∀ c, ∀ a ∈ as, ok c a)
    (h : M.execAll c as = some d) : M.Run ok c d := by
  induction as generalizing c with
  | nil =>
      obtain rfl := Option.some.inj h
      exact .refl
  | cons a as ih =>
      obtain ⟨c', hexec, hrest⟩ := Option.bind_eq_some_iff.mp h
      have hhead : M.Run ok c c' := Run.refl.tail (hok c a List.mem_cons_self) hexec
      exact hhead.trans (ih (fun c a ha => hok c a (List.mem_cons_of_mem _ ha)) hrest)

/-- The thread an action moves meets the condition `q` where it stands. -/
def allowed (q : σ → τ → Bool) (c : Config σ τ) : Act τ κ ε → Bool
  | .run t _ => c.threads[t]?.all (q c.shared)
  | _ => true

/-- The condition on a section, spelled out for its thread. It is the form in which a rule for
sections is used inside of a proof. -/
theorem allowed_run {q : σ → τ → Bool} {t : Tid} {k : κ} {th : τ} (hth : c.threads[t]? = some th)
    (h : allowed q c (.run t k : Act τ κ ε) = true) : q c.shared th = true := by
  rw [allowed, hth] at h
  exact h

/-- Perform a whole schedule all of whose actions meet the condition `q`. -/
def execAllIf (M : Machine σ τ κ ε) (q : Config σ τ → Act τ κ ε → Bool) (c : Config σ τ) :
    List (Act τ κ ε) → Option (Config σ τ)
  | [] => some c
  | a :: as => if q c a then (M.exec c a).bind fun d => execAllIf M q d as else none

/-- A conditional schedule that executes is a run under the condition. The boolean `q` is what a
concrete schedule is checked for by evaluation; `ok` is the condition of the theorem it is a witness
of. -/
theorem Run.of_execAllIf {q : Config σ τ → Act τ κ ε → Bool} {as : List (Act τ κ ε)}
    (hok : ∀ c, ∀ a ∈ as, q c a = true → ok c a) (h : M.execAllIf q c as = some d) :
    M.Run ok c d := by
  induction as generalizing c with
  | nil =>
      obtain rfl := Option.some.inj h
      exact .refl
  | cons a as ih =>
      unfold execAllIf at h
      split at h
      · obtain ⟨c', hexec, hrest⟩ := Option.bind_eq_some_iff.mp h
        have hhead : M.Run ok c c' := Run.refl.tail (hok c a List.mem_cons_self ‹_›) hexec
        exact hhead.trans (ih (fun c a ha => hok c a (List.mem_cons_of_mem _ ha)) hrest)
      · cases h

/-- A **run with its log**: what `obs` sees of each action, in the order of the actions. -/
inductive Logged {ω : Type*} (M : Machine σ τ κ ε) (ok : Config σ τ → Act τ κ ε → Prop)
    (obs : Config σ τ → Act τ κ ε → List ω) (c : Config σ τ) : Config σ τ → List ω → Prop
  /-- The empty run. -/
  | refl : Logged M ok obs c c []
  /-- One more action. -/
  | tail {d e : Config σ τ} {a : Act τ κ ε} {log : List ω} (hrun : Logged M ok obs c d log)
      (hok : ok d a) (hexec : M.exec d a = some e) : Logged M ok obs c e (log ++ obs d a)

/-- Perform a whole schedule all of whose actions meet the condition `q`, and log what `obs` sees
after what is in `log`. -/
def logAll {ω : Type*} (M : Machine σ τ κ ε) (q : Config σ τ → Act τ κ ε → Bool)
    (obs : Config σ τ → Act τ κ ε → List ω) (c : Config σ τ) (log : List ω) :
    List (Act τ κ ε) → Option (Config σ τ × List ω)
  | [] => some (c, log)
  | a :: as =>
      if q c a then (M.exec c a).bind fun d => logAll M q obs d (log ++ obs c a) as else none

/-- A logged schedule that executes is a run with its log. The log of the schedule is what each
action has shown of the configuration before it. -/
theorem Logged.of_logAll {ω : Type*} {q : Config σ τ → Act τ κ ε → Bool}
    {obs : Config σ τ → Act τ κ ε → List ω} {c₀ : Config σ τ} {as : List (Act τ κ ε)}
    {log log' : List ω} (hok : ∀ c, ∀ a ∈ as, q c a = true → ok c a)
    (hbefore : M.Logged ok obs c₀ c log) (h : M.logAll q obs c log as = some (d, log')) :
    M.Logged ok obs c₀ d log' := by
  induction as generalizing c log with
  | nil =>
      obtain ⟨rfl, rfl⟩ := Prod.mk.inj (Option.some.inj h)
      exact hbefore
  | cons a as ih =>
      unfold logAll at h
      split at h
      · obtain ⟨c', hexec, hrest⟩ := Option.bind_eq_some_iff.mp h
        have hhead := hbefore.tail (hok c a List.mem_cons_self ‹_›) hexec
        exact ih (fun c a ha => hok c a (List.mem_cons_of_mem _ ha)) hhead hrest
      · cases h

/-- How a section of one thread changes the number of threads with a property. The number of the
threads started with the property is added; nobody else is counted differently. -/
theorem countP_of_run (q : τ → Bool) {t : Tid} {k : κ} (h : M.exec c (.run t k) = some d) :
    ∃ th s' th' fs, c.threads[t]? = some th ∧ M.step t k c.shared th = some (s', th', fs) ∧
      d.shared = s' ∧ d.threads.countP q + (if q th then 1 else 0) =
        c.threads.countP q + (if q th' then 1 else 0) + fs.countP q := by
  obtain ⟨th, s', th', fs, hth, hstep, rfl⟩ := M.exec_run_iff.mp h
  refine ⟨th, s', th', fs, hth, hstep, rfl, ?_⟩
  obtain ⟨hlt, hget⟩ := List.getElem?_eq_some_iff.mp hth
  have hset := List.countP_set (p := q) (a := th') hlt
  have hone : (if q th then 1 else 0) ≤ c.threads.countP q := by
    split
    · exact List.countP_pos_iff.mpr ⟨th, List.mem_of_getElem? hth, ‹_›⟩
    · exact Nat.zero_le _
  rw [hget] at hset
  show (c.threads.set t th' ++ fs).countP q + _ = _
  rw [List.countP_append, hset]
  omega

end Machine

end ThreadPool

import LanRoom.Concurrency.ThreadPool

/-! # Invariants of runs that keep a rule

A rule about what a run has done is *lasting*: once broken, it stays broken. A run whose last state
keeps it has kept it all the way, and its invariants need to be preserved by such actions only
(`Run.invariant_of_lasting`). `LocalInvariant` is the shape of invariant that suffices most often:
one assertion about the shared state and one about each thread. -/

namespace ThreadPool.Machine

variable {σ τ κ ε ι : Type*} {M : Machine σ τ κ ε} {ok : Config σ τ → Act τ κ ε → Prop}
  {good : σ → Prop} {c d : Config σ τ}

/-- A **lasting rule**: an action that starts from a state where it is broken does not mend it. -/
structure Lasting (M : Machine σ τ κ ε) (good : σ → Prop) : Prop where
  run : ∀ {t k s th s' th' fs}, M.step t k s th = some (s', th', fs) → good s' → good s
  env : ∀ {e s}, good (M.env e s) → good s

/-- A rule about everything that is noted in a log that only grows. -/
theorem Lasting.of_log {log : σ → List ι} (P : ι → Prop)
    (hrun : ∀ {t k s th s' th' fs}, M.step t k s th = some (s', th', fs) → log s <:+ log s')
    (henv : ∀ {e s}, log s <:+ log (M.env e s)) :
    M.Lasting fun s => ∀ e ∈ log s, P e where
  run := fun hstep hgood e he => hgood e ((hrun hstep).subset he)
  env := fun hgood e he => hgood e (henv.subset he)

/-- One action does not mend a broken rule. Neither the sections nor the events can make a state
good again, so a good state had good states before it only. -/
theorem Lasting.exec (hgood : M.Lasting good) {a : Act τ κ ε} (h : M.exec c a = some d)
    (hd : good d.shared) : good c.shared := by
  cases a with
  | spawn th =>
      obtain rfl := Option.some.inj h
      exact hd
  | env e =>
      obtain rfl := Option.some.inj h
      exact hgood.env hd
  | run t k =>
      obtain ⟨th, s', th', fs, -, hstep, rfl⟩ := M.exec_run_iff.mp h
      exact hgood.run hstep hd

/-- **Invariant rule for runs that keep a lasting rule.** A rule that cannot become true again after
it has been broken held in every state before one in which it holds, so it may be used in every
step. -/
theorem Run.invariant_of_lasting {I : Config σ τ → Prop} (hgood : M.Lasting good)
    (h : M.Run ok c d) (hd : good d.shared) (h₀ : I c)
    (hstep : ∀ c a d, I c → ok c a → good d.shared → M.exec c a = some d → I d) : I d := by
  induction h with
  | refl => exact h₀
  | tail _ hok hexec ih => exact hstep _ _ _ (ih (hgood.exec hexec hd)) hok hd hexec

/-- A **local invariant**: an assertion `I` about the shared state and an assertion `A` about each
thread, which sections that end in a good state preserve. -/
structure LocalInvariant (M : Machine σ τ κ ε) (ok : Config σ τ → Act τ κ ε → Prop)
    (good : σ → Prop) (I : σ → Prop) (A : σ → τ → Prop) : Prop where
  /-- A thread that arrives meets its assertion. -/
  spawn : ∀ {c th}, ok c (.spawn th) → A c.shared th
  /-- A section preserves the assertion about the state, and establishes those of its own thread
  and of the threads it starts. -/
  own : ∀ {t k s th s' th' fs}, M.step t k s th = some (s', th', fs) → good s' → I s → A s th →
    I s' ∧ A s' th' ∧ ∀ f ∈ fs, A s' f
  /-- It preserves the assertions of the others. -/
  other : ∀ {t k s th s' th' fs}, M.step t k s th = some (s', th', fs) → good s' → I s → A s th →
    ∀ u, A s u → A s' u
  env : ∀ {e s}, I s → I (M.env e s) ∧ ∀ u, A s u → A (M.env e s) u

/-- A local invariant holds along every run that keeps the rule. The rule is asked of the last state
only; by `Lasting` it held in all the states before. -/
theorem LocalInvariant.run {I : σ → Prop} {A : σ → τ → Prop} (hI : M.LocalInvariant ok good I A)
    (hgood : M.Lasting good) (h : M.Run ok c d) (hd : good d.shared) (hc : I c.shared)
    (hthreads : ∀ th ∈ c.threads, A c.shared th) :
    I d.shared ∧ ∀ th ∈ d.threads, A d.shared th := by
  refine h.invariant_of_lasting (I := fun c => I c.shared ∧ ∀ th ∈ c.threads, A c.shared th) hgood hd
    ⟨hc, hthreads⟩ ?_
  intro c a d ⟨hc, hthreads⟩ hok hd hexec
  cases a with
  | spawn th =>
      obtain rfl := Option.some.inj hexec
      refine ⟨hc, fun u hu => ?_⟩
      rcases List.mem_append.mp hu with hu | hu
      · exact hthreads u hu
      · obtain rfl := List.mem_singleton.mp hu
        exact hI.spawn (c := c) hok
  | env e =>
      obtain rfl := Option.some.inj hexec
      exact ⟨(hI.env hc).1, fun u hu => (hI.env hc).2 u (hthreads u hu)⟩
  | run t k =>
      obtain ⟨th, s', th', fs, hth, hstep, rfl⟩ := M.exec_run_iff.mp hexec
      have hown := hthreads th (List.mem_of_getElem? hth)
      obtain ⟨hs', hth', hfs⟩ := hI.own hstep hd hc hown
      refine ⟨hs', fun u hu => ?_⟩
      rcases List.mem_append.mp hu with hu | hu
      · rcases List.mem_or_eq_of_mem_set hu with hu | rfl
        · exact hI.other hstep hd hc hown u (hthreads u hu)
        · exact hth'
      · exact hfs u hu

end ThreadPool.Machine

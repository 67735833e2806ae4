import LanRoom.Concurrency.LocalInvariant

/-! # Local invariants with exclusion

A flag that stands for a lock is no lock: that at most one thread at a time works under it is itself
an invariant. `ConflictInvariant` is a local invariant together with this one: no two threads are in
conflict `C`. The section of a thread preserves the assertion of every thread that it is not in
conflict with, and brings no two threads into conflict. `ExclusiveInvariant` is the case in which two
threads are in conflict when both are at work `W`. -/

namespace ThreadPool.Machine

variable {σ τ κ ε : Type*} {M : Machine σ τ κ ε} {ok : Config σ τ → Act τ κ ε → Prop}
  {good : σ → Prop} {c d : Config σ τ}

/-! ## Conflicts -/

/-- No two threads of a pool are in conflict. -/
def Unopposed (C : σ → τ → τ → Prop) (c : Config σ τ) : Prop :=
  ∀ (t u : Tid) (th₁ th₂ : τ), t ≠ u → c.threads[t]? = some th₁ → c.threads[u]? = some th₂ →
    ¬C c.shared th₁ th₂

/-- A **local invariant with conflicts**: an assertion `I` about the shared state, one `A` about each
thread, and no two threads are in conflict `C`. -/
structure ConflictInvariant (M : Machine σ τ κ ε) (ok : Config σ τ → Act τ κ ε → Prop)
    (good : σ → Prop) (I : σ → Prop) (A : σ → τ → Prop) (C : σ → τ → τ → Prop) : Prop where
  symm : ∀ {s th u}, C s th u → C s u th
  /-- A thread that arrives meets its assertion and is in conflict with none. -/
  spawn : ∀ {c th}, ok c (.spawn th) → A c.shared th ∧ ∀ u, ¬C c.shared th u
  /-- A section preserves the assertion about the state and establishes that of its own thread; the
  threads it starts are in conflict with none. -/
  own : ∀ {t k s th s' th' fs}, M.step t k s th = some (s', th', fs) → good s' → I s → A s th →
    I s' ∧ A s' th' ∧ ∀ f ∈ fs, A s' f ∧ ∀ u, ¬C s' f u
  /-- It preserves the assertions of the others, and gets into conflict with none. -/
  other : ∀ {t k s th s' th' fs}, M.step t k s th = some (s', th', fs) → good s' → I s → A s th →
    ∀ u, A s u → ¬C s th u → A s' u ∧ ¬C s' th' u
  /-- It brings no two others into conflict. -/
  pair : ∀ {t k s th s' th' fs}, M.step t k s th = some (s', th', fs) → good s' → I s → A s th →
    ∀ u v, A s u → A s v → ¬C s th u → ¬C s th v → ¬C s u v → ¬C s' u v
  env : ∀ {e s}, I s → I (M.env e s) ∧ (∀ u, A s u → A (M.env e s) u) ∧
    ∀ u v, A s u → A s v → ¬C s u v → ¬C (M.env e s) u v

section Conflict

variable {I : σ → Prop} {A : σ → τ → Prop} {C : σ → τ → τ → Prop}

/-- One action preserves the invariant. It is the step lemma; a section has to keep what the shared
state, the other threads and its own thread promise. -/
theorem ConflictInvariant.exec (hI : M.ConflictInvariant ok good I A C) {a : Act τ κ ε}
    (hok : ok c a) (hexec : M.exec c a = some d) (hd : good d.shared)
    (h : I c.shared ∧ (∀ th ∈ c.threads, A c.shared th) ∧ Unopposed C c) :
    I d.shared ∧ (∀ th ∈ d.threads, A d.shared th) ∧ Unopposed C d := by
  obtain ⟨hc, hthreads, hfree⟩ := h
  cases a with
  | spawn th =>
      obtain rfl := Option.some.inj hexec
      obtain ⟨hth, hnew⟩ := hI.spawn (c := c) hok
      refine ⟨hc, fun u hu => ?_, fun t u th₁ th₂ hne h₁ h₂ hboth => ?_⟩
      · rcases List.mem_append.mp hu with hu | hu
        · exact hthreads u hu
        · obtain rfl := List.mem_singleton.mp hu
          exact hth
      · rcases getElem?_append_cases h₁ with h₁ | ⟨-, h₁⟩
        · rcases getElem?_append_cases h₂ with h₂ | ⟨-, h₂⟩
          · exact hfree t u th₁ th₂ hne h₁ h₂ hboth
          · obtain rfl := List.mem_singleton.mp h₂
            exact hnew th₁ (hI.symm hboth)
        · obtain rfl := List.mem_singleton.mp h₁
          exact hnew th₂ hboth
  | env e =>
      obtain rfl := Option.some.inj hexec
      obtain ⟨hs', hothers, hpair⟩ := hI.env (e := e) hc
      refine ⟨hs', fun u hu => hothers u (hthreads u hu), fun t u th₁ th₂ hne h₁ h₂ => ?_⟩
      exact hpair th₁ th₂ (hthreads th₁ (List.mem_of_getElem? h₁))
        (hthreads th₂ (List.mem_of_getElem? h₂)) (hfree t u th₁ th₂ hne h₁ h₂)
  | run t k =>
      obtain ⟨th, s', th', fs, hth, hstep, rfl⟩ := M.exec_run_iff.mp hexec
      have hown := hthreads th (List.mem_of_getElem? hth)
      obtain ⟨hs', hth', hfs⟩ := hI.own hstep hd hc hown
      -- what becomes of another thread
      have hother : ∀ u th₁, u ≠ t → c.threads[u]? = some th₁ → A s' th₁ ∧ ¬C s' th' th₁ := by
        intro u th₁ hne hu
        exact hI.other hstep hd hc hown th₁ (hthreads th₁ (List.mem_of_getElem? hu))
          (hfree t u th th₁ (Ne.symm hne) hth hu)
      -- a thread was there before, has performed the section, or is new
      have hplace : ∀ u th₁, (c.threads.set t th' ++ fs)[u]? = some th₁ →
          u ≠ t ∧ c.threads[u]? = some th₁ ∨ u = t ∧ th₁ = th' ∨ th₁ ∈ fs := by
        intro u th₁ hu
        rcases getElem?_append_cases hu with hu | ⟨-, hu⟩
        · by_cases hut : u = t
          · subst hut
            rw [List.getElem?_set_self (List.getElem?_eq_some_iff.mp hth).1] at hu
            exact .inr (.inl ⟨rfl, (Option.some.inj hu).symm⟩)
          · rw [List.getElem?_set_ne (Ne.symm hut)] at hu
            exact .inl ⟨hut, hu⟩
        · exact .inr (.inr hu)
      refine ⟨hs', fun th₁ hmem => ?_, fun u v th₁ th₂ hne h₁ h₂ hboth => ?_⟩
      · obtain ⟨u, hu⟩ := List.mem_iff_getElem?.mp hmem
        rcases hplace u th₁ hu with ⟨hut, hold⟩ | ⟨-, rfl⟩ | hnew
        · exact (hother u th₁ hut hold).1
        · exact hth'
        · exact (hfs th₁ hnew).1
      · rcases hplace u th₁ h₁ with ⟨hut, hu⟩ | ⟨hut, rfl⟩ | hnew₁
        · rcases hplace v th₂ h₂ with ⟨hvt, hv⟩ | ⟨-, rfl⟩ | hnew₂
          · exact hI.pair hstep hd hc hown th₁ th₂ (hthreads th₁ (List.mem_of_getElem? hu))
              (hthreads th₂ (List.mem_of_getElem? hv)) (hfree t u th th₁ (Ne.symm hut) hth hu)
              (hfree t v th th₂ (Ne.symm hvt) hth hv) (hfree u v th₁ th₂ hne hu hv) hboth
          · exact (hother u th₁ hut hu).2 (hI.symm hboth)
          · exact (hfs th₂ hnew₂).2 th₁ (hI.symm hboth)
        · rcases hplace v th₂ h₂ with ⟨hvt, hv⟩ | ⟨hvt, -⟩ | hnew₂
          · exact (hother v th₂ hvt hv).2 hboth
          · exact hne (hut.trans hvt.symm)
          · exact (hfs th₂ hnew₂).2 th₁ (hI.symm hboth)
        · exact (hfs th₁ hnew₁).2 th₂ hboth

/-- A local invariant with conflicts holds along every run that keeps the rule. -/
theorem ConflictInvariant.run (hI : M.ConflictInvariant ok good I A C) (hgood : M.Lasting good)
    (h : M.Run ok c d) (hd : good d.shared) (hc : I c.shared)
    (hthreads : ∀ th ∈ c.threads, A c.shared th) (hfree : Unopposed C c) :
    I d.shared ∧ (∀ th ∈ d.threads, A d.shared th) ∧ Unopposed C d :=
  h.invariant_of_lasting (I := fun c => I c.shared ∧ (∀ th ∈ c.threads, A c.shared th) ∧ Unopposed C c)
    hgood hd ⟨hc, hthreads, hfree⟩ fun _ _ _ hinv hok hd hexec => hI.exec hok hexec hd hinv

end Conflict

/-! ## Exclusion -/

/-- No two threads of a pool are at work. -/
def Exclusive (W : σ → τ → Prop) (c : Config σ τ) : Prop :=
  Unopposed (fun s th u => W s th ∧ W s u) c

/-- A **local invariant with exclusion**: an assertion `I` about the shared state, one `A` about each
thread, and at most one thread is at work `W`. -/
structure ExclusiveInvariant (M : Machine σ τ κ ε) (ok : Config σ τ → Act τ κ ε → Prop)
    (good : σ → Prop) (I : σ → Prop) (A W : σ → τ → Prop) : Prop where
  /-- A thread that arrives meets its assertion and is not at work. -/
  spawn : ∀ {c th}, ok c (.spawn th) → A c.shared th ∧ ¬W c.shared th
  /-- A section preserves the assertion about the state and establishes that of its own thread; the
  threads it starts are not at work. -/
  own : ∀ {t k s th s' th' fs}, M.step t k s th = some (s', th', fs) → good s' → I s → A s th →
    I s' ∧ A s' th' ∧ ∀ f ∈ fs, A s' f ∧ ¬W s' f
  /-- It preserves the assertions of the others, and excludes them. -/
  other : ∀ {t k s th s' th' fs}, M.step t k s th = some (s', th', fs) → good s' → I s → A s th →
    ∀ u, A s u → ¬(W s th ∧ W s u) → A s' u ∧ (W s' u → W s u ∧ ¬W s' th')
  env : ∀ {e s}, I s → I (M.env e s) ∧
    ∀ u, A s u → A (M.env e s) u ∧ (W (M.env e s) u → W s u)

variable {I : σ → Prop} {A W : σ → τ → Prop}

/-- To be at work both is a conflict. So the rule for one kind of work is an instance of the rule
for conflicts. -/
theorem ExclusiveInvariant.conflict (hI : M.ExclusiveInvariant ok good I A W) :
    M.ConflictInvariant ok good I A fun s th u => W s th ∧ W s u where
  symm := fun h => ⟨h.2, h.1⟩
  spawn := fun hok => ⟨(hI.spawn hok).1, fun _ hboth => (hI.spawn hok).2 hboth.1⟩
  own := fun hstep hgood hs hth => by
    obtain ⟨hs', hth', hfs⟩ := hI.own hstep hgood hs hth
    exact ⟨hs', hth', fun f hf => ⟨(hfs f hf).1, fun _ hboth => (hfs f hf).2 hboth.1⟩⟩
  other := fun hstep hgood hs hth u hu hfree => by
    obtain ⟨hu', hwork⟩ := hI.other hstep hgood hs hth u hu hfree
    exact ⟨hu', fun hboth => (hwork hboth.2).2 hboth.1⟩
  pair := fun hstep hgood hs hth u v hu hv hfree₁ hfree₂ hfree hboth => by
    have hwork₁ := ((hI.other hstep hgood hs hth u hu hfree₁).2 hboth.1).1
    have hwork₂ := ((hI.other hstep hgood hs hth v hv hfree₂).2 hboth.2).1
    exact hfree ⟨hwork₁, hwork₂⟩
  env := fun hs => by
    obtain ⟨hs', hothers⟩ := hI.env hs
    refine ⟨hs', fun u hu => (hothers u hu).1, fun u v hu hv hfree hboth => hfree ⟨?_, ?_⟩⟩
    · exact (hothers u hu).2 hboth.1
    · exact (hothers v hv).2 hboth.2

/-- A local invariant with exclusion holds along every run that keeps the rule. -/
theorem ExclusiveInvariant.run (hI : M.ExclusiveInvariant ok good I A W) (hgood : M.Lasting good)
    (h : M.Run ok c d) (hd : good d.shared) (hc : I c.shared)
    (hthreads : ∀ th ∈ c.threads, A c.shared th) (hexclusive : Exclusive W c) :
    I d.shared ∧ (∀ th ∈ d.threads, A d.shared th) ∧ Exclusive W d :=
  hI.conflict.run hgood h hd hc hthreads hexclusive

end ThreadPool.Machine

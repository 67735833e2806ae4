import LanRoom.Concurrency.ThreadPool

/-! # Proof outlines for pools of threads

A *proof outline* annotates every program point of a pool with an assertion, in the rely/guarantee
style: an invariant of the shared state, a local assertion for each thread at its program point,
and a guarantee describing how far one section of a thread can disturb the others. The assertions
speak about an abstract state (`α`) beside the concrete one, and each concrete section has to be
matched by abstract moves, so an outline is at the same time a forward simulation of the pool by
the abstract transition system.

The obligations are local: one for the section a thread performs (`step_sound`), one for the
assertions of all other threads (`stable`). From them `Outline.valid_exec` and `Outline.valid_run`
give the invariant, all local assertions and the abstract run along every interleaving. -/

namespace ThreadPool

open Relation (ReflTransGen)

variable {σ τ κ ε : Type*}

/-- A **proof outline** of the machine `M` over the abstract states `α`. -/
structure Outline (M : Machine σ τ κ ε) (α : Type*) where
  /-- The threads that may arrive. -/
  starts : τ → Prop
  /-- The invariant relating the abstract to the shared state. -/
  inv : α → σ → Prop
  /-- The assertion of thread `t` at a program point. -/
  loc : Tid → α → σ → τ → Prop
  /-- What holds of an identifier `t` no thread has yet. -/
  fresh : Tid → α → σ → Prop
  /-- What one section of thread `t` guarantees to the other threads. -/
  guar : Tid → α → σ → α → σ → Prop
  /-- One abstract transition. -/
  move : α → α → Prop
  starts_loc : ∀ {t a s th}, inv a s → fresh t a s → starts th → loc t a s th
  env_inv : ∀ {a s} e, inv a s → inv a (M.env e s)
  env_loc : ∀ {t a s th} e, inv a s → loc t a s th → loc t a (M.env e s) th
  env_fresh : ∀ {t a s} e, fresh t a s → fresh t a (M.env e s)
  /-- The section a thread performs keeps the invariant and leads to its next assertion; the
  threads it starts have theirs. -/
  step_sound : ∀ {t k a s th s' th' fs}, inv a s → loc t a s th →
    M.step t k s th = some (s', th', fs) →
      ∃ a', inv a' s' ∧ loc t a' s' th' ∧ guar t a s a' s' ∧ ReflTransGen move a a' ∧
        ∀ f ∈ fs, ∀ u, fresh u a' s' → loc u a' s' f
  /-- The assertions of the other threads survive it. -/
  stable : ∀ {t u a s a' s' th}, t ≠ u → inv a s → inv a' s' → guar t a s a' s' →
    loc u a s th → loc u a' s' th
  /-- No section gives something to a thread that does not exist. -/
  fresh_stable : ∀ {t u a s a' s'}, t ≠ u → guar t a s a' s' → fresh u a s → fresh u a' s'

namespace Outline

variable {M : Machine σ τ κ ε} {α : Type*} (O : Outline M α)

/-- The outline **holds** at a configuration: the invariant and every thread's assertion. -/
structure Valid (a : α) (c : Config σ τ) : Prop where
  inv : O.inv a c.shared
  loc : ∀ t th, c.threads[t]? = some th → O.loc t a c.shared th
  fresh : ∀ t, c.threads.length ≤ t → O.fresh t a c.shared

/-- The scheduler actions an outline admits: only threads it knows may arrive. -/
def admits (_ : Config σ τ) (act : Act τ κ ε) : Prop := ∀ th, act = .spawn th → O.starts th

/-- What an action does in terms of the outline: the abstract moves matching it, and the guarantee
when it is a section of a thread. -/
structure Matched (a a' : α) (c d : Config σ τ) (act : Act τ κ ε) : Prop where
  valid : O.Valid a' d
  moves : ReflTransGen O.move a a'
  guar : ∀ t k, act = .run t k → O.guar t a c.shared a' d.shared
  idle : (∀ t k, act ≠ .run t k) → a' = a

variable {O} {a : α} {c d : Config σ τ} {act : Act τ κ ε}

/-- **Soundness of outlines, one action**: every admitted action of a valid configuration leads to
a valid configuration and is matched by abstract moves. -/
theorem valid_exec (hv : O.Valid a c) (hadm : O.admits c act) (hexec : M.exec c act = some d) :
    ∃ a', O.Matched a a' c d act := by
  cases act with
  | spawn th =>
      obtain rfl := Option.some.inj hexec
      refine ⟨a, ⟨hv.inv, fun t u hu => ?_, fun t ht => ?_⟩, .refl, by simp, fun _ => rfl⟩
      · -- the new thread is the last one, all others are where they were
        rcases getElem?_append_cases hu with h | ⟨ht, h⟩
        · exact hv.loc t u h
        · obtain rfl := List.mem_singleton.mp h
          exact O.starts_loc hv.inv (hv.fresh t ht) (hadm u rfl)
      · rw [List.length_append] at ht
        exact hv.fresh t (Nat.le_trans (Nat.le_add_right _ _) ht)
  | env e =>
      obtain rfl := Option.some.inj hexec
      exact ⟨a, ⟨O.env_inv e hv.inv, fun t th h => O.env_loc e hv.inv (hv.loc t th h),
        fun t ht => O.env_fresh e (hv.fresh t ht)⟩, .refl, by simp, fun _ => rfl⟩
  | run t k =>
      obtain ⟨th, s', th', fs, hth, hstep, rfl⟩ := M.exec_run_iff.mp hexec
      obtain ⟨a', hinv, hloc, hguar, hmoves, hforks⟩ :=
        O.step_sound hv.inv (hv.loc t th hth) hstep
      have htlt : t < c.threads.length := (List.getElem?_eq_some_iff.mp hth).1
      have hfresh : ∀ u, c.threads.length ≤ u → O.fresh u a' s' := fun u hu =>
        O.fresh_stable (Nat.ne_of_lt (Nat.lt_of_lt_of_le htlt hu)) hguar (hv.fresh u hu)
      refine ⟨a', ⟨hinv, fun u w hw => ?_, fun u hu => hfresh u ?_⟩, hmoves, ?_,
        fun h => absurd rfl (h t k)⟩
      · rcases getElem?_append_cases hw with h | ⟨hu, h⟩
        · by_cases htu : t = u
          · subst htu
            rw [List.getElem?_set_self htlt] at h
            obtain rfl := Option.some.inj h
            exact hloc
          · rw [List.getElem?_set_ne htu] at h
            exact O.stable htu hv.inv hinv hguar (hv.loc u w h)
        · rw [List.length_set] at hu
          exact hforks w h u (hfresh u hu)
      · rw [List.length_append, List.length_set] at hu
        exact Nat.le_trans (Nat.le_add_right _ _) hu
      · rintro t' k' h
        obtain ⟨rfl, -⟩ := Act.run.inj h
        exact hguar

/-- **Auxiliary invariants**: a statement `I` that every admitted action preserves, where the
outline may be used before and after it, holds along every admitted run. -/
theorem run_invariant {ok : Config σ τ → Act τ κ ε → Prop} {I : α → Config σ τ → Prop}
    (hok : ∀ c act, ok c act → O.admits c act) (hv : O.Valid a c) (h₀ : I a c)
    (hstep : ∀ a c a' d act, O.Valid a c → I a c → ok c act → M.exec c act = some d →
      O.Matched a a' c d act → I a' d) (hrun : M.Run ok c d) :
    ∃ a', O.Valid a' d ∧ ReflTransGen O.move a a' ∧ I a' d := by
  induction hrun with
  | refl => exact ⟨a, hv, .refl, h₀⟩
  | tail _ hact hexec ih =>
      obtain ⟨a₁, hv₁, hm₁, h₁⟩ := ih
      obtain ⟨a₂, h₂⟩ := valid_exec hv₁ (hok _ _ hact) hexec
      exact ⟨a₂, h₂.valid, hm₁.trans h₂.moves, hstep _ _ _ _ _ hv₁ h₁ hact hexec h₂⟩

/-- **Soundness of outlines, whole runs**: along every admitted run the outline stays valid and the
abstract state makes abstract moves only. -/
theorem valid_run {ok : Config σ τ → Act τ κ ε → Prop} (hok : ∀ c act, ok c act → O.admits c act)
    (hv : O.Valid a c) (hrun : M.Run ok c d) :
    ∃ a', O.Valid a' d ∧ ReflTransGen O.move a a' := by
  have htrivial : ∀ a c a' d act, O.Valid a c → True → ok c act → M.exec c act = some d →
      O.Matched a a' c d act → True := fun _ _ _ _ _ _ _ _ _ _ => trivial
  obtain ⟨a', hv', hmoves, -⟩ := run_invariant (I := fun _ _ => True) hok hv trivial htrivial hrun
  exact ⟨a', hv', hmoves⟩

/-- **Auxiliary assertions**: an assertion `E` of every thread is kept by an action if new threads
start with it, the thread that moves reaches it again, and the others keep it. -/
theorem Matched.threads {E : Tid → α → σ → τ → Prop} (hm : O.Matched a a' c d act)
    (hexec : M.exec c act = some d) (hE : ∀ t th, c.threads[t]? = some th → E t a c.shared th)
    (hspawn : ∀ t th, act = .spawn th → E t a c.shared th)
    (henv : ∀ e t th, act = .env e → E t a c.shared th → E t a (M.env e c.shared) th)
    (hself : ∀ t k th th' fs, act = .run t k → c.threads[t]? = some th →
      M.step t k c.shared th = some (d.shared, th', fs) → d.threads[t]? = some th' →
        E t a' d.shared th' ∧ ∀ f ∈ fs, ∀ u, E u a' d.shared f)
    (hother : ∀ t k u th, act = .run t k → t ≠ u → c.threads[u]? = some th → E u a c.shared th →
      E u a' d.shared th) :
    ∀ t th, d.threads[t]? = some th → E t a' d.shared th := by
  intro u w hw
  cases act with
  | spawn th =>
      obtain rfl := Option.some.inj hexec
      obtain rfl := hm.idle nofun
      rcases getElem?_append_cases hw with h | ⟨-, h⟩
      · exact hE u w h
      · obtain rfl := List.mem_singleton.mp h
        exact hspawn u w rfl
  | env e =>
      obtain rfl := Option.some.inj hexec
      obtain rfl := hm.idle nofun
      exact henv e u w rfl (hE u w hw)
  | run t k =>
      obtain ⟨th, s', th', fs, hth, hstep, rfl⟩ := M.exec_run_iff.mp hexec
      have htlt : t < c.threads.length := (List.getElem?_eq_some_iff.mp hth).1
      have hth' : (c.threads.set t th' ++ fs)[t]? = some th' := getElem?_set_append_self hth th' fs
      obtain ⟨hmoved, hforks⟩ := hself t k th th' fs rfl hth hstep hth'
      -- the thread was there before the section, as the one that runs or another, or was started by
      -- it
      rcases getElem?_append_cases hw with h | ⟨-, h⟩
      · by_cases htu : t = u
        · subst htu
          rw [List.getElem?_set_self htlt] at h
          obtain rfl := Option.some.inj h
          exact hmoved
        · rw [List.getElem?_set_ne htu] at h
          exact hother t k u w rfl htu h (hE u w h)
      · exact hforks w h u

end Outline

end ThreadPool

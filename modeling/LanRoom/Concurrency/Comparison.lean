import LanRoom.Concurrency.ThreadPool

/-! # Comparing two runs of a pool

Two ways to compare what a schedule does from two configurations.

* `Lockstep`: sections of the same thread do the same from related shared states. Then a schedule
  that starts the same threads moves them to the same places (`Lockstep.execAll`).
* `Separable`: the threads that are not kept do not disturb the relation. Then they can be deleted
  from the schedule, and the kept threads get to the same places without them
  (`Separable.execAll`). `Erasable` is the same for threads under a condition on the shared state. -/

namespace ThreadPool

/-! ## Kept threads -/

/-- The place of thread `t` among the kept ones. -/
def place {τ : Type*} (keep : τ → Bool) (ts : List τ) (t : Tid) : Tid := (ts.take t).countP keep

/-- A kept thread is found at its place. The place of a thread in the smaller pool is the number of
kept threads before it. -/
theorem getElem?_place {τ : Type*} {keep : τ → Bool} {ts : List τ} {t : Tid} {th : τ}
    (hth : ts[t]? = some th) (hkeep : keep th = true) :
    (ts.filter keep)[place keep ts t]? = some th := by
  induction ts generalizing t with
  | nil => cases hth
  | cons x ts ih =>
      cases t with
      | zero =>
          obtain rfl := Option.some.inj hth
          simp [place, hkeep]
      | succ t =>
          have hrest := ih (t := t) hth
          by_cases hx : keep x = true
          · simpa [place, List.filter_cons, hx] using hrest
          · simpa [place, List.filter_cons, hx] using hrest

/-- A kept thread that stays kept moves at its place. Leaving threads out and moving one of the
others can be done in either order. -/
theorem filter_set_of_keep {τ : Type*} {keep : τ → Bool} {ts : List τ} {t : Tid} {th th' : τ}
    (hth : ts[t]? = some th) (hkeep : keep th = true) (hkeep' : keep th' = true) :
    (ts.set t th').filter keep = (ts.filter keep).set (place keep ts t) th' := by
  induction ts generalizing t with
  | nil => cases hth
  | cons x ts ih =>
      cases t with
      | zero =>
          obtain rfl := Option.some.inj hth
          simp [place, hkeep, hkeep']
      | succ t =>
          have hrest := ih (t := t) hth
          by_cases hx : keep x = true
          · simpa [place, List.filter_cons, hx] using hrest
          · simpa [place, List.filter_cons, hx] using hrest

/-- The kept threads do not see another thread move. So a section of a thread that is left out is no
action at all in the smaller pool. -/
theorem filter_set_of_not_keep {τ : Type*} {keep : τ → Bool} {ts : List τ} {t : Tid} {th th' : τ}
    (hth : ts[t]? = some th) (hdrop : keep th = false) (hdrop' : keep th' = false) :
    (ts.set t th').filter keep = ts.filter keep := by
  induction ts generalizing t with
  | nil => cases hth
  | cons x ts ih =>
      cases t with
      | zero =>
          obtain rfl := Option.some.inj hth
          simp [hdrop, hdrop']
      | succ t =>
          have hrest := ih (t := t) hth
          simp only [List.set_cons_succ, List.filter_cons, hrest]

namespace Machine

variable {σ τ κ ε : Type*} {M : Machine σ τ κ ε} {R : σ → σ → Prop} {ok : τ → Prop}
  {keep : τ → Bool} {c c₁ d : Config σ τ}

/-- One section, as a computation. -/
theorem exec_run (c : Config σ τ) (t : Tid) (k : κ) :
    M.exec c (.run t k) = c.threads[t]?.bind fun th =>
      (M.step t k c.shared th).map fun r => ⟨r.1, c.threads.set t r.2.1 ++ r.2.2⟩ := by
  rw [Machine.exec]
  cases c.threads[t]? with
  | none => rfl
  | some th => rfl

/-- A schedule is executed piece by piece. -/
theorem execAll_append (c : Config σ τ) (as bs : List (Act τ κ ε)) :
    M.execAll c (as ++ bs) = (M.execAll c as).bind fun d => M.execAll d bs := by
  induction as generalizing c with
  | nil => rfl
  | cons a as ih =>
      simp only [List.cons_append, Machine.execAll, Option.bind_assoc, ih]

/-! ## Lockstep -/

/-- Sections of the same thread do the same from states related by `R`, as long as the threads are
`ok`. -/
structure Lockstep (M : Machine σ τ κ ε) (R : σ → σ → Prop) (ok : τ → Prop) : Prop where
  /-- The section is blocked in both states, or has the same outcome in both. -/
  step : ∀ t k s s₁ th, R s s₁ → ok th →
    Option.Rel (fun x y => R x.1 y.1 ∧ x.2 = y.2 ∧ ok x.2.1 ∧ ∀ f ∈ x.2.2, ok f)
      (M.step t k s th) (M.step t k s₁ th)
  env : ∀ e s s₁, R s s₁ → R (M.env e s) (M.env e s₁)

/-- Related configurations: related states and the same threads. -/
structure Level (R : σ → σ → Prop) (ok : τ → Prop) (c c₁ : Config σ τ) : Prop where
  shared : R c.shared c₁.shared
  threads : c.threads = c₁.threads
  all_ok : ∀ th ∈ c.threads, ok th

/-- One action leaves the configurations level. Either the action is possible in both and leads to
level configurations, or it is possible in neither. -/
theorem Lockstep.exec (hM : M.Lockstep R ok) (h : Level R ok c c₁) {a : Act τ κ ε}
    (harrive : ∀ th, a = .spawn th → ok th) :
    Option.Rel (Level R ok) (M.exec c a) (M.exec c₁ a) := by
  obtain ⟨s, ts⟩ := c
  obtain ⟨s₁, ts₁⟩ := c₁
  obtain ⟨hR, rfl, hok⟩ := h
  cases a with
  | spawn th =>
      refine .some ⟨hR, rfl, fun u hu => ?_⟩
      rcases List.mem_append.mp hu with hu | hu
      · exact hok u hu
      · exact List.mem_singleton.mp hu ▸ harrive th rfl
  | env e => exact .some ⟨hM.env e s s₁ hR, rfl, hok⟩
  -- the thread at this index is the same on both sides
  | run t k =>
      rw [exec_run, exec_run]
      cases hth : ts[t]? with
      | none => exact .none
      | some th =>
          have hsection := hM.step t k s s₁ th hR (hok th (List.mem_of_getElem? hth))
          rw [Option.bind_some, Option.bind_some]
          generalize M.step t k s th = out at hsection
          generalize M.step t k s₁ th = out₁ at hsection
          cases hsection with
          | none => exact .none
          -- the section leads to the same thread and starts the same ones
          | some hrel =>
              rename_i x y
              obtain ⟨hR', heq, hth', hfs⟩ := hrel
              refine .some ⟨hR', by simp only [heq], fun u hu => ?_⟩
              rcases List.mem_append.mp hu with hu | hu
              · rcases List.mem_or_eq_of_mem_set hu with hu | rfl
                · exact hok u hu
                · exact hth'
              · exact hfs u hu

/-- **A schedule runs in lockstep**: from level configurations it fails in both or leads to level
configurations. The induction is on the schedule, with one action at a time compared by the step
rule. -/
theorem Lockstep.execAll (hM : M.Lockstep R ok) (h : Level R ok c c₁) {as : List (Act τ κ ε)}
    (harrive : ∀ th, Act.spawn th ∈ as → ok th) :
    Option.Rel (Level R ok) (M.execAll c as) (M.execAll c₁ as) := by
  induction as generalizing c c₁ with
  | nil => exact .some h
  | cons a as ih =>
      unfold Machine.execAll
      have hhead := hM.exec h (a := a) fun th ha => harrive th (ha ▸ List.mem_cons_self)
      generalize M.exec c a = out at hhead
      generalize M.exec c₁ a = out₁ at hhead
      cases hhead with
      | none => exact .none
      | some hlevel => exact ih hlevel fun th hth => harrive th (List.mem_cons_of_mem _ hth)

/-! ## Deleting threads -/

/-- What is left of an action when the threads that are not kept are deleted. -/
def restrict (keep : τ → Bool) (c : Config σ τ) : Act τ κ ε → List (Act τ κ ε)
  | .spawn th => if keep th then [.spawn th] else []
  | .run t k =>
      match c.threads[t]? with
      | none => []
      | some th => if keep th then [.run (place keep c.threads t) k] else []
  | .env e => [.env e]

/-- What is left of a schedule when the threads that are not kept are deleted: their arrivals and
their sections are left out, the other threads move up to their places. -/
def restrictAll (M : Machine σ τ κ ε) (keep : τ → Bool) (c : Config σ τ) :
    List (Act τ κ ε) → List (Act τ κ ε)
  | [] => []
  | a :: as => restrict keep c a ++
      match M.exec c a with
      | none => []
      | some d => restrictAll M keep d as

/-- The threads that are not kept do not disturb the relation `R`, and the kept ones do the same
from related states. -/
structure Separable (M : Machine σ τ κ ε) (R : σ → σ → Prop) (keep : τ → Bool) (ok : τ → Prop) :
    Prop where
  /-- A kept thread stays kept and does the same from a related state. -/
  own : ∀ {t k s s₁ th s' th' fs}, R s s₁ → ok th → keep th = true →
    M.step t k s th = some (s', th', fs) → keep th' = true ∧ ok th' ∧ (∀ f ∈ fs, ok f) ∧
      ∃ s₁', R s' s₁' ∧ ∀ u, M.step u k s₁ th = some (s₁', th', fs.filter keep)
  /-- Another thread stays one and keeps the relation. -/
  other : ∀ {t k s s₁ th s' th' fs}, R s s₁ → ok th → keep th = false →
    M.step t k s th = some (s', th', fs) → R s' s₁ ∧ keep th' = false ∧ ok th' ∧
      (∀ f ∈ fs, ok f ∧ keep f = false)
  env : ∀ e s s₁, R s s₁ → R (M.env e s) (M.env e s₁)

/-- The second configuration is the first without the threads that are not kept. -/
structure Without (R : σ → σ → Prop) (keep : τ → Bool) (ok : τ → Prop) (c c₁ : Config σ τ) :
    Prop where
  shared : R c.shared c₁.shared
  threads : c₁.threads = c.threads.filter keep
  all_ok : ∀ th ∈ c.threads, ok th

/-- As `Separable`, for threads that meet a condition `ok` on themselves and the shared state. Every
section and the environment keep this condition for the threads that wait. -/
structure Erasable (M : Machine σ τ κ ε) (R : σ → σ → Prop) (keep : τ → Bool)
    (ok : σ → τ → Prop) : Prop where
  own : ∀ {t k s s₁ th s' th' fs}, R s s₁ → ok s th → keep th = true →
    M.step t k s th = some (s', th', fs) → keep th' = true ∧ ok s' th' ∧ (∀ f ∈ fs, ok s' f) ∧
      ∃ s₁', R s' s₁' ∧ ∀ u, M.step u k s₁ th = some (s₁', th', fs.filter keep)
  other : ∀ {t k s s₁ th s' th' fs}, R s s₁ → ok s th → keep th = false →
    M.step t k s th = some (s', th', fs) → R s' s₁ ∧ keep th' = false ∧ ok s' th' ∧
      (∀ f ∈ fs, ok s' f ∧ keep f = false)
  env : ∀ e s s₁, R s s₁ → R (M.env e s) (M.env e s₁)
  lasts : ∀ {t k s th s' th' fs u}, M.step t k s th = some (s', th', fs) → ok s u → ok s' u
  lasts_env : ∀ e s u, ok s u → ok (M.env e s) u

/-- A condition on the thread alone is one that lasts. -/
theorem Separable.erasable (hM : M.Separable R keep ok) : M.Erasable R keep fun _ => ok where
  own := hM.own
  other := hM.other
  env := hM.env
  lasts _ h := h
  lasts_env _ _ _ h := h

/-- One action and what is left of it. The action is performed by the smaller pool as well, or it is
one of a thread that is left out and nothing remains of it. -/
theorem Erasable.exec {ok : σ → τ → Prop} (hM : M.Erasable R keep ok)
    (h : Without R keep (ok c.shared) c c₁) {a : Act τ κ ε}
    (harrive : ∀ th, a = .spawn th → ok c.shared th) (hexec : M.exec c a = some d) :
    ∃ d₁, M.execAll c₁ (restrict keep c a) = some d₁ ∧ Without R keep (ok d.shared) d d₁ := by
  obtain ⟨s₁, ts₁⟩ := c₁
  obtain ⟨hR, rfl, hok⟩ := h
  cases a with
  | spawn th =>
      obtain rfl := Option.some.inj hexec
      have hall : ∀ u ∈ c.threads ++ [th], ok c.shared u := by
        intro u hu
        rcases List.mem_append.mp hu with hu | hu
        · exact hok u hu
        · exact List.mem_singleton.mp hu ▸ harrive th rfl
      -- a thread that arrives is kept on the other side, or left out
      by_cases hkeep : keep th = true
      · refine ⟨⟨s₁, c.threads.filter keep ++ [th]⟩, ?_, hR, ?_, hall⟩
        · simp only [restrict, if_pos hkeep]
          rfl
        · simp [List.filter_append, hkeep]
      · refine ⟨⟨s₁, c.threads.filter keep⟩, ?_, hR, ?_, hall⟩
        · simp only [restrict, if_neg hkeep]
          rfl
        · simp [List.filter_append, hkeep]
  | env e =>
      obtain rfl := Option.some.inj hexec
      exact ⟨⟨M.env e s₁, c.threads.filter keep⟩, rfl, hM.env e c.shared s₁ hR, rfl,
        fun u hu => hM.lasts_env e c.shared u (hok u hu)⟩
  | run t k =>
      obtain ⟨th, s', th', fs, hth, hstep, rfl⟩ := M.exec_run_iff.mp hexec
      have hth_ok := hok th (List.mem_of_getElem? hth)
      have hall : ok s' th' → (∀ f ∈ fs, ok s' f) → ∀ u ∈ c.threads.set t th' ++ fs, ok s' u := by
        intro hth' hfs u hu
        rcases List.mem_append.mp hu with hu | hu
        · rcases List.mem_or_eq_of_mem_set hu with hu | rfl
          · exact hM.lasts hstep (hok u hu)
          · exact hth'
        · exact hfs u hu
      -- the same for the thread that runs; its place on the other side is counted among the kept
      -- ones
      cases hkeep : keep th with
      | true =>
          obtain ⟨hkeep', hth', hfs, s₁', hR', hsame⟩ := hM.own hR hth_ok hkeep hstep
          refine ⟨⟨s₁', (c.threads.filter keep).set (place keep c.threads t) th' ++
            fs.filter keep⟩, ?_, hR', ?_, hall hth' hfs⟩
          · simp only [restrict, hth, if_pos hkeep, Machine.execAll, Machine.exec,
              getElem?_place hth hkeep, hsame, Option.map_some, Option.bind_some]
          · simp only [List.filter_append, filter_set_of_keep hth hkeep hkeep']
      | false =>
          obtain ⟨hR', hkeep', hth', hfs⟩ := hM.other hR hth_ok hkeep hstep
          refine ⟨⟨s₁, c.threads.filter keep⟩, ?_, hR', ?_, hall hth' fun f hf => (hfs f hf).1⟩
          · simp only [restrict, hth, hkeep, Bool.false_eq_true, if_false]
            rfl
          · have hnone : fs.filter keep = [] := by
              rw [List.filter_eq_nil_iff]
              intro f hf
              simp [(hfs f hf).2]
            simp only [List.filter_append, filter_set_of_not_keep hth hkeep hkeep', hnone,
              List.append_nil]

/-- **Threads that disturb nobody can be deleted**: what is left of a schedule executes, and moves
the kept threads to the same places. -/
theorem Erasable.execAll {ok : σ → τ → Prop} (hM : M.Erasable R keep ok)
    (h : Without R keep (ok c.shared) c c₁) {as : List (Act τ κ ε)}
    (harrive : ∀ s th, Act.spawn th ∈ as → ok s th) (hexec : M.execAll c as = some d) :
    ∃ d₁, M.execAll c₁ (M.restrictAll keep c as) = some d₁ ∧
      Without R keep (ok d.shared) d d₁ := by
  induction as generalizing c c₁ with
  | nil =>
      obtain rfl := Option.some.inj hexec
      exact ⟨c₁, rfl, h⟩
  | cons a as ih =>
      obtain ⟨e, hhead, hrest⟩ := Option.bind_eq_some_iff.mp hexec
      obtain ⟨e₁, hhead₁, he⟩ :=
        hM.exec h (fun th ha => harrive c.shared th (ha ▸ List.mem_cons_self)) hhead
      obtain ⟨d₁, hrest₁, hd⟩ :=
        ih he (fun s th hth => harrive s th (List.mem_cons_of_mem _ hth)) hrest
      refine ⟨d₁, ?_, hd⟩
      unfold restrictAll
      rw [execAll_append, hhead₁, hhead]
      exact hrest₁

/-- **A whole schedule goes through without the threads that are left out**, if each of its actions
does. The schedule is restricted action by action, since the identifiers of the threads that stay
have to be counted anew. -/
theorem Separable.execAll (hM : M.Separable R keep ok) (h : Without R keep ok c c₁)
    {as : List (Act τ κ ε)} (harrive : ∀ th, Act.spawn th ∈ as → ok th)
    (hexec : M.execAll c as = some d) :
    ∃ d₁, M.execAll c₁ (M.restrictAll keep c as) = some d₁ ∧ Without R keep ok d d₁ :=
  hM.erasable.execAll h (fun _ => harrive) hexec

end Machine

end ThreadPool

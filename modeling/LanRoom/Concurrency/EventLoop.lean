import Mathlib

/-! # Event loops

A program that reacts to events one at a time is a partial function `step` from states and events:
`none` says that the event cannot happen in the state. A run is a list of events that can happen one
after the other. `Throughout` is a property of every state that a run passes through, and `Along` a
rule for every event in the state in which it happens. -/

namespace EventLoop

variable {σ ε : Type*} {step : σ → ε → Option σ}

/-- The state after the events; `none` when one of them cannot happen. -/
def run (step : σ → ε → Option σ) (s : σ) (es : List ε) : Option σ := es.foldlM step s

/-- The property holds at the start and after every event. -/
def Throughout (step : σ → ε → Option σ) (P : σ → Prop) : σ → List ε → Prop
  | s, [] => P s
  | s, e :: es => P s ∧ ∀ s' ∈ step s e, Throughout step P s' es

/-- Every event meets the rule in the state in which it happens. -/
def Along (step : σ → ε → Option σ) (ok : σ → ε → Prop) : σ → List ε → Prop
  | _, [] => True
  | s, e :: es => ok s e ∧ ∀ s' ∈ step s e, Along step ok s' es

instance decidableAlong (ok : σ → ε → Prop) [∀ s e, Decidable (ok s e)] :
    ∀ s es, Decidable (Along step ok s es)
  | _, [] => isTrue trivial
  | s, e :: es =>
      have := fun s' => decidableAlong ok s' es
      inferInstanceAs (Decidable (ok s e ∧ ∀ s' ∈ step s e, Along step ok s' es))

/-- A run is one event and the rest. An event that cannot happen ends the run. -/
theorem run_cons (s : σ) (e : ε) (es : List ε) :
    run step s (e :: es) = (step s e).bind fun s' => run step s' es := by
  rw [run, List.foldlM_cons]
  rfl

/-- What every state has, the first one has. It is the state before the first event. -/
theorem Throughout.head {P : σ → Prop} {s : σ} {es : List ε} (h : Throughout step P s es) : P s := by
  cases es with
  | nil => exact h
  | cons e es => exact h.1

/-- A weaker property. It is used to read a property off an invariant. -/
theorem Throughout.mono {P Q : σ → Prop} (hPQ : ∀ s, P s → Q s) {s : σ} {es : List ε}
    (h : Throughout step P s es) : Throughout step Q s es := by
  induction es generalizing s with
  | nil => exact hPQ s h
  | cons e es ih =>
      refine ⟨hPQ s h.1, ?_⟩
      intro s' hs'
      exact ih (h.2 s' hs')

/-- **Invariant rule**: what every event that meets the rule preserves, holds throughout every run
that keeps the rule. The induction is on the events, with the state arbitrary. -/
theorem throughout_of_along {I : σ → Prop} {ok : σ → ε → Prop}
    (hstep : ∀ s e s', I s → ok s e → step s e = some s' → I s') {s : σ} {es : List ε} (hs : I s)
    (h : Along step ok s es) : Throughout step I s es := by
  induction es generalizing s with
  | nil => exact hs
  | cons e es ih =>
      refine ⟨hs, ?_⟩
      intro s' hs'
      exact ih (hstep s e s' hs h.1 hs') (h.2 s' hs')

/-- The rule without a condition. Every event keeps the invariant, so it holds in all states that
are passed through. -/
theorem throughout_of_invariant {I : σ → Prop}
    (hstep : ∀ s e s', I s → step s e = some s' → I s') {s : σ} (hs : I s) (es : List ε) :
    Throughout step I s es := by
  induction es generalizing s with
  | nil => exact hs
  | cons e es ih =>
      refine ⟨hs, ?_⟩
      intro s' hs'
      exact ih (hstep s e s' hs hs')

/-- Rules that agree wherever the invariant holds, agree along every run. -/
theorem along_congr {I : σ → Prop} {ok ok' : σ → ε → Prop}
    (hstep : ∀ s e s', I s → step s e = some s' → I s') (h : ∀ s e, I s → (ok s e ↔ ok' s e))
    {s : σ} (hs : I s) (es : List ε) : Along step ok s es ↔ Along step ok' s es := by
  induction es generalizing s with
  | nil => exact Iff.rfl
  | cons e es ih =>
      apply and_congr (h s e hs)
      apply forall₂_congr
      intro s' hs'
      exact ih (hstep s e s' hs hs')

/-- **Exactness rule**: when the first event that breaks the rule breaks the property, the runs that
have the property throughout are those that keep the rule. -/
theorem throughout_iff_along {I P : σ → Prop} {ok : σ → ε → Prop}
    (hstep : ∀ s e s', I s → ok s e → step s e = some s' → I s') (hP : ∀ s, I s → P s)
    (hbreak : ∀ s e s', I s → ¬ok s e → step s e = some s' → ¬P s') {s s' : σ} {es : List ε}
    (hs : I s) (hrun : run step s es = some s') :
    Throughout step P s es ↔ Along step ok s es := by
  constructor
  · intro h
    induction es generalizing s with
    | nil => trivial
    | cons e es ih =>
        rw [run_cons] at hrun
        obtain ⟨s₁, hs₁, hrest⟩ := Option.bind_eq_some_iff.mp hrun
        have hok : ok s e := by
          by_contra hbad
          exact hbreak s e s₁ hs hbad hs₁ (h.2 s₁ hs₁).head
        refine ⟨hok, ?_⟩
        intro s₂ hs₂
        obtain rfl := Option.some.inj (hs₁.symm.trans hs₂)
        exact ih (hstep s e s₁ hs hok hs₁) hrest (h.2 s₁ hs₁)
  · intro h
    exact (throughout_of_along hstep hs h).mono hP

end EventLoop

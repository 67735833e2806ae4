import Mathlib

/-! # Counting events in fixed windows

A limiter counts events in windows of one width: a window opens with an event when none is open,
later events are counted in it, and it may be dropped once it is older than the width. No more
events are let through while the open window has `limit` of them.

Two windows can meet inside an interval of one width, so the limiter does not keep the events of
every such interval within `limit`. It keeps them below twice the limit (`Kept.since_lt`): the
window before the open one has at most `limit - 1` events within one width of the open one's start,
since its first event was earlier.

* `since x log` counts the events of a log from `x` on.
* `Kept width limit now window log` is what the limiter maintains about the log of its events.
* `Metered width limit count start now log` is what another limiter maintains. Its window is always
  open and restarts at a time of its own, and it counts what it does not let through. It lets through
  at most twice the limit in every interval of one width (`Metered.few`). -/

namespace FixedWindow

/-- The number of events from `x` on. -/
def since (x : ℤ) (log : List ℤ) : ℕ := log.countP fun g => x ≤ g

variable {width now now' x y : ℤ} {limit count : ℕ} {start g : ℤ} {log log' : List ℤ}
  {window : Option (ℕ × ℤ)}

/-- Counting goes piece by piece. A log is extended at its end, so this is the step of every
count. -/
theorem since_append : since x (log ++ log') = since x log + since x log' := List.countP_append

/-- One event is counted when it is late enough. Together with the fact above it counts a log with
one more event. -/
theorem since_singleton : since x [g] = if x ≤ g then 1 else 0 := by
  simp [since, List.countP_singleton]

/-- At most all events are counted. The bound is used for a window that has just begun. -/
theorem since_le_length : since x log ≤ log.length := List.countP_le_length

/-- Later events are fewer. A later moment leaves out more of them. -/
theorem since_anti (h : x ≤ y) : since y log ≤ since x log := by
  apply List.countP_mono_left
  intro g _ hg
  exact decide_eq_true (h.trans (of_decide_eq_true hg))

/-- All events are earlier. It is used for the events before the window. -/
theorem since_eq_zero (h : ∀ g ∈ log, g < x) : since x log = 0 := by
  apply List.countP_eq_zero.mpr
  intro g hg
  simpa using h g hg

/-- The log of a limiter whose window is open: the window's events are the last `count` of the log,
the first of them was no later than the start, and the ones before left room for the window. -/
structure Opened (width : ℤ) (limit : ℕ) (count : ℕ) (start : ℤ) (log : List ℤ) : Prop where
  le_limit : count ≤ limit
  parts : ∃ before first rest, log = before ++ first :: rest ∧ count = rest.length + 1 ∧
    first ≤ start ∧ (∀ g ∈ before, g ≤ start) ∧ since (start - width) before < limit

/-- What the limiter maintains about the log of its events. -/
structure Kept (width : ℤ) (limit : ℕ) (now : ℤ) (window : Option (ℕ × ℤ)) (log : List ℤ) :
    Prop where
  past : ∀ g ∈ log, g ≤ now
  closed : window = none → since (now - width) log < limit
  opened : ∀ count start, window = some (count, start) →
    start ≤ now ∧ Opened width limit count start log

/-- The window has room for one more event. -/
def Room (limit : ℕ) (window : Option (ℕ × ℤ)) : Prop :=
  ∀ count start, window = some (count, start) → count < limit

/-- At the start there is no event and no window. The limit has to be positive, since the first
event is let through. -/
theorem Kept.empty (hlimit : 0 < limit) : Kept width limit now none [] where
  past g hg := absurd hg List.not_mem_nil
  closed _ := hlimit
  opened _ _ h := by cases h

/-- Time passes. The window stays as it is until an event looks at the clock. -/
theorem Kept.tick (h : Kept width limit now window log) (hle : now ≤ now') :
    Kept width limit now' window log where
  past g hg := (h.past g hg).trans hle
  closed hnone := (since_anti (by omega)).trans_lt (h.closed hnone)
  opened count start hsome :=
    ⟨(h.opened count start hsome).1.trans hle, (h.opened count start hsome).2⟩

/-- A window older than the width is dropped: its first event, and all events before, are older
too. -/
theorem Kept.drop (h : Kept width limit now (some (count, start)) log)
    (hold : width < now - start) : Kept width limit now none log where
  past := h.past
  closed _ := by
    obtain ⟨-, hlimit, before, first, rest, rfl, hcount, hfirst, hbefore, -⟩ := h.opened count start rfl
    have hnone : since (now - width) before = 0 := since_eq_zero fun g hg => by
      have hg := hbefore g hg
      omega
    have hhead : since (now - width) [first] = 0 := since_eq_zero fun g hg => by
      obtain rfl := List.mem_singleton.mp hg
      omega
    have hrest : since (now - width) rest ≤ rest.length := since_le_length
    have hsplit : since (now - width) (before ++ first :: rest) =
        since (now - width) before + (since (now - width) [first] + since (now - width) rest) := by
      rw [← since_append, ← since_append]
      rfl
    omega
  opened _ _ h := by cases h

/-- An event opens a window. The window starts now, with a count of one; the events of the log
before it belong to no window any more. -/
theorem Kept.record_new (h : Kept width limit now none log) (hlimit : 0 < limit) (hg : g ≤ now) :
    Kept width limit now (some (1, now)) (log ++ [g]) where
  past g' hg' := by
    rcases List.mem_append.mp hg' with hg' | hg'
    · exact h.past g' hg'
    · exact List.mem_singleton.mp hg' ▸ hg
  closed h := by cases h
  opened _ _ hsome := by
    cases hsome
    exact ⟨le_refl now, hlimit, log, g, [], rfl, rfl, hg, h.past, h.closed rfl⟩

/-- An event is counted in the open window. There is room, so the count stays within the limit; the
start of the window is not moved. -/
theorem Kept.record_same (h : Kept width limit now (some (count, start)) log) (hroom : count < limit)
    (hg : g ≤ now) : Kept width limit now (some (count + 1, start)) (log ++ [g]) where
  past g' hg' := by
    rcases List.mem_append.mp hg' with hg' | hg'
    · exact h.past g' hg'
    · exact List.mem_singleton.mp hg' ▸ hg
  closed h := by cases h
  opened _ _ hsome := by
    cases hsome
    obtain ⟨hstart, -, before, first, rest, rfl, rfl, hfirst, hbefore, hfew⟩ := h.opened count start rfl
    refine ⟨hstart, hroom, before, first, rest ++ [g], ?_, ?_, hfirst, hbefore, hfew⟩
    · rw [List.append_assoc, List.cons_append]
    · rw [List.length_append, List.length_singleton]

/-- **Room for one more event** leaves at least two below twice the limit within one width. The
events of the present window are fewer than the limit, and those of the window before it are at most
as many. -/
theorem Kept.since_lt (h : Kept width limit now window log) (hroom : Room limit window)
    (hlimit : 0 < limit) (hx : now - width ≤ x) : since x log + 1 < 2 * limit := by
  cases hwindow : window with
  | none =>
      have hfew := h.closed hwindow
      have hanti : since x log ≤ since (now - width) log := since_anti hx
      omega
  | some w =>
      obtain ⟨count, start⟩ := w
      have hless := hroom count start hwindow
      obtain ⟨hstart, -, before, first, rest, rfl, rfl, -, -, hfew⟩ := h.opened count start hwindow
      have hbefore : since x before ≤ since (start - width) before := since_anti (by omega)
      have hopen : since x (first :: rest) ≤ (first :: rest).length := since_le_length
      rw [List.length_cons] at hopen
      rw [since_append]
      omega

/-! ## A window that is always open -/

/-- The number of events from `x` to `y`. -/
def between (x y : ℤ) (log : List ℤ) : ℕ := log.countP fun g => decide (x ≤ g ∧ g ≤ y)

/-- Counting between two moments goes piece by piece. It is the step of a count over a log that
grows. -/
theorem between_append : between x y (log ++ log') = between x y log + between x y log' :=
  List.countP_append

/-- An earlier end only counts fewer events. The bound on all later events is also one on those in
between. -/
theorem between_le_since : between x y log ≤ since x log := by
  apply List.countP_mono_left
  intro g _ hg
  exact decide_eq_true (of_decide_eq_true hg).1

/-- The log of a limiter whose window started at `start`: at most `limit` events were let through in
the window, and at most as many within one width before it. -/
structure Metered (width : ℤ) (limit count : ℕ) (start now : ℤ) (log : List ℤ) : Prop where
  past : ∀ g ∈ log, g ≤ now
  start_le : start ≤ now
  parts : ∃ before opened, log = before ++ opened ∧ opened.length ≤ count ∧ opened.length ≤ limit ∧
    (∀ g ∈ before, g ≤ start) ∧ since (start - width) before ≤ limit
  few : ∀ x, between x (x + width) log ≤ 2 * limit

/-- At the start there is no event. The count is zero and the window begins. -/
theorem Metered.empty (hle : start ≤ now) : Metered width limit 0 start now [] where
  past _ hg := absurd hg List.not_mem_nil
  start_le := hle
  parts := ⟨[], [], rfl, le_refl 0, Nat.zero_le limit, fun _ hg => absurd hg List.not_mem_nil,
    Nat.zero_le limit⟩
  few _ := Nat.zero_le _

/-- Time passes. The count and the window stay as they are until an event looks at the clock. -/
theorem Metered.tick (h : Metered width limit count start now log) (hle : now ≤ now') :
    Metered width limit count start now' log where
  past g hg := (h.past g hg).trans hle
  start_le := h.start_le.trans hle
  parts := h.parts
  few := h.few

/-- A window older than the width ends: the events before it are older than one width. The new
window starts now with a count of zero, whatever the old one had counted. -/
theorem Metered.restart (h : Metered width limit count start now log)
    (hold : width < now - start) : Metered width limit 0 now now log where
  past := h.past
  start_le := le_refl now
  parts := by
    obtain ⟨before, opened, rfl, -, hlimit, hbefore, -⟩ := h.parts
    refine ⟨before ++ opened, [], (List.append_nil _).symm, le_refl 0, Nat.zero_le limit, h.past, ?_⟩
    have hnone : since (now - width) before = 0 := since_eq_zero fun g hg => by
      have hg := hbefore g hg
      omega
    rw [since_append, hnone, Nat.zero_add]
    exact since_le_length.trans hlimit
  few := h.few

/-- An event is counted and not let through. The log is the list of the events let through, so it
stays; only the count grows. -/
theorem Metered.skip (h : Metered width limit count start now log) :
    Metered width limit (count + 1) start now log where
  past := h.past
  start_le := h.start_le
  parts := by
    obtain ⟨before, opened, hlog, hcount, hrest⟩ := h.parts
    exact ⟨before, opened, hlog, hcount.trans (Nat.le_succ count), hrest⟩
  few := h.few

/-- An event is counted and let through. The count is still below the limit, so the window has room
for one more. -/
theorem Metered.record (h : Metered width limit count start now log) (hroom : count < limit) :
    Metered width limit (count + 1) start now (log ++ [now]) where
  past g hg := by
    rcases List.mem_append.mp hg with hg | hg
    · exact h.past g hg
    · exact (List.mem_singleton.mp hg).le
  start_le := h.start_le
  parts := by
    obtain ⟨before, opened, rfl, hcount, -, hrest⟩ := h.parts
    refine ⟨before, opened ++ [now], List.append_assoc before opened [now], ?_, ?_, hrest⟩
    · rw [List.length_append, List.length_singleton]
      omega
    · rw [List.length_append, List.length_singleton]
      omega
  few x := by
    rw [between_append]
    by_cases hin : x ≤ now ∧ now ≤ x + width
    · -- the interval reaches into the window, and so not behind the width before it
      obtain ⟨before, opened, rfl, hcount, -, -, hbefore⟩ := h.parts
      have hstart := h.start_le
      have hanti : since x before ≤ since (start - width) before := since_anti (by omega)
      have hold : between x (x + width) before ≤ since x before := between_le_since
      have hopen : between x (x + width) opened ≤ opened.length := List.countP_le_length
      have hself : between x (x + width) [now] = 1 := by
        rw [between, List.countP_singleton, if_pos (decide_eq_true hin)]
      rw [between_append, hself]
      omega
    · have hself : between x (x + width) [now] = 0 := by
        rw [between, List.countP_singleton, if_neg]
        rw [decide_eq_true_iff]
        exact hin
      rw [hself]
      exact h.few x

end FixedWindow

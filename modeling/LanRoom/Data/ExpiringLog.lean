import Mathlib

/-! # Logs whose old entries are thrown away

A log keeps its entries in the order they were written; an entry expires when its stamp falls below
a cutoff, and cutoffs never decrease. A log that throws expired entries away whenever it is written
to cannot be told from one that keeps them all, by readers who ask only for what has not expired.

* `live stamp cutoff log` is what has not expired.
* `Agrees stamp cutoff kept log` says that `kept` and `log` have the same live entries from `cutoff`
  on; it survives later cutoffs (`Agrees.mono`), throwing away (`Agrees.prune`) and writing
  (`Agrees.append`). -/

namespace ExpiringLog

variable {α τ : Type*} [LinearOrder τ] (stamp : α → τ)

/-- The entries of a log that have not expired. -/
def live (cutoff : τ) (log : List α) : List α := log.filter fun x => cutoff ≤ stamp x

/-- Two logs have the same live entries at `cutoff` and at any later one. -/
def Agrees (cutoff : τ) (kept log : List α) : Prop :=
  ∀ later, cutoff ≤ later → live stamp later kept = live stamp later log

variable {stamp} {cutoff later : τ} {kept log : List α}

/-- What is live is found piece by piece. Entries are live or not by their own stamp alone. -/
theorem live_append (xs ys : List α) :
    live stamp cutoff (xs ++ ys) = live stamp cutoff xs ++ live stamp cutoff ys := by
  simp [live]

/-- What has expired early has expired later. Pruning early does not change what is found later. -/
theorem live_live (hle : cutoff ≤ later) :
    live stamp later (live stamp cutoff log) = live stamp later log := by
  unfold live
  rw [List.filter_filter]
  congr 1
  funext x
  by_cases hx : later ≤ stamp x
  · have hearly : cutoff ≤ stamp x := hle.trans hx
    simp [hx, hearly]
  · simp [hx]

/-- A log agrees with itself. It is the start of a comparison between a log that is pruned and one
that is not. -/
theorem Agrees.refl : Agrees stamp cutoff log log := fun _ _ => rfl

/-- Logs that agree have the same live entries. This is what a reader sees of the agreement. -/
theorem Agrees.live_eq (h : Agrees stamp cutoff kept log) :
    live stamp cutoff kept = live stamp cutoff log :=
  h cutoff (le_refl cutoff)

/-- Cutoffs may grow. As time passes fewer entries have to agree. -/
theorem Agrees.mono (h : Agrees stamp cutoff kept log) (hle : cutoff ≤ later) :
    Agrees stamp later kept log :=
  fun last hlast => h last (hle.trans hlast)

/-- Expired entries may be thrown away. It is done to one of the two logs, and the other one keeps
everything. -/
theorem Agrees.prune (h : Agrees stamp cutoff kept log) :
    Agrees stamp cutoff (live stamp cutoff kept) log := by
  intro later hle
  rw [live_live hle]
  exact h later hle

/-- The same entries may be written to both. They stand at the end, in the same order. -/
theorem Agrees.append (h : Agrees stamp cutoff kept log) (xs : List α) :
    Agrees stamp cutoff (kept ++ xs) (log ++ xs) := by
  intro later hle
  rw [live_append, live_append, h later hle]

end ExpiringLog

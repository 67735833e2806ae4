import Mathlib

/-! # Escaping by successive replacements

An escape table gives some characters an entity: a sequence that starts with one character, the
lead, which is itself in the table. An encoder goes through the whole text once for each entry of
the table, and replaces the character of this entry (`EntityTable.escape`). It reads what it has put
in for earlier entries, so that the order of the entries matters. A decoder goes through the text
once and replaces entities by their characters.

* `escape_eq_flatMap`: the passes amount to one pass, which looks every character up in the table.
* `unescape_escape`: decoding once gives the text back, also with a larger table.
* `exists_of_escape_eq`: a lead in the escaped text starts an entity that was put in. -/

namespace Entities

variable {α : Type*} [DecidableEq α]

/-- Every occurrence of a character is replaced. -/
def replaceAll (c : α) (r : List α) (s : List α) : List α :=
  s.flatMap fun x => if x = c then r else [x]

/-- Replacing goes piece by piece. Each character is replaced without regard to its neighbours. -/
theorem replaceAll_append (c : α) (r s t : List α) :
    replaceAll c r (s ++ t) = replaceAll c r s ++ replaceAll c r t := List.flatMap_append

/-- A text without the character stays. A pass for another character therefore leaves an entity
alone if that character is not in it. -/
theorem replaceAll_of_not_mem {c : α} {r s : List α} (h : c ∉ s) : replaceAll c r s = s := by
  induction s with
  | nil => rfl
  | cons x s ih =>
    rw [List.mem_cons, not_or] at h
    have hx : x ≠ c := fun e => h.1 e.symm
    rw [replaceAll, List.flatMap_cons, if_neg hx, List.singleton_append]
    exact congrArg (x :: ·) (ih h.2)

/-- Where the characters of a replaced text come from. Either it belongs to the replacement or it
was there and is not the character that is replaced. -/
theorem mem_replaceAll {c x : α} {r s : List α} (h : x ∈ replaceAll c r s) :
    x ∈ r ∨ x ∈ s ∧ x ≠ c := by
  obtain ⟨y, hy, hx⟩ := List.mem_flatMap.mp h
  by_cases hc : y = c
  · rw [if_pos hc] at hx
    exact Or.inl hx
  · rw [if_neg hc, List.mem_singleton] at hx
    exact Or.inr ⟨hx ▸ hy, hx ▸ hc⟩

/-- An escape table: the characters with the entities behind the lead. -/
structure EntityTable (α : Type*) where
  /-- The first character of every entity. -/
  lead : α
  /-- Every character with its entity, less the lead. -/
  entries : List (α × List α)
  /-- The lead is escaped too. -/
  lead_mem : ∃ e ∈ entries, e.1 = lead
  /-- Entities have the lead in front only. -/
  lead_front : ∀ e ∈ entries, lead ∉ e.2
  /-- No character is replaced twice, or in an entity that was put in before. -/
  ordered : entries.Pairwise fun e e' => e'.1 ≠ e.1 ∧ e'.1 ∉ lead :: e.2
  /-- No entity starts another. -/
  prefixFree : ∀ e ∈ entries, ∀ e' ∈ entries, e.2 <+: e'.2 → e = e'

/-- What stands for a character by a list of entries: its entity, or the character. -/
def lookup (lead : α) : List (α × List α) → α → List α
  | [], x => [x]
  | e :: es, x => if x = e.1 then lead :: e.2 else lookup lead es x

/-- A character without an entry stands for itself. The table is searched to its end. -/
theorem lookup_of_forall_ne {lead x : α} {es : List (α × List α)} (h : ∀ e ∈ es, x ≠ e.1) :
    lookup lead es x = [x] := by
  induction es with
  | nil => rfl
  | cons e es ih =>
    rw [lookup, if_neg (h e List.mem_cons_self)]
    exact ih fun e' he' => h e' (List.mem_cons_of_mem e he')

/-- The entity of an entry whose character has no other. The search finds the first entry, and there
is only this one. -/
theorem lookup_of_mem {lead : α} {es : List (α × List α)}
    (hes : es.Pairwise fun e e' => e'.1 ≠ e.1) {e : α × List α} (he : e ∈ es) :
    lookup lead es e.1 = lead :: e.2 := by
  induction es with
  | nil => exact absurd he List.not_mem_nil
  | cons e' es ih =>
    rw [List.pairwise_cons] at hes
    rcases List.mem_cons.mp he with rfl | he
    · rw [lookup, if_pos rfl]
    · rw [lookup, if_neg (hes.1 e he)]
      exact ih hes.2 he

/-- Passes of replacement, when later ones leave alone what earlier ones put in. -/
theorem foldl_replaceAll {lead : α} {es : List (α × List α)}
    (hes : es.Pairwise fun e e' => e'.1 ∉ lead :: e.2) (s : List α) :
    es.foldl (fun s e => replaceAll e.1 (lead :: e.2) s) s = s.flatMap (lookup lead es) := by
  induction es generalizing s with
  | nil => exact (List.flatMap_singleton' s).symm
  | cons e es ih =>
    rw [List.pairwise_cons] at hes
    rw [List.foldl_cons, ih hes.2, replaceAll, List.flatMap_assoc]
    apply List.flatMap_congr
    intro x _
    by_cases hx : x = e.1
    · rw [if_pos hx, lookup, if_pos hx]
      -- nothing in the entity is replaced by the passes to come
      have hfix : ∀ y ∈ lead :: e.2, lookup lead es y = [y] := by
        intro y hy
        apply lookup_of_forall_ne
        rintro e' he' rfl
        exact hes.1 e' he' hy
      rw [List.flatMap_congr hfix]
      exact List.flatMap_singleton' _
    · rw [if_neg hx, lookup, if_neg hx, List.flatMap_singleton]

namespace EntityTable

variable (t : EntityTable α)

/-- The passes, in the order of the table. -/
def escape (s : List α) : List α :=
  t.entries.foldl (fun s e => replaceAll e.1 (t.lead :: e.2) s) s

/-- What stands for a character. -/
def entity (x : α) : List α := lookup t.lead t.entries x

/-- One pass of decoding. -/
def unescape : List α → List α
  | [] => []
  | x :: s =>
    match t.entries.find? fun e => decide (t.lead :: e.2 <+: x :: s) with
    | some e => e.1 :: unescape (s.drop e.2.length)
    | none => x :: unescape s
termination_by s => s.length
decreasing_by all_goals simp; try omega

variable {t}

/-- **The passes amount to one.** Replacing one character after the other gives the same as
replacing all of them at once. -/
theorem escape_eq_flatMap (s : List α) : t.escape s = s.flatMap t.entity :=
  foldl_replaceAll (t.ordered.imp fun h => h.2) s

/-- Escaping goes character by character. It is the equation that inductions over a text use. -/
theorem escape_cons (x : α) (s : List α) : t.escape (x :: s) = t.entity x ++ t.escape s := by
  rw [escape_eq_flatMap, escape_eq_flatMap, List.flatMap_cons]

/-! ## The entities -/

/-- An entry of the table is what its character is replaced by. The characters of the entries are
different from one another. -/
theorem entity_of_mem {e : α × List α} (he : e ∈ t.entries) : t.entity e.1 = t.lead :: e.2 :=
  lookup_of_mem (t.ordered.imp fun h => h.1) he

/-- A character stands for itself, and is not the lead, when it has no entry. -/
theorem entity_cases (x : α) :
    (∃ e ∈ t.entries, e.1 = x) ∨ x ≠ t.lead ∧ t.entity x = [x] := by
  by_cases h : ∃ e ∈ t.entries, e.1 = x
  · exact Or.inl h
  · right
    constructor
    · rintro rfl
      exact h t.lead_mem
    · apply lookup_of_forall_ne
      intro e he hx
      exact h ⟨e, he, hx.symm⟩

/-! ## Decoding -/

/-- A character that is not the lead is kept. Only the lead begins an entity. -/
theorem unescape_cons_of_ne {x : α} (hx : x ≠ t.lead) (s : List α) :
    t.unescape (x :: s) = x :: t.unescape s := by
  have hnone : (t.entries.find? fun e => decide (t.lead :: e.2 <+: x :: s)) = none := by
    rw [List.find?_eq_none]
    intro e _ he
    exact hx (List.cons_prefix_cons.mp (of_decide_eq_true he)).1.symm
  rw [unescape, hnone]

/-- An entity is replaced by its character, whatever follows. No entity is the beginning of another
one, so the reader knows where it ends. -/
theorem unescape_entity {e : α × List α} (he : e ∈ t.entries) (s : List α) :
    t.unescape (t.lead :: e.2 ++ s) = e.1 :: t.unescape s := by
  have hsome : (t.entries.find? fun e' => decide (t.lead :: e'.2 <+: t.lead :: (e.2 ++ s))) =
      some e := by
    have hself : t.lead :: e.2 <+: t.lead :: (e.2 ++ s) :=
      List.cons_prefix_cons.mpr ⟨rfl, List.prefix_append e.2 s⟩
    obtain ⟨e', hfind⟩ : ∃ e', (t.entries.find? fun e' =>
        decide (t.lead :: e'.2 <+: t.lead :: (e.2 ++ s))) = some e' :=
      Option.isSome_iff_exists.mp (List.find?_isSome.mpr ⟨e, he, decide_eq_true hself⟩)
    have hmem : e' ∈ t.entries := List.mem_of_find?_eq_some hfind
    have hprefix : e'.2 <+: e.2 ++ s := by simpa using List.find?_some hfind
    -- of two entities that start one text, one starts the other
    have heq : e' = e := by
      rcases List.prefix_or_prefix_of_prefix hprefix (List.prefix_append e.2 s) with h | h
      · exact t.prefixFree e' hmem e he h
      · exact (t.prefixFree e he e' hmem h).symm
    rw [hfind, heq]
  rw [List.cons_append, unescape, hsome]
  simp

/-- **Decoding once gives the text back**, also with a larger table. The decoder may know more
entities than the encoder writes. -/
theorem unescape_escape {t' : EntityTable α} (hlead : t'.lead = t.lead)
    (hsub : t.entries ⊆ t'.entries) (s : List α) : t'.unescape (t.escape s) = s := by
  induction s with
  | nil => rw [escape_eq_flatMap, List.flatMap_nil, unescape]
  | cons x s ih =>
    rw [escape_cons]
    rcases entity_cases (t := t) x with ⟨e, he, rfl⟩ | ⟨hx, hself⟩
    · rw [entity_of_mem he, ← hlead, unescape_entity (hsub he), ih]
    · rw [hself, List.singleton_append, unescape_cons_of_ne (hlead ▸ hx), ih]

/-! ## What is in the escaped text -/

/-- A character that is escaped, is not the lead and is in no entity does not occur. -/
theorem not_mem_escape {c : α} (hc : ∃ e ∈ t.entries, e.1 = c)
    (hfresh : ∀ e ∈ t.entries, c ∉ t.lead :: e.2) (s : List α) : c ∉ t.escape s := by
  rw [escape_eq_flatMap]
  intro hmem
  obtain ⟨x, -, hx⟩ := List.mem_flatMap.mp hmem
  rcases entity_cases (t := t) x with ⟨e, he, rfl⟩ | ⟨-, hself⟩
  · rw [entity_of_mem he] at hx
    exact hfresh e he hx
  · rw [hself, List.mem_singleton] at hx
    subst hx
    obtain ⟨e, he, rfl⟩ := hc
    rw [entity_of_mem he] at hself
    apply hfresh e he
    rw [hself]
    exact List.mem_singleton_self e.1

/-- **Every lead starts an entity that was put in**: what is before it and what is after the entity
are the escaped parts of the text around a character. -/
theorem exists_of_escape_eq {s p q : List α} (h : t.escape s = p ++ t.lead :: q) :
    ∃ s₁ e s₂, e ∈ t.entries ∧ s = s₁ ++ e.1 :: s₂ ∧ p = t.escape s₁ ∧
      t.lead :: q = t.lead :: e.2 ++ t.escape s₂ := by
  induction s generalizing p with
  | nil =>
    rw [escape_eq_flatMap, List.flatMap_nil] at h
    exact absurd (congrArg List.length h) (by simp)
  | cons x s ih =>
    rw [escape_cons] at h
    rcases List.append_eq_append_iff.mp h with ⟨p', hp, hs⟩ | ⟨q', hx, hq⟩
    · -- the lead is behind what stands for the first character
      obtain ⟨s₁, e, s₂, he, rfl, rfl, hq⟩ := ih hs
      exact ⟨x :: s₁, e, s₂, he, rfl, by rw [hp, escape_cons], hq⟩
    · cases q' with
      | nil =>
        obtain ⟨s₁, e, s₂, he, rfl, hs₁, hq⟩ := ih (p := []) hq.symm
        refine ⟨x :: s₁, e, s₂, he, rfl, ?_, hq⟩
        rw [escape_cons, ← hs₁, hx, List.append_nil, List.append_nil]
      | cons y q' =>
        rw [List.cons_append, List.cons.injEq] at hq
        obtain ⟨rfl, hq⟩ := hq
        rcases entity_cases (t := t) x with ⟨e, he, rfl⟩ | ⟨hne, hself⟩
        · rw [entity_of_mem he] at hx
          cases p with
          | nil =>
            rw [List.nil_append, List.cons.injEq] at hx
            refine ⟨[], e, s, he, rfl, ?_, ?_⟩
            · rw [escape_eq_flatMap, List.flatMap_nil]
            · rw [hx.2, hq, List.cons_append]
          | cons z p =>
            -- the lead is in front of an entity only
            rw [List.cons_append, List.cons.injEq] at hx
            apply absurd _ (t.lead_front e he)
            rw [hx.2]
            exact List.mem_append_right p List.mem_cons_self
        · rw [hself] at hx
          apply absurd _ hne
          have hmem : t.lead ∈ [x] := by
            rw [hx]
            exact List.mem_append_right p List.mem_cons_self
          exact (List.mem_singleton.mp hmem).symm

end EntityTable

end Entities

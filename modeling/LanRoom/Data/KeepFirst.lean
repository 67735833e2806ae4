import Mathlib

/-! # Keeping the first of equal keys

A loop goes through a list and keeps an element when it has not kept one with the same key. Whatever
the order of the list, it keeps every key once (`nodup_keys`, `mem_keys`). Which elements it keeps
depends on the order, unless elements with equal keys are equal (`keepFirst_perm`). -/

namespace KeepFirst

variable {α κ : Type*} [DecidableEq κ] {key : α → κ} {l l' : List α} {x y : α}

/-- One round of the loop. -/
def keep (key : α → κ) (kept : List α) (x : α) : List α :=
  if kept.any fun y => decide (key y = key x) then kept else kept ++ [x]

/-- What the loop keeps. -/
def keepFirst (key : α → κ) (l : List α) : List α := l.foldl (keep key) []

/-- The test that the loop makes, as a statement about keys. The program looks the key up, and the
proofs speak of membership. -/
theorem any_key_iff {kept : List α} :
    (kept.any fun y => decide (key y = key x)) = true ↔ key x ∈ kept.map key := by
  rw [List.any_eq_true, List.mem_map]
  constructor
  · rintro ⟨y, hy, heq⟩
    exact ⟨y, hy, of_decide_eq_true heq⟩
  · rintro ⟨y, hy, heq⟩
    exact ⟨y, hy, decide_eq_true heq⟩

/-- An element whose key has come before is left out. The list that has been kept is not changed by
it. -/
theorem keepFirst_concat_of_mem (h : key x ∈ (keepFirst key l).map key) :
    keepFirst key (l ++ [x]) = keepFirst key l := by
  rw [keepFirst, List.foldl_append, List.foldl_cons, List.foldl_nil]
  exact if_pos (any_key_iff.mpr h)

/-- An element with a new key is kept. It stands behind all that have been kept before. -/
theorem keepFirst_concat_of_not_mem (h : key x ∉ (keepFirst key l).map key) :
    keepFirst key (l ++ [x]) = keepFirst key l ++ [x] := by
  rw [keepFirst, List.foldl_append, List.foldl_cons, List.foldl_nil]
  exact if_neg fun hany => h (any_key_iff.mp hany)

/-- What is kept stays. Later elements are put behind it or left out. -/
theorem isPrefix_keepFirst (l l' : List α) : keepFirst key l <+: keepFirst key (l ++ l') := by
  induction l' using List.reverseRecOn with
  | nil => rw [List.append_nil]
  | append_singleton l' x ih =>
    rw [← List.append_assoc]
    by_cases h : key x ∈ (keepFirst key (l ++ l')).map key
    · rw [keepFirst_concat_of_mem h]
      exact ih
    · rw [keepFirst_concat_of_not_mem h]
      exact ih.trans (List.prefix_append _ [x])

/-- The first element is kept. There is no key before its own. -/
theorem mem_keepFirst_cons (x : α) (l : List α) : x ∈ keepFirst key (x :: l) :=
  List.IsPrefix.mem List.mem_cons_self (isPrefix_keepFirst [x] l)

/-- Nothing is made up. What is kept are elements of the list, unchanged. -/
theorem mem_of_mem_keepFirst (h : x ∈ keepFirst key l) : x ∈ l := by
  induction l using List.reverseRecOn with
  | nil => exact h
  | append_singleton l y ih =>
    by_cases hy : key y ∈ (keepFirst key l).map key
    · rw [keepFirst_concat_of_mem hy] at h
      exact List.mem_append_left [y] (ih h)
    · rw [keepFirst_concat_of_not_mem hy, List.mem_append] at h
      rcases h with h | h
      · exact List.mem_append_left [y] (ih h)
      · exact List.mem_append_right l h

/-- Every key is kept. It is kept with the first element that has it. -/
theorem mem_keys {k : κ} : k ∈ (keepFirst key l).map key ↔ k ∈ l.map key := by
  induction l using List.reverseRecOn with
  | nil => exact Iff.rfl
  | append_singleton l y ih =>
    rw [List.map_append, List.mem_append, ← ih]
    by_cases hy : key y ∈ (keepFirst key l).map key
    · rw [keepFirst_concat_of_mem hy]
      constructor
      · exact Or.inl
      · rintro (h | h)
        · exact h
        · rw [List.map_singleton, List.mem_singleton] at h
          exact h ▸ hy
    · rw [keepFirst_concat_of_not_mem hy, List.map_append, List.mem_append]

/-- No key is kept twice. The induction is on the list from its end. -/
theorem nodup_keys (l : List α) : ((keepFirst key l).map key).Nodup := by
  induction l using List.reverseRecOn with
  | nil => exact List.nodup_nil
  | append_singleton l y ih =>
    by_cases hy : key y ∈ (keepFirst key l).map key
    · rw [keepFirst_concat_of_mem hy]
      exact ih
    · rw [keepFirst_concat_of_not_mem hy, List.map_append, List.map_singleton,
        List.nodup_append_comm, List.singleton_append, List.nodup_cons]
      exact ⟨hy, ih⟩

/-- Different keys are all kept, in their order. A list that has no repetition is its own result. -/
theorem keepFirst_of_nodup (h : (l.map key).Nodup) : keepFirst key l = l := by
  induction l using List.reverseRecOn with
  | nil => rfl
  | append_singleton l y ih =>
    rw [List.map_append, List.map_singleton, List.nodup_append_comm, List.singleton_append,
      List.nodup_cons] at h
    rw [keepFirst_concat_of_not_mem]
    · rw [ih h.2]
    · rw [mem_keys]
      exact h.1

/-- Of kept elements the key tells which. It follows from the keys being different. -/
theorem eq_of_key_eq (hx : x ∈ keepFirst key l) (hy : y ∈ keepFirst key l) (h : key x = key y) :
    x = y :=
  List.inj_on_of_nodup_map (nodup_keys l) hx hy h

/-- The order does not change which keys are kept. Which element is kept for a key does depend on
it. -/
theorem keys_perm (h : l.Perm l') :
    ((keepFirst key l).map key).Perm ((keepFirst key l').map key) := by
  rw [List.perm_ext_iff_of_nodup (nodup_keys l) (nodup_keys l')]
  intro k
  rw [mem_keys, mem_keys]
  exact (h.map key).mem_iff

/-- The order does not change what is kept when elements with equal keys are equal. -/
theorem keepFirst_perm (hinj : ∀ x ∈ l, ∀ y ∈ l, key x = key y → x = y) (h : l.Perm l') :
    (keepFirst key l).Perm (keepFirst key l') := by
  have hsub : ∀ {a b : List α}, a.Perm b → (∀ x ∈ a, ∀ y ∈ a, key x = key y → x = y) →
      ∀ x ∈ keepFirst key a, x ∈ keepFirst key b := by
    intro a b hab hinj x hx
    have hxa := mem_of_mem_keepFirst hx
    -- the key of `x` is kept in the other order too
    have hkey : key x ∈ (keepFirst key b).map key :=
      mem_keys.mpr (List.mem_map_of_mem (hab.mem_iff.mp hxa))
    obtain ⟨y, hy, heq⟩ := List.mem_map.mp hkey
    have hya := hab.mem_iff.mpr (mem_of_mem_keepFirst hy)
    exact hinj y hya x hxa heq ▸ hy
  rw [List.perm_ext_iff_of_nodup (nodup_keys l).of_map (nodup_keys l').of_map]
  intro x
  constructor
  · exact hsub h hinj x
  · apply hsub h.symm
    intro a ha b hb
    exact hinj a (h.mem_iff.mpr ha) b (h.mem_iff.mpr hb)

end KeepFirst

import Mathlib

/-! # Self-delimiting codes

A code is self-delimiting when the start of a text tells which value it stands for, whatever follows.
Values one after the other are then read apart, so that such codes compose: a text in front
(`Delimited.append_left`), sequences up to a character that starts no value (`Delimited.sequence`),
and sequences between brackets with commas between their elements (`Delimited.brackets`). -/

namespace SelfDelimiting

variable {α α' β : Type*} {code : α → List β}

/-- Texts that start with a value are equal only if the values and the rests are. -/
def Delimited (code : α → List β) : Prop :=
  ∀ x y s t, code x ++ s = code y ++ t → x = y ∧ s = t

/-- A code that shows where it ends is injective. It is the case in which nothing follows. -/
theorem Delimited.injective (h : Delimited code) : Function.Injective code := by
  intro x y heq
  exact (h x y [] [] (by rw [heq])).1

/-- A text in front. It does not change where the code ends. -/
theorem Delimited.append_left (h : Delimited code) (r : List β) :
    Delimited fun x => r ++ code x := by
  intro x y s t heq
  rw [List.append_assoc, List.append_assoc, List.append_cancel_left_eq] at heq
  exact h x y s t heq

/-- Values that an injective function turns into coded ones. A record is coded through the list of
its fields in this way. -/
theorem Delimited.comp (h : Delimited code) {f : α' → α} (hf : Function.Injective f) :
    Delimited fun x => code (f x) := by
  intro x y s t heq
  obtain ⟨hxy, hrest⟩ := h (f x) (f y) s t heq
  exact ⟨hf hxy, hrest⟩

/-- No value is coded by a text that starts with `c`, or by the empty one. -/
def Avoids (code : α → List β) (c : β) : Prop := ∀ x, ∃ b r, code x = b :: r ∧ b ≠ c

/-- A value is no end. A list of coded values can therefore be told apart from its end. -/
theorem Avoids.ne {c : β} (h : Avoids code c) {x : α} {s t : List β} : code x ++ s ≠ c :: t := by
  obtain ⟨b, r, hcode, hb⟩ := h x
  rw [hcode, List.cons_append]
  intro heq
  exact hb (List.cons.inj heq).1

/-- Values one after the other, and the end. No value starts with the stop sign, so the end of the
sequence is seen. -/
theorem Delimited.sequence {stop : β} (h : Delimited code) (hstop : Avoids code stop) :
    Delimited fun xs : List α => xs.flatMap code ++ [stop] := by
  intro xs
  induction xs with
  | nil =>
    intro ys s t heq
    cases ys with
    | nil => exact ⟨rfl, (List.cons.inj heq).2⟩
    | cons y ys =>
      dsimp only at heq
      rw [List.flatMap_nil, List.nil_append, List.singleton_append, List.flatMap_cons,
        List.append_assoc, List.append_assoc] at heq
      exact absurd heq.symm hstop.ne
  | cons x xs ih =>
    intro ys s t heq
    dsimp only at heq
    rw [List.flatMap_cons, List.append_assoc, List.append_assoc] at heq
    cases ys with
    | nil => exact absurd heq hstop.ne
    | cons y ys =>
      rw [List.flatMap_cons, List.append_assoc, List.append_assoc] at heq
      obtain ⟨rfl, hrest⟩ := h x y _ _ heq
      rw [← List.append_assoc, ← List.append_assoc] at hrest
      obtain ⟨rfl, hend⟩ := ih ys s t hrest
      exact ⟨rfl, hend⟩

/-- Texts with a separator between them. -/
def joinWith (sep : β) : List (List β) → List β
  | [] => []
  | x :: xs => x ++ xs.flatMap fun y => sep :: y

/-- A sequence between brackets. -/
def bracket (left sep right : β) (xs : List (List β)) : List β :=
  left :: joinWith sep xs ++ [right]

/-- Values between brackets, separated by commas. After each value stands a separator or the closing
bracket, which are told apart. -/
theorem Delimited.brackets {left sep right : β} (h : Delimited code) (hright : Avoids code right)
    (hsep : sep ≠ right) : Delimited fun xs : List α => bracket left sep right (xs.map code) := by
  have hmore : Delimited fun xs : List α => xs.flatMap (fun x => sep :: code x) ++ [right] :=
    (h.append_left [sep]).sequence fun x => ⟨sep, code x, rfl, hsep⟩
  intro xs ys s t heq
  simp only [bracket, List.cons_append, List.cons.injEq, true_and] at heq
  cases xs with
  | nil =>
    cases ys with
    | nil => exact ⟨rfl, (List.cons.inj heq).2⟩
    | cons y ys =>
      rw [List.map_cons, List.map_nil, joinWith, joinWith, List.append_assoc, List.append_assoc,
        List.append_assoc] at heq
      exact absurd heq.symm hright.ne
  | cons x xs =>
    rw [List.map_cons, joinWith, List.append_assoc, List.append_assoc] at heq
    cases ys with
    | nil => exact absurd heq hright.ne
    | cons y ys =>
      rw [List.map_cons, joinWith, List.append_assoc, List.append_assoc] at heq
      obtain ⟨rfl, hrest⟩ := h x y _ _ heq
      rw [List.flatMap_map, List.flatMap_map, ← List.append_assoc, ← List.append_assoc] at hrest
      obtain ⟨rfl, hend⟩ := hmore xs ys s t hrest
      exact ⟨rfl, hend⟩

end SelfDelimiting

import LanRoom.Web.Devices

/-! # Can two devices have one label?

`renderDevices` counts how many devices show a name and numbers those of a name that is shown more
than once. Numbers keep these apart from each other. A number is put behind a name as text, and this
text can be another name that is shown once; and a name that every object inherits is never counted.
There are no other clashes (`labels_nodup_iff`). -/

namespace LanRoom.Web

variable {names seen rest : List Text} {name x : Text} {k : ℕ}

/-! ## Counting -/

/-- Counting a name that comes once more. It is the step of both passes at the name they look at. -/
theorem count_concat_self (names : List Text) (name : Text) :
    (names ++ [name]).count name = names.count name + 1 := by
  rw [List.count_append, List.count_singleton_self]

/-- Counting a name when another one comes. The other entries of the object stay as they are. -/
theorem count_concat_of_ne (names : List Text) (h : x ≠ name) :
    (names ++ [name]).count x = names.count x := by
  rw [List.count_append, List.count_singleton, beq_false_of_ne (Ne.symm h),
    if_neg Bool.false_ne_true, Nat.add_zero]

/-- The names that are shown. -/
def shownNames (users : List User) : List Text := users.map User.shownName

/-- The property of a name that came `k` times. -/
def slotOf (k : ℕ) : Slot := if k = 0 then .undefined else .number k

/-- Counting in a property of an object, where a missing one counts as zero. -/
theorem incr_slotOf (k : ℕ) : (slotOf k).incr = slotOf (k + 1) := by
  unfold slotOf
  by_cases h : k = 0
  · rw [if_pos h, if_neg (Nat.succ_ne_zero k), h]
    rfl
  · rw [if_neg h, if_neg (Nat.succ_ne_zero k)]
    rfl

/-- The count exceeds one when the name has come twice. The comparison of the second pass is thus
one of numbers. -/
theorem exceedsOne_slotOf (k : ℕ) : (slotOf k).exceedsOne = decide (2 ≤ k) := by
  unfold slotOf
  by_cases h : k = 0
  · rw [if_pos h, h]
    rfl
  · rw [if_neg h]
    rfl

/-- What the object holds after it has counted the names. -/
def tally (names : List Text) (name : Text) : Slot :=
  if name ∈ inherited then .other else slotOf (names.count name)

/-- One more name. This is the body of the loop of the first pass. -/
theorem increment_tally (names : List Text) (name : Text) :
    increment (tally names) name = tally (names ++ [name]) := by
  funext key
  unfold increment tally
  by_cases hkey : key = name
  · subst hkey
    rw [Function.update_self]
    by_cases hin : key ∈ inherited
    · rw [if_pos hin, if_pos hin]
      rfl
    · rw [if_neg hin, if_neg hin, incr_slotOf, count_concat_self]
  · rw [Function.update_of_ne hkey, count_concat_of_ne names hkey]

/-- The first pass counts the names. The induction is on the list, with what has been counted so far
in front. -/
theorem nameCount_eq (users : List User) : nameCount users = tally (shownNames users) := by
  have hstart : emptyObject = tally [] := rfl
  rw [nameCount, hstart]
  induction users using List.reverseRecOn with
  | nil => rfl
  | append_singleton users u ih =>
    rw [List.foldl_append, ih, List.foldl_cons, List.foldl_nil, increment_tally, shownNames,
      shownNames, List.map_append, List.map_singleton]

/-! ## Numbering -/

/-- The name is shown more than once, and the counter counts it. -/
def Repeated (names : List Text) (name : Text) : Prop := name ∉ inherited ∧ 2 ≤ names.count name

instance decidableRepeated (names : List Text) (name : Text) : Decidable (Repeated names name) :=
  inferInstanceAs (Decidable (_ ∧ _))

/-- A name is numbered when it comes more than once. A name that every object has as a property is
never numbered, since what stands there is no number. -/
theorem exceedsOne_tally : (tally names name).exceedsOne = true ↔ Repeated names name := by
  unfold tally Repeated
  by_cases hin : name ∈ inherited
  · rw [if_pos hin]
    simp [hin, Slot.exceedsOne]
  · rw [if_neg hin, exceedsOne_slotOf, decide_eq_true_iff]
    simp [hin]

/-- A name with its number. -/
def withNumber (name : Text) (k : ℕ) : Text := numbered name (.number k)

/-- The label of a device, when these names have been seen before it. -/
def labelAfter (names seen : List Text) (name : Text) : Text :=
  if Repeated names name then withNumber name (seen.count name + 1) else name

/-- The labels of the devices that show the rest of the names. -/
def labelsAfter (names : List Text) : List Text → List Text → List Text
  | _, [] => []
  | seen, name :: rest => labelAfter names seen name :: labelsAfter names (seen ++ [name]) rest

/-- The second pass, when the index has counted the repeated names seen so far. -/
theorem displayNames_eq {index : Text → Slot} (users : List User)
    (hindex : ∀ name, Repeated names name → index name = slotOf (seen.count name)) :
    displayNames (tally names) index users = labelsAfter names seen (shownNames users) := by
  induction users generalizing seen index with
  | nil => rfl
  | cons u users ih =>
    rw [displayNames, shownNames, List.map_cons, labelsAfter, labelAfter]
    by_cases h : Repeated names u.shownName
    · rw [if_pos (exceedsOne_tally.mpr h), if_pos h]
      have hself : increment index u.shownName u.shownName =
          slotOf (seen.count u.shownName + 1) := by
        rw [increment, Function.update_self, hindex _ h, incr_slotOf]
      simp only [hself]
      congr 1
      apply ih
      intro name hname
      by_cases hsame : name = u.shownName
      · rw [hsame, hself, count_concat_self]
      · rw [increment, Function.update_of_ne hsame, hindex _ hname, count_concat_of_ne seen hsame]
    · rw [if_neg (fun hcount => h (exceedsOne_tally.mp hcount)), if_neg h]
      congr 1
      apply ih
      intro name hname
      have hsame : name ≠ u.shownName := by
        rintro rfl
        exact h hname
      rw [hindex _ hname, count_concat_of_ne seen hsame]

/-- Both passes. What the code computes with two objects is a function of the list of names. -/
theorem labels_eq (users : List User) :
    labels users = labelsAfter (shownNames users) [] (shownNames users) := by
  rw [labels, nameCount_eq]
  apply displayNames_eq
  intro name hname
  rw [emptyObject, if_neg hname.1]
  rfl

/-! ## Numbers keep names apart -/

/-- Of two texts the parts before the first `c` are equal, and the parts after it. -/
theorem append_cons_inj {c : Char} {s s' t t' : Text} (hs : c ∉ s) (hs' : c ∉ s')
    (h : s ++ c :: t = s' ++ c :: t') : s = s' ∧ t = t' := by
  induction s generalizing s' with
  | nil =>
    cases s' with
    | nil => exact ⟨rfl, (List.cons.inj h).2⟩
    | cons y s' =>
      rw [List.nil_append, List.cons_append, List.cons.injEq] at h
      exact absurd (h.1 ▸ List.mem_cons_self) hs'
  | cons x s ih =>
    cases s' with
    | nil =>
      rw [List.nil_append, List.cons_append, List.cons.injEq] at h
      exact absurd (h.1 ▸ List.mem_cons_self) hs
    | cons y s' =>
      rw [List.cons_append, List.cons_append, List.cons.injEq] at h
      rw [List.mem_cons, not_or] at hs hs'
      obtain ⟨hsame, hrest⟩ := ih hs.2 hs'.2 h.2
      exact ⟨by rw [h.1, hsame], hrest⟩

/-- A numbered name tells the name and the number: there is no `#` behind the last one. -/
theorem withNumber_injective {name name' : Text} {k k' : ℕ}
    (h : withNumber name k = withNumber name' k') : name = name' ∧ k = k' := by
  have hdigits : ∀ n, '#' ∉ (Nat.toDigits 10 n).reverse := by
    intro n hmem
    have hdigit := Nat.isDigit_of_mem_toDigits (by decide) (by decide) (List.mem_reverse.mp hmem)
    exact absurd hdigit (by decide)
  have hreverse : ∀ name k, (withNumber name k).reverse =
      (Nat.toDigits 10 k).reverse ++ '#' :: ' ' :: name.reverse := by
    intro name k
    have hmark : " #".toList = [' ', '#'] := by
      decide
    rw [withNumber, numbered, hmark, Slot.text, List.reverse_append, List.reverse_append]
    rfl
  have hboth := congrArg List.reverse h
  rw [hreverse, hreverse] at hboth
  obtain ⟨hk, hname⟩ := append_cons_inj (hdigits k) (hdigits k') hboth
  constructor
  · exact List.reverse_injective (List.cons.inj hname).2
  · have hvalue := congrArg (Nat.ofDigitChars 10 · 0) (List.reverse_injective hk)
    simpa only [Nat.ofDigitChars_ten_toDigits] using hvalue

/-! ## How often a label is given -/

/-- The text is a repeated name with a number that one of the rest gets. -/
def Given (names seen rest : List Text) (x : Text) : Prop :=
  ∃ name k, Repeated names name ∧ seen.count name < k ∧ k ≤ seen.count name + rest.count name ∧
    x = withNumber name k

/-- The number of a device, or the numbers of the devices after it. -/
theorem given_cons_of_repeated (hname : Repeated names name) :
    Given names seen (name :: rest) x ↔
      x = withNumber name (seen.count name + 1) ∨ Given names (seen ++ [name]) rest x := by
  constructor
  · rintro ⟨other, k, hother, hlt, hle, rfl⟩
    by_cases hsame : other = name
    · subst hsame
      rw [List.count_cons_self] at hle
      by_cases hfirst : k = seen.count other + 1
      · exact Or.inl (by rw [hfirst])
      · right
        refine ⟨other, k, hother, ?_, ?_, rfl⟩
        · rw [count_concat_self]
          omega
        · rw [count_concat_self]
          omega
    · right
      rw [List.count_cons_of_ne (Ne.symm hsame)] at hle
      rw [← count_concat_of_ne seen hsame] at hlt hle
      exact ⟨other, k, hother, hlt, hle, rfl⟩
  · rintro (rfl | ⟨other, k, hother, hlt, hle, rfl⟩)
    · refine ⟨name, _, hname, Nat.lt_succ_self _, ?_, rfl⟩
      rw [List.count_cons_self]
      omega
    · by_cases hsame : other = name
      · subst hsame
        rw [count_concat_self] at hlt hle
        refine ⟨other, k, hother, Nat.lt_of_succ_lt hlt, ?_, rfl⟩
        rw [List.count_cons_self]
        omega
      · rw [count_concat_of_ne seen hsame] at hlt hle
        refine ⟨other, k, hother, hlt, ?_, rfl⟩
        rw [List.count_cons_of_ne (Ne.symm hsame)]
        exact hle

/-- The number of a device is not given again. The numbers grow from left to right. -/
theorem not_given_concat : ¬Given names (seen ++ [name]) rest
    (withNumber name (seen.count name + 1)) := by
  rintro ⟨other, k, -, hlt, -, heq⟩
  obtain ⟨rfl, rfl⟩ := withNumber_injective heq
  rw [count_concat_self] at hlt
  exact absurd hlt (Nat.lt_irrefl _)

/-- A device without a number. Its label is its name, which is not among the numbered ones. -/
theorem given_cons_of_not (hname : ¬Repeated names name) :
    Given names seen (name :: rest) x ↔ Given names (seen ++ [name]) rest x := by
  have hne : ∀ other, Repeated names other → other ≠ name := by
    rintro other hother rfl
    exact hname hother
  constructor
  · rintro ⟨other, k, hother, hlt, hle, rfl⟩
    rw [List.count_cons_of_ne (Ne.symm (hne other hother))] at hle
    rw [← count_concat_of_ne seen (hne other hother)] at hlt hle
    exact ⟨other, k, hother, hlt, hle, rfl⟩
  · rintro ⟨other, k, hother, hlt, hle, rfl⟩
    rw [count_concat_of_ne seen (hne other hother)] at hlt hle
    refine ⟨other, k, hother, hlt, ?_, rfl⟩
    rw [List.count_cons_of_ne (Ne.symm (hne other hother))]
    exact hle

open Classical in
/-- **How often a text is a label**: as often as it is shown as a name, unless it is repeated, and
once more if it is a repeated name with a number. -/
theorem count_labelsAfter (names seen rest : List Text) (x : Text) :
    (labelsAfter names seen rest).count x =
      (if Repeated names x then 0 else rest.count x) + if Given names seen rest x then 1 else 0 := by
  induction rest generalizing seen with
  | nil =>
    have hnone : ¬Given names seen [] x := by
      rintro ⟨name, k, -, hlt, hle, -⟩
      rw [List.count_nil] at hle
      omega
    rw [if_neg hnone, labelsAfter, List.count_nil, ite_self]
  | cons name rest ih =>
    rw [labelsAfter, labelAfter]
    by_cases hname : Repeated names name
    · rw [if_pos hname]
      -- a repeated name is not a label itself
      have hcount : (if Repeated names x then 0 else (name :: rest).count x) =
          if Repeated names x then 0 else rest.count x := by
        by_cases hx : Repeated names x
        · rw [if_pos hx, if_pos hx]
        · have hne : name ≠ x := by
            rintro rfl
            exact hx hname
          rw [if_neg hx, if_neg hx, List.count_cons_of_ne hne]
      rw [hcount]
      by_cases hx : x = withNumber name (seen.count name + 1)
      · subst hx
        rw [List.count_cons_self, ih, if_neg not_given_concat,
          if_pos ((given_cons_of_repeated hname).mpr (Or.inl rfl))]
      · have hiff : Given names seen (name :: rest) x ↔ Given names (seen ++ [name]) rest x :=
          (given_cons_of_repeated hname).trans (or_iff_right hx)
        rw [List.count_cons_of_ne (Ne.symm hx), ih, if_congr hiff rfl rfl]
    · rw [if_neg hname, if_congr (given_cons_of_not hname) rfl rfl]
      by_cases hx : name = x
      · subst hx
        rw [List.count_cons_self, ih, if_neg hname, if_neg hname, List.count_cons_self]
        omega
      · rw [List.count_cons_of_ne hx, ih, List.count_cons_of_ne hx]

/-! ## Clashes -/

/-- No inherited name is shown twice, and no repeated name with one of its numbers is a name that is
shown once. -/
structure Unambiguous (names : List Text) : Prop where
  inheritedOnce : ∀ name ∈ inherited, names.count name ≤ 1
  suffixFree : ∀ name k, Repeated names name → 1 ≤ k → k ≤ names.count name →
    names.count (withNumber name k) ≠ 1

/-- At the start every number of a repeated name is to come. -/
theorem given_nil : Given names [] names x ↔ ∃ name k, Repeated names name ∧ 1 ≤ k ∧
    k ≤ names.count name ∧ x = withNumber name k := by
  unfold Given
  simp only [List.count_nil, Nat.zero_add, Nat.lt_iff_add_one_le]

/-- **All labels differ** exactly when the names that are shown are unambiguous: no name that every
object inherits is shown twice, and no name that is shown once is a repeated name with one of its
numbers. -/
theorem labels_nodup_iff (users : List User) :
    (labels users).Nodup ↔ Unambiguous (shownNames users) := by
  classical
  rw [labels_eq, List.nodup_iff_count_le_one]
  generalize shownNames users = names
  constructor
  · intro h
    constructor
    · intro name hin
      have hname : ¬Repeated names name := fun hrep => hrep.1 hin
      have hle := h name
      rw [count_labelsAfter, if_neg hname] at hle
      omega
    · intro name k hrep hpos hle hone
      -- the name that is shown once, and the repeated one with its number
      have hgiven : Given names [] names (withNumber name k) :=
        given_nil.mpr ⟨name, k, hrep, hpos, hle, rfl⟩
      have honce : ¬Repeated names (withNumber name k) := by
        intro hrep'
        have htwo := hrep'.2
        omega
      have htwice := h (withNumber name k)
      rw [count_labelsAfter, if_neg honce, if_pos hgiven, hone] at htwice
      omega
  · intro h x
    rw [count_labelsAfter]
    by_cases hx : Repeated names x
    · rw [if_pos hx]
      split
      · exact le_refl 1
      · exact Nat.zero_le 1
    · rw [if_neg hx]
      have hle : names.count x ≤ 1 := by
        by_contra hmore
        apply hmore
        apply h.inheritedOnce
        by_contra hin
        exact hx ⟨hin, by omega⟩
      by_cases hgiven : Given names [] names x
      · obtain ⟨name, k, hrep, hpos, hk, rfl⟩ := given_nil.mp hgiven
        have hne := h.suffixFree name k hrep hpos hk
        rw [if_pos hgiven]
        omega
      · rw [if_neg hgiven]
        omega

/-- **Three devices, two labels**: two devices show the name `A`, and the third one shows the first
label that they get. The list is one the hub can send, since the three have different IDs. -/
theorem labels_clash : ¬∀ users : List User, (users.map User.id).Nodup → (labels users).Nodup := by
  intro h
  have hlabels := h [⟨['1'], ['A'], [], []⟩, ⟨['2'], ['A'], [], []⟩,
    ⟨['3'], "A #1".toList, [], []⟩] (by decide)
  exact absurd hlabels (by decide +kernel)

end LanRoom.Web

import Mathlib

/-! # Double precision

The numbers of JavaScript and the type `float64` of Go have 53 significant binary digits. Here are
those that are not negative: whole numbers (`roundNumber`), and quotients and sums with a fraction,
which are counted in units of `2 ^ -201`. Nothing here comes near the largest or the smallest
exponent.

Whole numbers below `2 ^ 53` are exact (`roundNumber_of_lt`), and nothing else is rounded to them
(`eq_of_roundNumber`). -/

namespace Double

/-- The closest number: 53 binary digits, and an even last one when two are equally close. -/
def roundNumber (n : ℕ) : ℕ :=
  let e := n.log2 - 52
  let q := n / 2 ^ e
  let r := n % 2 ^ e
  (if 2 ^ e < 2 * r ∨ 2 ^ e = 2 * r ∧ q % 2 = 1 then q + 1 else q) * 2 ^ e

/-- A small number is written in full. It has at most 53 binary digits, so no bit is dropped. -/
theorem roundNumber_of_lt {n : ℕ} (h : n < 2 ^ 53) : roundNumber n = n := by
  have hlog : n.log2 - 52 = 0 := by
    by_cases hn : n = 0
    · subst hn
      rfl
    · have hlt := (Nat.log2_lt hn).mpr h
      omega
  unfold roundNumber
  simp only [hlog, pow_zero, Nat.div_one, Nat.mod_one, mul_one]
  exact if_neg (by omega)

/-- Beyond them nothing is rounded to a small number. So a bound below `2 ^ 53` may be tested after
the rounding as well as before it. -/
theorem le_roundNumber {n : ℕ} (h : 2 ^ 53 ≤ n) : 2 ^ 53 ≤ roundNumber n := by
  have hn : n ≠ 0 := by
    rintro rfl
    exact absurd h (by decide)
  have hlog : 53 ≤ n.log2 := (Nat.le_log2 hn).mpr h
  have hpow : 2 ^ n.log2 = 2 ^ 52 * 2 ^ (n.log2 - 52) := by
    rw [← pow_add]
    congr 1
    omega
  have hquot : 2 ^ 52 ≤ n / 2 ^ (n.log2 - 52) := by
    rw [Nat.le_div_iff_mul_le (by positivity), ← hpow]
    exact Nat.log2_self_le hn
  have hstep : 2 ≤ 2 ^ (n.log2 - 52) := by
    calc 2 = 2 ^ 1 := rfl
      _ ≤ 2 ^ (n.log2 - 52) := Nat.pow_le_pow_right (by decide) (by omega)
  unfold roundNumber
  dsimp only
  calc 2 ^ 53 = 2 ^ 52 * 2 := rfl
    _ ≤ n / 2 ^ (n.log2 - 52) * 2 ^ (n.log2 - 52) := Nat.mul_le_mul hquot hstep
    _ ≤ _ := by
      apply Nat.mul_le_mul_right
      split
      · exact Nat.le_succ _
      · exact le_refl _

/-- Only a small number itself stands for it. -/
theorem eq_of_roundNumber {n d : ℕ} (hd : d < 2 ^ 53) (h : roundNumber n = d) : n = d := by
  by_cases hn : n < 2 ^ 53
  · rw [roundNumber_of_lt hn] at h
    exact h
  · have hle := le_roundNumber (Nat.not_lt.mp hn)
    omega

/-! ## Fractions -/

/-- How many units one has. -/
def one : ℕ := 2 ^ 201

/-- The quotient of two whole numbers that are not too far apart, in units. The unit place of what
is rounded says whether the division goes on behind it, so that two numbers are equally close only
when it does not. -/
def quotient (n d : ℕ) : ℕ :=
  roundNumber (2 * (n * 2 ^ 200 / d) + if n * 2 ^ 200 % d = 0 then 0 else 1)

/-- The sum of two numbers of units. -/
def sum (x y : ℕ) : ℕ := roundNumber (x + y)

end Double

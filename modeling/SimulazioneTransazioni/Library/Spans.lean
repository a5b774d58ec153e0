import Mathlib.Algebra.BigOperators.Group.Finset.Basic

/-!
A quantity measured in spans of different lengths, the way that a calendar counts
days in years or in months: how many whole spans it fills, and what is left over.
-/
namespace SimulazioneTransazioni.Spans

open Finset

/-- The span that n falls into, counted from the span i on, and the place in it. -/
def peel (span : ℕ → ℕ) : ℕ → ℕ → ℕ → ℕ × ℕ
  | 0, i, n => (i, n)
  | fuel + 1, i, n => if n < span i then (i, n) else peel span fuel (i + 1) (n - span i)

variable (span : ℕ → ℕ)

/-- The spans before the one found and the place in it make up the whole quantity. -/
theorem peel_sum (fuel i n : ℕ) :
    ∑ j ∈ range (peel span fuel i n).1, span j + (peel span fuel i n).2 =
      ∑ j ∈ range i, span j + n := by
  induction fuel generalizing i n with
  | zero => rfl
  | succ fuel ih =>
    rw [peel]
    split
    · rfl
    · rename_i hge
      rw [ih, sum_range_succ]
      omega

/-- A quantity that the spans can hold is placed within one of them. -/
theorem peel_lt (fuel : ℕ) {i n : ℕ}
    (hn : ∑ j ∈ range i, span j + n < ∑ j ∈ range (i + fuel), span j) :
    (peel span fuel i n).1 < i + fuel ∧
      (peel span fuel i n).2 < span (peel span fuel i n).1 := by
  induction fuel generalizing i n with
  | zero =>
    rw [Nat.add_zero] at hn
    omega
  | succ fuel ih =>
    rw [peel]
    split
    · rename_i hlt
      exact ⟨by omega, hlt⟩
    · rename_i hge
      have hrest : ∑ j ∈ range (i + 1), span j + (n - span i) <
          ∑ j ∈ range (i + 1 + fuel), span j := by
        rw [sum_range_succ, show i + 1 + fuel = i + (fuel + 1) by omega]
        omega
      obtain ⟨hspan, hplace⟩ := ih hrest
      exact ⟨by omega, hplace⟩

end SimulazioneTransazioni.Spans

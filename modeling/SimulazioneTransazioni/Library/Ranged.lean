import Mathlib.Data.BitVec

/-!
A value between two bounds out of an arbitrary word, by the remainder of the number
of values in the range. That number is computed in the width of the word, where it
is zero when the range is the whole type, and also when max is one below min.
-/
namespace SimulazioneTransazioni.Ranged

variable {w : ℕ} {r min max d : BitVec w}

/-- None where the division would be by zero. -/
def draw (r min max : BitVec w) : Option (BitVec w) :=
  if max - min + 1 = 0 then none else some (r % (max - min + 1) + min)

/-- The divisor, read in the naturals. -/
theorem toNat_span (hle : min ≤ max) (hspan : max - min + 1 ≠ 0) :
    (max - min + 1).toNat = max.toNat - min.toNat + 1 := by
  have hmax := max.isLt
  have hsub : (max - min).toNat = max.toNat - min.toNat := BitVec.toNat_sub_of_le hle
  have hpos : 0 < w := by
    apply Nat.pos_of_ne_zero
    rintro rfl
    exact hspan (Subsingleton.elim _ _)
  have hone : (1 : BitVec w).toNat = 1 := BitVec.toNat_one hpos
  have hne : (max - min + 1).toNat ≠ 0 := fun h => hspan (BitVec.eq_of_toNat_eq h)
  rw [BitVec.toNat_add, hsub, hone] at hne ⊢
  by_cases hfull : max.toNat - min.toNat + 1 = 2 ^ w
  · rw [hfull, Nat.mod_self] at hne
    contradiction
  · exact Nat.mod_eq_of_lt (by omega)

theorem draw_eq_some (hle : min ≤ max) (hspan : max - min + 1 ≠ 0) (r : BitVec w) :
    ∃ d, draw r min max = some d ∧
      d.toNat = r.toNat % (max.toNat - min.toNat + 1) + min.toNat := by
  have hmax := max.isLt
  have hle' : min.toNat ≤ max.toNat := hle
  have hmod : r.toNat % (max.toNat - min.toNat + 1) < max.toNat - min.toNat + 1 :=
    Nat.mod_lt _ (by omega)
  refine ⟨_, if_neg hspan, ?_⟩
  rw [BitVec.toNat_add, BitVec.toNat_umod, toNat_span hle hspan]
  exact Nat.mod_eq_of_lt (by omega)

/-- The value is in the range unless the range is empty or its number of values
wraps, whatever the word is. -/
theorem draw_mem_iff (r min max : BitVec w) : (∃ d, draw r min max = some d ∧ min ≤ d ∧ d ≤ max) ↔
    min ≤ max ∧ max - min + 1 ≠ 0 := by
  constructor
  · rintro ⟨d, hd, hmin, hmax⟩
    refine ⟨BitVec.le_trans hmin hmax, ?_⟩
    intro hzero
    rw [draw, if_pos hzero] at hd
    contradiction
  · rintro ⟨hle, hspan⟩
    obtain ⟨d, hd, hval⟩ := draw_eq_some hle hspan r
    have hmod : r.toNat % (max.toNat - min.toNat + 1) < max.toNat - min.toNat + 1 :=
      Nat.mod_lt _ (by omega)
    have hle' : min.toNat ≤ max.toNat := hle
    refine ⟨d, hd, ?_, ?_⟩
    · rw [BitVec.le_def]
      omega
    · rw [BitVec.le_def]
      omega

end SimulazioneTransazioni.Ranged

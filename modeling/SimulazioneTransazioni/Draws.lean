import SimulazioneTransazioni.Common
import SimulazioneTransazioni.Library.Ranged

/-!
The macro RAND(min, max) on operands of type unsigned int and unsigned long. A
range that is not empty is hit, unless it is that of the whole type.
-/
namespace SimulazioneTransazioni.Draws

open Ranged

/-- The macro RAND(min, max) on operands of type unsigned long. -/
def randLong (r min max : UInt64) : Option UInt64 :=
  if max - min + 1 = 0 then none else some (r % (max - min + 1) + min)

section Unsigned

variable {r min max d : UInt32}

theorem rand_span_iff (min max : UInt32) :
    max.toBitVec - min.toBitVec + 1 = 0 ↔ max - min + 1 = 0 := by
  show (max - min + 1).toBitVec = (0 : UInt32).toBitVec ↔ _
  exact UInt32.toBitVec_inj

theorem rand_toBitVec (r min max : UInt32) :
    (rand r min max).map UInt32.toBitVec = draw r.toBitVec min.toBitVec max.toBitVec := by
  rw [rand, draw]
  by_cases h : max - min + 1 = 0
  · rw [if_pos h, if_pos ((rand_span_iff min max).mpr h)]
    rfl
  · rw [if_neg h, if_neg fun h' => h ((rand_span_iff min max).mp h')]
    rfl

theorem rand_eq_some (hle : min ≤ max) (hspan : max - min + 1 ≠ 0) (r : UInt32) :
    ∃ d, rand r min max = some d ∧
      d.toNat = r.toNat % (max.toNat - min.toNat + 1) + min.toNat := by
  obtain ⟨d, hd, hval⟩ := draw_eq_some hle
    (fun h => hspan ((rand_span_iff min max).mp h)) r.toBitVec
  rw [← rand_toBitVec] at hd
  obtain ⟨d', hd', rfl⟩ := Option.map_eq_some_iff.mp hd
  exact ⟨d', hd', hval⟩

theorem rand_mem_iff : (∃ d, rand r min max = some d ∧ min ≤ d ∧ d ≤ max) ↔
    min ≤ max ∧ max - min + 1 ≠ 0 := by
  have hdraw := draw_mem_iff r.toBitVec min.toBitVec max.toBitVec
  rw [← rand_toBitVec] at hdraw
  constructor
  · rintro ⟨d, hd, hmem⟩
    obtain ⟨hle, hspan⟩ := hdraw.mp ⟨d.toBitVec, by rw [hd]; rfl, hmem⟩
    exact ⟨hle, fun h => hspan ((rand_span_iff min max).mpr h)⟩
  · rintro ⟨hle, hspan⟩
    obtain ⟨d, hd, hmem⟩ := hdraw.mpr ⟨hle, fun h => hspan ((rand_span_iff min max).mp h)⟩
    obtain ⟨d', hd', rfl⟩ := Option.map_eq_some_iff.mp hd
    exact ⟨d', hd', hmem⟩

/-- The sums of a payment start at 2. -/
theorem rand_sum_iff : (∃ d, rand r 2 max = some d ∧ 2 ≤ d ∧ d ≤ max) ↔ 2 ≤ max := by
  rw [rand_mem_iff]
  constructor
  · exact fun h => h.1
  · intro hle
    refine ⟨hle, ?_⟩
    intro hzero
    have hval := congrArg UInt32.toNat hzero
    have hlt := max.toNat_lt
    have htwo : (2 : UInt32).toNat = 2 := rfl
    have hle' : 2 ≤ max.toNat := UInt32.le_iff_toNat_le.mp hle
    rw [UInt32.toNat_add, UInt32.toNat_sub_of_le _ _ hle, UInt32.toNat_one, UInt32.toNat_zero,
      htwo] at hval
    omega

end Unsigned

section Long

variable {r min max : UInt64}

theorem randLong_span_iff (min max : UInt64) :
    max.toBitVec - min.toBitVec + 1 = 0 ↔ max - min + 1 = 0 := by
  show (max - min + 1).toBitVec = (0 : UInt64).toBitVec ↔ _
  exact UInt64.toBitVec_inj

theorem randLong_toBitVec (r min max : UInt64) :
    (randLong r min max).map UInt64.toBitVec = draw r.toBitVec min.toBitVec max.toBitVec := by
  rw [randLong, draw]
  by_cases h : max - min + 1 = 0
  · rw [if_pos h, if_pos ((randLong_span_iff min max).mpr h)]
    rfl
  · rw [if_neg h, if_neg fun h' => h ((randLong_span_iff min max).mp h')]
    rfl

theorem randLong_mem_iff : (∃ d, randLong r min max = some d ∧ min ≤ d ∧ d ≤ max) ↔
    min ≤ max ∧ max - min + 1 ≠ 0 := by
  have hdraw := draw_mem_iff r.toBitVec min.toBitVec max.toBitVec
  rw [← randLong_toBitVec] at hdraw
  constructor
  · rintro ⟨d, hd, hmem⟩
    obtain ⟨hle, hspan⟩ := hdraw.mp ⟨d.toBitVec, by rw [hd]; rfl, hmem⟩
    exact ⟨hle, fun h => hspan ((randLong_span_iff min max).mpr h)⟩
  · rintro ⟨hle, hspan⟩
    obtain ⟨d, hd, hmem⟩ := hdraw.mpr ⟨hle, fun h => hspan ((randLong_span_iff min max).mp h)⟩
    obtain ⟨d', hd', rfl⟩ := Option.map_eq_some_iff.mp hd
    exact ⟨d', hd', hmem⟩

end Long

end SimulazioneTransazioni.Draws

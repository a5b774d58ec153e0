import Mathlib.Data.Int.ModEq
import Mathlib.Algebra.BigOperators.Group.List.Basic
import Mathlib.Tactic.Linarith

/-!
Fixed-width integer arithmetic read in the integers. The conversions between
widths keep the value modulo the size of the target type. Sums accumulated in
a loop agree with the sum in the integers modulo the width, and exactly as
soon as the latter is in range.
-/
namespace SimulazioneTransazioni.MachineInt

def longOfUnsigned (x : UInt32) : Int64 := Int64.ofInt x.toNat

def unsignedOfLong (x : Int64) : UInt32 := UInt32.ofInt x.toInt

def unsignedOfInt (x : Int32) : UInt32 := UInt32.ofInt x.toInt

def intOfUnsigned (x : UInt32) : Int32 := Int32.ofInt x.toNat

def unsignedLongOfInt (x : Int32) : UInt64 := UInt64.ofInt x.toInt

private theorem bmod_modEq (x : ℤ) (n : ℕ) : x.bmod n ≡ x [ZMOD n] := Int.bmod_emod

theorem add_modEq_long (a b : Int64) : (a + b).toInt ≡ a.toInt + b.toInt [ZMOD 2 ^ 64] := by
  rw [Int64.toInt_add]
  exact bmod_modEq _ (2 ^ 64)

theorem sub_modEq_long (a b : Int64) : (a - b).toInt ≡ a.toInt - b.toInt [ZMOD 2 ^ 64] := by
  rw [Int64.toInt_sub]
  exact bmod_modEq _ (2 ^ 64)

theorem add_modEq_int (a b : Int32) : (a + b).toInt ≡ a.toInt + b.toInt [ZMOD 2 ^ 32] := by
  rw [Int32.toInt_add]
  exact bmod_modEq _ (2 ^ 32)

theorem modEq_of_long {a b : ℤ} (h : a ≡ b [ZMOD 2 ^ 64]) : a ≡ b [ZMOD 2 ^ 32] :=
  h.of_dvd ⟨2 ^ 32, by norm_num⟩

theorem toInt_longOfUnsigned (x : UInt32) : (longOfUnsigned x).toInt = x.toNat := by
  have hx := x.toNat_lt
  exact Int64.toInt_ofInt_of_le (by omega) (by omega)

theorem toNat_ofInt_unsigned (x : ℤ) :
    ((UInt32.ofInt x).toNat : ℤ) = x % 2 ^ 32 := by
  have h : 0 ≤ x % 2 ^ 32 := Int.emod_nonneg _ (by norm_num)
  rw [UInt32.ofInt, UInt32.toNat_ofNat']
  omega

theorem toNat_unsignedOfLong (x : Int64) :
    ((unsignedOfLong x).toNat : ℤ) = x.toInt % 2 ^ 32 := toNat_ofInt_unsigned _

theorem toNat_unsignedOfInt (x : Int32) :
    ((unsignedOfInt x).toNat : ℤ) = x.toInt % 2 ^ 32 := toNat_ofInt_unsigned _

theorem toInt_intOfUnsigned (x : UInt32) (h : x.toNat < 2 ^ 31) :
    (intOfUnsigned x).toInt = x.toNat :=
  Int32.toInt_ofInt_of_le (by omega) (by omega)

/-- An int that is not negative shows that the unsigned value fits. -/
theorem toInt_intOfUnsigned_of_nonneg (x : UInt32) (h : 0 ≤ (intOfUnsigned x).toInt) :
    (intOfUnsigned x).toInt = x.toNat := by
  have hlt := x.toNat_lt
  apply toInt_intOfUnsigned
  by_contra hge
  have hbmod : (intOfUnsigned x).toInt = Int.bmod x.toNat (2 ^ 32) := Int32.toInt_ofInt
  rw [Int.bmod_def] at hbmod
  split at hbmod
  · omega
  · omega

theorem toNat_unsignedLongOfInt (x : Int32) (h : 0 ≤ x.toInt) :
    ((unsignedLongOfInt x).toNat : ℤ) = x.toInt := by
  have hx := x.toInt_lt
  rw [unsignedLongOfInt, UInt64.ofInt, UInt64.toNat_ofNat']
  omega

/-- Two congruent values of one range are equal. -/
theorem eq_of_modEq_of_range {a b lo : ℤ} {n : ℤ} (h : a ≡ b [ZMOD n])
    (ha : lo ≤ a) (ha' : a < lo + n) (hb : lo ≤ b) (hb' : b < lo + n) : a = b := by
  obtain ⟨c, hc⟩ := h.dvd
  have hn : 0 < n := by omega
  have hz : c = 0 := by
    by_contra hne
    rcases lt_or_gt_of_ne hne with hneg | hpos
    · nlinarith
    · nlinarith
  rw [hz, mul_zero] at hc
  omega

/-- An int is determined by its residue: the balanced one. -/
theorem toInt_eq_bmod {a : Int32} {x : ℤ} (h : a.toInt ≡ x [ZMOD 2 ^ 32]) :
    a.toInt = x.bmod (2 ^ 32) := by
  have hx : x.bmod (2 ^ 32) ≡ x [ZMOD 2 ^ 32] := Int.bmod_emod
  have hlo : -(2 ^ 31) ≤ x.bmod (2 ^ 32) := by
    have hle := Int.le_bmod (x := x) (m := 2 ^ 32) (by norm_num)
    omega
  have hhi : x.bmod (2 ^ 32) < 2 ^ 31 := by
    have hlt := Int.bmod_lt (x := x) (m := 2 ^ 32) (by norm_num)
    omega
  have ha := a.le_toInt
  have ha' := a.toInt_lt
  exact eq_of_modEq_of_range (h.trans hx.symm) ha (by omega) hlo (by omega)

section Loops

variable {α : Type*}

/-- An accumulator of any width, read in the integers by `val`, to which every
element contributes a term. -/
theorem foldl_modEq {β : Type*} {n : ℤ} (val : β → ℤ) (step : β → α → β) (term : α → ℤ)
    (hstep : ∀ acc a, val (step acc a) ≡ val acc + term a [ZMOD n])
    (l : List α) (acc : β) :
    val (l.foldl step acc) ≡ val acc + (l.map term).sum [ZMOD n] := by
  induction l generalizing acc with
  | nil => simp
  | cons a rest ih =>
    calc val (rest.foldl step (step acc a))
        ≡ val (step acc a) + (rest.map term).sum [ZMOD n] := ih _
      _ ≡ (val acc + term a) + (rest.map term).sum [ZMOD n] := (hstep acc a).add_right _
      _ = val acc + ((a :: rest).map term).sum := by
          rw [List.map_cons, List.sum_cons, add_assoc]

end Loops
end SimulazioneTransazioni.MachineInt

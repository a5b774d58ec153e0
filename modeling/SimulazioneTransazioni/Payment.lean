import SimulazioneTransazioni.Draws
import SimulazioneTransazioni.Users
import Mathlib.Data.Rat.Floor

/-!
The split of a drawn sum into amount and reward, from RAND(2, currBalance) to
the subtraction in send_transaction. The product in REWARD is taken in unsigned
int before the division, and amount and reward reach the transaction as ints.
The split is exact as long as neither the product nor the sum leaves its type.
-/
namespace SimulazioneTransazioni.Payment

open Users MachineInt Draws

def drawn (r currBalance : UInt32) : ℕ := r.toNat % (currBalance.toNat - 1) + 2

variable {r currBalance d : UInt32} {soReward : Int8}

theorem rand_drawn (h : 2 ≤ currBalance) (r : UInt32) :
    ∃ d, rand r 2 currBalance = some d ∧ d.toNat = drawn r currBalance := by
  have h2 : 2 ≤ currBalance.toNat := UInt32.le_iff_toNat_le.mp h
  obtain ⟨-, hspan⟩ := rand_mem_iff.mp (rand_sum_iff (r := r).mpr h)
  obtain ⟨d, hd, hval⟩ := rand_eq_some h hspan r
  refine ⟨d, hd, ?_⟩
  have htwo : (2 : UInt32).toNat = 2 := rfl
  rw [hval, drawn, htwo]
  have hsame : currBalance.toNat - 2 + 1 = currBalance.toNat - 1 := by omega
  rw [hsame]

theorem drawn_range (h : 2 ≤ currBalance) :
    2 ≤ drawn r currBalance ∧ drawn r currBalance ≤ currBalance.toNat := by
  have h2 : 2 ≤ currBalance.toNat := UInt32.le_iff_toNat_le.mp h
  have hmod : r.toNat % (currBalance.toNat - 1) < currBalance.toNat - 1 :=
    Nat.mod_lt _ (by omega)
  unfold drawn
  omega

/-- The value of SO_REWARD that parse_parameters leaves. -/
def Percent (soReward : Int8) : Prop := 0 ≤ soReward.toInt ∧ soReward.toInt ≤ 100

/-- The product is that of the unsigned operands. -/
theorem reward_toNat (hR : Percent soReward) (d : UInt32) :
    (reward d soReward).toNat = (soReward.toInt.toNat * d.toNat % 2 ^ 32 + 99) / 100 := by
  obtain ⟨hlo, hhi⟩ := hR
  have hR' : (UInt32.ofInt soReward.toInt).toNat = soReward.toInt.toNat := by
    have hmod := toNat_ofInt_unsigned soReward.toInt
    omega
  have hlt : soReward.toInt.toNat * d.toNat % 2 ^ 32 < 2 ^ 32 := Nat.mod_lt _ (by norm_num)
  rw [reward, UInt32.toNat_mul, hR', UInt32.toNat_ofNat']
  exact Nat.mod_eq_of_lt (by omega)

theorem ceil_percent (n : ℕ) : ⌈(n : ℚ) / 100⌉ = ((n + 99) / 100 : ℕ) := by
  have h := Rat.ceil_intCast_div_natCast (n : ℤ) 100
  push_cast at h ⊢
  rw [h]
  omega

/-- REWARD is the rounded-up share exactly when its product does not wrap. -/
theorem reward_eq_ceil_iff (hR : Percent soReward) (d : UInt32) :
    ((reward d soReward).toNat : ℤ) = ⌈(soReward.toInt * d.toNat : ℚ) / 100⌉ ↔
      soReward.toInt * d.toNat < 2 ^ 32 := by
  have hcast : ((soReward.toInt : ℚ) * d.toNat) = ((soReward.toInt.toNat * d.toNat : ℕ) : ℚ) := by
    push_cast
    congr 1
    exact_mod_cast (Int.toNat_of_nonneg hR.1).symm
  have hprod : soReward.toInt * (d.toNat : ℤ) = (soReward.toInt.toNat * d.toNat : ℕ) := by
    push_cast
    rw [Int.toNat_of_nonneg hR.1]
  rw [hcast, ceil_percent, reward_toNat hR, hprod]
  generalize soReward.toInt.toNat * d.toNat = n
  omega

theorem reward_le (hR : Percent soReward) (d : UInt32)
    (h : soReward.toInt * d.toNat < 2 ^ 32) : (reward d soReward).toNat ≤ d.toNat := by
  have hceil := (reward_eq_ceil_iff hR d).mpr h
  have hle : ⌈(soReward.toInt * d.toNat : ℚ) / 100⌉ ≤ (d.toNat : ℤ) := by
    rw [Int.ceil_le]
    have hR' : (soReward.toInt : ℚ) ≤ 100 := by exact_mod_cast hR.2
    have hd : (0 : ℚ) ≤ d.toNat := Nat.cast_nonneg _
    push_cast
    rw [div_le_iff₀ (by norm_num)]
    nlinarith
  rw [← hceil] at hle
  exact_mod_cast hle

def initialized (par : Parameters) (clock : Timespec) (userPID : PidT) (d : UInt32)
    (p : UserProc) : UserProc :=
  transactionInit par clock userPID (intOfUnsigned (d - reward d par.soReward))
    (intOfUnsigned (reward d par.soReward)) p

/-- The split of d between amount and reward is exact, and so is the payment.
The sum of the two fields is the one that send_transaction forms. -/
structure SplitExactly (par : Parameters) (clock : Timespec) (userPID : PidT) (d : UInt32)
    (p : UserProc) : Prop where
  ceil : ((reward d par.soReward).toNat : ℤ) = ⌈(par.soReward.toInt * d.toNat : ℚ) / 100⌉
  reward_le : reward d par.soReward ≤ d
  amount_nonneg : 0 ≤ (initialized par clock userPID d p).transMsg.userTrans.amount.toInt
  reward_nonneg : 0 ≤ (initialized par clock userPID d p).transMsg.userTrans.reward.toInt
  total : ((initialized par clock userPID d p).transMsg.userTrans.amount +
    (initialized par clock userPID d p).transMsg.userTrans.reward).toInt = d.toNat
  total_exact : (initialized par clock userPID d p).transMsg.userTrans.amount.toInt +
    (initialized par clock userPID d p).transMsg.userTrans.reward.toInt = d.toNat
  two_le : 2 ≤ d
  le_balance : d ≤ p.currBalance
  paid : ((sendTransaction .sent (initialized par clock userPID d p)).2.currBalance.toNat : ℤ) =
    p.currBalance.toNat - d.toNat

/-- A split whose sum and product fit is exact. -/
theorem splitExactly_of_fits {par : Parameters} {p : UserProc} (hR : Percent par.soReward)
    (h2 : 2 ≤ d) (hle : d ≤ p.currBalance) (hint : d.toNat < 2 ^ 31)
    (hprod : par.soReward.toInt * d.toNat < 2 ^ 32) (clock : Timespec) (userPID : PidT) :
    SplitExactly par clock userPID d p := by
  have hreward := Payment.reward_le hR d hprod
  have hreward' : reward d par.soReward ≤ d := UInt32.le_iff_toNat_le.mpr hreward
  have hsub : (d - reward d par.soReward).toNat = d.toNat - (reward d par.soReward).toNat :=
    UInt32.toNat_sub_of_le d _ hreward'
  have hamount : (intOfUnsigned (d - reward d par.soReward)).toInt =
      d.toNat - (reward d par.soReward).toNat := by
    rw [toInt_intOfUnsigned _ (by omega), hsub]
    omega
  have hfield : (intOfUnsigned (reward d par.soReward)).toInt = (reward d par.soReward).toNat :=
    toInt_intOfUnsigned _ (by omega)
  have htotal : (intOfUnsigned (d - reward d par.soReward) +
      intOfUnsigned (reward d par.soReward)).toInt = d.toNat := by
    have hsum : ((d.toNat : ℤ) - (reward d par.soReward).toNat) + (reward d par.soReward).toNat =
        d.toNat := by omega
    rw [Int32.toInt_add, hamount, hfield, hsum]
    exact Int.bmod_eq_of_le (by omega) (by omega)
  refine ⟨(reward_eq_ceil_iff hR d).mpr hprod, hreward', ?_, ?_, htotal, ?_, h2, hle, ?_⟩
  · exact (show (0 : ℤ) ≤ d.toNat - (reward d par.soReward).toNat by omega).trans hamount.ge
  · exact (Int.natCast_nonneg _).trans hfield.ge
  · exact (congrArg₂ (· + ·) hamount hfield).trans (by omega)
  · have hle' : d.toNat ≤ p.currBalance.toNat := UInt32.le_iff_toNat_le.mp hle
    have hback : unsignedOfInt (intOfUnsigned (d - reward d par.soReward) +
        intOfUnsigned (reward d par.soReward)) = d := by
      apply UInt32.toNat_inj.mp
      have hval := toNat_unsignedOfInt (intOfUnsigned (d - reward d par.soReward) +
        intOfUnsigned (reward d par.soReward))
      rw [htotal] at hval
      omega
    show ((p.currBalance - unsignedOfInt (intOfUnsigned (d - reward d par.soReward) +
      intOfUnsigned (reward d par.soReward))).toNat : ℤ) = _
    rw [hback, UInt32.toNat_sub_of_le _ _ hle]
    omega

/-- The payment of a user with balance is split exactly if and only if the sum
drawn is an int and its product with SO_REWARD is an unsigned int. -/
theorem payment_split_iff (par : Parameters) (hR : Percent par.soReward) (p : UserProc)
    (h2 : 2 ≤ p.currBalance) (r : UInt32) (clock : Timespec) (userPID : PidT) :
    (∃ d, rand r 2 p.currBalance = some d ∧ SplitExactly par clock userPID d p) ↔
      drawn r p.currBalance < 2 ^ 31 ∧
        par.soReward.toInt * drawn r p.currBalance < 2 ^ 32 := by
  obtain ⟨d, hd, hval⟩ := rand_drawn h2 r
  rw [← hval]
  constructor
  · rintro ⟨d', hd', hsplit⟩
    rw [hd, Option.some.injEq] at hd'
    subst hd'
    refine ⟨?_, (reward_eq_ceil_iff hR d).mp hsplit.ceil⟩
    have htotal := hsplit.total
    have hlt := Int32.toInt_lt ((initialized par clock userPID d p).transMsg.userTrans.amount +
      (initialized par clock userPID d p).transMsg.userTrans.reward)
    omega
  · rintro ⟨hint, hprod⟩
    obtain ⟨hlo, hhi⟩ := drawn_range (r := r) h2
    rw [← hval] at hlo hhi
    exact ⟨d, hd, splitExactly_of_fits hR (UInt32.le_iff_toNat_le.mpr hlo)
      (UInt32.le_iff_toNat_le.mpr hhi) hint hprod clock userPID⟩

section Examples

def richest : UserProc := ⟨7, 0, .zero, 4294967295, [], ⟨0, .zero⟩⟩

def modest : UserProc := { richest with currBalance := 1000 }

def generous : Parameters :=
  { assignDefaults with soBudgetInit := 4294967295, soReward := 100 }

/-- The settings of conf.txt. -/
theorem payment_split_modest :
    ∃ d, rand 123 2 modest.currBalance = some d ∧
      SplitExactly assignDefaults ⟨1, 0⟩ 8 d modest :=
  (payment_split_iff assignDefaults ⟨by decide, by decide⟩ modest (by decide) 123 ⟨1, 0⟩ 8).mpr
    (by decide)

/-- With SO_REWARD 100 the reward of 42949673 is 1: the product wraps to 4. -/
theorem payment_split_wraps :
    rand 42949671 2 richest.currBalance = some 42949673 ∧
      reward 42949673 generous.soReward = 1 ∧
      ¬ ∀ (par : Parameters) (p : UserProc) (r d : UInt32), Percent par.soReward →
        2 ≤ p.currBalance → rand r 2 p.currBalance = some d →
        SplitExactly par ⟨1, 0⟩ 8 d p := by
  refine ⟨by decide, by decide, fun hall => ?_⟩
  have hsplit := hall generous richest 42949671 42949673 ⟨by decide, by decide⟩ (by decide)
    (by decide)
  exact absurd ((reward_eq_ceil_iff ⟨by decide, by decide⟩ 42949673).mp hsplit.ceil) (by decide)

end Examples
end SimulazioneTransazioni.Payment

import SimulazioneTransazioni.Users
import Mathlib.Algebra.Order.BigOperators.Group.List

/-!
What get_balance computes. A chain is the filled prefix of a ledger: its blocks
carry a time, so the scan stops after the last of them. The scan takes the
user's own entries out of the outgoing list, and accumulate is the sum received
minus the sums of the user's entries and of what is still outgoing. Payments
are read in the integers, where the 32-bit sum of amount and reward may differ.
-/
namespace SimulazioneTransazioni.Balance

open Users MachineInt

def Stamped (b : Block) : Prop :=
  0 < b.first.timestamp.tvSec.toInt ∧ 0 ≤ b.first.timestamp.tvNsec.toInt

instance (b : Block) : Decidable (Stamped b) := inferInstanceAs (Decidable (_ ∧ _))

/-- The blocks of a ledger up to the first slot that is still zero. -/
structure Chain where
  blocks : List Block
  bound : blocks.length ≤ soRegistrySize
  stamped : ∀ b ∈ blocks, Stamped b

namespace Chain

def empty : Chain := ⟨[], Nat.zero_le _, by simp⟩

def toLedger (c : Chain) : Ledger :=
  ⟨c.blocks ++ List.replicate (soRegistrySize - c.blocks.length) Block.zero, by
    have h := c.bound
    rw [List.length_append, List.length_replicate]
    omega⟩

def append (c : Chain) (b : Block) : Option Chain :=
  if h : c.blocks.length < soRegistrySize ∧ Stamped b then
    some ⟨c.blocks ++ [b], by
      rw [List.length_append, List.length_singleton]
      exact h.1, by
      intro b' hb'
      rcases List.mem_append.mp hb' with hold | hnew
      · exact c.stamped b' hold
      · rw [List.mem_singleton.mp hnew]
        exact h.2⟩
  else none

def entries (c : Chain) : List Transaction := c.blocks.flatMap Block.entries

theorem append_blocks {c c' : Chain} {b : Block} (h : c.append b = some c') :
    c'.blocks = c.blocks ++ [b] := by
  unfold append at h
  split at h
  · cases h
    rfl
  · contradiction

theorem append_entries {c c' : Chain} {b : Block} (h : c.append b = some c') :
    c'.entries = c.entries ++ b.entries := by
  rw [entries, append_blocks h, List.flatMap_append]
  simp [entries]

theorem length_entries (c : Chain) : c.entries.length ≤ 9 * soRegistrySize := by
  have hblock : ∀ b : Block, b.entries.length = 9 := fun b => b.transList.tail.2
  have hsum : ∀ bs : List Block, (bs.flatMap Block.entries).length = 9 * bs.length := by
    intro bs
    induction bs with
    | nil => rfl
    | cons b rest ih =>
      rw [List.flatMap_cons, List.length_append, hblock, ih, List.length_cons]
      omega
  have hbound := c.bound
  rw [entries, hsum]
  omega

end Chain

theorem blockFlag_ne_zero {b : Block} (h : Stamped b) : blockFlag b ≠ 0 := by
  obtain ⟨hsec, hnsec⟩ := h
  intro hzero
  have hsum := add_modEq_long b.first.timestamp.tvNsec b.first.timestamp.tvSec
  have hval : (b.first.timestamp.tvNsec + b.first.timestamp.tvSec).toInt = 0 := by
    rw [← blockFlag, hzero]
    rfl
  rw [hval] at hsum
  have hsec' := b.first.timestamp.tvSec.toInt_lt
  have hnsec' := b.first.timestamp.tvNsec.toInt_lt
  have hdvd := hsum.dvd
  omega

theorem blockFlag_zero : blockFlag Block.zero = 0 := by decide

/-- The scan of a chain's ledger sees the entries of its blocks, in order. -/
theorem scanLedger_toLedger (myPID : PidT) (acc : Int64 × List Transaction) (c : Chain) :
    scanLedger myPID acc c.toLedger.toList = c.entries.foldl (scanEntry myPID) acc := by
  have hrest : ∀ n acc, scanLedger myPID acc (List.replicate n Block.zero) = acc := by
    intro n acc
    cases n with
    | zero => rfl
    | succ n => rw [List.replicate_succ, scanLedger, if_pos blockFlag_zero]
  have hscan : ∀ bs n acc, (∀ b ∈ bs, Stamped b) →
      scanLedger myPID acc (bs ++ List.replicate n Block.zero) =
        (bs.flatMap Block.entries).foldl (scanEntry myPID) acc := by
    intro bs n
    induction bs with
    | nil => exact fun acc _ => hrest n acc
    | cons b rest ih =>
      intro acc hstamped
      have hflag := blockFlag_ne_zero (hstamped b (List.mem_cons_self ..))
      rw [List.cons_append, scanLedger, if_neg hflag, List.flatMap_cons, List.foldl_append]
      exact ih _ fun b' hb' => hstamped b' (List.mem_cons_of_mem _ hb')
  exact hscan c.blocks _ acc c.stamped

def own (myPID : PidT) (l : List Transaction) : List Transaction :=
  l.filter fun t => t.sender = myPID

def received (myPID : PidT) (l : List Transaction) : ℤ :=
  ((l.filter fun t => t.receiver = myPID).map fun t => t.amount.toInt).sum

def cost (t : Transaction) : ℤ := t.amount.toInt + t.reward.toInt

def spent (l : List Transaction) : ℤ := (l.map cost).sum

def paid (l : List Transaction) : ℤ := (l.map fun t => (t.amount + t.reward).toInt).sum

def Fits (t : Transaction) : Prop := -(2 ^ 31) ≤ cost t ∧ cost t < 2 ^ 31

instance (t : Transaction) : Decidable (Fits t) := inferInstanceAs (Decidable (_ ∧ _))

theorem toInt_eq_cost {t : Transaction} (h : Fits t) : (t.amount + t.reward).toInt = cost t := by
  have hmod := add_modEq_int t.amount t.reward
  have hlo := (t.amount + t.reward).le_toInt
  have hhi := (t.amount + t.reward).toInt_lt
  exact eq_of_modEq_of_range hmod hlo (by omega) h.1 (by have := h.2; omega)

theorem paid_eq_spent {l : List Transaction} (h : ∀ t ∈ l, Fits t) : paid l = spent l := by
  rw [paid, spent, List.map_congr_left fun t ht => toInt_eq_cost (h t ht)]

theorem paid_modEq_spent (l : List Transaction) : paid l ≡ spent l [ZMOD 2 ^ 32] := by
  induction l with
  | nil => rfl
  | cons t rest ih => exact (add_modEq_int t.amount t.reward).add ih

theorem spent_nonneg {l : List Transaction} (h : ∀ t ∈ l, 0 ≤ cost t) : 0 ≤ spent l := by
  apply List.sum_nonneg
  intro x hx
  obtain ⟨t, ht, rfl⟩ := List.mem_map.mp hx
  exact h t ht

@[simp] theorem spent_append (l₁ l₂ : List Transaction) :
    spent (l₁ ++ l₂) = spent l₁ + spent l₂ := by
  rw [spent, List.map_append, List.sum_append, spent, spent]

@[simp] theorem received_append (myPID : PidT) (l₁ l₂ : List Transaction) :
    received myPID (l₁ ++ l₂) = received myPID l₁ + received myPID l₂ := by
  rw [received, List.filter_append, List.map_append, List.sum_append, received, received]

def delta (myPID : PidT) (t : Transaction) : ℤ :=
  if t.sender = myPID then -(t.amount + t.reward).toInt
  else if t.receiver = myPID then t.amount.toInt
  else 0

theorem scan_outgoing (myPID : PidT) (l : List Transaction) (acc : Int64 × List Transaction) :
    (l.foldl (scanEntry myPID) acc).2 = (own myPID l).foldl findAndRemove acc.2 := by
  induction l generalizing acc with
  | nil => rfl
  | cons t rest ih =>
    rw [List.foldl_cons, ih]
    unfold scanEntry own
    by_cases hs : t.sender = myPID
    · simp [hs]
    · by_cases hr : t.receiver = myPID <;> simp [hs, hr]

theorem scanEntry_accumulate (myPID : PidT) (acc : Int64 × List Transaction) (t : Transaction) :
    (scanEntry myPID acc t).1.toInt ≡ acc.1.toInt + delta myPID t [ZMOD 2 ^ 64] := by
  unfold scanEntry delta
  by_cases hs : t.sender = myPID
  · simp only [hs, ↓reduceIte]
    have h := sub_modEq_long acc.1 (t.amount + t.reward).toInt64
    rwa [Int32.toInt_toInt64, sub_eq_add_neg] at h
  · by_cases hr : t.receiver = myPID
    · simp only [hs, hr, ↓reduceIte]
      have h := add_modEq_long acc.1 t.amount.toInt64
      rwa [Int32.toInt_toInt64] at h
    · simp [hs, hr]

theorem scan_accumulate (myPID : PidT) (l : List Transaction) (acc : Int64 × List Transaction) :
    (l.foldl (scanEntry myPID) acc).1.toInt ≡
      acc.1.toInt + (l.map (delta myPID)).sum [ZMOD 2 ^ 64] :=
  foldl_modEq (n := 2 ^ 64) (fun acc : Int64 × List Transaction => acc.1.toInt)
    (scanEntry myPID) (delta myPID) (fun acc t => scanEntry_accumulate myPID acc t) l acc

/-- Nobody pays himself, so an entry counts on one side only. -/
theorem sum_delta {myPID : PidT} {l : List Transaction}
    (h : ∀ t ∈ own myPID l, t.receiver ≠ myPID) :
    (l.map (delta myPID)).sum = received myPID l - paid (own myPID l) := by
  induction l with
  | nil => rfl
  | cons t rest ih =>
    have hrest := ih fun t' ht' => h t' (by
      simp only [own, List.mem_filter] at ht' ⊢
      exact ⟨List.mem_cons_of_mem _ ht'.1, ht'.2⟩)
    rw [List.map_cons, List.sum_cons, hrest]
    unfold delta received own paid
    by_cases hs : t.sender = myPID
    · have hr : t.receiver ≠ myPID := h t (by simp [own, hs])
      simp [hs, hr]
      omega
    · by_cases hr : t.receiver = myPID
      · simp [hs, hr]
        omega
      · simp [hs, hr]

theorem subtractOutgoing_modEq (accumulate : Int64) (out : List Transaction) :
    (subtractOutgoing accumulate out).toInt ≡ accumulate.toInt - paid out [ZMOD 2 ^ 64] := by
  have h := foldl_modEq (n := 2 ^ 64) Int64.toInt
    (fun (accumulate : Int64) (t : Transaction) => accumulate - (t.amount + t.reward).toInt64)
    (fun t => -(t.amount + t.reward).toInt) (fun acc t => by
      have hsub := sub_modEq_long acc (t.amount + t.reward).toInt64
      rwa [Int32.toInt_toInt64, sub_eq_add_neg] at hsub) out accumulate
  have hneg : ∀ l : List Transaction,
      (l.map fun t : Transaction => -(t.amount + t.reward).toInt).sum = -paid l := by
    intro l
    induction l with
    | nil => rfl
    | cons t rest ih =>
      rw [List.map_cons, List.sum_cons, ih, paid, paid, List.map_cons, List.sum_cons, neg_add]
  rwa [hneg, ← sub_eq_add_neg] at h

/-- What accumulate holds at the end, in the integers: out is the outgoing
list after the scan. -/
def tally (myPID : PidT) (c : Chain) (out : List Transaction) : ℤ :=
  received myPID c.entries - paid (own myPID c.entries) - paid out

def NotToSelf (myPID : PidT) (c : Chain) : Prop :=
  ∀ t ∈ own myPID c.entries, t.receiver ≠ myPID

def pruned (myPID : PidT) (c : Chain) (out : List Transaction) : List Transaction :=
  (own myPID c.entries).foldl findAndRemove out

theorem recount_outgoing (myPID : PidT) (c : Chain) (out : List Transaction) :
    (recount myPID c.toLedger out).2 = pruned myPID c out := by
  simp only [recount]
  rw [scanLedger_toLedger, scan_outgoing, pruned]

theorem recount_accumulate {myPID : PidT} {c : Chain} (hself : NotToSelf myPID c)
    (out : List Transaction) :
    (recount myPID c.toLedger out).1.toInt ≡
      tally myPID c (pruned myPID c out) [ZMOD 2 ^ 64] := by
  simp only [recount]
  rw [scanLedger_toLedger, scan_outgoing, ← pruned]
  have hscan := scan_accumulate myPID c.entries (0, out)
  rw [sum_delta hself] at hscan
  have hsub := subtractOutgoing_modEq
    (c.entries.foldl (scanEntry myPID) (0, out)).1 (pruned myPID c out)
  have hzero : ((0, out) : Int64 × List Transaction).1.toInt = 0 := rfl
  rw [hzero, zero_add] at hscan
  exact hsub.trans (hscan.sub_right _)

theorem modifyRow_ok {usersPID usersPID' : List User} {p p' : UserProc} {f : User → User}
    (hnodup : (usersPID.map User.pid).Nodup)
    (h : modifyRow usersPID p f = .ok (usersPID', p')) :
    usersPID' = Table.update User.pid usersPID p.myPID f ∧ p' = p.withErrno .EFBIG := by
  unfold modifyRow at h
  split at h
  · contradiction
  next i hi =>
    simp only [Except.ok.injEq, Prod.mk.injEq, Sem.lockErrno_eq] at h
    rw [← h.1, ← h.2]
    have hcount := List.nodup_iff_count_le_one.mp hnodup p.myPID
    exact ⟨Table.modify_indexOf User.pid hcount hi f, rfl⟩

theorem modifyRow_returns {usersPID : List User} {p : UserProc}
    (hmem : p.myPID ∈ usersPID.map User.pid) (f : User → User) :
    ∃ r, modifyRow usersPID p f = .ok r := by
  obtain ⟨i, hi⟩ := Table.exists_indexOf User.pid hmem
  exact ⟨_, by rw [modifyRow, getPidUserIndex, hi]⟩

structure Recounted (par : Parameters) (c : Chain) (usersPID : List User) (p : UserProc)
    (usersPID' : List User) (p' : UserProc) : Prop where
  myPID : p'.myPID = p.myPID
  transMsg : p'.transMsg = p.transMsg
  outgoing : p'.outGoingTransactions = pruned p.myPID c p.outGoingTransactions
  balance : (p'.currBalance.toNat : ℤ) = (par.soBudgetInit.toNat +
    tally p.myPID c (pruned p.myPID c p.outGoingTransactions)) % 2 ^ 32
  rows : usersPID' = Table.update User.pid usersPID p.myPID fun row =>
    { row with balance := p'.currBalance }

theorem Recounted.keys {par : Parameters} {c : Chain} {usersPID usersPID' : List User}
    {p p' : UserProc} (h : Recounted par c usersPID p usersPID' p') :
    usersPID'.map User.pid = usersPID.map User.pid := by
  rw [h.rows]
  exact Table.map_key_update _ _ fun _ => rfl

theorem toNat_balance {budget : UInt32} {accumulate : Int64} {x : ℤ}
    (h : accumulate.toInt ≡ x [ZMOD 2 ^ 64]) :
    ((unsignedOfLong (longOfUnsigned budget + accumulate)).toNat : ℤ) =
      (budget.toNat + x) % 2 ^ 32 := by
  have hadd := add_modEq_long (longOfUnsigned budget) accumulate
  rw [toInt_longOfUnsigned] at hadd
  rw [toNat_unsignedOfLong]
  exact modEq_of_long (hadd.trans (h.add_left _))

theorem getBalance_ok {par : Parameters} {c : Chain} {usersPID usersPID' : List User}
    {p p' : UserProc} (hself : NotToSelf p.myPID c) (hnodup : (usersPID.map User.pid).Nodup)
    (h : getBalance par c.toLedger usersPID p = .ok (usersPID', p')) :
    Recounted par c usersPID p usersPID' p' := by
  simp only [getBalance] at h
  split at h
  · contradiction
  · split at h
    · contradiction
    · obtain ⟨hrows, hp⟩ := modifyRow_ok hnodup h
      rw [recount_outgoing] at hp
      subst hp
      exact ⟨rfl, rfl, rfl, toNat_balance (recount_accumulate hself _), hrows⟩

/-- The test of the overflow branch is that the balance is negative. -/
theorem overflow_iff (budget : UInt32) {accumulate : Int64}
    (h : -(2 ^ 63) < accumulate.toInt) :
    longOfUnsigned budget < accumulate * (-1) ↔ budget.toNat + accumulate.toInt < 0 := by
  have hneg : (accumulate * (-1)).toInt = -accumulate.toInt := by
    have hone : (-1 : Int64).toInt = -1 := rfl
    have hhi := accumulate.toInt_lt
    rw [Int64.toInt_mul, hone, mul_neg_one]
    exact Int.bmod_eq_of_le (by omega) (by omega)
  rw [Int64.lt_iff_toInt_lt, toInt_longOfUnsigned, hneg]
  omega

/-- get_balance returns when the balance in the integers is not negative and
accumulate stays in its type. -/
theorem getBalance_returns {par : Parameters} {c : Chain} {usersPID : List User}
    {p : UserProc} (hself : NotToSelf p.myPID c) (hmem : p.myPID ∈ usersPID.map User.pid)
    (hlo : 0 ≤ par.soBudgetInit.toNat +
      tally p.myPID c (pruned p.myPID c p.outGoingTransactions))
    (hhi : tally p.myPID c (pruned p.myPID c p.outGoingTransactions) < 2 ^ 63) :
    ∃ r, getBalance par c.toLedger usersPID p = .ok r := by
  have hbudget := par.soBudgetInit.toNat_lt
  have hacc := recount_accumulate hself p.outGoingTransactions
  have hacclo := (recount p.myPID c.toLedger p.outGoingTransactions).1.le_toInt
  have hacchi := (recount p.myPID c.toLedger p.outGoingTransactions).1.toInt_lt
  have hexact := eq_of_modEq_of_range hacc hacclo (by omega) (by omega) (by omega)
  have hno : ¬ longOfUnsigned par.soBudgetInit <
      (recount p.myPID c.toLedger p.outGoingTransactions).1 * (-1) := by
    rw [overflow_iff par.soBudgetInit (by omega)]
    omega
  simp only [getBalance]
  rw [if_neg hno, if_neg (by simp)]
  apply modifyRow_returns
  exact hmem

end SimulazioneTransazioni.Balance

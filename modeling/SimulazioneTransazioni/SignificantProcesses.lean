import SimulazioneTransazioni.Common
import SimulazioneTransazioni.Library.TopThree
import Mathlib.Order.OrderDual

/-!
The four loops of print_most_significant_processes. Each keeps three balances with their
pids, the most extreme one first; a balance beyond the first one takes the place of the
second, which is lost. The smallest balances are the greatest ones of the dual order.
-/
namespace SimulazioneTransazioni.SignificantProcesses

open TopThree OrderDual

scoped instance unsignedOrder : LinearOrder UInt32 where
  le := (· ≤ ·)
  lt := (· < ·)
  le_refl := UInt32.le_refl
  le_trans := fun _ _ _ => UInt32.le_trans
  le_antisymm := fun _ _ => UInt32.le_antisymm
  le_total := UInt32.le_total
  lt_iff_le_not_ge := by
    intro a b
    rw [UInt32.lt_iff_toNat_lt, UInt32.le_iff_toNat_le, UInt32.le_iff_toNat_le]
    omega
  toDecidableLE := inferInstance
  toDecidableEq := inferInstance
  toDecidableLT := inferInstance

scoped instance unsignedLongOrder : LinearOrder UInt64 where
  le := (· ≤ ·)
  lt := (· < ·)
  le_refl := UInt64.le_refl
  le_trans := fun _ _ _ => UInt64.le_trans
  le_antisymm := fun _ _ => UInt64.le_antisymm
  le_total := UInt64.le_total
  lt_iff_le_not_ge := by
    intro a b
    rw [UInt64.lt_iff_toNat_lt, UInt64.le_iff_toNat_le, UInt64.le_iff_toNat_le]
    omega
  toDecidableLE := inferInstance
  toDecidableEq := inferInstance
  toDecidableLT := inferInstance

def uintMax : UInt32 := 4294967295
def ulongMax : UInt64 := 18446744073709551615

/-- The tests of a loop's body; beats compares the balance with an old one. -/
def update {κ : Type} (beats : κ → κ → Prop) [DecidableRel beats] (s : Three κ PidT)
    (balance : κ) (pid : PidT) : Three κ PidT :=
  if beats balance s.first.1 then { s with second := s.first, first := (balance, pid) }
  else if beats balance s.second.1 then { s with third := s.second, second := (balance, pid) }
  else if beats balance s.third.1 then { s with third := (balance, pid) }
  else s

structure Statics where
  n1 : PidT
  n2 : PidT
  n3 : PidT
  n4 : PidT
  n5 : PidT
  n6 : PidT

/-- The balances with their pids: 1, 2, 3 for the high ones and 6, 5, 4 for the low ones. -/
structure Printed where
  nodesHigh : Three UInt64 PidT
  nodesLow : Three UInt64 PidT
  usersHigh : Three UInt32 PidT
  usersLow : Three UInt32 PidT

/-- The rows that the loops over nodesPID visit. -/
def visitedNodes (par : Parameters) (nodesPID : List Node) : List Node :=
  nodesPID.take (par.soNodesNum * 2).toNat

def visitedUsers (par : Parameters) (usersPID : List User) : List User :=
  usersPID.take par.soUserNum.toNat

def printMostSignificantProcesses (statics : Statics) (usersPID : List User)
    (nodesPID : List Node) (par : Parameters) : Printed where
  nodesHigh := (visitedNodes par nodesPID).foldl
    (fun s row => update (fun balance b => b < balance) s row.balance row.pid)
    ⟨(0, statics.n1), (0, statics.n2), (0, statics.n3)⟩
  nodesLow := (visitedNodes par nodesPID).foldl
    (fun s row => update (fun balance b => balance < b ∧ row.pid ≠ 0) s row.balance row.pid)
    ⟨(ulongMax, statics.n6), (ulongMax, statics.n5), (ulongMax, statics.n4)⟩
  usersHigh := (visitedUsers par usersPID).foldl
    (fun s row => update (fun balance b => b < balance) s row.balance row.pid)
    ⟨(0, 0), (0, 0), (0, 0)⟩
  usersLow := (visitedUsers par usersPID).foldl
    (fun s row => update (fun balance b => balance < b) s row.balance row.pid)
    ⟨(uintMax, 0), (uintMax, 0), (uintMax, 0)⟩

def dual {κ : Type} (s : Three κ PidT) : Three κᵒᵈ PidT :=
  ⟨(toDual s.first.1, s.first.2), (toDual s.second.1, s.second.2),
    (toDual s.third.1, s.third.2)⟩

section Rows

def nodeRows (nodesPID : List Node) : List (UInt64 × PidT) :=
  nodesPID.map fun row => (row.balance, row.pid)

def lowNodeRows (nodesPID : List Node) : List (UInt64ᵒᵈ × PidT) :=
  (nodesPID.filter fun row => row.pid ≠ 0).map fun row => (toDual row.balance, row.pid)

def userRows (usersPID : List User) : List (UInt32 × PidT) :=
  usersPID.map fun row => (row.balance, row.pid)

def lowUserRows (usersPID : List User) : List (UInt32ᵒᵈ × PidT) :=
  usersPID.map fun row => (toDual row.balance, row.pid)

end Rows

/-- Each of the four is the three greatest or smallest balances, in order and with rows. -/
structure MostSignificant (usersPID : List User) (nodesPID : List Node) (t : Printed) : Prop where
  nodesHigh : Right 0 (nodeRows nodesPID) t.nodesHigh
  nodesLow : Right (toDual ulongMax) (lowNodeRows nodesPID) (dual t.nodesLow)
  usersHigh : Right 0 (userRows usersPID) t.usersHigh
  usersLow : Right (toDual uintMax) (lowUserRows usersPID) (dual t.usersLow)

def Scanned {κ : Type} [LinearOrder κ] (fill : κ) (visited rows : List (κ × PidT)) : Prop :=
  Recovers fill (visited.map Prod.fst) ∧
    three fill (visited.map Prod.fst) = three fill (rows.map Prod.fst)

section Loops

variable {κ : Type} [LinearOrder κ]

theorem update_high (s : Three κ PidT) (balance : κ) (pid : PidT) :
    update (fun balance b => b < balance) s balance pid = place s (balance, pid) := rfl

/-- A loop for the smallest balances is one for the greatest of the dual order. -/
theorem update_low (s : Three κ PidT) (balance : κ) (pid : PidT) :
    dual (update (fun balance b => balance < b) s balance pid) =
      place (dual s) (toDual balance, pid) := by
  unfold update place
  by_cases h1 : balance < s.first.1
  · have h1' : (dual s).first.1 < (toDual balance, pid).1 := h1
    rw [if_pos h1, if_pos h1']
    rfl
  · have h1' : ¬ (dual s).first.1 < (toDual balance, pid).1 := h1
    rw [if_neg h1, if_neg h1']
    by_cases h2 : balance < s.second.1
    · have h2' : (dual s).second.1 < (toDual balance, pid).1 := h2
      rw [if_pos h2, if_pos h2']
      rfl
    · have h2' : ¬ (dual s).second.1 < (toDual balance, pid).1 := h2
      rw [if_neg h2, if_neg h2']
      by_cases h3 : balance < s.third.1
      · have h3' : (dual s).third.1 < (toDual balance, pid).1 := h3
        rw [if_pos h3, if_pos h3']
        rfl
      · have h3' : ¬ (dual s).third.1 < (toDual balance, pid).1 := h3
        rw [if_neg h3, if_neg h3']

/-- The rows without a pid are passed over. -/
theorem update_pid (s : Three κ PidT) (balance : κ) (pid : PidT) :
    update (fun balance b => balance < b ∧ pid ≠ 0) s balance pid =
      if pid ≠ 0 then update (fun balance b => balance < b) s balance pid else s := by
  by_cases hpid : pid = 0
  · simp [update, hpid]
  · simp [update, hpid]

variable {ρ : Type}

theorem foldl_high (balance : ρ → κ) (pid : ρ → PidT) (rows : List ρ) (s : Three κ PidT) :
    rows.foldl (fun s row => update (fun balance b => b < balance) s (balance row) (pid row)) s =
      (rows.map fun row => (balance row, pid row)).foldl place s := by
  simp only [update_high, List.foldl_map]

theorem foldl_low (balance : ρ → κ) (pid : ρ → PidT) (rows : List ρ) (s : Three κ PidT) :
    dual (rows.foldl
        (fun s row => update (fun balance b => balance < b) s (balance row) (pid row)) s) =
      (rows.map fun row => (toDual (balance row), pid row)).foldl place (dual s) := by
  induction rows generalizing s with
  | nil => rfl
  | cons row rest ih =>
    rw [List.foldl_cons, ih, update_low]
    rfl

theorem foldl_low_pid (balance : ρ → κ) (pid : ρ → PidT) (rows : List ρ) (s : Three κ PidT) :
    rows.foldl (fun s row =>
        update (fun balance b => balance < b ∧ pid row ≠ 0) s (balance row) (pid row)) s =
      (rows.filter fun row => pid row ≠ 0).foldl
        (fun s row => update (fun balance b => balance < b) s (balance row) (pid row)) s := by
  simp only [update_pid, List.foldl_filter, decide_eq_true_eq]

end Loops

section Table

variable {statics : Statics} {usersPID : List User} {nodesPID : List Node} {par : Parameters}

theorem visitedNodes_isPrefixOf (par : Parameters) (nodesPID : List Node) :
    visitedNodes par nodesPID <+: nodesPID := List.take_prefix _ _

theorem visitedUsers_isPrefixOf (par : Parameters) (usersPID : List User) :
    visitedUsers par usersPID <+: usersPID := List.take_prefix _ _

theorem usersHigh_iff : Right 0 (userRows usersPID)
    (printMostSignificantProcesses statics usersPID nodesPID par).usersHigh ↔
      Scanned 0 (userRows (visitedUsers par usersPID)) (userRows usersPID) := by
  have hprefix : userRows (visitedUsers par usersPID) <+: userRows usersPID :=
    (visitedUsers_isPrefixOf par usersPID).map _
  dsimp only [printMostSignificantProcesses]
  rw [foldl_high]
  exact right_iff rfl hprefix

theorem usersLow_iff : Right (toDual uintMax) (lowUserRows usersPID)
    (dual (printMostSignificantProcesses statics usersPID nodesPID par).usersLow) ↔
      Scanned (toDual uintMax) (lowUserRows (visitedUsers par usersPID))
        (lowUserRows usersPID) := by
  have hprefix : lowUserRows (visitedUsers par usersPID) <+: lowUserRows usersPID :=
    (visitedUsers_isPrefixOf par usersPID).map _
  dsimp only [printMostSignificantProcesses]
  rw [foldl_low]
  exact right_iff rfl hprefix

theorem nodesHigh_iff : Right 0 (nodeRows nodesPID)
    (printMostSignificantProcesses statics usersPID nodesPID par).nodesHigh ↔
      Scanned 0 (nodeRows (visitedNodes par nodesPID)) (nodeRows nodesPID) := by
  have hprefix : nodeRows (visitedNodes par nodesPID) <+: nodeRows nodesPID :=
    (visitedNodes_isPrefixOf par nodesPID).map _
  dsimp only [printMostSignificantProcesses]
  rw [foldl_high]
  exact right_iff rfl hprefix

theorem nodesLow_iff : Right (toDual ulongMax) (lowNodeRows nodesPID)
    (dual (printMostSignificantProcesses statics usersPID nodesPID par).nodesLow) ↔
      Scanned (toDual ulongMax) (lowNodeRows (visitedNodes par nodesPID))
        (lowNodeRows nodesPID) := by
  have hprefix : lowNodeRows (visitedNodes par nodesPID) <+: lowNodeRows nodesPID :=
    ((visitedNodes_isPrefixOf par nodesPID).filter _).map _
  dsimp only [printMostSignificantProcesses]
  rw [foldl_low_pid, foldl_low]
  exact right_iff rfl hprefix

/-- The table is right exactly when each of the four loops recovers what it loses, and
the rows that it does not visit are not among the three. -/
theorem most_significant_iff (statics : Statics) (usersPID : List User) (nodesPID : List Node)
    (par : Parameters) : MostSignificant usersPID nodesPID
      (printMostSignificantProcesses statics usersPID nodesPID par) ↔
    Scanned 0 (nodeRows (visitedNodes par nodesPID)) (nodeRows nodesPID) ∧
      Scanned (toDual ulongMax) (lowNodeRows (visitedNodes par nodesPID))
        (lowNodeRows nodesPID) ∧
      Scanned 0 (userRows (visitedUsers par usersPID)) (userRows usersPID) ∧
      Scanned (toDual uintMax) (lowUserRows (visitedUsers par usersPID))
        (lowUserRows usersPID) := by
  constructor
  · rintro ⟨hnodes, hlowNodes, husers, hlowUsers⟩
    exact ⟨nodesHigh_iff.mp hnodes, nodesLow_iff.mp hlowNodes, usersHigh_iff.mp husers,
      usersLow_iff.mp hlowUsers⟩
  · rintro ⟨hnodes, hlowNodes, husers, hlowUsers⟩
    exact ⟨nodesHigh_iff.mpr hnodes, nodesLow_iff.mpr hlowNodes, usersHigh_iff.mpr husers,
      usersLow_iff.mpr hlowUsers⟩

/-- Balances 1, 2 and 3 in this order: the 1 is lost. -/
theorem third_lost : ∃ statics usersPID nodesPID par, ¬ MostSignificant usersPID nodesPID
    (printMostSignificantProcesses statics usersPID nodesPID par) := by
  refine ⟨⟨0, 0, 0, 0, 0, 0⟩, [⟨11, 1, .alive⟩, ⟨12, 2, .alive⟩, ⟨13, 3, .alive⟩], [],
    { assignDefaults with soUserNum := 3 }, ?_⟩
  intro h
  exact absurd (extremes_iff.mp h.usersHigh.1) (by decide)

end Table
end SimulazioneTransazioni.SignificantProcesses

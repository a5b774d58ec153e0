import SimulazioneTransazioni.Balance
import SimulazioneTransazioni.Nodes

/-!
The SIGINT handlers against a chain. A user's handler leaves in its row the
budget plus what the ledger pays the user minus the user's entries in it: the
outgoing transactions that get_balance subtracts are added back. A node's
handler leaves the sum of the first entries that name the node.
-/
namespace SimulazioneTransazioni.Interrupts

open Users Balance Nodes MachineInt

def ledgerBalance (par : Parameters) (myPID : PidT) (c : Chain) : ℤ :=
  par.soBudgetInit.toNat + received myPID c.entries - spent (own myPID c.entries)

section User

variable {par : Parameters} {c : Chain} {usersPID usersPID' : List User} {p p' : UserProc}

/-- An update of the user's row that keeps its pid and its balance. -/
theorem markFinal_ok (hnodup : (usersPID.map User.pid).Nodup)
    (h : markFinal usersPID p = .ok (usersPID', p')) :
    (∃ f : User → User, (∀ row, (f row).pid = row.pid ∧ (f row).balance = row.balance) ∧
      usersPID' = Table.update User.pid usersPID p.myPID f) ∧
    p'.myPID = p.myPID ∧ p'.outGoingTransactions = p.outGoingTransactions := by
  have hstatus : ∀ status, updateStatus status usersPID p = .ok (usersPID', p') →
      (∃ f : User → User, (∀ row, (f row).pid = row.pid ∧ (f row).balance = row.balance) ∧
        usersPID' = Table.update User.pid usersPID p.myPID f) ∧
      p'.myPID = p.myPID ∧ p'.outGoingTransactions = p.outGoingTransactions := by
    intro status hok
    obtain ⟨hrows, rfl⟩ := modifyRow_ok hnodup hok
    exact ⟨⟨fun row => { row with status := status }, fun row => ⟨rfl, rfl⟩, hrows⟩, rfl, rfl⟩
  unfold markFinal at h
  split at h
  · contradiction
  · split at h
    · cases h
      exact ⟨⟨id, fun row => ⟨rfl, rfl⟩, (Table.update_id _ _).symm⟩, rfl, rfl⟩
    · split at h
      · exact hstatus _ h
      · exact hstatus _ h

theorem markFinal_returns (hmem : p.myPID ∈ usersPID.map User.pid) :
    ∃ r, markFinal usersPID p = .ok r := by
  obtain ⟨i, hi⟩ := Table.exists_indexOf User.pid hmem
  have hlt : i < usersPID.length := by
    have hfind := List.findIdx?_eq_some_iff_findIdx_eq.mp hi
    omega
  unfold markFinal
  rw [getPidUserIndex, hi, Option.bind_some, List.getElem?_eq_getElem hlt]
  simp only
  split
  · exact ⟨_, rfl⟩
  · split
    · exact modifyRow_returns hmem _
    · exact modifyRow_returns hmem _

/-- The refund is the sum that get_balance subtracted. -/
theorem refund_balance (out : List Transaction) (row : User) :
    ((refund out row).balance.toNat : ℤ) ≡ row.balance.toNat + paid out [ZMOD 2 ^ 32] := by
  have hstep : ∀ (balance : UInt32) (t : Transaction),
      ((balance + unsignedOfInt (t.amount + t.reward)).toNat : ℤ) ≡
        balance.toNat + (t.amount + t.reward).toInt [ZMOD 2 ^ 32] := by
    intro balance t
    have hpay := toNat_unsignedOfInt (t.amount + t.reward)
    have hlt := balance.toNat_lt
    rw [UInt32.toNat_add, Int.ModEq]
    omega
  have hfold := foldl_modEq (n := 2 ^ 32) (fun balance : UInt32 => (balance.toNat : ℤ))
    (fun (balance : UInt32) (t : Transaction) => balance + unsignedOfInt (t.amount + t.reward))
    (fun t => (t.amount + t.reward).toInt) hstep out row.balance
  rw [paid]
  exact hfold

theorem bind_ok {ε α β : Type} {x : Except ε α} {f : α → Except ε β} {r : β}
    (h : x >>= f = .ok r) : ∃ a, x = .ok a ∧ f a = .ok r := by
  cases x with
  | error e => contradiction
  | ok a => exact ⟨a, rfl, h⟩

theorem bind_eq {ε α β : Type} {x : Except ε α} {f : α → Except ε β} {a : α}
    (h : x = .ok a) : x >>= f = f a := by
  rw [h]
  rfl

/-- The refund takes the recomputed balance back to the balance of the ledger. -/
theorem refund_recounted (h : Recounted par c usersPID p usersPID' p') (row : User)
    (hrow : row.balance = p'.currBalance) :
    ((refund p'.outGoingTransactions row).balance.toNat : ℤ) =
      ledgerBalance par p.myPID c % 2 ^ 32 := by
  have hback := refund_balance p'.outGoingTransactions row
  have hmod := (paid_modEq_spent (own p.myPID c.entries)).neg.add_left
    (par.soBudgetInit.toNat + received p.myPID c.entries)
  have hbal := h.balance
  rw [← h.outgoing, tally] at hbal
  have hlt := (refund p'.outGoingTransactions row).balance.toNat_lt
  rw [ledgerBalance, sub_eq_add_neg, ← hmod]
  rw [Int.ModEq, hrow] at hback
  omega

/-- Whatever is outgoing, the handler leaves the balance of the ledger. -/
theorem userInterruptHandle_ok (hself : NotToSelf p.myPID c)
    (hnodup : (usersPID.map User.pid).Nodup)
    (h : userInterruptHandle par c.toLedger usersPID p = .ok usersPID') :
    ∃ f : User → User, usersPID' = Table.update User.pid usersPID p.myPID f ∧
      ∀ row, (f row).pid = row.pid ∧
        ((f row).balance.toNat : ℤ) = ledgerBalance par p.myPID c % 2 ^ 32 := by
  obtain ⟨⟨rows₁, p₁⟩, hget, h⟩ := bind_ok h
  obtain ⟨⟨rows₂, p₂⟩, hmark, h⟩ := bind_ok h
  obtain ⟨⟨rows₃, p₃⟩, hrefund, h⟩ := bind_ok h
  have hdone := getBalance_ok hself hnodup hget
  rw [← hdone.keys] at hnodup
  obtain ⟨⟨g, hg, hrows₂⟩, hpid₂, hout₂⟩ := markFinal_ok hnodup hmark
  have hkeys₂ : rows₂.map User.pid = rows₁.map User.pid := by
    rw [hrows₂]
    exact Table.map_key_update _ _ fun row => (hg row).1
  rw [← hkeys₂] at hnodup
  obtain ⟨hrows₃, -⟩ := modifyRow_ok hnodup hrefund
  have hrows : usersPID' = rows₃ := (Except.ok.inj h).symm
  have hpair : rows₂ = Table.update User.pid usersPID p.myPID
      (g ∘ fun row => { row with balance := p₁.currBalance }) := by
    rw [hrows₂, hdone.rows, hdone.myPID]
    exact Table.update_update _ _ g (f := fun row : User =>
      { row with balance := p₁.currBalance }) fun _ => rfl
  refine ⟨refund p₂.outGoingTransactions ∘ g ∘ fun row => { row with balance := p₁.currBalance },
    ?_, fun row => ⟨(hg _).1, ?_⟩⟩
  · rw [hrows, hrows₃, hpair, hpid₂, hdone.myPID]
    exact Table.update_update _ _ _ fun row => (hg _).1
  · rw [Function.comp_apply, hout₂]
    exact refund_recounted hdone _ (hg _).2

theorem maxRetryReached_eq {ledger : Ledger}
    (h : updateStatus .dead usersPID p = .ok (usersPID', p')) :
    maxRetryReached par ledger usersPID p = userInterruptHandle par ledger usersPID' p' := by
  rw [maxRetryReached, bind_eq h]

theorem maxRetryReached_ok (hself : NotToSelf p.myPID c)
    (hnodup : (usersPID.map User.pid).Nodup)
    (h : maxRetryReached par c.toLedger usersPID p = .ok usersPID') :
    ∃ f : User → User, usersPID' = Table.update User.pid usersPID p.myPID f ∧
      ∀ row, (f row).pid = row.pid ∧
        ((f row).balance.toNat : ℤ) = ledgerBalance par p.myPID c % 2 ^ 32 := by
  obtain ⟨⟨rows, q⟩, hstatus, h⟩ := bind_ok h
  obtain ⟨hrows, rfl⟩ := modifyRow_ok hnodup hstatus
  have hkeys : rows.map User.pid = usersPID.map User.pid := by
    rw [hrows]
    exact Table.map_key_update _ _ fun _ => rfl
  rw [← hkeys] at hnodup
  obtain ⟨f, hf, hval⟩ := userInterruptHandle_ok hself hnodup h
  refine ⟨f ∘ fun row => { row with status := .dead }, ?_, fun row => hval _⟩
  rw [hf, hrows]
  exact Table.update_update _ _ f (f := fun row : User => { row with status := .dead })
    fun _ => rfl

/-- The handler returns when its sums stay in their types. -/
theorem userInterruptHandle_returns (hnodup : (usersPID.map User.pid).Nodup)
    (hself : NotToSelf p.myPID c) (hmem : p.myPID ∈ usersPID.map User.pid)
    (hlo : 0 ≤ par.soBudgetInit.toNat +
      tally p.myPID c (pruned p.myPID c p.outGoingTransactions))
    (hhi : tally p.myPID c (pruned p.myPID c p.outGoingTransactions) < 2 ^ 63) :
    ∃ usersPID', userInterruptHandle par c.toLedger usersPID p = .ok usersPID' := by
  obtain ⟨⟨rows₁, p₁⟩, hget⟩ := getBalance_returns hself hmem hlo hhi
  have hdone := getBalance_ok hself hnodup hget
  rw [← hdone.keys] at hnodup hmem
  rw [← hdone.myPID] at hmem
  obtain ⟨⟨rows₂, p₂⟩, hmark⟩ := markFinal_returns hmem
  obtain ⟨⟨g, hg, hrows₂⟩, hpid₂, -⟩ := markFinal_ok hnodup hmark
  have hkeys₂ : rows₂.map User.pid = rows₁.map User.pid := by
    rw [hrows₂]
    exact Table.map_key_update _ _ fun row => (hg row).1
  rw [← hkeys₂, ← hpid₂] at hmem
  obtain ⟨⟨rows₃, p₃⟩, hrefund⟩ := modifyRow_returns hmem (refund p₂.outGoingTransactions)
  refine ⟨rows₃, ?_⟩
  unfold userInterruptHandle
  rw [hget]
  simp only [bind, Except.bind, pure, Except.pure, hmark, hrefund]

end User

def rewards (myPID : PidT) (c : Chain) : ℤ :=
  ((c.blocks.filter fun b => b.first.receiver = myPID).map fun b => b.first.amount.toInt).sum

theorem sum_firsts {myPID : PidT} (blocks : List Block) (n : ℕ) :
    ((blocks ++ List.replicate n Block.zero).map fun b =>
      if b.first.receiver = myPID then b.first.amount.toInt else 0).sum =
    ((blocks.filter fun b => b.first.receiver = myPID).map fun b => b.first.amount.toInt).sum := by
  induction blocks with
  | nil =>
    have hzero : Block.zero.first.amount.toInt = 0 := rfl
    simp [hzero]
  | cons b rest ih =>
    rw [List.cons_append, List.map_cons, List.sum_cons, ih]
    by_cases hb : b.first.receiver = myPID
    · simp [hb]
    · simp [hb]

/-- The balance that node_interrupt_handle computes is the sum of the rewards, modulo 2^32.
-/
theorem accurateBalance_modEq (c : Chain) (myPID : PidT) :
    (accurateBalance c.toLedger myPID).toInt ≡ rewards myPID c [ZMOD 2 ^ 32] := by
  have hstep : ∀ (acc : Int32) (b : Block),
      (if b.first.receiver = myPID then acc + b.first.amount else acc).toInt ≡
        acc.toInt + (if b.first.receiver = myPID then b.first.amount.toInt else 0)
          [ZMOD 2 ^ 32] := by
    intro acc b
    by_cases hb : b.first.receiver = myPID
    · simp only [hb, ↓reduceIte]
      exact add_modEq_int _ _
    · simp [hb]
  have hfold := foldl_modEq (n := 2 ^ 32) Int32.toInt
    (fun (acc : Int32) (b : Block) =>
      if b.first.receiver = myPID then acc + b.first.amount else acc)
    (fun b => if b.first.receiver = myPID then b.first.amount.toInt else 0)
    hstep c.toLedger.toList 0
  rw [Int32.toInt_zero, zero_add] at hfold
  rw [rewards, ← sum_firsts c.blocks (soRegistrySize - c.blocks.length)]
  exact hfold

theorem nodeInterruptHandle_ok {nodesPID : List Node} {myPID : PidT} (c : Chain)
    (hmem : myPID ∈ nodesPID.map Node.pid) (hcount : (nodesPID.map Node.pid).count myPID ≤ 1) :
    ∃ f : Node → Node, nodeInterruptHandle c.toLedger nodesPID myPID =
        .ok (Table.update Node.pid nodesPID myPID f) ∧
      ∀ row, (f row).pid = row.pid ∧
        (f row).balance = unsignedLongOfInt (accurateBalance c.toLedger myPID) := by
  obtain ⟨i, hi⟩ := Table.exists_indexOf Node.pid hmem
  refine ⟨fun row =>
    { row with balance := unsignedLongOfInt (accurateBalance c.toLedger myPID) }, ?_,
    fun row => ⟨rfl, rfl⟩⟩
  rw [nodeInterruptHandle, Blocks.getPidNodeIndex, hi]
  simp only [Table.modify_indexOf Node.pid hcount hi]

end SimulazioneTransazioni.Interrupts

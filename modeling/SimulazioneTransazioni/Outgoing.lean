import SimulazioneTransazioni.Balance

/-!
The outgoing list of a user against the ledger. The user's history lists the
transactions it has sent, and a chain records some of them, each at most once.
As long as the outgoing list holds the sent transactions that an earlier chain
did not record, get_balance leaves those that the present chain does not record
and computes the balance as if every sent transaction were subtracted once.
-/
namespace SimulazioneTransazioni.Outgoing

open Users Balance LkList MachineInt

/-- What a user has sent: transaction_init makes every one of them. -/
structure History (myPID : PidT) (sent : List Transaction) : Prop where
  distinct : Distinct sent
  sender : ∀ t ∈ sent, t.sender = myPID
  receiver : ∀ t ∈ sent, t.receiver ≠ myPID
  status : ∀ t ∈ sent, t.status = .pending

/-- The user's entries in the ledger are among those it sent, each once. -/
structure Records (myPID : PidT) (sent : List Transaction) (c : Chain) : Prop where
  owned : ∀ t ∈ own myPID c.entries, t.asSent ∈ sent
  once : ((own myPID c.entries).map Transaction.asSent).Nodup

instance (myPID : PidT) (sent : List Transaction) (c : Chain) :
    Decidable (Records myPID sent c) :=
  decidable_of_iff ((∀ t ∈ own myPID c.entries, t.asSent ∈ sent) ∧
      ((own myPID c.entries).map Transaction.asSent).Nodup)
    ⟨fun h => ⟨h.1, h.2⟩, fun h => ⟨h.owned, h.once⟩⟩

def Sourced (myPID : PidT) (sent : List Transaction) (c : Chain) : Prop :=
  ∀ t ∈ (own myPID c.entries).map Transaction.asSent,
    ((own myPID c.entries).map Transaction.asSent).count t ≤ sent.count t

instance (myPID : PidT) (sent : List Transaction) (c : Chain) :
    Decidable (Sourced myPID sent c) := inferInstanceAs (Decidable (∀ _ ∈ _, _))

def Recorded (c : Chain) (t : Transaction) : Prop := t ∈ c.entries.map Transaction.asSent

instance (c : Chain) (t : Transaction) : Decidable (Recorded c t) :=
  inferInstanceAs (Decidable (_ ∈ _))

/-- The sent transactions that are not in the ledger, in sending order. -/
def pendingOf (c : Chain) (sent : List Transaction) : List Transaction :=
  sent.filter fun t => ¬ Recorded c t

namespace History

variable {myPID : PidT} {sent : List Transaction}

theorem empty : History myPID [] :=
  ⟨List.Pairwise.nil, by simp, by simp, by simp⟩

theorem push (h : History myPID sent) {t : Transaction} (hsender : t.sender = myPID)
    (hreceiver : t.receiver ≠ myPID) (hstatus : t.status = .pending)
    (hfresh : ∀ t' ∈ sent, compareTransactions t' t = false) :
    History myPID (push sent t) := by
  have hmem : ∀ P : Transaction → Prop, (∀ t' ∈ sent, P t') → P t →
      ∀ t' ∈ SimulazioneTransazioni.push sent t, P t' := by
    intro P hold hnew t' ht'
    rcases List.mem_append.mp ht' with hin | hin
    · exact hold t' hin
    · rwa [List.mem_singleton.mp hin]
  refine ⟨?_, hmem _ h.sender hsender, hmem _ h.receiver hreceiver,
    hmem _ h.status hstatus⟩
  refine List.pairwise_append.mpr ⟨h.distinct, List.pairwise_singleton _ _, ?_⟩
  intro t' ht' t'' ht''
  rw [List.mem_singleton.mp ht'']
  exact hfresh t' ht'

end History

section Scan

variable {myPID : PidT} {sent : List Transaction} {c₀ c : Chain}

theorem own_sender {l : List Transaction} {t : Transaction} :
    t ∈ own myPID l ↔ t ∈ l ∧ t.sender = myPID := by
  simp [own]

theorem Records.notToSelf (hrec : Records myPID sent c) (hist : History myPID sent) :
    NotToSelf myPID c :=
  fun t ht => hist.receiver t.asSent (hrec.owned t ht)

/-- A user who sent nothing twice finds nothing twice. -/
theorem Sourced.records (h : Sourced myPID sent c) (hist : History myPID sent) :
    Records myPID sent c := by
  constructor
  · intro t ht
    have hin := List.mem_map_of_mem (f := Transaction.asSent) ht
    have hpos := List.count_pos_iff.mpr hin
    have hle := h t.asSent hin
    exact List.count_pos_iff.mp (by omega)
  · rw [List.nodup_iff_count_le_one]
    intro t
    by_cases ht : t ∈ (own myPID c.entries).map Transaction.asSent
    · have hone := List.nodup_iff_count_le_one.mp hist.distinct.nodup t
      exact (h t ht).trans hone
    · rw [List.count_eq_zero.mpr ht]
      exact Nat.zero_le 1

/-- A sent transaction is in the ledger when an entry of the user has its key. -/
theorem recorded_iff (hrec : Records myPID sent c) (hist : History myPID sent)
    {t : Transaction} (ht : t ∈ sent) :
    Recorded c t ↔ ∃ e ∈ own myPID c.entries, compareTransactions t e = true := by
  constructor
  · intro hin
    obtain ⟨e, he, heq⟩ := List.mem_map.mp hin
    have hsender : e.sender = myPID := by
      rw [← Transaction.asSent_sender, heq]
      exact hist.sender t ht
    refine ⟨e, own_sender.mpr ⟨he, hsender⟩, ?_⟩
    rw [← compare_asSent, heq]
    exact (compare_iff t t).mpr ⟨rfl, rfl, rfl⟩
  · rintro ⟨e, he, hc⟩
    rw [← compare_asSent] at hc
    have heq := hist.distinct.eq_of_compare ht (hrec.owned e he) hc
    exact List.mem_map.mpr ⟨e, (own_sender.mp he).1, heq.symm⟩

/-- The scan leaves in the list what the present ledger does not hold. -/
theorem pruned_pendingOf (hist : History myPID sent) (hrec : Records myPID sent c)
    (hgrow : ∀ t, Recorded c₀ t → Recorded c t) :
    pruned myPID c (pendingOf c₀ sent) = pendingOf c sent := by
  have hfilter := foldl_findAndRemove (hist.distinct.filter fun t => ¬ Recorded c₀ t)
    (own myPID c.entries)
  rw [pruned, pendingOf, hfilter, List.filter_filter, pendingOf]
  refine List.filter_congr fun t ht => ?_
  have hiff := recorded_iff hrec hist ht
  rw [Bool.eq_iff_iff, Bool.and_eq_true, List.all_eq_true]
  constructor
  · rintro ⟨hall, -⟩
    rw [decide_eq_true_iff, hiff]
    rintro ⟨e, he, hc⟩
    have hnot := hall e he
    rw [hc] at hnot
    contradiction
  · intro hnot
    have hnot' := of_decide_eq_true hnot
    refine ⟨fun e he => ?_, decide_eq_true fun h₀ => hnot' (hgrow t h₀)⟩
    by_contra hc
    exact hnot' (hiff.mpr ⟨e, he, by simpa using hc⟩)

theorem paid_perm {l₁ l₂ : List Transaction} (h : l₁.Perm l₂) : paid l₁ = paid l₂ :=
  (h.map _).sum_eq

/-- What the ledger holds of the user and what is pending make up what it sent. -/
theorem paid_own_add_pendingOf (hist : History myPID sent) (hrec : Records myPID sent c) :
    paid (own myPID c.entries) + paid (pendingOf c sent) = paid sent := by
  have hsame : paid (own myPID c.entries) =
      paid ((own myPID c.entries).map Transaction.asSent) := by
    rw [paid, paid, List.map_map]
    rfl
  have hperm : ((own myPID c.entries).map Transaction.asSent).Perm
      (sent.filter fun t => Recorded c t) := by
    refine (List.perm_ext_iff_of_nodup hrec.once (hist.distinct.filter _).nodup).mpr ?_
    intro t
    rw [List.mem_filter, decide_eq_true_iff]
    constructor
    · intro hin
      obtain ⟨e, he, rfl⟩ := List.mem_map.mp hin
      exact ⟨hrec.owned e he, List.mem_map_of_mem (own_sender.mp he).1⟩
    · rintro ⟨ht, hin⟩
      obtain ⟨e, he, rfl⟩ := List.mem_map.mp hin
      have hsender := hist.sender e.asSent ht
      exact List.mem_map_of_mem (own_sender.mpr ⟨he, hsender⟩)
  have hsplit : (sent.filter (fun t => Recorded c t) ++ pendingOf c sent).Perm sent := by
    have hnot := List.filter_append_perm (fun t => decide (Recorded c t)) sent
    simpa [pendingOf] using hnot
  rw [hsame, paid_perm hperm, ← paid_perm hsplit, paid, paid, paid, List.map_append,
    List.sum_append]

theorem tally_pendingOf (hist : History myPID sent) (hrec : Records myPID sent c) :
    tally myPID c (pendingOf c sent) = received myPID c.entries - paid sent := by
  have hsum := paid_own_add_pendingOf hist hrec
  rw [tally]
  omega

end Scan

def available (par : Parameters) (myPID : PidT) (c : Chain) (sent : List Transaction) : ℤ :=
  par.soBudgetInit.toNat + received myPID c.entries - spent sent

/-- A transaction that no chain of the user's records holds yet is pending. -/
theorem pendingOf_push {c : Chain} {myPID : PidT} {sent : List Transaction} {t : Transaction}
    (hrec : Records myPID sent c) (hsender : t.sender = myPID) (ht : t ∉ sent) :
    pendingOf c (push sent t) = push (pendingOf c sent) t := by
  have hnot : ¬ Recorded c t := by
    intro hin
    obtain ⟨e, he, heq⟩ := List.mem_map.mp hin
    have hown : e ∈ own myPID c.entries := own_sender.mpr ⟨he, by
      rw [← Transaction.asSent_sender, heq, hsender]⟩
    have hmem := hrec.owned e hown
    rw [heq] at hmem
    exact ht hmem
  simp [pendingOf, push, List.filter_append, hnot]

theorem Records.push {c : Chain} {myPID : PidT} {sent : List Transaction} (t : Transaction)
    (hrec : Records myPID sent c) : Records myPID (SimulazioneTransazioni.push sent t) c :=
  ⟨fun e he => List.mem_append_left _ (hrec.owned e he), hrec.once⟩

theorem available_push (par : Parameters) (myPID : PidT) (c : Chain) (sent : List Transaction)
    (t : Transaction) :
    available par myPID c (push sent t) = available par myPID c sent - cost t := by
  rw [available, available, push, spent_append, sub_add_eq_sub_sub]
  simp [spent]

section GetBalance

variable {par : Parameters} {c₀ c : Chain} {sent : List Transaction}
  {usersPID usersPID' : List User} {p p' : UserProc}

/-- get_balance leaves the sent transactions that the ledger lacks, and the balance that is
available modulo 2^32. -/
theorem getBalance_tracked (hist : History p.myPID sent) (hrec : Records p.myPID sent c)
    (hgrow : ∀ t, Recorded c₀ t → Recorded c t)
    (hout : p.outGoingTransactions = pendingOf c₀ sent)
    (hnodup : (usersPID.map User.pid).Nodup)
    (h : getBalance par c.toLedger usersPID p = .ok (usersPID', p')) :
    p'.myPID = p.myPID ∧ p'.transMsg = p.transMsg ∧
      p'.outGoingTransactions = pendingOf c sent ∧
      (p'.currBalance.toNat : ℤ) = available par p.myPID c sent % 2 ^ 32 ∧
      usersPID' = Table.update User.pid usersPID p.myPID fun row =>
        { row with balance := p'.currBalance } := by
  have hdone := getBalance_ok (hrec.notToSelf hist) hnodup h
  have hpruned := pruned_pendingOf hist hrec hgrow
  refine ⟨hdone.myPID, hdone.transMsg, ?_, ?_, hdone.rows⟩
  · rw [hdone.outgoing, hout, hpruned]
  · rw [hdone.balance, hout, hpruned, tally_pendingOf hist hrec]
    have hmod := ((paid_modEq_spent sent).neg.add_left
      (par.soBudgetInit.toNat + received p.myPID c.entries))
    calc _ = (par.soBudgetInit.toNat + received p.myPID c.entries + -paid sent) % 2 ^ 32 := by
          congr 1
          omega
      _ = (par.soBudgetInit.toNat + received p.myPID c.entries + -spent sent) % 2 ^ 32 := hmod
      _ = available par p.myPID c sent % 2 ^ 32 := by rw [available, sub_eq_add_neg]

theorem budget_add_tally (par : Parameters) (hist : History p.myPID sent)
    (hrec : Records p.myPID sent c)
    (hgrow : ∀ t, Recorded c₀ t → Recorded c t)
    (hout : p.outGoingTransactions = pendingOf c₀ sent) (hfits : ∀ t ∈ sent, Fits t) :
    par.soBudgetInit.toNat + tally p.myPID c (pruned p.myPID c p.outGoingTransactions) =
      available par p.myPID c sent := by
  rw [hout, pruned_pendingOf hist hrec hgrow, tally_pendingOf hist hrec, paid_eq_spent hfits,
    available, add_sub_assoc]

/-- get_balance returns as long as the user has not spent more than it had. -/
theorem getBalance_tracked_returns (hist : History p.myPID sent)
    (hrec : Records p.myPID sent c) (hgrow : ∀ t, Recorded c₀ t → Recorded c t)
    (hout : p.outGoingTransactions = pendingOf c₀ sent)
    (hmem : p.myPID ∈ usersPID.map User.pid) (hfits : ∀ t ∈ sent, Fits t)
    (hlo : 0 ≤ available par p.myPID c sent) (hhi : available par p.myPID c sent < 2 ^ 63) :
    ∃ r, getBalance par c.toLedger usersPID p = .ok r := by
  have htally := budget_add_tally par hist hrec hgrow hout hfits
  exact getBalance_returns (hrec.notToSelf hist) hmem (by omega) (by omega)

end GetBalance
end SimulazioneTransazioni.Outgoing

import SimulazioneTransazioni.NetworkWiring
import SimulazioneTransazioni.Library.Machine

/-!
The system as a custody of tokens. Every step of the system is a step of the
custody in which the users' transactions are the tokens, all places but the
master's queue are free, and the master's queue is where tokens sink. It follows
that a transaction is in at most one place at any time, and there once.
-/
namespace SimulazioneTransazioni.Confirmation

open Nodes Users Master Queues LedgerWriters Network NetworkTokens NetworkWiring

def custody (master : PidT) (s : World) : Custody.State Transaction where
  issued := s.sent
  free := account (fun key => key ≠ master) s
  sunk := held (fun key => key = master) s.queues

def total (s : World) : Multiset Transaction := account (fun _ => True) s

theorem held_split (master : PidT) (queues : List Queue) :
    held (fun key => key ≠ master) queues + held (fun key => key = master) queues =
      held (fun _ => True) queues := by
  induction queues with
  | nil => rfl
  | cons q rest ih =>
    have hq : (if q.key ≠ master then queued q else 0) + (if q.key = master then queued q else 0) =
        queued q := by
      by_cases hkey : q.key = master
      · rw [if_neg (not_not.mpr hkey), if_pos hkey, zero_add]
      · rw [if_pos hkey, if_neg hkey, add_zero]
    have hall : held (fun _ => True) (q :: rest) = queued q + held (fun _ => True) rest := by
      simp only [held, List.map_cons, List.sum_cons, if_true]
    rw [hall, ← ih, ← hq, held, held, held, held, List.map_cons, List.map_cons, List.sum_cons,
      List.sum_cons]
    exact add_add_add_comm _ _ _ _

theorem custody_held (master : PidT) (s : World) : (custody master s).held = total s := by
  have hsplit := held_split master s.queues
  show account (fun key => key ≠ master) s + held (fun key => key = master) s.queues = total s
  rw [total, account, account, ← hsplit]
  abel

variable {par : Parameters} {s s' : World}

theorem userStep_custody {u : ℕ} {a : Order} (h : s.userStep par u a = some s') (master : PidT) :
    Custody.Step (custody master s) (custody master s') := by
  obtain ⟨p, p', result, -, rfl, -, -, hstatus, -, hfresh⟩ := userStep_cases h
  cases result with
  | failed e => exact .settle rfl le_rfl le_rfl
  | sent =>
    have htoken : token p'.transMsg = p'.transMsg.userTrans := by
      rw [token, Transaction.asSent, ← hstatus]
    refine .issue p'.transMsg.userTrans hfresh rfl ?_ ?_
    · exact sentBy_account u htoken
    · rw [custody_held, custody_held]
      exact sentBy_account u htoken

/-- Every step of the system is a step of the custody. -/
theorem next_custody (hs : Wired s) {l : Label} (hC : Reported s l)
    (h : World.next par s l = some s') :
    Custody.Step (custody s.master s) (custody s.master s') := by
  have hsettle : ∀ hmono : (∀ (P : PidT → Prop) [DecidablePred P],
      (∀ c ∈ s.nodes, c.pc = .fetch → P c.proc.queueID) → account P s' ≤ account P s),
      s'.sent = s.sent → Custody.Step (custody s.master s) (custody s.master s') := by
    intro hmono hsent
    refine .settle hsent (hmono _ ?_) ?_
    · intro c hc hpc
      have hwired := hs.nodes c hc
      rw [hwired.queue (by simp [hpc, Attached])]
      exact hwired.notMaster
    · rw [custody_held, custody_held]
      exact hmono _ fun _ _ _ => trivial
  cases l with
  | user u a => exact userStep_custody h s.master
  | node i o =>
    refine hsettle (fun P _ hP => ?_) (nodeStep_same h).2
    exact nodeStep_account (fun c hc hpc => hP c (List.mem_of_getElem? hc) hpc) hC.1 h
  | child c reading =>
    refine hsettle (fun P _ _ => childStep_account hs.children h) ?_
    obtain ⟨w, -, hrest⟩ := Option.bind_eq_some_iff.mp h
    obtain ⟨r, -, rfl⟩ := Option.map_eq_some_iff.mp hrest
    rfl
  | listener o => exact hsettle (fun P _ _ => listenerStep_account h) (listenerStep_cases h).1.sent

theorem next_same {l : Label} (h : World.next par s l = some s') : Same s s' := by
  cases l with
  | user u a =>
    obtain ⟨p, p', result, -, rfl, -⟩ := userStep_cases h
    cases result <;> exact ⟨rfl, rfl, rfl⟩
  | node i o => exact (nodeStep_same h).1
  | child c reading =>
    obtain ⟨w, -, hrest⟩ := Option.bind_eq_some_iff.mp h
    obtain ⟨r, -, rfl⟩ := Option.map_eq_some_iff.mp hrest
    exact ⟨rfl, rfl, rfl⟩
  | listener o => exact (listenerStep_cases h).1.same

/-- At the start nothing is held. -/
theorem initial_empty (h : Initial par s) (P : PidT → Prop) [DecidablePred P] :
    account P s = 0 := by
  have hqueues : held P s.queues = 0 := by
    refine List.sum_eq_zero fun x hx => ?_
    obtain ⟨q, hq, rfl⟩ := List.mem_map.mp hx
    have hnone : queued q = 0 := by rw [queued, h.trans q hq]; rfl
    rw [hnone, ite_self]
  have hnodes : (s.nodes.map holding).sum = 0 := by
    refine List.sum_eq_zero fun x hx => ?_
    obtain ⟨c, hc, rfl⟩ := List.mem_map.mp hx
    rw [(h.nodes c hc).1]
    rfl
  have hledger : (s.ledger.toList.map recorded).sum = 0 := by
    refine List.sum_eq_zero fun x hx => ?_
    obtain ⟨b, hb, rfl⟩ := List.mem_map.mp hx
    have hzero : b ∈ List.replicate soRegistrySize Block.zero := by
      rw [h.ledger] at hb
      exact hb
    rw [List.eq_of_mem_replicate hzero]
    decide
  rw [account, hqueues, hnodes, hledger, h.children]
  rfl

theorem reach_sound (h : (machine par).Reach Reported s) :
    Wired s ∧ Custody.Sound (custody s.master s) := by
  refine h.invariant (I := fun s => Wired s ∧ Custody.Sound (custody s.master s)) ?_ ?_
  · intro s hs
    refine ⟨wired_initial hs, ?_, ?_⟩
    · show s.sent.Nodup
      rw [hs.sent]
      exact List.nodup_nil
    · rw [custody_held, total, initial_empty hs]
      exact Multiset.zero_le _
  · intro s l s' hs hC hn
    refine ⟨next_wired hs.1 hn, ?_⟩
    rw [(next_same hn).master]
    exact hs.2.step (next_custody hs.1 hC hn)

def slot (b : Block) : Multiset Transaction := sentOf (b.entries : List Transaction)

def places (s : World) : List (Multiset Transaction) :=
  s.queues.map queued ++ s.nodes.map holding ++ s.children.map processing ++
    s.ledger.toList.map slot

/-- The zeroed entries do not count. -/
theorem count_slots {t : Transaction} (ht : t.sender ≠ 0) (blocks : List Block) :
    (blocks.map slot).sum.count t = (blocks.map recorded).sum.count t := by
  induction blocks with
  | nil => rfl
  | cons b rest ih =>
    have hone : (recorded b).count t = (slot b).count t := Multiset.count_filter_of_pos ht
    rw [List.map_cons, List.map_cons, List.sum_cons, List.sum_cons, Multiset.count_add,
      Multiset.count_add, ih, hone]

theorem count_places {t : Transaction} (ht : t.sender ≠ 0) (s : World) :
    (places s).sum.count t = (total s).count t := by
  have hqueues : held (fun _ => True) s.queues = (s.queues.map queued).sum := by
    simp only [held, if_true]
  rw [places, total, account, hqueues, List.sum_append, List.sum_append, List.sum_append,
    Multiset.count_add, Multiset.count_add _ _ (List.sum (List.map recorded _)),
    count_slots ht]

theorem countP_entries (t : Transaction) (blocks : List Block) :
    (blocks.flatMap Block.entries).countP (fun e => e.asSent = t) =
      (blocks.map slot).sum.count t := by
  induction blocks with
  | nil => rfl
  | cons b rest ih =>
    have hone : b.entries.countP (fun e => e.asSent = t) = (slot b).count t := by
      rw [slot, sentOf, Multiset.map_coe, Multiset.coe_count, List.count, List.countP_map]
      rfl
    rw [List.flatMap_cons, List.countP_append, ih, hone, List.map_cons, List.sum_cons,
      Multiset.count_add]

/-- Every sent transaction is in at most one place, there once, and so at most
once in the ledger. -/
theorem confirmed_once (par : Parameters) {s : World} (h : (machine par).Reach Reported s)
    {t : Transaction} (ht : t ∈ s.sent) :
    Custody.Once t (places s) ∧
      (s.ledger.toList.flatMap Block.entries).countP (fun e => e.asSent = t) ≤ 1 := by
  obtain ⟨hwired, hsound⟩ := reach_sound h
  have hone : (places s).sum.count t ≤ 1 := by
    rw [count_places (hwired.senders t ht), ← custody_held s.master]
    exact hsound.count_held_le t
  refine ⟨Custody.once_of_count_sum hone, ?_⟩
  rw [countP_entries]
  rw [places, List.sum_append, Multiset.count_add] at hone
  omega

section Example

def Quiet : Label → Prop
  | .user _ a => a.failure = none
  | .node _ o => o.rcvFailure = none ∧ o.friendFailure = none ∧ o.sndFailure = none
  | .child _ _ => True
  | .listener o => o.rcvFailure = none ∧ o.sndFailure = none

theorem reported_of_quiet {l : Label} (h : Quiet l) (s : World) : Reported s l := by
  have hnone : ∀ {failure : Option Errno} {errors : List Errno}, failure = none →
      ∀ e, failure = some e → e ∈ errors := by
    intro failure errors hfailure e he
    rw [hfailure] at he
    contradiction
  cases l with
  | user u a => exact hnone h
  | node i o => exact ⟨hnone h.1, hnone h.2.1, hnone h.2.2⟩
  | child c reading => trivial
  | listener o => exact ⟨hnone h.1, hnone h.2⟩

instance : (l : Label) → Decidable (Quiet l)
  | .user _ _ => inferInstanceAs (Decidable (_ = _))
  | .node _ _ => inferInstanceAs (Decidable (_ ∧ _))
  | .child _ _ => inferInstanceAs (Decidable True)
  | .listener _ => inferInstanceAs (Decidable (_ ∧ _))

def small : Parameters :=
  { assignDefaults with soUserNum := 2, soNodesNum := 2, soFriendsNum := 1, soHops := 0 }

def launch : World where
  master := 30
  listenerPID := 31
  adopter := 1
  queues := [create 30, (create 40).withFriends [41], (create 41).withFriends [40]]
  usersPID := [⟨7, 1000, .alive⟩, ⟨8, 1000, .alive⟩]
  nodesPID := [⟨40, 0, 0, .available⟩, ⟨41, 0, 0, .available⟩, ⟨0, 0, 0, .available⟩,
    ⟨0, 0, 0, .available⟩]
  ledger := Ledger.zero
  users := [⟨7, 0, .zero, 1000, [], ⟨0, .zero⟩⟩]
  nodes := [NodeCell.start 40 30 .attach, NodeCell.start 41 30 .attach]
  children := []
  listener := ⟨.zero, 2, ⟨0, .zero⟩, 0, .receive⟩
  sent := []

theorem launch_initial : Initial small launch where
  keys := rfl
  fresh := by
    intro key hkey
    have hcases : key = 30 ∨ key = 40 ∨ key = 41 := by
      simpa [launch, create, Queue.withFriends] using hkey
    rcases hcases with rfl | rfl | rfl <;> decide
  nodes := by
    intro c hc
    rcases List.mem_cons.mp hc with rfl | hc
    · exact ⟨rfl, by decide⟩
    · rw [List.mem_singleton.mp hc]
      exact ⟨rfl, by decide⟩
  users := by decide
  parent := by decide
  trans := by decide
  ledger := rfl
  children := rfl
  listener := ⟨rfl, rfl⟩
  sent := rfl

def pay (n : ℕ) : Label := .user 0 ⟨[1], [0], ⟨1, Int64.ofNat n⟩, 99, 1, none⟩

def act : Label := .node 0 ⟨none, none, none, 0, .parent 50⟩

def boot : List Label := List.replicate 6 act

theorem received_run : ∃ s t, (machine small).run launch (boot ++ [pay 1, act]) = some s ∧
    s.sent = [t] ∧ (s.nodes.map holding)[0]? = some {t} :=
  ⟨_, _, rfl, rfl, rfl⟩

/-- A transaction that node 40 has fetched. -/
theorem confirmed_once_received : ∃ s t, (machine small).Reach Reported s ∧ t ∈ s.sent ∧
    (s.nodes.map holding)[0]? = some {t} ∧ Custody.Once t (places s) := by
  obtain ⟨s, t, hrun, hsent, hpool⟩ := received_run
  have hs : (machine small).Reach Reported s := by
    refine Machine.reach_of_run _ launch_initial (fun s l hl => ?_) hrun
    exact reported_of_quiet ((by decide : ∀ l ∈ boot ++ [pay 1, act], Quiet l) l hl) s
  have ht : t ∈ s.sent := by
    rw [hsent]
    exact List.mem_singleton_self t
  exact ⟨s, t, hs, ht, hpool, (confirmed_once small hs ht).1⟩

end Example
end SimulazioneTransazioni.Confirmation

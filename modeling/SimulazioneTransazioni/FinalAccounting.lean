import SimulazioneTransazioni.Interrupts
import Mathlib.Tactic.Ring

/-!
The accounting at shutdown. Every user and every node runs its SIGINT handler
once against one ledger, in any order. Each handler writes one row only and
what it writes depends on the ledger alone, so the order does not matter. The
payments cancel in the sum over the users, up to the rewards, which are what
the first entries pay to the nodes: the total is the initial one.
-/
namespace SimulazioneTransazioni.FinalAccounting

open Users Balance Nodes Blocks Interrupts LkList MachineInt

inductive Party
  | user (p : UserProc)
  | node (myPID : PidT)

structure Tables where
  usersPID : List User
  nodesPID : List Node

def interrupt (par : Parameters) (ledger : Ledger) (s : Tables) : Party → Option Tables
  | .user p => (userInterruptHandle par ledger s.usersPID p).toOption.map fun usersPID =>
      { s with usersPID := usersPID }
  | .node myPID => (nodeInterruptHandle ledger s.nodesPID myPID).toOption.map fun nodesPID =>
      { s with nodesPID := nodesPID }

def shutdown (par : Parameters) (ledger : Ledger) : Tables → List Party → Option Tables
  | s, [] => some s
  | s, party :: rest => (interrupt par ledger s party).bind fun s => shutdown par ledger s rest

def totalUsers (s : Tables) : ℤ := (s.usersPID.map fun row => (row.balance.toNat : ℤ)).sum

def totalNodes (s : Tables) : ℤ := (s.nodesPID.map fun row => (row.balance.toNat : ℤ)).sum

/-- A block of a node of the table as new_block builds it, whose entries are
payments between two different users of the table. -/
structure WellBuilt (users nodes : List PidT) (b : Block) : Prop where
  sender : b.first.sender = self
  receiver : b.first.receiver ∈ nodes
  amount : b.first.amount = sumOfRewards b.entries
  payer : ∀ t ∈ b.entries, t.sender ∈ users
  payee : ∀ t ∈ b.entries, t.receiver ∈ users
  differ : ∀ t ∈ b.entries, t.sender ≠ t.receiver
  amounts : ∀ t ∈ b.entries, 0 ≤ t.amount.toInt
  rewards : ∀ t ∈ b.entries, 0 ≤ t.reward.toInt

/-- The processes and the tables when the handlers begin; the rows of nodes
that were never created are zero. -/
structure Processes (par : Parameters) (users : List UserProc) (nodes : List PidT)
    (s : Tables) : Prop where
  userRows : s.usersPID.map User.pid = users.map UserProc.myPID
  userNum : s.usersPID.length = par.soUserNum.toNat
  nodeRows : ∃ n, s.nodesPID.map Node.pid = nodes ++ List.replicate n 0
  unused : ∀ row ∈ s.nodesPID, row.pid = 0 → row.balance = 0
  distinct : (users.map UserProc.myPID ++ nodes).Nodup
  positive : ∀ pid ∈ users.map UserProc.myPID ++ nodes, 0 < pid

structure Affordable (par : Parameters) (c : Chain) (p : UserProc) : Prop where
  amounts : ∀ t ∈ p.outGoingTransactions, 0 ≤ t.amount.toInt
  rewards : ∀ t ∈ p.outGoingTransactions, 0 ≤ t.reward.toInt
  total : spent p.outGoingTransactions ≤ ledgerBalance par p.myPID c

structure NoOverflow (par : Parameters) (users : List UserProc) (nodes : List PidT)
    (c : Chain) : Prop where
  balance : ∀ p ∈ users, ledgerBalance par p.myPID c < 2 ^ 32
  entry : ∀ t ∈ c.entries, Fits t
  outgoing : ∀ p ∈ users, ∀ t ∈ p.outGoingTransactions, Fits t
  block : ∀ b ∈ c.blocks, (b.entries.map fun t : Transaction => t.reward.toInt).sum < 2 ^ 31
  node : ∀ pid ∈ nodes, rewards pid c < 2 ^ 31

structure Setting (par : Parameters) (users : List UserProc) (nodes : List PidT) (c : Chain)
    (s : Tables) : Prop where
  processes : Processes par users nodes s
  blocks : ∀ b ∈ c.blocks, WellBuilt (users.map UserProc.myPID) nodes b
  affordable : ∀ p ∈ users, Affordable par c p
  range : NoOverflow par users nodes c

theorem findAndRemove_sublist (l : List Transaction) (t : Transaction) :
    (findAndRemove l t).Sublist l := by
  induction l with
  | nil => exact List.Sublist.slnil
  | cons curr rest ih =>
    rw [findAndRemove]
    by_cases hc : compareTransactions curr t = true
    · rw [if_pos hc]
      exact List.sublist_cons_self curr rest
    · rw [if_neg hc]
      exact ih.cons_cons curr

theorem pruned_sublist (myPID : PidT) (c : Chain) (out : List Transaction) :
    (pruned myPID c out).Sublist out := by
  unfold pruned
  induction own myPID c.entries generalizing out with
  | nil => exact List.Sublist.refl out
  | cons t rest ih => exact (ih _).trans (findAndRemove_sublist out t)

variable {par : Parameters} {users : List UserProc} {nodes : List PidT} {c : Chain}
  {s s₀ : Tables}

namespace Setting

theorem mem_entries {t : Transaction} (ht : t ∈ c.entries) :
    ∃ b ∈ c.blocks, t ∈ b.entries := by
  simpa [Chain.entries] using ht

theorem notToSelf (h : Setting par users nodes c s) (myPID : PidT) : NotToSelf myPID c := by
  intro t ht heq
  have hown := List.mem_filter.mp ht
  obtain ⟨b, hb, htb⟩ := mem_entries hown.1
  have hsender : t.sender = myPID := by simpa using hown.2
  exact (h.blocks b hb).differ t htb (hsender.trans heq.symm)

theorem cost_nonneg (h : Setting par users nodes c s) {p : UserProc} (hp : p ∈ users) :
    ∀ t ∈ p.outGoingTransactions, 0 ≤ cost t := by
  intro t ht
  have hamount := (h.affordable p hp).amounts t ht
  have hreward := (h.affordable p hp).rewards t ht
  rw [cost]
  omega

theorem balance_nonneg (h : Setting par users nodes c s) {p : UserProc} (hp : p ∈ users) :
    0 ≤ ledgerBalance par p.myPID c :=
  (spent_nonneg (h.cost_nonneg hp)).trans (h.affordable p hp).total

/-- The balance that get_balance computes is not negative. -/
theorem returns (h : Setting par users nodes c s) {p : UserProc} (hp : p ∈ users) :
    0 ≤ par.soBudgetInit.toNat + tally p.myPID c (pruned p.myPID c p.outGoingTransactions) ∧
      tally p.myPID c (pruned p.myPID c p.outGoingTransactions) < 2 ^ 63 := by
  have hsub := pruned_sublist p.myPID c p.outGoingTransactions
  have hcost := h.cost_nonneg hp
  have hle : spent (pruned p.myPID c p.outGoingTransactions) ≤ spent p.outGoingTransactions := by
    refine (hsub.map cost).sum_le_sum fun x hx => ?_
    obtain ⟨t, ht, rfl⟩ := List.mem_map.mp hx
    exact hcost t ht
  have hpos : 0 ≤ spent (pruned p.myPID c p.outGoingTransactions) :=
    spent_nonneg fun t ht => hcost t (hsub.subset ht)
  have hpaid : paid (pruned p.myPID c p.outGoingTransactions) =
      spent (pruned p.myPID c p.outGoingTransactions) :=
    paid_eq_spent fun t ht => h.range.outgoing p hp t (hsub.subset ht)
  have hown : paid (own p.myPID c.entries) = spent (own p.myPID c.entries) :=
    paid_eq_spent fun t ht => h.range.entry t (List.mem_filter.mp ht).1
  have htotal := (h.affordable p hp).total
  have hbalance := h.range.balance p hp
  rw [ledgerBalance] at htotal hbalance
  rw [tally, hpaid, hown]
  omega

theorem block_amount (h : Setting par users nodes c s) {b : Block} (hb : b ∈ c.blocks) :
    b.first.amount.toInt = (b.entries.map fun t : Transaction => t.reward.toInt).sum ∧
      0 ≤ b.first.amount.toInt := by
  have hpos : 0 ≤ (b.entries.map fun t : Transaction => t.reward.toInt).sum := by
    refine List.sum_nonneg fun x hx => ?_
    obtain ⟨t, ht, rfl⟩ := List.mem_map.mp hx
    exact (h.blocks b hb).rewards t ht
  have hlt := h.range.block b hb
  have hsum := sumOfRewards_toInt b.entries
  rw [Int.bmod_eq_of_le (by omega) (by omega)] at hsum
  rw [(h.blocks b hb).amount, hsum]
  exact ⟨rfl, hpos⟩

theorem rewards_nonneg (h : Setting par users nodes c s) (pid : PidT) : 0 ≤ rewards pid c := by
  refine List.sum_nonneg fun x hx => ?_
  obtain ⟨b, hb, rfl⟩ := List.mem_map.mp hx
  exact (h.block_amount (List.mem_filter.mp hb).1).2

theorem node_balance (h : Setting par users nodes c s) {pid : PidT} (hpid : pid ∈ nodes) :
    ((unsignedLongOfInt (accurateBalance c.toLedger pid)).toNat : ℤ) = rewards pid c := by
  have hmod := accurateBalance_modEq c pid
  have hlo := (accurateBalance c.toLedger pid).le_toInt
  have hhi := (accurateBalance c.toLedger pid).toInt_lt
  have hpos := h.rewards_nonneg pid
  have hlt := h.range.node pid hpid
  have heq := eq_of_modEq_of_range hmod hlo (by omega) (by omega) (by omega)
  rw [toNat_unsignedLongOfInt _ (by omega), heq]

theorem nodes_count (h : Setting par users nodes c s) {pid : PidT} (hpid : pid ∈ nodes) :
    (s.nodesPID.map Node.pid).count pid ≤ 1 := by
  obtain ⟨n, hrows⟩ := h.processes.nodeRows
  have hne : pid ≠ 0 := by
    have hpos := h.processes.positive pid (List.mem_append_right _ hpid)
    intro hz
    rw [hz] at hpos
    exact absurd hpos (by decide)
  have hnodup := (List.nodup_append.mp h.processes.distinct).2.1
  have hone := List.nodup_iff_count_le_one.mp hnodup pid
  rw [hrows, List.count_append, List.count_replicate]
  simpa [hne.symm] using hone

theorem users_nodup (h : Setting par users nodes c s) : (s.usersPID.map User.pid).Nodup := by
  rw [h.processes.userRows]
  exact (List.nodup_append.mp h.processes.distinct).1

end Setting

structure Progress (par : Parameters) (c : Chain) (s₀ : Tables) (done : List Party)
    (s : Tables) : Prop where
  userKeys : s.usersPID.map User.pid = s₀.usersPID.map User.pid
  nodeKeys : s.nodesPID.map Node.pid = s₀.nodesPID.map Node.pid
  userDone : ∀ p, .user p ∈ done → ∀ row ∈ s.usersPID, row.pid = p.myPID →
    (row.balance.toNat : ℤ) = ledgerBalance par p.myPID c
  nodeDone : ∀ pid, .node pid ∈ done → ∀ row ∈ s.nodesPID, row.pid = pid →
    (row.balance.toNat : ℤ) = rewards pid c
  unused : ∀ row ∈ s.nodesPID, row.pid = 0 → row.balance = 0

/-- The handler of a user writes what the ledger says of it in its row. -/
theorem progress_user (h : Setting par users nodes c s₀) {done : List Party}
    (hs : Progress par c s₀ done s) {p : UserProc} (hp : p ∈ users) :
    ∃ s', interrupt par c.toLedger s (.user p) = some s' ∧
      Progress par c s₀ (.user p :: done) s' := by
  have hmem : p.myPID ∈ s.usersPID.map User.pid := by
    rw [hs.userKeys, h.processes.userRows]
    exact List.mem_map_of_mem hp
  have hnodup : (s.usersPID.map User.pid).Nodup := by
    rw [hs.userKeys]
    exact h.users_nodup
  obtain ⟨hlo, hhi⟩ := h.returns hp
  obtain ⟨usersPID, hrun⟩ :=
    userInterruptHandle_returns hnodup (h.notToSelf p.myPID) hmem hlo hhi
  obtain ⟨f, hrows, hf⟩ := userInterruptHandle_ok (h.notToSelf p.myPID) hnodup hrun
  have hself : ∀ row, ((f row).balance.toNat : ℤ) = ledgerBalance par p.myPID c := by
    intro row
    rw [(hf row).2, Int.emod_eq_of_lt (h.balance_nonneg hp) (h.range.balance p hp)]
  refine ⟨{ s with usersPID := usersPID }, by rw [interrupt, hrun]; rfl,
    ?_, hs.nodeKeys, ?_, ?_, hs.unused⟩
  · rw [hrows, Table.map_key_update _ _ fun row => (hf row).1, hs.userKeys]
  · intro q hq row' hrow' hkey
    rw [hrows] at hrow'
    rcases Table.mem_update hrow' fun row => (hf row).1 with
      ⟨hk, row, -, rfl⟩ | ⟨hk, hrow⟩
    · rw [hself row, ← hk, hkey]
    · have hdone : Party.user q ∈ done := by
        refine List.mem_of_ne_of_mem (fun heq => hk ?_) hq
        cases heq
        exact hkey
      exact hs.userDone q hdone row' hrow hkey
  · intro pid hpid
    rcases List.mem_cons.mp hpid with heq | hold
    · cases heq
    · exact hs.nodeDone pid hold

/-- The handler of a node, run for the first time or again, writes the rewards that the
ledger pays. -/
theorem progress_node (h : Setting par users nodes c s₀) {done : List Party}
    (hs : Progress par c s₀ done s) {myPID : PidT} (hp : myPID ∈ nodes) :
    ∃ s', interrupt par c.toLedger s (.node myPID) = some s' ∧
      Progress par c s₀ (.node myPID :: done) s' := by
  have hmem : myPID ∈ s.nodesPID.map Node.pid := by
    obtain ⟨n, hrows⟩ := h.processes.nodeRows
    rw [hs.nodeKeys, hrows]
    exact List.mem_append_left _ hp
  have hcount : (s.nodesPID.map Node.pid).count myPID ≤ 1 := by
    rw [hs.nodeKeys]
    exact h.nodes_count hp
  obtain ⟨f, hrun, hf⟩ := nodeInterruptHandle_ok c hmem hcount
  have hne : myPID ≠ 0 := by
    have hpos := h.processes.positive myPID (List.mem_append_right _ hp)
    intro hz
    rw [hz] at hpos
    exact absurd hpos (by decide)
  refine ⟨{ s with nodesPID := Table.update Node.pid s.nodesPID myPID f },
    by rw [interrupt, hrun]; rfl, hs.userKeys, ?_, ?_, ?_, ?_⟩
  · rw [Table.map_key_update _ _ fun row => (hf row).1, hs.nodeKeys]
  · intro p hpd
    rcases List.mem_cons.mp hpd with heq | hold
    · cases heq
    · exact hs.userDone p hold
  · intro pid hpid row' hrow' hkey
    rcases Table.mem_update hrow' fun row => (hf row).1 with
      ⟨hk, row, -, rfl⟩ | ⟨hk, hrow⟩
    · rw [(hf row).2, ← hkey, hk, h.node_balance hp]
    · have hdone : Party.node pid ∈ done := by
        refine List.mem_of_ne_of_mem (fun heq => hk ?_) hpid
        cases heq
        exact hkey
      exact hs.nodeDone pid hdone row' hrow hkey
  · intro row' hrow' hzero
    rcases Table.mem_update hrow' fun row => (hf row).1 with
      ⟨hk, -⟩ | ⟨-, hrow⟩
    · exact absurd (hk.symm.trans hzero) hne
    · exact hs.unused row' hrow hzero

/-- Every handler returns, whatever ran before it. -/
theorem progress_shutdown (h : Setting par users nodes c s₀) {order done : List Party}
    (hmem : ∀ party ∈ order, (∃ p ∈ users, party = .user p) ∨ ∃ pid ∈ nodes, party = .node pid)
    (hs : Progress par c s₀ done s) :
    ∃ s', shutdown par c.toLedger s order = some s' ∧
      Progress par c s₀ (order.reverse ++ done) s' := by
  induction order generalizing s done with
  | nil => exact ⟨s, rfl, hs⟩
  | cons party rest ih =>
    have hstep : ∃ s', interrupt par c.toLedger s party = some s' ∧
        Progress par c s₀ (party :: done) s' := by
      rcases hmem party (List.mem_cons_self ..) with ⟨p, hp, rfl⟩ | ⟨pid, hpid, rfl⟩
      · exact progress_user h hs hp
      · exact progress_node h hs hpid
    obtain ⟨s₁, hrun, hs₁⟩ := hstep
    obtain ⟨s₂, hrest, hs₂⟩ := ih (fun q hq => hmem q (List.mem_cons_of_mem _ hq)) hs₁
    refine ⟨s₂, ?_, ?_⟩
    · rw [shutdown, hrun]
      exact hrest
    · rw [List.reverse_cons, List.append_assoc]
      exact hs₂

theorem sum_ledgerBalance (par : Parameters) (c : Chain) (keys : List PidT) :
    (keys.map fun k => ledgerBalance par k c).sum =
      keys.length * par.soBudgetInit.toNat + (keys.map fun k => received k c.entries).sum -
        (keys.map fun k => spent (own k c.entries)).sum := by
  induction keys with
  | nil => simp
  | cons k rest ih =>
    simp only [List.map_cons, List.sum_cons, ih, List.length_cons]
    rw [ledgerBalance]
    push_cast
    ring

theorem sum_amount_sub_cost (l : List Transaction) :
    (l.map fun t : Transaction => t.amount.toInt).sum - (l.map cost).sum =
      -(l.map fun t : Transaction => t.reward.toInt).sum := by
  induction l with
  | nil => rfl
  | cons t rest ih =>
    simp only [List.map_cons, List.sum_cons, cost] at ih ⊢
    omega

/-- Each handler has left the balance of the ledger in its user's row. -/
theorem totalUsers_eq (h : Setting par users nodes c s₀) {done : List Party}
    (hs : Progress par c s₀ done s) (hall : ∀ p ∈ users, .user p ∈ done) :
    totalUsers s = par.soUserNum.toNat * par.soBudgetInit.toNat -
      (c.entries.map fun t : Transaction => t.reward.toInt).sum := by
  have hkeys : s.usersPID.map User.pid = users.map UserProc.myPID :=
    hs.userKeys.trans h.processes.userRows
  have hrows : totalUsers s =
      ((users.map UserProc.myPID).map fun k => ledgerBalance par k c).sum := by
    rw [totalUsers, ← hkeys, List.map_map]
    congr 1
    refine List.map_congr_left fun row hrow => ?_
    have hin : row.pid ∈ users.map UserProc.myPID := by
      rw [← hkeys]
      exact List.mem_map_of_mem hrow
    obtain ⟨p, hp, hpid⟩ := List.mem_map.mp hin
    rw [Function.comp_apply, ← hpid]
    exact hs.userDone p (hall p hp) row hrow hpid.symm
  have hlen : (users.map UserProc.myPID).length = par.soUserNum.toNat := by
    rw [← h.processes.userRows, List.length_map, h.processes.userNum]
  have hnodup := (List.nodup_append.mp h.processes.distinct).1
  have hreceived := Table.sum_by_key hnodup Transaction.receiver
    (fun t => t.amount.toInt) (l := c.entries) fun t ht => by
      obtain ⟨b, hb, htb⟩ := Setting.mem_entries ht
      exact (h.blocks b hb).payee t htb
  have hspent := Table.sum_by_key hnodup Transaction.sender cost (l := c.entries) fun t ht => by
      obtain ⟨b, hb, htb⟩ := Setting.mem_entries ht
      exact (h.blocks b hb).payer t htb
  have hnet := sum_amount_sub_cost c.entries
  rw [hrows, sum_ledgerBalance, hlen]
  simp only [received, spent, own]
  rw [hreceived, hspent]
  omega

theorem sum_entries (blocks : List Block) (g : Transaction → ℤ) :
    ((blocks.flatMap Block.entries).map g).sum =
      (blocks.map fun b => (b.entries.map g).sum).sum := by
  induction blocks with
  | nil => rfl
  | cons b rest ih =>
    rw [List.flatMap_cons, List.map_append, List.sum_append, ih, List.map_cons, List.sum_cons]

/-- The nodes together have the rewards of all entries. -/
theorem totalNodes_eq (h : Setting par users nodes c s₀) {done : List Party}
    (hs : Progress par c s₀ done s) (hall : ∀ pid ∈ nodes, .node pid ∈ done) :
    totalNodes s = (c.entries.map fun t : Transaction => t.reward.toInt).sum := by
  obtain ⟨n, hpids⟩ := h.processes.nodeRows
  have hkeys : s.nodesPID.map Node.pid = nodes ++ List.replicate n 0 := hs.nodeKeys.trans hpids
  have hnotzero : (0 : PidT) ∉ nodes := fun hin =>
    absurd (h.processes.positive 0 (List.mem_append_right _ hin)) (by decide)
  have hzero : rewards 0 c = 0 := by
    rw [rewards, List.filter_eq_nil_iff.mpr]
    · rfl
    · intro b hb heq
      have hreceiver := (h.blocks b hb).receiver
      rw [of_decide_eq_true heq] at hreceiver
      exact hnotzero hreceiver
  have hrows : totalNodes s = ((s.nodesPID.map Node.pid).map fun k => rewards k c).sum := by
    rw [totalNodes, List.map_map]
    congr 1
    refine List.map_congr_left fun row hrow => ?_
    have hin : row.pid ∈ nodes ++ List.replicate n 0 := by
      rw [← hkeys]
      exact List.mem_map_of_mem hrow
    rcases List.mem_append.mp hin with hnode | hunused
    · exact hs.nodeDone row.pid (hall row.pid hnode) row hrow rfl
    · have hpid := List.eq_of_mem_replicate hunused
      rw [hs.unused row hrow hpid, Function.comp_apply, hpid, hzero]
      rfl
  have hunused : ((List.replicate n (0 : PidT)).map fun k => rewards k c).sum = 0 := by
    rw [List.map_replicate, hzero]
    simp
  have hnodup := (List.nodup_append.mp h.processes.distinct).2.1
  have hnodes := Table.sum_by_key hnodup (fun b : Block => b.first.receiver)
    (fun b => b.first.amount.toInt) (l := c.blocks) fun b hb => (h.blocks b hb).receiver
  rw [hrows, hkeys, List.map_append, List.sum_append, hunused, add_zero]
  simp only [rewards]
  rw [hnodes, Chain.entries, sum_entries]
  congr 1
  exact List.map_congr_left fun b hb => (h.block_amount hb).1

/-- The total at the end is the total at the beginning. -/
theorem money_conserved (h : Setting par users nodes c s) {order : List Party}
    (horder : order.Perm (users.map Party.user ++ nodes.map Party.node)) :
    ∃ s', shutdown par c.toLedger s order = some s' ∧
      totalUsers s' + totalNodes s' = par.soUserNum.toNat * par.soBudgetInit.toNat := by
  have hmem : ∀ party ∈ order,
      (∃ p ∈ users, party = .user p) ∨ ∃ pid ∈ nodes, party = .node pid := by
    intro party hparty
    rcases List.mem_append.mp (horder.subset hparty) with huser | hnode
    · obtain ⟨p, hp, rfl⟩ := List.mem_map.mp huser
      exact Or.inl ⟨p, hp, rfl⟩
    · obtain ⟨pid, hpid, rfl⟩ := List.mem_map.mp hnode
      exact Or.inr ⟨pid, hpid, rfl⟩
  have hstart : Progress par c s [] s :=
    ⟨rfl, rfl, by simp, by simp, h.processes.unused⟩
  obtain ⟨s', hrun, hs'⟩ := progress_shutdown h hmem hstart
  have husers : ∀ p ∈ users, Party.user p ∈ order.reverse ++ [] := by
    intro p hp
    rw [List.append_nil, List.mem_reverse]
    exact horder.symm.subset (List.mem_append_left _ (List.mem_map_of_mem hp))
  have hnodes : ∀ pid ∈ nodes, Party.node pid ∈ order.reverse ++ [] := by
    intro pid hpid
    rw [List.append_nil, List.mem_reverse]
    exact horder.symm.subset (List.mem_append_right _ (List.mem_map_of_mem hpid))
  refine ⟨s', hrun, ?_⟩
  rw [totalUsers_eq h hs' husers, totalNodes_eq h hs' hnodes, sub_add_cancel]

section Example

def pair : Parameters := { assignDefaults with soUserNum := 2, soNodesNum := 1 }

def payment : Transaction := ⟨⟨1, 500⟩, 7, 8, 396, 4, .pending⟩

def twoUsers : List UserProc :=
  [⟨7, 0, .zero, 500, [payment, ⟨⟨2, 0⟩, 7, 8, 99, 1, .pending⟩], ⟨10, payment⟩⟩,
    ⟨8, 0, .zero, 1000, [], ⟨0, .zero⟩⟩]

def twoRows : Tables where
  usersPID := [⟨7, 600, .alive⟩, ⟨8, 1000, .alive⟩]
  nodesPID := [⟨40, 4, 0, .available⟩, ⟨0, 0, 0, .available⟩]

def oneBlock : Block where
  transList := ⟨⟨1, 600⟩, self, 40, 4, 0, .confirmed⟩ ::ᵥ confirm payment ::ᵥ
    List.Vector.ofFn fun i : Fin 8 => ⟨⟨1, Int64.ofNat i⟩, 8, 7, 5, 0, .confirmed⟩
  blockIndex := 0

def oneBlockChain : Chain := ⟨[oneBlock], by decide, by decide⟩

theorem twoUsers_setting : Setting pair twoUsers [40] oneBlockChain twoRows where
  processes := by
    refine ⟨rfl, rfl, ⟨1, rfl⟩, by decide, by decide, fun pid hpid => ?_⟩
    have hcases : pid = 7 ∨ pid = 8 ∨ pid = 40 := by simpa [twoUsers] using hpid
    rcases hcases with rfl | rfl | rfl <;> decide
  blocks := by
    intro b hb
    rw [List.mem_singleton.mp hb]
    constructor <;> decide
  affordable := by
    intro p hp
    rcases List.mem_cons.mp hp with heq | hin
    · rw [heq]
      constructor <;> decide
    · rw [List.mem_singleton.mp hin]
      constructor <;> decide
  range := by
    refine ⟨by decide, by decide, by decide, by decide, fun pid hpid => ?_⟩
    rw [List.mem_singleton.mp hpid]
    decide

/-- The handler of a node and then those of two users. -/
theorem money_conserved_pair :
    ∃ s', shutdown pair oneBlockChain.toLedger twoRows
        ([40].map Party.node ++ twoUsers.map Party.user) = some s' ∧
      totalUsers s' + totalNodes s' = 2 * 1000 :=
  money_conserved twoUsers_setting List.perm_append_comm

end Example
end SimulazioneTransazioni.FinalAccounting

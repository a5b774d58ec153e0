import SimulazioneTransazioni.FinalAccounting
import SimulazioneTransazioni.NetworkLedger

/-!
The final accounting of a run. What the accounting at shutdown asks of the
blocks of the ledger holds in every state that the system reaches, whatever its
children have written over each other and wherever transactions were lost. So
the handlers give back the initial total, when no single sum overflows.
-/
namespace SimulazioneTransazioni.RunAccounting

open Network NetworkLedger FinalAccounting Balance Users LedgerWriters Blocks

def nodePids (s : World) : List PidT := s.nodes.map (NodeCell.proc · |>.myPID)

def tables (s : World) : Tables := ⟨s.usersPID, s.nodesPID⟩

variable {par : Parameters} {s : World} {c : Chain}

/-- The processes of the users when they run their handlers. Since the last send get_balance
may have taken transactions out of their lists. -/
def SameUsers (s : World) (users : List UserProc) : Prop :=
  users.map UserProc.myPID = s.users.map UserProc.myPID

theorem wellBuilt_of_accounted {i : Slot} {b : Block} (h : Accounted s i b)
    {users : List UserProc} (husers : SameUsers s users)
    (hrows : s.usersPID.map User.pid = users.map UserProc.myPID)
    (hpaid : ∀ t ∈ s.sent, 0 ≤ t.amount.toInt ∧ 0 ≤ t.reward.toInt) :
    WellBuilt (users.map UserProc.myPID) (nodePids s) b := by
  obtain ⟨w, -, hconfirmed⟩ := h.writer
  have hfrom : ∀ t ∈ b.entries, FromUser s t.asSent := fun t ht => (h.sent t ht).2
  refine ⟨hconfirmed.sender, h.node, ?_, fun t ht => ?_, fun t ht => ?_,
    fun t ht => (hfrom t ht).differ.symm, fun t ht => ?_, fun t ht => ?_⟩
  · rw [← Int32.toInt_inj, hconfirmed.amount, sumOfRewards_toInt]
  · rw [husers]
    exact (hfrom t ht).sender
  · rw [← hrows]
    exact (hfrom t ht).receiver
  · exact (hpaid t.asSent (h.sent t ht).1).1
  · exact (hpaid t.asSent (h.sent t ht).1).2

/-- Each block of a chain stands in a slot. -/
theorem slot_of_mem {b : Block} (hb : b ∈ c.blocks) :
    ∃ i : Slot, c.toLedger.get i = b ∧ c.toLedger.get i ≠ Block.zero := by
  obtain ⟨k, hk, hget⟩ := List.mem_iff_getElem.mp hb
  have hat : c.toLedger.toList[k]? = some b := by
    show (c.blocks ++ _)[k]? = some b
    rw [List.getElem?_append_left hk, List.getElem?_eq_getElem hk, hget]
  have hslot : c.toLedger.get ⟨k, hk.trans_le c.bound⟩ = b := by
    obtain ⟨hin, hget⟩ := List.getElem?_eq_some_iff.mp hat
    rw [List.Vector.get_eq_get_toList]
    exact hget
  refine ⟨_, hslot, fun hempty => ?_⟩
  have hstamped := c.stamped b hb
  rw [← hslot, hempty] at hstamped
  exact absurd hstamped (by decide)

theorem mem_of_slot {i : Slot} (hused : c.toLedger.get i ≠ Block.zero) :
    c.toLedger.get i ∈ c.blocks := by
  have hin : c.toLedger.get i ∈ c.blocks ++ List.replicate _ Block.zero := List.get_mem _ _
  rcases List.mem_append.mp hin with hblock | hzero
  · exact hblock
  · exact absurd (List.eq_of_mem_replicate hzero) hused

/-- A block with a time stands in a slot that was filled. -/
theorem accounted_of_mem (h : (Network.machine par).Reach Received s)
    (hledger : s.ledger = c.toLedger) {b : Block} (hb : b ∈ c.blocks) : ∃ i, Accounted s i b := by
  obtain ⟨i, hslot, hused⟩ := slot_of_mem hb
  refine ⟨i, ?_⟩
  rw [← hslot, ← hledger]
  exact slot_accounted h (hledger ▸ hused)

section Shutdown

variable {users : List UserProc} {handlers : List PidT} {order : List Party}

/-- What a run leaves to the handlers: their processes, and sums that stay in their types. -/
structure Ready (par : Parameters) (s : World) (c : Chain) (users : List UserProc) : Prop where
  ledger : s.ledger = c.toLedger
  same : SameUsers s users
  processes : Processes par users (nodePids s) (tables s)
  paid : ∀ t ∈ s.sent, 0 ≤ t.amount.toInt ∧ 0 ≤ t.reward.toInt
  affordable : ∀ p ∈ users, Affordable par c p
  range : NoOverflow par users (nodePids s) c

structure Handled (s : World) (users : List UserProc) (handlers : List PidT)
    (order : List Party) : Prop where
  nodes : ∀ pid, pid ∈ handlers ↔ pid ∈ nodePids s
  all : order.Perm (users.map Party.user ++ handlers.map Party.node)

theorem Ready.setting (h : Ready par s c users) (hs : (Network.machine par).Reach Received s) :
    Setting par users (nodePids s) c (tables s) := by
  refine ⟨h.processes, fun b hb => ?_, h.affordable, h.range⟩
  obtain ⟨i, hi⟩ := accounted_of_mem hs h.ledger hb
  exact wellBuilt_of_accounted hi h.same h.processes.userRows h.paid

/-- The handlers run through, each writing its row. -/
theorem shutdown_progress (hs : (Network.machine par).Reach Received s)
    (h : Ready par s c users) (hhandled : Handled s users handlers order) :
    ∃ t, shutdown par s.ledger (tables s) order = some t ∧
      Progress par c (tables s) order.reverse t := by
  have hmem : ∀ party ∈ order, (∃ p ∈ users, party = .user p) ∨
      ∃ pid ∈ nodePids s, party = .node pid := by
    intro party hparty
    rcases List.mem_append.mp (hhandled.all.subset hparty) with huser | hnode
    · obtain ⟨p, hp, rfl⟩ := List.mem_map.mp huser
      exact Or.inl ⟨p, hp, rfl⟩
    · obtain ⟨pid, hpid, rfl⟩ := List.mem_map.mp hnode
      exact Or.inr ⟨pid, (hhandled.nodes pid).mp hpid, rfl⟩
  have hstart : Progress par c (tables s) [] (tables s) :=
    ⟨rfl, rfl, by simp, by simp, h.processes.unused⟩
  obtain ⟨t, hrun, ht⟩ := progress_shutdown (h.setting hs) hmem hstart
  rw [List.append_nil] at ht
  refine ⟨t, ?_, ht⟩
  rw [h.ledger]
  exact hrun

theorem total_of_progress (hs : (Network.machine par).Reach Received s)
    (h : Ready par s c users) (hhandled : Handled s users handlers order) {t : Tables}
    (ht : Progress par c (tables s) order.reverse t) :
    totalUsers t + totalNodes t = par.soUserNum.toNat * par.soBudgetInit.toNat := by
  have hall : ∀ p ∈ users, Party.user p ∈ order.reverse := by
    intro p hp
    rw [List.mem_reverse]
    exact hhandled.all.symm.subset (List.mem_append_left _ (List.mem_map_of_mem hp))
  have hnodes : ∀ pid ∈ nodePids s, Party.node pid ∈ order.reverse := by
    intro pid hpid
    rw [List.mem_reverse]
    exact hhandled.all.symm.subset
      (List.mem_append_right _ (List.mem_map_of_mem ((hhandled.nodes pid).mpr hpid)))
  rw [totalUsers_eq (h.setting hs) ht hall, totalNodes_eq (h.setting hs) ht hnodes,
    sub_add_cancel]

end Shutdown

section Example

open Confirmation (small launch launch_initial)

def pair : World :=
  { launch with
    users := [⟨7, 0, .zero, 1000, [], ⟨0, .zero⟩⟩, ⟨8, 0, .zero, 1000, [], ⟨0, .zero⟩⟩] }

theorem pair_initial : Network.Initial small pair where
  keys := launch_initial.keys
  fresh := launch_initial.fresh
  nodes := launch_initial.nodes
  users := by decide
  parent := launch_initial.parent
  trans := launch_initial.trans
  ledger := rfl
  children := rfl
  listener := ⟨rfl, rfl⟩
  sent := rfl

def nine : Block where
  transList := ⟨⟨2, 0⟩, self, 40, 9, 0, .confirmed⟩ ::ᵥ
    List.Vector.ofFn fun i : Fin 9 => ⟨⟨1, Int64.ofNat (i + 1)⟩, 7, 8, 99, 1, .confirmed⟩
  blockIndex := 0

def chain : Chain := ⟨[nine], by decide, by decide⟩

theorem pair_run : ∃ s, (Network.machine small).run pair oneBlock = some s ∧
    s.ledger = chain.toLedger ∧ s.usersPID = pair.usersPID ∧
    s.nodesPID = [⟨40, 9, 9, .available⟩, ⟨41, 0, 0, .available⟩, ⟨0, 0, 0, .available⟩,
      ⟨0, 0, 0, .available⟩] ∧ nodePids s = [40, 41] ∧ SameUsers s pair.users ∧
    ∀ t ∈ s.sent, 0 ≤ t.amount.toInt ∧ 0 ≤ t.reward.toInt :=
  ⟨_, rfl, rfl, rfl, rfl, rfl, rfl, by decide⟩

theorem pair_ready {s : World} (hledger : s.ledger = chain.toLedger)
    (hrows : s.usersPID = pair.usersPID)
    (hnodesPID : s.nodesPID = [⟨40, 9, 9, .available⟩, ⟨41, 0, 0, .available⟩,
      ⟨0, 0, 0, .available⟩, ⟨0, 0, 0, .available⟩])
    (hpids : nodePids s = [40, 41]) (husers : SameUsers s pair.users)
    (hpaid : ∀ t ∈ s.sent, 0 ≤ t.amount.toInt ∧ 0 ≤ t.reward.toInt) :
    Ready small s chain pair.users := by
  refine ⟨hledger, husers, ?_, hpaid, ?_, ?_⟩
  · rw [hpids, tables, hrows, hnodesPID]
    refine ⟨rfl, rfl, ⟨2, rfl⟩, by decide, by decide, fun pid hpid => ?_⟩
    have hcases : pid = 7 ∨ pid = 8 ∨ pid = 40 ∨ pid = 41 := by simpa [pair] using hpid
    rcases hcases with rfl | rfl | rfl | rfl <;> decide
  · intro p hp
    have hcases : p = ⟨7, 0, .zero, 1000, [], ⟨0, .zero⟩⟩ ∨
        p = ⟨8, 0, .zero, 1000, [], ⟨0, .zero⟩⟩ := by simpa [pair] using hp
    rcases hcases with rfl | rfl <;> constructor <;> decide
  · rw [hpids]
    refine ⟨by decide, by decide, by decide, by decide, fun pid hpid => ?_⟩
    have hcases : pid = 40 ∨ pid = 41 := by simpa using hpid
    rcases hcases with rfl | rfl <;> decide

end Example

end SimulazioneTransazioni.RunAccounting

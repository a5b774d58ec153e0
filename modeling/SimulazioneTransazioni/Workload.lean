import SimulazioneTransazioni.ExhaustedHops
import SimulazioneTransazioni.PoolCounter
import Mathlib.Algebra.Order.BigOperators.Group.Multiset

/-!
The steps that a message can still cause: for the hops it has left, the block it
may end in, and on the master's queue the node that is spawned for it. The parts
of the system hold the steps of the messages that are with them. The last section
says what a pass of fetch_messages takes from them.
-/
namespace SimulazioneTransazioni.Workload

open Nodes Users Master Queues LedgerWriters Network NetworkWiring PoolCounter

section Weights

variable (par : Parameters)

def masterWork : ℕ := 3 * par.soFriendsNum.toNat + 14

def hopsLeft (m : Message) : ℕ := m.hops.toInt.toNat

def poolWork (m : Message) : ℕ := masterWork par + soRegistrySize + 9 * hopsLeft m

def queueWork (m : Message) : ℕ := poolWork par m + 6

def arrivalWork (master id : PidT) (m : Message) : ℕ :=
  if id = master then masterWork par else queueWork par m

def queuesWork (master : PidT) (queues : List Queue) : ℕ :=
  ((waiting (fun key => key = master) queues).map fun _ => masterWork par).sum +
    ((waiting (fun key => key ≠ master) queues).map (queueWork par)).sum

def poolLoad (pool : Pool) : ℕ := (pool.cells.map (poolWork par)).sum

def flagWork (flag : Int32) : ℕ := if flag < 20 then 0 else 3

def loopWork (p : NodeProc) : ℕ := flagWork p.flag + poolLoad par p.transPool

def nodeWork (c : NodeCell) : ℕ :=
  match c.pc with
  | .queueInit => par.soFriendsNum.toNat + 7
  | .attach => par.soFriendsNum.toNat + 6
  | .befriend _ => par.soFriendsNum.toNat - c.proc.friendList.length + 5
  | .fetch => loopWork par c.proc
  | .publish => loopWork par c.proc + 2
  | .process => loopWork par c.proc + 1

def childWork (w : Writer) : ℕ :=
  match w.pc with
  | .building => soRegistrySize + 3
  | .scanning _ i => soRegistrySize - i + 2
  | .writing _ _ => 1
  | .inserted _ _ => 0
  | .full => 0

def listenerWork : ListenerPc → ℕ
  | .receive => 0
  | .spawn => 3 * par.soFriendsNum.toNat + 13
  | .makeFriends _ => 2 * par.soFriendsNum.toNat + 5
  | .findQueue _ friends => friends.length + par.soFriendsNum.toNat + 4
  | .sendFriends _ friends => friends.length + par.soFriendsNum.toNat + 3
  | .makePrivate => par.soFriendsNum.toNat + 2
  | .announce friends => friends.length + 1
  | .exited => 0

def work (s : World) : ℕ :=
  queuesWork par s.master s.queues + (s.nodes.map (nodeWork par)).sum +
    (s.children.map childWork).sum + listenerWork par s.listener.pc

def sendWork : ℕ :=
  3 * par.soFriendsNum.toNat + 1020 + 9 * (MachineInt.intOfUnsigned par.soHops).toInt.toNat

def income (s : World) : ℕ := s.sent.length * sendWork par

end Weights

section Queues

variable {par : Parameters} {master : PidT} {queues queues' : List Queue} {id : Int32}
  {m : Message}

theorem sum_le_of_le {l l' : Multiset Message} (h : l ≤ l') (f : Message → ℕ) :
    (l.map f).sum ≤ (l'.map f).sum := by
  obtain ⟨rest, rfl⟩ := Multiset.le_iff_exists_add.mp h
  rw [Multiset.map_add, Multiset.sum_add]
  exact Nat.le_add_right _ _

theorem queuesWork_congr (h : ∀ (P : PidT → Prop) [DecidablePred P],
    waiting P queues' = waiting P queues) :
    queuesWork par master queues' = queuesWork par master queues := by
  rw [queuesWork, queuesWork, h, h]

theorem queuesWork_push (par : Parameters) (master : PidT) (queues : List Queue) (id : Int32)
    (m : Message) :
    queuesWork par master (pushTrans queues id m) ≤
      queuesWork par master queues + arrivalWork par master id m := by
  have hmaster := sum_le_of_le
    (waiting_pushTrans_le (P := fun key => key = master) queues id m) fun _ => masterWork par
  have hother := sum_le_of_le
    (waiting_pushTrans_le (P := fun key => key ≠ master) queues id m) (queueWork par)
  rw [Multiset.map_add, Multiset.sum_add] at hmaster hother
  unfold queuesWork arrivalWork
  by_cases hid : id = master
  · rw [if_pos hid, Multiset.map_singleton, Multiset.sum_singleton] at hmaster
    rw [if_neg (not_not.mpr hid), Multiset.map_zero, Multiset.sum_zero] at hother
    rw [if_pos hid]
    omega
  · rw [if_neg hid, Multiset.map_zero, Multiset.sum_zero] at hmaster
    rw [if_pos hid, Multiset.map_singleton, Multiset.sum_singleton] at hother
    rw [if_neg hid]
    omega

theorem queuesWork_take (par : Parameters) (master : PidT)
    (h : takeTrans queues id = some (m, queues')) :
    queuesWork par master queues' + arrivalWork par master id m =
      queuesWork par master queues := by
  have hmaster := waiting_takeTrans (P := fun key => key = master) h
  have hother := waiting_takeTrans (P := fun key => key ≠ master) h
  unfold queuesWork arrivalWork
  rw [← hmaster, ← hother]
  simp only [Multiset.map_add, Multiset.sum_add]
  by_cases hid : id = master
  · rw [if_pos hid, if_pos hid, if_neg (not_not.mpr hid), Multiset.map_singleton,
      Multiset.sum_singleton, Multiset.map_zero, Multiset.sum_zero]
    omega
  · rw [if_neg hid, if_neg hid, if_pos hid, Multiset.map_singleton, Multiset.sum_singleton,
      Multiset.map_zero, Multiset.sum_zero]
    omega

theorem waiting_create (P : PidT → Prop) [DecidablePred P] (queues : List Queue) (key : PidT) :
    waiting P (queues ++ [create key]) = waiting P queues := by
  rw [waiting, waiting, List.map_append, List.sum_append, List.map_singleton,
    List.sum_singleton]
  show _ + (if P key then 0 else 0) = _
  rw [ite_self, add_zero]

theorem arrivalWork_le (par : Parameters) (master id : PidT) (m : Message) :
    arrivalWork par master id m ≤ queueWork par m := by
  unfold arrivalWork queueWork poolWork
  split <;> omega

end Queues

section Pools

variable {par : Parameters} {p : NodeProc} {m : Message} {rest : Pool}

theorem poolLoad_take (par : Parameters) (h : removeFromPool p.transPool = some (m, rest)) :
    poolLoad par rest.shrink + poolWork par m = poolLoad par p.transPool := by
  rw [poolLoad, poolLoad, removeFromPool_eq_some h, Pool.shrink_cells, List.map_cons,
    List.sum_cons, add_comm]

theorem poolLoad_put (p : NodeProc) (m : Message) :
    poolLoad par (p.put m).transPool = poolLoad par p.transPool + poolWork par m := by
  rw [poolLoad, poolLoad, NodeProc.put_transPool, Pool.grow_cells, addToPool_cells,
    List.map_append, List.sum_append, List.map_singleton, List.sum_singleton]

/-- A message whose hop is charged. -/
theorem poolWork_hop (par : Parameters) (h : 0 < m.hops) :
    poolWork par { m with hops := m.hops - 1 } + 9 = poolWork par m := by
  have hpos : 0 < m.hops.toInt := by
    have hlt := Int32.lt_iff_toInt_lt.mp h
    rwa [Int32.toInt_zero] at hlt
  have hbound := m.hops.toInt_lt
  have hone : (1 : Int32).toInt = 1 := rfl
  have hsub : (m.hops - 1).toInt = m.hops.toInt - 1 := by
    rw [Int32.toInt_sub, hone]
    exact Int.bmod_eq_of_le (by omega) (by omega)
  unfold poolWork hopsLeft
  rw [hsub]
  omega

theorem poolLoad_batch {n : ℕ} {pool pool' : Pool} {batch : List.Vector Transaction (n + 1)}
    (h : fillBlockTransList (n + 1) pool = .ok (batch, pool')) :
    poolLoad par pool' + soRegistrySize + masterWork par ≤ poolLoad par pool := by
  obtain ⟨first, hcells, hbatch⟩ := NodeLoop.fillBlockTransList_split h
  have hlength := congrArg List.length hbatch
  rw [List.Vector.toList_length, List.length_map] at hlength
  cases first with
  | nil => simp at hlength
  | cons m first =>
    have hm : masterWork par + soRegistrySize ≤ poolWork par m := Nat.le_add_right _ _
    rw [poolLoad, poolLoad, hcells, List.map_append, List.sum_append, List.map_cons,
      List.sum_cons]
    omega

end Pools

structure Fits (c : NodeCell) : Prop where
  fetch : c.pc = .fetch → Exact (soBlockSize - 2) c.proc.transPool
  rest : c.pc = .publish ∨ c.pc = .process → Exact (soBlockSize - 1) c.proc.transPool

section Fetch

variable {par : Parameters} {s : World} {c : NodeCell} {o : NodeOutcome} {p : NodeProc}

theorem flagWork_le (flag : Int32) : flagWork flag ≤ 3 := by
  unfold flagWork
  split <;> omega

/-- A pass that receives lowers the work by three steps. -/
theorem received_work {fetched : FetchOutcome} {queues : List Queue} {oh : HopOutcome}
    {m : Option Message} (hanswered : o.rcvFailure = none) (hother : c.proc.queueID ≠ s.master)
    (hreceive : s.receive par o c.proc = some (fetched, queues))
    (hfetch : fetchMessages par fetched oh c.proc = .ok (p, .received m)) :
    queuesWork par s.master queues + loopWork par p + 3 ≤
      queuesWork par s.master s.queues + loopWork par c.proc := by
  generalize he : FetchEvent.received m = e at hfetch
  cases fetchMessages_fetched hfetch with
  | hopped q e' hfull hhop => contradiction
  | received hroom =>
    unfold World.receive at hreceive
    rw [if_pos hroom, hanswered] at hreceive
    obtain ⟨⟨mex, queues₁⟩, hrcv, hpair⟩ := Option.map_eq_some_iff.mp hreceive
    simp only [Prod.mk.injEq] at hpair
    obtain ⟨rfl, rfl⟩ := hpair
    obtain ⟨⟨m', queues₂⟩, htake, heq⟩ := Option.map_eq_some_iff.mp hrcv
    simp only [Prod.mk.injEq] at heq
    obtain ⟨rfl, rfl⟩ := heq
    have htaken := queuesWork_take par s.master htake
    rw [arrivalWork, if_neg hother, queueWork] at htaken
    rw [queuesWork_congr fun P _ => waiting_rcvFriend queues₂ o.friendFailure c.proc.queueID]
    have hflag : flagWork c.proc.flag = 0 := if_pos hroom.2
    have hflag' := flagWork_le (c.proc.flag + 1)
    -- The message is in the pool, or it is dropped.
    have hpool : ∀ of : FetchOutcome, of.rcvTrans = .delivered m' →
        poolLoad par (receiveFriend of (receiveTransaction of c.proc).1).transPool ≤
          poolLoad par c.proc.transPool + poolWork par m' := by
      intro of hof
      rw [receiveFriend_transPool]
      unfold receiveTransaction
      rw [hof, receiveMessage]
      split
      next errno mex heq =>
        simp only [Prod.mk.injEq] at heq
        rw [poolLoad_put, heq.2.2]
      next => exact Nat.le_add_right _ _
    have hpool' := hpool ⟨_, (rcvFriend queues₂ o.friendFailure c.proc.queueID).1⟩ rfl
    show _ + (flagWork (c.proc.flag + 1) + poolLoad par (receiveFriend _ _).transPool) + 3 ≤ _
    rw [loopWork]
    omega

/-- A pass that hops lowers the work by three steps. -/
theorem hopped_work {e : HopEvent} (hwired : Wired s) (hc : c ∈ s.nodes)
    (hflag : ¬ c.proc.flag < 20) (hhop : Hopped (s.hopOutcome c o) c.proc p e) :
    queuesWork par s.master (World.deliver s.queues (.hopped e)) + loopWork par (p.withFlag 0) +
      3 ≤ queuesWork par s.master s.queues + loopWork par c.proc := by
  have hthree : flagWork c.proc.flag = 3 := if_neg hflag
  have hzero : flagWork 0 = 0 := rfl
  have hloop : ∀ q : NodeProc, loopWork par (q.withFlag 0) = poolLoad par q.transPool := by
    intro q
    show flagWork 0 + _ = _
    rw [hzero, Nat.zero_add]
    rfl
  rw [hloop, loopWork, hthree]
  cases hhop with
  | idle hempty =>
    show queuesWork par s.master s.queues + _ + 3 ≤ _
    omega
  | toMaster m rest errno hrem hhops =>
    have htaken := poolLoad_take par hrem
    have hm : masterWork par + soRegistrySize ≤ poolWork par m := Nat.le_add_right _ _
    have hsize : soRegistrySize = 1000 := rfl
    show _ + poolLoad par rest.shrink + 3 ≤ _
    by_cases hsent : (s.hopOutcome c o).msgsnd
        ((s.hopOutcome c o).msgget (s.hopOutcome c o).getppid).queue = .sent
    · have hto := (ExhaustedHops.sent_to_master hwired hc hsent).1
      simp only [hsent, decide_true]
      have hpush := queuesWork_push par s.master s.queues
        (msgget s.queues (s.getppid c)).queue { m with hops := 0 }
      rw [arrivalWork, if_pos hto] at hpush
      show queuesWork par s.master (pushTrans s.queues (msgget s.queues (s.getppid c)).queue
        { m with hops := 0 }) + _ + 3 ≤ _
      omega
    · simp only [hsent, decide_false]
      show queuesWork par s.master s.queues + _ + 3 ≤ _
      omega
  | toFriend m rest errno queue hrem hhops hother hsend =>
    have htaken := poolLoad_take par hrem
    have hcharged := poolWork_hop par hhops
    show _ + poolLoad par rest.shrink + 3 ≤ _
    by_cases hsent : (s.hopOutcome c o).msgsnd queue = .sent
    · simp only [hsent, decide_true]
      have hpush := queuesWork_push par s.master s.queues queue
        { m with hops := m.hops - 1 }
      have harrival := arrivalWork_le par s.master queue { m with hops := m.hops - 1 }
      rw [queueWork] at harrival
      show queuesWork par s.master (pushTrans s.queues queue { m with hops := m.hops - 1 }) +
        _ + 3 ≤ _
      omega
    · simp only [hsent, decide_false]
      show queuesWork par s.master s.queues + _ + 3 ≤ _
      omega
  | kept m rest errno queue hrem hhops hback =>
    have htaken := poolLoad_take par hrem
    have hcharged := poolWork_hop par hhops
    rw [poolLoad_put]
    show queuesWork par s.master s.queues + (poolLoad par rest.shrink + _) + 3 ≤ _
    omega

end Fetch

end SimulazioneTransazioni.Workload

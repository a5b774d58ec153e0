import SimulazioneTransazioni.Nodes
import Mathlib.Algebra.Order.Group.Multiset

/-!
What one pass of a node's loop does to its pool, and the account of a whole
run: every transaction that add_to_pool received is in the pool, in a forked
child's buffer, queued, discarded by the master hop, or vanished. Two failures
make it vanish: a fork that fails after the batch was taken, and a msgsnd to a
friend that fails with an errno which send_message counts as SUCCESS.
-/
namespace SimulazioneTransazioni.NodeLoop

open Nodes

def pooled (p : NodeProc) : Multiset Transaction :=
  (p.transPool.cells.map Message.userTrans : List Transaction)

def one (m : Message) : Multiset Transaction := {m.userTrans}

namespace HopEvent

def taken : HopEvent → Multiset Transaction
  | .idle => 0
  | .toMaster _ m _ => one m
  | .toFriend _ m _ => one m
  | .kept _ => 0

def lost : HopEvent → Multiset Transaction
  | .toFriend _ m false => one m
  | _ => 0

end HopEvent

theorem pooled_put (p : NodeProc) (m : Message) : pooled (p.put m) = pooled p + one m := by
  simp [pooled, one, ← Multiset.coe_add]

theorem pooled_take {p : NodeProc} {m : Message} {rest : Pool}
    (h : removeFromPool p.transPool = some (m, rest)) :
    pooled (p.withPool rest.shrink) + one m = pooled p := by
  rw [pooled, pooled, removeFromPool_eq_some h]
  simp [one, add_comm, ← Multiset.cons_coe, Multiset.singleton_add]

theorem hopped_pooled {o : HopOutcome} {p p' : NodeProc} {e : HopEvent} (h : Hopped o p p' e) :
    pooled p' + HopEvent.taken e = pooled p := by
  cases h with
  | idle hempty => rw [HopEvent.taken, add_zero]
  | toMaster m rest errno hrem hhops =>
    have hp := pooled_take hrem
    exact hp
  | toFriend m rest errno queue hrem hhops hother hsend =>
    have hp := pooled_take hrem
    exact hp
  | kept m rest errno queue hrem hhops hback =>
    have hp := pooled_take hrem
    rw [HopEvent.taken, add_zero, pooled_put]
    exact hp

namespace FetchEvent

def arrived : FetchEvent → Multiset Transaction
  | .received none => 0
  | .received (some m) => one m
  | .hopped _ => 0

def taken : FetchEvent → Multiset Transaction
  | .received _ => 0
  | .hopped e => HopEvent.taken e

def lost : FetchEvent → Multiset Transaction
  | .received _ => 0
  | .hopped e => HopEvent.lost e

end FetchEvent

theorem receiveTransaction_pooled (o : FetchOutcome) (p : NodeProc) :
    pooled (receiveTransaction o p).1 =
      pooled p + FetchEvent.arrived (.received (receiveTransaction o p).2) := by
  unfold receiveTransaction
  split
  next errno mex _ => exact pooled_put _ mex
  next errno mex _ => simp [FetchEvent.arrived, pooled]

theorem receiveFriend_pooled (o : FetchOutcome) (p : NodeProc) :
    pooled (receiveFriend o p) = pooled p := by
  unfold receiveFriend
  split <;> rfl

theorem fetchMessages_pooled {par : Parameters} {of : FetchOutcome} {oh : HopOutcome}
    {p p' : NodeProc} {e : FetchEvent} (h : fetchMessages par of oh p = .ok (p', e)) :
    pooled p' + FetchEvent.taken e = pooled p + FetchEvent.arrived e := by
  cases fetchMessages_fetched h with
  | received hroom =>
    rw [FetchEvent.taken, add_zero, ← receiveTransaction_pooled]
    exact receiveFriend_pooled of _
  | hopped q e' hfull hhop =>
    have hp := hopped_pooled hhop
    rw [FetchEvent.arrived, add_zero]
    exact hp

theorem publishSize_pooled {nodesPID nodesPID' : List Node} {p p' : NodeProc}
    (h : publishSize nodesPID p = .ok (nodesPID', p')) : pooled p' = pooled p := by
  rw [(publishSize_ok h).1]
  rfl

/-- A batch is made of the first messages of the pool. -/
theorem fillBlockTransList_split {n : ℕ} {pool pool' : Pool}
    {batch : List.Vector Transaction n} (h : fillBlockTransList n pool = .ok (batch, pool')) :
    ∃ first, pool.cells = first ++ pool'.cells ∧
      batch.toList = first.map Message.userTrans := by
  induction n generalizing pool pool' with
  | zero =>
    simp only [fillBlockTransList, Except.ok.injEq, Prod.mk.injEq] at h
    rw [← h.1, ← h.2]
    exact ⟨[], rfl, rfl⟩
  | succ n ih =>
    unfold fillBlockTransList at h
    cases hrem : removeFromPool pool with
    | none => simp [hrem] at h
    | some head =>
      obtain ⟨tmp, rest⟩ := head
      cases hfill : fillBlockTransList n rest.shrink with
      | error halt => simp [hrem, hfill, Except.map] at h
      | ok r =>
        obtain ⟨tail, pool''⟩ := r
        simp only [hrem, hfill, Except.map, Except.ok.injEq, Prod.mk.injEq] at h
        obtain ⟨first, hcells, hbatch⟩ := ih hfill
        rw [Pool.shrink_cells] at hcells
        refine ⟨tmp :: first, ?_, ?_⟩
        · rw [removeFromPool_eq_some hrem, hcells, h.2, List.cons_append]
        · rw [← h.1, List.Vector.toList_cons, hbatch, List.map_cons]

theorem fillBlockTransList_cells {n : ℕ} {pool pool' : Pool}
    {batch : List.Vector Transaction n} (h : fillBlockTransList n pool = .ok (batch, pool')) :
    pool.cells.map Message.userTrans = batch.toList ++ pool'.cells.map Message.userTrans := by
  obtain ⟨first, hcells, hbatch⟩ := fillBlockTransList_split h
  rw [hcells, List.map_append, hbatch]

namespace BlockEvent

def taken : BlockEvent → Multiset Transaction
  | .tooFew => 0
  | .forked _ batch => (batch.toList : List Transaction)
  | .forkFailed batch => (batch.toList : List Transaction)

def lost : BlockEvent → Multiset Transaction
  | .forkFailed batch => (batch.toList : List Transaction)
  | _ => 0

end BlockEvent

theorem pooled_fill {p : NodeProc} {batch : Blocks.Batch} {pool : Pool}
    (h : fillBlockTransList (soBlockSize - 1) p.transPool = .ok (batch, pool)) :
    pooled (p.withPool pool) + (batch.toList : List Transaction) = pooled p := by
  rw [pooled, pooled, fillBlockTransList_cells h, ← Multiset.coe_add, add_comm]
  rfl

theorem processBlock_pooled {fork : ForkResult} {p p' : NodeProc} {e : BlockEvent}
    (h : processBlock fork p = .ok (p', e)) :
    pooled p' + BlockEvent.taken e = pooled p := by
  cases processBlock_processed h with
  | tooFew fork hfew => rw [BlockEvent.taken, add_zero]
  | forked pid batch pool hfill => exact pooled_fill hfill
  | forkFailed errno batch pool hfill => exact pooled_fill hfill

end SimulazioneTransazioni.NodeLoop

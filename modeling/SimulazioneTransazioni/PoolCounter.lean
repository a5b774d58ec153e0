import SimulazioneTransazioni.NodeRun

/-!
The size field of a node's pool. The pool's own functions do not touch it: the
callers add one after each add_to_pool and subtract one after each
remove_from_pool. At every loop head it is the number of cells, which stays two
below SO_BLOCK_SIZE, so that a pass always finds the transactions of a block when
it goes for one, and SO_TP_SIZE is never reached.
-/
namespace SimulazioneTransazioni.PoolCounter

open Nodes NodeRun

structure Exact (n : ℕ) (pool : Pool) : Prop where
  size : pool.size.toNat = pool.cells.length
  le : pool.cells.length ≤ n

variable {n k : ℕ} {pool rest : Pool} {m : Message} {p p' : NodeProc} {par : Parameters}

theorem exact_init : Exact 0 transactionPoolInit := ⟨rfl, le_rfl⟩

theorem Exact.mono (h : Exact k pool) (hle : k ≤ n) : Exact n pool := ⟨h.size, h.le.trans hle⟩

/-- `add_to_pool; size++` -/
theorem Exact.add (h : Exact n pool) (hn : n < 2 ^ 32 - 1) (m : Message) :
    Exact (n + 1) (addToPool pool m).grow := by
  have hsize := h.size
  have hle := h.le
  constructor
  · have hgrow : (addToPool pool m).grow.size = pool.size + 1 := rfl
    rw [hgrow, Pool.grow_cells, addToPool_cells, List.length_append, List.length_singleton,
      UInt32.toNat_add, UInt32.toNat_one]
    omega
  · rw [Pool.grow_cells, addToPool_cells, List.length_append, List.length_singleton]
    omega

theorem take_size (h : removeFromPool pool = some (m, rest)) : rest.size = pool.size := by
  unfold removeFromPool at h
  split at h
  · contradiction
  · simp only [Option.some.injEq, Prod.mk.injEq] at h
    rw [← h.2]

/-- A decrement after a successful remove_from_pool does not wrap. -/
theorem Exact.take_pos (h : Exact n pool) (hrem : removeFromPool pool = some (m, rest)) :
    0 < rest.size := by
  have hsize := h.size
  rw [removeFromPool_eq_some hrem, List.length_cons, ← take_size hrem] at hsize
  apply UInt32.lt_iff_toNat_lt.mpr
  rw [UInt32.toNat_zero]
  omega

/-- `remove_from_pool; size--` -/
theorem Exact.take (h : Exact (n + 1) pool) (hrem : removeFromPool pool = some (m, rest)) :
    Exact n rest.shrink := by
  have hsize := h.size
  have hle := h.le
  have hlt := rest.size.toNat_lt
  rw [removeFromPool_eq_some hrem, List.length_cons] at hsize hle
  constructor
  · have hshrink : rest.shrink.size = rest.size - 1 := rfl
    rw [hshrink, Pool.shrink_cells, UInt32.toNat_sub, UInt32.toNat_one, take_size hrem]
    rw [take_size hrem] at hlt
    omega
  · rw [Pool.shrink_cells]
    omega

theorem exists_take (h : 0 < pool.cells.length) :
    ∃ m rest, removeFromPool pool = some (m, rest) := by
  unfold removeFromPool
  cases hcells : pool.cells with
  | nil => rw [hcells] at h; contradiction
  | cons head tail => exact ⟨head, _, rfl⟩

/-- A hop takes the head out and puts at most that message back. -/
theorem hopped_exact {o : HopOutcome} {e : HopEvent} (h : Exact (n + 1) p.transPool)
    (hn : n < 2 ^ 32 - 1) (hhop : Hopped o p p' e) : Exact (n + 1) p'.transPool := by
  cases hhop with
  | idle hempty => exact h
  | toMaster m rest errno hrem hhops => exact (h.take hrem).mono (Nat.le_succ n)
  | toFriend m rest errno queue hrem hhops hother hsend =>
    exact (h.take hrem).mono (Nat.le_succ n)
  | kept m rest errno queue hrem hhops hback => exact (h.take hrem).add hn _

theorem receiveTransaction_exact {o : FetchOutcome} (h : Exact n p.transPool)
    (hn : n < 2 ^ 32 - 1) : Exact (n + 1) (receiveTransaction o p).1.transPool := by
  unfold receiveTransaction
  split
  next errno mex _ => exact h.add hn mex
  next errno mex _ => exact h.mono (Nat.le_succ n)

theorem receiveFriend_transPool (o : FetchOutcome) (p : NodeProc) :
    (receiveFriend o p).transPool = p.transPool := by
  unfold receiveFriend
  split <;> rfl

theorem fetchMessages_exact {of : FetchOutcome} {oh : HopOutcome} {e : FetchEvent}
    (h : Exact (n + 1) p.transPool) (hn : n + 1 < 2 ^ 32 - 1)
    (hfetch : fetchMessages par of oh p = .ok (p', e)) : Exact (n + 2) p'.transPool := by
  cases fetchMessages_fetched hfetch with
  | received hroom =>
    show Exact (n + 2) (receiveFriend of (receiveTransaction of p).1).transPool
    rw [receiveFriend_transPool]
    exact receiveTransaction_exact h hn
  | hopped q e' hfull hhop =>
    have hq := hopped_exact h (by omega) hhop
    exact hq.mono (Nat.le_succ _)

theorem publishSize_transPool {nodesPID nodesPID' : List Node}
    (h : publishSize nodesPID p = .ok (nodesPID', p')) : p'.transPool = p.transPool := by
  rw [(publishSize_ok h).1]
  rfl

/-- Rounds of fill_block_transList on a pool that has the elements. -/
theorem fillBlockTransList_exact (h : Exact n pool) (hk : k ≤ pool.cells.length) :
    ∃ batch pool', fillBlockTransList k pool = .ok (batch, pool') ∧ Exact (n - k) pool' ∧
      pool'.cells.length + k = pool.cells.length := by
  induction k generalizing n pool with
  | zero => exact ⟨_, pool, rfl, h, rfl⟩
  | succ k ih =>
    obtain ⟨m, rest, hrem⟩ : ∃ m rest, removeFromPool pool = some (m, rest) :=
      exists_take (by omega)
    have hcells := removeFromPool_eq_some hrem
    have hlen : rest.shrink.cells.length + 1 = pool.cells.length := by
      rw [hcells, List.length_cons, Pool.shrink_cells]
    have hle := h.le
    have hrest : Exact (n - 1) rest.shrink := by
      refine Exact.take (h.mono ?_) hrem
      omega
    obtain ⟨batch, pool', hfill, hexact, hleft⟩ := ih hrest (by omega)
    refine ⟨m.userTrans ::ᵥ batch, pool', ?_, ?_, by omega⟩
    · simp only [fillBlockTransList, hrem, hfill, Except.map]
    · rwa [Nat.sub_sub, Nat.add_comm] at hexact

/-- Every round of fill_block_transList finds an element, and the decrement that
follows does not wrap. -/
def Fills (pool : Pool) : Prop :=
  ∀ k < soBlockSize - 1, ∃ batch pool' m rest, fillBlockTransList k pool = .ok (batch, pool') ∧
    removeFromPool pool' = some (m, rest) ∧ 0 < rest.size

theorem Exact.fills (h : Exact n pool) (hlen : soBlockSize - 1 ≤ pool.cells.length) :
    Fills pool := by
  intro k hk
  obtain ⟨batch, pool', hfill, hexact, hleft⟩ := fillBlockTransList_exact h (k := k) (by omega)
  obtain ⟨m, rest, hrem⟩ : ∃ m rest, removeFromPool pool' = some (m, rest) :=
    exists_take (by omega)
  exact ⟨batch, pool', m, rest, hfill, hrem, hexact.take_pos hrem⟩

/-- The second half of a pass takes a whole block or finds fewer elements. -/
theorem processBlock_exact (fork : ForkResult) (h : Exact (soBlockSize - 1) p.transPool) :
    ∃ p' e, processBlock fork p = .ok (p', e) ∧ Exact (soBlockSize - 2) p'.transPool := by
  unfold processBlock
  by_cases hsize : soBlockSize - 1 ≤ p.transPool.size.toNat
  · rw [if_pos hsize]
    rw [h.size] at hsize
    obtain ⟨batch, pool', hfill, hexact, -⟩ := fillBlockTransList_exact h hsize
    rw [hfill]
    cases fork with
    | parent pid => exact ⟨_, _, rfl, hexact.mono (by omega)⟩
    | failed e => exact ⟨_, _, rfl, hexact.mono (by omega)⟩
  · rw [if_neg hsize]
    rw [h.size] at hsize
    exact ⟨p, _, rfl, h.size, by omega⟩

/-- What holds of a pass: the test of the first half does not see a full pool, a
decrement of the hop does not wrap, and where the second half goes for a block it
finds all of its transactions and returns. -/
structure PassFits (par : Parameters) (s : State) (o : LoopOutcome) : Prop where
  notFull : s.proc.transPool.size < par.soTpSize
  hop : ∀ m rest, removeFromPool s.proc.transPool = some (m, rest) → 0 < rest.size
  fill : ∀ p e nodesPID q, fetchMessages par o.fetch o.hop s.proc = .ok (p, e) →
    publishSize s.nodesPID p = .ok (nodesPID, q) →
    q.transPool.size.toNat = q.transPool.cells.length ∧
      (soBlockSize - 1 ≤ q.transPool.size.toNat → Fills q.transPool) ∧
      ∃ r, processBlock o.fork q = .ok r

theorem next_exact {s s' : State} {o : LoopOutcome}
    (hs : Exact (soBlockSize - 2) s.proc.transPool) (h : next par s o = some s') :
    Exact (soBlockSize - 2) s'.proc.transPool := by
  obtain ⟨fetched, processed, hbody, -⟩ := next_cases h
  obtain ⟨p₁, p₂, hfetch, hpublish, hblock⟩ := loopBody_cases hbody
  have hp₁ := fetchMessages_exact (n := 7) hs (by decide) hfetch
  rw [← publishSize_transPool hpublish] at hp₁
  obtain ⟨p', e, hprocess, hexact⟩ := processBlock_exact o.fork hp₁
  rw [hprocess, Except.ok.injEq, Prod.mk.injEq] at hblock
  rw [← hblock.1]
  exact hexact

theorem passFits {s : State} (hs : Exact (soBlockSize - 2) s.proc.transPool)
    (htp : soBlockSize < par.soTpSize.toNat) (o : LoopOutcome) : PassFits par s o := by
  refine ⟨?_, fun m rest hrem => hs.take_pos hrem, ?_⟩
  · have hsize := hs.size
    have hle := hs.le
    apply UInt32.lt_iff_toNat_lt.mpr
    omega
  · intro p e nodesPID q hfetch hpublish
    have hq := fetchMessages_exact (n := 7) hs (by decide) hfetch
    rw [← publishSize_transPool hpublish] at hq
    obtain ⟨q', e', hprocess, -⟩ := processBlock_exact o.fork hq
    refine ⟨hq.size, fun hsize => hq.fills ?_, _, hprocess⟩
    rwa [hq.size] at hsize

/-- At every loop head the size is the number of cells and two below
SO_BLOCK_SIZE at most, and every pass from there fits, whatever its outcomes. -/
theorem pool_counter_exact (par : Parameters) (htp : soBlockSize < par.soTpSize.toNat)
    {s : State} (hs : (machine par).Reachable s) :
    s.proc.transPool.size.toNat = s.proc.transPool.cells.length ∧
      s.proc.transPool.cells.length ≤ soBlockSize - 2 ∧ ∀ o, PassFits par s o := by
  have hexact : Exact (soBlockSize - 2) s.proc.transPool := by
    refine hs.invariant (I := fun s => Exact (soBlockSize - 2) s.proc.transPool) ?_ ?_
    · rintro s ⟨hpool, -⟩
      rw [hpool]
      exact exact_init.mono (Nat.zero_le _)
    · intro s o s' hI _ hn
      exact next_exact hI hn
  exact ⟨hexact.size, hexact.le, passFits hexact htp⟩

def arrivals : List LoopOutcome := (List.range 5).map (pass (.parent 50))

theorem arrivals_run : ∃ s, (machine assignDefaults).run start arrivals = some s ∧
    s.proc.transPool.cells.length = 4 := ⟨_, rfl, rfl⟩

/-- After four arrivals. -/
theorem pool_counter_exact_arrivals : ∃ s, (machine assignDefaults).Reachable s ∧
    s.proc.transPool.size.toNat = 4 ∧ ∀ o, PassFits assignDefaults s o := by
  obtain ⟨s, hrun, hlen⟩ := arrivals_run
  have hs := Machine.reachable_of_run _ start_initial hrun
  obtain ⟨hsize, -, hfits⟩ := pool_counter_exact assignDefaults (by decide) hs
  exact ⟨s, hs, hsize.trans hlen, hfits⟩

end SimulazioneTransazioni.PoolCounter

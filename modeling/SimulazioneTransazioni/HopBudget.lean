import SimulazioneTransazioni.Network
import SimulazioneTransazioni.Library.Budget
import Mathlib.Algebra.Order.BigOperators.Group.List
import Mathlib.Tactic.Abel

/-!
The hops of a transaction over its whole life. The system is run with a log of
what send_to_random_friend does, and refines tokens with a budget: a user's send
issues one message with SO_HOPS on it, and each attempt at a friend takes one off,
whether the message then moves to the friend or goes back to the pool.
-/
namespace SimulazioneTransazioni.HopBudget

open Nodes Users Master Queues LedgerWriters Network

section Log

def fetched (par : Parameters) (s : World) (c : NodeCell) (o : NodeOutcome) :
    Option FetchEvent :=
  (s.receive par o c.proc).bind fun (received, _) =>
    match fetchMessages par received (s.hopOutcome c o) c.proc with
    | .error _ => none
    | .ok (_, e) => some e

def hopEvent : FetchEvent → Option HopEvent
  | .received _ => none
  | .hopped e => some e

def hopOf (par : Parameters) (s : World) : Label → Option HopEvent
  | .node i o =>
    (s.nodes[i]?).bind fun c =>
      if c.pc = .fetch then (fetched par s c o).bind hopEvent else none
  | _ => none

def moved : HopEvent → Option Transaction
  | .toFriend _ m true => some (token m)
  | _ => none

def putBack : HopEvent → Option Transaction
  | .kept m => some (token m)
  | _ => none

def transfers (t : Transaction) (log : List HopEvent) : ℕ :=
  log.countP fun e => moved e = some t

def failures (t : Transaction) (log : List HopEvent) : ℕ :=
  log.countP fun e => putBack e = some t

def attempts (log : List HopEvent) (t : Transaction) : ℕ := transfers t log + failures t log

theorem attempts_append (log : List HopEvent) (e : HopEvent) (t : Transaction) :
    attempts (log ++ [e]) t = attempts log t + attempts [e] t := by
  simp only [attempts, transfers, failures, List.countP_append]
  omega

def loggedMachine (par : Parameters) : Machine (World × List HopEvent) Label :=
  (machine par).recorded fun s l => (hopOf par s l).toList

end Log

section Messages

def cells (c : NodeCell) : Multiset Message := (c.proc.transPool.cells : List Message)

def messages (s : World) : Multiset Message :=
  waiting (fun _ => True) s.queues + (s.nodes.map cells).sum

variable {par : Parameters} {s s' : World} {i : ℕ} {c c' : NodeCell} {o : NodeOutcome}
  {m : Message} {p p' : NodeProc}

theorem mem_messages_of_cells (hc : c ∈ s.nodes) (hm : m ∈ c.proc.transPool.cells) :
    m ∈ messages s := by
  have hle := List.le_sum_of_mem (List.mem_map_of_mem (f := cells) hc)
  exact Multiset.mem_add.mpr (Or.inr (Multiset.mem_of_le hle (Multiset.mem_coe.mpr hm)))

/-- A step of one node, which loses some messages and brings others. -/
theorem messages_node {lost new : Multiset Message} (hc : s.nodes[i]? = some c)
    (hnodes : s'.nodes = s.nodes.set i c')
    (hmoves : waiting (fun _ => True) s'.queues + cells c' + lost ≤
      waiting (fun _ => True) s.queues + cells c + new) :
    messages s' + lost ≤ messages s + new := by
  have hsum := Table.sum_set cells c' hc
  rw [← hnodes] at hsum
  refine le_of_add_le_add_right (a := cells c) ?_
  calc messages s' + lost + cells c
      = waiting (fun _ => True) s'.queues + ((s'.nodes.map cells).sum + cells c) + lost := by
        rw [messages]
        abel
    _ = waiting (fun _ => True) s'.queues + cells c' + lost + (s.nodes.map cells).sum := by
        rw [hsum]
        abel
    _ ≤ waiting (fun _ => True) s.queues + cells c + new + (s.nodes.map cells).sum :=
        add_le_add_left hmoves _
    _ = messages s + new + cells c := by
        rw [messages]
        abel

/-- A step of one node that brings no message. -/
theorem messages_settle (hc : s.nodes[i]? = some c) (hnodes : s'.nodes = s.nodes.set i c')
    (hqueues : waiting (fun _ => True) s'.queues + cells c' ≤
      waiting (fun _ => True) s.queues + cells c) : messages s' ≤ messages s := by
  have hmoves : messages s' + 0 ≤ messages s + 0 :=
    messages_node hc hnodes (by simpa using hqueues)
  simpa using hmoves

theorem take_cells {rest : Pool} (h : removeFromPool p.transPool = some (m, rest)) :
    ((p.withPool rest.shrink).transPool.cells : Multiset Message) + {m} =
      (p.transPool.cells : Multiset Message) := by
  rw [removeFromPool_eq_some h, ← Multiset.cons_coe, ← Multiset.singleton_add, add_comm]
  rfl

theorem put_cells (p : NodeProc) (m : Message) :
    ((p.put m).transPool.cells : Multiset Message) =
      (p.transPool.cells : Multiset Message) + {m} := by
  rw [NodeProc.put_transPool, Pool.grow_cells, addToPool_cells, ← Multiset.coe_add]
  rfl

/-- What a receive of a transaction takes from the queues it may put in the pool. -/
theorem received_le {queues queues' : List Queue} {failure : Option Errno} {id : Int32}
    {mex : MsgrcvResult Message} {friend : MsgrcvResult PidT}
    (hlisted : ∀ e, failure = some e → e ∈ receiveErrors)
    (h : rcvTrans queues failure id = some (mex, queues')) :
    waiting (fun _ => True) queues' +
        ((receiveTransaction ⟨mex, friend⟩ p).1.transPool.cells : Multiset Message) ≤
      waiting (fun _ => True) queues + (p.transPool.cells : Multiset Message) := by
  rcases waiting_rcvTrans (P := fun _ => True) h with ⟨m, rfl, hwaiting⟩ | ⟨e, hfail, rfl, rfl⟩
  · rw [if_pos trivial] at hwaiting
    rw [← hwaiting, add_assoc]
    refine add_le_add le_rfl ?_
    unfold receiveTransaction
    split
    next errno mex heq =>
      have hmex : m = mex := congrArg (fun r => r.2.2) heq
      rw [put_cells, add_comm, hmex]
    next => exact Multiset.le_add_left _ _
  · have herror : receiveStatus e = .ERROR := if_pos (hlisted e hfail)
    simp only [receiveTransaction, receiveMessage, herror]
    exact le_rfl

theorem receiveFriend_pool (of : FetchOutcome) (p : NodeProc) :
    (receiveFriend of p).transPool = p.transPool := by
  unfold receiveFriend
  split <;> rfl

theorem fill_cells {n : ℕ} {pool pool' : Pool} {batch : List.Vector Transaction n}
    (h : fillBlockTransList n pool = .ok (batch, pool')) :
    (pool'.cells : Multiset Message) ≤ (pool.cells : Multiset Message) := by
  obtain ⟨first, hcells, -⟩ := NodeLoop.fillBlockTransList_split h
  rw [hcells, ← Multiset.coe_add]
  exact Multiset.le_add_left _ _

end Messages

section Steps

variable {par : Parameters} {s s' : World} {i : ℕ} {c : NodeCell} {o : NodeOutcome}

theorem hopOf_node (hc : s.nodes[i]? = some c) : hopOf par s (.node i o) =
    if c.pc = .fetch then (fetched par s c o).bind hopEvent else none := by
  rw [hopOf, hc, Option.bind_some]

theorem waiting_create (queues : List Queue) (key : PidT) :
    waiting (fun _ => True) (queues ++ [create key]) = waiting (fun _ => True) queues := by
  rw [waiting, waiting, List.map_append, List.sum_append, List.map_singleton,
    List.sum_singleton]
  exact add_zero _

structure HopStep (s s' : World) (i : ℕ) (c : NodeCell) (o : NodeOutcome) (q : NodeProc)
    (e : HopEvent) : Prop where
  node : s.nodes[i]? = some c
  hop : Hopped (s.hopOutcome c o) c.proc q e
  nodes : s'.nodes = s.nodes.set i (c.goto .publish (q.withFlag 0))
  queues : s'.queues = World.deliver s.queues (.hopped e)

/-- A pass receives, and brings no message, or calls send_to_random_friend. -/
theorem fetch_messages {received : FetchOutcome} {queues : List Queue} {p : NodeProc}
    {e : FetchEvent} (hc : s.nodes[i]? = some c) (hpc : c.pc = .fetch)
    (hlisted : ∀ e, o.rcvFailure = some e → e ∈ receiveErrors)
    (hreceive : s.receive par o c.proc = some (received, queues))
    (hfetch : fetchMessages par received (s.hopOutcome c o) c.proc = .ok (p, e))
    (hs' : s' = (s.withQueues (World.deliver queues e)).setNode i (c.goto .publish p)) :
    (hopOf par s (.node i o) = none ∧ messages s' ≤ messages s) ∨
      ∃ q e, hopOf par s (.node i o) = some e ∧ HopStep s s' i c o q e := by
  have hevent : hopOf par s (.node i o) = hopEvent e := by
    rw [hopOf_node hc, if_pos hpc, fetched, hreceive, Option.bind_some]
    simp only [hfetch, Option.bind_some]
  rw [hevent, hs']
  unfold World.receive at hreceive
  cases fetchMessages_fetched hfetch with
  | received hroom =>
    rw [if_pos hroom] at hreceive
    obtain ⟨⟨mex, queues₁⟩, hrcv, hpair⟩ := Option.map_eq_some_iff.mp hreceive
    simp only [Prod.mk.injEq] at hpair
    obtain ⟨rfl, rfl⟩ := hpair
    refine Or.inl ⟨rfl, messages_settle hc rfl ?_⟩
    show waiting _ (rcvFriend queues₁ o.friendFailure c.proc.queueID).2 +
      ((receiveFriend _ (receiveTransaction _ c.proc).1).transPool.cells : Multiset Message) ≤ _
    rw [waiting_rcvFriend, receiveFriend_pool]
    exact received_le hlisted hrcv
  | hopped q e' hfull hhop =>
    rw [if_neg hfull, Option.some.injEq,
      Prod.mk.injEq] at hreceive
    obtain ⟨-, rfl⟩ := hreceive
    exact Or.inr ⟨q, e', rfl, hc, hhop, rfl, rfl⟩

/-- A step of a node that is not a hop brings no message. -/
theorem nodeStep_messages (hlisted : ∀ e, o.rcvFailure = some e → e ∈ receiveErrors)
    (h : s.nodeStep par i o = some s') :
    (hopOf par s (.node i o) = none ∧ messages s' ≤ messages s) ∨
      ∃ c q e, hopOf par s (.node i o) = some e ∧ HopStep s s' i c o q e := by
  obtain ⟨c, hc, hdid⟩ := nodeStep_did h
  have hquiet : c.pc ≠ .fetch → hopOf par s (.node i o) = none := by
    intro hpc
    rw [hopOf_node hc, if_neg hpc]
  cases hdid with
  | creates hpc =>
    refine Or.inl ⟨hquiet (by simp [hpc]), messages_settle hc rfl ?_⟩
    show waiting _ (s.queues ++ [create c.proc.myPID]) + cells c ≤ _
    rw [waiting_create]
  | searches errno queueID hpc =>
    exact Or.inl ⟨hquiet (by simp [hpc]), messages_settle hc rfl le_rfl⟩
  | attaches errno size hpc =>
    exact Or.inl ⟨hquiet (by simp [hpc]), messages_settle hc rfl le_rfl⟩
  | befriends friendMex friend errno result queues hpc hawait =>
    refine Or.inl ⟨hquiet (by simp [hpc]), messages_settle hc rfl ?_⟩
    show waiting _ queues + cells c ≤ _
    rw [waiting_awaitFriend hawait]
  | starts friendMex hpc hlength =>
    refine Or.inl ⟨hquiet (by simp [hpc]), messages_settle hc rfl (add_le_add le_rfl ?_)⟩
    exact Multiset.zero_le _
  | fetches received queues p e hpc hreceive hfetch =>
    rcases fetch_messages hc hpc hlisted hreceive hfetch rfl with hsettle | ⟨q, e, hhop, hcase⟩
    · exact Or.inl hsettle
    · exact Or.inr ⟨c, q, e, hhop, hcase⟩
  | publishes nodesPID p hpc hsize =>
    refine Or.inl ⟨hquiet (by simp [hpc]), messages_settle hc rfl (add_le_add le_rfl ?_)⟩
    rw [(publishSize_ok hsize).1]
    exact le_rfl
  | processes p e hpc hblock =>
    refine Or.inl ⟨hquiet (by simp [hpc]), messages_settle hc rfl (add_le_add le_rfl ?_)⟩
    have hdone := processBlock_processed hblock
    generalize o.fork = outcome at hdone
    cases hdone with
    | tooFew fork hfew => exact le_rfl
    | forked pid batch pool hfill => exact fill_cells hfill
    | forkFailed errno batch pool hfill => exact fill_cells hfill

theorem sentBy_messages (u : ℕ) (p : UserProc) :
    messages (s.sentBy u p .sent) ≤ messages s + {p.transMsg} := by
  have hle := waiting_pushTrans_le (P := fun _ => True) s.queues p.queueID p.transMsg
  rw [if_pos trivial] at hle
  calc messages (s.sentBy u p .sent)
      = waiting (fun _ => True) (pushTrans s.queues p.queueID p.transMsg) +
          (s.nodes.map cells).sum := rfl
    _ ≤ waiting (fun _ => True) s.queues + {p.transMsg} + (s.nodes.map cells).sum :=
        add_le_add_left hle _
    _ = messages s + {p.transMsg} := by
        rw [messages]
        abel

theorem cells_newNodes (nodePID : PidT) : ((s.newNodes nodePID).map cells).sum = 0 := by
  unfold World.newNodes
  split <;> rfl

theorem listenerStep_messages {o : ListenerOutcome} (h : s.listenerStep par o = some s') :
    messages s' ≤ messages s := by
  unfold messages
  cases (listenerStep_cases h).2 with
  | took failure result hqueues hnodes =>
    rw [hnodes]
    exact add_le_add_left (waiting_rcvTrans_drop hqueues) _
  | spawned nodePID hfork hqueues hnodes =>
    rw [hqueues, hnodes, List.map_append, List.sum_append, cells_newNodes, add_zero]
  | befriended queue friend hqueues hnodes => rw [hqueues, hnodes, waiting_pushFriend]
  | idle hqueues hnodes => rw [hqueues, hnodes]

end Steps

section Budget

def shown (m : Message) : Transaction × ℤ := (token m, m.hops.toInt)

def budget (s : World) (log : List HopEvent) : Budget.State Transaction where
  issued := s.sent
  copies := (messages s).map shown
  spent := attempts log

variable {par : Parameters} {s s' : World} {i : ℕ} {c : NodeCell} {o : NodeOutcome}
  {q : NodeProc} {e : HopEvent} {log : List HopEvent} {m : Message}

theorem shown_less (hhops : 0 < m.hops) :
    shown { m with hops := m.hops - 1 } = (token m, m.hops.toInt - 1) := by
  have hpos : (0 : Int32).toInt < m.hops.toInt := Int32.lt_iff_toInt_lt.mp hhops
  have hlt := m.hops.toInt_lt
  have hone : (1 : Int32).toInt = 1 := rfl
  rw [Int32.toInt_zero] at hpos
  have hless : (m.hops - 1).toInt = m.hops.toInt - 1 := by
    rw [Int32.toInt_sub, hone]
    exact Int.bmod_eq_of_le (by omega) (by omega)
  exact congrArg (Prod.mk (token m)) hless

theorem attempts_spent {t : Transaction} (h : ∀ t', attempts [e] t' = if t' = t then 1 else 0) :
    attempts (log ++ [e]) = Function.update (attempts log) t (attempts log t + 1) := by
  funext t'
  rw [attempts_append, h t']
  by_cases ht : t' = t
  · rw [if_pos ht, ht, Function.update_self]
  · rw [if_neg ht, Function.update_of_ne ht, add_zero]

theorem attempts_same (h : ∀ t, attempts [e] t = 0) : attempts (log ++ [e]) = attempts log := by
  funext t
  rw [attempts_append, h t, add_zero]

/-- A hop that moved the transaction or put it back is one attempt at it. -/
theorem attempts_tried {t₀ : Transaction}
    (he : (moved e = some t₀ ∧ putBack e = none) ∨ (moved e = none ∧ putBack e = some t₀))
    (t : Transaction) : attempts [e] t = if t = t₀ then 1 else 0 := by
  rcases he with ⟨hmoved, hback⟩ | ⟨hmoved, hback⟩
  · by_cases ht : t = t₀
    · simp [attempts, transfers, failures, hmoved, hback, ht]
    · simp [attempts, transfers, failures, hmoved, hback, ht, Ne.symm ht]
  · by_cases ht : t = t₀
    · simp [attempts, transfers, failures, hmoved, hback, ht]
    · simp [attempts, transfers, failures, hmoved, hback, ht, Ne.symm ht]

theorem HopStep.messages_le (h : HopStep s s' i c o q e) {lost new : Multiset Message}
    (hmoves : waiting (fun _ => True) (World.deliver s.queues (.hopped e)) +
        (q.transPool.cells : Multiset Message) + lost ≤
      waiting (fun _ => True) s.queues + cells c + new) :
    messages s' + lost ≤ messages s + new := by
  refine messages_node h.node h.nodes ?_
  rw [h.queues]
  exact hmoves

/-- What the pool loses when a hop takes its head, and what the hop makes of it. -/
theorem HopStep.took {new : Multiset Message} {rest : Pool} {errno : Errno}
    (h : HopStep s s' i c o ((c.proc.withPool rest.shrink).withErrno errno) e)
    (hrem : removeFromPool c.proc.transPool = some (m, rest))
    (hqueues : waiting (fun _ => True) (World.deliver s.queues (.hopped e)) ≤
      waiting (fun _ => True) s.queues + new) :
    messages s' + {m} ≤ messages s + new := by
  refine h.messages_le ?_
  have hcells := take_cells (p := c.proc) hrem
  calc waiting (fun _ => True) (World.deliver s.queues (.hopped e)) +
        ((c.proc.withPool rest.shrink).transPool.cells : Multiset Message) + {m}
      = waiting (fun _ => True) (World.deliver s.queues (.hopped e)) + cells c := by
        rw [add_assoc, hcells]
        rfl
    _ ≤ waiting (fun _ => True) s.queues + new + cells c := add_le_add_left hqueues _
    _ = waiting (fun _ => True) s.queues + cells c + new := add_right_comm _ _ _

theorem HopStep.returned {rest : Pool} {errno : Errno} {m' : Message}
    (h : HopStep s s' i c o (((c.proc.withPool rest.shrink).withErrno errno).put m') (.kept m'))
    (hrem : removeFromPool c.proc.transPool = some (m, rest)) :
    messages s' + {m} ≤ messages s + {m'} := by
  refine h.messages_le (le_of_eq ?_)
  have hcells := take_cells (p := c.proc) hrem
  calc waiting (fun _ => True) s.queues +
        ((((c.proc.withPool rest.shrink).withErrno errno).put m').transPool.cells :
          Multiset Message) + {m}
      = waiting (fun _ => True) s.queues +
          (((c.proc.withPool rest.shrink).transPool.cells : Multiset Message) + {m}) + {m'} := by
        rw [put_cells, NodeProc.withErrno_transPool]
        abel
    _ = waiting (fun _ => True) s.queues + cells c + {m'} := by
        rw [hcells]
        rfl

theorem waiting_sent (queues : List Queue) (queue : Int32) (m : Message) :
    waiting (fun _ => True) (pushTrans queues queue m) ≤
      waiting (fun _ => True) queues + {m} := by
  have hle := waiting_pushTrans_le (P := fun _ => True) queues queue m
  rwa [if_pos trivial] at hle

/-- A call of send_to_random_friend spends one unit of the transaction at the head
of the pool, or none. -/
theorem HopStep.spends {full : ℤ} (h : HopStep s s' i c o q e)
    (hsound : Budget.Sound full (budget s log)) (hsent : s'.sent = s.sent) :
    Budget.Step full (budget s log) (budget s' (log ++ [e])) := by
  have hhop := h.hop
  cases hhop with
  | idle hempty =>
    refine .settle hsent (attempts_same fun t => rfl) (Multiset.map_le_map ?_)
    have hmoves : messages s' + 0 ≤ messages s + 0 := h.messages_le le_rfl
    simpa using hmoves
  | toMaster m rest errno hrem hhops =>
    refine .settle hsent (attempts_same fun t => rfl) (Multiset.map_le_map ?_)
    have hin : m ∈ messages s := by
      apply mem_messages_of_cells (List.mem_of_getElem? h.node)
      rw [removeFromPool_eq_some hrem]
      exact List.mem_cons_self
    have hnonneg := (hsound.balanced _ (Multiset.mem_map_of_mem shown hin)).1
    have hzero : m.hops = 0 :=
      Int32.toInt_inj.mp (le_antisymm (Int32.le_iff_toInt_le.mp hhops) hnonneg)
    have hsame : { m with hops := 0 } = m := by rw [← hzero]
    rw [hsame] at h
    refine le_of_add_le_add_right (h.took hrem ?_)
    cases hmsgsnd : decide ((s.hopOutcome c o).msgsnd
        ((s.hopOutcome c o).msgget (s.hopOutcome c o).getppid).queue = .sent) with
    | false => exact Multiset.le_add_right _ _
    | true => exact waiting_sent _ _ _
  | toFriend m rest errno queue hrem hhops hother hsend =>
    cases hmsgsnd : decide ((s.hopOutcome c o).msgsnd queue = .sent) with
    | false =>
      rw [hmsgsnd] at h
      refine .settle hsent (attempts_same fun t => rfl) (Multiset.map_le_map ?_)
      have htook : messages s' + {m} ≤ messages s + 0 := h.took hrem (Multiset.le_add_right _ _)
      rw [add_zero] at htook
      exact (Multiset.le_add_right _ _).trans htook
    | true =>
      rw [hmsgsnd] at h
      have htook := h.took hrem (waiting_sent _ _ _)
      have hcopies := Multiset.map_le_map (f := shown) htook
      rw [Multiset.map_add, Multiset.map_add, Multiset.map_singleton, Multiset.map_singleton,
        shown_less hhops] at hcopies
      refine .spend (token m) m.hops.toInt ?_ hsent ?_ hcopies
      · exact Int32.lt_iff_toInt_lt.mp hhops
      · exact attempts_spent (attempts_tried (Or.inl ⟨rfl, rfl⟩))
  | kept m rest errno queue hrem hhops hback =>
    have hcopies := Multiset.map_le_map (f := shown) (h.returned hrem)
    rw [Multiset.map_add, Multiset.map_add, Multiset.map_singleton, Multiset.map_singleton,
      shown_less hhops] at hcopies
    refine .spend (token m) m.hops.toInt ?_ hsent ?_ hcopies
    · exact Int32.lt_iff_toInt_lt.mp hhops
    · exact attempts_spent (attempts_tried (Or.inr ⟨rfl, rfl⟩))

theorem attempts_quiet : attempts (log ++ []) = attempts log := by rw [List.append_nil]

theorem userStep_budget {full : ℤ} {u : ℕ} {a : Order} (h : s.userStep par u a = some s')
    (hfull : (MachineInt.intOfUnsigned par.soHops).toInt = full) :
    Budget.Step full (budget s log) (budget s' (log ++ [])) := by
  obtain ⟨p, p', result, -, rfl, -, -, hstatus, hhops, hfresh⟩ := userStep_cases h
  cases result with
  | failed e => exact .settle rfl attempts_quiet le_rfl
  | sent =>
    have hshown : shown p'.transMsg = (p'.transMsg.userTrans, full) := by
      rw [shown, token, Transaction.asSent, ← hstatus, hhops, hfull]
    have hcopies := Multiset.map_le_map (f := shown) (sentBy_messages (s := s) u p')
    rw [Multiset.map_add, Multiset.map_singleton, hshown] at hcopies
    exact .issue p'.transMsg.userTrans hfresh rfl attempts_quiet hcopies

/-- Every step of the system is a step of the budget. -/
theorem next_budget {full : ℤ} {l : Label}
    (hfull : (MachineInt.intOfUnsigned par.soHops).toInt = full)
    (hsound : Budget.Sound full (budget s log)) (hC : Received s l)
    (h : World.next par s l = some s') :
    Budget.Step full (budget s log) (budget s' (log ++ (hopOf par s l).toList)) := by
  cases l with
  | user u a => exact userStep_budget h hfull
  | node i o =>
    have hsent := (nodeStep_same h).2
    rcases nodeStep_messages hC h with ⟨hnone, hle⟩ | ⟨c, q, e, hsome, hstep⟩
    · rw [hnone]
      exact .settle hsent attempts_quiet (Multiset.map_le_map hle)
    · rw [hsome]
      exact hstep.spends hsound hsent
  | child c reading =>
    obtain ⟨w, -, hrest⟩ := Option.bind_eq_some_iff.mp h
    obtain ⟨r, -, rfl⟩ := Option.map_eq_some_iff.mp hrest
    exact .settle rfl attempts_quiet le_rfl
  | listener o =>
    exact .settle (listenerStep_cases h).1.sent attempts_quiet
      (Multiset.map_le_map (listenerStep_messages h))

theorem initial_messages (h : Initial par s) : messages s = 0 := by
  have hqueues : waiting (fun _ => True) s.queues = 0 := by
    refine List.sum_eq_zero fun x hx => ?_
    obtain ⟨q, hq, rfl⟩ := List.mem_map.mp hx
    rw [if_pos trivial, h.trans q hq]
    rfl
  have hnodes : (s.nodes.map cells).sum = 0 := by
    refine List.sum_eq_zero fun x hx => ?_
    obtain ⟨c, hc, rfl⟩ := List.mem_map.mp hx
    rw [(h.nodes c hc).1]
    rfl
  rw [messages, hqueues, hnodes, add_zero]

/-- In every run, every message shows what its transaction has not spent. -/
theorem logged_sound (hfits : par.soHops.toNat < 2 ^ 31)
    (h : (loggedMachine par).Reach (fun r l => Received r.1 l) (s, log)) :
    Budget.Sound par.soHops.toNat (budget s log) := by
  have hfull := MachineInt.toInt_intOfUnsigned par.soHops hfits
  have hboth := Machine.recorded_invariant (r := (s, log))
    (I := fun r => Budget.Sound par.soHops.toNat (budget r.1 r.2)) h ?_ ?_
  · exact hboth.2
  · intro s hs
    refine ⟨?_, ?_, fun t _ => rfl, fun t => Int.natCast_nonneg _, ?_⟩
    · show s.sent.Nodup
      rw [hs.sent]
      exact List.nodup_nil
    · simp only [budget, initial_messages hs]
      exact Multiset.zero_le _
    · intro p hp
      simp only [budget, initial_messages hs] at hp
      exact absurd hp (Multiset.notMem_zero p)
  · intro s log l s' _ hsound hC hn
    exact hsound.step (Int.natCast_nonneg _) (next_budget hfull hsound hC hn)

end Budget
end SimulazioneTransazioni.HopBudget

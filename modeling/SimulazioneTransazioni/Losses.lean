import SimulazioneTransazioni.Confirmation

/-!
Every transaction that a user has sent, followed over a run of the whole
system. It is on a queue, in a pool, in the hands of a child or in the ledger,
or it is in the log of what was lost. There are five ways to be lost: a node
receives the message and does not take it, a hop finds no queue that takes it,
a fork fails after the batch has left the pool, a child writes over a block, or
the master's child takes the message for a new node and drops it.
-/
namespace SimulazioneTransazioni.Losses

open Nodes Users Master Queues LedgerWriters Network NetworkTokens NetworkWiring Blocks
open Confirmation (total places count_places)

inductive Loss
  | ignored (m : Message)
  | discarded (m : Message)
  | forkFailed (batch : Batch)
  | overwritten (b : Block)
  | absorbed (m : Message)

namespace Loss

def trans : Loss → Multiset Transaction
  | .ignored m => {token m}
  | .discarded m => {token m}
  | .forkFailed batch => sentOf (batch.toList : List Transaction)
  | .overwritten b => recorded b
  | .absorbed m => {token m}

end Loss

/-- A message that was delivered, and not put in the pool. -/
def receiveLosses : MsgrcvResult Message → Option Message → List Loss
  | .delivered m, none => [.ignored m]
  | _, _ => []

/-- send_message may count as SUCCESS what msgsnd did not send. -/
def hopLosses : HopEvent → List Loss
  | .toMaster _ m false => [.discarded m]
  | .toFriend _ m false => [.discarded m]
  | _ => []

def fetchLosses (fetched : FetchOutcome) : FetchEvent → List Loss
  | .received m => receiveLosses fetched.rcvTrans m
  | .hopped e => hopLosses e

def blockLosses : BlockEvent → List Loss
  | .forkFailed batch => [.forkFailed batch]
  | _ => []

def nodeLosses (par : Parameters) (s : World) (c : NodeCell) (o : NodeOutcome) : List Loss :=
  match c.pc with
  | .fetch =>
    match s.receive par o c.proc with
    | none => []
    | some (fetched, _) =>
      match fetchMessages par fetched (s.hopOutcome c o) c.proc with
      | .error _ => []
      | .ok (_, e) => fetchLosses fetched e
  | .process =>
    match processBlock o.fork c.proc with
    | .error _ => []
    | .ok (_, e) => blockLosses e
  | _ => []

def childLosses (ledger : Ledger) (w : Writer) : List Loss :=
  match w.pc with
  | .writing _ i => [.overwritten (ledger.get i)]
  | _ => []

/-- The listener copies nothing of a message that it receives. -/
def absorbed : Option (MsgrcvResult Message × List Queue) → List Loss
  | some (.delivered m, _) => [.absorbed m]
  | _ => []

def listenerLosses (s : World) (o : ListenerOutcome) : List Loss :=
  match s.listener.pc with
  | .receive => absorbed (rcvTrans s.queues o.rcvFailure s.master)
  | _ => []

def losses (par : Parameters) (s : World) : Label → List Loss
  | .user _ _ => []
  | .node i o => (s.nodes[i]?).elim [] fun c => nodeLosses par s c o
  | .child c _ => (s.children[c]?).elim [] fun w => childLosses s.ledger w
  | .listener o => listenerLosses s o

def lost (log : List Loss) : Multiset Transaction := (log.map Loss.trans).sum

abbrev logged (par : Parameters) : Machine (World × List Loss) Label :=
  (Network.machine par).recorded (losses par)

def allHeld (queues : List Queue) : Multiset Transaction := held (fun _ => True) queues

@[simp] theorem lost_nil : lost [] = 0 := rfl

@[simp] theorem lost_singleton (l : Loss) : lost [l] = l.trans := by
  rw [lost, List.map_singleton, List.sum_singleton]

theorem lost_append (log log' : List Loss) : lost (log ++ log') = lost log + lost log' := by
  rw [lost, List.map_append, List.sum_append, lost, lost]

section Queues

variable {queues queues' : List Queue} {id : Int32} {m : Message}

theorem mem_keys_of_sent {failure : Option Errno} (h : msgsnd queues failure id = .sent) :
    id ∈ queues.map Queue.key := by
  unfold msgsnd at h
  split at h
  · contradiction
  · split at h
    next hin => exact hin
    next => contradiction

theorem allHeld_pushTrans (h : id ∈ queues.map Queue.key) :
    allHeld (pushTrans queues id m) = allHeld queues + {token m} := by
  obtain ⟨q, hq⟩ := exists_lookup h
  have hmod := waiting_modify (P := fun _ => True) hq
    (f := fun q => q.withTrans (q.trans ++ [m])) rfl
  simp only [if_true, Queue.withTrans, ← Multiset.coe_add] at hmod
  have hpush : waiting (fun _ => True) (pushTrans queues id m) =
      waiting (fun _ => True) queues + {m} := by
    refine add_right_cancel (b := (q.trans : Multiset Message)) ?_
    rw [add_assoc, add_comm ({m} : Multiset Message)]
    exact hmod
  rw [allHeld, allHeld, held_eq_map, held_eq_map, hpush, Multiset.map_add,
    Multiset.map_singleton]

theorem allHeld_takeTrans (h : takeTrans queues id = some (m, queues')) :
    allHeld queues' + {token m} = allHeld queues := by
  have htake := held_takeTrans (P := fun _ => True) h
  rwa [if_pos trivial] at htake

end Queues

section Sends

variable {par : Parameters} {usersPID : List User} {a : Attempt} {amount reward : Int32}
  {p : UserProc} {r : ReturnCode × UserProc}

theorem sendTransaction_queueID (result : MsgsndResult) (p : UserProc) :
    (sendTransaction result p).2.queueID = p.queueID := by
  unfold sendTransaction
  split <;> rfl

/-- The queue of a send is the one that queue_to_pid found. -/
theorem sendFresh_queue (h : sendFresh par usersPID a amount reward p = .ok r) :
    ∃ q, queueToPid a.queues p = .ok q ∧ r.2.queueID = q.queueID := by
  unfold sendFresh at h
  cases hdraw : getRandomUserPID par usersPID p.myPID a.userDraws with
  | error fault => simp [hdraw, bind, Except.bind] at h
  | ok userPID =>
    cases hqueue : queueToPid a.queues p with
    | error fault => simp [hdraw, hqueue, bind, Except.bind] at h
    | ok q =>
      simp only [hdraw, hqueue, bind, Except.bind, pure, Except.pure, Except.ok.injEq] at h
      refine ⟨q, rfl, ?_⟩
      rw [← h, sendTransaction_queueID]
      rfl

end Sends

section Steps

variable {par : Parameters} {s s' : World}

def Idle (s : World) : Prop :=
  ∀ c ∈ s.nodes, c.pc ≠ .fetch ∧ c.pc ≠ .publish ∧ c.pc ≠ .process →
    c.proc.transPool.cells = []

/-- A step of one node that passes its transactions on. -/
theorem total_node {c c' : NodeCell} {i : ℕ} {log : List Loss}
    (hc : s.nodes[i]? = some c) (hnodes : s'.nodes = s.nodes.set i c')
    (hledger : s'.ledger = s.ledger)
    (hmoves : allHeld s'.queues + (s'.children.map processing).sum + holding c' + lost log =
      allHeld s.queues + (s.children.map processing).sum + holding c) :
    total s' + lost log = total s := by
  have hsum := Table.sum_set holding c' hc
  rw [← hnodes] at hsum
  refine add_right_cancel (b := holding c) ?_
  calc total s' + lost log + holding c
      = allHeld s'.queues + (s'.children.map processing).sum +
          ((s'.nodes.map holding).sum + holding c) + lost log +
          (s'.ledger.toList.map recorded).sum := by
        rw [total, account, allHeld]
        abel
    _ = allHeld s'.queues + (s'.children.map processing).sum + holding c' + lost log +
          ((s.nodes.map holding).sum + (s.ledger.toList.map recorded).sum) := by
        rw [hsum, hledger]
        abel
    _ = allHeld s.queues + (s.children.map processing).sum + holding c +
          ((s.nodes.map holding).sum + (s.ledger.toList.map recorded).sum) := by
        rw [hmoves]
    _ = total s + holding c := by
        rw [total, account, allHeld]
        abel

theorem total_idle {c c' : NodeCell} {i : ℕ} (hc : s.nodes[i]? = some c)
    (hnodes : s'.nodes = s.nodes.set i c') (hledger : s'.ledger = s.ledger)
    (hchildren : s'.children = s.children) (hqueues : allHeld s'.queues = allHeld s.queues)
    (hpool : holding c' = holding c) : total s' + lost [] = total s := by
  refine total_node hc hnodes hledger ?_
  rw [hqueues, hchildren, hpool, lost_nil, add_zero]

/-- What a node receives is in its pool or ignored. -/
theorem allHeld_rcvTrans {queues : List Queue} {failure : Option Errno} {id : Int32}
    {mex : MsgrcvResult Message} (friend : MsgrcvResult PidT) (p : NodeProc)
    (hreceived : ∀ e, failure = some e → e ∈ receiveErrors)
    (h : rcvTrans s.queues failure id = some (mex, queues)) :
    allHeld queues +
        sentOf (NodeLoop.FetchEvent.arrived (.received (receiveTransaction ⟨mex, friend⟩ p).2)) +
        lost (receiveLosses mex (receiveTransaction ⟨mex, friend⟩ p).2) = allHeld s.queues := by
  unfold rcvTrans at h
  cases failure with
  | some e =>
    simp only [Option.some.injEq, Prod.mk.injEq] at h
    obtain ⟨rfl, rfl⟩ := h
    have herror : receiveStatus e = .ERROR := if_pos (hreceived e rfl)
    simp only [receiveTransaction, receiveMessage, herror, NodeLoop.FetchEvent.arrived,
      receiveLosses, sentOf_zero, lost_nil, add_zero]
  | none =>
    obtain ⟨⟨m, queues₁⟩, htake, hpair⟩ := Option.map_eq_some_iff.mp h
    simp only [Prod.mk.injEq] at hpair
    obtain ⟨rfl, rfl⟩ := hpair
    rw [← allHeld_takeTrans htake]
    cases hstatus : receiveStatus p.errno with
    | SUCCESS =>
      simp only [receiveTransaction, receiveMessage, hstatus, NodeLoop.FetchEvent.arrived,
        receiveLosses, lost_nil, add_zero]
      rfl
    | ERROR =>
      simp only [receiveTransaction, receiveMessage, hstatus, NodeLoop.FetchEvent.arrived,
        receiveLosses, sentOf_zero, lost_singleton, add_zero]
      rfl

/-- What a hop takes from the pool is on a queue or discarded. -/
theorem allHeld_hop {c : NodeCell} {o : NodeOutcome} {p : NodeProc} {e : HopEvent}
    (h : Hopped (s.hopOutcome c o) c.proc p e) :
    allHeld (World.deliver s.queues (.hopped e)) + lost (hopLosses e) =
      allHeld s.queues + sentOf (NodeLoop.HopEvent.taken e) := by
  have hone : ∀ {queue : Int32} {m : Message}, msgsnd s.queues o.sndFailure queue = .sent →
      allHeld (pushTrans s.queues queue m) + lost [] =
        allHeld s.queues + sentOf (NodeLoop.one m) := by
    intro queue m hsent
    rw [lost_nil, add_zero, allHeld_pushTrans (mem_keys_of_sent hsent)]
    rfl
  cases h with
  | idle hempty => rfl
  | toMaster m rest errno hrem hhops =>
    by_cases hsent : (s.hopOutcome c o).msgsnd
        ((s.hopOutcome c o).msgget (s.hopOutcome c o).getppid).queue = .sent
    · simp only [hsent, decide_true]
      exact hone hsent
    · simp only [hsent, decide_false]
      show allHeld s.queues + lost [_] = _
      rw [lost_singleton]
      rfl
  | toFriend m rest errno queue hrem hhops hother hsend =>
    by_cases hsent : (s.hopOutcome c o).msgsnd queue = .sent
    · simp only [hsent, decide_true]
      exact hone hsent
    · simp only [hsent, decide_false]
      show allHeld s.queues + lost [_] = _
      rw [lost_singleton]
      rfl
  | kept m rest errno queue hrem hhops hback => rfl

/-- What a pass takes from the queues is in the pool, back on a queue, or in the log. -/
theorem allHeld_fetch {c : NodeCell} {o : NodeOutcome} {fetched : FetchOutcome}
    {queues : List Queue} {p : NodeProc} {e : FetchEvent}
    (hreceived : ∀ e, o.rcvFailure = some e → e ∈ receiveErrors)
    (hreceive : s.receive par o c.proc = some (fetched, queues))
    (hfetch : fetchMessages par fetched (s.hopOutcome c o) c.proc = .ok (p, e)) :
    allHeld (World.deliver queues e) + sentOf (NodeLoop.FetchEvent.arrived e) +
        lost (fetchLosses fetched e) =
      allHeld s.queues + sentOf (NodeLoop.FetchEvent.taken e) := by
  unfold World.receive at hreceive
  cases fetchMessages_fetched hfetch with
  | received hroom =>
    rw [if_pos hroom] at hreceive
    obtain ⟨⟨mex, queues₁⟩, hrcv, hpair⟩ := Option.map_eq_some_iff.mp hreceive
    simp only [Prod.mk.injEq] at hpair
    obtain ⟨rfl, rfl⟩ := hpair
    rw [← allHeld_rcvTrans (rcvFriend queues₁ o.friendFailure c.proc.queueID).1 c.proc
      hreceived hrcv]
    show allHeld (rcvFriend queues₁ o.friendFailure c.proc.queueID).2 + _ + _ = _ + sentOf 0
    rw [allHeld, held_rcvFriend, sentOf_zero, add_zero]
    rfl
  | hopped q e' hfull hhop =>
    rw [if_neg hfull, Option.some.injEq,
      Prod.mk.injEq] at hreceive
    obtain ⟨rfl, rfl⟩ := hreceive
    show _ + sentOf 0 + lost (hopLosses e') = _ + sentOf (NodeLoop.HopEvent.taken e')
    rw [sentOf_zero, add_zero]
    exact allHeld_hop hhop

theorem total_process {i : ℕ} {c : NodeCell} {p : NodeProc} {fork : ForkResult} {e : BlockEvent}
    (hc : s.nodes[i]? = some c) (hblock : processBlock fork c.proc = .ok (p, e)) :
    total ({ s with children := s.children ++ World.childrenOf c.proc.myPID e }.setNode i
      (c.goto .fetch p)) + lost (blockLosses e) = total s := by
  have hpool := congrArg sentOf (NodeLoop.processBlock_pooled hblock)
  rw [sentOf_add] at hpool
  have htaken : ((World.childrenOf c.proc.myPID e).map processing).sum + lost (blockLosses e) =
      sentOf (NodeLoop.BlockEvent.taken e) := by
    cases e with
    | tooFew => rfl
    | forked pid batch => exact (add_zero _).trans (add_zero _)
    | forkFailed batch => exact (zero_add _).trans (lost_singleton _)
  refine total_node hc rfl rfl ?_
  show allHeld s.queues + ((s.children ++ World.childrenOf c.proc.myPID e).map processing).sum +
    sentOf (NodeLoop.pooled p) + lost (blockLosses e) = _
  rw [List.map_append, List.sum_append, holding, ← hpool, ← htaken]
  abel

/-- A step of a node loses what its part of the log says. -/
theorem nodeStep_total {i : ℕ} {o : NodeOutcome} (hidle : Idle s)
    (hreceived : ∀ e, o.rcvFailure = some e → e ∈ receiveErrors)
    (h : s.nodeStep par i o = some s') :
    total s' + lost (losses par s (.node i o)) = total s := by
  obtain ⟨c, hc, hdid⟩ := nodeStep_did h
  have hlosses : losses par s (.node i o) = nodeLosses par s c o := by
    rw [losses, hc]
    rfl
  rw [hlosses]
  cases hdid with
  | creates hpc =>
    rw [show nodeLosses par s c o = [] by rw [nodeLosses, hpc]]
    exact total_idle hc rfl rfl rfl (held_create _ _) rfl
  | searches errno queueID hpc =>
    rw [show nodeLosses par s c o = [] by rw [nodeLosses, hpc]]
    exact total_idle hc rfl rfl rfl rfl rfl
  | attaches errno size hpc =>
    rw [show nodeLosses par s c o = [] by rw [nodeLosses, hpc]]
    exact total_idle hc rfl rfl rfl rfl rfl
  | befriends friendMex friend errno result queues hpc hawait =>
    rw [show nodeLosses par s c o = [] by rw [nodeLosses, hpc]]
    exact total_idle hc rfl rfl rfl (held_awaitFriend hawait) rfl
  | starts friendMex hpc hlength =>
    rw [show nodeLosses par s c o = [] by rw [nodeLosses, hpc]]
    refine total_idle hc rfl rfl rfl rfl ?_
    have hempty := hidle c (List.mem_of_getElem? hc) (by simp [hpc])
    rw [holding, holding, NodeLoop.pooled, NodeLoop.pooled, hempty]
    rfl
  | fetches fetched queues p e hpc hreceive hfetch =>
    rw [show nodeLosses par s c o = fetchLosses fetched e by
      simp only [nodeLosses, hpc, hreceive, hfetch]]
    have hall := allHeld_fetch hreceived hreceive hfetch
    have hpool := congrArg sentOf (NodeLoop.fetchMessages_pooled hfetch)
    rw [sentOf_add, sentOf_add] at hpool
    refine total_node hc rfl rfl ?_
    show allHeld (World.deliver queues e) + (s.children.map processing).sum +
      sentOf (NodeLoop.pooled p) + lost (fetchLosses fetched e) = _
    refine add_right_cancel (b := sentOf (NodeLoop.FetchEvent.taken e)) ?_
    calc _ = allHeld (World.deliver queues e) + lost (fetchLosses fetched e) +
            (s.children.map processing).sum +
            (sentOf (NodeLoop.pooled p) + sentOf (NodeLoop.FetchEvent.taken e)) := by abel
      _ = allHeld (World.deliver queues e) + sentOf (NodeLoop.FetchEvent.arrived e) +
            lost (fetchLosses fetched e) + ((s.children.map processing).sum + holding c) := by
          rw [hpool, holding]
          abel
      _ = _ := by
          rw [hall]
          abel
  | publishes nodesPID p hpc hsize =>
    rw [show nodeLosses par s c o = [] by rw [nodeLosses, hpc]]
    refine total_idle hc rfl rfl rfl rfl ?_
    rw [holding, holding, ← NodeLoop.publishSize_pooled hsize]
    rfl
  | processes p e hpc hblock =>
    rw [show nodeLosses par s c o = blockLosses e by simp only [nodeLosses, hpc, hblock]]
    exact total_process hc hblock

theorem recorded_written {myPID : PidT} {batch : Batch} {b : Block} (hb : Built myPID batch b)
    (hsenders : ∀ t ∈ batch.toList, t.sender ≠ 0) (i : Slot) :
    recorded (written b i) = sentOf (batch.toList : List Transaction) := by
  have hentries : sentOf ((written b i).entries : List Transaction) =
      sentOf (batch.toList : List Transaction) := by
    rw [entries_written, hb.entries_eq, sentOf, sentOf, Multiset.map_coe, Multiset.map_coe,
      List.map_map]
    rfl
  rw [recorded, hentries, Multiset.filter_eq_self]
  intro t ht
  obtain ⟨u, hu, rfl⟩ := Multiset.mem_map.mp ht
  exact hsenders u hu

/-- A child writes its batch over what the slot held. -/
theorem did_recorded {ledger ledger' : Ledger} {w w' : Writer} (hw : Carries w)
    (hsenders : ∀ t ∈ w.transBuffer.toList, t.sender ≠ 0) (h : w.Did ledger ledger' w') :
    processing w' + (ledger'.toList.map recorded).sum + lost (childLosses ledger w) =
      processing w + (ledger.toList.map recorded).sum := by
  cases h with
  | build b hpc hb => simp only [processing, childLosses, hpc, lost_nil, add_zero]; rfl
  | claim b i hpc hfree => simp only [processing, childLosses, hpc, lost_nil, add_zero]; rfl
  | skip b i hpc hused => simp only [processing, childLosses, hpc, lost_nil, add_zero]; rfl
  | giveUp b i hpc hi => simp only [processing, childLosses, hpc, lost_nil, add_zero]; rfl
  | write b i hpc =>
    have hb := recorded_written (hw b (by rw [hpc]; rfl)) hsenders i
    have hslot : ledger.toList[i.val]? = some (ledger.get i) := by
      rw [List.Vector.get_eq_get_toList]
      exact List.getElem?_eq_getElem _
    have hset := Table.sum_set recorded (written b i) hslot
    rw [← List.Vector.toList_set, hb] at hset
    have hbefore : processing w = sentOf (w.transBuffer.toList : List Transaction) := by
      rw [processing, hpc]
    have hlost : lost (childLosses ledger w) = recorded (ledger.get i) := by
      rw [childLosses, hpc, lost_singleton]
      rfl
    rw [hbefore, hlost]
    show 0 + _ + _ = _
    rw [zero_add, hset, add_comm]

/-- A step of a child loses what it writes over. -/
theorem childStep_total {c : ℕ} {reading : Reading} (hs : ∀ w ∈ s.children, Carries w)
    (hsenders : ∀ t ∈ total s, t.sender ≠ 0) (h : s.childStep c reading = some s') :
    total s' + lost (losses par s (.child c reading)) = total s := by
  obtain ⟨w, hw, hstep⟩ := Option.bind_eq_some_iff.mp h
  obtain ⟨⟨ledger, nodesPID, w'⟩, hdone, rfl⟩ := Option.map_eq_some_iff.mp hstep
  have hdid := Writer.step_did hdone
  have hbatch : processing w = sentOf (w.transBuffer.toList : List Transaction) := by
    unfold processing
    split
    next b i hpc => exact absurd hpc (hdid.not_inserted b i)
    next => rfl
  have hbatchSenders : ∀ t ∈ w.transBuffer.toList, t.sender ≠ 0 := by
    intro t ht
    have hmem : t.asSent ∈ processing w := by
      rw [hbatch]
      exact Multiset.mem_map_of_mem _ ht
    have hle : processing w ≤ total s := by
      have hsum := List.le_sum_of_mem (List.mem_map_of_mem (f := processing)
        (List.mem_of_getElem? hw))
      exact hsum.trans ((Multiset.le_add_left _ _).trans (Multiset.le_add_right _ _))
    have hasSent := hsenders t.asSent (Multiset.mem_of_le hle hmem)
    exact hasSent
  have hmoves := did_recorded (hs w (List.mem_of_getElem? hw)) hbatchSenders hdid
  have hlosses : losses par s (.child c reading) = childLosses s.ledger w := by
    rw [losses, hw]
    rfl
  have hset := Table.sum_set processing w' hw
  rw [hlosses]
  refine add_right_cancel (b := processing w) ?_
  calc held (fun _ => True) s.queues + (s.nodes.map holding).sum +
          ((s.children.set c w').map processing).sum + (ledger.toList.map recorded).sum +
          lost (childLosses s.ledger w) + processing w
      = held (fun _ => True) s.queues + (s.nodes.map holding).sum +
          (((s.children.set c w').map processing).sum + processing w) +
          (ledger.toList.map recorded).sum + lost (childLosses s.ledger w) := by abel
    _ = held (fun _ => True) s.queues + (s.nodes.map holding).sum +
          (s.children.map processing).sum + (processing w' + (ledger.toList.map recorded).sum +
            lost (childLosses s.ledger w)) := by
        rw [hset]
        abel
    _ = total s + processing w := by
        rw [hmoves, total, account]
        abel

/-- A send that succeeds puts the message on a queue. -/
theorem userStep_sent {u : ℕ} {a : Order} (h : s.userStep par u a = some s') :
    ∃ p' result, s' = s.sentBy u p' result ∧ p'.transMsg.userTrans.status = .pending ∧
      (result = .sent → p'.queueID ∈ s.queues.map Queue.key) := by
  obtain ⟨p, -, hrest⟩ := Option.bind_eq_some_iff.mp h
  split at hrest
  · contradiction
  · split at hrest
    · contradiction
    next nodePID _ =>
      dsimp only at hrest
      split at hrest
      · contradiction
      next r hsend =>
        refine ⟨_, _, (Option.some.inj hrest).symm, ?_, fun hsent => ?_⟩
        · obtain ⟨userPID, errno, queueID, -, rfl⟩ := sendFresh_cases hsend
          rw [sendTransaction_transMsg]
          rfl
        · obtain ⟨q, hq, hqueue⟩ := sendFresh_queue hsend
          unfold queueToPid at hq
          split at hq
          · contradiction
          · rw [hqueue, ← Except.ok.inj hq]
            exact mem_keys_of_sent hsent

/-- A send adds the transaction that it sends. -/
theorem userStep_total {u : ℕ} {a : Order} (h : s.userStep par u a = some s') :
    ∃ new : List Transaction, s'.sent = s.sent ++ new ∧
      total s' + lost (losses par s (.user u a)) = total s + new := by
  obtain ⟨p', result, rfl, hstatus, hqueue⟩ := userStep_sent h
  cases result with
  | failed e =>
    refine ⟨[], (List.append_nil _).symm, ?_⟩
    show total s + 0 = total s + 0
    rfl
  | sent =>
    refine ⟨[p'.transMsg.userTrans], rfl, ?_⟩
    have htoken : token p'.transMsg = p'.transMsg.userTrans := by
      rw [token, Transaction.asSent, ← hstatus]
    have hpush := allHeld_pushTrans (m := p'.transMsg) (hqueue rfl)
    rw [htoken] at hpush
    show allHeld (pushTrans s.queues p'.queueID p'.transMsg) + _ + _ + _ + 0 =
      allHeld s.queues + _ + _ + _ + {p'.transMsg.userTrans}
    rw [hpush]
    abel

/-- The steps of the listener that do not receive. -/
theorem listenerStep_rest {o : ListenerOutcome} (hpc : s.listener.pc ≠ .receive)
    (h : s.listenerStep par o = some s') :
    allHeld s'.queues = allHeld s.queues ∧
      (s'.nodes.map holding).sum = (s.nodes.map holding).sum := by
  have hsend : ∀ failure queue friend pc, allHeld ((s.sendFriend failure queue friend).setListener
      ((s.sendFriend failure queue friend).listener.goto pc)).queues = allHeld s.queues ∧
      (((s.sendFriend failure queue friend).setListener
        ((s.sendFriend failure queue friend).listener.goto pc)).nodes.map holding).sum =
          (s.nodes.map holding).sum := by
    intro failure queue friend pc
    unfold World.sendFriend
    cases msgsnd s.queues failure queue with
    | sent => exact ⟨held_pushFriend friend, rfl⟩
    | failed e => exact ⟨rfl, rfl⟩
  unfold World.listenerStep at h
  split at h
  next hreceive => exact absurd hreceive hpc
  · simp only [World.spawnStep] at h
    split at h
    · contradiction
    · rw [← Option.some.inj h]
      refine ⟨rfl, ?_⟩
      rw [List.map_append, List.sum_append, holding_newNodes, add_zero]
  · obtain ⟨friends, -, rfl⟩ := Option.map_eq_some_iff.mp h
    exact ⟨rfl, rfl⟩
  · rw [← Option.some.inj h]
    unfold World.findQueueStep
    split
    · exact ⟨rfl, rfl⟩
    · exact ⟨rfl, rfl⟩
  · rw [← Option.some.inj h]
    exact hsend _ _ _ _
  · rw [← Option.some.inj h]
    exact ⟨rfl, rfl⟩
  · obtain ⟨friends, -, hprepared⟩ := Option.bind_eq_some_iff.mp h
    obtain ⟨p, -, rfl⟩ := Option.map_eq_some_iff.mp hprepared
    exact ⟨rfl, rfl⟩
  · rw [← Option.some.inj h]
    exact hsend _ _ _ _
  · rw [← Option.some.inj h]
    exact ⟨rfl, rfl⟩
  · contradiction

/-- The listener loses the messages that it receives. -/
theorem listenerStep_total {o : ListenerOutcome} (h : s.listenerStep par o = some s') :
    total s' + lost (losses par s (.listener o)) = total s := by
  obtain ⟨hkept, -⟩ := listenerStep_cases h
  have hrest : ∀ log, allHeld s'.queues + lost log = allHeld s.queues →
      (s'.nodes.map holding).sum = (s.nodes.map holding).sum → total s' + lost log = total s := by
    intro log hqueues hnodes
    rw [total, total, account, account, hkept.children, hkept.ledger, hnodes]
    show allHeld s'.queues + _ + _ + _ + _ = allHeld s.queues + _ + _ + _
    rw [← hqueues]
    abel
  by_cases hpc : s.listener.pc = .receive
  · unfold World.listenerStep at h
    simp only [hpc] at h
    obtain ⟨⟨result, queues⟩, hrcv, rfl⟩ := Option.map_eq_some_iff.mp h
    have hlosses : losses par s (.listener o) = absorbed (some (result, queues)) := by
      simp only [losses, listenerLosses, hpc, hrcv]
    rw [hlosses]
    refine hrest _ ?_ rfl
    show allHeld queues + lost (absorbed (some (result, queues))) = allHeld s.queues
    rcases waiting_rcvTrans (P := fun _ => True) hrcv with ⟨m, rfl, hwaiting⟩ | ⟨e, -, rfl, rfl⟩
    · rw [if_pos trivial] at hwaiting
      rw [absorbed, lost_singleton, allHeld, allHeld, held_eq_map, held_eq_map, ← hwaiting,
        Multiset.map_add, Multiset.map_singleton]
      rfl
    · exact add_zero _
  · obtain ⟨hqueues, hnodes⟩ := listenerStep_rest hpc h
    have hnone : losses par s (.listener o) = [] := by
      unfold losses listenerLosses
      dsimp only
      split
      next hreceive => exact absurd hreceive hpc
      next => rfl
    rw [hnone]
    exact hrest [] ((add_zero _).trans hqueues) hnodes

theorem Idle.setNode (h : Idle s) {i : ℕ} {c' : NodeCell} (hnodes : s'.nodes = s.nodes.set i c')
    (hc' : c'.pc ≠ .fetch ∧ c'.pc ≠ .publish ∧ c'.pc ≠ .process →
      c'.proc.transPool.cells = []) : Idle s' := by
  intro c hc hpc
  rw [hnodes] at hc
  rcases List.mem_or_eq_of_mem_set hc with hold | rfl
  · exact h c hold hpc
  · exact hc' hpc

theorem nodeStep_idle {i : ℕ} {o : NodeOutcome} (hs : Idle s)
    (h : s.nodeStep par i o = some s') : Idle s' := by
  obtain ⟨c, hc, hdid⟩ := nodeStep_did h
  have hbefore := hs c (List.mem_of_getElem? hc)
  cases hdid with
  | creates hpc => exact hs.setNode rfl fun _ => hbefore (by simp [hpc])
  | searches errno queueID hpc => exact hs.setNode rfl fun _ => hbefore (by simp [hpc])
  | attaches errno size hpc => exact hs.setNode rfl fun _ => hbefore (by simp [hpc])
  | befriends friendMex friend errno result queues hpc hawait =>
    exact hs.setNode rfl fun _ => hbefore (by simp [hpc])
  | starts friendMex hpc hlength => exact hs.setNode rfl fun hnot => absurd rfl hnot.1
  | fetches fetched queues p e hpc hreceive hfetch =>
    exact hs.setNode rfl fun hnot => absurd rfl hnot.2.1
  | publishes nodesPID p hpc hsize => exact hs.setNode rfl fun hnot => absurd rfl hnot.2.2
  | processes p e hpc hblock => exact hs.setNode rfl fun hnot => absurd rfl hnot.1

theorem newNodes_idle {nodePID : PidT} {c : NodeCell} (hc : c ∈ s.newNodes nodePID) :
    c.proc.transPool.cells = [] := by
  unfold World.newNodes at hc
  split at hc
  · exact absurd hc List.not_mem_nil
  · rw [List.mem_singleton.mp hc]
    rfl

theorem listenerStep_idle {o : ListenerOutcome} (hs : Idle s)
    (h : s.listenerStep par o = some s') : Idle s' := by
  have hsame : s'.nodes = s.nodes → Idle s' := by
    intro hnodes c hc
    rw [hnodes] at hc
    exact hs c hc
  obtain ⟨-, hdid⟩ := listenerStep_cases h
  cases hdid with
  | took failure result hqueues hnodes => exact hsame hnodes
  | spawned nodePID hfork hqueues hnodes =>
    intro c hc hpc
    rw [hnodes] at hc
    rcases List.mem_append.mp hc with hold | hnew
    · exact hs c hold hpc
    · exact newNodes_idle hnew
  | befriended queue friend hqueues hnodes => exact hsame hnodes
  | idle hqueues hnodes => exact hsame hnodes

theorem next_idle (hs : Idle s) {l : Label} (h : World.next par s l = some s') : Idle s' := by
  cases l with
  | user u a =>
    obtain ⟨p', result, rfl, -⟩ := userStep_sent h
    cases result <;> exact hs
  | node i o => exact nodeStep_idle hs h
  | child c reading =>
    obtain ⟨w, -, hrest⟩ := Option.bind_eq_some_iff.mp h
    obtain ⟨r, -, rfl⟩ := Option.map_eq_some_iff.mp hrest
    exact hs
  | listener o => exact listenerStep_idle hs h

theorem idle_initial (h : Initial par s) : Idle s := by
  intro c hc _
  rw [(h.nodes c hc).1]
  rfl

/-- No transaction is sent twice. -/
theorem next_nodup (hs : s.sent.Nodup) {l : Label} (h : World.next par s l = some s') :
    s'.sent.Nodup := by
  cases l with
  | user u a =>
    obtain ⟨p, p', result, -, rfl, -, -, -, -, hfresh⟩ := userStep_cases h
    cases result with
    | failed e => exact hs
    | sent =>
      refine List.nodup_append.mpr ⟨hs, List.nodup_singleton _, ?_⟩
      intro t ht t' ht' heq
      rw [List.mem_singleton.mp ht'] at heq
      exact hfresh (heq ▸ ht)
  | node i o =>
    rw [(nodeStep_same h).2]
    exact hs
  | child c reading =>
    obtain ⟨w, -, hrest⟩ := Option.bind_eq_some_iff.mp h
    obtain ⟨r, -, rfl⟩ := Option.map_eq_some_iff.mp hrest
    exact hs
  | listener o =>
    rw [(listenerStep_cases h).1.sent]
    exact hs

/-- Every step moves what was sent, or loses it. -/
theorem next_total (hwired : Wired s) (hidle : Idle s) {log : List Loss}
    (hall : (s.sent : Multiset Transaction) = total s + lost log) {l : Label}
    (hC : Received s l) (h : World.next par s l = some s') :
    (s'.sent : Multiset Transaction) = total s' + lost (log ++ losses par s l) := by
  have hsettle : s'.sent = s.sent → total s' + lost (losses par s l) = total s →
      (s'.sent : Multiset Transaction) = total s' + lost (log ++ losses par s l) := by
    intro hsent htotal
    rw [hsent, hall, ← htotal, lost_append]
    abel
  cases l with
  | user u a =>
    obtain ⟨new, hsent, htotal⟩ := userStep_total h
    rw [hsent, ← Multiset.coe_add, hall, lost_append, add_right_comm, ← htotal]
    abel
  | node i o => exact hsettle (nodeStep_same h).2 (nodeStep_total hidle hC h)
  | child c reading =>
    refine hsettle ?_ (childStep_total hwired.children (fun t ht => ?_) h)
    · obtain ⟨w, -, hrest⟩ := Option.bind_eq_some_iff.mp h
      obtain ⟨r, -, rfl⟩ := Option.map_eq_some_iff.mp hrest
      rfl
    · have hsent : t ∈ (s.sent : Multiset Transaction) := by
        rw [hall]
        exact Multiset.mem_add.mpr (Or.inl ht)
      exact hwired.senders t hsent
  | listener o => exact hsettle (listenerStep_cases h).1.sent (listenerStep_total h)

end Steps

section Runs

variable {par : Parameters} {s : World} {log : List Loss}

theorem reach_of_logged (h : (logged par).Reach (fun r l => Received r.1 l) (s, log)) :
    (Network.machine par).Reach Received s :=
  (Machine.recorded_invariant (I := fun _ => True) h (fun _ _ => trivial)
    fun _ _ _ _ _ _ _ _ => trivial).1

variable (par)

theorem logged_sound (h : (logged par).Reach (fun r l => Received r.1 l) (s, log)) :
    Wired s ∧ s.sent.Nodup ∧ (s.sent : Multiset Transaction) = total s + lost log := by
  have hall := Machine.recorded_invariant
    (I := fun r : World × List Loss => Wired r.1 ∧ Idle r.1 ∧ r.1.sent.Nodup ∧
      (r.1.sent : Multiset Transaction) = total r.1 + lost r.2) h ?_ ?_
  · obtain ⟨-, hwired, -, hnodup, htotal⟩ := hall
    exact ⟨hwired, hnodup, htotal⟩
  · intro s hs
    refine ⟨wired_initial hs, idle_initial hs, ?_, ?_⟩
    · rw [hs.sent]
      exact List.nodup_nil
    · rw [hs.sent, total, Confirmation.initial_empty hs]
      rfl
  · rintro s log l s' - ⟨hwired, hidle, hnodup, htotal⟩ hC hn
    exact ⟨next_wired hwired hn, next_idle hidle hn, next_nodup hnodup hn,
      next_total hwired hidle htotal hC hn⟩

end Runs

section Example

open Confirmation (small launch launch_initial boot pay act)

def actFailing : Label := .node 0 ⟨none, none, none, 0, .failed .EAGAIN⟩

def failing : List Label :=
  boot ++ (List.range 9).flatMap (fun n => [pay (n + 1), act, act, actFailing]) ++ [pay 10, act]

theorem failing_run : ∃ s log batch, (logged small).run (launch, []) failing = some (s, log) ∧
    log = [.forkFailed batch] ∧ s.sent.length = 10 := ⟨_, _, _, rfl, rfl, rfl⟩

theorem received_failing (s : World) : ∀ l ∈ failing, Received s l := by
  have hact : Received s act := fun e he => absurd he (by simp)
  intro l hl
  rcases List.mem_append.mp hl with hnine | hlast
  · rcases List.mem_append.mp hnine with hboot | hpay
    · rw [List.eq_of_mem_replicate hboot]
      exact hact
    · obtain ⟨n, -, hn⟩ := List.mem_flatMap.mp hpay
      have hcases : l = pay (n + 1) ∨ l = act ∨ l = actFailing := by simpa using hn
      rcases hcases with rfl | rfl | rfl
      · trivial
      · exact hact
      · exact fun e he => absurd he (by simp)
  · have hcases : l = pay 10 ∨ l = act := by simpa using hlast
    rcases hcases with rfl | rfl
    · trivial
    · exact hact

end Example
end SimulazioneTransazioni.Losses

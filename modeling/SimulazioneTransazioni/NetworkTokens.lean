import SimulazioneTransazioni.Network
import SimulazioneTransazioni.Library.Custody
import Mathlib.Tactic.Abel

/-!
Where the transactions are. The places are the queues, the pools, the batches of
the children that have not written them yet, and the slots of the ledger. A
step of any process leaves their total as it was or smaller, a user's send apart,
and so it does with the total outside a queue that no node receives from. The
system thus refines the custody of tokens, with the queue of the master as the
place where they sink.
-/
namespace SimulazioneTransazioni.NetworkTokens

open Nodes Users Master Queues LedgerWriters Network Blocks

def sentOf (l : Multiset Transaction) : Multiset Transaction := l.map Transaction.asSent

@[simp] theorem sentOf_add (l l' : Multiset Transaction) :
    sentOf (l + l') = sentOf l + sentOf l' := Multiset.map_add _ _ _

@[simp] theorem sentOf_zero : sentOf 0 = 0 := rfl

def holding (c : NodeCell) : Multiset Transaction := sentOf (NodeLoop.pooled c.proc)

def processing (w : Writer) : Multiset Transaction :=
  match w.pc with
  | .inserted _ _ => 0
  | _ => sentOf (w.transBuffer.toList : List Transaction)

/-- The users' transactions of a slot; a zeroed entry has no sender. -/
def recorded (b : Block) : Multiset Transaction :=
  (sentOf (b.entries : List Transaction)).filter fun t => t.sender ≠ 0

section Account

variable (P : PidT → Prop) [DecidablePred P]

def account (s : World) : Multiset Transaction :=
  held P s.queues + (s.nodes.map holding).sum + (s.children.map processing).sum +
    (s.ledger.toList.map recorded).sum

variable {P} {par : Parameters} {s s' : World}

theorem mem_account_of_holding {c : NodeCell} {t : Transaction} (hc : c ∈ s.nodes)
    (ht : t ∈ holding c) : t ∈ account P s := by
  have hsum := List.le_sum_of_mem (List.mem_map_of_mem (f := holding) hc)
  refine Multiset.mem_of_le ?_ (Multiset.mem_of_le hsum ht)
  exact (Multiset.le_add_left _ _).trans
    ((Multiset.le_add_right _ _).trans (Multiset.le_add_right _ _))

theorem mem_account_of_queued {q : Queue} {t : Transaction} (hq : q ∈ s.queues) (hP : P q.key)
    (ht : t ∈ queued q) : t ∈ account P s := by
  have hsum := List.le_sum_of_mem
    (List.mem_map_of_mem (f := fun q => if P q.key then queued q else 0) hq)
  simp only [hP, if_true] at hsum
  refine Multiset.mem_of_le ?_ (Multiset.mem_of_le hsum ht)
  exact (Multiset.le_add_right _ _).trans
    ((Multiset.le_add_right _ _).trans (Multiset.le_add_right _ _))

/-- A step of one node that passes part of its pool on to the queues and to its
children, and may leave part of it nowhere. -/
theorem account_node {c c' : NodeCell} {i : ℕ} {lost : Multiset Transaction}
    (hc : s.nodes[i]? = some c) (hnodes : s'.nodes = s.nodes.set i c')
    (hledger : s'.ledger = s.ledger)
    (hmoves : held P s'.queues + (s'.children.map processing).sum + holding c' + lost ≤
      held P s.queues + (s.children.map processing).sum + holding c) :
    account P s' + lost ≤ account P s := by
  have hsum := Table.sum_set holding c' hc
  rw [← hnodes] at hsum
  refine le_of_add_le_add_right (a := holding c) ?_
  calc account P s' + lost + holding c
      = held P s'.queues + (s'.children.map processing).sum +
          ((s'.nodes.map holding).sum + holding c) + lost +
          (s'.ledger.toList.map recorded).sum := by
        rw [account]
        abel
    _ = held P s'.queues + (s'.children.map processing).sum + holding c' + lost +
          ((s.nodes.map holding).sum + (s.ledger.toList.map recorded).sum) := by
        rw [hsum, hledger]
        abel
    _ ≤ held P s.queues + (s.children.map processing).sum + holding c +
          ((s.nodes.map holding).sum + (s.ledger.toList.map recorded).sum) :=
        add_le_add_left hmoves _
    _ = account P s + holding c := by
        rw [account]
        abel

theorem held_deliver_le (queues : List Queue) (e : FetchEvent) :
    held P (World.deliver queues e) ≤ held P queues + sentOf (NodeLoop.FetchEvent.taken e) := by
  have hkeep : ∀ l, held P queues ≤ held P queues + l := fun l => Multiset.le_add_right _ _
  rcases e with _ | (_ | ⟨queue, m, sent⟩ | ⟨queue, m, sent⟩ | m)
  · exact hkeep _
  · exact hkeep _
  · cases sent with
    | true => exact held_pushTrans_le_add queues queue m
    | false => exact hkeep _
  · cases sent with
    | true => exact held_pushTrans_le_add queues queue m
    | false => exact hkeep _
  · exact hkeep _

/-- A receive either delivers, and the node may put the message in its pool, or
fails with an errno that keeps the node from doing so. -/
theorem held_rcvTrans_le {queues queues' : List Queue} {failure : Option Errno} {id : Int32}
    {mex : MsgrcvResult Message} {friend : MsgrcvResult PidT} {p : NodeProc} (hP : P id)
    (hreported : ∀ e, failure = some e → e ∈ receiveErrors)
    (h : rcvTrans queues failure id = some (mex, queues')) :
    held P queues' +
        sentOf (NodeLoop.FetchEvent.arrived (.received (receiveTransaction ⟨mex, friend⟩ p).2)) ≤
      held P queues := by
  unfold rcvTrans at h
  cases failure with
  | some e =>
    simp only [Option.some.injEq, Prod.mk.injEq] at h
    obtain ⟨rfl, rfl⟩ := h
    have herror : receiveStatus e = .ERROR := if_pos (hreported e rfl)
    simp only [receiveTransaction, receiveMessage, herror, NodeLoop.FetchEvent.arrived,
      sentOf_zero, add_zero]
    exact le_rfl
  | none =>
    obtain ⟨⟨m, queues₁⟩, htake, hpair⟩ := Option.map_eq_some_iff.mp h
    simp only [Prod.mk.injEq] at hpair
    obtain ⟨rfl, rfl⟩ := hpair
    have hheld := held_takeTrans (P := P) htake
    rw [if_pos hP] at hheld
    rw [← hheld]
    refine add_le_add le_rfl ?_
    cases hstatus : receiveStatus p.errno with
    | SUCCESS =>
      simp only [receiveTransaction, receiveMessage, hstatus, NodeLoop.FetchEvent.arrived]
      exact le_rfl
    | ERROR =>
      simp only [receiveTransaction, receiveMessage, hstatus, NodeLoop.FetchEvent.arrived]
      exact Multiset.zero_le _

/-- What a node receives has left its queue. -/
theorem held_receive_le {o : NodeOutcome} {p p' : NodeProc} {fetched : FetchOutcome}
    {queues : List Queue} {oh : HopOutcome} {e : FetchEvent} (hP : P p.queueID)
    (hreported : ∀ e, o.rcvFailure = some e → e ∈ receiveErrors)
    (hreceive : s.receive par o p = some (fetched, queues))
    (hfetch : fetchMessages par fetched oh p = .ok (p', e)) :
    held P queues + sentOf (NodeLoop.FetchEvent.arrived e) ≤ held P s.queues := by
  unfold World.receive at hreceive
  unfold fetchMessages at hfetch
  split at hreceive
  next hrec =>
    rw [if_pos hrec] at hfetch
    simp only [Except.ok.injEq, Prod.mk.injEq] at hfetch
    obtain ⟨-, rfl⟩ := hfetch
    obtain ⟨⟨mex, queues₁⟩, hrcv, hpair⟩ := Option.map_eq_some_iff.mp hreceive
    simp only [Prod.mk.injEq] at hpair
    obtain ⟨rfl, rfl⟩ := hpair
    rw [held_rcvFriend]
    exact held_rcvTrans_le hP hreported hrcv
  next hrec =>
    rw [if_neg hrec] at hfetch
    simp only [Option.some.injEq, Prod.mk.injEq] at hreceive
    cases hsend : sendToRandomFriend par oh p with
    | error halt =>
      rw [hsend] at hfetch
      contradiction
    | ok r =>
      rw [hsend] at hfetch
      simp only [Except.map, Except.ok.injEq, Prod.mk.injEq] at hfetch
      rw [← hfetch.2, ← hreceive.2]
      exact (add_zero _).le

/-- What a pass of fetch_messages takes from the pool and does not deliver to a
counted queue is lost. -/
theorem fetch_account {i : ℕ} {c : NodeCell} {o : NodeOutcome} {fetched : FetchOutcome}
    {queues : List Queue} {p : NodeProc} {e : FetchEvent} {lost : Multiset Transaction}
    (hc : s.nodes[i]? = some c) (hP : P c.proc.queueID)
    (hreported : ∀ e, o.rcvFailure = some e → e ∈ receiveErrors)
    (hreceive : s.receive par o c.proc = some (fetched, queues))
    (hfetch : fetchMessages par fetched (s.hopOutcome c o) c.proc = .ok (p, e))
    (hdeliver : held P (World.deliver queues e) + lost ≤
      held P queues + sentOf (NodeLoop.FetchEvent.taken e)) :
    account P ((s.withQueues (World.deliver queues e)).setNode i (c.goto .publish p)) + lost ≤
      account P s := by
  have hreceived := held_receive_le hP hreported hreceive hfetch
  have hpool := congrArg sentOf (NodeLoop.fetchMessages_pooled hfetch)
  rw [sentOf_add, sentOf_add] at hpool
  refine account_node hc rfl rfl ?_
  show held P (World.deliver queues e) + (s.children.map processing).sum +
    sentOf (NodeLoop.pooled p) + lost ≤ _
  calc _ = held P (World.deliver queues e) + lost +
          ((s.children.map processing).sum + sentOf (NodeLoop.pooled p)) := by abel
    _ ≤ held P queues + sentOf (NodeLoop.FetchEvent.taken e) +
          ((s.children.map processing).sum + sentOf (NodeLoop.pooled p)) :=
        add_le_add_left hdeliver _
    _ = held P queues + (s.children.map processing).sum +
          (sentOf (NodeLoop.pooled p) + sentOf (NodeLoop.FetchEvent.taken e)) := by abel
    _ = held P queues + sentOf (NodeLoop.FetchEvent.arrived e) +
          ((s.children.map processing).sum + holding c) := by
        rw [hpool, holding]
        abel
    _ ≤ held P s.queues + ((s.children.map processing).sum + holding c) :=
        add_le_add_left hreceived _
    _ = held P s.queues + (s.children.map processing).sum + holding c := by abel

/-- A fork gives the batch to the child, or drops it. -/
theorem process_account {i : ℕ} {c : NodeCell} {p : NodeProc} {fork : ForkResult}
    {e : BlockEvent} (hc : s.nodes[i]? = some c) (hblock : processBlock fork c.proc = .ok (p, e)) :
    account P ({ s with children := s.children ++ World.childrenOf c.proc.myPID e }.setNode i
      (c.goto .fetch p)) ≤ account P s := by
  rw [← add_zero (account P _)]
  have hpool := congrArg sentOf (NodeLoop.processBlock_pooled hblock)
  rw [sentOf_add] at hpool
  have hchildren : ((World.childrenOf c.proc.myPID e).map processing).sum ≤
      sentOf (NodeLoop.BlockEvent.taken e) := by
    cases e with
    | tooFew => exact Multiset.zero_le _
    | forked pid batch => exact (add_zero _).le
    | forkFailed batch => exact Multiset.zero_le _
  refine account_node hc rfl rfl ?_
  show held P s.queues + ((s.children ++ World.childrenOf c.proc.myPID e).map processing).sum +
    sentOf (NodeLoop.pooled p) + 0 ≤ _
  rw [List.map_append, List.sum_append, holding, ← hpool, add_zero]
  calc _ = held P s.queues + (s.children.map processing).sum + sentOf (NodeLoop.pooled p) +
          ((World.childrenOf c.proc.myPID e).map processing).sum := by abel
    _ ≤ held P s.queues + (s.children.map processing).sum + sentOf (NodeLoop.pooled p) +
          sentOf (NodeLoop.BlockEvent.taken e) := add_le_add_right hchildren _
    _ = _ := by abel

/-- A step of a node that leaves the queues' transactions and adds none to its pool. -/
theorem account_idle {i : ℕ} {c c' : NodeCell} (hc : s.nodes[i]? = some c)
    (hnodes : s'.nodes = s.nodes.set i c') (hledger : s'.ledger = s.ledger)
    (hchildren : s'.children = s.children) (hqueues : held P s'.queues = held P s.queues)
    (hpool : holding c' ≤ holding c) : account P s' ≤ account P s := by
  rw [← add_zero (account P s')]
  refine account_node hc hnodes hledger ?_
  rw [hqueues, hchildren, add_zero]
  exact add_le_add_right hpool _

theorem held_create (queues : List Queue) (key : PidT) :
    held P (queues ++ [create key]) = held P queues := by
  have hnew : (if P key then queued (create key) else 0) = 0 := by
    split <;> rfl
  rw [held, List.map_append, List.sum_append, List.map_singleton, List.sum_singleton]
  exact (congrArg _ hnew).trans (add_zero _)

/-- A step of a node makes nothing that was not held before. -/
theorem nodeStep_account {i : ℕ} {o : NodeOutcome}
    (hP : ∀ c, s.nodes[i]? = some c → c.pc = .fetch → P c.proc.queueID)
    (hreported : ∀ e, o.rcvFailure = some e → e ∈ receiveErrors)
    (h : s.nodeStep par i o = some s') : account P s' ≤ account P s := by
  obtain ⟨c, hc, hdid⟩ := nodeStep_did h
  cases hdid with
  | creates hpc => exact account_idle hc rfl rfl rfl (held_create _ _) le_rfl
  | searches errno queueID hpc => exact account_idle hc rfl rfl rfl rfl le_rfl
  | attaches errno size hpc => exact account_idle hc rfl rfl rfl rfl le_rfl
  | befriends friendMex friend errno result queues hpc hawait =>
    exact account_idle hc rfl rfl rfl (held_awaitFriend hawait) le_rfl
  | starts friendMex hpc hlength =>
    refine account_idle hc rfl rfl rfl rfl ?_
    exact Multiset.zero_le _
  | fetches fetched queues p e hpc hreceive hfetch =>
    rw [← add_zero (account P _)]
    refine fetch_account hc (hP c hc hpc) hreported hreceive hfetch ?_
    rw [add_zero]
    exact held_deliver_le queues e
  | publishes nodesPID p hpc hsize =>
    refine account_idle hc rfl rfl rfl rfl ?_
    rw [holding, holding, ← NodeLoop.publishSize_pooled hsize]
    exact le_rfl
  | processes p e hpc hblock => exact process_account hc hblock

def blockOf : WriterPc → Option Block
  | .scanning b _ => some b
  | .writing b _ => some b
  | _ => none

def Carries (w : Writer) : Prop := ∀ b, blockOf w.pc = some b → Built w.myPID w.transBuffer b

theorem carries_did {ledger ledger' : Ledger} {w w' : Writer} (hw : Carries w)
    (h : w.Did ledger ledger' w') : Carries w' := by
  intro b hb
  cases h with
  | build b' hpc hbuilt =>
    rw [← Option.some.inj hb]
    exact hbuilt
  | claim b' i hpc hfree => exact hw b (by rw [hpc]; exact hb)
  | skip b' i hpc hused => exact hw b (by rw [hpc]; exact hb)
  | giveUp b' i hpc hi => contradiction
  | write b' i hpc => contradiction

theorem recorded_written_le {myPID : PidT} {batch : Batch} {b : Block} (hb : Built myPID batch b)
    (i : Slot) : recorded (written b i) ≤ sentOf (batch.toList : List Transaction) := by
  have hentries : sentOf ((written b i).entries : List Transaction) =
      sentOf (batch.toList : List Transaction) := by
    rw [entries_written, hb.entries_eq, sentOf, sentOf, Multiset.map_coe, Multiset.map_coe,
      List.map_map]
    rfl
  rw [recorded, hentries]
  exact Multiset.filter_le _ _

theorem did_processing {ledger ledger' : Ledger} {w w' : Writer} (hw : Carries w)
    (h : w.Did ledger ledger' w') :
    processing w' + (ledger'.toList.map recorded).sum ≤
      processing w + (ledger.toList.map recorded).sum := by
  have hactive : ∀ pc, (∀ b i, pc ≠ .inserted b i) →
      processing (w.goto pc) = sentOf (w.transBuffer.toList : List Transaction) := by
    intro pc hpc
    cases pc with
    | inserted b i => exact absurd rfl (hpc b i)
    | _ => rfl
  have hbefore : processing w = sentOf (w.transBuffer.toList : List Transaction) :=
    hactive w.pc fun b i => h.not_inserted b i
  rw [hbefore]
  cases h with
  | build b hpc hb => rw [hactive _ (by simp)]
  | claim b i hpc hfree => rw [hactive _ (by simp)]
  | skip b i hpc hused => rw [hactive _ (by simp)]
  | giveUp b i hpc hi => rw [hactive _ (by simp)]
  | write b i hpc =>
    have hb := recorded_written_le (hw b (by rw [hpc]; rfl)) i
    have hslot : ledger.toList[i.val]? = some (ledger.get i) := by
      rw [List.Vector.get_eq_get_toList]
      exact List.getElem?_eq_getElem _
    have hset := Table.sum_set recorded (written b i) hslot
    rw [← List.Vector.toList_set] at hset
    calc processing (w.goto (.inserted b i)) + ((ledger.set i (written b i)).toList.map recorded).sum
        = ((ledger.set i (written b i)).toList.map recorded).sum := zero_add _
      _ ≤ ((ledger.set i (written b i)).toList.map recorded).sum + recorded (ledger.get i) :=
          Multiset.le_add_right _ _
      _ = (ledger.toList.map recorded).sum + recorded (written b i) := hset
      _ ≤ (ledger.toList.map recorded).sum + sentOf (w.transBuffer.toList : List Transaction) :=
          add_le_add_right hb _
      _ = _ := add_comm _ _

/-- A child writes its batch in the ledger, maybe over another. -/
theorem childStep_account {c : ℕ} {reading : Reading} (hs : ∀ w ∈ s.children, Carries w)
    (h : s.childStep c reading = some s') : account P s' ≤ account P s := by
  obtain ⟨w, hw, hstep⟩ := Option.bind_eq_some_iff.mp h
  obtain ⟨⟨ledger, nodesPID, w'⟩, hdone, rfl⟩ := Option.map_eq_some_iff.mp hstep
  have hdid := did_processing (hs w (List.mem_of_getElem? hw)) (Writer.step_did hdone)
  have hset := Table.sum_set processing w' hw
  refine le_of_add_le_add_right (a := processing w) ?_
  calc held P s.queues + (s.nodes.map holding).sum + ((s.children.set c w').map processing).sum +
          (ledger.toList.map recorded).sum + processing w
      = held P s.queues + (s.nodes.map holding).sum +
          (((s.children.set c w').map processing).sum + processing w) +
          (ledger.toList.map recorded).sum := by abel
    _ = held P s.queues + (s.nodes.map holding).sum + (s.children.map processing).sum +
          (processing w' + (ledger.toList.map recorded).sum) := by
        rw [hset]
        abel
    _ ≤ held P s.queues + (s.nodes.map holding).sum + (s.children.map processing).sum +
          (processing w + (s.ledger.toList.map recorded).sum) := add_le_add_right hdid _
    _ = account P s + processing w := by
        rw [account]
        abel

theorem account_mono (hkept : Kept s s') (hqueues : held P s'.queues ≤ held P s.queues)
    (hnodes : (s'.nodes.map holding).sum = (s.nodes.map holding).sum) :
    account P s' ≤ account P s := by
  rw [account, account, hnodes, hkept.children, hkept.ledger]
  exact add_le_add_left (add_le_add_left (add_le_add_left hqueues _) _) _

theorem holding_newNodes (s : World) (nodePID : PidT) :
    ((s.newNodes nodePID).map holding).sum = 0 := by
  unfold World.newNodes
  split
  · rfl
  · rfl

/-- The listener takes a transaction from the master's queue and drops it. -/
theorem listenerStep_account {o : ListenerOutcome} (h : s.listenerStep par o = some s') :
    account P s' ≤ account P s := by
  obtain ⟨hkept, hdid⟩ := listenerStep_cases h
  cases hdid with
  | took failure result hqueues hnodes =>
    exact account_mono hkept (held_rcvTrans_drop hqueues) (by rw [hnodes])
  | spawned nodePID hfork hqueues hnodes =>
    refine account_mono hkept (by rw [hqueues]) ?_
    rw [hnodes, List.map_append, List.sum_append, holding_newNodes, add_zero]
  | befriended queue friend hqueues hnodes =>
    refine account_mono hkept ?_ (by rw [hnodes])
    rw [hqueues, held_pushFriend]
  | idle hqueues hnodes => exact account_mono hkept (by rw [hqueues]) (by rw [hnodes])

/-- A send adds one transaction. -/
theorem sentBy_account (u : ℕ) {p : UserProc} (htoken : token p.transMsg = p.transMsg.userTrans) :
    account P (s.sentBy u p .sent) ≤ account P s + {p.transMsg.userTrans} := by
  have hqueues := held_pushTrans_le_add (P := P) s.queues p.queueID p.transMsg
  rw [htoken] at hqueues
  calc account P (s.sentBy u p .sent)
      = held P (pushTrans s.queues p.queueID p.transMsg) +
          ((s.nodes.map holding).sum + (s.children.map processing).sum +
            (s.ledger.toList.map recorded).sum) := by
        rw [account]
        show held P _ + _ + _ + _ = _
        abel
    _ ≤ held P s.queues + {p.transMsg.userTrans} +
          ((s.nodes.map holding).sum + (s.children.map processing).sum +
            (s.ledger.toList.map recorded).sum) := add_le_add_left hqueues _
    _ = account P s + {p.transMsg.userTrans} := by
        rw [account]
        abel

end Account
end SimulazioneTransazioni.NetworkTokens

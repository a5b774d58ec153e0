import SimulazioneTransazioni.Losses

/-!
The ledger of the whole system. A fork adds a writer that knows nothing of the
ledger yet, and every other step leaves the ledger or is one of the writers, so
the shape that the writers keep is kept while nodes and children come. What a
block pays and whom is then a matter of who sent the transactions of its batch
and of which node forked the child.
-/
namespace SimulazioneTransazioni.NetworkLedger

open Nodes Users Master Queues LedgerWriters Network NetworkTokens NetworkWiring Blocks
open Confirmation (total)

def writers {n : ℕ} (s : World) (h : s.children.length = n) : LedgerWriters.State (Fin n) where
  ledger := s.ledger
  nodesPID := s.nodesPID
  writers c := s.children.get (c.cast h.symm)

structure FromUser (s : World) (t : Transaction) : Prop where
  sender : t.sender ∈ s.users.map UserProc.myPID
  receiver : t.receiver ∈ s.usersPID.map User.pid
  differ : t.receiver ≠ t.sender
  positive : t.receiver ≠ 0

structure Sources (s : World) : Prop where
  sent : ∀ t ∈ s.sent, FromUser s t
  children : ∀ w ∈ s.children, w.myPID ∈ s.nodes.map (NodeCell.proc · |>.myPID)
  shaped : ∀ n, ∀ h : s.children.length = n, Shaped (writers s h)

section Shape

variable {s s' : World}

/-- Writers that come later, before they have looked at the ledger. -/
theorem shaped_append (hs : ∀ n, ∀ h : s.children.length = n, Shaped (writers s h))
    {new : List Writer} (hledger : s'.ledger = s.ledger)
    (hchildren : s'.children = s.children ++ new) (hnew : ∀ w ∈ new, w.Knows s.ledger) :
    ∀ n, ∀ h : s'.children.length = n, Shaped (writers s' h) := by
  rintro n rfl
  have hold := hs _ rfl
  have hle : s.children.length ≤ s'.children.length := by
    rw [hchildren, List.length_append]
    omega
  have hsame : ∀ c : Fin s.children.length,
      (writers s' rfl).writers (c.castLE hle) = (writers s rfl).writers c := by
    intro c
    have hget : s'.children[c.val]? = s.children[c.val]? := by
      rw [hchildren, List.getElem?_append_left c.isLt]
    have hlt : c.val < s'.children.length := by omega
    rw [List.getElem?_eq_getElem c.isLt, List.getElem?_eq_getElem hlt] at hget
    exact Option.some.inj hget
  have hcases : ∀ w ∈ s'.children, w ∈ s.children ∨ w ∈ new := by
    rw [hchildren]
    exact fun w => List.mem_append.mp
  constructor
  · intro c
    show ((writers s' rfl).writers c).Knows s'.ledger
    rw [hledger]
    rcases hcases ((writers s' rfl).writers c) (List.get_mem _ _) with hin | hin
    · obtain ⟨d, hd⟩ := List.get_of_mem hin
      rw [← hd]
      exact hold.knows d
    · exact hnew _ hin
  · obtain ⟨n, hn, hfilled, hzero⟩ := hold.filled
    refine ⟨n, hn, ?_, ?_⟩
    · intro i hi
      obtain ⟨c, b, hb, hget⟩ := hfilled i hi
      refine ⟨c.castLE hle, b, ?_, ?_⟩
      · rw [hsame]
        exact hb
      · show s'.ledger.get i = written b i
        rw [hledger]
        exact hget
    · show ∀ i : Slot, n ≤ i.val → s'.ledger.get i = Block.zero
      rw [hledger]
      exact hzero

/-- A step of one child. -/
theorem childStep_shaped (hs : ∀ n, ∀ h : s.children.length = n, Shaped (writers s h))
    {c : ℕ} {reading : Reading} (h : s.childStep c reading = some s') :
    ∀ n, ∀ hn : s'.children.length = n, Shaped (writers s' hn) := by
  obtain ⟨w, hw, hstep⟩ := Option.bind_eq_some_iff.mp h
  obtain ⟨⟨ledger, nodesPID, w'⟩, hdone, rfl⟩ := Option.map_eq_some_iff.mp hstep
  rintro n hn
  have hlength : s.children.length = n := by
    rw [← hn]
    exact (List.length_set ..).symm
  obtain ⟨hlt, hget⟩ := List.getElem?_eq_some_iff.mp hw
  have hcn : c < n := by omega
  refine next_shaped (l := (⟨c, hcn⟩, reading)) (hs n hlength) (Option.map_eq_some_iff.mpr
    ⟨(ledger, nodesPID, w'), ?_, ?_⟩)
  · have hwriter : (writers s hlength).writers ⟨c, hcn⟩ = w := hget
    rw [hwriter]
    exact hdone
  · have hupdate : Function.update (writers s hlength).writers ⟨c, hcn⟩ w' =
        fun d : Fin n => (s.children.set c w').get (d.cast hn.symm) := by
      funext d
      by_cases hd : d = ⟨c, hcn⟩
      · subst hd
        rw [Function.update_self]
        exact (List.getElem_set_self _).symm
      · rw [Function.update_of_ne hd]
        have hne : c ≠ d.val := fun heq => hd (Fin.ext heq.symm)
        exact (List.getElem_set_of_ne hne _ _).symm
    exact congrArg (LedgerWriters.State.mk ledger nodesPID) hupdate

end Shape

section Receivers

variable {par : Parameters} {usersPID : List User} {a : Attempt} {amount reward : Int32}
  {p : UserProc} {r : ReturnCode × UserProc}

/-- The drawn pid is that of a row. -/
theorem getRandomUserPID_mem {myPID userPID : PidT} {draws : List UInt32}
    (h : getRandomUserPID par usersPID myPID draws = .ok userPID) :
    userPID ∈ usersPID.map User.pid ∧ userPID ≠ 0 := by
  induction draws with
  | nil => contradiction
  | cons r rest ih =>
    unfold getRandomUserPID at h
    split at h
    · contradiction
    · split at h
      · contradiction
      next row hrow =>
        split at h
        next hqualifies =>
          rw [← Except.ok.inj h]
          exact ⟨List.mem_map_of_mem (List.mem_of_getElem? hrow), hqualifies.2⟩
        next => exact ih h

theorem sendFresh_receiver (h : sendFresh par usersPID a amount reward p = .ok r) :
    r.2.transMsg.userTrans.receiver ∈ usersPID.map User.pid ∧
      r.2.transMsg.userTrans.receiver ≠ p.myPID ∧ r.2.transMsg.userTrans.receiver ≠ 0 := by
  unfold sendFresh at h
  cases hdraw : getRandomUserPID par usersPID p.myPID a.userDraws with
  | error fault => simp [hdraw, bind, Except.bind] at h
  | ok userPID =>
    cases hqueue : queueToPid a.queues p with
    | error fault => simp [hdraw, hqueue, bind, Except.bind] at h
    | ok q =>
      simp only [hdraw, hqueue, bind, Except.bind, pure, Except.pure, Except.ok.injEq] at h
      obtain ⟨hmem, hpositive⟩ := getRandomUserPID_mem hdraw
      rw [← h, sendTransaction_transMsg]
      exact ⟨hmem, getRandomUserPID_ne hdraw, hpositive⟩

end Receivers

section Steps

variable {par : Parameters} {s s' : World}

/-- A user pays another user of the table. -/
theorem userStep_receiver {u : ℕ} {a : Order} (h : s.userStep par u a = some s') :
    ∃ p p' result, s.users[u]? = some p ∧ s' = s.sentBy u p' result ∧ p'.myPID = p.myPID ∧
      FromUser s p'.transMsg.userTrans := by
  obtain ⟨p, hp, hrest⟩ := Option.bind_eq_some_iff.mp h
  split at hrest
  · contradiction
  · split at hrest
    · contradiction
    next nodePID _ =>
      dsimp only at hrest
      split at hrest
      · contradiction
      next r hsend =>
        obtain ⟨hmem, hne, hpositive⟩ := sendFresh_receiver hsend
        obtain ⟨userPID, errno, queueID, -, hr⟩ := sendFresh_cases hsend
        have hsender : r.2.transMsg.userTrans.sender = p.myPID := by
          rw [hr, sendTransaction_transMsg]
          rfl
        refine ⟨p, r.2, _, hp, (Option.some.inj hrest).symm, ?_, ?_, hmem, ?_, hpositive⟩
        · rw [hr, sendTransaction_myPID]
          rfl
        · rw [hsender]
          exact List.mem_map_of_mem (List.mem_of_getElem? hp)
        · rw [hsender]
          exact hne

/-- What is in the system was sent. -/
theorem mem_sent_of_total (h : (Network.machine par).Reach Received s) {t : Transaction}
    (ht : t ∈ total s) : t ∈ s.sent := by
  have hlogged : ∃ log, (Losses.logged par).Reach (fun r l => Received r.1 l) (s, log) :=
    Machine.exists_recorded h
  obtain ⟨log, hlog⟩ := hlogged
  obtain ⟨-, -, htotal⟩ := Losses.logged_sound par hlog
  have hsent : t ∈ (s.sent : Multiset Transaction) := by
    rw [htotal]
    exact Multiset.mem_add.mpr (Or.inl ht)
  exact hsent

theorem reach_wired (h : (Network.machine par).Reach Received s) : Wired s :=
  h.invariant (fun _ => wired_initial) fun _ _ _ hs _ hn => next_wired hs hn

/-- A child that a fork has left behind. -/
theorem forked_knows (hreach : (Network.machine par).Reach Received s) {c : NodeCell}
    (hc : c ∈ s.nodes) {fork : ForkResult} {p : NodeProc} {e : BlockEvent}
    (hblock : processBlock fork c.proc = .ok (p, e)) {w : Writer}
    (hw : w ∈ World.childrenOf c.proc.myPID e) : w.Knows s.ledger := by
  have hpc := (mem_childrenOf hw).2
  refine ⟨fun t ht => ?_, by simp [hpc], by simp [hpc], by simp [hpc]⟩
  have hpool := NodeLoop.processBlock_pooled hblock
  have hbatch : (w.transBuffer.toList : Multiset Transaction) = NodeLoop.BlockEvent.taken e := by
    cases e with
    | forked pid batch =>
      rw [List.mem_singleton.mp hw]
      rfl
    | tooFew => exact absurd hw List.not_mem_nil
    | forkFailed batch => exact absurd hw List.not_mem_nil
  have hpooled : t ∈ NodeLoop.pooled c.proc := by
    rw [← hpool, ← hbatch]
    exact Multiset.mem_add.mpr (Or.inr ht)
  have hheld : t.asSent ∈ total s :=
    mem_account_of_holding hc (Multiset.mem_map_of_mem _ hpooled)
  have hsender := (reach_wired hreach).senders t.asSent (mem_sent_of_total hreach hheld)
  exact hsender

theorem FromUser.congr {t : Transaction} (h : FromUser s t)
    (husers : s'.users.map UserProc.myPID = s.users.map UserProc.myPID)
    (hrows : s'.usersPID = s.usersPID) : FromUser s' t := by
  refine ⟨?_, ?_, h.differ, h.positive⟩
  · rw [husers]
    exact h.sender
  · rw [hrows]
    exact h.receiver

theorem Sources.settled (hs : Sources s) (husers : s'.users = s.users)
    (hrows : s'.usersPID = s.usersPID) (hsent : s'.sent = s.sent)
    (hchildren : ∀ w ∈ s'.children, w.myPID ∈ s'.nodes.map (NodeCell.proc · |>.myPID))
    (hshaped : ∀ n, ∀ h : s'.children.length = n, Shaped (writers s' h)) : Sources s' := by
  refine ⟨?_, hchildren, hshaped⟩
  rw [hsent]
  exact fun t ht => (hs.sent t ht).congr (by rw [husers]) hrows

/-- A row that is set to another of its key. -/
theorem map_key_set {R K : Type*} {key : R → K} {rows : List R} {i : ℕ} {row row' : R}
    (hrow : rows[i]? = some row) (hkey : key row' = key row) :
    (rows.set i row').map key = rows.map key := by
  have hat : (rows.map key)[i]? = some (key row') := by
    rw [List.getElem?_map, hrow, hkey]
    rfl
  obtain ⟨hlt, hget⟩ := List.getElem?_eq_some_iff.mp hat
  rw [List.map_set, ← hget]
  exact List.set_getElem_self hlt

theorem userStep_sources (hs : Sources s) {u : ℕ} {a : Order}
    (h : s.userStep par u a = some s') : Sources s' := by
  obtain ⟨p, p', result, hp, rfl, hpid, hfrom⟩ := userStep_receiver h
  have husers := map_key_set hp hpid
  cases result with
  | failed e =>
    refine ⟨fun t ht => (hs.sent t ht).congr husers rfl, hs.children, ?_⟩
    exact shaped_append hs.shaped rfl (List.append_nil _).symm fun w hw =>
      absurd hw List.not_mem_nil
  | sent =>
    refine ⟨fun t ht => ?_, hs.children, ?_⟩
    · rcases List.mem_append.mp ht with hold | hnew
      · exact (hs.sent t hold).congr husers rfl
      · rw [List.mem_singleton.mp hnew]
        exact hfrom.congr husers rfl
    · exact shaped_append hs.shaped rfl (List.append_nil _).symm fun w hw =>
        absurd hw List.not_mem_nil

/-- A step of a node keeps the sources; its child takes a batch of what was sent. -/
theorem nodeStep_sources (hreach : (Network.machine par).Reach Received s) (hs : Sources s)
    {i : ℕ} {o : NodeOutcome} (h : s.nodeStep par i o = some s') : Sources s' := by
  obtain ⟨c, hc, hdid⟩ := nodeStep_did h
  have hnone : ∀ {s' : World} {c' : NodeCell}, s'.nodes = s.nodes.set i c' →
      c'.proc.myPID = c.proc.myPID → s'.users = s.users → s'.usersPID = s.usersPID →
      s'.sent = s.sent → s'.ledger = s.ledger → s'.children = s.children → Sources s' := by
    intro s' c' hnodes hpid husers hrows hsent hledger hchildren
    refine hs.settled husers hrows hsent ?_ ?_
    · have hpids : (s.nodes.set i c').map (NodeCell.proc · |>.myPID) =
          s.nodes.map (NodeCell.proc · |>.myPID) := map_key_set hc hpid
      rw [hchildren, hnodes, hpids]
      exact hs.children
    · rw [← List.append_nil s.children] at hchildren
      exact shaped_append hs.shaped hledger hchildren fun w hw => absurd hw List.not_mem_nil
  cases hdid with
  | creates hpc => exact hnone rfl rfl rfl rfl rfl rfl rfl
  | searches errno queueID hpc => exact hnone rfl rfl rfl rfl rfl rfl rfl
  | attaches errno size hpc => exact hnone rfl rfl rfl rfl rfl rfl rfl
  | befriends friendMex friend errno result queues hpc hawait =>
    exact hnone rfl rfl rfl rfl rfl rfl rfl
  | starts friendMex hpc hlength => exact hnone rfl rfl rfl rfl rfl rfl rfl
  | fetches fetched queues p e hpc hreceive hfetch =>
    exact hnone rfl (congrArg Prod.fst (fetchMessages_ids hfetch)) rfl rfl rfl rfl rfl
  | publishes nodesPID p hpc hsize =>
    exact hnone rfl (congrArg Prod.fst (publishSize_ids hsize)) rfl rfl rfl rfl rfl
  | processes p e hpc hblock =>
    have hpid : p.myPID = c.proc.myPID := congrArg Prod.fst (processBlock_ids hblock)
    refine hs.settled rfl rfl rfl ?_ ?_
    · intro w hw
      have hnodes : (s.nodes.set i (c.goto .fetch p)).map (NodeCell.proc · |>.myPID) =
          s.nodes.map (NodeCell.proc · |>.myPID) := map_key_set hc hpid
      show w.myPID ∈ (s.nodes.set i (c.goto .fetch p)).map (NodeCell.proc · |>.myPID)
      rw [hnodes]
      rcases List.mem_append.mp hw with hold | hnew
      · exact hs.children w hold
      · rw [(mem_childrenOf hnew).1]
        exact List.mem_map_of_mem (List.mem_of_getElem? hc)
    · exact shaped_append hs.shaped rfl rfl fun w hw =>
        forked_knows hreach (List.mem_of_getElem? hc) hblock hw

theorem childStep_sources (hs : Sources s) {c : ℕ} {reading : Reading}
    (h : s.childStep c reading = some s') : Sources s' := by
  have hshaped := childStep_shaped hs.shaped h
  obtain ⟨w, hw, hrest⟩ := Option.bind_eq_some_iff.mp h
  obtain ⟨⟨ledger, nodesPID, w'⟩, hdone, rfl⟩ := Option.map_eq_some_iff.mp hrest
  refine hs.settled rfl rfl rfl ?_ hshaped
  intro v hv
  rcases List.mem_or_eq_of_mem_set hv with hold | rfl
  · exact hs.children v hold
  · rw [(Writer.step_pids hdone).1]
    exact hs.children w (List.mem_of_getElem? hw)

theorem listenerStep_rows {o : ListenerOutcome} (h : s.listenerStep par o = some s') :
    s'.usersPID = s.usersPID := by
  have hsend : ∀ failure queue friend pc, ((s.sendFriend failure queue friend).setListener
      ((s.sendFriend failure queue friend).listener.goto pc)).usersPID = s.usersPID := by
    intro failure queue friend pc
    unfold World.sendFriend
    cases msgsnd s.queues failure queue <;> rfl
  unfold World.listenerStep at h
  split at h
  · obtain ⟨r, -, rfl⟩ := Option.map_eq_some_iff.mp h
    rfl
  · simp only [World.spawnStep] at h
    split at h
    · contradiction
    · rw [← Option.some.inj h]
  · obtain ⟨friends, -, rfl⟩ := Option.map_eq_some_iff.mp h
    rfl
  · rw [← Option.some.inj h]
    unfold World.findQueueStep
    split <;> rfl
  · rw [← Option.some.inj h]
    exact hsend _ _ _ _
  · rw [← Option.some.inj h]
    rfl
  · obtain ⟨friends, -, hprepared⟩ := Option.bind_eq_some_iff.mp h
    obtain ⟨p, -, rfl⟩ := Option.map_eq_some_iff.mp hprepared
    rfl
  · rw [← Option.some.inj h]
    exact hsend _ _ _ _
  · rw [← Option.some.inj h]
    rfl
  · contradiction

theorem listenerStep_sources (hs : Sources s) {o : ListenerOutcome}
    (h : s.listenerStep par o = some s') : Sources s' := by
  obtain ⟨hkept, hdid⟩ := listenerStep_cases h
  have hmore : ∃ new, s'.nodes = s.nodes ++ new := by
    cases hdid with
    | took failure result hqueues hnodes => exact ⟨[], hnodes.trans (List.append_nil _).symm⟩
    | spawned nodePID hfork hqueues hnodes => exact ⟨_, hnodes⟩
    | befriended queue friend hqueues hnodes => exact ⟨[], hnodes.trans (List.append_nil _).symm⟩
    | idle hqueues hnodes => exact ⟨[], hnodes.trans (List.append_nil _).symm⟩
  obtain ⟨new, hnodes⟩ := hmore
  refine hs.settled hkept.users (listenerStep_rows h) hkept.sent ?_ ?_
  · rw [hkept.children, hnodes, List.map_append]
    exact fun w hw => List.mem_append_left _ (hs.children w hw)
  · have hchildren : s'.children = s.children ++ [] := by rw [hkept.children, List.append_nil]
    exact shaped_append hs.shaped hkept.ledger hchildren fun w hw => absurd hw List.not_mem_nil

end Steps

section Runs

variable {par : Parameters} {s : World}

theorem sources_initial (h : Network.Initial par s) : Sources s := by
  refine ⟨?_, ?_, ?_⟩
  · rw [h.sent]
    exact fun t ht => absurd ht List.not_mem_nil
  · rw [h.children]
    exact fun w hw => absurd hw List.not_mem_nil
  · rintro n rfl
    refine shaped_initial ⟨h.ledger, fun c => ?_⟩
    have hnone : s.children.length = 0 := by rw [h.children, List.length_nil]
    exact absurd c.isLt (by omega)

theorem reach_sources (h : (Network.machine par).Reach Received s) : Sources s := by
  have hboth := h.invariant (I := fun s => (Network.machine par).Reach Received s ∧ Sources s)
    (fun s hs => ⟨.of_start hs, sources_initial hs⟩) ?_
  · exact hboth.2
  · rintro s l s' ⟨hreach, hs⟩ hC hn
    refine ⟨hreach.next hC hn, ?_⟩
    cases l with
    | user u a => exact userStep_sources hs hn
    | node i o => exact nodeStep_sources hreach hs hn
    | child c reading => exact childStep_sources hs hn
    | listener o => exact listenerStep_sources hs hn

structure Accounted (s : World) (i : Slot) (b : Block) : Prop where
  writer : ∃ w ∈ s.children, Confirmed w i b
  node : b.first.receiver ∈ s.nodes.map (NodeCell.proc · |>.myPID)
  sent : ∀ t ∈ b.entries, t.asSent ∈ s.sent ∧ FromUser s t.asSent

/-- What stands in a slot was built and sent, whichever child wrote it there last. -/
theorem slot_accounted (h : (Network.machine par).Reach Received s) {i : Slot}
    (hused : s.ledger.get i ≠ Block.zero) : Accounted s i (s.ledger.get i) := by
  have hs := reach_sources h
  have hshaped := hs.shaped _ rfl
  obtain ⟨n, -, hfilled, hzero⟩ := hshaped.filled
  have hi : i.val < n := by
    by_contra hge
    exact hused (hzero i (Nat.not_lt.mp hge))
  obtain ⟨c, b, hb, hget⟩ := hfilled i hi
  have hledger : s.ledger.get i = written b i := hget
  have hw : (writers s rfl).writers c ∈ s.children := List.get_mem _ _
  have hconfirmed := written_confirmed hb i
  rw [hledger]
  refine ⟨⟨_, hw, hconfirmed⟩, ?_, fun t ht => ?_⟩
  · rw [hconfirmed.receiver]
    exact hs.children _ hw
  · have hbatch : t.asSent ∈ ((writers s rfl).writers c).transBuffer.toList.map
        Transaction.asSent := by
      rw [← hconfirmed.batch]
      exact List.mem_map_of_mem ht
    have hsender : t.asSent.sender ≠ 0 := by
      obtain ⟨u, hu, heq⟩ := List.mem_map.mp hbatch
      rw [← heq]
      exact (hshaped.knows c).sent u hu
    have htotal : t.asSent ∈ total s := by
      refine Multiset.mem_add.mpr (Or.inr (Multiset.mem_of_le (List.le_sum_of_mem
        (List.mem_map_of_mem (f := recorded) (s.ledger.get_mem i))) ?_))
      rw [hledger]
      exact Multiset.mem_filter.mpr ⟨Multiset.mem_map_of_mem _ ht, hsender⟩
    have hsent := mem_sent_of_total h htotal
    exact ⟨hsent, hs.sent _ hsent⟩

end Runs

section Example

open Confirmation (small launch launch_initial boot pay act)

def child : Label := .child 0 ⟨⟨2, 0⟩, Block.zero⟩

def oneBlock : List Label :=
  boot ++ (List.range 9).flatMap (fun n => [pay (n + 1), act, act, act]) ++ [child, child, child]

theorem block_run : ∃ s, (Network.machine small).run launch oneBlock = some s ∧
    ¬ isFree (s.ledger.get firstSlot) := ⟨_, rfl, by decide⟩

theorem oneBlock_received (s : World) : ∀ l ∈ oneBlock, Received s l := by
  have hact : Received s act := fun e he => absurd he (by simp)
  intro l hl
  rcases List.mem_append.mp hl with hnode | hchild
  · rcases List.mem_append.mp hnode with hboot | hpay
    · rw [List.eq_of_mem_replicate hboot]
      exact hact
    · obtain ⟨n, -, hn⟩ := List.mem_flatMap.mp hpay
      have hcases : l = pay (n + 1) ∨ l = act := by simpa using hn
      rcases hcases with rfl | rfl
      · trivial
      · exact hact
  · have hcases : l = child := by simpa using hchild
    rw [hcases]
    trivial

end Example
end SimulazioneTransazioni.NetworkLedger

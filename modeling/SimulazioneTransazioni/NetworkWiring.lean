import SimulazioneTransazioni.NetworkTokens

/-!
Which process reads which queue. A node in its loop reads the queue with its own
pid as key, which is not the master's. The parent of a node is the master or the
listener, and no queue has the pid of the listener as key.
-/
namespace SimulazioneTransazioni.NetworkWiring

open Nodes Users Master Queues LedgerWriters Network NetworkTokens

section Ids

def ids (p : NodeProc) : PidT × Int32 := (p.myPID, p.queueID)

theorem receive_ids (of : FetchOutcome) (p : NodeProc) :
    ids (receiveFriend of (receiveTransaction of p).1) = ids p := by
  have hfriend : ∀ q, ids (receiveFriend of q) = ids q := by
    intro q
    unfold receiveFriend
    split <;> rfl
  have htrans : ids (receiveTransaction of p).1 = ids p := by
    unfold receiveTransaction
    split <;> rfl
  exact (hfriend _).trans htrans

theorem hopped_ids {o : HopOutcome} {p p' : NodeProc} {e : HopEvent} (h : Hopped o p p' e) :
    ids p' = ids p := by
  cases h <;> rfl

theorem fetchMessages_ids {par : Parameters} {of : FetchOutcome} {oh : HopOutcome}
    {p p' : NodeProc} {e : FetchEvent} (h : fetchMessages par of oh p = .ok (p', e)) :
    ids p' = ids p := by
  cases fetchMessages_fetched h with
  | received hroom => exact receive_ids of p
  | hopped q e' hfull hhop =>
    have hq := hopped_ids hhop
    exact hq

theorem publishSize_ids {nodesPID nodesPID' : List Node} {p p' : NodeProc}
    (h : publishSize nodesPID p = .ok (nodesPID', p')) : ids p' = ids p := by
  rw [(publishSize_ok h).1]
  rfl

theorem processBlock_ids {fork : ForkResult} {p p' : NodeProc} {e : BlockEvent}
    (h : processBlock fork p = .ok (p', e)) : ids p' = ids p := by
  cases processBlock_processed h <;> rfl

end Ids

section Keys

theorem keys_modify (queues : List Queue) (id : Int32) {f : Queue → Queue}
    (hf : ∀ q, (f q).key = q.key) :
    (Queues.modify queues id f).map Queue.key = queues.map Queue.key := by
  unfold Queues.modify
  split
  · rfl
  · exact Table.map_key_modify hf _ _

theorem keys_takeFirst {α : Type} {queues queues' : List Queue} {id : Int32} {a : α}
    {inbox : Queue → List α} {keep : Queue → List α → Queue}
    (h : takeFirst inbox keep queues id = some (a, queues'))
    (hkeep : ∀ q rest, (keep q rest).key = q.key) :
    queues'.map Queue.key = queues.map Queue.key := by
  obtain ⟨q, -, hrest⟩ := Option.bind_eq_some_iff.mp h
  split at hrest
  · contradiction
  next first rest hinbox =>
    have hqueues : _ = queues' := congrArg Prod.snd (Option.some.inj hrest)
    rw [← hqueues]
    exact keys_modify _ _ fun q => hkeep q rest

theorem keys_rcvTrans {queues queues' : List Queue} {failure : Option Errno} {id : Int32}
    {result : MsgrcvResult Message} (h : rcvTrans queues failure id = some (result, queues')) :
    queues'.map Queue.key = queues.map Queue.key := by
  unfold rcvTrans at h
  cases failure with
  | some e =>
    have hqueues : queues = queues' := congrArg Prod.snd (Option.some.inj h)
    rw [hqueues]
  | none =>
    obtain ⟨⟨m, queues₁⟩, htake, hpair⟩ := Option.map_eq_some_iff.mp h
    have hqueues : queues₁ = queues' := congrArg Prod.snd hpair
    rw [← hqueues]
    exact keys_takeFirst htake fun _ _ => rfl

theorem keys_awaitFriend {queues : List Queue} {failure : Option Errno} {id : Int32}
    {r : MsgrcvResult PidT × List Queue} (h : awaitFriend queues failure id = some r) :
    r.2.map Queue.key = queues.map Queue.key := by
  unfold awaitFriend at h
  cases failure with
  | some e => rw [← Option.some.inj h]
  | none =>
    obtain ⟨⟨friend, queues₁⟩, htake, rfl⟩ := Option.map_eq_some_iff.mp h
    exact keys_takeFirst htake fun _ _ => rfl

theorem keys_rcvFriend (queues : List Queue) (failure : Option Errno) (id : Int32) :
    (rcvFriend queues failure id).2.map Queue.key = queues.map Queue.key := by
  unfold rcvFriend
  split
  next r h => exact keys_awaitFriend h
  next => rfl

theorem keys_deliver (queues : List Queue) (e : FetchEvent) :
    (World.deliver queues e).map Queue.key = queues.map Queue.key := by
  unfold World.deliver
  split
  · exact keys_modify _ _ fun _ => rfl
  · exact keys_modify _ _ fun _ => rfl
  · rfl

theorem keys_receive {par : Parameters} {s : World} {o : NodeOutcome} {p : NodeProc}
    {fetched : FetchOutcome} {queues : List Queue}
    (h : s.receive par o p = some (fetched, queues)) :
    queues.map Queue.key = s.queues.map Queue.key := by
  unfold World.receive at h
  split at h
  · obtain ⟨⟨mex, queues₁⟩, hrcv, hpair⟩ := Option.map_eq_some_iff.mp h
    have hqueues : (rcvFriend queues₁ o.friendFailure p.queueID).2 = queues :=
      congrArg Prod.snd hpair
    rw [← hqueues, keys_rcvFriend]
    exact keys_rcvTrans hrcv
  · have hqueues : s.queues = queues := congrArg Prod.snd (Option.some.inj h)
    rw [← hqueues]

end Keys

def Attached (pc : NodePc) : Prop := pc ≠ .queueInit ∧ pc ≠ .attach

structure NodeWired (s : World) (c : NodeCell) : Prop where
  notMaster : c.proc.myPID ≠ s.master
  fresh : 0 < c.proc.myPID ∧ c.proc.myPID ≠ s.listenerPID ∧ c.proc.myPID ≠ s.adopter
  parent : c.ppid = s.master ∨ c.ppid = s.listenerPID
  queue : Attached c.pc → c.proc.queueID = c.proc.myPID

structure Wired (s : World) : Prop where
  keys : ∀ key ∈ s.queues.map Queue.key, 0 < key ∧ key ≠ s.listenerPID ∧ key ≠ s.adopter
  nodes : ∀ c ∈ s.nodes, NodeWired s c
  children : ∀ w ∈ s.children, Carries w
  users : ∀ p ∈ s.users, p.myPID ≠ 0
  senders : ∀ t ∈ s.sent, t.sender ≠ 0
  parent : s.master ≠ s.listenerPID

variable {par : Parameters} {s s' : World}

/-- The start is wired. -/
theorem wired_initial (h : Initial par s) : Wired s := by
  have hkey : ∀ c ∈ s.nodes, c.proc.myPID ∈ s.queues.map Queue.key := by
    intro c hc
    rw [h.keys]
    exact List.mem_cons_of_mem _ (List.mem_map_of_mem hc)
  constructor
  · exact h.fresh
  · intro c hc
    obtain ⟨hstart, hmaster⟩ := h.nodes c hc
    refine ⟨hmaster, h.fresh _ (hkey c hc), Or.inl ?_, ?_⟩
    · rw [hstart]
      rfl
    · intro hattached
      rw [hstart] at hattached
      exact absurd rfl hattached.2
  · rw [h.children]
    exact fun w hw => absurd hw List.not_mem_nil
  · exact h.users
  · rw [h.sent]
    exact fun t ht => absurd ht List.not_mem_nil
  · exact h.parent

theorem NodeWired.of_same {c : NodeCell} (h : NodeWired s c) (hsame : Same s s') :
    NodeWired s' c := by
  obtain ⟨hmaster, hlistener, hadopter⟩ := hsame
  constructor
  · rw [hmaster]
    exact h.notMaster
  · rw [hlistener, hadopter]
    exact h.fresh
  · rw [hmaster, hlistener]
    exact h.parent
  · exact h.queue

/-- A step of one node. -/
theorem Wired.setNode (h : Wired s) {i : ℕ} {c' : NodeCell} (hsame : Same s s')
    (hkeys : ∀ key ∈ s'.queues.map Queue.key,
      key ∈ s.queues.map Queue.key ∨ key = c'.proc.myPID)
    (hnodes : s'.nodes = s.nodes.set i c') (hc' : NodeWired s c')
    (hchildren : ∀ w ∈ s'.children, Carries w) (husers : s'.users = s.users)
    (hsent : s'.sent = s.sent) : Wired s' := by
  constructor
  · rw [hsame.listenerPID, hsame.adopter]
    intro key hkey
    rcases hkeys key hkey with hold | rfl
    · exact h.keys key hold
    · exact hc'.fresh
  · rw [hnodes]
    intro c hc
    rcases List.mem_or_eq_of_mem_set hc with hold | rfl
    · exact (h.nodes c hold).of_same hsame
    · exact hc'.of_same hsame
  · exact hchildren
  · rw [husers]
    exact h.users
  · rw [hsent]
    exact h.senders
  · rw [hsame.master, hsame.listenerPID]
    exact h.parent

theorem NodeWired.goto {c : NodeCell} (h : NodeWired s c) {pc : NodePc} {p : NodeProc}
    (hids : ids p = ids c.proc) (hpc : Attached pc → Attached c.pc) :
    NodeWired s (c.goto pc p) := by
  have hpid : p.myPID = c.proc.myPID := congrArg Prod.fst hids
  have hqueue : p.queueID = c.proc.queueID := congrArg Prod.snd hids
  constructor
  · show p.myPID ≠ s.master
    rw [hpid]
    exact h.notMaster
  · show 0 < p.myPID ∧ p.myPID ≠ s.listenerPID ∧ p.myPID ≠ s.adopter
    rw [hpid]
    exact h.fresh
  · exact h.parent
  · intro hattached
    show p.queueID = p.myPID
    rw [hqueue, hpid]
    exact h.queue (hpc hattached)

/-- A step of a node keeps the pids, the queues and the batches as they belong together. -/
theorem nodeStep_wired (h : Wired s) {i : ℕ} {o : NodeOutcome}
    (hstep : s.nodeStep par i o = some s') : Wired s' := by
  obtain ⟨c, hc, hdid⟩ := nodeStep_did hstep
  have hwired := h.nodes c (List.mem_of_getElem? hc)
  have hsame : ∀ pid, ∀ key ∈ s.queues.map Queue.key, key ∈ s.queues.map Queue.key ∨
      key = pid := fun _ _ hkey => Or.inl hkey
  cases hdid with
  | creates hpc =>
    refine h.setNode ⟨rfl, rfl, rfl⟩ ?_ rfl ?_ h.children rfl rfl
    · intro key hkey
      have hkey' : key ∈ (s.queues ++ [create c.proc.myPID]).map Queue.key := hkey
      rw [List.map_append] at hkey'
      rcases List.mem_append.mp hkey' with hold | hnew
      · exact Or.inl hold
      · exact Or.inr (List.mem_singleton.mp hnew)
    · exact hwired.goto rfl fun hattached => absurd rfl hattached.2
  | searches errno queueID hpc =>
    refine h.setNode ⟨rfl, rfl, rfl⟩ (hsame _) rfl ?_ h.children rfl rfl
    exact ⟨hwired.notMaster, hwired.fresh, hwired.parent, fun hattached => absurd rfl hattached.2⟩
  | attaches errno size hpc =>
    refine h.setNode ⟨rfl, rfl, rfl⟩ (hsame _) rfl ?_ h.children rfl rfl
    exact ⟨hwired.notMaster, hwired.fresh, hwired.parent, fun _ => rfl⟩
  | befriends friendMex friend errno result queues hpc hawait =>
    refine h.setNode ⟨rfl, rfl, rfl⟩ ?_ rfl (hwired.goto rfl fun _ => by simp [hpc, Attached])
      h.children rfl rfl
    intro key hkey
    rw [← keys_awaitFriend hawait]
    exact Or.inl hkey
  | starts friendMex hpc hlength =>
    exact h.setNode ⟨rfl, rfl, rfl⟩ (hsame _) rfl
      (hwired.goto rfl fun _ => by simp [hpc, Attached]) h.children rfl rfl
  | fetches fetched queues p e hpc hreceive hfetch =>
    refine h.setNode ⟨rfl, rfl, rfl⟩ ?_ rfl
      (hwired.goto (fetchMessages_ids hfetch) fun _ => by simp [hpc, Attached])
      h.children rfl rfl
    intro key hkey
    rw [← keys_receive hreceive, ← keys_deliver queues e]
    exact Or.inl hkey
  | publishes nodesPID p hpc hsize =>
    exact h.setNode ⟨rfl, rfl, rfl⟩ (hsame _) rfl
      (hwired.goto (publishSize_ids hsize) fun _ => by simp [hpc, Attached]) h.children rfl rfl
  | processes p e hpc hblock =>
    refine h.setNode ⟨rfl, rfl, rfl⟩ (hsame _) rfl
      (hwired.goto (processBlock_ids hblock) fun _ => by simp [hpc, Attached]) ?_ rfl rfl
    intro w hw
    rcases List.mem_append.mp hw with hold | hnew
    · exact h.children w hold
    · intro b hb
      rw [(mem_childrenOf hnew).2] at hb
      exact absurd hb (by simp [blockOf])

theorem childStep_wired (h : Wired s) {c : ℕ} {reading : Reading}
    (hstep : s.childStep c reading = some s') : Wired s' := by
  obtain ⟨w, hw, hrest⟩ := Option.bind_eq_some_iff.mp hstep
  obtain ⟨⟨ledger, nodesPID, w'⟩, hdone, rfl⟩ := Option.map_eq_some_iff.mp hrest
  refine ⟨h.keys, fun c hc => (h.nodes c hc).of_same ⟨rfl, rfl, rfl⟩, ?_, h.users, h.senders,
    h.parent⟩
  intro v hv
  rcases List.mem_or_eq_of_mem_set hv with hold | rfl
  · exact h.children v hold
  · exact carries_did (h.children w (List.mem_of_getElem? hw)) (Writer.step_did hdone)

theorem userStep_wired (h : Wired s) {u : ℕ} {a : Order} (hstep : s.userStep par u a = some s') :
    Wired s' := by
  obtain ⟨p, p', result, hp, rfl, hpid, hsender, -⟩ := userStep_cases hstep
  have hne : p.myPID ≠ 0 := h.users p (List.mem_of_getElem? hp)
  have husers : ∀ q ∈ s.users.set u p', q.myPID ≠ 0 := by
    intro q hq
    rcases List.mem_or_eq_of_mem_set hq with hold | rfl
    · exact h.users q hold
    · rw [hpid]
      exact hne
  cases result with
  | failed e =>
    exact ⟨h.keys, fun c hc => (h.nodes c hc).of_same ⟨rfl, rfl, rfl⟩, h.children, husers,
      h.senders, h.parent⟩
  | sent =>
    refine ⟨?_, fun c hc => (h.nodes c hc).of_same ⟨rfl, rfl, rfl⟩, h.children, husers, ?_,
      h.parent⟩
    · intro key hkey
      have hkey' : key ∈ (pushTrans s.queues p'.queueID p'.transMsg).map Queue.key := hkey
      rw [pushTrans, keys_modify _ _ fun _ => by rfl] at hkey'
      exact h.keys key hkey'
    · intro t ht
      rcases List.mem_append.mp ht with hold | hnew
      · exact h.senders t hold
      · rw [List.mem_singleton.mp hnew, hsender]
        exact hne

theorem Wired.of_kept (h : Wired s) (hkept : Kept s s')
    (hkeys : s'.queues.map Queue.key = s.queues.map Queue.key)
    (hnodes : ∀ c ∈ s'.nodes, NodeWired s c) : Wired s' := by
  constructor
  · rw [hkeys, hkept.same.listenerPID, hkept.same.adopter]
    exact h.keys
  · exact fun c hc => (hnodes c hc).of_same hkept.same
  · rw [hkept.children]
    exact h.children
  · rw [hkept.users]
    exact h.users
  · rw [hkept.sent]
    exact h.senders
  · rw [hkept.same.master, hkept.same.listenerPID]
    exact h.parent

theorem newNodes_wired {nodePID : PidT} (hfork : nodePID ≠ -1 → 0 < nodePID ∧ nodePID ∉ s.pids) :
    ∀ c ∈ s.newNodes nodePID, NodeWired s c := by
  intro c hc
  unfold World.newNodes at hc
  split at hc
  · exact absurd hc List.not_mem_nil
  next hne =>
    rw [List.mem_singleton.mp hc]
    obtain ⟨hpos, hpids⟩ := hfork hne
    have hfresh : ∀ pid ∈ [s.master, s.listenerPID, s.adopter], nodePID ≠ pid := by
      intro pid hpid heq
      rw [heq] at hpids
      exact hpids (List.mem_append_left _ (List.mem_append_left _ hpid))
    exact ⟨hfresh _ (by simp), ⟨hpos, hfresh _ (by simp), hfresh _ (by simp)⟩, Or.inr rfl,
      fun hattached => absurd rfl hattached.1⟩

theorem listenerStep_wired (h : Wired s) {o : ListenerOutcome}
    (hstep : s.listenerStep par o = some s') : Wired s' := by
  obtain ⟨hkept, hdid⟩ := listenerStep_cases hstep
  cases hdid with
  | took failure result hqueues hnodes =>
    refine h.of_kept hkept (keys_rcvTrans hqueues) ?_
    rw [hnodes]
    exact h.nodes
  | spawned nodePID hfork hqueues hnodes =>
    refine h.of_kept hkept (by rw [hqueues]) ?_
    rw [hnodes]
    intro c hc
    rcases List.mem_append.mp hc with hold | hnew
    · exact h.nodes c hold
    · exact newNodes_wired hfork c hnew
  | befriended queue friend hqueues hnodes =>
    refine h.of_kept hkept ?_ ?_
    · rw [hqueues]
      exact keys_modify _ _ fun _ => rfl
    · rw [hnodes]
      exact h.nodes
  | idle hqueues hnodes =>
    refine h.of_kept hkept (by rw [hqueues]) ?_
    rw [hnodes]
    exact h.nodes

theorem next_wired (h : Wired s) {l : Label} (hn : World.next par s l = some s') : Wired s' := by
  cases l with
  | user u a => exact userStep_wired h hn
  | node i o => exact nodeStep_wired h hn
  | child c reading => exact childStep_wired h hn
  | listener o => exact listenerStep_wired h hn

end SimulazioneTransazioni.NetworkWiring

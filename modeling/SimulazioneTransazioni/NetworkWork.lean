import SimulazioneTransazioni.Library.Potential
import SimulazioneTransazioni.Workload

/-!
How much the nodes, their children and the listener do for what the users send.
Every step of theirs takes from the work, but for two loops that only ask again
for a queue which is not there. So a run makes at most a fixed number of steps for
each node and for each transaction, and without the users the system comes to
rest.
-/
namespace SimulazioneTransazioni.NetworkWork

open Nodes Users Master Queues LedgerWriters Network NetworkWiring PoolCounter Workload

/-- A node waits until a transaction comes, and so does the listener. -/
def Answered (_ : World) : Label → Prop
  | .node _ o => o.rcvFailure = none
  | .listener o => o.rcvFailure = none
  | _ => True

/-- The step is none of a user's, and does not just ask again for a queue. -/
def Works (s : World) : Label → Prop
  | .user _ _ => False
  | .node i _ => ∀ c, s.nodes[i]? = some c → c.pc = .attach →
      (msgget s.queues c.proc.myPID).errno c.proc.errno ≠ .ENOENT
  | .child _ _ => True
  | .listener _ => ∀ node friends, s.listener.pc = .findQueue node friends →
      node ∈ s.queues.map Queue.key

instance (s : World) : (l : Label) → Decidable (Works s l)
  | .user _ _ => .isFalse id
  | .child _ _ => .isTrue trivial
  | .node i _ => inferInstanceAs (Decidable (∀ c ∈ s.nodes[i]?, c.pc = .attach →
      (msgget s.queues c.proc.myPID).errno c.proc.errno ≠ .ENOENT))
  | .listener _ =>
    match h : s.listener.pc with
    | .findQueue node friends => decidable_of_iff (node ∈ s.queues.map Queue.key) <| by
        simp [Works, h]
    | .receive | .spawn | .makeFriends _ | .sendFriends _ _ | .makePrivate | .announce _
    | .exited => .isTrue <| by simp [Works, h]

section Steps

variable {par : Parameters} {s s' : World} {i : ℕ} {c c' : NodeCell}

/-- A step of one node that takes from the work. -/
theorem work_node (hc : s.nodes[i]? = some c) (hnodes : s'.nodes = s.nodes.set i c')
    (hmaster : s'.master = s.master) (hlistener : s'.listener = s.listener)
    (hless : queuesWork par s.master s'.queues + nodeWork par c' +
      (s'.children.map childWork).sum + 1 ≤
        queuesWork par s.master s.queues + nodeWork par c + (s.children.map childWork).sum) :
    work par s' + 1 ≤ work par s := by
  have hsum := Table.sum_set (nodeWork par) c' hc
  rw [← hnodes] at hsum
  rw [work, work, hmaster, hlistener]
  omega

theorem attachStep_work (hc : s.nodes[i]? = some c) (hpc : c.pc = .attach)
    (hfound : (msgget s.queues c.proc.myPID).errno c.proc.errno ≠ .ENOENT) :
    work par (s.attachStep par i c) + 1 ≤ work par s := by
  unfold World.attachStep
  dsimp only
  rw [if_neg hfound]
  refine work_node hc rfl rfl rfl ?_
  show queuesWork par s.master s.queues +
    (par.soFriendsNum.toNat - c.proc.friendList.length + 5) + (s.children.map childWork).sum +
      1 ≤ _
  rw [nodeWork, hpc]
  dsimp only
  omega

theorem befriendStep_work {friendMex : PidT} {o : NodeOutcome} (hc : s.nodes[i]? = some c)
    (hpc : c.pc = .befriend friendMex) (h : s.befriendStep par i c friendMex o = some s') :
    work par s' + 1 ≤ work par s := by
  have hold : nodeWork par c = par.soFriendsNum.toNat - c.proc.friendList.length + 5 := by
    rw [nodeWork, hpc]
  unfold World.befriendStep at h
  split at h
  next hfew =>
    obtain ⟨⟨result, queues⟩, hawait, rfl⟩ := Option.map_eq_some_iff.mp h
    refine work_node hc rfl rfl rfl ?_
    show queuesWork par s.master queues +
      (par.soFriendsNum.toNat - (c.proc.friendList ++ [_]).length + 5) +
        (s.children.map childWork).sum + 1 ≤ _
    rw [queuesWork_congr fun P _ => waiting_awaitFriend hawait, hold, List.length_append,
      List.length_singleton]
    omega
  next =>
    rw [← Option.some.inj h]
    refine work_node hc rfl rfl rfl ?_
    have hflag := flagWork_le c.proc.flag
    show queuesWork par s.master s.queues + (flagWork c.proc.flag + 0) +
      (s.children.map childWork).sum + 1 ≤ _
    rw [hold]
    omega

/-- A pass lowers the work, whether it receives or hops. -/
theorem fetchStep_work {o : NodeOutcome} (hwired : Wired s) (hfits : Fits c)
    (hsize : soBlockSize < par.soTpSize.toNat) (hanswered : o.rcvFailure = none)
    (hc : s.nodes[i]? = some c) (hpc : c.pc = .fetch)
    (h : s.fetchStep par i c o = some s') : work par s' + 1 ≤ work par s := by
  have hmem := List.mem_of_getElem? hc
  have hnode := hwired.nodes c hmem
  obtain ⟨⟨fetched, queues⟩, hreceive, hrest⟩ := Option.bind_eq_some_iff.mp h
  dsimp only at hrest
  split at hrest
  · contradiction
  next p e hfetch =>
    rw [← Option.some.inj hrest]
    refine work_node hc rfl rfl rfl ?_
    have hold : nodeWork par c = loopWork par c.proc := by rw [nodeWork, hpc]
    have hless : queuesWork par s.master (World.deliver queues e) + loopWork par p + 3 ≤
        queuesWork par s.master s.queues + loopWork par c.proc := by
      have hfetched := fetchMessages_fetched hfetch
      generalize hq : p = q at hfetched
      generalize he : e = e' at hfetched
      cases hfetched with
      | received hroom =>
        have hother : c.proc.queueID ≠ s.master := by
          rw [hnode.queue (by simp [hpc, Attached])]
          exact hnode.notMaster
        rw [he] at hfetch
        rw [← hq]
        exact received_work hanswered hother hreceive hfetch
      | hopped q e' hfull hhop =>
        -- The pool is never full, so it is the flag that makes a pass hop.
        have hexact := hfits.fetch hpc
        have hroom : c.proc.transPool.size < par.soTpSize := by
          have hlength := hexact.size
          have hle := hexact.le
          apply UInt32.lt_iff_toNat_lt.mpr
          omega
        have hflag : ¬ c.proc.flag < 20 := fun hlt => hfull ⟨hroom, hlt⟩
        rw [World.receive, if_neg hfull] at hreceive
        have hqueues : s.queues = queues := congrArg Prod.snd (Option.some.inj hreceive)
        rw [← hqueues]
        exact hopped_work hwired hmem hflag hhop
    show queuesWork par s.master (World.deliver queues e) + (loopWork par p + 2) +
      (s.children.map childWork).sum + 1 ≤ _
    rw [hold]
    omega

theorem publishStep_work (hc : s.nodes[i]? = some c) (hpc : c.pc = .publish)
    (h : s.publishStep i c = some s') : work par s' + 1 ≤ work par s := by
  unfold World.publishStep at h
  split at h
  · contradiction
  next nodesPID p hsize =>
    rw [← Option.some.inj h]
    refine work_node hc rfl rfl rfl ?_
    have hsame : loopWork par p = loopWork par c.proc := by
      rw [(publishSize_ok hsize).1]
      rfl
    show queuesWork par s.master s.queues + (loopWork par p + 1) +
      (s.children.map childWork).sum + 1 ≤ _
    rw [hsame, nodeWork, hpc]
    dsimp only
    omega

/-- The second half of the body lowers the work, whether it forks or not. -/
theorem processStep_work {o : NodeOutcome} (hc : s.nodes[i]? = some c) (hpc : c.pc = .process)
    (h : s.processStep i c o = some s') : work par s' + 1 ≤ work par s := by
  unfold World.processStep at h
  split at h
  · contradiction
  next p e hblock =>
    rw [← Option.some.inj h]
    refine work_node hc rfl rfl rfl ?_
    have hold : nodeWork par c = loopWork par c.proc + 1 := by rw [nodeWork, hpc]
    -- A batch has the work of the child that takes it.
    have hless : loopWork par p + ((World.childrenOf c.proc.myPID e).map childWork).sum ≤
        loopWork par c.proc := by
      have hbatch : ∀ {batch : Blocks.Batch} {pool : Pool},
          fillBlockTransList (soBlockSize - 1) c.proc.transPool = .ok (batch, pool) →
            poolLoad par pool + soRegistrySize + masterWork par ≤
              poolLoad par c.proc.transPool := fun hfill => poolLoad_batch hfill
      have hprocessed := processBlock_processed hblock
      generalize o.fork = fork at hprocessed
      cases hprocessed with
      | tooFew fork hfew => exact le_rfl
      | forked pid batch pool hfill =>
        have hpool := hbatch hfill
        unfold masterWork at hpool
        show flagWork c.proc.flag + poolLoad par pool + (soRegistrySize + 3 + 0) ≤ _
        rw [loopWork]
        omega
      | forkFailed errno batch pool hfill =>
        have hpool := hbatch hfill
        show flagWork c.proc.flag + poolLoad par pool + 0 ≤ _
        rw [loopWork]
        omega
    show queuesWork par s.master s.queues + loopWork par p +
      ((s.children ++ World.childrenOf c.proc.myPID e).map childWork).sum + 1 ≤ _
    rw [List.map_append, List.sum_append, hold]
    omega

/-- Every working step of a node lowers the work. -/
theorem nodeStep_work {o : NodeOutcome} (hwired : Wired s) (hfits : ∀ c ∈ s.nodes, Fits c)
    (hsize : soBlockSize < par.soTpSize.toNat) (hanswered : o.rcvFailure = none)
    (hworks : Works s (.node i o)) (h : s.nodeStep par i o = some s') :
    work par s' + 1 ≤ work par s := by
  obtain ⟨c, hc, hstep⟩ := Option.bind_eq_some_iff.mp h
  split at hstep
  next hpc =>
    rw [← Option.some.inj hstep]
    refine work_node hc rfl rfl rfl ?_
    show queuesWork par s.master (s.queues ++ [create c.proc.myPID]) +
      (par.soFriendsNum.toNat + 6) + (s.children.map childWork).sum + 1 ≤ _
    rw [queuesWork_congr fun P _ => waiting_create P s.queues c.proc.myPID, nodeWork, hpc]
    dsimp only
    omega
  next hpc =>
    rw [← Option.some.inj hstep]
    exact attachStep_work hc hpc (hworks c hc hpc)
  next friendMex hpc => exact befriendStep_work hc hpc hstep
  next hpc =>
    exact fetchStep_work hwired (hfits c (List.mem_of_getElem? hc)) hsize hanswered hc hpc hstep
  next hpc => exact publishStep_work hc hpc hstep
  next hpc => exact processStep_work hc hpc hstep

/-- Every step of a child lowers the work. -/
theorem childStep_work {j : ℕ} {reading : Reading} (h : s.childStep j reading = some s') :
    work par s' + 1 ≤ work par s := by
  obtain ⟨w, hw, hrest⟩ := Option.bind_eq_some_iff.mp h
  obtain ⟨⟨ledger, nodesPID, w'⟩, hdone, rfl⟩ := Option.map_eq_some_iff.mp hrest
  have hsum := Table.sum_set childWork w' hw
  have hless : childWork w' + 1 ≤ childWork w := by
    cases Writer.step_did hdone with
    | build b hpc hb =>
      rw [childWork, childWork, hpc]
      show soRegistrySize - 0 + 2 + 1 ≤ soRegistrySize + 3
      omega
    | claim b slot hpc hfree =>
      rw [childWork, childWork, hpc]
      show 1 + 1 ≤ soRegistrySize - slot.val + 2
      omega
    | skip b slot hpc hused =>
      have hlt := slot.isLt
      rw [childWork, childWork, hpc]
      show soRegistrySize - (slot.val + 1) + 2 + 1 ≤ soRegistrySize - slot.val + 2
      omega
    | giveUp b k hpc hk =>
      rw [childWork, childWork, hpc]
      show 0 + 1 ≤ soRegistrySize - k + 2
      omega
    | write b slot hpc =>
      rw [childWork, childWork, hpc]
      exact le_rfl
  show queuesWork par s.master s.queues + (s.nodes.map (nodeWork par)).sum +
    ((s.children.set j w').map childWork).sum + listenerWork par s.listener.pc + 1 ≤ _
  rw [work]
  omega

section Listener

variable {o : ListenerOutcome}

/-- A step of the listener that brings no transaction and no node. -/
theorem work_listener (hnodes : s'.nodes = s.nodes) (hchildren : s'.children = s.children)
    (hqueues : queuesWork par s'.master s'.queues = queuesWork par s.master s.queues)
    (hless : listenerWork par s'.listener.pc + 1 ≤ listenerWork par s.listener.pc) :
    work par s' + 1 ≤ work par s := by
  rw [work, work, hnodes, hchildren, hqueues]
  omega

theorem setListener_work {p : Listener}
    (hless : listenerWork par p.pc + 1 ≤ listenerWork par s.listener.pc) :
    work par (s.setListener p) + 1 ≤ work par s :=
  work_listener rfl rfl rfl hless

theorem sendFriend_work (failure : Option Errno) (queue : Int32) (friend : PidT)
    {pc : ListenerPc} (hless : listenerWork par pc + 1 ≤ listenerWork par s.listener.pc) :
    work par ((s.sendFriend failure queue friend).setListener
      ((s.sendFriend failure queue friend).listener.goto pc)) + 1 ≤ work par s := by
  unfold World.sendFriend
  cases msgsnd s.queues failure queue with
  | sent =>
    exact work_listener rfl rfl (queuesWork_congr fun P _ => waiting_pushFriend friend) hless
  | failed e => exact setListener_work hless

theorem receiveStep_work {result : MsgrcvResult Message} {queues : List Queue}
    (hpc : s.listener.pc = .receive) (h : rcvTrans s.queues none s.master = some (result, queues)) :
    work par { s.withQueues queues with
      nodesPID := prepareRow par s.nodesPID
      listener := s.listener.received result } + 1 ≤ work par s := by
  obtain ⟨⟨m, queues₁⟩, htake, heq⟩ := Option.map_eq_some_iff.mp h
  simp only [Prod.mk.injEq] at heq
  obtain ⟨rfl, rfl⟩ := heq
  have htaken := queuesWork_take par s.master htake
  rw [arrivalWork, if_pos rfl, masterWork] at htaken
  show queuesWork par s.master queues₁ + (s.nodes.map (nodeWork par)).sum +
    (s.children.map childWork).sum + (3 * par.soFriendsNum.toNat + 13) + 1 ≤ _
  rw [work, hpc]
  show _ ≤ _ + 0
  omega

theorem spawnStep_work {fork : ForkResult} (hpc : s.listener.pc = .spawn)
    (h : s.spawnStep par fork = some s') : work par s' + 1 ≤ work par s := by
  simp only [World.spawnStep] at h
  split at h
  · contradiction
  next =>
    rw [← Option.some.inj h]
    generalize spawnNode par fork none s.listener.overBuf s.nodesPID = spawned
    have hlistener : listenerWork par s.listener.pc = 3 * par.soFriendsNum.toNat + 13 := by
      rw [hpc]
      rfl
    show queuesWork par s.master s.queues +
      ((s.nodes ++ s.newNodes spawned.nodePID).map (nodeWork par)).sum +
        (s.children.map childWork).sum + listenerWork par (s.listener.spawned spawned).pc + 1 ≤ _
    rw [work, hlistener, List.map_append, List.sum_append, World.newNodes, Listener.spawned]
    dsimp only
    by_cases herror : spawned.nodePID = -1
    · rw [if_pos herror, if_pos herror]
      show _ + (_ + 0) + _ + 0 + 1 ≤ _
      omega
    · rw [if_neg herror, if_neg herror]
      show _ + (_ + (par.soFriendsNum.toNat + 7 + 0)) + _ + (2 * par.soFriendsNum.toNat + 5) +
        1 ≤ _
      omega

/-- Every working step of the listener lowers the work. -/
theorem listenerStep_work (hanswered : o.rcvFailure = none) (hworks : Works s (.listener o))
    (h : s.listenerStep par o = some s') : work par s' + 1 ≤ work par s := by
  unfold World.listenerStep at h
  split at h
  next hpc =>
    rw [hanswered] at h
    obtain ⟨⟨result, queues⟩, hrcv, rfl⟩ := Option.map_eq_some_iff.mp h
    exact receiveStep_work hpc hrcv
  next hpc => exact spawnStep_work hpc h
  next node hpc =>
    obtain ⟨friends, hfriends, rfl⟩ := Option.map_eq_some_iff.mp h
    refine setListener_work ?_
    rw [hpc]
    show friends.length + par.soFriendsNum.toNat + 4 + 1 ≤ 2 * par.soFriendsNum.toNat + 5
    rw [length_makeFriendList hfriends]
    omega
  next node friends hpc =>
    rw [← Option.some.inj h, World.findQueueStep, msgget, if_pos (hworks node friends hpc)]
    refine setListener_work ?_
    rw [hpc]
    exact le_rfl
  next queue friend rest hpc =>
    rw [← Option.some.inj h]
    refine sendFriend_work _ _ _ ?_
    rw [hpc]
    show rest.length + par.soFriendsNum.toNat + 3 + 1 ≤
      rest.length + 1 + par.soFriendsNum.toNat + 3
    omega
  next queue hpc =>
    rw [← Option.some.inj h]
    refine setListener_work ?_
    rw [hpc]
    show par.soFriendsNum.toNat + 2 + 1 ≤ 0 + par.soFriendsNum.toNat + 3
    omega
  next hpc =>
    obtain ⟨friends, hfriends, hprepared⟩ := Option.bind_eq_some_iff.mp h
    obtain ⟨p, hp, rfl⟩ := Option.map_eq_some_iff.mp hprepared
    obtain ⟨row, -, rfl⟩ := Option.map_eq_some_iff.mp hp
    refine setListener_work ?_
    rw [hpc]
    show friends.length + 1 + 1 ≤ par.soFriendsNum.toNat + 2
    rw [length_makeFriendList hfriends]
  next friend rest hpc =>
    rw [← Option.some.inj h]
    refine sendFriend_work _ _ _ ?_
    rw [hpc]
    exact le_rfl
  next hpc =>
    rw [← Option.some.inj h]
    refine setListener_work ?_
    rw [hpc]
    exact le_rfl
  next => contradiction

end Listener

/-- Every step that works takes from the work. -/
theorem next_work (hwired : Wired s) (hfits : ∀ c ∈ s.nodes, Fits c)
    (hsize : soBlockSize < par.soTpSize.toNat) {l : Label} (hanswered : Answered s l)
    (hworks : Works s l) (h : World.next par s l = some s') : work par s' + 1 ≤ work par s := by
  cases l with
  | user u a => exact absurd hworks id
  | node i o => exact nodeStep_work hwired hfits hsize hanswered hworks h
  | child j reading => exact childStep_work h
  | listener o => exact listenerStep_work hanswered hworks h

/-- A user brings the work of what it sends. -/
theorem userStep_work {u : ℕ} {a : Order} (h : s.userStep par u a = some s') :
    work par s' + income par s ≤ work par s + income par s' := by
  obtain ⟨p, p', result, -, rfl, -, -, -, hhops, -⟩ := userStep_cases h
  cases result with
  | failed e => exact le_rfl
  | sent =>
    have hpush := queuesWork_push par s.master s.queues p'.queueID p'.transMsg
    have harrival := arrivalWork_le par s.master p'.queueID p'.transMsg
    have hsend : queueWork par p'.transMsg = sendWork par := by
      have hsize : soRegistrySize = 1000 := rfl
      rw [queueWork, poolWork, masterWork, hopsLeft, hhops, sendWork]
      omega
    show queuesWork par s.master (pushTrans s.queues p'.queueID p'.transMsg) +
      (s.nodes.map (nodeWork par)).sum + (s.children.map childWork).sum +
        listenerWork par s.listener.pc + s.sent.length * sendWork par ≤
      work par s + (s.sent ++ [p'.transMsg.userTrans]).length * sendWork par
    rw [List.length_append, List.length_singleton, Nat.add_mul, Nat.one_mul, work]
    omega

/-- A step that only asks again for a queue changes no work. -/
theorem polls_work {l : Label} (huser : ∀ u a, l ≠ .user u a) (hpolls : ¬ Works s l)
    (h : World.next par s l = some s') : work par s' = work par s ∧ s'.sent = s.sent := by
  cases l with
  | user u a => exact absurd rfl (huser u a)
  | child j reading => exact absurd trivial hpolls
  | node i o =>
    simp only [Works, not_forall, not_not] at hpolls
    obtain ⟨c, hc, hpc, herrno⟩ := hpolls
    obtain ⟨c', hc', hstep⟩ := Option.bind_eq_some_iff.mp h
    rw [hc, Option.some.injEq] at hc'
    subst hc'
    simp only [hpc] at hstep
    rw [← Option.some.inj hstep, World.attachStep]
    dsimp only
    rw [if_pos herrno]
    have hsum := Table.sum_set (nodeWork par) (c.goto .attach
      { c.proc with
        queueID := (msgget s.queues c.proc.myPID).queue
        errno := (msgget s.queues c.proc.myPID).errno c.proc.errno }) hc
    have hsame : nodeWork par c = par.soFriendsNum.toNat + 6 := by rw [nodeWork, hpc]
    have hsame' : ∀ p, nodeWork par (c.goto .attach p) = par.soFriendsNum.toNat + 6 := fun _ => rfl
    rw [hsame, hsame'] at hsum
    refine ⟨?_, rfl⟩
    show _ + ((s.nodes.set i _).map (nodeWork par)).sum + _ + _ = _ + _ + _ + _
    rw [Nat.add_right_cancel hsum]
    rfl
  | listener o =>
    simp only [Works, not_forall] at hpolls
    obtain ⟨node, friends, hpc, hnot⟩ := hpolls
    have hstep : s.listenerStep par o = some s' := h
    simp only [World.listenerStep, hpc] at hstep
    rw [← Option.some.inj hstep, World.findQueueStep, msgget, if_neg hnot]
    exact ⟨rfl, rfl⟩

section Invariant

theorem fits_set (hfits : ∀ c ∈ s.nodes, Fits c) (hnodes : s'.nodes = s.nodes.set i c')
    (hc' : Fits c') : ∀ c ∈ s'.nodes, Fits c := by
  intro c hc
  rw [hnodes] at hc
  rcases List.mem_or_eq_of_mem_set hc with hold | rfl
  · exact hfits c hold
  · exact hc'

theorem nodeStep_fits {o : NodeOutcome} (hfits : ∀ c ∈ s.nodes, Fits c)
    (h : s.nodeStep par i o = some s') : ∀ c ∈ s'.nodes, Fits c := by
  obtain ⟨c, hc, hdid⟩ := nodeStep_did h
  have hbefore := hfits c (List.mem_of_getElem? hc)
  have hother : ∀ {pc : NodePc} {p : NodeProc}, pc ≠ .fetch → pc ≠ .publish → pc ≠ .process →
      Fits (c.goto pc p) := fun hfetch hpublish hprocess =>
    ⟨fun hpc => absurd hpc hfetch, fun hpc => (hpc.elim hpublish hprocess).elim⟩
  cases hdid with
  | creates hpc => exact fits_set hfits rfl (hother nofun nofun nofun)
  | searches errno queueID hpc => exact fits_set hfits rfl (hother nofun nofun nofun)
  | attaches errno size hpc => exact fits_set hfits rfl (hother nofun nofun nofun)
  | befriends friendMex friend errno result queues hpc hawait =>
    exact fits_set hfits rfl (hother nofun nofun nofun)
  | starts friendMex hpc hlength =>
    refine fits_set hfits rfl ⟨fun _ => exact_init.mono (Nat.zero_le _), ?_⟩
    rintro (hnot | hnot) <;> contradiction
  | fetches fetched queues p e hpc hreceive hfetch =>
    refine fits_set hfits rfl ⟨nofun, fun _ => ?_⟩
    exact fetchMessages_exact (n := 7) (hbefore.fetch hpc) (by decide) hfetch
  | publishes nodesPID p hpc hsize =>
    refine fits_set hfits rfl ⟨nofun, fun _ => ?_⟩
    show Exact _ p.transPool
    rw [publishSize_transPool hsize]
    exact hbefore.rest (Or.inl hpc)
  | processes p e hpc hblock =>
    obtain ⟨p', e', hprocess, hexact⟩ := processBlock_exact o.fork (hbefore.rest (Or.inr hpc))
    rw [hprocess, Except.ok.injEq, Prod.mk.injEq] at hblock
    refine fits_set hfits rfl ⟨fun _ => ?_, ?_⟩
    · rw [← hblock.1]
      exact hexact
    · rintro (hnot | hnot) <;> contradiction

theorem fits_start {c : NodeCell} {pid ppid : PidT} {pc : NodePc} (h : c = .start pid ppid pc)
    (hpc : pc = .attach ∨ pc = .queueInit) : Fits c := by
  rw [h]
  rcases hpc with rfl | rfl
  · exact ⟨nofun, fun hnot => by rcases hnot with hnot | hnot <;> contradiction⟩
  · exact ⟨nofun, fun hnot => by rcases hnot with hnot | hnot <;> contradiction⟩

/-- In every step the counters of the pools stay exact. -/
theorem next_fits (hfits : ∀ c ∈ s.nodes, Fits c) {l : Label}
    (h : World.next par s l = some s') : ∀ c ∈ s'.nodes, Fits c := by
  cases l with
  | user u a =>
    obtain ⟨p, p', result, -, rfl, -⟩ := userStep_cases h
    cases result <;> exact hfits
  | node i o => exact nodeStep_fits hfits h
  | child j reading =>
    obtain ⟨w, -, hrest⟩ := Option.bind_eq_some_iff.mp h
    obtain ⟨r, -, rfl⟩ := Option.map_eq_some_iff.mp hrest
    exact hfits
  | listener o =>
    obtain ⟨-, hdid⟩ := listenerStep_cases h
    cases hdid with
    | took failure result hqueues hnodes => rwa [hnodes]
    | befriended queue friend hqueues hnodes => rwa [hnodes]
    | idle hqueues hnodes => rwa [hnodes]
    | spawned nodePID hfork hqueues hnodes =>
      rw [hnodes]
      intro c hc
      rcases List.mem_append.mp hc with hold | hnew
      · exact hfits c hold
      · unfold World.newNodes at hnew
        split at hnew
        · exact absurd hnew List.not_mem_nil
        · exact fits_start (List.mem_singleton.mp hnew) (Or.inr rfl)

end Invariant
end Steps

section Runs

variable {par : Parameters} {s s₀ : World} {n : ℕ}

/-- The work of the system is a potential: a send raises it, and each working step lowers
it. -/
theorem pays (hsize : soBlockSize < par.soTpSize.toNat) :
    (Network.machine par).Pays Answered Works (fun s => Wired s ∧ ∀ c ∈ s.nodes, Fits c)
      (work par) (income par) where
  keeps _ _ _ hs _ hn := ⟨next_wired hs.1 hn, next_fits hs.2 hn⟩
  lowers _ _ _ hs hanswered hworks hn := next_work hs.1 hs.2 hsize hanswered hworks hn
  earns s l s' _ _ hnot hn := by
    by_cases huser : ∃ u a, l = .user u a
    · obtain ⟨u, a, rfl⟩ := huser
      exact userStep_work hn
    · obtain ⟨hwork, hsent⟩ := polls_work (fun u a hl => huser ⟨u, a, hl⟩) hnot hn
      rw [hwork, income, income, hsent]
  grows s l s' _ _ hn := by
    refine Nat.mul_le_mul_right _ ?_
    cases l with
    | user u a =>
      obtain ⟨p, p', result, -, rfl, -⟩ := userStep_cases hn
      cases result with
      | failed e => exact le_rfl
      | sent =>
        show s.sent.length ≤ (s.sent ++ _).length
        rw [List.length_append]
        exact Nat.le_add_right _ _
    | node i o => rw [(nodeStep_same hn).2]
    | child j reading =>
      obtain ⟨w, -, hrest⟩ := Option.bind_eq_some_iff.mp hn
      obtain ⟨r, -, rfl⟩ := Option.map_eq_some_iff.mp hrest
      exact le_rfl
    | listener o => rw [(listenerStep_cases hn).1.sent]

theorem kept_initial (h : Initial par s) : Wired s ∧ ∀ c ∈ s.nodes, Fits c :=
  ⟨wired_initial h, fun c hc => fits_start (h.nodes c hc).1 (Or.inl rfl)⟩

theorem kept_reach {C : World → Label → Prop} (h : (Network.machine par).Reach C s) :
    Wired s ∧ ∀ c ∈ s.nodes, Fits c :=
  h.invariant (I := fun s => Wired s ∧ ∀ c ∈ s.nodes, Fits c) (fun _ hs => kept_initial hs)
    fun _ _ _ hs _ hn => ⟨next_wired hs.1 hn, next_fits hs.2 hn⟩

theorem work_initial (h : Initial par s) :
    work par s = s.nodes.length * (par.soFriendsNum.toNat + 6) := by
  have hwaiting : ∀ (P : PidT → Prop) [DecidablePred P], waiting P s.queues = 0 := by
    intro P _
    refine List.sum_eq_zero fun l hl => ?_
    obtain ⟨q, hq, rfl⟩ := List.mem_map.mp hl
    rw [h.trans q hq]
    exact ite_self _
  have hnodes : ∀ c ∈ s.nodes, nodeWork par c = par.soFriendsNum.toNat + 6 := by
    intro c hc
    rw [(h.nodes c hc).1]
    rfl
  rw [work, queuesWork, hwaiting, hwaiting, h.children, h.listener.1, List.map_congr_left hnodes,
    List.map_const', List.sum_replicate]
  simp [listenerWork]

/-- The steps of nodes, children and listener are bounded by what the users have sent. -/
theorem work_bound (hsize : soBlockSize < par.soTpSize.toNat) (h₀ : Initial par s₀)
    (h : ((Network.machine par).counted Works).Path (fun r l => Answered r.1 l) (s₀, 0) (s, n)) :
    n ≤ s₀.nodes.length * (par.soFriendsNum.toNat + 6) + s.sent.length * sendWork par := by
  obtain ⟨-, hpaid⟩ := (pays hsize).run (kept_initial h₀) h
  rw [work_initial h₀] at hpaid
  have hnone : income par s₀ = 0 := by
    rw [income, h₀.sent, List.length_nil, Nat.zero_mul]
  rw [hnone, income] at hpaid
  omega

/-- Without the users the system comes to rest. -/
theorem comes_to_rest {C : World → Label → Prop} (hsize : soBlockSize < par.soTpSize.toNat)
    (h : (Network.machine par).Reach C s) :
    ∃ s', (Network.machine par).Path (fun s l => Answered s l ∧ Works s l) s s' ∧
      (Network.machine par).Rests Answered Works s' :=
  (pays hsize).comes_to_rest (kept_reach h)

end Runs

section Example

open Confirmation (small launch launch_initial boot pay act)

def oneReceived : List Label := boot ++ [pay 1, act]

theorem oneReceived_run : ∃ s, ((Network.machine small).counted Works).run (launch, 0)
    oneReceived = some (s, 7) ∧ s.sent.length = 1 := ⟨_, rfl, rfl⟩

theorem answered_oneReceived (s : World) : ∀ l ∈ oneReceived, Answered s l := by
  intro l hl
  rcases List.mem_append.mp hl with hboot | hrest
  · rw [List.eq_of_mem_replicate hboot]
    rfl
  · have hcases : l = pay 1 ∨ l = act := by simpa using hrest
    rcases hcases with rfl | rfl
    · trivial
    · rfl

/-- Node 40 makes seven steps. -/
theorem work_bound_one : ∃ s, ((Network.machine small).counted Works).Path
    (fun r l => Answered r.1 l) (launch, 0) (s, 7) ∧ 7 ≤ 2 * (1 + 6) + 1 * sendWork small := by
  obtain ⟨s, hrun, hsent⟩ := oneReceived_run
  have hpath : ((Network.machine small).counted Works).Path (fun r l => Answered r.1 l)
      (launch, 0) (s, 7) :=
    Machine.path_of_run oneReceived (fun r l hl => answered_oneReceived r.1 l hl) hrun
  have hbound := work_bound (by decide) launch_initial hpath
  rw [hsent] at hbound
  exact ⟨s, hpath, hbound⟩

end Example

end SimulazioneTransazioni.NetworkWork

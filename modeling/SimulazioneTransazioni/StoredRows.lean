import SimulazioneTransazioni.NetworkWiring
import SimulazioneTransazioni.Startup

/-!
Whether a process that writes a table finds its row there. A parent stores the pid
of a child after the fork. A node waits for its friends, which are only sent to a
pid read from the table, so that it has a row when it goes on; with no friends to
wait for it may be too early, and SIGINT may reach it before. A user waits for
nothing. Once a pid is stored its row is never given to another process, and an
index that a process holds stays that of its row.
-/
namespace SimulazioneTransazioni.StoredRows

open Nodes Users Master Queues Network UserCalls Startup Registry

section Indexes

def callIndexes : Call → List (Option ℕ)
  | .balanceAt i _ => [i]
  | .statusAt i _ => [i]
  | _ => []

def interruptIndexes : InterruptPc → List (Option ℕ)
  | .test i => [i]
  | .refund i => [i]
  | _ => []

def heldIndexes : Control → List (Option ℕ)
  | .main m => callIndexes m.call
  | .usr1 h m => callIndexes h.call ++ callIndexes m.call
  | .int i _ => callIndexes i.call ++ interruptIndexes i.pc
  | .intUsr1 h i => callIndexes h.call ++ (callIndexes i.call ++ interruptIndexes i.pc)
  | .exited => []

variable {par : Parameters} {m : Shared} {a : Attempt} {t t' : Thread} {rows : List User}
  {i : Option ℕ}

theorem held_withCall {c : Control} {call : Call} (h : i ∈ heldIndexes (c.withCall call)) :
    i ∈ callIndexes call ∨ i ∈ heldIndexes c := by
  cases c with
  | main f => exact Or.inl h
  | usr1 f f' =>
    rcases List.mem_append.mp h with hcall | hold
    · exact Or.inl hcall
    · exact Or.inr (List.mem_append_right _ hold)
  | int f blocked =>
    rcases List.mem_append.mp h with hcall | hold
    · exact Or.inl hcall
    · exact Or.inr (List.mem_append_right _ hold)
  | intUsr1 f f' =>
    rcases List.mem_append.mp h with hcall | hold
    · exact Or.inl hcall
    · exact Or.inr (List.mem_append_right _ hold)
  | exited => exact absurd h List.not_mem_nil

theorem held_call {c : Control} (h : i ∈ callIndexes c.call) : i ∈ heldIndexes c := by
  cases c with
  | main f => exact h
  | exited => exact absurd h List.not_mem_nil
  | _ => exact List.mem_append_left _ h

theorem held_interrupted {c : Control} (h : i ∈ heldIndexes c.interrupted) :
    i ∈ heldIndexes c := by
  cases c with
  | main f => exact absurd h List.not_mem_nil
  | usr1 f f' => exact absurd h List.not_mem_nil
  | _ => exact h

theorem held_signalled {c c' : Control} (h : c.signalled = some c') (hi : i ∈ heldIndexes c') :
    i ∈ heldIndexes c := by
  cases c with
  | main f =>
    cases h
    exact hi
  | int f blocked =>
    cases blocked with
    | false =>
      cases h
      exact hi
    | true => contradiction
  | _ => contradiction

theorem held_writes (h : t.writes = some i) : i ∈ heldIndexes t.control := by
  unfold Thread.writes at h
  split at h
  next j blocked hc =>
    split at h
    · contradiction
    · rw [hc, ← Option.some.inj h]
      exact List.mem_singleton_self _
  next =>
    apply held_call
    cases hcall : t.control.call with
    | balanceAt j tempBalance =>
      rw [hcall] at h
      rw [← Option.some.inj h]
      exact List.mem_singleton_self _
    | statusAt j k =>
      rw [hcall] at h
      rw [← Option.some.inj h]
      exact List.mem_singleton_self _
    | _ =>
      rw [hcall] at h
      contradiction

theorem looksUp_call (h : (∃ tempBalance, t.control.call = .balance tempBalance) ∨
    ∃ k, t.control.call = .status k) : t.looksUp = true := by
  unfold Thread.looksUp
  split
  · rfl
  · rcases h with ⟨_, hcall⟩ | ⟨_, hcall⟩
    · rw [hcall]
    · rw [hcall]

/-- An index that a function holds was held before, or was looked up now. -/
theorem called_held (h : Thread.Called m t t.control.call rows t') (hi : i ∈ heldIndexes t'.control) :
    i ∈ heldIndexes t.control ∨ t.looksUp = true ∧ i = t.index m.usersPID := by
  generalize hc : t.control.call = call at h
  have hkeeps : ∀ call', i ∉ callIndexes call' → i ∈ heldIndexes (t.control.withCall call') →
      i ∈ heldIndexes t.control := fun call' hnew hin => (held_withCall hin).resolve_left hnew
  cases h with
  | dies p e hpid => exact Or.inl (hkeeps _ List.not_mem_nil hi)
  | counts p tempBalance hpid => exact Or.inl (hkeeps _ List.not_mem_nil hi)
  | findsBalance tempBalance =>
    rcases held_withCall hi with hnew | hold
    · exact Or.inr ⟨looksUp_call (Or.inl ⟨_, hc⟩), List.mem_singleton.mp hnew⟩
    · exact Or.inl hold
  | writesBalance j tempBalance p hpid => exact Or.inl (hkeeps _ List.not_mem_nil hi)
  | findsStatus k =>
    rcases held_withCall hi with hnew | hold
    · exact Or.inr ⟨looksUp_call (Or.inr ⟨_, hc⟩), List.mem_singleton.mp hnew⟩
    · exact Or.inl hold
  | writesStatus j k p hpid =>
    have hafter : i ∉ callIndexes (Thread.afterStatus k) := by
      cases k <;> exact List.not_mem_nil
    exact Or.inl (hkeeps _ hafter hi)
  | prints => exact absurd hi List.not_mem_nil
  | raises tempBalance =>
    have hafter : i ∉ callIndexes (Thread.afterRaise tempBalance) := by
      cases tempBalance <;> exact List.not_mem_nil
    exact Or.inl (hkeeps _ hafter (held_interrupted hi))

/-- The loop and the handler of SIGUSR1 keep no index between their calls. -/
theorem stepMain_held {pc : MainPc} (h : t.stepMain par m a pc = some t') :
    heldIndexes t'.control = [] := by
  cases pc with
  | balanced =>
    simp only [Thread.stepMain] at h
    split at h
    · rw [← Option.some.inj h]
      rfl
    · rw [← Option.some.inj h]
      rfl
  | check =>
    simp only [Thread.stepMain] at h
    split at h
    · rw [← Option.some.inj h]
      rfl
    · rw [← Option.some.inj h]
      rfl
  | draw =>
    obtain ⟨r, -, rfl⟩ := Option.map_eq_some_iff.mp h
    rfl
  | queue userPID amount reward =>
    obtain ⟨p, -, rfl⟩ := Option.map_eq_some_iff.mp h
    rfl
  | _ =>
    rw [← Option.some.inj h]
    rfl

theorem stepHandler_held {pc : HandlerPc} {p : UserProc} {f : Frame HandlerPc}
    (h : t.stepHandler par m a pc = some (p, some f)) : callIndexes f.call = [] := by
  cases pc with
  | balanced =>
    simp only [Thread.stepHandler] at h
    split at h
    · cases h
      rfl
    · cases h
  | check retry =>
    simp only [Thread.stepHandler] at h
    split at h
    · cases h
      rfl
    · cases h
  | draw =>
    obtain ⟨r, -, heq⟩ := Option.map_eq_some_iff.mp h
    cases heq
    rfl
  | queue userPID amount reward =>
    obtain ⟨p, -, heq⟩ := Option.map_eq_some_iff.mp h
    cases heq
    rfl
  | done => cases h
  | _ =>
    cases h
    rfl

theorem stepInterrupt_held {pc : InterruptPc} {p : UserProc} {f : Frame InterruptPc}
    (h : t.stepInterrupt m pc = some (rows, p, some f))
    (hi : i ∈ callIndexes f.call ++ interruptIndexes f.pc) :
    i ∈ interruptIndexes pc ∨ pc = .start ∧ i = t.index m.usersPID := by
  cases pc with
  | start =>
    cases h
    exact Or.inr ⟨rfl, List.mem_singleton.mp hi⟩
  | test j =>
    obtain ⟨f', hfinal, heq⟩ := Option.map_eq_some_iff.mp h
    cases heq
    obtain ⟨row, -, hrow⟩ := Option.bind_eq_some_iff.mp hfinal
    split at hrow
    · cases hrow
      exact Or.inl hi
    · obtain ⟨row', -, rfl⟩ := Option.map_eq_some_iff.mp hrow
      exact Or.inl hi
  | refund j =>
    simp only [Thread.stepInterrupt] at h
    split at h
    · cases h
      exact absurd hi List.not_mem_nil
    · obtain ⟨j', -, heq⟩ := Option.map_eq_some_iff.mp h
      cases heq
      exact absurd hi List.not_mem_nil
  | exit => cases h

/-- A step holds on to the indexes it had, or to the one it has just looked up. -/
theorem step_held (h : t.step par m a = some (rows, t')) (hi : i ∈ heldIndexes t'.control) :
    i ∈ heldIndexes t.control ∨ t.looksUp = true ∧ i = t.index m.usersPID := by
  cases Thread.step_stepped h with
  | call _ _ hcall hcalled => exact called_held hcalled hi
  | main pc _ hc hmain =>
    rw [stepMain_held hmain] at hi
    exact absurd hi List.not_mem_nil
  | usr1 pc f p f' hc hp =>
    rw [hc]
    cases f' with
    | none => exact Or.inl hi
    | some f' =>
      rcases List.mem_append.mp hi with hnew | hold
      · rw [stepHandler_held hp] at hnew
        exact absurd hnew List.not_mem_nil
      · exact Or.inl hold
  | int pc blocked _ p f hc hp =>
    cases f with
    | none => exact absurd hi List.not_mem_nil
    | some f =>
      rcases stepInterrupt_held hp hi with hold | ⟨rfl, hnew⟩
      · rw [hc]
        exact Or.inl hold
      · refine Or.inr ⟨?_, hnew⟩
        simp only [Thread.looksUp, hc]
  | intUsr1 pc f p f' hc hp =>
    rw [hc]
    cases f' with
    | none => exact Or.inl hi
    | some f' =>
      rcases List.mem_append.mp hi with hnew | hold
      · rw [stepHandler_held hp] at hnew
        exact absurd hnew List.not_mem_nil
      · exact Or.inl hold

end Indexes

section Served

/-- A node that has come out of fill_friendList with a friend is in the table. -/
def Ready (par : Parameters) (stored : Prop) (c : NodeCell) : Prop :=
  match c.pc with
  | .queueInit => c.proc.friendList = []
  | .attach => c.proc.friendList = []
  | .befriend _ => c.proc.queueID = c.proc.myPID ∧ (c.proc.friendList ≠ [] → stored)
  | .fetch => par.soFriendsNum ≠ 0 → stored
  | .publish => par.soFriendsNum ≠ 0 → stored
  | .process => stored

def Target (pids : List PidT) (id : Int32) : Prop := id ≤ 0 ∨ id ∈ pids

def listenerTargets : ListenerPc → List Int32
  | .makeFriends node => [node]
  | .findQueue node _ => [node]
  | .sendFriends nodeQueue _ => [nodeQueue]
  | .announce privateFriends => privateFriends
  | _ => []

structure Served (par : Parameters) (pids : List PidT) (s : World) : Prop where
  keys : ∀ key ∈ s.queues.map Queue.key, 0 < key
  friends : FriendsAt (· ∈ pids) s.queues
  nodes : ∀ c ∈ s.nodes, 0 < c.proc.myPID ∧ Ready par (c.proc.myPID ∈ pids) c
  children : ∀ w ∈ s.children, 0 < w.myPID ∧ w.myPID ∈ pids
  listener : ∀ id ∈ listenerTargets s.listener.pc, Target pids id

structure Unmoved (s s' : World) : Prop where
  pids : s'.nodesPID.map Node.pid = s.nodesPID.map Node.pid
  users : s'.usersPID = s.usersPID
  listener : s'.listener = s.listener

variable {par : Parameters} {s s' : World} {pids pids' : List PidT}

theorem ne_zero_of_pos {pid : PidT} (h : 0 < pid) : pid ≠ 0 := by
  rintro rfl
  exact absurd h (by decide)

theorem Ready.mono {stored stored' : Prop} {c : NodeCell} (h : Ready par stored c)
    (hstored : stored → stored') : Ready par stored' c := by
  unfold Ready at h ⊢
  split
  next hpc =>
    rw [hpc] at h
    exact h
  next hpc =>
    rw [hpc] at h
    exact h
  next friendMex hpc =>
    rw [hpc] at h
    exact ⟨h.1, fun hne => hstored (h.2 hne)⟩
  next hpc =>
    rw [hpc] at h
    exact fun hne => hstored (h hne)
  next hpc =>
    rw [hpc] at h
    exact fun hne => hstored (h hne)
  next hpc =>
    rw [hpc] at h
    exact hstored h

theorem Target.extends {id : Int32} (h : Target pids id) (he : Extends 0 pids pids') :
    Target pids' id := by
  by_cases hpos : id ≤ 0
  · exact Or.inl hpos
  · exact Or.inr (he.mem (ne_zero_of_pos (Int32.not_le.mp hpos)) (h.resolve_left hpos))

theorem Served.extends (h : Served par pids s) (he : Extends 0 pids pids') :
    Served par pids' s := by
  constructor
  · exact h.keys
  · intro q hq hfriends
    have hpos := h.keys q.key (List.mem_map_of_mem hq)
    exact he.mem (ne_zero_of_pos hpos) (h.friends q hq hfriends)
  · intro c hc
    obtain ⟨hpos, hready⟩ := h.nodes c hc
    exact ⟨hpos, hready.mono (he.mem (ne_zero_of_pos hpos))⟩
  · intro w hw
    obtain ⟨hpos, hstored⟩ := h.children w hw
    exact ⟨hpos, he.mem (ne_zero_of_pos hpos) hstored⟩
  · exact fun id hid => (h.listener id hid).extends he

/-- A step of the node c. -/
theorem Served.setNode (h : Served par pids s) {i : ℕ} {c c' : NodeCell} (hc : c ∈ s.nodes)
    (hnodes : s'.nodes = s.nodes.set i c') (hpid : c'.proc.myPID = c.proc.myPID)
    (hready : Ready par (c.proc.myPID ∈ pids) c')
    (hkeys : ∀ key ∈ s'.queues.map Queue.key, 0 < key)
    (hfriends : FriendsAt (· ∈ pids) s'.queues)
    (hchildren : ∀ w ∈ s'.children, 0 < w.myPID ∧ w.myPID ∈ pids)
    (hlistener : s'.listener = s.listener) : Served par pids s' := by
  refine ⟨hkeys, hfriends, ?_, hchildren, ?_⟩
  · rw [hnodes]
    intro d hd
    rcases List.mem_or_eq_of_mem_set hd with hold | rfl
    · apply h.nodes d hold
    · rw [hpid]
      exact ⟨(h.nodes c hc).1, hready⟩
  · rw [hlistener]
    exact h.listener

theorem keys_create_pos {queues : List Queue} {pid : PidT}
    (h : ∀ key ∈ queues.map Queue.key, 0 < key) (hpid : 0 < pid) :
    ∀ key ∈ (queues ++ [create pid]).map Queue.key, 0 < key := by
  intro key hkey
  rw [List.map_append] at hkey
  rcases List.mem_append.mp hkey with hold | hnew
  · apply h key hold
  · rw [List.mem_singleton.mp hnew]
    exact hpid

theorem friendsAt_receive {P : PidT → Prop} (h : FriendsAt P s.queues) {o : NodeOutcome}
    {p : NodeProc} {fetched : FetchOutcome} {queues : List Queue}
    (hrcv : s.receive par o p = some (fetched, queues)) : FriendsAt P queues := by
  unfold World.receive at hrcv
  split at hrcv
  · obtain ⟨⟨mex, queues₁⟩, htake, hpair⟩ := Option.map_eq_some_iff.mp hrcv
    have hqueues : (rcvFriend queues₁ o.friendFailure p.queueID).2 = queues :=
      congrArg Prod.snd hpair
    rw [← hqueues]
    exact friendsAt_rcvFriend (friendsAt_rcvTrans h htake) _ _
  · have hqueues : s.queues = queues := congrArg Prod.snd (Option.some.inj hrcv)
    rw [← hqueues]
    exact h

theorem friendsAt_deliver {P : PidT → Prop} {queues : List Queue} (h : FriendsAt P queues)
    (e : FetchEvent) : FriendsAt P (World.deliver queues e) := by
  unfold World.deliver
  split
  · exact friendsAt_pushTrans h _
  · exact friendsAt_pushTrans h _
  · exact h

/-- A friend that was received shows that the pid is in the table. -/
theorem nodeStep_served (h : Served par pids s) (htable : s.nodesPID.map Node.pid = pids)
    {i : ℕ} {o : NodeOutcome}
    (htimely : ∀ c ∈ s.nodes[i]?, c.proc.myPID ∈ pids ∨
      (waits c.pc = true → o.friendFailure = none))
    (hstep : s.nodeStep par i o = some s') : Served par pids s' ∧ Unmoved s s' := by
  obtain ⟨c, hget, hdid⟩ := nodeStep_did hstep
  have hc := List.mem_of_getElem? hget
  obtain ⟨hpos, hready⟩ := h.nodes c hc
  unfold Ready at hready
  cases hdid with
  | creates hpc =>
    rw [hpc] at hready
    have hkeys := keys_create_pos h.keys hpos
    exact ⟨h.setNode hc rfl rfl hready hkeys (friendsAt_create h.friends _) h.children rfl,
      rfl, rfl, rfl⟩
  | searches errno queueID hpc =>
    rw [hpc] at hready
    exact ⟨h.setNode hc rfl rfl hready h.keys h.friends h.children rfl, rfl, rfl, rfl⟩
  | attaches errno size hpc =>
    rw [hpc] at hready
    exact ⟨h.setNode hc rfl rfl ⟨rfl, fun hne => absurd hready hne⟩ h.keys h.friends h.children
      rfl, rfl, rfl, rfl⟩
  | befriends friendMex friend errno result queues hpc hawait =>
    rw [hpc] at hready
    obtain ⟨hqueue, -⟩ := hready
    obtain ⟨hfriend, hfriends⟩ := friendsAt_awaitFriend h.friends hawait
    rw [hqueue] at hfriend
    have hin : c.proc.myPID ∈ pids := by
      rcases htimely c hget with hin | hnone
      · exact hin
      · exact hfriend (hnone (by rw [hpc]; rfl))
    refine ⟨h.setNode hc rfl rfl ⟨hqueue, fun _ => hin⟩ ?_ hfriends h.children rfl,
      rfl, rfl, rfl⟩
    intro key hkey
    apply h.keys key
    rw [← NetworkWiring.keys_awaitFriend hawait]
    exact hkey
  | starts friendMex hpc hlength =>
    rw [hpc] at hready
    refine ⟨h.setNode hc rfl rfl ?_ h.keys h.friends h.children rfl, rfl, rfl, rfl⟩
    intro hne
    apply hready.2
    intro hnil
    apply hne
    rw [hnil, List.length_nil] at hlength
    apply UInt32.toNat_inj.mp
    rw [UInt32.toNat_zero]
    omega
  | fetches fetched queues p e hpc hreceive hfetch =>
    rw [hpc] at hready
    have hpid : p.myPID = c.proc.myPID :=
      congrArg Prod.fst (NetworkWiring.fetchMessages_ids hfetch)
    refine ⟨h.setNode hc rfl hpid hready ?_ ?_ h.children rfl, rfl, rfl, rfl⟩
    · intro key hkey
      apply h.keys key
      rw [← NetworkWiring.keys_receive hreceive, ← NetworkWiring.keys_deliver queues e]
      exact hkey
    · exact friendsAt_deliver (friendsAt_receive h.friends hreceive) e
  | publishes nodesPID p hpc hsize =>
    have hpid : p.myPID = c.proc.myPID := congrArg Prod.fst (NetworkWiring.publishSize_ids hsize)
    obtain ⟨-, j, hj, hnodesPID⟩ := publishSize_ok hsize
    have hin : c.proc.myPID ∈ pids := by
      rw [← htable]
      exact mem_of_indexOf hj
    refine ⟨h.setNode hc rfl hpid hin h.keys h.friends h.children rfl, ?_, rfl, rfl⟩
    show nodesPID.map Node.pid = s.nodesPID.map Node.pid
    rw [hnodesPID]
    apply Table.map_key_modify
    exact fun _ => rfl
  | processes p e hpc hblock =>
    rw [hpc] at hready
    have hpid : p.myPID = c.proc.myPID := congrArg Prod.fst (NetworkWiring.processBlock_ids hblock)
    refine ⟨h.setNode hc rfl hpid (fun _ => hready) h.keys h.friends ?_ rfl, rfl, rfl, rfl⟩
    intro w hw
    rcases List.mem_append.mp hw with hold | hnew
    · exact h.children w hold
    · rw [(mem_childrenOf hnew).1]
      exact ⟨hpos, hready⟩

theorem childStep_served (h : Served par pids s) {c : ℕ} {reading : LedgerWriters.Reading}
    (hstep : s.childStep c reading = some s') : Served par pids s' ∧ Unmoved s s' := by
  obtain ⟨w, hw, hrest⟩ := Option.bind_eq_some_iff.mp hstep
  obtain ⟨⟨ledger, nodesPID, w'⟩, hdone, rfl⟩ := Option.map_eq_some_iff.mp hrest
  obtain ⟨hpid, hpids⟩ := LedgerWriters.Writer.step_pids hdone
  refine ⟨⟨h.keys, h.friends, h.nodes, ?_, h.listener⟩, hpids, rfl, rfl⟩
  intro v hv
  rcases List.mem_or_eq_of_mem_set hv with hold | rfl
  · exact h.children v hold
  · rw [hpid]
    exact h.children w (List.mem_of_getElem? hw)

end Served

section Listener

variable {par : Parameters} {s s' : World} {pids : List PidT}

structure Grows (par : Parameters) (s s' : World) : Prop where
  extends' : Extends 0 (s.nodesPID.map Node.pid) (s'.nodesPID.map Node.pid)
  free : FreeFrom 0 (s'.nodesPID.map Node.pid) (reached par s'.listener.overBuf).toNat
  length : (s'.nodesPID.map Node.pid).length = (s.nodesPID.map Node.pid).length
  users : s'.usersPID = s.usersPID

theorem grows_same (hfree : FreeFrom 0 (s.nodesPID.map Node.pid)
      (reached par s.listener.overBuf).toNat)
    (hpids : s'.nodesPID.map Node.pid = s.nodesPID.map Node.pid)
    (hoverBuf : s'.listener.overBuf = s.listener.overBuf) (husers : s'.usersPID = s.usersPID) :
    Grows par s s' := by
  constructor
  · exact Extends.of_eq hpids
  · rw [hpids, hoverBuf]
    exact hfree
  · rw [hpids]
  · exact husers

theorem pids_claim (nodesPID : List Node) (n : ℕ) (nodePID : PidT) :
    (nodesPID.modify n fun row => { row with pid := nodePID }).map Node.pid =
      (nodesPID.map Node.pid).set n nodePID := by
  apply map_key_claim
  exact fun _ => rfl

/-- The row of an extra node is the first of the free ones. -/
theorem spawnNode_grows {overBuf : UInt32} {nodesPID : List Node}
    (hfree : FreeFrom 0 (nodesPID.map Node.pid) (reached par overBuf).toNat)
    (fork : ForkResult) {r : Spawned} (hr : r = spawnNode par fork none overBuf nodesPID) :
    Extends 0 (nodesPID.map Node.pid) (r.nodesPID.map Node.pid) ∧
      FreeFrom 0 (r.nodesPID.map Node.pid) (reached par r.overBuf).toNat ∧
      (r.nodesPID.map Node.pid).length = (nodesPID.map Node.pid).length := by
  by_cases hfull : par.soNodesNum * 2 ≤ reached par overBuf
  · rw [hr, spawnNode_full hfull]
    refine ⟨Extends.refl _, ?_, rfl⟩
    dsimp only
    rw [reached_reached]
    exact hfree
  · cases fork with
    | parent nodePID =>
      rw [hr, spawnNode_parent hfull]
      dsimp only [Option.getD_none]
      rw [pids_claim, if_pos rfl, reached_succ hfull]
      exact ⟨extends_set hfree _, freeFrom_set hfree _, List.length_set⟩
    | failed e =>
      rw [hr, spawnNode_failed hfull]
      refine ⟨Extends.refl _, ?_, rfl⟩
      dsimp only
      rw [if_pos rfl, reached_succ hfull]
      exact hfree.mono (by omega)

theorem setListener_served (h : Served par pids s) {p : Listener}
    (hp : ∀ id ∈ listenerTargets p.pc, Target pids id) : Served par pids (s.setListener p) :=
  ⟨h.keys, h.friends, h.nodes, h.children, hp⟩

theorem target_msgget (queues : List Queue) {key : PidT} (h : Target pids key) :
    Target pids (msgget queues key).queue := by
  unfold msgget
  split
  · exact h
  · exact Or.inl (by decide)

/-- A friend goes to a process in the table, or nowhere. -/
theorem served_pushFriend (h : Served par pids s) {queue : Int32} (hqueue : Target pids queue)
    (friend : PidT) : Served par pids (s.withQueues (pushFriend s.queues queue friend)) := by
  refine ⟨?_, ?_, h.nodes, h.children, h.listener⟩
  · have hkeys : (pushFriend s.queues queue friend).map Queue.key = s.queues.map Queue.key :=
      NetworkWiring.keys_modify _ _ fun _ => rfl
    intro key hkey
    apply h.keys key
    rw [← hkeys]
    exact hkey
  · refine friendsAt_pushFriend h.friends ?_ friend
    intro hkey
    have hpos := h.keys queue hkey
    exact hqueue.resolve_left (Int32.not_le.mpr hpos)

theorem sendFriend_served (h : Served par pids s) {failure : Option Errno} {queue : Int32}
    (hqueue : Target pids queue) (friend : PidT) :
    Served par pids (s.sendFriend failure queue friend) := by
  have hset := setListener_served h (p := s.listener.withErrno
    ((msgsnd s.queues failure queue).errno s.listener.errno)) h.listener
  unfold World.sendFriend
  dsimp only
  split
  · exact served_pushFriend hset hqueue friend
  · exact hset

theorem sendFriend_grows (hfree : FreeFrom 0 (s.nodesPID.map Node.pid)
      (reached par s.listener.overBuf).toNat)
    (failure : Option Errno) (queue : Int32) (friend : PidT) (pc : ListenerPc) :
    Grows par s ((s.sendFriend failure queue friend).setListener
      ((s.sendFriend failure queue friend).listener.goto pc)) := by
  unfold World.sendFriend
  dsimp only
  split
  · exact grows_same hfree rfl rfl rfl
  · exact grows_same hfree rfl rfl rfl

/-- A spawn that makes no node ends the listener. -/
theorem spawnStep_served (h : Served par (s.nodesPID.map Node.pid) s)
    (hfree : FreeFrom 0 (s.nodesPID.map Node.pid) (reached par s.listener.overBuf).toNat)
    {fork : ForkResult}
    (hnone : (spawnNode par fork none s.listener.overBuf s.nodesPID).nodePID = -1)
    (hstep : s.spawnStep par fork = some s') :
    Served par (s.nodesPID.map Node.pid) s' ∧ Grows par s s' := by
  unfold World.spawnStep at hstep
  dsimp only at hstep
  split at hstep
  · contradiction
  · rw [← Option.some.inj hstep]
    obtain ⟨hext, hfree', hlength⟩ := spawnNode_grows hfree fork rfl
    refine ⟨⟨h.keys, h.friends, ?_, h.children, ?_⟩, hext, hfree', hlength, rfl⟩
    · rw [hnone]
      intro c hc
      have hnodes : s.nodes ++ s.newNodes (-1) = s.nodes := List.append_nil _
      rw [hnodes] at hc
      apply h.nodes c hc
    · dsimp only [Listener.spawned]
      rw [if_pos hnone]
      exact fun id hid => absurd hid List.not_mem_nil

/-- The listener comes to send only to rows that are stored. -/
theorem findQueueStep_served (h : Served par pids s)
    (hfree : FreeFrom 0 (s.nodesPID.map Node.pid) (reached par s.listener.overBuf).toNat)
    {node : PidT} (friends : List PidT) (hpc : s.listener.pc = .findQueue node friends) :
    Served par pids (s.findQueueStep node friends) ∧
      Grows par s (s.findQueueStep node friends) := by
  have hlistener := h.listener
  have hnode : Target pids node := by
    rw [hpc] at hlistener
    exact hlistener node (List.mem_singleton_self _)
  unfold World.findQueueStep
  split
  next id hget =>
    refine ⟨setListener_served h ?_, grows_same hfree rfl rfl rfl⟩
    have hid : (msgget s.queues node).queue = id := by
      rw [hget]
      rfl
    intro id' hid'
    rw [List.mem_singleton.mp hid', ← hid]
    exact target_msgget _ hnode
  next => exact ⟨setListener_served h hlistener, grows_same hfree rfl rfl rfl⟩

/-- A step of the listener that makes no node. -/
theorem listenerStep_served (h : Served par (s.nodesPID.map Node.pid) s)
    (hfree : FreeFrom 0 (s.nodesPID.map Node.pid) (reached par s.listener.overBuf).toNat)
    {o : ListenerOutcome}
    (hspawn : s.listener.pc = .spawn →
      (spawnNode par o.fork none s.listener.overBuf s.nodesPID).nodePID = -1)
    (hstep : s.listenerStep par o = some s') :
    Served par (s.nodesPID.map Node.pid) s' ∧ Grows par s s' := by
  have hlistener := h.listener
  unfold World.listenerStep at hstep
  split at hstep
  next hpc =>
    obtain ⟨⟨result, queues⟩, hrcv, rfl⟩ := Option.map_eq_some_iff.mp hstep
    refine ⟨⟨?_, friendsAt_rcvTrans h.friends hrcv, h.nodes, h.children, ?_⟩,
      grows_same hfree ?_ rfl rfl⟩
    · intro key hkey
      apply h.keys key
      rw [← NetworkWiring.keys_rcvTrans hrcv]
      exact hkey
    · exact fun id hid => absurd hid List.not_mem_nil
    · apply Table.map_key_modify
      exact fun _ => rfl
  next hpc => exact spawnStep_served h hfree (hspawn hpc) hstep
  next node hpc =>
    obtain ⟨friends, -, rfl⟩ := Option.map_eq_some_iff.mp hstep
    rw [hpc] at hlistener
    exact ⟨setListener_served h hlistener, grows_same hfree rfl rfl rfl⟩
  next node friends hpc =>
    rw [← Option.some.inj hstep]
    exact findQueueStep_served h hfree friends hpc
  next nodeQueue friend rest hpc =>
    rw [← Option.some.inj hstep]
    rw [hpc] at hlistener
    have hqueue := hlistener nodeQueue (List.mem_singleton_self _)
    exact ⟨setListener_served (sendFriend_served h hqueue friend) hlistener,
      sendFriend_grows hfree _ _ _ _⟩
  next nodeQueue hpc =>
    rw [← Option.some.inj hstep]
    exact ⟨setListener_served h fun id hid => absurd hid List.not_mem_nil,
      grows_same hfree rfl rfl rfl⟩
  next hpc =>
    obtain ⟨friends, hfriends, hprepared⟩ := Option.bind_eq_some_iff.mp hstep
    obtain ⟨p, hp, rfl⟩ := Option.map_eq_some_iff.mp hprepared
    obtain ⟨row, -, rfl⟩ := Option.map_eq_some_iff.mp hp
    exact ⟨setListener_served h fun id hid => Or.inr (mem_makeFriendList hfriends hid),
      grows_same hfree rfl rfl rfl⟩
  next friend rest hpc =>
    rw [← Option.some.inj hstep]
    rw [hpc] at hlistener
    have hqueue := target_msgget s.queues (hlistener friend (List.mem_cons_self ..))
    exact ⟨setListener_served (sendFriend_served h hqueue _) fun id hid =>
        hlistener id (List.mem_cons_of_mem _ hid), sendFriend_grows hfree _ _ _ _⟩
  next hpc =>
    rw [← Option.some.inj hstep]
    exact ⟨setListener_served h fun id hid => absurd hid List.not_mem_nil,
      grows_same hfree rfl rfl rfl⟩
  next => contradiction

end Listener

section Invariant

variable {par : Parameters} {s s' : Startup.State}

def userRow : MasterPc → Option ℕ
  | .forkUser k => some k
  | .storeUser k _ => some k
  | .running => none
  | _ => some 0

def MasterReady (par : Parameters) (pids : List PidT) (overBuf : UInt32) : MasterPc → Prop
  | .forkNode k => FreeFrom 0 pids k ∧ reached par overBuf = par.soNodesNum
  | .storeNode k _ => (k < par.soNodesNum.toNat ∧ ¬ par.soNodesNum * 2 ≤ par.soNodesNum) ∧
      FreeFrom 0 pids k ∧ reached par overBuf = par.soNodesNum
  | .findQueue _ node _ => Target pids node
  | .sendFriends _ nodeQueue _ => Target pids nodeQueue
  | _ => True

def HeldOwn (pids : List PidT) (t : Thread) : Prop :=
  0 < t.proc.myPID ∧ ∀ i ∈ heldIndexes t.control, Owns pids t.proc.myPID i

structure Inv (par : Parameters) (s : Startup.State) : Prop where
  served : Served par s.nodePids s.world
  held : ∀ t ∈ s.threads, HeldOwn s.userPids t
  master : MasterReady par s.nodePids s.world.listener.overBuf s.master
  users : ∀ k ∈ userRow s.master, FreeFrom 0 s.userPids k
  nodes : FreeFrom 0 s.nodePids (reached par s.world.listener.overBuf).toNat
  length : s.nodePids.length = (par.soNodesNum * 2).toNat
  storing : ∀ nodePID ∈ s.storing, 0 < nodePID ∧
    ¬ par.soNodesNum * 2 ≤ reached par s.world.listener.overBuf

theorem freeFrom_replicate (m n : ℕ) : FreeFrom (0 : PidT) (List.replicate m 0) n := by
  intro j k _ hk
  exact List.eq_of_mem_replicate (List.mem_of_getElem? hk)

/-- At the start all rows are free. -/
theorem inv_initial (h : Startup.Initial par s) : Inv par s := by
  have hnodePids : s.nodePids = List.replicate (par.soNodesNum * 2).toNat 0 := by
    rw [Startup.State.nodePids, h.nodesPID, List.map_replicate]
  have huserPids : s.userPids = List.replicate par.soUserNum.toNat 0 := by
    rw [Startup.State.userPids, h.usersPID, List.map_replicate]
  constructor
  · constructor
    · rw [h.queues]
      intro key hkey
      rw [List.mem_singleton.mp hkey]
      exact h.pid
    · rw [h.queues]
      intro q hq hfriends
      rw [List.mem_singleton.mp hq] at hfriends
      exact absurd rfl hfriends
    · rw [h.nodes]
      exact fun c hc => absurd hc List.not_mem_nil
    · rw [h.children]
      exact fun w hw => absurd hw List.not_mem_nil
    · rw [h.listener.1]
      exact fun id hid => absurd hid List.not_mem_nil
  · rw [h.threads]
    exact fun t ht => absurd ht List.not_mem_nil
  · rw [h.master, h.listener.2, hnodePids]
    exact ⟨freeFrom_replicate _ _, if_pos rfl⟩
  · rw [huserPids]
    exact fun k _ => freeFrom_replicate _ _
  · rw [hnodePids]
    exact freeFrom_replicate _ _
  · rw [hnodePids, List.length_replicate]
  · rw [h.storing]
    exact fun nodePID hnode => nomatch hnode

/-- A step that writes no pid, of any process but the master and the listener. -/
theorem Inv.congr (h : Inv par s) (hnodes : s'.nodePids = s.nodePids)
    (husers : s'.userPids = s.userPids) (hmaster : s'.master = s.master)
    (hstoring : s'.storing = s.storing) (hlistener : s'.world.listener = s.world.listener)
    (hserved : Served par s.nodePids s'.world) (hheld : ∀ t ∈ s'.threads, HeldOwn s.userPids t) :
    Inv par s' := by
  constructor
  · rw [hnodes]
    exact hserved
  · rw [husers]
    exact hheld
  · rw [hnodes, hmaster, hlistener]
    exact h.master
  · rw [hmaster, husers]
    exact h.users
  · rw [hnodes, hlistener]
    exact h.nodes
  · rw [hnodes]
    exact h.length
  · rw [hstoring, hlistener]
    exact h.storing

theorem Inv.goto (h : Inv par s) {pc : MasterPc}
    (hmaster : MasterReady par s.nodePids s.world.listener.overBuf pc)
    (husers : ∀ k ∈ userRow pc, FreeFrom 0 s.userPids k) : Inv par (s.goto pc) :=
  ⟨h.served, h.held, hmaster, husers, h.nodes, h.length, h.storing⟩

theorem inv_prepareNode (h : Inv par s) (k : ℕ) : Inv par (s.prepareNode k) := by
  refine h.congr ?_ rfl rfl rfl rfl ?_ h.held
  · apply Table.map_key_modify
    exact fun _ => rfl
  · exact ⟨h.served.keys, h.served.friends, h.served.nodes, h.served.children, h.served.listener⟩

theorem inv_prepareUser (h : Inv par s) (k : ℕ) : Inv par (s.prepareUser k) := by
  refine h.congr rfl ?_ rfl rfl rfl ?_ h.held
  · apply Table.map_key_modify
    exact fun _ => rfl
  · exact ⟨h.served.keys, h.served.friends, h.served.nodes, h.served.children, h.served.listener⟩

theorem inv_addNode (h : Inv par s) {pid : PidT} (hpid : 0 < pid) (ppid : PidT) :
    Inv par (s.addNode pid ppid) := by
  refine h.congr rfl rfl rfl rfl rfl ?_ h.held
  refine ⟨h.served.keys, h.served.friends, ?_, h.served.children, h.served.listener⟩
  intro c hc
  rcases List.mem_append.mp hc with hold | hnew
  · apply h.served.nodes c hold
  · rw [List.mem_singleton.mp hnew]
    exact ⟨hpid, rfl⟩

theorem inv_addUser (h : Inv par s) {pid : PidT} (hpid : 0 < pid) :
    Inv par (s.addUser par pid) := by
  refine h.congr rfl rfl rfl rfl rfl h.served ?_
  intro t ht
  rcases List.mem_append.mp ht with hold | hnew
  · apply h.held t hold
  · rw [List.mem_singleton.mp hnew]
    exact ⟨hpid, fun i hi => absurd hi List.not_mem_nil⟩

/-- The master stores what spawn_node returns. -/
theorem inv_store (h : Inv par s) {spawned : Spawned} {pc : MasterPc}
    (hext : Extends 0 s.nodePids (spawned.nodesPID.map Node.pid))
    (hlength : (spawned.nodesPID.map Node.pid).length = s.nodePids.length)
    (hnodes : FreeFrom 0 (spawned.nodesPID.map Node.pid) (reached par spawned.overBuf).toNat)
    (hoverBuf : reached par spawned.overBuf = reached par s.world.listener.overBuf)
    (hmaster : MasterReady par (spawned.nodesPID.map Node.pid) spawned.overBuf pc)
    (husers : userRow pc = userRow s.master) : Inv par ((s.store spawned).goto pc) := by
  have hserved := h.served.extends hext
  constructor
  · exact ⟨hserved.keys, hserved.friends, hserved.nodes, hserved.children, hserved.listener⟩
  · exact h.held
  · exact hmaster
  · show ∀ k ∈ userRow pc, FreeFrom 0 s.userPids k
    rw [husers]
    exact h.users
  · exact hnodes
  · exact hlength.trans h.length
  · intro nodePID hnode
    show 0 < nodePID ∧ ¬ par.soNodesNum * 2 ≤ reached par spawned.overBuf
    rw [hoverBuf]
    exact h.storing nodePID hnode

theorem prepareNode_pids (s : State) (k : ℕ) : (s.prepareNode k).nodePids = s.nodePids := by
  apply Table.map_key_modify
  exact fun _ => rfl

/-- A row whose fork has failed stays free, and the next one comes. -/
theorem failedNode_inv (h : Inv par s) {k : ℕ} (hpc : s.master = .forkNode k)
    (hrow : FreeFrom 0 s.nodePids k)
    (hreached : reached par s.world.listener.overBuf = par.soNodesNum)
    (hroom : ¬ par.soNodesNum * 2 ≤ reached par s.world.listener.overBuf) (e : Errno) :
    Inv par (((s.prepareNode k).store ((s.prepareNode k).spawned par (.failed e) (some k))).goto
      (.forkNode (k + 1))) := by
  have hprepared := inv_prepareNode h k
  have hroom' : ¬ par.soNodesNum * 2 ≤
      reached par (s.prepareNode k).world.listener.overBuf := hroom
  rw [Startup.State.spawned, spawnNode_failed hroom' e]
  have hpc' : userRow (.forkNode (k + 1)) = userRow (s.prepareNode k).master := by
    show _ = userRow s.master
    rw [hpc]
    rfl
  refine inv_store hprepared (Extends.refl _) rfl ?_ ?_ ?_ hpc'
  · show FreeFrom 0 (s.prepareNode k).nodePids (reached par (reached par _)).toNat
    rw [reached_reached]
    exact hprepared.nodes
  · exact reached_reached _ _
  · refine ⟨?_, ?_⟩
    · show FreeFrom 0 (s.prepareNode k).nodePids (k + 1)
      rw [prepareNode_pids]
      exact hrow.mono (by omega)
    · show reached par (reached par s.world.listener.overBuf) = par.soNodesNum
      rw [reached_reached, hreached]

/-- The master writes the row of its new node. -/
theorem forkNode_inv (h : Inv par s) {k : ℕ} (hpc : s.master = .forkNode k) {fork : ForkResult}
    (hstep : s.forkNode par k fork = some s') : Inv par s' := by
  have husers := h.users
  obtain ⟨hrow, hreached⟩ : FreeFrom 0 s.nodePids k ∧
      reached par s.world.listener.overBuf = par.soNodesNum := by
    have hmaster := h.master
    rw [hpc] at hmaster
    exact hmaster
  rw [hpc] at husers
  unfold Startup.State.forkNode at hstep
  split at hstep
  next hk =>
    split at hstep
    · contradiction
    next hroom =>
      cases fork with
      | failed e =>
        have hroom' : ¬ par.soNodesNum * 2 ≤ reached par s.world.listener.overBuf := by
          rw [hreached]
          exact hroom
        rw [← Option.some.inj hstep]
        exact failedNode_inv h hpc hrow hreached hroom' e
      | parent pid =>
        dsimp only at hstep
        split at hstep
        next hfresh =>
          rw [← Option.some.inj hstep]
          refine (inv_addNode (inv_prepareNode h k) hfresh.1 _).goto
            ⟨⟨hk, hroom⟩, ?_, hreached⟩ husers
          show FreeFrom 0 (s.prepareNode k).nodePids k
          rw [prepareNode_pids]
          exact hrow
        next => contradiction
  next =>
    rw [← Option.some.inj hstep]
    exact h.goto trivial husers

/-- The row that the master writes is one that nobody has. -/
theorem storeNode_inv (h : Inv par s) {k : ℕ} {nodePID : PidT}
    (hpc : s.master = .storeNode k nodePID) : Inv par (s.storeNode par k nodePID) := by
  obtain ⟨⟨hk, hroom⟩, hrow, hreached⟩ : (k < par.soNodesNum.toNat ∧
      ¬ par.soNodesNum * 2 ≤ par.soNodesNum) ∧ FreeFrom 0 s.nodePids k ∧
        reached par s.world.listener.overBuf = par.soNodesNum := by
    have hmaster := h.master
    rw [hpc] at hmaster
    exact hmaster
  have hroom' : ¬ par.soNodesNum * 2 ≤ reached par s.world.listener.overBuf := by
    rw [hreached]
    exact hroom
  have hpc' : userRow (.forkNode (k + 1)) = userRow s.master := by
    rw [hpc]
    rfl
  have hpids : (s.world.nodesPID.modify k fun row => { row with pid := nodePID }).map Node.pid =
      s.nodePids.set k nodePID := pids_claim _ _ _
  have hnext : FreeFrom 0 (s.nodePids.set k nodePID) (k + 1) := freeFrom_set hrow nodePID
  rw [Startup.State.storeNode, Startup.State.spawned, spawnNode_parent hroom' nodePID]
  refine inv_store h ?_ ?_ ?_ ?_ ⟨?_, ?_⟩ hpc'
  · show Extends 0 s.nodePids ((s.world.nodesPID.modify k _).map Node.pid)
    rw [hpids]
    exact extends_set hrow nodePID
  · show ((s.world.nodesPID.modify k _).map Node.pid).length = s.nodePids.length
    rw [hpids, List.length_set]
  · show FreeFrom 0 ((s.world.nodesPID.modify k _).map Node.pid) (reached par (reached par _)).toNat
    rw [hpids, reached_reached, hreached]
    exact hnext.mono (by omega)
  · exact reached_reached _ _
  · show FreeFrom 0 ((s.world.nodesPID.modify k _).map Node.pid) (k + 1)
    rw [hpids]
    exact hnext
  · show reached par (reached par s.world.listener.overBuf) = par.soNodesNum
    rw [reached_reached, hreached]

theorem makeFriends_inv (h : Inv par s) {k : ℕ} (hpc : s.master = .makeFriends k) {rand : ℕ → ℕ}
    (hstep : s.makeFriends par k rand = some s') : Inv par s' := by
  have husers := h.users
  rw [hpc] at husers
  unfold Startup.State.makeFriends at hstep
  split at hstep
  · obtain ⟨row, hrow, hrest⟩ := Option.bind_eq_some_iff.mp hstep
    obtain ⟨friends, -, rfl⟩ := Option.map_eq_some_iff.mp hrest
    by_cases hzero : row.pid = 0
    · rw [if_pos hzero]
      exact h.goto trivial husers
    · rw [if_neg hzero]
      exact h.goto (Or.inr (List.mem_map_of_mem (List.mem_of_getElem? hrow))) husers
  · rw [← Option.some.inj hstep]
    exact h.goto trivial husers

theorem findQueue_inv (h : Inv par s) {k : ℕ} {node : PidT} {friends : List PidT}
    (hpc : s.master = .findQueue k node friends) : Inv par (s.findQueue k node friends) := by
  have husers := h.users
  have hmaster := h.master
  rw [hpc] at husers hmaster
  unfold Startup.State.findQueue
  split
  next id hget =>
    refine h.goto ?_ husers
    have hid : (msgget s.world.queues node).queue = id := by
      rw [hget]
      rfl
    rw [← hid]
    exact target_msgget _ hmaster
  next => exact h

theorem sendFriend_inv (h : Inv par s) (sndFailure : Option Errno) {queue : Int32}
    (hqueue : Target s.nodePids queue) (friend : PidT) :
    Inv par (s.sendFriend sndFailure queue friend) := by
  unfold Startup.State.sendFriend
  split
  · exact h.congr rfl rfl rfl rfl rfl (served_pushFriend h.served hqueue friend) h.held
  · exact h

theorem forkUser_inv (h : Inv par s) {k : ℕ} (hpc : s.master = .forkUser k) {fork : ForkResult}
    (hstep : s.forkUser par k fork = some s') : Inv par s' := by
  have hrow : FreeFrom 0 s.userPids k := h.users k (by rw [hpc]; rfl)
  have hpids : (s.prepareUser k).userPids = s.userPids := by
    apply Table.map_key_modify
    exact fun _ => rfl
  unfold Startup.State.forkUser at hstep
  split at hstep
  · have hprepared := inv_prepareUser h k
    cases fork with
    | failed e =>
      rw [← Option.some.inj hstep]
      refine hprepared.goto trivial ?_
      rintro j hj
      rw [← Option.some.inj hj, hpids]
      exact hrow.mono (by omega)
    | parent pid =>
      dsimp only at hstep
      split at hstep
      next hfresh =>
        rw [← Option.some.inj hstep]
        refine (inv_addUser hprepared hfresh.1).goto trivial ?_
        intro j hj
        show FreeFrom 0 (s.prepareUser k).userPids j
        rw [← Option.some.inj hj, hpids]
        exact hrow
      next => contradiction
  · rw [← Option.some.inj hstep]
    exact h.goto trivial fun j hj => nomatch hj

theorem storeUser_inv (h : Inv par s) {k : ℕ} {userPID : PidT}
    (hpc : s.master = .storeUser k userPID) : Inv par (s.storeUser k userPID) := by
  have hrow : FreeFrom 0 s.userPids k := h.users k (by rw [hpc]; rfl)
  have hpids : (s.storeUser k userPID).userPids = s.userPids.set k userPID := by
    apply map_key_claim
    exact fun _ => rfl
  constructor
  · have hserved := h.served
    exact ⟨hserved.keys, hserved.friends, hserved.nodes, hserved.children, hserved.listener⟩
  · intro t ht
    obtain ⟨hpos, hheld⟩ := h.held t ht
    rw [hpids]
    exact ⟨hpos, fun i hi => (hheld i hi).extends (ne_zero_of_pos hpos) (extends_set hrow _)⟩
  · exact trivial
  · intro j hj
    rw [hpids, ← Option.some.inj hj]
    exact freeFrom_set hrow userPID
  · exact h.nodes
  · exact h.length
  · exact h.storing

/-- Every step of the master keeps the rows with their owners. -/
theorem masterStep_inv (h : Inv par s) {o : MasterOutcome}
    (hstep : s.masterStep par o = some s') : Inv par s' := by
  unfold Startup.State.masterStep at hstep
  split at hstep
  next k hpc => exact forkNode_inv h hpc hstep
  next k nodePID hpc =>
    rw [← Option.some.inj hstep]
    exact storeNode_inv h hpc
  next k hpc => exact makeFriends_inv h hpc hstep
  next k node friends hpc =>
    rw [← Option.some.inj hstep]
    exact findQueue_inv h hpc
  next k nodeQueue friend rest hpc =>
    rw [← Option.some.inj hstep]
    have husers := h.users
    have hmaster := h.master
    rw [hpc] at husers hmaster
    have hsent := sendFriend_inv h o.sndFailure hmaster friend
    have hsame : (s.sendFriend o.sndFailure nodeQueue friend).nodePids = s.nodePids ∧
        (s.sendFriend o.sndFailure nodeQueue friend).userPids = s.userPids := by
      unfold Startup.State.sendFriend
      split
      · exact ⟨rfl, rfl⟩
      · exact ⟨rfl, rfl⟩
    refine hsent.goto ?_ ?_
    · rw [hsame.1]
      exact hmaster
    · rw [hsame.2]
      exact husers
  next k nodeQueue hpc =>
    rw [← Option.some.inj hstep]
    have husers := h.users
    rw [hpc] at husers
    exact h.goto trivial husers
  next k hpc => exact forkUser_inv h hpc hstep
  next k userPID hpc =>
    rw [← Option.some.inj hstep]
    exact storeUser_inv h hpc
  next => contradiction

/-- A state after the end of the master's loops. -/
theorem inv_running (hmaster : s.master = .running) (hserved : Served par s.nodePids s.world)
    (hheld : ∀ t ∈ s.threads, HeldOwn s.userPids t)
    (hnodes : FreeFrom 0 s.nodePids (reached par s.world.listener.overBuf).toNat)
    (hlength : s.nodePids.length = (par.soNodesNum * 2).toNat)
    (hstoring : ∀ nodePID ∈ s.storing, 0 < nodePID ∧
      ¬ par.soNodesNum * 2 ≤ reached par s.world.listener.overBuf) : Inv par s := by
  refine ⟨hserved, hheld, ?_, ?_, hnodes, hlength, hstoring⟩
  · rw [hmaster]
    trivial
  · rw [hmaster]
    exact fun k hk => nomatch hk

/-- The listener stores the pid of the node that it has forked. -/
theorem storeExtra_inv (h : Inv par s) (hmaster : s.master = .running) {nodePID : PidT}
    (hstoring : s.storing = some nodePID) {o : ListenerOutcome}
    (hstep : s.listenerStep par o = some s') : Inv par s' := by
  obtain ⟨hpos, hroom⟩ := h.storing nodePID hstoring
  have hspawned : spawnNode par (.parent nodePID) none s.world.listener.overBuf
      s.world.nodesPID = _ := spawnNode_parent hroom nodePID
  obtain ⟨hext, hfree, hlength⟩ := spawnNode_grows h.nodes (.parent nodePID) rfl
  have hne : nodePID ≠ -1 := by
    rintro rfl
    exact absurd hpos (by decide)
  have hlt : (reached par s.world.listener.overBuf).toNat < s.nodePids.length := by
    rw [h.length]
    exact UInt32.lt_iff_toNat_lt.mp (UInt32.not_le.mp hroom)
  have hin : nodePID ∈ (spawnNode par (.parent nodePID) none s.world.listener.overBuf
      s.world.nodesPID).nodesPID.map Node.pid := by
    rw [hspawned]
    dsimp only [Option.getD_none]
    rw [pids_claim]
    exact mem_set nodePID hlt
  have hserved := h.served.extends hext
  simp only [Startup.State.listenerStep, hmaster, hstoring, Startup.State.spawned,
    Option.some.injEq] at hstep
  rw [← hstep]
  refine inv_running rfl ?_ h.held hfree (hlength.trans h.length) fun pid hpid => nomatch hpid
  refine ⟨hserved.keys, hserved.friends, hserved.nodes, hserved.children, ?_⟩
  intro id hid
  dsimp only [World.setListener, Listener.spawned] at hid
  rw [hspawned, if_neg hne] at hid
  rw [List.mem_singleton.mp hid]
  exact Or.inr hin

/-- Every step of the listener keeps the rows with their owners. -/
theorem listenerStep_inv (h : Inv par s) {o : ListenerOutcome}
    (hstep : s.listenerStep par o = some s') : Inv par s' := by
  cases hmaster : s.master with
  | running =>
    cases hstoring : s.storing with
    | some nodePID => exact storeExtra_inv h hmaster hstoring hstep
    | none =>
      simp only [Startup.State.listenerStep, hmaster, hstoring] at hstep
      split at hstep
      next hspawn =>
        split at hstep
        next hfresh =>
          rw [← Option.some.inj hstep]
          have hadded := inv_addNode h hfresh.1 s.world.listenerPID
          refine inv_running hmaster hadded.served hadded.held hadded.nodes hadded.length ?_
          intro nodePID hnode
          rw [← Option.some.inj hnode]
          refine ⟨hfresh.1, ?_⟩
          intro hfull
          have hfull' : par.soNodesNum * 2 ≤ reached par s.world.listener.overBuf := hfull
          apply hspawn.2
          rw [Startup.State.spawned, spawnNode_full hfull']
        next => contradiction
      next hidle =>
        obtain ⟨world, hworld, rfl⟩ := Option.map_eq_some_iff.mp hstep
        have hspawn : s.world.listener.pc = .spawn →
            (s.spawned par o.fork none).nodePID = -1 := by
          intro hpc
          by_contra hne
          exact hidle ⟨hpc, hne⟩
        obtain ⟨hserved, hgrows⟩ := listenerStep_served h.served h.nodes hspawn hworld
        refine inv_running hmaster (hserved.extends hgrows.extends') ?_ hgrows.free
          (hgrows.length.trans h.length) ?_
        · intro t ht
          have husers : (s.withWorld world).userPids = s.userPids :=
            congrArg (List.map User.pid) hgrows.users
          rw [husers]
          apply h.held t ht
        · intro nodePID hnode
          have hnone : s.storing = some nodePID := hnode
          rw [hstoring] at hnone
          contradiction
  | _ =>
    simp only [Startup.State.listenerStep, hmaster] at hstep
    contradiction

/-- A step of a node or of a child of it. -/
theorem Inv.of_unmoved (h : Inv par s) {world : World} (hserved : Served par s.nodePids world)
    (hunmoved : Unmoved s.world world) : Inv par (s.withWorld world) :=
  h.congr hunmoved.pids (congrArg (List.map User.pid) hunmoved.users) rfl rfl hunmoved.listener
    hserved h.held

theorem interrupt_inv (h : Inv par s) {myPID : PidT} {queueID : Int32}
    (hstep : s.interrupt myPID queueID = some s') : Inv par s' := by
  unfold Startup.State.interrupt at hstep
  split at hstep
  · contradiction
  next nodesPID hhandle =>
    rw [← Option.some.inj hstep]
    refine h.of_unmoved ⟨?_, ?_, h.served.nodes, h.served.children, h.served.listener⟩
      ⟨?_, rfl, rfl⟩
    · intro key hkey
      obtain ⟨q, hq, rfl⟩ := List.mem_map.mp hkey
      apply h.served.keys
      exact List.mem_map_of_mem (List.mem_of_mem_filter hq)
    · intro q hq
      apply h.served.friends q (List.mem_of_mem_filter hq)
    · unfold nodeInterruptHandle at hhandle
      split at hhandle
      · contradiction
      next i hi =>
        rw [← Except.ok.inj hhandle]
        apply Table.map_key_modify
        exact fun _ => rfl

theorem setThread_inv (h : Inv par s) {u : ℕ} {t : Thread} (ht : HeldOwn s.userPids t) :
    Inv par (s.setThread u t) := by
  refine h.congr rfl rfl rfl rfl rfl h.served ?_
  intro t' ht'
  rcases List.mem_or_eq_of_mem_set ht' with hold | rfl
  · apply h.held t' hold
  · exact ht

/-- A user that looks its row up in time finds its own. -/
theorem userStep_inv (h : Inv par s) {u : ℕ} {a : Attempt}
    (htimely : ∀ t ∈ s.threads[u]?, t.looksUp = true → t.proc.myPID ∈ s.userPids)
    (hstep : s.userStep par u a = some s') : Inv par s' := by
  obtain ⟨t, ht, hrest⟩ := Option.bind_eq_some_iff.mp hstep
  obtain ⟨⟨rows, t'⟩, hmove, rfl⟩ := Option.map_eq_some_iff.mp hrest
  obtain ⟨hpos, hheld⟩ := h.held t (List.mem_of_getElem? ht)
  obtain ⟨hpid, hwrote⟩ := Thread.step_wrote hmove
  have hrows : rows.map User.pid = s.userPids := by
    cases hwrote with
    | nothing => rfl
    | balance i f hi hpid' hstatus => exact Table.map_key_modify hpid' _ _
    | status i k hcall =>
      apply Table.map_key_modify
      exact fun _ => rfl
  have hkeys : (s.delivered t a).map Queue.key = s.world.queues.map Queue.key := by
    unfold Startup.State.delivered
    split
    · exact NetworkWiring.keys_modify _ _ fun _ => rfl
    · rfl
  have hfriends : FriendsAt (· ∈ s.nodePids) (s.delivered t a) := by
    unfold Startup.State.delivered
    split
    · exact friendsAt_pushTrans h.served.friends _
    · exact h.served.friends
  have hwritten : Inv par (s.withWorld { s.world with
      usersPID := rows
      queues := s.delivered t a }) := by
    refine h.congr rfl hrows rfl rfl rfl ?_ h.held
    refine ⟨?_, hfriends, h.served.nodes, h.served.children, h.served.listener⟩
    intro key hkey
    apply h.served.keys key
    rw [← hkeys]
    exact hkey
  refine setThread_inv hwritten ?_
  show HeldOwn (rows.map User.pid) t'
  rw [hrows]
  refine ⟨hpid ▸ hpos, ?_⟩
  intro i hi
  rw [hpid]
  rcases step_held hmove hi with hold | ⟨hlooks, rfl⟩
  · exact hheld i hold
  · exact owns_indexOf (htimely t ht hlooks)

/-- A timely step keeps every index that is held on a row of its owner. -/
theorem next_inv (h : Inv par s) {l : Startup.Label} (hl : Timely par s l)
    (hn : s.next par l = some s') : Inv par s' := by
  cases l with
  | master o => exact masterStep_inv h hn
  | listener o => exact listenerStep_inv h hn
  | node i o =>
    simp only [Startup.State.next, Startup.State.nodeStep] at hn
    split at hn
    · contradiction
    · obtain ⟨world, hworld, rfl⟩ := Option.map_eq_some_iff.mp hn
      have htimely : ∀ c ∈ s.world.nodes[i]?, c.proc.myPID ∈ s.nodePids ∨
          (waits c.pc = true → o.friendFailure = none) :=
        fun c hc => (hl c hc).imp_right And.right
      obtain ⟨hserved, hunmoved⟩ := nodeStep_served h.served rfl htimely hworld
      exact h.of_unmoved hserved hunmoved
  | child c reading =>
    simp only [Startup.State.next, Startup.State.childStep] at hn
    split at hn
    · contradiction
    · obtain ⟨world, hworld, rfl⟩ := Option.map_eq_some_iff.mp hn
      obtain ⟨hserved, hunmoved⟩ := childStep_served h.served hworld
      exact h.of_unmoved hserved hunmoved
  | nodeSigint i =>
    obtain ⟨c, -, hrest⟩ := Option.bind_eq_some_iff.mp hn
    split at hrest
    · contradiction
    · obtain ⟨s₁, hs₁, rfl⟩ := Option.map_eq_some_iff.mp hrest
      have h₁ := interrupt_inv h hs₁
      exact h₁.congr rfl rfl rfl rfl rfl h₁.served h₁.held
  | childSigint c =>
    obtain ⟨w, -, hrest⟩ := Option.bind_eq_some_iff.mp hn
    split at hrest
    · contradiction
    · obtain ⟨s₁, hs₁, rfl⟩ := Option.map_eq_some_iff.mp hrest
      have h₁ := interrupt_inv h hs₁
      exact h₁.congr rfl rfl rfl rfl rfl h₁.served h₁.held
  | user u a => exact userStep_inv h hl hn
  | sigusr1 u =>
    obtain ⟨t, ht, hrest⟩ := Option.bind_eq_some_iff.mp hn
    obtain ⟨c, hc, rfl⟩ := Option.map_eq_some_iff.mp hrest
    obtain ⟨hpos, hheld⟩ := h.held t (List.mem_of_getElem? ht)
    exact setThread_inv h ⟨hpos, fun i hi => hheld i (held_signalled hc hi)⟩
  | sigint u =>
    obtain ⟨t, ht, rfl⟩ := Option.map_eq_some_iff.mp hn
    obtain ⟨hpos, hheld⟩ := h.held t (List.mem_of_getElem? ht)
    exact setThread_inv h ⟨hpos, fun i hi => hheld i (held_interrupted hi)⟩

/-- In a run that keeps to the condition every process that writes a row finds its
own. -/
theorem rows_stored (par : Parameters) {s : Startup.State}
    (hs : (Startup.machine par).Reach (Timely par) s) {l : Startup.Label} (hl : Timely par s l) :
    Valid s l := by
  have h : Inv par s := hs.invariant (fun s hs => inv_initial hs) fun s l s' h hl hn =>
    next_inv h hl hn
  cases l with
  | user u a =>
    intro t ht i hi
    obtain ⟨hpos, hheld⟩ := h.held t (List.mem_of_getElem? ht)
    apply hheld i (held_writes hi)
  | node i o =>
    intro c hc hpc
    apply owns_indexOf
    obtain ⟨hpos, hready⟩ := h.served.nodes c (List.mem_of_getElem? hc)
    rw [Ready, hpc] at hready
    rcases hl c hc with hin | ⟨hnone, -⟩
    · exact hin
    · by_cases hzero : par.soFriendsNum = 0
      · exact absurd hpc (hnone hzero)
      · exact hready hzero
  | nodeSigint i =>
    intro c hc hpc
    apply owns_indexOf
    obtain ⟨hpos, hready⟩ := h.served.nodes c (List.mem_of_getElem? hc)
    by_cases hunserved : Unserved par c
    · exact hl c hc hunserved
    · have hzero : par.soFriendsNum ≠ 0 := fun h => hunserved (Or.inl h)
      unfold Ready at hready
      split at hready
      next hinit => exact absurd hinit hpc
      next hattach => exact absurd (Or.inr (Or.inl hattach)) hunserved
      next friendMex hbefriend =>
        exact absurd (Or.inr (Or.inr (by rw [hbefriend]; rfl))) hunserved
      next => exact hready hzero
      next => exact hready hzero
      next => exact hready
  | child c reading =>
    intro w hw
    apply owns_indexOf
    exact (h.served.children w (List.mem_of_getElem? hw)).2
  | childSigint c =>
    intro w hw
    apply owns_indexOf
    exact (h.served.children w (List.mem_of_getElem? hw)).2
  | _ => trivial

end Invariant

section Examples

def pair : Parameters :=
  { assignDefaults with soUserNum := 1, soNodesNum := 1, soFriendsNum := 1 }

def launch : Startup.State where
  world :=
    { master := 7
      listenerPID := 8
      adopter := 1
      queues := [create 7]
      usersPID := [⟨0, 0, .alive⟩]
      nodesPID := [⟨0, 0, 0, .available⟩, ⟨0, 0, 0, .available⟩]
      ledger := Ledger.zero
      users := []
      nodes := []
      children := []
      listener := ⟨.zero, 0, ⟨0, .zero⟩, 0, .receive⟩
      sent := [] }
  threads := []
  master := .forkNode 0
  storing := none
  stoppedNodes := []
  stoppedChildren := []

theorem launch_initial : Startup.Initial pair launch :=
  ⟨rfl, by decide, rfl, rfl, rfl, rfl, rfl, rfl, rfl, rfl, ⟨rfl, rfl⟩, rfl, ⟨rfl, rfl⟩⟩

def master (pid : PidT) : Startup.Label := .master ⟨.parent pid, fun _ => 0, none⟩

def act : Attempt := ⟨[], [], 0, [], ⟨1, 0⟩, .failed .EAGAIN⟩

def quiet : NodeOutcome := ⟨none, none, none, 0, .failed .EAGAIN⟩

def forking : List Startup.Label :=
  [master 11, master 11, .node 0 quiet] ++ List.replicate 7 (master 21)

theorem timely_run : ∃ s, (Startup.machine pair).runWhile (Timely pair) launch
    (forking ++ master 21 :: List.replicate 3 (.user 0 act)) = some s ∧
      Timely pair s (.user 0 act) ∧ s.threads.map Thread.writes = [some (some 0)] :=
  ⟨_, rfl, of_decide_eq_true rfl, rfl⟩

/-- A user whose pid is stored writes to its row. -/
theorem rows_stored_user : ∃ s, (Startup.machine pair).Reach (Timely pair) s ∧
    s.threads.map Thread.writes = [some (some 0)] ∧ Valid s (.user 0 act) := by
  obtain ⟨s, hrun, htimely, hwrites⟩ := timely_run
  have hs : (Startup.machine pair).Reach (Timely pair) s :=
    ⟨launch, launch_initial, Machine.path_of_runWhile _ hrun⟩
  exact ⟨s, hs, hwrites, rows_stored pair hs htimely⟩

/-- User 21 comes to update_balance before the master stores its pid. -/
theorem early_run : ∃ s, (Startup.machine pair).run launch
    (forking ++ List.replicate 3 (.user 0 act)) = some s ∧
      ∃ t, s.threads[0]? = some t ∧ t.writes = some none :=
  ⟨_, rfl, _, rfl, rfl⟩

def alone : Parameters := { pair with soFriendsNum := 0 }

theorem launch_alone : Startup.Initial alone launch :=
  ⟨rfl, by decide, rfl, rfl, rfl, rfl, rfl, rfl, rfl, rfl, ⟨rfl, rfl⟩, rfl, ⟨rfl, rfl⟩⟩

theorem early_node_run : ∃ s, (Startup.machine alone).run launch
    (master 11 :: List.replicate 4 (.node 0 quiet)) = some s ∧
      ∃ c, s.world.nodes[0]? = some c ∧ c.pc = .publish ∧
        Blocks.getPidNodeIndex s.world.nodesPID c.proc.myPID = none :=
  ⟨_, rfl, _, rfl, rfl, rfl⟩

/-- A user always, and a node without friends, may write before its row exists. -/
theorem rows_missing :
    (∃ s, (Startup.machine pair).Reachable s ∧ ¬ Valid s (.user 0 act)) ∧
    (∃ s, (Startup.machine alone).Reachable s ∧ ¬ Valid s (.node 0 quiet)) ∧
    ¬ ∀ par s l, (Startup.machine par).Reachable s → Valid s l := by
  obtain ⟨s, hrun, t, ht, hwrites⟩ := early_run
  obtain ⟨s', hrun', c, hc, hpc, hindex⟩ := early_node_run
  have hs := Machine.reachable_of_run _ launch_initial hrun
  have huser : ¬ Valid s (.user 0 act) := by
    intro hvalid
    obtain ⟨j, hj, -⟩ := hvalid t ht none hwrites
    contradiction
  have hnode : ¬ Valid s' (.node 0 quiet) := by
    intro hvalid
    obtain ⟨j, hj, -⟩ := hvalid c hc hpc
    rw [hindex] at hj
    contradiction
  exact ⟨⟨s, hs, huser⟩, ⟨s', Machine.reachable_of_run _ launch_alone hrun', hnode⟩,
    fun hall => huser (hall pair s _ hs)⟩

end Examples

end SimulazioneTransazioni.StoredRows

import SimulazioneTransazioni.Library.Registry
import SimulazioneTransazioni.Network
import SimulazioneTransazioni.UserCalls

/-!
The system from the first fork of the master on. A child runs as soon as it is
forked, and its parent stores its pid in the table in a later step. The master
forks its nodes, sends each its friends and forks its users; its child that
listens for hopped transactions does the same with one more node at a time. Users
can be interrupted, and SIGINT makes a node or a child of a node run the handler
and exit. A table of 2^31 nodes or more has no capacity left for the first one,
whose process would go on as a second master: there the master makes no step. What
the calls of a user return is given by the label.
-/
namespace SimulazioneTransazioni.Startup

open Nodes Users Master Queues Network UserCalls Blocks LedgerWriters

inductive MasterPc
  | forkNode (k : ℕ)
  | storeNode (k : ℕ) (nodePID : PidT)
  | makeFriends (k : ℕ)
  | findQueue (k : ℕ) (node : PidT) (friends : List PidT)
  | sendFriends (k : ℕ) (nodeQueue : Int32) (friends : List PidT)
  | forkUser (k : ℕ)
  | storeUser (k : ℕ) (userPID : PidT)
  | running

/-- The users of the world are empty, since they stand in threads. The field
storing is the node that the listener has forked and not stored yet. -/
structure State where
  world : World
  threads : List Thread
  master : MasterPc
  storing : Option PidT
  stoppedNodes : List ℕ
  stoppedChildren : List ℕ

structure MasterOutcome where
  fork : ForkResult
  rand : ℕ → ℕ
  sndFailure : Option Errno

inductive Label
  | master (o : MasterOutcome)
  | listener (o : ListenerOutcome)
  | node (i : ℕ) (o : NodeOutcome)
  | child (c : ℕ) (reading : Reading)
  | nodeSigint (i : ℕ)
  | childSigint (c : ℕ)
  | user (u : ℕ) (a : Attempt)
  | sigusr1 (u : ℕ)
  | sigint (u : ℕ)

namespace State

def withWorld (s : State) (world : World) : State := { s with world := world }

def goto (s : State) (pc : MasterPc) : State := { s with master := pc }

def setThread (s : State) (u : ℕ) (t : Thread) : State :=
  { s with threads := s.threads.set u t }

def userPids (s : State) : List PidT := s.world.usersPID.map User.pid

def nodePids (s : State) : List PidT := s.world.nodesPID.map Node.pid

def Fresh (s : State) (pid : PidT) : Prop :=
  0 < pid ∧ pid ∉ s.world.pids ++ s.threads.map (Thread.proc · |>.myPID)

instance (s : State) (pid : PidT) : Decidable (s.Fresh pid) :=
  inferInstanceAs (Decidable (_ ∧ _))

section Master

variable (par : Parameters)

def spawned (s : State) (fork : ForkResult) (nCounter : Option ℕ) : Spawned :=
  spawnNode par fork nCounter s.world.listener.overBuf s.world.nodesPID

def store (s : State) (spawned : Spawned) : State :=
  s.withWorld { s.world with
    nodesPID := spawned.nodesPID
    listener := { s.world.listener with overBuf := spawned.overBuf } }

def prepareNode (s : State) (k : ℕ) : State :=
  s.withWorld { s.world with
    nodesPID := s.world.nodesPID.modify k fun row =>
      { row with status := .available, balance := 0 } }

def prepareUser (s : State) (k : ℕ) : State :=
  s.withWorld { s.world with
    usersPID := s.world.usersPID.modify k fun row =>
      { row with status := .alive, balance := 0 } }

def addNode (s : State) (pid ppid : PidT) : State :=
  s.withWorld { s.world with nodes := s.world.nodes ++ [NodeCell.start pid ppid .queueInit] }

def addUser (s : State) (pid : PidT) : State :=
  { s with threads := s.threads ++ [Thread.start par pid] }

def forkNode (s : State) (k : ℕ) (fork : ForkResult) : Option State :=
  if k < par.soNodesNum.toNat then
    if par.soNodesNum * 2 ≤ par.soNodesNum then none
    else
      let s := s.prepareNode k
      match fork with
      | .failed e => some ((s.store (s.spawned par (.failed e) (some k))).goto (.forkNode (k + 1)))
      | .parent pid =>
        if s.Fresh pid then some ((s.addNode pid s.world.master).goto (.storeNode k pid)) else none
  else some (s.goto (.makeFriends 0))

def storeNode (s : State) (k : ℕ) (nodePID : PidT) : State :=
  (s.store (s.spawned par (.parent nodePID) (some k))).goto (.forkNode (k + 1))

/-- For a row without a node msgget makes a queue that no process reads. -/
def makeFriends (s : State) (k : ℕ) (rand : ℕ → ℕ) : Option State :=
  if k < par.soNodesNum.toNat then
    (s.world.nodesPID[k]?).bind fun row =>
      (makeFriendList par rand s.world.nodesPID).map fun friends =>
        if row.pid = 0 then s.goto (.makeFriends (k + 1))
        else s.goto (.findQueue k row.pid friends)
  else some (s.goto (.forkUser 0))

/-- Calls msgget until errno is not ENOENT. -/
def findQueue (s : State) (k : ℕ) (node : PidT) (friends : List PidT) : State :=
  match msgget s.world.queues node with
  | .found id => s.goto (.sendFriends k id friends)
  | .failed _ => s

def sendFriend (s : State) (sndFailure : Option Errno) (queue : Int32) (friend : PidT) : State :=
  match msgsnd s.world.queues sndFailure queue with
  | .sent => s.withWorld (s.world.withQueues (pushFriend s.world.queues queue friend))
  | .failed _ => s

def forkUser (s : State) (k : ℕ) (fork : ForkResult) : Option State :=
  if k < par.soUserNum.toNat then
    let s := s.prepareUser k
    match fork with
    | .failed _ => some (s.goto (.forkUser (k + 1)))
    | .parent pid =>
      if s.Fresh pid then some ((s.addUser par pid).goto (.storeUser k pid)) else none
  else some (s.goto .running)

def storeUser (s : State) (k : ℕ) (userPID : PidT) : State :=
  (s.withWorld { s.world with
    usersPID := s.world.usersPID.modify k fun row => { row with pid := userPID } }).goto
      (.forkUser (k + 1))

def masterStep (s : State) (o : MasterOutcome) : Option State :=
  match s.master with
  | .forkNode k => s.forkNode par k o.fork
  | .storeNode k nodePID => some (s.storeNode par k nodePID)
  | .makeFriends k => s.makeFriends par k o.rand
  | .findQueue k node friends => some (s.findQueue k node friends)
  | .sendFriends k nodeQueue (friend :: rest) =>
    some ((s.sendFriend o.sndFailure nodeQueue friend).goto (.sendFriends k nodeQueue rest))
  | .sendFriends k _ [] => some (s.goto (.makeFriends (k + 1)))
  | .forkUser k => s.forkUser par k o.fork
  | .storeUser k userPID => some (s.storeUser k userPID)
  | .running => none

/-- The listener's spawn_node is two steps where it makes a node. -/
def listenerStep (s : State) (o : ListenerOutcome) : Option State :=
  match s.master, s.storing with
  | .running, some nodePID =>
    let spawned := s.spawned par (.parent nodePID) none
    let world := { s.world with nodesPID := spawned.nodesPID }
    some { s with
      world := world.setListener (s.world.listener.spawned spawned)
      storing := none }
  | .running, none =>
    let spawned := s.spawned par o.fork none
    if s.world.listener.pc = .spawn ∧ spawned.nodePID ≠ -1 then
      if s.Fresh spawned.nodePID then
        some { s.addNode spawned.nodePID s.world.listenerPID with
          storing := some spawned.nodePID }
      else none
    else (s.world.listenerStep par o).map s.withWorld
  | _, _ => none

end Master

section Processes

variable (par : Parameters)

def nodeStep (s : State) (i : ℕ) (o : NodeOutcome) : Option State :=
  if i ∈ s.stoppedNodes then none else (s.world.nodeStep par i o).map s.withWorld

def childStep (s : State) (c : ℕ) (reading : Reading) : Option State :=
  if c ∈ s.stoppedChildren then none else (s.world.childStep c reading).map s.withWorld

/-- node_interrupt_handle; an identifier of a queue is its key. -/
def interrupt (s : State) (myPID : PidT) (queueID : Int32) : Option State :=
  match nodeInterruptHandle s.world.ledger s.world.nodesPID myPID with
  | .error _ => none
  | .ok nodesPID => some (s.withWorld { s.world with
      queues := s.world.queues.filter fun q => q.key ≠ queueID
      nodesPID := nodesPID })

/-- After the exec a node has its handler. -/
def nodeSigint (s : State) (i : ℕ) : Option State :=
  (s.world.nodes[i]?).bind fun c =>
    if c.pc = .queueInit ∨ i ∈ s.stoppedNodes then none
    else (s.interrupt c.proc.myPID c.proc.queueID).map fun s =>
      { s with stoppedNodes := i :: s.stoppedNodes }

/-- A child has the handler, the pid and the queue of its parent. -/
def childSigint (s : State) (c : ℕ) : Option State :=
  (s.world.children[c]?).bind fun w =>
    if c ∈ s.stoppedChildren then none
    else (s.interrupt w.myPID w.myPID).map fun s =>
      { s with stoppedChildren := c :: s.stoppedChildren }

def shared (s : State) : Shared := ⟨s.world.usersPID, s.world.nodesPID, s.world.ledger⟩

def delivered (s : State) (t : Thread) (a : Attempt) : List Queue :=
  if t.sends ∧ a.msgsnd = .sent then pushTrans s.world.queues t.proc.queueID t.proc.transMsg
  else s.world.queues

def userStep (s : State) (u : ℕ) (a : Attempt) : Option State :=
  (s.threads[u]?).bind fun t =>
    (t.step par s.shared a).map fun (usersPID, t') =>
      (s.withWorld { s.world with
        usersPID := usersPID
        queues := s.delivered t a }).setThread u t'

def sigusr1 (s : State) (u : ℕ) : Option State :=
  (s.threads[u]?).bind fun t =>
    t.control.signalled.map fun c => s.setThread u (t.withControl c)

def sigint (s : State) (u : ℕ) : Option State :=
  (s.threads[u]?).map fun t => s.setThread u (t.withControl t.control.interrupted)

def next (s : State) : Label → Option State
  | .master o => s.masterStep par o
  | .listener o => s.listenerStep par o
  | .node i o => s.nodeStep par i o
  | .child c reading => s.childStep c reading
  | .nodeSigint i => s.nodeSigint i
  | .childSigint c => s.childSigint c
  | .user u a => s.userStep par u a
  | .sigusr1 u => s.sigusr1 u
  | .sigint u => s.sigint u

end Processes

end State

/-- The shared memory is zeroed and the master has made its queue. -/
structure Initial (par : Parameters) (s : State) : Prop where
  master : s.master = .forkNode 0
  pid : 0 < s.world.master
  queues : s.world.queues = [create s.world.master]
  usersPID : s.world.usersPID = List.replicate par.soUserNum.toNat ⟨0, 0, .alive⟩
  nodesPID : s.world.nodesPID =
    List.replicate (par.soNodesNum * 2).toNat ⟨0, 0, 0, .available⟩
  ledger : s.world.ledger = Ledger.zero
  threads : s.threads = []
  users : s.world.users = []
  nodes : s.world.nodes = []
  children : s.world.children = []
  listener : s.world.listener.pc = .receive ∧ s.world.listener.overBuf = 0
  storing : s.storing = none
  stopped : s.stoppedNodes = [] ∧ s.stoppedChildren = []

def machine (par : Parameters) : Machine State Label where
  start := Initial par
  next := State.next par

section Claimed

/-- The index that a node computes is that of its row. -/
def State.OwnsNode (s : State) (pid : PidT) : Prop :=
  Registry.Owns s.nodePids pid (getPidNodeIndex s.world.nodesPID pid)

/-- A process that writes a row, or a child that will, writes its own. -/
def Valid (s : State) : Label → Prop
  | .user u _ => ∀ t ∈ s.threads[u]?, ∀ i ∈ t.writes, Registry.Owns s.userPids t.proc.myPID i
  | .node i _ => ∀ c ∈ s.world.nodes[i]?, c.pc = .publish → s.OwnsNode c.proc.myPID
  | .nodeSigint i => ∀ c ∈ s.world.nodes[i]?, c.pc ≠ .queueInit → s.OwnsNode c.proc.myPID
  | .child c _ => ∀ w ∈ s.world.children[c]?, s.OwnsNode w.myPID
  | .childSigint c => ∀ w ∈ s.world.children[c]?, s.OwnsNode w.myPID
  | _ => True

def waits : NodePc → Bool
  | .befriend _ => true
  | _ => false

def Unserved (par : Parameters) (c : NodeCell) : Prop :=
  par.soFriendsNum = 0 ∨ c.pc = .attach ∨ waits c.pc = true

/-- A process whose pid is not stored yet looks no row up, unless it is a node
that has been sent a friend; and no receive of a friend fails. -/
def Timely (par : Parameters) (s : State) : Label → Prop
  | .user u _ => ∀ t ∈ s.threads[u]?, t.looksUp = true → t.proc.myPID ∈ s.userPids
  | .node i o => ∀ c ∈ s.world.nodes[i]?, c.proc.myPID ∈ s.nodePids ∨
      (par.soFriendsNum = 0 → c.pc ≠ .publish) ∧ (waits c.pc = true → o.friendFailure = none)
  | .nodeSigint i => ∀ c ∈ s.world.nodes[i]?, Unserved par c → c.proc.myPID ∈ s.nodePids
  | _ => True

instance (par : Parameters) (c : NodeCell) : Decidable (Unserved par c) :=
  inferInstanceAs (Decidable (_ ∨ _))

instance (par : Parameters) (s : State) : (l : Label) → Decidable (Timely par s l)
  | .user _ _ => inferInstanceAs (Decidable (∀ _ ∈ _, _))
  | .node _ _ => inferInstanceAs (Decidable (∀ _ ∈ _, _))
  | .nodeSigint _ => inferInstanceAs (Decidable (∀ _ ∈ _, _))
  | .master _ => isTrue trivial
  | .listener _ => isTrue trivial
  | .child _ _ => isTrue trivial
  | .childSigint _ => isTrue trivial
  | .sigusr1 _ => isTrue trivial
  | .sigint _ => isTrue trivial

end Claimed

section Threads

variable {par : Parameters} {s s' : State} {l : Label}

inductive Moved (par : Parameters) (s : State) (t : Thread) : Thread → Prop
  | step (a : Attempt) (rows : List User) (t' : Thread)
      (h : t.step par s.shared a = some (rows, t')) : Moved par s t t'
  | sigusr1 (c : Control) (h : t.control.signalled = some c) : Moved par s t (t.withControl c)
  | sigint : Moved par s t (t.withControl t.control.interrupted)

inductive Threads (par : Parameters) (s : State) : List Thread → Prop
  | same : Threads par s s.threads
  | fork (pid : PidT) (hnum : par.soUserNum ≠ 0) :
      Threads par s (s.threads ++ [Thread.start par pid])
  | move (u : ℕ) (t t' : Thread) (ht : s.threads[u]? = some t) (h : Moved par s t t') :
      Threads par s (s.threads.set u t')

theorem forkNode_threads {k : ℕ} {fork : ForkResult} (h : s.forkNode par k fork = some s') :
    s'.threads = s.threads := by
  unfold State.forkNode at h
  split at h
  · split at h
    · contradiction
    · cases fork with
      | failed e =>
        rw [← Option.some.inj h]
        rfl
      | parent pid =>
        dsimp only at h
        split at h
        · rw [← Option.some.inj h]
          rfl
        · contradiction
  · rw [← Option.some.inj h]
    rfl

theorem makeFriends_threads {k : ℕ} {rand : ℕ → ℕ} (h : s.makeFriends par k rand = some s') :
    s'.threads = s.threads := by
  unfold State.makeFriends at h
  split at h
  · obtain ⟨row, -, hrest⟩ := Option.bind_eq_some_iff.mp h
    obtain ⟨friends, -, rfl⟩ := Option.map_eq_some_iff.mp hrest
    split
    · rfl
    · rfl
  · rw [← Option.some.inj h]
    rfl

theorem forkUser_threads {k : ℕ} {fork : ForkResult} (h : s.forkUser par k fork = some s') :
    Threads par s s'.threads := by
  unfold State.forkUser at h
  split at h
  next hk =>
    cases fork with
    | failed e =>
      rw [← Option.some.inj h]
      exact .same
    | parent pid =>
      dsimp only at h
      split at h
      · rw [← Option.some.inj h]
        refine .fork pid ?_
        intro hzero
        rw [hzero] at hk
        exact absurd hk (Nat.not_lt_zero k)
      · contradiction
  next =>
    rw [← Option.some.inj h]
    exact .same

theorem masterStep_threads {o : MasterOutcome} (h : s.masterStep par o = some s') :
    Threads par s s'.threads := by
  unfold State.masterStep at h
  split at h
  next => exact forkNode_threads h ▸ .same
  next =>
    rw [← Option.some.inj h]
    exact .same
  next => exact makeFriends_threads h ▸ .same
  next =>
    rw [← Option.some.inj h]
    unfold State.findQueue
    split
    · exact .same
    · exact .same
  next =>
    rw [← Option.some.inj h]
    unfold State.sendFriend
    split
    · exact .same
    · exact .same
  next =>
    rw [← Option.some.inj h]
    exact .same
  next => exact forkUser_threads h
  next =>
    rw [← Option.some.inj h]
    exact .same
  next => contradiction

theorem listenerStep_threads {o : ListenerOutcome} (h : s.listenerStep par o = some s') :
    s'.threads = s.threads := by
  unfold State.listenerStep at h
  split at h
  · rw [← Option.some.inj h]
  · dsimp only at h
    split at h
    · split at h
      · rw [← Option.some.inj h]
        rfl
      · contradiction
    · obtain ⟨world, -, rfl⟩ := Option.map_eq_some_iff.mp h
      rfl
  · contradiction

theorem interrupt_threads {myPID : PidT} {queueID : Int32}
    (h : s.interrupt myPID queueID = some s') : s'.threads = s.threads := by
  unfold State.interrupt at h
  split at h
  · contradiction
  · rw [← Option.some.inj h]
    rfl

/-- A step adds a user, moves one of them, or leaves them all. -/
theorem next_threads (h : s.next par l = some s') : Threads par s s'.threads := by
  cases l with
  | master o => exact masterStep_threads h
  | listener o => exact listenerStep_threads h ▸ .same
  | node i o =>
    simp only [State.next, State.nodeStep] at h
    split at h
    · contradiction
    · obtain ⟨world, -, rfl⟩ := Option.map_eq_some_iff.mp h
      exact .same
  | child c reading =>
    simp only [State.next, State.childStep] at h
    split at h
    · contradiction
    · obtain ⟨world, -, rfl⟩ := Option.map_eq_some_iff.mp h
      exact .same
  | nodeSigint i =>
    obtain ⟨c, -, hrest⟩ := Option.bind_eq_some_iff.mp h
    split at hrest
    · contradiction
    · obtain ⟨s₁, hs₁, rfl⟩ := Option.map_eq_some_iff.mp hrest
      exact interrupt_threads hs₁ ▸ .same
  | childSigint c =>
    obtain ⟨w, -, hrest⟩ := Option.bind_eq_some_iff.mp h
    split at hrest
    · contradiction
    · obtain ⟨s₁, hs₁, rfl⟩ := Option.map_eq_some_iff.mp hrest
      exact interrupt_threads hs₁ ▸ .same
  | user u a =>
    obtain ⟨t, ht, hrest⟩ := Option.bind_eq_some_iff.mp h
    obtain ⟨⟨rows, t'⟩, hstep, rfl⟩ := Option.map_eq_some_iff.mp hrest
    exact .move u t t' ht (.step a rows t' hstep)
  | sigusr1 u =>
    obtain ⟨t, ht, hrest⟩ := Option.bind_eq_some_iff.mp h
    obtain ⟨c, hc, rfl⟩ := Option.map_eq_some_iff.mp hrest
    exact .move u t _ ht (.sigusr1 c hc)
  | sigint u =>
    obtain ⟨t, ht, rfl⟩ := Option.map_eq_some_iff.mp h
    exact .move u t _ ht .sigint

end Threads

end SimulazioneTransazioni.Startup

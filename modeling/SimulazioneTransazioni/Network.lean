import SimulazioneTransazioni.LedgerWriters
import SimulazioneTransazioni.Master
import SimulazioneTransazioni.NodeLoop
import SimulazioneTransazioni.Queues
import SimulazioneTransazioni.Users

/-!
The whole system in steps: users that send, nodes from their first msgget on,
the children that write blocks, and the master's child that listens for hopped
transactions and spawns nodes. A step is one function call of one process, or
one step of it where it shares the ledger or waits. The run begins when the
master has forked its nodes and sent them their friends. No signal arrives, and
a process that would raise SIGINT on itself makes no step. The last section says
once what each kind of step can do.
-/
namespace SimulazioneTransazioni.Network

open Nodes Users Master Queues LedgerWriters

/-- Where a node stands: after the fork, before execve; in message_queue_attach;
in fill_friendList with its buffer; and in its loop. -/
inductive NodePc
  | queueInit
  | attach
  | befriend (friendMex : PidT)
  | fetch
  | publish
  | process
deriving DecidableEq

structure NodeCell where
  ppid : PidT
  pc : NodePc
  proc : NodeProc

namespace NodeCell

def start (pid ppid : PidT) (pc : NodePc) : NodeCell where
  ppid := ppid
  pc := pc
  proc := ⟨pid, 0, .zero, 20, 0, ⟨0, .zero⟩, [], 0, transactionPoolInit⟩

def goto (c : NodeCell) (pc : NodePc) (proc : NodeProc) : NodeCell :=
  { c with pc := pc, proc := proc }

end NodeCell

/-- The last field lists what users have sent, in the order of sending. -/
structure World where
  master : PidT
  listenerPID : PidT
  adopter : PidT
  queues : List Queue
  usersPID : List User
  nodesPID : List Node
  ledger : Ledger
  users : List UserProc
  nodes : List NodeCell
  children : List Writer
  listener : Listener
  sent : List Transaction

structure Order where
  userDraws : List UInt32
  nodeDraws : List UInt32
  clock : Timespec
  amount : Int32
  reward : Int32
  failure : Option Errno

structure NodeOutcome where
  rcvFailure : Option Errno
  friendFailure : Option Errno
  sndFailure : Option Errno
  rand : UInt32
  fork : ForkResult

structure ListenerOutcome where
  rcvFailure : Option Errno
  sndFailure : Option Errno
  rand : ℕ → ℕ
  fork : ForkResult

inductive Label
  | user (u : ℕ) (a : Order)
  | node (i : ℕ) (o : NodeOutcome)
  | child (c : ℕ) (reading : Reading)
  | listener (o : ListenerOutcome)

namespace World

def withQueues (s : World) (queues : List Queue) : World := { s with queues := queues }

def setNode (s : World) (i : ℕ) (c : NodeCell) : World :=
  { s with nodes := s.nodes.set i c }

def setListener (s : World) (p : Listener) : World := { s with listener := p }

section User

def sentBy (s : World) (u : ℕ) (p : UserProc) : MsgsndResult → World
  | .sent =>
    { s with
      users := s.users.set u p
      queues := pushTrans s.queues p.queueID p.transMsg
      sent := s.sent ++ [p.transMsg.userTrans] }
  | .failed _ => { s with users := s.users.set u p }

/-- A send of a fresh transaction: the clock gives a user no time twice. -/
def userStep (par : Parameters) (s : World) (u : ℕ) (a : Order) : Option World :=
  (s.users[u]?).bind fun p =>
    if ∃ t ∈ s.sent, t.sender = p.myPID ∧ t.timestamp = a.clock then none
    else
      match getRandomNodePID par s.nodesPID a.nodeDraws with
      | .error _ => none
      | .ok nodePID =>
        let found := msgget s.queues nodePID
        let result := msgsnd s.queues a.failure found.queue
        match sendFresh par s.usersPID ⟨a.userDraws, a.nodeDraws, 0, [found], a.clock, result⟩
          a.amount a.reward p with
        | .error _ => none
        | .ok r => some (s.sentBy u r.2 result)

end User

section Node

/-- The parent of a node; the orphans of the listener are adopted. -/
def getppid (s : World) (c : NodeCell) : PidT :=
  if c.ppid = s.listenerPID ∧ s.listener.pc = .exited then s.adopter else c.ppid

def hopOutcome (s : World) (c : NodeCell) (o : NodeOutcome) : HopOutcome where
  rand := o.rand
  getppid := s.getppid c
  msgget := msgget s.queues
  msgsnd := msgsnd s.queues o.sndFailure

def receive (par : Parameters) (s : World) (o : NodeOutcome) (p : NodeProc) :
    Option (FetchOutcome × List Queue) :=
  if Receives par p then
    (rcvTrans s.queues o.rcvFailure p.queueID).map fun (mex, queues) =>
      let (friend, queues) := rcvFriend queues o.friendFailure p.queueID
      (⟨mex, friend⟩, queues)
  else some (⟨.failed .ENOMSG, .failed .ENOMSG⟩, s.queues)

def deliver (queues : List Queue) : FetchEvent → List Queue
  | .hopped (.toMaster queue m true) => pushTrans queues queue m
  | .hopped (.toFriend queue m true) => pushTrans queues queue m
  | _ => queues

def fetchStep (par : Parameters) (s : World) (i : ℕ) (c : NodeCell) (o : NodeOutcome) :
    Option World :=
  (s.receive par o c.proc).bind fun (fetched, queues) =>
    match fetchMessages par fetched (s.hopOutcome c o) c.proc with
    | .error _ => none
    | .ok (p, e) => some ((s.withQueues (deliver queues e)).setNode i (c.goto .publish p))

def publishStep (s : World) (i : ℕ) (c : NodeCell) : Option World :=
  match publishSize s.nodesPID c.proc with
  | .error _ => none
  | .ok (nodesPID, p) => some ({ s with nodesPID := nodesPID }.setNode i (c.goto .process p))

def childrenOf (myPID : PidT) : BlockEvent → List Writer
  | .forked _ batch => [⟨myPID, batch, .building⟩]
  | _ => []

def processStep (s : World) (i : ℕ) (c : NodeCell) (o : NodeOutcome) : Option World :=
  match processBlock o.fork c.proc with
  | .error _ => none
  | .ok (p, e) =>
    some ({ s with children := s.children ++ childrenOf c.proc.myPID e }.setNode i
      (c.goto .fetch p))

/-- message_queue_attach calls msgget until errno is not ENOENT. -/
def attachStep (par : Parameters) (s : World) (i : ℕ) (c : NodeCell) : World :=
  let found := msgget s.queues c.proc.myPID
  let errno := found.errno c.proc.errno
  let p := { c.proc with queueID := found.queue, errno := errno }
  if errno = .ENOENT then s.setNode i (c.goto .attach p)
  else
    s.setNode i (c.goto (.befriend 0)
      { p with friendListSize := MachineInt.intOfUnsigned par.soFriendsNum })

def befriendStep (par : Parameters) (s : World) (i : ℕ) (c : NodeCell) (friendMex : PidT)
    (o : NodeOutcome) : Option World :=
  if c.proc.friendList.length < par.soFriendsNum.toNat then
    (awaitFriend s.queues o.friendFailure c.proc.queueID).map fun (result, queues) =>
      let (_, errno, friend) := receiveMessage c.proc.errno result friendMex
      (s.withQueues queues).setNode i (c.goto (.befriend friend)
        { c.proc with errno := errno, friendList := c.proc.friendList ++ [friend] })
  else some (s.setNode i (c.goto .fetch (c.proc.withPool transactionPoolInit)))

def nodeStep (par : Parameters) (s : World) (i : ℕ) (o : NodeOutcome) : Option World :=
  (s.nodes[i]?).bind fun c =>
    match c.pc with
    | .queueInit =>
      some ((s.withQueues (s.queues ++ [create c.proc.myPID])).setNode i (c.goto .attach c.proc))
    | .attach => some (s.attachStep par i c)
    | .befriend friendMex => s.befriendStep par i c friendMex o
    | .fetch => s.fetchStep par i c o
    | .publish => s.publishStep i c
    | .process => s.processStep i c o

end Node

def childStep (s : World) (c : ℕ) (reading : Reading) : Option World :=
  (s.children[c]?).bind fun w =>
    (w.step s.ledger s.nodesPID reading).map fun (ledger, nodesPID, w') =>
      { s with
        ledger := ledger
        nodesPID := nodesPID
        children := s.children.set c w' }

section Listener

/-- The pids of the processes; fork gives none of them, and no other than a
positive one. -/
def pids (s : World) : List PidT :=
  [s.master, s.listenerPID, s.adopter] ++ s.users.map UserProc.myPID ++
    s.nodes.map (NodeCell.proc · |>.myPID)

def newNodes (s : World) (nodePID : PidT) : List NodeCell :=
  if nodePID = -1 then [] else [NodeCell.start nodePID s.listenerPID .queueInit]

def spawnStep (par : Parameters) (s : World) (fork : ForkResult) : Option World :=
  let spawned := spawnNode par fork none s.listener.overBuf s.nodesPID
  if spawned.nodePID ≠ -1 ∧ ¬ (0 < spawned.nodePID ∧ spawned.nodePID ∉ s.pids) then none
  else
    some { s with
      nodesPID := spawned.nodesPID
      nodes := s.nodes ++ s.newNodes spawned.nodePID
      listener := s.listener.spawned spawned }

def sendFriend (s : World) (failure : Option Errno) (queue : Int32) (friend : PidT) : World :=
  let result := msgsnd s.queues failure queue
  let s := s.setListener (s.listener.withErrno (result.errno s.listener.errno))
  match result with
  | .sent => s.withQueues (pushFriend s.queues queue friend)
  | .failed _ => s

def findQueueStep (s : World) (node : PidT) (friends : List PidT) : World :=
  match msgget s.queues node with
  | .found id => s.setListener ((s.listener.withErrno .zero).goto (.sendFriends id friends))
  | .failed e => s.setListener (s.listener.withErrno e)

def listenerStep (par : Parameters) (s : World) (o : ListenerOutcome) : Option World :=
  match s.listener.pc with
  | .receive =>
    (rcvTrans s.queues o.rcvFailure s.master).map fun (result, queues) =>
      { s.withQueues queues with
        nodesPID := prepareRow par s.nodesPID
        listener := s.listener.received result }
  | .spawn => s.spawnStep par o.fork
  | .makeFriends node =>
    (makeFriendList par o.rand s.nodesPID).map fun friends =>
      s.setListener (s.listener.goto (.findQueue node friends))
  | .findQueue node friends => some (s.findQueueStep node friends)
  | .sendFriends nodeQueue (friend :: rest) =>
    let s := s.sendFriend o.sndFailure nodeQueue friend
    some (s.setListener (s.listener.goto (.sendFriends nodeQueue rest)))
  | .sendFriends _ [] => some (s.setListener (s.listener.goto .makePrivate))
  | .makePrivate =>
    (makeFriendList par o.rand s.nodesPID).bind fun friends =>
      (s.listener.prepared par s.nodesPID friends).map s.setListener
  | .announce (friend :: rest) =>
    let s := s.sendFriend o.sndFailure (msgget s.queues friend).queue s.listener.newNode
    some (s.setListener (s.listener.goto (.announce rest)))
  | .announce [] => some (s.setListener (s.listener.goto .receive))
  | .exited => none

end Listener

def next (par : Parameters) (s : World) : Label → Option World
  | .user u a => s.userStep par u a
  | .node i o => s.nodeStep par i o
  | .child c reading => s.childStep c reading
  | .listener o => s.listenerStep par o

end World

/-- The master has forked its nodes, each has its queue with the friends that
the master sent, and nothing else has happened. -/
structure Initial (par : Parameters) (s : World) : Prop where
  keys : s.queues.map Queue.key = s.master :: s.nodes.map (NodeCell.proc · |>.myPID)
  fresh : ∀ key ∈ s.queues.map Queue.key,
    0 < key ∧ key ≠ s.listenerPID ∧ key ≠ s.adopter
  nodes : ∀ c ∈ s.nodes, c = NodeCell.start c.proc.myPID s.master .attach ∧
    c.proc.myPID ≠ s.master
  users : ∀ p ∈ s.users, p.myPID ≠ 0
  parent : s.master ≠ s.listenerPID
  trans : ∀ q ∈ s.queues, q.trans = []
  ledger : s.ledger = Ledger.zero
  children : s.children = []
  listener : s.listener.pc = .receive ∧ s.listener.overBuf = par.soNodesNum
  sent : s.sent = []

def machine (par : Parameters) : Machine World Label where
  start := Initial par
  next := World.next par

/-- A call that fails transfers nothing and sets one of the values of errno that
the wrappers of msg.c list. -/
def Reported (_ : World) : Label → Prop
  | .user _ a => ∀ e, a.failure = some e → e ∈ sendErrors
  | .node _ o => (∀ e, o.rcvFailure = some e → e ∈ receiveErrors) ∧
      (∀ e, o.friendFailure = some e → e ∈ receiveErrors) ∧
      ∀ e, o.sndFailure = some e → e ∈ sendErrors
  | .child _ _ => True
  | .listener o => (∀ e, o.rcvFailure = some e → e ∈ receiveErrors) ∧
      ∀ e, o.sndFailure = some e → e ∈ sendErrors

/-- No failed receive of a node is taken for a success. -/
def Received (_ : World) : Label → Prop
  | .node _ o => ∀ e, o.rcvFailure = some e → e ∈ receiveErrors
  | _ => True

section Steps

variable {par : Parameters} {s s' : World}

structure Same (s s' : World) : Prop where
  master : s'.master = s.master
  listenerPID : s'.listenerPID = s.listenerPID
  adopter : s'.adopter = s.adopter

/-- What a user's step does. -/
theorem userStep_cases {u : ℕ} {a : Order} (h : s.userStep par u a = some s') :
    ∃ p p' result, s.users[u]? = some p ∧ s' = s.sentBy u p' result ∧ p'.myPID = p.myPID ∧
      p'.transMsg.userTrans.sender = p.myPID ∧ p'.transMsg.userTrans.status = .pending ∧
      p'.transMsg.hops = MachineInt.intOfUnsigned par.soHops ∧
      p'.transMsg.userTrans ∉ s.sent := by
  obtain ⟨p, hp, hrest⟩ := Option.bind_eq_some_iff.mp h
  split at hrest
  · contradiction
  next hclock =>
    split at hrest
    · contradiction
    next nodePID _ =>
      dsimp only at hrest
      split at hrest
      · contradiction
      next r hsend =>
        obtain ⟨userPID, errno, queueID, -, rfl⟩ := sendFresh_cases hsend
        refine ⟨p, _, _, hp, (Option.some.inj hrest).symm, ?_, ?_, ?_, ?_, ?_⟩
        · rw [sendTransaction_myPID]
          rfl
        · rw [sendTransaction_transMsg]
          rfl
        · rw [sendTransaction_transMsg]
          rfl
        · rw [sendTransaction_transMsg]
          rfl
        · rw [sendTransaction_transMsg]
          exact fun hin => hclock ⟨_, hin, rfl, rfl⟩

theorem msgget_found {queues : List Queue} {key : PidT} {errno : Errno}
    (h : (msgget queues key).errno errno ≠ .ENOENT) : (msgget queues key).queue = key := by
  unfold msgget at h ⊢
  split
  · rfl
  next hnot =>
    rw [if_neg hnot] at h
    exact absurd rfl h

inductive NodeDid (par : Parameters) (s : World) (i : ℕ) (c : NodeCell) (o : NodeOutcome) :
    World → Prop
  | creates (hpc : c.pc = .queueInit) :
      NodeDid par s i c o
        ((s.withQueues (s.queues ++ [create c.proc.myPID])).setNode i (c.goto .attach c.proc))
  | searches (errno : Errno) (queueID : Int32) (hpc : c.pc = .attach) :
      NodeDid par s i c o
        (s.setNode i (c.goto .attach { c.proc with queueID := queueID, errno := errno }))
  | attaches (errno : Errno) (size : Int32) (hpc : c.pc = .attach) :
      NodeDid par s i c o (s.setNode i (c.goto (.befriend 0)
        { c.proc with queueID := c.proc.myPID, errno := errno, friendListSize := size }))
  | befriends (friendMex friend : PidT) (errno : Errno) (result : MsgrcvResult PidT)
      (queues : List Queue) (hpc : c.pc = .befriend friendMex)
      (hawait : awaitFriend s.queues o.friendFailure c.proc.queueID = some (result, queues)) :
      NodeDid par s i c o ((s.withQueues queues).setNode i (c.goto (.befriend friend)
        { c.proc with errno := errno, friendList := c.proc.friendList ++ [friend] }))
  | starts (friendMex : PidT) (hpc : c.pc = .befriend friendMex)
      (hlength : ¬ c.proc.friendList.length < par.soFriendsNum.toNat) :
      NodeDid par s i c o (s.setNode i (c.goto .fetch (c.proc.withPool transactionPoolInit)))
  | fetches (fetched : FetchOutcome) (queues : List Queue) (p : NodeProc) (e : FetchEvent)
      (hpc : c.pc = .fetch) (hreceive : s.receive par o c.proc = some (fetched, queues))
      (hfetch : fetchMessages par fetched (s.hopOutcome c o) c.proc = .ok (p, e)) :
      NodeDid par s i c o
        ((s.withQueues (World.deliver queues e)).setNode i (c.goto .publish p))
  | publishes (nodesPID : List Node) (p : NodeProc) (hpc : c.pc = .publish)
      (hsize : publishSize s.nodesPID c.proc = .ok (nodesPID, p)) :
      NodeDid par s i c o ({ s with nodesPID := nodesPID }.setNode i (c.goto .process p))
  | processes (p : NodeProc) (e : BlockEvent) (hpc : c.pc = .process)
      (hblock : processBlock o.fork c.proc = .ok (p, e)) :
      NodeDid par s i c o
        ({ s with children := s.children ++ World.childrenOf c.proc.myPID e }.setNode i
          (c.goto .fetch p))

theorem NodeDid.of_fetch {i : ℕ} {c : NodeCell} {o : NodeOutcome} (h : NodeDid par s i c o s')
    (hpc : c.pc = .fetch) :
    ∃ fetched queues p e, s.receive par o c.proc = some (fetched, queues) ∧
      fetchMessages par fetched (s.hopOutcome c o) c.proc = .ok (p, e) ∧
      s' = (s.withQueues (World.deliver queues e)).setNode i (c.goto .publish p) := by
  cases h with
  | fetches fetched queues p e _ hreceive hfetch =>
    exact ⟨fetched, queues, p, e, hreceive, hfetch, rfl⟩
  | _ => simp_all

theorem attachStep_did {i : ℕ} {c : NodeCell} {o : NodeOutcome} (hpc : c.pc = .attach) :
    NodeDid par s i c o (s.attachStep par i c) := by
  unfold World.attachStep
  dsimp only
  split
  next => exact .searches _ _ hpc
  next herrno =>
    rw [msgget_found herrno]
    exact .attaches _ _ hpc

theorem befriendStep_did {i : ℕ} {c : NodeCell} {o : NodeOutcome} {friendMex : PidT}
    (hpc : c.pc = .befriend friendMex) (h : s.befriendStep par i c friendMex o = some s') :
    NodeDid par s i c o s' := by
  unfold World.befriendStep at h
  split at h
  next =>
    obtain ⟨⟨result, queues⟩, hawait, rfl⟩ := Option.map_eq_some_iff.mp h
    exact .befriends friendMex _ _ result queues hpc hawait
  next hlength =>
    rw [← Option.some.inj h]
    exact .starts friendMex hpc hlength

theorem mem_childrenOf {myPID : PidT} {e : BlockEvent} {w : Writer}
    (hw : w ∈ World.childrenOf myPID e) : w.myPID = myPID ∧ w.pc = .building := by
  cases e with
  | forked pid batch =>
    rw [List.mem_singleton.mp hw]
    exact ⟨rfl, rfl⟩
  | tooFew => exact absurd hw List.not_mem_nil
  | forkFailed batch => exact absurd hw List.not_mem_nil

/-- A step of a node is one of the cases of NodeDid. -/
theorem nodeStep_did {i : ℕ} {o : NodeOutcome} (h : s.nodeStep par i o = some s') :
    ∃ c, s.nodes[i]? = some c ∧ NodeDid par s i c o s' := by
  obtain ⟨c, hc, hstep⟩ := Option.bind_eq_some_iff.mp h
  refine ⟨c, hc, ?_⟩
  split at hstep
  next hpc =>
    rw [← Option.some.inj hstep]
    exact .creates hpc
  next hpc =>
    rw [← Option.some.inj hstep]
    exact attachStep_did hpc
  next friendMex hpc => exact befriendStep_did hpc hstep
  next hpc =>
    obtain ⟨⟨fetched, queues⟩, hreceive, hrest⟩ := Option.bind_eq_some_iff.mp hstep
    dsimp only at hrest
    split at hrest
    · contradiction
    next p e hfetch =>
      rw [← Option.some.inj hrest]
      exact .fetches fetched queues p e hpc hreceive hfetch
  next hpc =>
    unfold World.publishStep at hstep
    split at hstep
    · contradiction
    next nodesPID p hsize =>
      rw [← Option.some.inj hstep]
      exact .publishes nodesPID p hpc hsize
  next hpc =>
    unfold World.processStep at hstep
    split at hstep
    · contradiction
    next p e hblock =>
      rw [← Option.some.inj hstep]
      exact .processes p e hpc hblock

theorem nodeStep_same {i : ℕ} {o : NodeOutcome} (h : s.nodeStep par i o = some s') :
    Same s s' ∧ s'.sent = s.sent := by
  obtain ⟨c, -, hdid⟩ := nodeStep_did h
  cases hdid <;> exact ⟨⟨rfl, rfl, rfl⟩, rfl⟩

structure Kept (s s' : World) : Prop where
  same : Same s s'
  users : s'.users = s.users
  children : s'.children = s.children
  ledger : s'.ledger = s.ledger
  sent : s'.sent = s.sent

inductive ListenerDid (s s' : World) : Prop
  | took (failure : Option Errno) (result : MsgrcvResult Message)
      (hqueues : rcvTrans s.queues failure s.master = some (result, s'.queues))
      (hnodes : s'.nodes = s.nodes)
  | spawned (nodePID : PidT) (hfork : nodePID ≠ -1 → 0 < nodePID ∧ nodePID ∉ s.pids)
      (hqueues : s'.queues = s.queues) (hnodes : s'.nodes = s.nodes ++ s.newNodes nodePID)
  | befriended (queue : Int32) (friend : PidT)
      (hqueues : s'.queues = pushFriend s.queues queue friend) (hnodes : s'.nodes = s.nodes)
  | idle (hqueues : s'.queues = s.queues) (hnodes : s'.nodes = s.nodes)

theorem setListener_cases (s : World) (p : Listener) :
    Kept s (s.setListener p) ∧ ListenerDid s (s.setListener p) :=
  ⟨⟨⟨rfl, rfl, rfl⟩, rfl, rfl, rfl, rfl⟩, .idle rfl rfl⟩

theorem sendFriend_cases (s : World) (failure : Option Errno) (queue : Int32) (friend : PidT)
    (pc : ListenerPc) :
    Kept s ((s.sendFriend failure queue friend).setListener
        ((s.sendFriend failure queue friend).listener.goto pc)) ∧
      ListenerDid s ((s.sendFriend failure queue friend).setListener
        ((s.sendFriend failure queue friend).listener.goto pc)) := by
  unfold World.sendFriend
  cases msgsnd s.queues failure queue with
  | sent => exact ⟨⟨⟨rfl, rfl, rfl⟩, rfl, rfl, rfl, rfl⟩, .befriended queue friend rfl rfl⟩
  | failed e => exact setListener_cases s _

/-- The listener changes no user, child or block, and the queues and nodes in one of four
ways. -/
theorem listenerStep_cases {o : ListenerOutcome} (h : s.listenerStep par o = some s') :
    Kept s s' ∧ ListenerDid s s' := by
  unfold World.listenerStep at h
  split at h
  · obtain ⟨⟨result, queues⟩, hrcv, rfl⟩ := Option.map_eq_some_iff.mp h
    exact ⟨⟨⟨rfl, rfl, rfl⟩, rfl, rfl, rfl, rfl⟩, .took _ result hrcv rfl⟩
  · simp only [World.spawnStep] at h
    split at h
    · contradiction
    next hfork =>
      rw [← Option.some.inj h]
      exact ⟨⟨⟨rfl, rfl, rfl⟩, rfl, rfl, rfl, rfl⟩,
        .spawned _ (fun hne => not_not.mp (not_and.mp hfork hne)) rfl rfl⟩
  · obtain ⟨friends, -, rfl⟩ := Option.map_eq_some_iff.mp h
    exact setListener_cases s _
  · rw [← Option.some.inj h]
    unfold World.findQueueStep
    split
    · exact setListener_cases s _
    · exact setListener_cases s _
  · rw [← Option.some.inj h]
    exact sendFriend_cases s _ _ _ _
  · rw [← Option.some.inj h]
    exact setListener_cases s _
  · obtain ⟨friends, -, hprepared⟩ := Option.bind_eq_some_iff.mp h
    obtain ⟨p, -, rfl⟩ := Option.map_eq_some_iff.mp hprepared
    exact setListener_cases s _
  · rw [← Option.some.inj h]
    exact sendFriend_cases s _ _ _ _
  · rw [← Option.some.inj h]
    exact setListener_cases s _
  · contradiction

end Steps

end SimulazioneTransazioni.Network

import SimulazioneTransazioni.Blocks
import SimulazioneTransazioni.Pool
import SimulazioneTransazioni.Msg
import SimulazioneTransazioni.Sem

/-!
The main loop of a node: fetch_messages, send_to_random_friend,
fill_block_transList and the fork of a block-processing child. The results of
the system calls and of rand are arguments. The functions also report where
each transaction went, which the C code does not record. A node that raises
SIGINT on itself runs its handler at once and exits.
-/
namespace SimulazioneTransazioni

namespace Nodes

open Blocks

inductive Halt
  | sigint
  | divisionByZero
  | outOfBounds
deriving DecidableEq

structure NodeProc where
  myPID : PidT
  queueID : Int32
  errno : Errno
  flag : Int32
  friendReceived : PidT
  fetchedMex : Message
  friendList : List PidT
  friendListSize : Int32
  transPool : Pool

namespace NodeProc

def withErrno (p : NodeProc) (errno : Errno) : NodeProc := { p with errno := errno }

def withPool (p : NodeProc) (transPool : Pool) : NodeProc := { p with transPool := transPool }

def withFlag (p : NodeProc) (flag : Int32) : NodeProc := { p with flag := flag }

/-- `add_to_pool(&transPool, m); transPool.size++;` -/
def put (p : NodeProc) (m : Message) : NodeProc :=
  p.withPool (addToPool p.transPool m).grow

@[simp] theorem withErrno_transPool (p : NodeProc) (errno : Errno) :
    (p.withErrno errno).transPool = p.transPool := rfl
@[simp] theorem withPool_transPool (p : NodeProc) (transPool : Pool) :
    (p.withPool transPool).transPool = transPool := rfl
@[simp] theorem put_transPool (p : NodeProc) (m : Message) :
    (p.put m).transPool = (addToPool p.transPool m).grow := rfl

end NodeProc

structure HopOutcome where
  rand : UInt32
  getppid : PidT
  msgget : PidT → MsggetResult
  msgsnd : Int32 → MsgsndResult

inductive HopEvent
  | idle
  | toMaster (queue : Int32) (m : Message) (sent : Bool)
  | toFriend (queue : Int32) (m : Message) (sent : Bool)
  | kept (m : Message)

/-- The hop of a message whose hops are exhausted: it goes to the queue of the
parent process, and is discarded when it cannot be queued there. -/
def hopToMaster (o : HopOutcome) (p : NodeProc) (tMex : Message) : NodeProc × HopEvent :=
  let found := o.msgget o.getppid
  let result := o.msgsnd found.queue
  (p.withErrno (result.errno (found.errno p.errno)),
    .toMaster found.queue { tMex with hops := 0 } (result = .sent))

/-- The send to a friend's queue, which puts the message back when it fails. -/
def sendHop (result : MsgsndResult) (queue : Int32) (p : NodeProc) (tMex : Message) :
    NodeProc × HopEvent :=
  match sendMessage result with
  | .SUCCESS => (p.withErrno (result.errno p.errno), .toFriend queue tMex (result = .sent))
  | .ERROR => ((p.withErrno (result.errno p.errno)).put tMex, .kept tMex)

def hopToFriend (o : HopOutcome) (p : NodeProc) (friend : PidT) (tMex : Message) :
    NodeProc × HopEvent :=
  let found := o.msgget friend
  let p := p.withErrno (found.errno p.errno)
  if found.queue = p.queueID then (p.put tMex, .kept tMex)
  else sendHop (o.msgsnd found.queue) found.queue p tMex

/-- The body after the head was removed; the choice of the friend comes first,
whether or not it is used. -/
def hop (par : Parameters) (o : HopOutcome) (p : NodeProc) (tMex : Message) :
    Except Halt (NodeProc × HopEvent) :=
  match rand o.rand 0 (par.soFriendsNum - 1) with
  | none => .error .divisionByZero
  | some i =>
    if tMex.hops ≤ 0 then .ok (hopToMaster o p tMex)
    else
      match p.friendList[i.toNat]? with
      | none => .error .outOfBounds
      | some friend =>
        if friend = 0 then .error .sigint
        else .ok (hopToFriend o p friend { tMex with hops := tMex.hops - 1 })

def sendToRandomFriend (par : Parameters) (o : HopOutcome) (p : NodeProc) :
    Except Halt (NodeProc × HopEvent) :=
  match removeFromPool p.transPool with
  | none => .ok (p, .idle)
  | some (tMex, rest) => hop par o (p.withPool rest.shrink) tMex

/-- The friend that send_to_random_friend draws for a message. -/
def drawnFriend (par : Parameters) (o : HopOutcome) (p : NodeProc) : Option PidT :=
  (rand o.rand 0 (par.soFriendsNum - 1)).bind fun i => p.friendList[i.toNat]?

/-- The test that leads fetch_messages to its receives. -/
def Receives (par : Parameters) (p : NodeProc) : Prop :=
  p.transPool.size < par.soTpSize ∧ p.flag < 20

instance (par : Parameters) (p : NodeProc) : Decidable (Receives par p) :=
  inferInstanceAs (Decidable (_ ∧ _))

structure FetchOutcome where
  rcvTrans : MsgrcvResult Message
  rcvFriend : MsgrcvResult PidT

inductive FetchEvent
  | received (m : Option Message)
  | hopped (e : HopEvent)

def receiveTransaction (o : FetchOutcome) (p : NodeProc) : NodeProc × Option Message :=
  match receiveMessage p.errno o.rcvTrans p.fetchedMex with
  | (.SUCCESS, errno, mex) =>
    (({ p with errno := errno, fetchedMex := mex } : NodeProc).put mex, some mex)
  | (.ERROR, errno, mex) => ({ p with errno := errno, fetchedMex := mex }, none)

def receiveFriend (o : FetchOutcome) (p : NodeProc) : NodeProc :=
  match receiveMessage p.errno o.rcvFriend p.friendReceived with
  | (.SUCCESS, errno, friend) =>
    { p with
      errno := errno
      friendReceived := friend
      friendList := p.friendList ++ [friend]
      friendListSize := p.friendListSize + 1 }
  | (.ERROR, errno, friend) => { p with errno := errno, friendReceived := friend }

def fetchMessages (par : Parameters) (of : FetchOutcome) (oh : HopOutcome) (p : NodeProc) :
    Except Halt (NodeProc × FetchEvent) :=
  if Receives par p then
    let (q, arrival) := receiveTransaction of p
    .ok ((receiveFriend of q).withFlag (p.flag + 1), .received arrival)
  else
    (sendToRandomFriend par oh p).map fun (p, e) => (p.withFlag 0, .hopped e)

def publishSize (nodesPID : List Node) (p : NodeProc) : Except Halt (List Node × NodeProc) :=
  match getPidNodeIndex nodesPID p.myPID with
  | none => .error .outOfBounds
  | some i =>
    .ok (nodesPID.modify i fun row => { row with tpSize := Int32.ofNat p.transPool.size.toNat },
      p.withErrno (Sem.lockErrno p.errno))

/-- Takes n transactions from the pool; an empty pool is fatal. -/
def fillBlockTransList : (n : ℕ) → Pool →
    Except Halt (List.Vector Transaction n × Pool)
  | 0, transPool => .ok (List.Vector.nil, transPool)
  | n + 1, transPool =>
    match removeFromPool transPool with
    | none => .error .sigint
    | some (tmp, rest) =>
      (fillBlockTransList n rest.shrink).map fun (batch, transPool) =>
        (tmp.userTrans ::ᵥ batch, transPool)

inductive ForkResult
  | parent (pid : PidT)
  | failed (e : Errno)

inductive BlockEvent
  | tooFew
  | forked (pid : PidT) (batch : Batch)
  | forkFailed (batch : Batch)

def processBlock (fork : ForkResult) (p : NodeProc) : Except Halt (NodeProc × BlockEvent) :=
  if soBlockSize - 1 ≤ p.transPool.size.toNat then
    (fillBlockTransList (soBlockSize - 1) p.transPool).map fun (batch, transPool) =>
      match fork with
      | .failed e => ((p.withPool transPool).withErrno e, .forkFailed batch)
      | .parent pid => (p.withPool transPool, .forked pid batch)
  else .ok (p, .tooFew)

/-- The rewards that the ledger pays to the node; every slot is read. -/
def accurateBalance (ledger : Ledger) (myPID : PidT) : Int32 :=
  ledger.toList.foldl
    (fun acc b => if b.first.receiver = myPID then acc + b.first.amount else acc) 0

/-- The SIGINT handler, after the queue is removed; it exits. -/
def nodeInterruptHandle (ledger : Ledger) (nodesPID : List Node) (myPID : PidT) :
    Except Halt (List Node) :=
  match getPidNodeIndex nodesPID myPID with
  | none => .error .outOfBounds
  | some i =>
    .ok (nodesPID.modify i fun row =>
      { row with balance := MachineInt.unsignedLongOfInt (accurateBalance ledger myPID) })

section Steps

variable {par : Parameters} {p p' : NodeProc}

inductive Hopped (o : HopOutcome) (p : NodeProc) : NodeProc → HopEvent → Prop
  | idle (hempty : removeFromPool p.transPool = none) : Hopped o p p .idle
  | toMaster (m : Message) (rest : Pool) (errno : Errno)
      (hrem : removeFromPool p.transPool = some (m, rest)) (hhops : m.hops ≤ 0) :
      Hopped o p ((p.withPool rest.shrink).withErrno errno)
        (.toMaster (o.msgget o.getppid).queue { m with hops := 0 }
          (o.msgsnd (o.msgget o.getppid).queue = .sent))
  | toFriend (m : Message) (rest : Pool) (errno : Errno) (queue : Int32)
      (hrem : removeFromPool p.transPool = some (m, rest)) (hhops : 0 < m.hops)
      (hother : queue ≠ p.queueID) (hsend : sendMessage (o.msgsnd queue) = .SUCCESS) :
      Hopped o p ((p.withPool rest.shrink).withErrno errno)
        (.toFriend queue { m with hops := m.hops - 1 } (o.msgsnd queue = .sent))
  | kept (m : Message) (rest : Pool) (errno : Errno) (queue : Int32)
      (hrem : removeFromPool p.transPool = some (m, rest)) (hhops : 0 < m.hops)
      (hback : queue = p.queueID ∨ sendMessage (o.msgsnd queue) = .ERROR) :
      Hopped o p (((p.withPool rest.shrink).withErrno errno).put { m with hops := m.hops - 1 })
        (.kept { m with hops := m.hops - 1 })

theorem hopToFriend_hopped {o : HopOutcome} {m : Message} {rest : Pool} {e : HopEvent}
    (friend : PidT) (hrem : removeFromPool p.transPool = some (m, rest)) (hhops : 0 < m.hops)
    (h : hopToFriend o (p.withPool rest.shrink) friend { m with hops := m.hops - 1 } = (p', e)) :
    Hopped o p p' e := by
  simp only [hopToFriend, sendHop] at h
  split at h
  next hself =>
    cases h
    exact .kept m rest _ _ hrem hhops (Or.inl hself)
  next hother =>
    split at h
    next hsend =>
      cases h
      exact .toFriend m rest _ _ hrem hhops hother hsend
    next hfail =>
      cases h
      exact .kept m rest _ _ hrem hhops (Or.inr hfail)

/-- A call of send_to_random_friend is one of the cases of Hopped. -/
theorem sendToRandomFriend_hopped {o : HopOutcome} {e : HopEvent}
    (h : sendToRandomFriend par o p = .ok (p', e)) : Hopped o p p' e := by
  unfold sendToRandomFriend at h
  split at h
  next hempty =>
    cases h
    exact .idle hempty
  next m rest hrem =>
    unfold hop at h
    split at h
    · contradiction
    · split at h
      next hspent =>
        cases h
        exact .toMaster m rest _ hrem hspent
      next hleft =>
        split at h
        · contradiction
        next friend _ =>
          split at h
          · contradiction
          · exact hopToFriend_hopped friend hrem (Int32.not_le.mp hleft) (Except.ok.inj h)

inductive Fetched (par : Parameters) (of : FetchOutcome) (oh : HopOutcome) (p : NodeProc) :
    NodeProc → FetchEvent → Prop
  | received (hroom : Receives par p) :
      Fetched par of oh p
        ((receiveFriend of (receiveTransaction of p).1).withFlag (p.flag + 1))
        (.received (receiveTransaction of p).2)
  | hopped (q : NodeProc) (e : HopEvent)
      (hfull : ¬ Receives par p) (hhop : Hopped oh p q e) :
      Fetched par of oh p (q.withFlag 0) (.hopped e)

theorem fetchMessages_fetched {of : FetchOutcome} {oh : HopOutcome} {e : FetchEvent}
    (h : fetchMessages par of oh p = .ok (p', e)) : Fetched par of oh p p' e := by
  unfold fetchMessages at h
  split at h
  next hroom =>
    cases h
    exact .received hroom
  next hfull =>
    cases hsend : sendToRandomFriend par oh p with
    | error halt =>
      rw [hsend] at h
      contradiction
    | ok r =>
      rw [hsend] at h
      cases h
      exact .hopped r.1 r.2 hfull (sendToRandomFriend_hopped hsend)

theorem publishSize_ok {nodesPID nodesPID' : List Node}
    (h : publishSize nodesPID p = .ok (nodesPID', p')) :
    p' = p.withErrno (Sem.lockErrno p.errno) ∧ ∃ i, getPidNodeIndex nodesPID p.myPID = some i ∧
      nodesPID' = nodesPID.modify i fun row =>
        { row with tpSize := Int32.ofNat p.transPool.size.toNat } := by
  unfold publishSize at h
  split at h
  · contradiction
  next i hi =>
    cases h
    exact ⟨rfl, i, hi, rfl⟩

inductive Processed (p : NodeProc) : ForkResult → NodeProc → BlockEvent → Prop
  | tooFew (fork : ForkResult) (hfew : p.transPool.size.toNat < soBlockSize - 1) :
      Processed p fork p .tooFew
  | forked (pid : PidT) (batch : Batch) (pool : Pool)
      (hfill : fillBlockTransList (soBlockSize - 1) p.transPool = .ok (batch, pool)) :
      Processed p (.parent pid) (p.withPool pool) (.forked pid batch)
  | forkFailed (errno : Errno) (batch : Batch) (pool : Pool)
      (hfill : fillBlockTransList (soBlockSize - 1) p.transPool = .ok (batch, pool)) :
      Processed p (.failed errno) ((p.withPool pool).withErrno errno) (.forkFailed batch)

/-- The second half of the body is one of the cases of Processed. -/
theorem processBlock_processed {fork : ForkResult} {e : BlockEvent}
    (h : processBlock fork p = .ok (p', e)) : Processed p fork p' e := by
  unfold processBlock at h
  split at h
  · cases hfill : fillBlockTransList (soBlockSize - 1) p.transPool with
    | error halt =>
      rw [hfill] at h
      contradiction
    | ok r =>
      rw [hfill] at h
      cases fork with
      | parent pid =>
        cases h
        exact .forked pid r.1 r.2 hfill
      | failed errno =>
        cases h
        exact .forkFailed errno r.1 r.2 hfill
  next hfew =>
    cases h
    exact .tooFew fork (by omega)

end Steps
end Nodes
end SimulazioneTransazioni

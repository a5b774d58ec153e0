import SimulazioneTransazioni.LkList
import SimulazioneTransazioni.Msg
import SimulazioneTransazioni.Sem
import SimulazioneTransazioni.Library.MachineInt
import SimulazioneTransazioni.Library.Table

/-!
The functions of users.c. The ledger and the two tables are shared memory and
stand as arguments; the clock, rand and the queues are in the argument Attempt.
A user ends in the overflow branch of get_balance, whose print_outgoing_pool
writes to the stream at address 2, or by an index of -1 into usersPID, or by
the SIGINT it raises on itself, whose handler runs at once.
-/
namespace SimulazioneTransazioni

namespace Users

open MachineInt

/-- How a function of users.c can fail to return. The last one is a loop that
draws again on rows that do not qualify, when the draws given are used up. -/
inductive Fault
  | overflow
  | outOfBound
  | badIndex
  | divisionByZero
  | drawing
deriving DecidableEq

structure UserProc where
  myPID : PidT
  queueID : Int32
  errno : Errno
  currBalance : UInt32
  outGoingTransactions : List Transaction
  transMsg : Message
deriving DecidableEq

namespace UserProc

def withErrno (p : UserProc) (errno : Errno) : UserProc := { p with errno := errno }

def withBalance (p : UserProc) (balance : UInt32) : UserProc := { p with currBalance := balance }

def withOutgoing (p : UserProc) (out : List Transaction) : UserProc :=
  { p with outGoingTransactions := out }

@[simp] theorem withErrno_errno (p : UserProc) (errno : Errno) :
    (p.withErrno errno).errno = errno := rfl
@[simp] theorem withErrno_myPID (p : UserProc) (errno : Errno) :
    (p.withErrno errno).myPID = p.myPID := rfl

end UserProc

def getPidUserIndex (usersPID : List User) (pidToSearch : PidT) : Option ℕ :=
  Table.indexOf User.pid usersPID pidToSearch

def modifyRow (usersPID : List User) (p : UserProc) (f : User → User) :
    Except Fault (List User × UserProc) :=
  match getPidUserIndex usersPID p.myPID with
  | none => .error .badIndex
  | some i => .ok (usersPID.modify i f, p.withErrno (Sem.lockErrno p.errno))

def updateStatus (statusToSet : UserStatus) (usersPID : List User) (p : UserProc) :
    Except Fault (List User × UserProc) :=
  modifyRow usersPID p fun row => { row with status := statusToSet }

def updateBalance (tempBalance : UInt32) (usersPID : List User) (p : UserProc) :
    Except Fault (List User × UserProc) :=
  modifyRow usersPID (p.withBalance tempBalance) fun row => { row with balance := tempBalance }

def scanEntry (myPID : PidT) (acc : Int64 × List Transaction) (t : Transaction) :
    Int64 × List Transaction :=
  if t.sender = myPID then
    (acc.1 - (t.amount + t.reward).toInt64, findAndRemove acc.2 t)
  else if t.receiver = myPID then (acc.1 + t.amount.toInt64, acc.2)
  else acc

def blockFlag (b : Block) : Int64 := b.first.timestamp.tvNsec + b.first.timestamp.tvSec

def scanLedger (myPID : PidT) :
    Int64 × List Transaction → List Block → Int64 × List Transaction
  | acc, [] => acc
  | acc, b :: rest =>
    if blockFlag b = 0 then acc
    else scanLedger myPID (b.entries.foldl (scanEntry myPID) acc) rest

def subtractOutgoing (accumulate : Int64) (out : List Transaction) : Int64 :=
  out.foldl (fun accumulate t => accumulate - (t.amount + t.reward).toInt64) accumulate

def recount (myPID : PidT) (ledger : Ledger) (out : List Transaction) :
    Int64 × List Transaction :=
  let scanned := scanLedger myPID (0, out) ledger.toList
  (subtractOutgoing scanned.1 scanned.2, scanned.2)

/-- The test of ERANGE sees the errno of the semaphore calls before it. -/
def getBalance (par : Parameters) (ledger : Ledger) (usersPID : List User) (p : UserProc) :
    Except Fault (List User × UserProc) :=
  let counted := recount p.myPID ledger p.outGoingTransactions
  let p := (p.withOutgoing counted.2).withErrno (Sem.lockErrno p.errno)
  if longOfUnsigned par.soBudgetInit < counted.1 * (-1) then .error .overflow
  else if p.errno = .ERANGE then .error .outOfBound
  else
    updateBalance (unsignedOfLong (longOfUnsigned par.soBudgetInit + counted.1)) usersPID p

structure Attempt where
  userDraws : List UInt32
  nodeDraws : List UInt32
  rand : UInt32
  queues : List MsggetResult
  clock : Timespec
  msgsnd : MsgsndResult

def getRandomUserPID (par : Parameters) (usersPID : List User) (myPID : PidT) :
    List UInt32 → Except Fault PidT
  | [] => .error .drawing
  | r :: rest =>
    match rand r 0 (par.soUserNum - 1) with
    | none => .error .divisionByZero
    | some index =>
      match usersPID[index.toNat]? with
      | none => .error .badIndex
      | some row =>
        if (row.status ≠ .dead ∧ row.pid ≠ myPID) ∧ row.pid ≠ 0 then .ok row.pid
        else getRandomUserPID par usersPID myPID rest

def getRandomNodePID (par : Parameters) (nodesPID : List Node) :
    List UInt32 → Except Fault PidT
  | [] => .error .drawing
  | r :: rest =>
    match rand r 0 (par.soNodesNum * 2 - 1) with
    | none => .error .divisionByZero
    | some index =>
      match nodesPID[index.toNat]? with
      | none => .error .badIndex
      | some row =>
        if row.status = .available ∧ row.pid ≠ 0 then .ok row.pid
        else getRandomNodePID par nodesPID rest

/-- The macro REWARD(amount, reward): the product is unsigned, the quotient by
100.0 is rounded up. -/
def reward (amount : UInt32) (soReward : Int8) : UInt32 :=
  UInt32.ofNat (((UInt32.ofInt soReward.toInt * amount).toNat + 99) / 100)

/-- Calls msgget until errno is not ENOENT. -/
def queueToPid : List MsggetResult → UserProc → Except Fault UserProc
  | [], _ => .error .drawing
  | r :: rest, p =>
    if r.errno .zero = .ENOENT then queueToPid rest p
    else .ok { p with errno := r.errno .zero, queueID := r.queue }

def transactionInit (par : Parameters) (clock : Timespec) (userPID : PidT)
    (amount reward : Int32) (p : UserProc) : UserProc :=
  { p with
    transMsg :=
      { hops := intOfUnsigned par.soHops
        userTrans :=
          { timestamp := clock
            sender := p.myPID
            receiver := userPID
            amount := amount
            reward := reward
            status := .pending } } }

def sendTransaction (result : MsgsndResult) (p : UserProc) : ReturnCode × UserProc :=
  match sendMessage result with
  | .SUCCESS =>
    let sent := p.transMsg.userTrans
    (.SUCCESS,
      { p with
        errno := result.errno p.errno
        currBalance := p.currBalance - unsignedOfInt (sent.amount + sent.reward)
        outGoingTransactions := push p.outGoingTransactions sent })
  | .ERROR => (.ERROR, p.withErrno (result.errno p.errno))

theorem getRandomUserPID_ne {par : Parameters} {usersPID : List User} {myPID userPID : PidT}
    {draws : List UInt32} (h : getRandomUserPID par usersPID myPID draws = .ok userPID) :
    userPID ≠ myPID := by
  induction draws with
  | nil => contradiction
  | cons r rest ih =>
    unfold getRandomUserPID at h
    split at h
    · contradiction
    · split at h
      · contradiction
      next row _ =>
        split at h
        next hrow =>
          rw [← Except.ok.inj h]
          exact hrow.1.2
        next => exact ih h

theorem queueToPid_ok {results : List MsggetResult} {p p' : UserProc}
    (h : queueToPid results p = .ok p') :
    ∃ errno queueID, p' = { p with errno := errno, queueID := queueID } := by
  induction results with
  | nil => contradiction
  | cons r rest ih =>
    unfold queueToPid at h
    split at h
    · exact ih h
    · exact ⟨_, _, (Except.ok.inj h).symm⟩

/-- One transaction of given amount and reward: the receiver is drawn, the
queue is found, and the message is built and sent. -/
def sendFresh (par : Parameters) (usersPID : List User) (a : Attempt) (amount reward : Int32)
    (p : UserProc) : Except Fault (ReturnCode × UserProc) := do
  let userPID ← getRandomUserPID par usersPID p.myPID a.userDraws
  let p ← queueToPid a.queues p
  return sendTransaction a.msgsnd (transactionInit par a.clock userPID amount reward p)

theorem sendFresh_cases {par : Parameters} {usersPID : List User} {a : Attempt}
    {amount reward : Int32} {p : UserProc} {r : ReturnCode × UserProc}
    (h : sendFresh par usersPID a amount reward p = .ok r) :
    ∃ userPID errno queueID, userPID ≠ p.myPID ∧ r = sendTransaction a.msgsnd
      (transactionInit par a.clock userPID amount reward
        { p with errno := errno, queueID := queueID }) := by
  unfold sendFresh at h
  cases hdraw : getRandomUserPID par usersPID p.myPID a.userDraws with
  | error fault => simp [hdraw, bind, Except.bind] at h
  | ok userPID =>
    cases hqueue : queueToPid a.queues p with
    | error fault => simp [hdraw, hqueue, bind, Except.bind] at h
    | ok q =>
      obtain ⟨errno, queueID, rfl⟩ := queueToPid_ok hqueue
      simp only [hdraw, hqueue, bind, Except.bind, pure, Except.pure, Except.ok.injEq] at h
      exact ⟨userPID, errno, queueID, getRandomUserPID_ne hdraw, h.symm⟩

@[simp] theorem sendTransaction_myPID (result : MsgsndResult) (p : UserProc) :
    (sendTransaction result p).2.myPID = p.myPID := by
  unfold sendTransaction
  split <;> rfl

@[simp] theorem sendTransaction_transMsg (result : MsgsndResult) (p : UserProc) :
    (sendTransaction result p).2.transMsg = p.transMsg := by
  unfold sendTransaction
  split <;> rfl

/-- What a successful send has done. -/
theorem sendFresh_ok {par : Parameters} {usersPID : List User} {a : Attempt}
    {amount reward : Int32} {p p' : UserProc}
    (h : sendFresh par usersPID a amount reward p = .ok (.SUCCESS, p')) :
    p'.myPID = p.myPID ∧ p'.transMsg.userTrans.timestamp = a.clock ∧
      p'.transMsg.userTrans.sender = p.myPID ∧ p'.transMsg.userTrans.receiver ≠ p.myPID ∧
      p'.transMsg.userTrans.status = .pending ∧
      p'.outGoingTransactions = push p.outGoingTransactions p'.transMsg.userTrans ∧
      p'.currBalance = p.currBalance -
        unsignedOfInt (p'.transMsg.userTrans.amount + p'.transMsg.userTrans.reward) := by
  obtain ⟨userPID, errno, queueID, hne, hsend⟩ := sendFresh_cases h
  unfold sendTransaction at hsend
  split at hsend
  · simp only [Prod.mk.injEq, true_and] at hsend
    subst hsend
    exact ⟨rfl, rfl, rfl, hne, rfl, rfl, rfl⟩
  · simp at hsend

theorem sendFresh_myPID {par : Parameters} {usersPID : List User} {a : Attempt}
    {amount reward : Int32} {p p' : UserProc} {code : ReturnCode}
    (h : sendFresh par usersPID a amount reward p = .ok (code, p')) : p'.myPID = p.myPID := by
  obtain ⟨userPID, errno, queueID, -, hsend⟩ := sendFresh_cases h
  have hpid := congrArg (fun r => r.2.myPID) hsend
  exact hpid.trans (sendTransaction_myPID _ _)

/-- The end of user_interrupt_handle: the transactions still outgoing are
added back to the row. -/
def refund (out : List Transaction) (row : User) : User :=
  { row with
    balance := out.foldl
      (fun balance t => balance + unsignedOfInt (t.amount + t.reward)) row.balance }

def markFinal (usersPID : List User) (p : UserProc) : Except Fault (List User × UserProc) :=
  match (getPidUserIndex usersPID p.myPID).bind fun i => usersPID[i]? with
  | none => .error .badIndex
  | some row =>
    if row.status = .dead then .ok (usersPID, p)
    else if 2 ≤ row.balance then updateStatus .alive usersPID p
    else updateStatus .broke usersPID p

/-- The SIGINT handler, which exits. -/
def userInterruptHandle (par : Parameters) (ledger : Ledger) (usersPID : List User)
    (p : UserProc) : Except Fault (List User) := do
  let (usersPID, p) ← getBalance par ledger usersPID p
  let (usersPID, p) ← markFinal usersPID p
  let (usersPID, _) ← modifyRow usersPID p (refund p.outGoingTransactions)
  return usersPID

def maxRetryReached (par : Parameters) (ledger : Ledger) (usersPID : List User)
    (p : UserProc) : Except Fault (List User) :=
  updateStatus .dead usersPID p >>= fun r => userInterruptHandle par ledger r.1 r.2

/-- The draws of one transaction: the receiver, the node, and the sum to split
into amount and reward. -/
def drawPayment (par : Parameters) (usersPID : List User) (nodesPID : List Node) (a : Attempt)
    (p : UserProc) : Except Fault (PidT × UInt32) := do
  let userPID ← getRandomUserPID par usersPID p.myPID a.userDraws
  let _ ← getRandomNodePID par nodesPID a.nodeDraws
  match rand a.rand 2 p.currBalance with
  | none => .error .divisionByZero
  | some amount => return (userPID, amount)

/-- The part of user_transactions_handle after the test of currBalance, up to
the result of send_transaction. -/
def handlePayment (par : Parameters) (usersPID : List User) (nodesPID : List Node)
    (a : Attempt) (p : UserProc) : Except Fault (ReturnCode × List User × UserProc) := do
  let (userPID, amount) ← drawPayment par usersPID nodesPID a p
  let reward := reward amount par.soReward
  let (usersPID, p) ← updateStatus .alive usersPID p
  let p ← queueToPid a.queues p
  let (code, p) := sendTransaction a.msgsnd
    (transactionInit par a.clock userPID (intOfUnsigned (amount - reward))
      (intOfUnsigned reward) p)
  return (code, usersPID, p)

theorem getRandomUserPID_error {par : Parameters} {usersPID : List User} {myPID : PidT}
    {draws : List UInt32} {f : Fault} (h : getRandomUserPID par usersPID myPID draws = .error f) :
    f ≠ .overflow := by
  induction draws with
  | nil =>
    cases h
    simp
  | cons r rest ih =>
    unfold getRandomUserPID at h
    split at h
    · cases h
      simp
    · split at h
      · cases h
        simp
      · split at h
        · contradiction
        · exact ih h

theorem getRandomNodePID_error {par : Parameters} {nodesPID : List Node}
    {draws : List UInt32} {f : Fault} (h : getRandomNodePID par nodesPID draws = .error f) :
    f ≠ .overflow := by
  induction draws with
  | nil =>
    cases h
    simp
  | cons r rest ih =>
    unfold getRandomNodePID at h
    split at h
    · cases h
      simp
    · split at h
      · cases h
        simp
      · split at h
        · contradiction
        · exact ih h

theorem queueToPid_error {results : List MsggetResult} {p : UserProc} {f : Fault}
    (h : queueToPid results p = .error f) : f ≠ .overflow := by
  induction results with
  | nil =>
    cases h
    simp
  | cons r rest ih =>
    unfold queueToPid at h
    split at h
    · exact ih h
    · contradiction

section Draws

variable {par : Parameters} {usersPID : List User} {nodesPID : List Node} {a : Attempt}
  {p : UserProc}

theorem drawPayment_ok {userPID : PidT} {amount : UInt32}
    (h : drawPayment par usersPID nodesPID a p = .ok (userPID, amount)) :
    userPID ≠ p.myPID ∧ rand a.rand 2 p.currBalance = some amount := by
  unfold drawPayment at h
  cases huser : getRandomUserPID par usersPID p.myPID a.userDraws with
  | error f => simp [huser, bind, Except.bind] at h
  | ok u =>
    cases hnode : getRandomNodePID par nodesPID a.nodeDraws with
    | error f => simp [huser, hnode, bind, Except.bind] at h
    | ok n =>
      cases hrand : rand a.rand 2 p.currBalance with
      | none => simp [huser, hnode, hrand, bind, Except.bind] at h
      | some v =>
        simp only [huser, hnode, hrand, bind, Except.bind, pure, Except.pure, Except.ok.injEq,
          Prod.mk.injEq] at h
        rw [← h.1, ← h.2]
        exact ⟨getRandomUserPID_ne huser, rfl⟩

/-- The draws look at the pids and the statuses of the table, and at the balance. -/
theorem drawPayment_congr {usersPID' : List User} {q : UserProc}
    (hrows : usersPID'.map (fun row => (row.pid, row.status)) =
      usersPID.map fun row => (row.pid, row.status)) (hpid : q.myPID = p.myPID)
    (hbalance : q.currBalance = p.currBalance) :
    drawPayment par usersPID' nodesPID a q = drawPayment par usersPID nodesPID a p := by
  have hreceiver : ∀ draws, getRandomUserPID par usersPID' p.myPID draws =
      getRandomUserPID par usersPID p.myPID draws := by
    intro draws
    induction draws with
    | nil => rfl
    | cons r rest ih =>
      unfold getRandomUserPID
      cases rand r 0 (par.soUserNum - 1) with
      | none => rfl
      | some index =>
        have hrow := congrArg (·[index.toNat]?) hrows
        simp only [List.getElem?_map] at hrow
        cases hold : usersPID[index.toNat]? with
        | none =>
          rw [hold, Option.map_none, Option.map_eq_none_iff] at hrow
          simp only [hold, hrow]
        | some row =>
          rw [hold, Option.map_some] at hrow
          obtain ⟨row', hnew, hsame⟩ := Option.map_eq_some_iff.mp hrow
          obtain ⟨hkey, hstatus⟩ := Prod.mk.inj hsame
          simp only [hold, hnew, hkey, hstatus, ih]
  unfold drawPayment
  rw [hpid, hbalance, hreceiver]

theorem drawPayment_error {f : Fault}
    (h : drawPayment par usersPID nodesPID a p = .error f) : f ≠ .overflow := by
  unfold drawPayment at h
  cases huser : getRandomUserPID par usersPID p.myPID a.userDraws with
  | error g =>
    simp only [huser, bind, Except.bind, Except.error.injEq] at h
    rw [← h]
    exact getRandomUserPID_error huser
  | ok u =>
    cases hnode : getRandomNodePID par nodesPID a.nodeDraws with
    | error g =>
      simp only [huser, hnode, bind, Except.bind, Except.error.injEq] at h
      rw [← h]
      exact getRandomNodePID_error hnode
    | ok n =>
      cases hrand : rand a.rand 2 p.currBalance with
      | none =>
        simp only [huser, hnode, hrand, bind, Except.bind, Except.error.injEq] at h
        rw [← h]
        simp
      | some v => simp [huser, hnode, hrand, bind, Except.bind, pure, Except.pure] at h

/-- What the handler has done when its send returns. -/
theorem handlePayment_cases (par : Parameters) (nodesPID : List Node) (a : Attempt)
    {usersPID' : List User} {q : UserProc}
    (hstatus : updateStatus .alive usersPID p = .ok (usersPID', q)) :
    (∃ f, handlePayment par usersPID nodesPID a p = .error f ∧ f ≠ .overflow) ∨
    ∃ userPID amount errno queueID,
      drawPayment par usersPID nodesPID a p = .ok (userPID, amount) ∧
      handlePayment par usersPID nodesPID a p =
        .ok (((sendTransaction a.msgsnd (transactionInit par a.clock userPID
          (intOfUnsigned (amount - reward amount par.soReward))
          (intOfUnsigned (reward amount par.soReward))
          { q with errno := errno, queueID := queueID })).1, usersPID',
        (sendTransaction a.msgsnd (transactionInit par a.clock userPID
          (intOfUnsigned (amount - reward amount par.soReward))
          (intOfUnsigned (reward amount par.soReward))
          { q with errno := errno, queueID := queueID })).2)) := by
  unfold handlePayment
  cases hdraw : drawPayment par usersPID nodesPID a p with
  | error f => exact Or.inl ⟨f, rfl, drawPayment_error hdraw⟩
  | ok r =>
    obtain ⟨userPID, amount⟩ := r
    cases hqueue : queueToPid a.queues q with
    | error f =>
      refine Or.inl ⟨f, ?_, queueToPid_error hqueue⟩
      simp only [bind, Except.bind, hstatus, hqueue]
    | ok q' =>
      obtain ⟨errno, queueID, rfl⟩ := queueToPid_ok hqueue
      refine Or.inr ⟨userPID, amount, errno, queueID, rfl, ?_⟩
      simp only [bind, Except.bind, pure, Except.pure, hstatus, hqueue]

end Draws
end Users
end SimulazioneTransazioni

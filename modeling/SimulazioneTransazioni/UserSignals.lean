import SimulazioneTransazioni.Draws
import SimulazioneTransazioni.Interrupts
import SimulazioneTransazioni.Outgoing
import SimulazioneTransazioni.Library.Machine

/-!
The main loop of a user with SIGUSR1. The loop is cut into its steps and the
handler runs as a whole between any two of them, on the same globals. The state
carries what was sent and, for every send_transaction, the message that the
attempt had built and the message it transmitted. A user stays within its
balance as long as what the handler sends leaves enough for the payment that
the loop has tested or drawn, and transmits what it built as long as the
handler sends nothing after transaction_init.
-/
namespace SimulazioneTransazioni.UserSignals

open Users Balance Outgoing Interrupts LkList MachineInt

/-- The next step of the loop, with the local variables it uses. -/
inductive Pc
  | top
  | balanced
  | tested
  | drawn (userPID : PidT) (amount : UInt32)
  | split (userPID : PidT) (amount reward : UInt32)
  | queued (userPID : PidT) (amount reward : UInt32)
  | built (m : Message)
  | exited
  | halted (f : Fault)

structure State where
  usersPID : List User
  nodesPID : List Node
  chain : Chain
  proc : UserProc
  retry : UInt32
  pc : Pc
  sent : List Transaction
  attempts : List (Message × Message)

inductive Label
  | main (a : Attempt)
  | sigusr1 (a : Attempt)
  | grow (b : Block)

namespace State

def goto (s : State) (pc : Pc) : State := { s with pc := pc }

def write (s : State) (usersPID : List User) (p : UserProc) : State :=
  { s with usersPID := usersPID, proc := p }

def settle (s : State) (pc : Pc) : Except Fault (List User × UserProc) → State
  | .ok (usersPID, p) => (s.write usersPID p).goto pc
  | .error f => s.goto (.halted f)

def afterDraw (s : State) : Except Fault (PidT × UInt32) → State
  | .ok (userPID, amount) => s.goto (.drawn userPID amount)
  | .error f => s.goto (.halted f)

def afterQueue (s : State) (userPID : PidT) (amount reward : UInt32) :
    Except Fault UserProc → State
  | .ok p => (s.write s.usersPID p).goto (.queued userPID amount reward)
  | .error f => s.goto (.halted f)

def afterInit (s : State) (p : UserProc) : State :=
  (s.write s.usersPID p).goto (.built p.transMsg)

def record (s : State) (m : Message) (code : ReturnCode) (p : UserProc) : State :=
  { s with
    proc := p
    sent := if code = .SUCCESS then push s.sent p.transMsg.userTrans else s.sent
    attempts := s.attempts ++ [(m, p.transMsg)] }

def afterExit (s : State) : Except Fault (List User) → State
  | .ok usersPID => (s.write usersPID s.proc).goto .exited
  | .error f => s.goto (.halted f)

def checkRetry (par : Parameters) (s : State) (retry : UInt32) (pc : Pc) : State :=
  if retry = 0 then s.afterExit (maxRetryReached par s.chain.toLedger s.usersPID s.proc)
  else s.goto pc

def retryAfter (par : Parameters) (retry : UInt32) : ReturnCode → UInt32
  | .SUCCESS => par.soRetry
  | .ERROR => retry - 1

def withRetry (s : State) (retry : UInt32) : State := { s with retry := retry }

def afterSend (par : Parameters) (s : State) (m : Message) (r : ReturnCode × UserProc) :
    State :=
  ((s.record m r.1 r.2).withRetry (retryAfter par s.retry r.1)).checkRetry par
    (retryAfter par s.retry r.1) .top

def main (par : Parameters) (s : State) (a : Attempt) : Option State :=
  match s.pc with
  | .top => some (s.settle .balanced (getBalance par s.chain.toLedger s.usersPID s.proc))
  | .balanced =>
    if 2 ≤ s.proc.currBalance then
      some (s.settle .tested (updateStatus .alive s.usersPID s.proc))
    else some (s.settle .top (updateStatus .broke s.usersPID s.proc))
  | .tested => some (s.afterDraw (drawPayment par s.usersPID s.nodesPID a s.proc))
  | .drawn userPID amount =>
    some (s.goto (.split userPID (amount - reward amount par.soReward)
      (reward amount par.soReward)))
  | .split userPID amount reward =>
    some (s.afterQueue userPID amount reward (queueToPid a.queues s.proc))
  | .queued userPID amount reward =>
    some (s.afterInit (transactionInit par a.clock userPID (intOfUnsigned amount)
      (intOfUnsigned reward) s.proc))
  | .built m => some (s.afterSend par m (sendTransaction a.msgsnd s.proc))
  | .exited => none
  | .halted _ => none

def afterHandled (par : Parameters) (s : State) :
    Except Fault (ReturnCode × List User × UserProc) → State
  | .ok (code, usersPID, p) =>
    ((s.write usersPID p).record p.transMsg code p).checkRetry par
      (retryAfter par par.soRetry code) s.pc
  | .error f => s.goto (.halted f)

def handleTest (par : Parameters) (a : Attempt) (s : State) : State :=
  if 2 ≤ s.proc.currBalance then
    s.afterHandled par (handlePayment par s.usersPID s.nodesPID a s.proc)
  else s

def afterHandlerBalance (par : Parameters) (s : State) (a : Attempt) :
    Except Fault (List User × UserProc) → State
  | .ok (usersPID, p) => (s.write usersPID p).handleTest par a
  | .error f => s.goto (.halted f)

/-- The handler of SIGUSR1, while the process is there to run it. -/
def userTransactionsHandle (par : Parameters) (s : State) (a : Attempt) : Option State :=
  match s.pc with
  | .exited => none
  | .halted _ => none
  | _ => some (s.afterHandlerBalance par a
      (getBalance par s.chain.toLedger s.usersPID s.proc))

/-- A block that holds each transaction of the user at most as often as it was
sent. -/
def grow (s : State) (b : Block) : Option State :=
  (s.chain.append b).bind fun chain =>
    if Sourced s.proc.myPID s.sent chain then some { s with chain := chain } else none

end State

def next (par : Parameters) (s : State) : Label → Option State
  | .main a => s.main par a
  | .sigusr1 a => s.userTransactionsHandle par a
  | .grow b => s.grow b

structure Initial (par : Parameters) (s : State) : Prop where
  nodup : (s.usersPID.map User.pid).Nodup
  mem : s.proc.myPID ∈ s.usersPID.map User.pid
  chain : s.chain = Chain.empty
  balance : s.proc.currBalance = par.soBudgetInit
  outgoing : s.proc.outGoingTransactions = []
  pc : s.pc = .top
  sent : s.sent = []
  attempts : s.attempts = []

def machine (par : Parameters) : Machine State Label where
  start := Initial par
  next := next par

def State.funds (par : Parameters) (s : State) : ℤ :=
  available par s.proc.myPID s.chain s.sent

/-- It never overspends, the overflow branch is never reached, and every attempt
transmits the message it has built. -/
structure Sound (par : Parameters) (s : State) : Prop where
  within : spent s.sent ≤ par.soBudgetInit.toNat + received s.proc.myPID s.chain.entries
  noOverflow : s.pc ≠ .halted .overflow
  faithful : ∀ attempt ∈ s.attempts, attempt.1 = attempt.2

def State.balance (par : Parameters) (s : State) : UInt32 := UInt32.ofInt (s.funds par)

/-- What the loop still means to spend. Of the sum that it has not drawn it takes the least
that is safe: a draw out of exactly 1 divides by zero. -/
def Pc.need : Pc → ℤ
  | .tested => 1
  | .drawn _ amount => amount.toNat
  | .split _ amount reward => (amount + reward).toNat
  | .queued _ amount reward => (amount + reward).toNat
  | _ => 0

def State.drawn (par : Parameters) (s : State) (a : Attempt) : Except Fault (PidT × UInt32) :=
  drawPayment par s.usersPID s.nodesPID a { s.proc with currBalance := s.balance par }

/-- No transaction of the list has the key of the new one. -/
def Fresh (sent : List Transaction) (clock : Timespec) (userPID : PidT) (amount : Int32) : Prop :=
  ∀ t ∈ sent, ¬ (t.timestamp = clock ∧ t.amount = amount ∧ t.receiver = userPID)

/-- A handler that has drawn a payment may go on except between transaction_init and
send_transaction. Its sum and key are as for the loop, and a successful send leaves what the
loop means to spend. -/
structure HandlerAllowed (par : Parameters) (s : State) (a : Attempt) (userPID : PidT)
    (pay : UInt32) : Prop where
  notBuilt : ∀ m, s.pc ≠ .built m
  fresh : Fresh s.sent a.clock userPID (intOfUnsigned (pay - reward pay par.soReward))
  small : pay.toNat < 2 ^ 31
  leaves : sendMessage a.msgsnd = .SUCCESS → pay.toNat + s.pc.need ≤ s.funds par

/-- The sums drawn fit in an int, the user's transactions have different keys, nobody pays
the user a negative amount, and the handlers are allowed. -/
def Allowed (par : Parameters) (s : State) : Label → Prop
  | .main a =>
    match s.pc with
    | .tested => ∀ userPID pay,
        drawPayment par s.usersPID s.nodesPID a s.proc = .ok (userPID, pay) → pay.toNat < 2 ^ 31
    | .queued userPID amount _ => Fresh s.sent a.clock userPID (intOfUnsigned amount)
    | _ => True
  | .sigusr1 a => 2 ≤ s.balance par → ∀ userPID pay, s.drawn par a = .ok (userPID, pay) →
      HandlerAllowed par s a userPID pay
  | .grow b => ∀ t ∈ b.entries, t.receiver = s.proc.myPID → 0 ≤ t.amount.toInt

structure Core (par : Parameters) (s : State) : Prop where
  nodup : (s.usersPID.map User.pid).Nodup
  mem : s.proc.myPID ∈ s.usersPID.map User.pid
  history : History s.proc.myPID s.sent
  records : Records s.proc.myPID s.sent s.chain
  costs : ∀ t ∈ s.sent, Fits t ∧ 0 ≤ cost t
  inflow : ∀ t ∈ s.chain.entries, t.receiver = s.proc.myPID → 0 ≤ t.amount.toInt
  outgoing : ∃ read, s.proc.outGoingTransactions = pendingOf read s.sent ∧
    (∀ t, Recorded read t → Recorded s.chain t) ∧ Records s.proc.myPID s.sent read
  solvent : (s.proc.currBalance.toNat : ℤ) ≤ s.funds par

/-- The funds cover the need, and so does currBalance unless it has wrapped. -/
def Backed (need : ℤ) (balance : UInt32) (funds : ℤ) : Prop :=
  need ≤ funds ∧ (need ≤ balance.toNat ∨ balance.toNat + 2 ^ 32 ≤ funds)

structure Sendable (myPID : PidT) (sent : List Transaction) (t : Transaction) : Prop where
  sender : t.sender = myPID
  receiver : t.receiver ≠ myPID
  status : t.status = .pending
  fits : Fits t
  cost : 0 ≤ cost t
  fresh : ∀ t' ∈ sent, compareTransactions t' t = false

def Pc.Ready (p : UserProc) (sent : List Transaction) (funds : ℤ) : Pc → Prop
  | .tested => Backed 1 p.currBalance funds
  | .drawn userPID amount => userPID ≠ p.myPID ∧ amount.toNat < 2 ^ 31 ∧
      Backed amount.toNat p.currBalance funds
  | .split userPID amount reward => userPID ≠ p.myPID ∧ reward.toNat < 2 ^ 31 ∧
      (amount + reward).toNat < 2 ^ 31 ∧ Backed (amount + reward).toNat p.currBalance funds
  | .queued userPID amount reward => userPID ≠ p.myPID ∧ reward.toNat < 2 ^ 31 ∧
      (amount + reward).toNat < 2 ^ 31 ∧ Backed (amount + reward).toNat p.currBalance funds
  | .built m => m = p.transMsg ∧ Sendable p.myPID sent m.userTrans ∧
      Backed (Balance.cost m.userTrans) p.currBalance funds
  | .halted f => f ≠ .overflow
  | _ => True

structure Safe (par : Parameters) (s : State) : Prop where
  core : Core par s
  ready : s.pc.Ready s.proc s.sent (s.funds par)
  faithful : ∀ attempt ∈ s.attempts, attempt.1 = attempt.2

variable {par : Parameters} {s s' : State}

theorem Safe.sound (h : Safe par s) : Sound par s := by
  have hsolvent := h.core.solvent
  rw [State.funds, available] at hsolvent
  refine ⟨by omega, ?_, h.faithful⟩
  intro hpc
  have hready := h.ready
  rw [hpc] at hready
  exact hready rfl

section Arithmetic

theorem received_le (myPID : PidT) (l : List Transaction) :
    received myPID l ≤ 2 ^ 31 * l.length := by
  induction l with
  | nil => simp [received]
  | cons t rest ih =>
    have hlt := t.amount.toInt_lt
    rw [received] at ih ⊢
    by_cases ht : t.receiver = myPID
    · simp only [List.filter_cons, ht, decide_true, ↓reduceIte, List.map_cons, List.sum_cons,
        List.length_cons]
      push_cast
      omega
    · simp only [List.filter_cons, ht, decide_false, Bool.false_eq_true, ↓reduceIte,
        List.length_cons]
      push_cast
      omega

theorem received_nonneg {myPID : PidT} {l : List Transaction}
    (h : ∀ t ∈ l, t.receiver = myPID → 0 ≤ t.amount.toInt) : 0 ≤ received myPID l := by
  rw [received]
  apply List.sum_nonneg
  intro x hx
  obtain ⟨t, ht, rfl⟩ := List.mem_map.mp hx
  obtain ⟨hin, hreceiver⟩ := List.mem_filter.mp ht
  exact h t hin (of_decide_eq_true hreceiver)

theorem rand_le {r max v : UInt32} (h : rand r 2 max = some v) (hmax : 2 ≤ max) :
    v.toNat ≤ max.toNat := by
  obtain ⟨d, hd, -, hle⟩ := Draws.rand_sum_iff.mpr hmax
  rw [h] at hd
  cases hd
  exact UInt32.le_iff_toNat_le.mp hle

theorem reward_lt (amount : UInt32) (soReward : Int8) :
    (reward amount soReward).toNat < 2 ^ 31 := by
  have hlt := (UInt32.ofInt soReward.toInt * amount).toNat_lt
  rw [reward, UInt32.toNat_ofNat']
  omega

/-- The two ints add up to the sum that was drawn. -/
theorem cost_split (t : Transaction) {amount reward : UInt32} (hreward : reward.toNat < 2 ^ 31)
    (hsum : (amount + reward).toNat < 2 ^ 31) (ha : t.amount = intOfUnsigned amount)
    (hr : t.reward = intOfUnsigned reward) : cost t = (amount + reward).toNat := by
  have hlt := amount.toNat_lt
  have hr' : t.reward.toInt = reward.toNat := by rw [hr, toInt_intOfUnsigned reward hreward]
  have ha' : t.amount.toInt = Int.bmod amount.toNat (2 ^ 32) := by
    rw [ha]
    exact Int32.toInt_ofInt
  rw [UInt32.toNat_add] at hsum ⊢
  rw [cost, ha', hr', Int.bmod_def]
  split
  · omega
  · omega

theorem backed_recomputed {need funds : ℤ} {balance : UInt32}
    (hbalance : (balance.toNat : ℤ) = funds % 2 ^ 32) (hneed : need ≤ funds)
    (hpos : 0 ≤ funds) : Backed need balance funds := by
  refine ⟨hneed, ?_⟩
  omega

theorem Backed.mono {need funds funds' : ℤ} {balance : UInt32} (h : Backed need balance funds)
    (hle : funds ≤ funds') : Backed need balance funds' := by
  obtain ⟨hneed, hbal⟩ := h
  refine ⟨by omega, ?_⟩
  omega

/-- The balance after a payment that was backed. -/
theorem toNat_sub_backed {balance : UInt32} {t : Transaction} {funds : ℤ} (hfits : Fits t)
    (hcost : 0 ≤ cost t) (hsolvent : (balance.toNat : ℤ) ≤ funds)
    (hbacked : Backed (cost t) balance funds) :
    ((balance - unsignedOfInt (t.amount + t.reward)).toNat : ℤ) ≤ funds - cost t := by
  have hpay := toNat_unsignedOfInt (t.amount + t.reward)
  rw [toInt_eq_cost hfits] at hpay
  have hhi := hfits.2
  have hlt := balance.toNat_lt
  obtain ⟨hneed, hbal⟩ := hbacked
  rw [UInt32.toNat_sub]
  omega

end Arithmetic

section Steps

namespace Core

/-- Only the table's balances and statuses, and globals that do not matter, have
changed. -/
theorem of_same (h : Core par s) (hkeys : s'.usersPID.map User.pid = s.usersPID.map User.pid)
    (hpid : s'.proc.myPID = s.proc.myPID) (hsent : s'.sent = s.sent)
    (hchain : s'.chain = s.chain)
    (hout : s'.proc.outGoingTransactions = s.proc.outGoingTransactions)
    (hbal : s'.proc.currBalance = s.proc.currBalance) : Core par s' := by
  have hfunds : s'.funds par = s.funds par := by
    rw [State.funds, State.funds, hpid, hchain, hsent]
  constructor
  · rw [hkeys]
    exact h.nodup
  · rw [hkeys, hpid]
    exact h.mem
  · rw [hpid, hsent]
    exact h.history
  · rw [hpid, hsent, hchain]
    exact h.records
  · rw [hsent]
    exact h.costs
  · rw [hpid, hchain]
    exact h.inflow
  · rw [hpid, hsent, hchain, hout]
    exact h.outgoing
  · rw [hbal, hfunds]
    exact h.solvent

theorem funds_nonneg (h : Core par s) : 0 ≤ s.funds par := by
  have hsolvent := h.solvent
  omega

theorem funds_lt (h : Core par s) : s.funds par < 2 ^ 63 := by
  have hbudget := par.soBudgetInit.toNat_lt
  have hreceived := received_le s.proc.myPID s.chain.entries
  have hlength := s.chain.length_entries
  have hspent := spent_nonneg fun t ht => (h.costs t ht).2
  have hsize : soRegistrySize = 1000 := rfl
  rw [State.funds, available]
  omega

/-- get_balance returns the funds. -/
theorem getBalance (h : Core par s) : ∃ usersPID p,
    getBalance par s.chain.toLedger s.usersPID s.proc = .ok (usersPID, p) ∧
      Core par (s.write usersPID p) ∧ p.myPID = s.proc.myPID ∧ p.transMsg = s.proc.transMsg ∧
      (p.currBalance.toNat : ℤ) = s.funds par % 2 ^ 32 ∧
      usersPID.map (fun row => (row.pid, row.status)) =
        s.usersPID.map fun row => (row.pid, row.status) := by
  obtain ⟨read, hout, hgrow, hread⟩ := h.outgoing
  obtain ⟨⟨usersPID, p⟩, hget⟩ := getBalance_tracked_returns h.history h.records hgrow hout h.mem
    (fun t ht => (h.costs t ht).1) h.funds_nonneg h.funds_lt
  obtain ⟨hpid, hmsg, hpending, hbal, hrows⟩ :=
    getBalance_tracked h.history h.records hgrow hout h.nodup hget
  have hkeys : usersPID.map User.pid = s.usersPID.map User.pid := by
    rw [hrows]
    exact Table.map_key_update _ _ fun _ => rfl
  have hcolumns : usersPID.map (fun row => (row.pid, row.status)) =
      s.usersPID.map fun row => (row.pid, row.status) := by
    rw [hrows]
    exact Table.map_update (fun row : User => (row.pid, row.status)) _ _ fun _ => rfl
  refine ⟨usersPID, p, hget, ?_, hpid, hmsg, hbal, hcolumns⟩
  have hpid' : (s.write usersPID p).proc.myPID = s.proc.myPID := hpid
  have hkeys' : (s.write usersPID p).usersPID.map User.pid = s.usersPID.map User.pid := hkeys
  have hfunds : (s.write usersPID p).funds par = s.funds par := by
    rw [State.funds, hpid']
    rfl
  constructor
  · rw [hkeys']
    exact h.nodup
  · rw [hkeys', hpid']
    exact h.mem
  · rw [hpid']
    exact h.history
  · rw [hpid']
    exact h.records
  · exact h.costs
  · rw [hpid']
    exact h.inflow
  · rw [hpid']
    exact ⟨s.chain, hpending, fun t ht => ht, h.records⟩
  · rw [hfunds]
    have hpos := h.funds_nonneg
    have hbal' : ((s.write usersPID p).proc.currBalance.toNat : ℤ) = s.funds par % 2 ^ 32 := hbal
    omega

theorem updateStatus (h : Core par s) (status : UserStatus) : ∃ usersPID,
    updateStatus status s.usersPID s.proc = .ok (usersPID, s.proc.withErrno .EFBIG) ∧
      Core par (s.write usersPID (s.proc.withErrno .EFBIG)) := by
  obtain ⟨⟨usersPID, p⟩, hok⟩ := modifyRow_returns h.mem fun row => { row with status := status }
  obtain ⟨hrows, rfl⟩ := modifyRow_ok h.nodup hok
  refine ⟨usersPID, hok, h.of_same ?_ rfl rfl rfl rfl rfl⟩
  have hkeys : usersPID.map User.pid = s.usersPID.map User.pid := by
    rw [hrows]
    exact Table.map_key_update _ _ fun _ => rfl
  exact hkeys

/-- An exit leaves the keys of the table. -/
theorem maxRetryReached (h : Core par s) : ∃ usersPID,
    maxRetryReached par s.chain.toLedger s.usersPID s.proc = .ok usersPID ∧
      usersPID.map User.pid = s.usersPID.map User.pid := by
  obtain ⟨rows, hstatus, hcore⟩ := h.updateStatus .dead
  obtain ⟨read, hout, hgrow, -⟩ := hcore.outgoing
  have hself := hcore.records.notToSelf hcore.history
  have htally := budget_add_tally par hcore.history hcore.records hgrow hout
    fun t ht => (hcore.costs t ht).1
  have hpos := hcore.funds_nonneg
  have hlt := hcore.funds_lt
  rw [State.funds] at hpos hlt
  obtain ⟨usersPID, hrun⟩ := userInterruptHandle_returns hcore.nodup hself hcore.mem
    (le_of_le_of_eq hpos htally.symm) (by omega)
  have hexit : Users.maxRetryReached par s.chain.toLedger s.usersPID s.proc = .ok usersPID :=
    (maxRetryReached_eq hstatus).trans hrun
  obtain ⟨f, hrows, hf⟩ := maxRetryReached_ok (h.records.notToSelf h.history) h.nodup hexit
  refine ⟨usersPID, hexit, ?_⟩
  rw [hrows]
  exact Table.map_key_update _ _ fun row => (hf row).1

/-- A send of a message that is backed. -/
theorem record (h : Core par s) {p : UserProc} (hpid : p.myPID = s.proc.myPID)
    (hout : p.outGoingTransactions = s.proc.outGoingTransactions)
    (hbal : p.currBalance = s.proc.currBalance)
    (hsend : Sendable s.proc.myPID s.sent p.transMsg.userTrans)
    (hbacked : Backed (cost p.transMsg.userTrans) s.proc.currBalance (s.funds par))
    (m : Message) (result : MsgsndResult) :
    Core par (s.record m (sendTransaction result p).1 (sendTransaction result p).2) := by
  unfold sendTransaction
  cases hcode : sendMessage result with
  | ERROR => exact h.of_same rfl hpid rfl rfl hout hbal
  | SUCCESS =>
    have hnew : p.transMsg.userTrans ∉ s.sent := by
      intro hin
      have hfresh := hsend.fresh _ hin
      rw [(compare_iff _ _).mpr ⟨rfl, rfl, rfl⟩] at hfresh
      contradiction
    obtain ⟨read, hread, hgrow, hrec⟩ := h.outgoing
    constructor
    · exact h.nodup
    · exact hpid ▸ h.mem
    · exact hpid ▸ h.history.push hsend.sender hsend.receiver hsend.status hsend.fresh
    · exact hpid ▸ Records.push _ h.records
    · intro t ht
      rcases List.mem_append.mp ht with hold | hin
      · exact h.costs t hold
      · rw [List.mem_singleton.mp hin]
        exact ⟨hsend.fits, hsend.cost⟩
    · exact hpid ▸ h.inflow
    · refine ⟨read, ?_, hgrow, hpid ▸ Records.push _ hrec⟩
      have hpending := pendingOf_push hrec hsend.sender hnew
      rw [← hread, ← hout] at hpending
      exact hpending.symm
    · have hle := toNat_sub_backed hsend.fits hsend.cost h.solvent hbacked
      have hfunds := available_push par s.proc.myPID s.chain s.sent p.transMsg.userTrans
      rw [← hbal] at hle
      rw [← State.funds] at hfunds
      rw [← hfunds, ← hpid] at hle
      exact hle

end Core

theorem safe_checkRetry (hcore : Core par s) {pc : Pc}
    (hready : pc.Ready s.proc s.sent (s.funds par))
    (hfaith : ∀ attempt ∈ s.attempts, attempt.1 = attempt.2) (retry : UInt32) :
    Safe par (s.checkRetry par retry pc) := by
  unfold State.checkRetry
  split
  · obtain ⟨usersPID, hexit, hkeys⟩ := hcore.maxRetryReached
    rw [hexit]
    exact ⟨hcore.of_same hkeys rfl rfl rfl rfl rfl, trivial, hfaith⟩
  · exact ⟨hcore.of_same rfl rfl rfl rfl rfl rfl, hready, hfaith⟩

/-- A transaction built from a drawn sum. -/
theorem sendable_init (par : Parameters) {p : UserProc} {userPID : PidT}
    {amount reward : UInt32} {clock : Timespec} {sent : List Transaction}
    (hne : userPID ≠ p.myPID) (hreward : reward.toNat < 2 ^ 31)
    (hsum : (amount + reward).toNat < 2 ^ 31)
    (hfresh : Fresh sent clock userPID (intOfUnsigned amount)) :
    Sendable p.myPID sent (transactionInit par clock userPID (intOfUnsigned amount)
      (intOfUnsigned reward) p).transMsg.userTrans ∧
    cost (transactionInit par clock userPID (intOfUnsigned amount)
      (intOfUnsigned reward) p).transMsg.userTrans = (amount + reward).toNat := by
  have hcost := cost_split (transactionInit par clock userPID (intOfUnsigned amount)
    (intOfUnsigned reward) p).transMsg.userTrans hreward hsum rfl rfl
  refine ⟨⟨rfl, hne, rfl, ?_, ?_, ?_⟩, hcost⟩
  · rw [Fits, hcost]
    omega
  · rw [hcost]
    omega
  · intro t ht
    rw [← Bool.not_eq_true, compare_iff]
    exact hfresh t ht

theorem sub_add_reward (amount : UInt32) (soReward : Int8) :
    amount - reward amount soReward + reward amount soReward = amount :=
  UInt32.sub_add_cancel _ _

theorem settle_updateStatus_safe (hs : Safe par s) (status : UserStatus) {pc : Pc}
    (hready : pc.Ready (s.proc.withErrno .EFBIG) s.sent (s.funds par)) :
    Safe par (s.settle pc (updateStatus status s.usersPID s.proc)) := by
  obtain ⟨usersPID, hok, hwrite⟩ := hs.core.updateStatus status
  rw [hok]
  exact ⟨hwrite.of_same rfl rfl rfl rfl rfl rfl, hready, hs.faithful⟩

/-- The sum drawn is backed: by currBalance, or by funds that do not fit in it. -/
theorem backed_drawn {r balance amount : UInt32} {funds : ℤ} (hbacked : Backed 1 balance funds)
    (hsolvent : (balance.toNat : ℤ) ≤ funds) (hrand : rand r 2 balance = some amount) :
    Backed amount.toNat balance funds := by
  obtain ⟨-, hbal⟩ := hbacked
  by_cases htwo : 2 ≤ balance
  · have hle := rand_le hrand htwo
    exact ⟨by omega, Or.inl (by omega)⟩
  · have hne : balance.toNat ≠ 1 := by
      intro hone
      have hbalance : balance = 1 := UInt32.toNat_inj.mp hone
      rw [hbalance] at hrand
      contradiction
    have hlt : ¬ 2 ≤ balance.toNat := fun hle => htwo (UInt32.le_iff_toNat_le.mpr hle)
    have hamount := amount.toNat_lt
    exact ⟨by omega, Or.inr (by omega)⟩

theorem afterDraw_safe {a : Attempt} (hs : Safe par s)
    (hbacked : Backed 1 s.proc.currBalance (s.funds par))
    (hsmall : ∀ userPID pay, drawPayment par s.usersPID s.nodesPID a s.proc = .ok (userPID, pay) →
      pay.toNat < 2 ^ 31) :
    Safe par (s.afterDraw (drawPayment par s.usersPID s.nodesPID a s.proc)) := by
  have hcore := hs.core
  cases hdraw : drawPayment par s.usersPID s.nodesPID a s.proc with
  | error f =>
    exact ⟨hcore.of_same rfl rfl rfl rfl rfl rfl, drawPayment_error hdraw, hs.faithful⟩
  | ok r =>
    obtain ⟨userPID, amount⟩ := r
    obtain ⟨hne, hrand⟩ := drawPayment_ok hdraw
    have hdrawn := backed_drawn hbacked hcore.solvent hrand
    exact ⟨hcore.of_same rfl rfl rfl rfl rfl rfl, ⟨hne, hsmall userPID amount hdraw, hdrawn⟩,
      hs.faithful⟩

theorem afterQueue_safe {queues : List MsggetResult} {userPID : PidT} {amount reward : UInt32}
    (hs : Safe par s)
    (hready : (Pc.queued userPID amount reward).Ready s.proc s.sent (s.funds par)) :
    Safe par (s.afterQueue userPID amount reward (queueToPid queues s.proc)) := by
  have hcore := hs.core
  cases hqueue : queueToPid queues s.proc with
  | error f =>
    exact ⟨hcore.of_same rfl rfl rfl rfl rfl rfl, queueToPid_error hqueue, hs.faithful⟩
  | ok p =>
    obtain ⟨errno, queueID, rfl⟩ := queueToPid_ok hqueue
    exact ⟨hcore.of_same rfl rfl rfl rfl rfl rfl, hready, hs.faithful⟩

theorem afterInit_safe {clock : Timespec} {userPID : PidT} {amount reward : UInt32}
    (hs : Safe par s) (hready : (Pc.queued userPID amount reward).Ready s.proc s.sent (s.funds par))
    (hfresh : Fresh s.sent clock userPID (intOfUnsigned amount)) :
    Safe par (s.afterInit (transactionInit par clock userPID (intOfUnsigned amount)
      (intOfUnsigned reward) s.proc)) := by
  obtain ⟨hne, hreward, hsum, hbacked⟩ := hready
  obtain ⟨hsend, hcost⟩ := sendable_init par hne hreward hsum hfresh
  refine ⟨hs.core.of_same rfl rfl rfl rfl rfl rfl, ⟨rfl, hsend, ?_⟩, hs.faithful⟩
  rw [← hcost] at hbacked
  exact hbacked

theorem afterSend_safe {m : Message} (hs : Safe par s)
    (hready : (Pc.built m).Ready s.proc s.sent (s.funds par)) (result : MsgsndResult) :
    Safe par (s.afterSend par m (sendTransaction result s.proc)) := by
  obtain ⟨hm, hsend, hbacked⟩ := hready
  rw [hm] at hsend hbacked
  have hrecord := hs.core.record rfl rfl rfl hsend hbacked m result
  apply safe_checkRetry
  · exact hrecord.of_same rfl rfl rfl rfl rfl rfl
  · trivial
  · intro attempt hin
    rcases List.mem_append.mp hin with hold | hnew
    · exact hs.faithful attempt hold
    · rw [List.mem_singleton.mp hnew, sendTransaction_transMsg]
      exact hm

/-- An allowed step of the loop is safe. -/
theorem main_safe {a : Attempt} (hs : Safe par s) (hC : Allowed par s (.main a))
    (h : s.main par a = some s') : Safe par s' := by
  have hready := hs.ready
  unfold State.main at h
  cases hpc : s.pc with
  | top =>
    simp only [hpc, Option.some.injEq] at h
    obtain ⟨usersPID, p, hget, hwrite, -⟩ := hs.core.getBalance
    rw [hget] at h
    rw [← h]
    exact ⟨hwrite.of_same rfl rfl rfl rfl rfl rfl, trivial, hs.faithful⟩
  | balanced =>
    simp only [hpc] at h
    split at h
    next htwo =>
      rw [← Option.some.inj h]
      have hle : 2 ≤ s.proc.currBalance.toNat := UInt32.le_iff_toNat_le.mp htwo
      have hsolvent := hs.core.solvent
      have hbacked : Backed 1 s.proc.currBalance (s.funds par) :=
        ⟨by omega, Or.inl (by omega)⟩
      exact settle_updateStatus_safe hs .alive hbacked
    next =>
      rw [← Option.some.inj h]
      exact settle_updateStatus_safe hs .broke trivial
  | tested =>
    simp only [hpc, Option.some.injEq] at h
    simp only [Allowed, hpc] at hC
    rw [hpc] at hready
    rw [← h]
    exact afterDraw_safe hs hready hC
  | drawn userPID amount =>
    simp only [hpc, Option.some.injEq] at h
    rw [hpc] at hready
    obtain ⟨hne, hsmall, hbacked⟩ := hready
    have hsum := sub_add_reward amount par.soReward
    rw [← h]
    refine ⟨hs.core.of_same rfl rfl rfl rfl rfl rfl,
      ⟨hne, reward_lt amount par.soReward, ?_, ?_⟩, hs.faithful⟩
    · rw [hsum]
      exact hsmall
    · rw [hsum]
      exact hbacked
  | split userPID amount reward =>
    simp only [hpc, Option.some.injEq] at h
    rw [hpc] at hready
    rw [← h]
    exact afterQueue_safe hs hready
  | queued userPID amount reward =>
    simp only [hpc, Option.some.injEq] at h
    simp only [Allowed, hpc] at hC
    rw [hpc] at hready
    rw [← h]
    exact afterInit_safe hs hready hC
  | built m =>
    simp only [hpc, Option.some.injEq] at h
    rw [hpc] at hready
    rw [← h]
    exact afterSend_safe hs hready a.msgsnd
  | exited => simp [hpc] at h
  | halted f => simp [hpc] at h

/-- After the handler's get_balance, at any point of the loop. -/
theorem ready_recomputed {pc : Pc} {p q : UserProc} {sent : List Transaction} {funds : ℤ}
    (h : pc.Ready p sent funds) (hpos : 0 ≤ funds) (hpid : q.myPID = p.myPID)
    (hmsg : q.transMsg = p.transMsg) (hbal : (q.currBalance.toNat : ℤ) = funds % 2 ^ 32) :
    pc.Ready q sent funds := by
  cases pc with
  | tested => exact backed_recomputed hbal h.1 hpos
  | drawn userPID amount =>
    obtain ⟨hne, hsmall, hbacked⟩ := h
    exact ⟨hpid ▸ hne, hsmall, backed_recomputed hbal hbacked.1 hpos⟩
  | split userPID amount reward =>
    obtain ⟨hne, hreward, hsum, hbacked⟩ := h
    exact ⟨hpid ▸ hne, hreward, hsum, backed_recomputed hbal hbacked.1 hpos⟩
  | queued userPID amount reward =>
    obtain ⟨hne, hreward, hsum, hbacked⟩ := h
    exact ⟨hpid ▸ hne, hreward, hsum, backed_recomputed hbal hbacked.1 hpos⟩
  | built m =>
    obtain ⟨hm, hsend, hbacked⟩ := h
    exact ⟨hm.trans hmsg.symm, hpid ▸ hsend, backed_recomputed hbal hbacked.1 hpos⟩
  | halted f => exact h
  | _ => trivial

/-- After the handler's send, before transaction_init. -/
theorem ready_backed {pc : Pc} {p q : UserProc} {sent sent' : List Transaction}
    {funds funds' : ℤ} (h : pc.Ready p sent funds) (hbuilt : ∀ m, pc ≠ .built m)
    (hpid : q.myPID = p.myPID) (hbacked : Backed pc.need q.currBalance funds') :
    pc.Ready q sent' funds' := by
  cases pc with
  | tested => exact hbacked
  | drawn userPID amount => exact ⟨hpid ▸ h.1, h.2.1, hbacked⟩
  | split userPID amount reward => exact ⟨hpid ▸ h.1, h.2.1, h.2.2.1, hbacked⟩
  | queued userPID amount reward => exact ⟨hpid ▸ h.1, h.2.1, h.2.2.1, hbacked⟩
  | built m => exact absurd rfl (hbuilt m)
  | halted f => exact h
  | _ => trivial

theorem need_le {pc : Pc} {p : UserProc} {sent : List Transaction} {funds : ℤ}
    (h : pc.Ready p sent funds) (hpos : 0 ≤ funds) (hbuilt : ∀ m, pc ≠ .built m) :
    pc.need ≤ funds := by
  cases pc with
  | tested => exact h.1
  | drawn userPID amount => exact h.2.2.1
  | split userPID amount reward => exact h.2.2.2.1
  | queued userPID amount reward => exact h.2.2.2.1
  | built m => exact absurd rfl (hbuilt m)
  | _ => exact hpos

/-- What remains after a payment out of the recomputed balance. -/
theorem backed_after_payment {need funds : ℤ} {balance : UInt32} {t : Transaction}
    {pay : UInt32} (hbal : (balance.toNat : ℤ) = funds % 2 ^ 32)
    (hle : pay.toNat ≤ balance.toNat) (hpay : (t.amount + t.reward).toInt = pay.toNat)
    (hneed : pay.toNat + need ≤ funds) :
    Backed need (balance - unsignedOfInt (t.amount + t.reward)) (funds - pay.toNat) := by
  have hsent := toNat_unsignedOfInt (t.amount + t.reward)
  have hlt := balance.toNat_lt
  have hsub : ((balance - unsignedOfInt (t.amount + t.reward)).toNat : ℤ) =
      balance.toNat - pay.toNat := by
    rw [hpay] at hsent
    rw [UInt32.toNat_sub]
    omega
  refine ⟨by omega, ?_⟩
  rw [hsub]
  omega

/-- After the handler's send the loop can still spend what it means to. -/
theorem backed_after_send {p : UserProc} {pay : UInt32} {sent : List Transaction}
    (result : MsgsndResult) (pc : Pc)
    (hbal : (p.currBalance.toNat : ℤ) = available par p.myPID s.chain sent % 2 ^ 32)
    (hfits : Fits p.transMsg.userTrans) (hpay : cost p.transMsg.userTrans = pay.toNat)
    (hle : pay.toNat ≤ p.currBalance.toNat)
    (hneed : pc.need ≤ available par p.myPID s.chain sent)
    (hpos : 0 ≤ available par p.myPID s.chain sent)
    (hleaves : sendMessage result = .SUCCESS →
      pay.toNat + pc.need ≤ available par p.myPID s.chain sent) :
    Backed pc.need (sendTransaction result p).2.currBalance
      (available par p.myPID s.chain
        (if (sendTransaction result p).1 = .SUCCESS then push sent p.transMsg.userTrans
          else sent)) := by
  unfold sendTransaction
  cases hcode : sendMessage result with
  | ERROR => exact backed_recomputed hbal hneed hpos
  | SUCCESS =>
    have hsum : (p.transMsg.userTrans.amount + p.transMsg.userTrans.reward).toInt = pay.toNat := by
      rw [toInt_eq_cost hfits, hpay]
    have hleft := backed_after_payment hbal hle hsum (hleaves hcode)
    rw [if_pos rfl, available_push, hpay]
    exact hleft

/-- A payment of the handler, sent or not, keeps what the loop means to spend. -/
theorem afterHandled_safe {p q : UserProc} {usersPID : List User} {pay : UInt32}
    {result : MsgsndResult} (hcore : Core par (s.write usersPID p))
    (hready : s.pc.Ready s.proc s.sent (s.funds par)) (hbuilt : ∀ m, s.pc ≠ .built m)
    (hfaith : ∀ attempt ∈ s.attempts, attempt.1 = attempt.2)
    (hpid : p.myPID = s.proc.myPID) (hqpid : q.myPID = p.myPID)
    (hout : q.outGoingTransactions = p.outGoingTransactions)
    (hcurr : q.currBalance = p.currBalance)
    (hbal : (p.currBalance.toNat : ℤ) = s.funds par % 2 ^ 32)
    (hsend : Sendable s.proc.myPID s.sent q.transMsg.userTrans)
    (hcost : cost q.transMsg.userTrans = pay.toNat) (hle : pay.toNat ≤ p.currBalance.toNat)
    (hleaves : sendMessage result = .SUCCESS → pay.toNat + s.pc.need ≤ s.funds par) :
    Safe par (s.afterHandled par
      (.ok ((sendTransaction result q).1, usersPID, (sendTransaction result q).2))) := by
  have hfunds : (s.write usersPID p).funds par = s.funds par := by
    show available par p.myPID s.chain s.sent = available par s.proc.myPID s.chain s.sent
    rw [hpid]
  have hpos := hfunds ▸ hcore.funds_nonneg
  have hsolvent : (p.currBalance.toNat : ℤ) ≤ s.funds par := hfunds ▸ hcore.solvent
  have hneed := need_le hready hpos hbuilt
  have hbacked : Backed (cost q.transMsg.userTrans) p.currBalance (s.funds par) := by
    rw [hcost]
    exact ⟨by omega, Or.inl (by omega)⟩
  have hrecord := hcore.record hqpid hout hcurr (hpid ▸ hsend) (hfunds.symm ▸ hbacked)
    (sendTransaction result q).2.transMsg result
  have hmine : s.funds par = available par q.myPID s.chain s.sent := by
    rw [hqpid, hpid]
    rfl
  apply safe_checkRetry
  · exact hrecord.of_same rfl rfl rfl rfl rfl rfl
  · refine ready_backed hready hbuilt ?_ ?_
    · show (sendTransaction result q).2.myPID = s.proc.myPID
      rw [sendTransaction_myPID, hqpid, hpid]
    · have hleft := backed_after_send result s.pc
        (by rw [hcurr, ← hmine, hbal]) hsend.fits hcost (by rw [hcurr]; exact hle)
        (hmine ▸ hneed) (hmine ▸ hpos) (hmine ▸ hleaves)
      rw [← sendTransaction_myPID result q, ← sendTransaction_transMsg result q] at hleft
      exact hleft
  · intro attempt hin
    rcases List.mem_append.mp hin with hold | hnew
    · exact hfaith attempt hold
    · rw [List.mem_singleton.mp hnew]

theorem handleTest_safe {a : Attempt} (hcore : Core par s)
    (hready : s.pc.Ready s.proc s.sent (s.funds par))
    (hfaith : ∀ attempt ∈ s.attempts, attempt.1 = attempt.2)
    (hbal : (s.proc.currBalance.toNat : ℤ) = s.funds par % 2 ^ 32)
    (hC : 2 ≤ s.proc.currBalance → ∀ userPID pay,
      drawPayment par s.usersPID s.nodesPID a s.proc = .ok (userPID, pay) →
        HandlerAllowed par s a userPID pay) : Safe par (s.handleTest par a) := by
  unfold State.handleTest
  split
  next htwo =>
    obtain ⟨usersPID, hstatus, hwrite⟩ := hcore.updateStatus .alive
    rcases handlePayment_cases par s.nodesPID a hstatus with
      ⟨f, herror, hne⟩ | ⟨userPID, pay, errno, queueID, hdraw, hok⟩
    · rw [herror]
      exact ⟨hcore.of_same rfl rfl rfl rfl rfl rfl, hne, hfaith⟩
    · obtain ⟨hbuilt, hfresh, hsmall, hleaves⟩ := hC htwo userPID pay hdraw
      obtain ⟨hne, hrand⟩ := drawPayment_ok hdraw
      have hsum := sub_add_reward pay par.soReward
      obtain ⟨hsend, hcost⟩ := sendable_init par
        (p := { s.proc.withErrno .EFBIG with errno := errno, queueID := queueID }) hne
        (reward_lt pay par.soReward) (hsum.symm ▸ hsmall) hfresh
      rw [hsum] at hcost
      rw [hok]
      exact afterHandled_safe hwrite hready hbuilt hfaith rfl rfl rfl rfl hbal hsend hcost
        (rand_le hrand htwo) hleaves
  next => exact ⟨hcore, hready, hfaith⟩

/-- An allowed handler is safe at every point of the loop. -/
theorem handler_safe {a : Attempt} (hs : Safe par s) (hC : Allowed par s (.sigusr1 a))
    (h : s.userTransactionsHandle par a = some s') : Safe par s' := by
  have hpos := hs.core.funds_nonneg
  obtain ⟨usersPID, p, hget, hwrite, hpid, hmsg, hbal, hcolumns⟩ := hs.core.getBalance
  have hfunds : (s.write usersPID p).funds par = s.funds par := by
    show available par p.myPID s.chain s.sent = available par s.proc.myPID s.chain s.sent
    rw [hpid]
  have hready := ready_recomputed hs.ready hpos hpid hmsg hbal
  have hbalance : s.balance par = p.currBalance := by
    have hnat := toNat_ofInt_unsigned (s.funds par)
    exact UInt32.toNat_inj.mp (by rw [State.balance]; omega)
  have htest : Safe par ((s.write usersPID p).handleTest par a) := by
    apply handleTest_safe hwrite
    · rw [hfunds]
      exact hready
    · exact hs.faithful
    · rw [hfunds]
      exact hbal
    · intro htwo userPID pay hdraw
      have hdrawn : s.drawn par a = .ok (userPID, pay) := by
        have hsame : drawPayment par usersPID s.nodesPID a p = s.drawn par a :=
          drawPayment_congr hcolumns hpid hbalance.symm
        exact hsame.symm.trans hdraw
      obtain ⟨hbuilt, hfresh, hsmall, hleaves⟩ := hC (hbalance ▸ htwo) userPID pay hdrawn
      exact ⟨hbuilt, hfresh, hsmall, fun hsent => hfunds.symm ▸ hleaves hsent⟩
  unfold State.userTransactionsHandle at h
  split at h
  · contradiction
  · contradiction
  · rw [← Option.some.inj h, hget]
    exact htest

theorem ready_mono {pc : Pc} {p : UserProc} {sent : List Transaction} {funds funds' : ℤ}
    (h : pc.Ready p sent funds) (hle : funds ≤ funds') : pc.Ready p sent funds' := by
  cases pc with
  | tested => exact h.mono hle
  | drawn userPID amount => exact ⟨h.1, h.2.1, h.2.2.mono hle⟩
  | split userPID amount reward => exact ⟨h.1, h.2.1, h.2.2.1, h.2.2.2.mono hle⟩
  | queued userPID amount reward => exact ⟨h.1, h.2.1, h.2.2.1, h.2.2.2.mono hle⟩
  | built m => exact ⟨h.1, h.2.1, h.2.2.mono hle⟩
  | halted f => exact h
  | _ => trivial

/-- A block can only add to what the user can spend. -/
theorem grow_safe {b : Block} (hs : Safe par s) (hC : Allowed par s (.grow b))
    (h : s.grow b = some s') : Safe par s' := by
  obtain ⟨hcore, hready, hfaith⟩ := hs
  obtain ⟨chain, happend, hrest⟩ := Option.bind_eq_some_iff.mp h
  split at hrest
  next hsourced =>
    rw [← Option.some.inj hrest]
    have hentries := Chain.append_entries happend
    have hpaid := received_nonneg hC
    have hmore : s.funds par ≤ available par s.proc.myPID chain s.sent := by
      rw [State.funds, available, available, hentries, received_append]
      omega
    obtain ⟨read, hout, hgrow, hread⟩ := hcore.outgoing
    refine ⟨⟨hcore.nodup, hcore.mem, hcore.history, hsourced.records hcore.history, hcore.costs,
      ?_, ⟨read, hout, ?_, hread⟩, hcore.solvent.trans hmore⟩, ready_mono hready hmore, hfaith⟩
    · intro t ht
      rw [show chain.entries = s.chain.entries ++ b.entries from hentries] at ht
      rcases List.mem_append.mp ht with hold | hnew
      · exact hcore.inflow t hold
      · exact hC t hnew
    · intro t ht
      show t ∈ chain.entries.map Transaction.asSent
      rw [hentries, List.map_append]
      exact List.mem_append_left _ (hgrow t ht)
  next => contradiction

theorem next_safe {l : Label} (hs : Safe par s) (hC : Allowed par s l)
    (h : next par s l = some s') : Safe par s' := by
  cases l with
  | main a => exact main_safe hs hC h
  | sigusr1 a => exact handler_safe hs hC h
  | grow b => exact grow_safe hs hC h

theorem safe_initial (h : Initial par s) : Safe par s := by
  have hentries : s.chain.entries = [] := by rw [h.chain]; rfl
  have hnone : ∀ c : Chain, c.entries = [] → Records s.proc.myPID s.sent c := by
    intro c hc
    constructor
    · rw [hc]
      exact fun t ht => absurd ht List.not_mem_nil
    · rw [hc]
      exact List.nodup_nil
  have hfunds : s.funds par = par.soBudgetInit.toNat := by
    rw [State.funds, available, hentries, h.sent]
    simp [received, spent]
  constructor
  · refine ⟨h.nodup, h.mem, ?_, hnone _ hentries, ?_, ?_, ⟨Chain.empty, ?_, ?_, hnone _ rfl⟩, ?_⟩
    · rw [h.sent]
      exact History.empty
    · rw [h.sent]
      exact fun t ht => absurd ht List.not_mem_nil
    · rw [hentries]
      exact fun t ht => absurd ht List.not_mem_nil
    · rw [h.outgoing, h.sent]
      rfl
    · exact fun t ht => absurd ht List.not_mem_nil
    · rw [hfunds, h.balance]
  · rw [h.pc]
    trivial
  · rw [h.attempts]
    exact fun attempt ht => absurd ht List.not_mem_nil

end Steps

/-- A run whose handlers are allowed keeps the user within its balance and every
attempt faithful. -/
theorem sound_of_allowed (par : Parameters) {s : State}
    (h : (machine par).Reach (Allowed par) s) : Sound par s :=
  (h.invariant (fun _ hs => safe_initial hs) fun _ _ _ hs hC hn => next_safe hs hC hn).sound

section Example

def fresh : State where
  usersPID := [⟨7, 1000, .alive⟩, ⟨8, 1000, .alive⟩]
  nodesPID := [⟨20, 0, 0, .available⟩]
  chain := Chain.empty
  proc := ⟨7, 0, .zero, 1000, [], ⟨0, .zero⟩⟩
  retry := 20
  pc := .top
  sent := []
  attempts := []

theorem fresh_initial : Initial assignDefaults fresh :=
  ⟨by decide, by decide, rfl, rfl, rfl, rfl, rfl, rfl⟩

def paying (rand : UInt32) (clock : Timespec) : Attempt :=
  ⟨[1], [0], rand, [.found 30], clock, .sent⟩

def wholeBudget (clock : Timespec) : Message := ⟨10, clock, 7, 8, 990, 10, .pending⟩

/-- The handler comes between transaction_init and send_transaction and spends
all there is. The loop sends the handler's message again. -/
theorem interrupted_run : ∃ s s',
    (machine assignDefaults).run fresh
      [.main (paying 0 ⟨0, 0⟩), .main (paying 0 ⟨0, 0⟩), .main (paying 998 ⟨0, 0⟩),
        .main (paying 0 ⟨0, 0⟩), .main (paying 0 ⟨0, 0⟩), .main (paying 0 ⟨1, 500⟩),
        .sigusr1 (paying 998 ⟨1, 600⟩), .main (paying 0 ⟨0, 0⟩)] = some s ∧
      next assignDefaults s (.main (paying 0 ⟨0, 0⟩)) = some s' ∧
      s.proc.myPID = 7 ∧ s.chain.entries = [] ∧
      s.sent = [(wholeBudget ⟨1, 600⟩).userTrans, (wholeBudget ⟨1, 600⟩).userTrans] ∧
      s.attempts = [(wholeBudget ⟨1, 600⟩, wholeBudget ⟨1, 600⟩),
        (wholeBudget ⟨1, 500⟩, wholeBudget ⟨1, 600⟩)] ∧
      s'.pc = .halted .overflow :=
  ⟨_, _, rfl, rfl, rfl, rfl, rfl, rfl, rfl⟩

/-- User 7 sends 2000 out of 1000, one of its attempts transmits the message of
another, and its next get_balance ends in the overflow branch. -/
theorem overspent_by_handler : ∃ s s',
    (machine assignDefaults).Reachable s ∧ (machine assignDefaults).Reachable s' ∧
      assignDefaults.soBudgetInit.toNat + received s.proc.myPID s.chain.entries < spent s.sent ∧
      (∃ attempt ∈ s.attempts, attempt.1 ≠ attempt.2) ∧ s'.pc = .halted .overflow := by
  obtain ⟨s, s', hrun, hnext, hpid, hentries, hsent, hattempts, hpc⟩ := interrupted_run
  have hs : (machine assignDefaults).Reachable s :=
    Machine.reachable_of_run _ fresh_initial hrun
  have hs' : (machine assignDefaults).Reachable s' :=
    hs.next (l := Label.main (paying 0 ⟨0, 0⟩)) trivial hnext
  refine ⟨s, s', hs, hs', ?_, ?_, hpc⟩
  · rw [hpid, hentries, hsent]
    decide
  · rw [hattempts]
    decide

theorem drawn_eq (userPID : PidT) (pay : UInt32) {drawn : Except Fault (PidT × UInt32)}
    {userPID' : PidT} {pay' : UInt32} (h : drawn = .ok (userPID', pay'))
    (hdrawn : drawn = .ok (userPID, pay)) : userPID' = userPID ∧ pay' = pay :=
  Prod.mk.inj (Except.ok.inj (h.symm.trans hdrawn))

/-- The handler comes after the test and pays 400, then the loop draws 300 and reads the
clock at the same time. -/
theorem sound_of_allowed_payment : ∃ s,
    (machine assignDefaults).Reach (Allowed assignDefaults) s ∧ Sound assignDefaults s ∧
      s.sent.length = 2 := by
  have h₀ : (machine assignDefaults).Reach (Allowed assignDefaults) fresh :=
    Machine.Reach.of_start fresh_initial
  have h₁ := h₀.next (l := Label.main (paying 0 ⟨0, 0⟩)) trivial rfl
  have h₂ := h₁.next (l := Label.main (paying 0 ⟨0, 0⟩)) trivial rfl
  have h₃ := h₂.next (l := Label.sigusr1 (paying 398 ⟨1, 500⟩)) (fun _ userPID pay hdraw => by
    obtain ⟨rfl, rfl⟩ := drawn_eq 8 400 hdraw rfl
    exact ⟨nofun, nofun, by decide, fun _ => by decide⟩) rfl
  have h₄ := h₃.next (l := Label.main (paying 298 ⟨0, 0⟩)) (fun userPID pay hdraw => by
    obtain ⟨rfl, rfl⟩ := drawn_eq 8 300 hdraw rfl
    decide) rfl
  have h₅ := h₄.next (l := Label.main (paying 0 ⟨0, 0⟩)) trivial rfl
  have h₆ := h₅.next (l := Label.main (paying 0 ⟨0, 0⟩)) trivial rfl
  have h₇ := h₆.next (l := Label.main (paying 0 ⟨1, 500⟩))
    (fun t ht => List.mem_singleton.mp ht ▸ by decide) rfl
  have h₈ := h₇.next (l := Label.main (paying 0 ⟨1, 500⟩)) trivial rfl
  exact ⟨_, h₈, sound_of_allowed _ h₈, rfl⟩

end Example
end SimulazioneTransazioni.UserSignals

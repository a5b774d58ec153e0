import SimulazioneTransazioni.UserSignals

/-!
A user as a process that can be interrupted inside its functions. The look-up of
its row and the write to it are two steps, and so are the test of a status and
what follows from it. SIGUSR1 interrupts the main loop and the handler of SIGINT,
SIGINT interrupts the main loop and the handler of SIGUSR1, and neither interrupts
its own handler. What the handler of SIGINT interrupts is never resumed, since the
handler exits. A process about to index a table with -1 makes no step.
-/
namespace SimulazioneTransazioni.UserCalls

open Users MachineInt

/-- What get_balance does after update_status(2): it prints to the stream at
address 2, or raises SIGINT and goes on with a balance; or the end of main's and
of the handler's last branch. -/
inductive End
  | print
  | raise (tempBalance : Option UInt32)
deriving DecidableEq

inductive Mark
  | alive
  | broke
  | dead (e : End)
deriving DecidableEq

def Mark.status : Mark → UserStatus
  | .alive => .alive
  | .broke => .broke
  | .dead _ => .dead

/-- What is left of the function that was called. An index is none for -1. -/
inductive Call
  | returned
  | count
  | balance (tempBalance : UInt32)
  | balanceAt (i : Option ℕ) (tempBalance : UInt32)
  | status (k : Mark)
  | statusAt (i : Option ℕ) (k : Mark)
  | ending (e : End)
deriving DecidableEq

/-- The next step of main's loop, with its local variables. -/
inductive MainPc
  | top
  | balanced
  | draw
  | queue (userPID : PidT) (amount reward : UInt32)
  | init (userPID : PidT) (amount reward : UInt32)
  | send
  | check
deriving DecidableEq

inductive HandlerPc
  | start
  | balanced
  | draw
  | alive (userPID : PidT) (amount reward : UInt32)
  | queue (userPID : PidT) (amount reward : UInt32)
  | init (userPID : PidT) (amount reward : UInt32)
  | send
  | check (retry : UInt32)
  | done
deriving DecidableEq

/-- The next step of user_interrupt_handle, with its variable i. -/
inductive InterruptPc
  | start
  | test (i : Option ℕ)
  | refund (i : Option ℕ)
  | exit
deriving DecidableEq

/-- A function that is being executed, and the one it called. -/
structure Frame (Pc : Type) where
  call : Call
  pc : Pc
deriving DecidableEq

/-- Which functions are being executed. The handler of SIGINT keeps whether it has
interrupted the one of SIGUSR1, whose signal then stays blocked. -/
inductive Control
  | main (m : Frame MainPc)
  | usr1 (h : Frame HandlerPc) (m : Frame MainPc)
  | int (i : Frame InterruptPc) (blocked : Bool)
  | intUsr1 (h : Frame HandlerPc) (i : Frame InterruptPc)
  | exited
deriving DecidableEq

structure Shared where
  usersPID : List User
  nodesPID : List Node
  ledger : Ledger

structure Thread where
  proc : UserProc
  retry : UInt32
  control : Control

namespace Control

def call : Control → Call
  | .main m => m.call
  | .usr1 h _ => h.call
  | .int i _ => i.call
  | .intUsr1 h _ => h.call
  | .exited => .returned

def withCall (call : Call) : Control → Control
  | .main m => .main ⟨call, m.pc⟩
  | .usr1 h m => .usr1 ⟨call, h.pc⟩ m
  | .int i blocked => .int ⟨call, i.pc⟩ blocked
  | .intUsr1 h i => .intUsr1 ⟨call, h.pc⟩ i
  | .exited => .exited

theorem withCall_withCall (c : Control) (call call' : Call) :
    (c.withCall call).withCall call' = c.withCall call' := by
  cases c <;> rfl

theorem call_withCall {c : Control} (h : c.call ≠ .returned) (call : Call) :
    (c.withCall call).call = call := by
  cases c with
  | exited => exact absurd rfl h
  | _ => rfl

/-- A SIGINT, which waits for ever during its own handler. -/
def interrupted : Control → Control
  | .main _ => .int ⟨.returned, .start⟩ false
  | .usr1 _ _ => .int ⟨.returned, .start⟩ true
  | c => c

/-- A SIGUSR1; none while it is blocked. -/
def signalled : Control → Option Control
  | .main m => some (.usr1 ⟨.returned, .start⟩ m)
  | .int i false => some (.intUsr1 ⟨.returned, .start⟩ i)
  | _ => none

end Control

namespace Thread

def withControl (t : Thread) (c : Control) : Thread := { t with control := c }

def withProc (t : Thread) (p : UserProc) (c : Control) : Thread :=
  { t with proc := p, control := c }

def index (t : Thread) (usersPID : List User) : Option ℕ :=
  getPidUserIndex usersPID t.proc.myPID

def writeRow (t : Thread) (usersPID : List User) (i : ℕ) (f : User → User) (p : UserProc)
    (call : Call) : List User × Thread :=
  (usersPID.modify i f,
    t.withProc (p.withErrno (Sem.lockErrno p.errno)) (t.control.withCall call))

def counted (par : Parameters) (t : Thread) (r : Int64 × List Transaction) : Thread :=
  let p := (t.proc.withOutgoing r.2).withErrno (Sem.lockErrno t.proc.errno)
  let tempBalance := unsignedOfLong (longOfUnsigned par.soBudgetInit + r.1)
  if longOfUnsigned par.soBudgetInit < r.1 * (-1) then
    t.withProc p (t.control.withCall (.status (.dead .print)))
  else if p.errno = .ERANGE then
    t.withProc p (t.control.withCall (.status (.dead (.raise (some tempBalance)))))
  else t.withProc p (t.control.withCall (.balance tempBalance))

def count (par : Parameters) (m : Shared) (t : Thread) : Thread :=
  t.counted par (recount t.proc.myPID m.ledger t.proc.outGoingTransactions)

def afterStatus : Mark → Call
  | .dead e => .ending e
  | _ => .returned

def afterRaise : Option UInt32 → Call
  | some tempBalance => .balance tempBalance
  | none => .returned

def stepCall (par : Parameters) (m : Shared) (t : Thread) : Call → Option (List User × Thread)
  | .returned => none
  | .count => some (m.usersPID, t.count par m)
  | .balance tempBalance => some (m.usersPID,
      t.withControl (t.control.withCall (.balanceAt (t.index m.usersPID) tempBalance)))
  | .balanceAt none _ => none
  | .balanceAt (some i) tempBalance =>
    some (t.writeRow m.usersPID i (fun row => { row with balance := tempBalance })
      (t.proc.withBalance tempBalance) .returned)
  | .status k => some (m.usersPID,
      t.withControl (t.control.withCall (.statusAt (t.index m.usersPID) k)))
  | .statusAt none _ => none
  | .statusAt (some i) k =>
    some (t.writeRow m.usersPID i (fun row => { row with status := k.status }) t.proc
      (afterStatus k))
  | .ending .print => some (m.usersPID, t.withControl .exited)
  | .ending (.raise tempBalance) => some (m.usersPID,
      t.withControl (t.control.withCall (afterRaise tempBalance)).interrupted)

def splitPayment (par : Parameters) (m : Shared) (a : Attempt) (t : Thread) :
    Option (PidT × UInt32 × UInt32) :=
  match drawPayment par m.usersPID m.nodesPID a t.proc with
  | .error _ => none
  | .ok (userPID, amount) =>
    some (userPID, amount - reward amount par.soReward, reward amount par.soReward)

def findQueue (a : Attempt) (t : Thread) : Option UserProc :=
  (queueToPid a.queues t.proc).toOption

def build (par : Parameters) (a : Attempt) (userPID : PidT) (amount reward : UInt32)
    (t : Thread) : UserProc :=
  transactionInit par a.clock userPID (intOfUnsigned amount) (intOfUnsigned reward) t.proc

def stepMain (par : Parameters) (m : Shared) (a : Attempt) (t : Thread) :
    MainPc → Option Thread
  | .top => some (t.withControl (.main ⟨.count, .balanced⟩))
  | .balanced =>
    if 2 ≤ t.proc.currBalance then some (t.withControl (.main ⟨.status .alive, .draw⟩))
    else some (t.withControl (.main ⟨.status .broke, .top⟩))
  | .draw => (t.splitPayment par m a).map fun (userPID, amount, reward) =>
      t.withControl (.main ⟨.returned, .queue userPID amount reward⟩)
  | .queue userPID amount reward => (t.findQueue a).map fun p =>
      t.withProc p (.main ⟨.returned, .init userPID amount reward⟩)
  | .init userPID amount reward =>
    some (t.withProc (t.build par a userPID amount reward) (.main ⟨.returned, .send⟩))
  | .send =>
    let (code, p) := sendTransaction a.msgsnd t.proc
    some ⟨p, UserSignals.State.retryAfter par t.retry code, .main ⟨.returned, .check⟩⟩
  | .check =>
    if t.retry = 0 then
      some (t.withControl (.main ⟨.status (.dead (.raise none)), .top⟩))
    else some (t.withControl (.main ⟨.returned, .top⟩))

/-- A step of user_transactions_handle; its frame is none when it returns. -/
def stepHandler (par : Parameters) (m : Shared) (a : Attempt) (t : Thread) :
    HandlerPc → Option (UserProc × Option (Frame HandlerPc))
  | .start => some (t.proc, some ⟨.count, .balanced⟩)
  | .balanced =>
    if 2 ≤ t.proc.currBalance then some (t.proc, some ⟨.returned, .draw⟩)
    else some (t.proc, none)
  | .draw => (t.splitPayment par m a).map fun (userPID, amount, reward) =>
      (t.proc, some ⟨.returned, .alive userPID amount reward⟩)
  | .alive userPID amount reward =>
    some (t.proc, some ⟨.status .alive, .queue userPID amount reward⟩)
  | .queue userPID amount reward => (t.findQueue a).map fun p =>
      (p, some ⟨.returned, .init userPID amount reward⟩)
  | .init userPID amount reward =>
    some (t.build par a userPID amount reward, some ⟨.returned, .send⟩)
  | .send =>
    let (code, p) := sendTransaction a.msgsnd t.proc
    some (p, some ⟨.returned, .check (UserSignals.State.retryAfter par par.soRetry code)⟩)
  | .check retry =>
    if retry = 0 then some (t.proc, some ⟨.status (.dead (.raise none)), .done⟩)
    else some (t.proc, none)
  | .done => some (t.proc, none)

/-- The status that user_interrupt_handle finds in the user's row; it looks the row
up again. -/
def finalStatus (m : Shared) (t : Thread) (i : Option ℕ) : Option (Frame InterruptPc) :=
  ((t.index m.usersPID).bind fun j => m.usersPID[j]?).bind fun row =>
    if row.status = .dead then some ⟨.returned, .refund i⟩
    else (i.bind fun j => m.usersPID[j]?).map fun row =>
      ⟨.status (if 2 ≤ row.balance then .alive else .broke), .refund i⟩

/-- A step of user_interrupt_handle; its frame is none when it exits. -/
def stepInterrupt (m : Shared) (t : Thread) :
    InterruptPc → Option (List User × UserProc × Option (Frame InterruptPc))
  | .start => some (m.usersPID, t.proc, some ⟨.count, .test (t.index m.usersPID)⟩)
  | .test i => (t.finalStatus m i).map fun f => (m.usersPID, t.proc, some f)
  | .refund i =>
    let p := t.proc.withErrno (Sem.lockErrno t.proc.errno)
    if t.proc.outGoingTransactions = [] then some (m.usersPID, p, some ⟨.returned, .exit⟩)
    else i.map fun i =>
      (m.usersPID.modify i (refund t.proc.outGoingTransactions), p, some ⟨.returned, .exit⟩)
  | .exit => some (m.usersPID, t.proc, none)

def step (par : Parameters) (m : Shared) (a : Attempt) (t : Thread) :
    Option (List User × Thread) :=
  match t.control with
  | .main ⟨.returned, pc⟩ => (t.stepMain par m a pc).map fun t => (m.usersPID, t)
  | .usr1 ⟨.returned, pc⟩ f => (t.stepHandler par m a pc).map fun (p, h) =>
      (m.usersPID, t.withProc p (h.elim (.main f) fun h => .usr1 h f))
  | .int ⟨.returned, pc⟩ blocked => (t.stepInterrupt m pc).map fun (usersPID, p, f) =>
      (usersPID, t.withProc p (f.elim .exited fun f => .int f blocked))
  | .intUsr1 ⟨.returned, pc⟩ f => (t.stepHandler par m a pc).map fun (p, h) =>
      (m.usersPID, t.withProc p (h.elim (.int f false) fun h => .intUsr1 h f))
  | .exited => none
  | c => t.stepCall par m c.call

def sends (t : Thread) : Bool :=
  match t.control with
  | .main ⟨.returned, .send⟩ => true
  | .usr1 ⟨.returned, .send⟩ _ => true
  | .intUsr1 ⟨.returned, .send⟩ _ => true
  | _ => false

/-- The next step looks up the row that a later one writes. -/
def looksUp (t : Thread) : Bool :=
  match t.control with
  | .int ⟨.returned, .start⟩ _ => true
  | c =>
    match c.call with
    | .balance _ => true
    | .status _ => true
    | _ => false

def start (par : Parameters) (myPID : PidT) : Thread where
  proc := ⟨myPID, 0, .zero, par.soBudgetInit, [], ⟨0, .zero⟩⟩
  retry := par.soRetry
  control := .main ⟨.returned, .top⟩

section Steps

variable {par : Parameters} {m : Shared} {a : Attempt} {t t' : Thread} {rows : List User}

theorem step_call (h : t.control.call ≠ .returned) :
    t.step par m a = t.stepCall par m t.control.call := by
  unfold step
  generalize t.control = c at h
  cases c with
  | main f =>
    obtain ⟨call, pc⟩ := f
    cases call with
    | returned => exact absurd rfl h
    | _ => rfl
  | usr1 f f' =>
    obtain ⟨call, pc⟩ := f
    cases call with
    | returned => exact absurd rfl h
    | _ => rfl
  | int f blocked =>
    obtain ⟨call, pc⟩ := f
    cases call with
    | returned => exact absurd rfl h
    | _ => rfl
  | intUsr1 f f' =>
    obtain ⟨call, pc⟩ := f
    cases call with
    | returned => exact absurd rfl h
    | _ => rfl
  | exited => exact absurd rfl h

inductive Called (m : Shared) (t : Thread) : Call → List User → Thread → Prop
  | dies (p : UserProc) (e : End) (hpid : p.myPID = t.proc.myPID) :
      Called m t .count m.usersPID (t.withProc p (t.control.withCall (.status (.dead e))))
  | counts (p : UserProc) (tempBalance : UInt32) (hpid : p.myPID = t.proc.myPID) :
      Called m t .count m.usersPID (t.withProc p (t.control.withCall (.balance tempBalance)))
  | findsBalance (tempBalance : UInt32) :
      Called m t (.balance tempBalance) m.usersPID
        (t.withControl (t.control.withCall (.balanceAt (t.index m.usersPID) tempBalance)))
  | writesBalance (i : ℕ) (tempBalance : UInt32) (p : UserProc)
      (hpid : p.myPID = t.proc.myPID) :
      Called m t (.balanceAt (some i) tempBalance)
        (m.usersPID.modify i fun row => { row with balance := tempBalance })
        (t.withProc p (t.control.withCall .returned))
  | findsStatus (k : Mark) :
      Called m t (.status k) m.usersPID
        (t.withControl (t.control.withCall (.statusAt (t.index m.usersPID) k)))
  | writesStatus (i : ℕ) (k : Mark) (p : UserProc) (hpid : p.myPID = t.proc.myPID) :
      Called m t (.statusAt (some i) k)
        (m.usersPID.modify i fun row => { row with status := k.status })
        (t.withProc p (t.control.withCall (afterStatus k)))
  | prints : Called m t (.ending .print) m.usersPID (t.withControl .exited)
  | raises (tempBalance : Option UInt32) :
      Called m t (.ending (.raise tempBalance)) m.usersPID
        (t.withControl (t.control.withCall (afterRaise tempBalance)).interrupted)

theorem count_called (par : Parameters) (m : Shared) (t : Thread) :
    Called m t .count m.usersPID (t.count par m) := by
  unfold count counted
  dsimp only
  split
  · exact .dies _ _ rfl
  · split
    · exact .dies _ _ rfl
    · exact .counts _ _ rfl

/-- A step of the function called is one of the cases of Called. -/
theorem stepCall_called {call : Call} (h : t.stepCall par m call = some (rows, t')) :
    Called m t call rows t' := by
  cases call with
  | returned => contradiction
  | count =>
    cases h
    exact count_called par m t
  | balance tempBalance =>
    cases h
    exact .findsBalance tempBalance
  | balanceAt i tempBalance =>
    cases i with
    | none => contradiction
    | some i =>
      cases h
      exact .writesBalance i tempBalance _ rfl
  | status k =>
    cases h
    exact .findsStatus k
  | statusAt i k =>
    cases i with
    | none => contradiction
    | some i =>
      cases h
      exact .writesStatus i k _ rfl
  | ending e =>
    cases e with
    | print =>
      cases h
      exact .prints
    | raise tempBalance =>
      cases h
      exact .raises tempBalance

inductive Stepped (par : Parameters) (m : Shared) (a : Attempt) (t : Thread) :
    List User → Thread → Prop
  | call (rows : List User) (t' : Thread) (hcall : t.control.call ≠ .returned)
      (h : Called m t t.control.call rows t') : Stepped par m a t rows t'
  | main (pc : MainPc) (t' : Thread) (hc : t.control = .main ⟨.returned, pc⟩)
      (h : t.stepMain par m a pc = some t') : Stepped par m a t m.usersPID t'
  | usr1 (pc : HandlerPc) (f : Frame MainPc) (p : UserProc) (f' : Option (Frame HandlerPc))
      (hc : t.control = .usr1 ⟨.returned, pc⟩ f)
      (h : t.stepHandler par m a pc = some (p, f')) :
      Stepped par m a t m.usersPID (t.withProc p (f'.elim (.main f) fun f' => .usr1 f' f))
  | int (pc : InterruptPc) (blocked : Bool) (rows : List User) (p : UserProc)
      (f : Option (Frame InterruptPc)) (hc : t.control = .int ⟨.returned, pc⟩ blocked)
      (h : t.stepInterrupt m pc = some (rows, p, f)) :
      Stepped par m a t rows (t.withProc p (f.elim .exited fun f => .int f blocked))
  | intUsr1 (pc : HandlerPc) (f : Frame InterruptPc) (p : UserProc)
      (f' : Option (Frame HandlerPc)) (hc : t.control = .intUsr1 ⟨.returned, pc⟩ f)
      (h : t.stepHandler par m a pc = some (p, f')) :
      Stepped par m a t m.usersPID (t.withProc p (f'.elim (.int f false) fun f' => .intUsr1 f' f))

/-- A step of a process is one of the cases of Stepped. -/
theorem step_stepped (h : t.step par m a = some (rows, t')) : Stepped par m a t rows t' := by
  by_cases hcall : t.control.call = .returned
  · unfold step at h
    split at h
    next pc hc =>
      obtain ⟨t₁, ht₁, hpair⟩ := Option.map_eq_some_iff.mp h
      cases hpair
      exact .main pc t' hc ht₁
    next pc f hc =>
      obtain ⟨⟨p, f'⟩, hp, hpair⟩ := Option.map_eq_some_iff.mp h
      cases hpair
      exact .usr1 pc f p f' hc hp
    next pc blocked hc =>
      obtain ⟨⟨rows', p, f⟩, hp, hpair⟩ := Option.map_eq_some_iff.mp h
      cases hpair
      exact .int pc blocked rows p f hc hp
    next pc f hc =>
      obtain ⟨⟨p, f'⟩, hp, hpair⟩ := Option.map_eq_some_iff.mp h
      cases hpair
      exact .intUsr1 pc f p f' hc hp
    · contradiction
    next hcases =>
      rw [hcall] at h
      contradiction
  · rw [step_call hcall] at h
    exact .call rows t' hcall (stepCall_called h)

def writes (t : Thread) : Option (Option ℕ) :=
  match t.control with
  | .int ⟨.returned, .refund i⟩ _ =>
    if t.proc.outGoingTransactions = [] then none else some i
  | c =>
    match c.call with
    | .balanceAt i _ => some i
    | .statusAt i _ => some i
    | _ => none

inductive Wrote (t : Thread) (rows : List User) : List User → Prop
  | nothing : Wrote t rows rows
  | balance (i : ℕ) (f : User → User) (hi : t.writes = some (some i))
      (hpid : ∀ row, (f row).pid = row.pid) (hstatus : ∀ row, (f row).status = row.status) :
      Wrote t rows (rows.modify i f)
  | status (i : ℕ) (k : Mark) (hcall : t.control.call = .statusAt (some i) k) :
      Wrote t rows (rows.modify i fun row => { row with status := k.status })

theorem writes_call {i : ℕ} (h : (∃ tempBalance, t.control.call = .balanceAt (some i) tempBalance) ∨
    ∃ k, t.control.call = .statusAt (some i) k) :
    t.writes = some (some i) := by
  unfold writes
  split
  next hc =>
    rw [hc] at h
    rcases h with ⟨_, hcall⟩ | ⟨_, hcall⟩
    · contradiction
    · contradiction
  next =>
    rcases h with ⟨_, hcall⟩ | ⟨_, hcall⟩
    · rw [hcall]
    · rw [hcall]

theorem called_wrote (h : Called m t t.control.call rows t') :
    t'.proc.myPID = t.proc.myPID ∧ Wrote t m.usersPID rows := by
  generalize hc : t.control.call = call at h
  cases h with
  | dies p e hpid => exact ⟨hpid, .nothing⟩
  | counts p tempBalance hpid => exact ⟨hpid, .nothing⟩
  | findsBalance tempBalance => exact ⟨rfl, .nothing⟩
  | writesBalance i tempBalance p hpid =>
    exact ⟨hpid, .balance i _ (writes_call (Or.inl ⟨_, hc⟩)) (fun _ => rfl) fun _ => rfl⟩
  | findsStatus k => exact ⟨rfl, .nothing⟩
  | writesStatus i k p hpid => exact ⟨hpid, .status i k hc⟩
  | prints => exact ⟨rfl, .nothing⟩
  | raises tempBalance => exact ⟨rfl, .nothing⟩

theorem findQueue_myPID {p : UserProc} (h : t.findQueue a = some p) :
    p.myPID = t.proc.myPID := by
  unfold findQueue at h
  cases hqueue : queueToPid a.queues t.proc with
  | error f =>
    rw [hqueue] at h
    contradiction
  | ok q =>
    rw [hqueue] at h
    obtain ⟨errno, queueID, rfl⟩ := queueToPid_ok hqueue
    rw [← Option.some.inj h]

theorem stepMain_myPID {pc : MainPc} (h : t.stepMain par m a pc = some t') :
    t'.proc.myPID = t.proc.myPID := by
  cases pc with
  | top =>
    rw [← Option.some.inj h]
    rfl
  | balanced =>
    simp only [stepMain] at h
    split at h
    · rw [← Option.some.inj h]
      rfl
    · rw [← Option.some.inj h]
      rfl
  | draw =>
    obtain ⟨r, -, rfl⟩ := Option.map_eq_some_iff.mp h
    rfl
  | queue userPID amount reward =>
    obtain ⟨p, hp, rfl⟩ := Option.map_eq_some_iff.mp h
    exact findQueue_myPID hp
  | init userPID amount reward =>
    rw [← Option.some.inj h]
    rfl
  | send =>
    rw [← Option.some.inj h]
    exact sendTransaction_myPID _ _
  | check =>
    simp only [stepMain] at h
    split at h
    · rw [← Option.some.inj h]
      rfl
    · rw [← Option.some.inj h]
      rfl

theorem stepMain_control {pc : MainPc} (h : t.stepMain par m a pc = some t') :
    ∃ f, t'.control = .main f := by
  cases pc with
  | balanced =>
    simp only [stepMain] at h
    split at h
    · exact ⟨_, by rw [← Option.some.inj h]; rfl⟩
    · exact ⟨_, by rw [← Option.some.inj h]; rfl⟩
  | check =>
    simp only [stepMain] at h
    split at h
    · exact ⟨_, by rw [← Option.some.inj h]; rfl⟩
    · exact ⟨_, by rw [← Option.some.inj h]; rfl⟩
  | draw =>
    obtain ⟨r, -, rfl⟩ := Option.map_eq_some_iff.mp h
    exact ⟨_, rfl⟩
  | queue userPID amount reward =>
    obtain ⟨p, -, rfl⟩ := Option.map_eq_some_iff.mp h
    exact ⟨_, rfl⟩
  | top => exact ⟨_, by rw [← Option.some.inj h]; rfl⟩
  | init userPID amount reward => exact ⟨_, by rw [← Option.some.inj h]; rfl⟩
  | send => exact ⟨_, by rw [← Option.some.inj h]⟩

theorem stepHandler_myPID {pc : HandlerPc} {r : UserProc × Option (Frame HandlerPc)}
    (h : t.stepHandler par m a pc = some r) : r.1.myPID = t.proc.myPID := by
  cases pc with
  | queue userPID amount reward =>
    obtain ⟨p, hp, rfl⟩ := Option.map_eq_some_iff.mp h
    exact findQueue_myPID hp
  | send =>
    rw [← Option.some.inj h]
    exact sendTransaction_myPID _ _
  | draw =>
    obtain ⟨r, -, rfl⟩ := Option.map_eq_some_iff.mp h
    rfl
  | balanced =>
    simp only [stepHandler] at h
    split at h
    · rw [← Option.some.inj h]
    · rw [← Option.some.inj h]
  | check retry =>
    simp only [stepHandler] at h
    split at h
    · rw [← Option.some.inj h]
    · rw [← Option.some.inj h]
  | start => rw [← Option.some.inj h]
  | alive userPID amount reward => rw [← Option.some.inj h]
  | init userPID amount reward =>
    rw [← Option.some.inj h]
    rfl
  | done => rw [← Option.some.inj h]

/-- A step of a process leaves its pid, and writes one row at most. -/
theorem step_wrote (h : t.step par m a = some (rows, t')) :
    t'.proc.myPID = t.proc.myPID ∧ Wrote t m.usersPID rows := by
  cases step_stepped h with
  | call _ _ hcall hcalled => exact called_wrote hcalled
  | main pc _ hc hmain => exact ⟨stepMain_myPID hmain, .nothing⟩
  | usr1 pc f p f' hc hp => exact ⟨stepHandler_myPID hp, .nothing⟩
  | intUsr1 pc f p f' hc hp => exact ⟨stepHandler_myPID hp, .nothing⟩
  | int pc blocked _ p f hc hp =>
    cases pc with
    | start =>
      cases hp
      exact ⟨rfl, .nothing⟩
    | test i =>
      obtain ⟨f', -, heq⟩ := Option.map_eq_some_iff.mp hp
      cases heq
      exact ⟨rfl, .nothing⟩
    | refund i =>
      simp only [stepInterrupt] at hp
      split at hp
      · cases hp
        exact ⟨rfl, .nothing⟩
      next hout =>
        obtain ⟨j, rfl, heq⟩ := Option.map_eq_some_iff.mp hp
        cases heq
        refine ⟨rfl, .balance j _ ?_ (fun _ => rfl) fun _ => rfl⟩
        simp only [writes, hc, if_neg hout]
    | exit =>
      cases hp
      exact ⟨rfl, .nothing⟩

end Steps

section Uninterrupted

variable {par : Parameters} {m : Shared} {a : Attempt} {t : Thread} {rows : List User}
  {p : UserProc}

def steps (par : Parameters) (a : Attempt) : ℕ → Shared → Thread → Option (List User × Thread)
  | 0, m, t => some (m.usersPID, t)
  | n + 1, m, t => (t.step par m a).bind fun (rows, t) =>
      steps par a n { m with usersPID := rows } t

theorem steps_succ {n : ℕ} {t' : Thread} (h : t.step par m a = some (rows, t')) :
    steps par a (n + 1) m t = steps par a n { m with usersPID := rows } t' := by
  rw [steps, h, Option.bind_some]

theorem modifyRow_index {f : User → User} (h : modifyRow m.usersPID t.proc f = .ok (rows, p)) :
    ∃ i, t.index m.usersPID = some i ∧ rows = m.usersPID.modify i f ∧
      p = t.proc.withErrno (Sem.lockErrno t.proc.errno) := by
  unfold modifyRow at h
  split at h
  · contradiction
  next i hi =>
    cases h
    exact ⟨i, hi, rfl, rfl⟩

/-- Its two steps make update_status. -/
theorem updateStatus_steps {k : Mark} (hcall : t.control.call = .status k)
    (h : updateStatus k.status m.usersPID t.proc = .ok (rows, p)) :
    steps par a 2 m t = some (rows, t.withProc p (t.control.withCall (afterStatus k))) := by
  obtain ⟨i, hi, rfl, rfl⟩ := modifyRow_index h
  have hgoing : t.control.call ≠ .returned := by simp [hcall]
  have hfirst : t.step par m a = some (m.usersPID,
      t.withControl (t.control.withCall (.statusAt (some i) k))) := by
    rw [step_call hgoing, hcall, stepCall, hi]
  have hnext : (t.withControl (t.control.withCall (.statusAt (some i) k))).control.call =
      .statusAt (some i) k := Control.call_withCall hgoing _
  rw [steps_succ hfirst]
  refine (steps_succ (n := 0) ?_).trans rfl
  rw [step_call (by simp [hnext]), hnext, stepCall, writeRow, withControl,
    Control.withCall_withCall]
  rfl

/-- Its three steps make get_balance where that returns. -/
theorem getBalance_steps (hcall : t.control.call = .count)
    (h : getBalance par m.ledger m.usersPID t.proc = .ok (rows, p)) :
    steps par a 3 m t = some (rows, t.withProc p (t.control.withCall .returned)) := by
  have hgoing : t.control.call ≠ .returned := by simp [hcall]
  unfold getBalance at h
  generalize hr : recount t.proc.myPID m.ledger t.proc.outGoingTransactions = r at h
  dsimp only at h
  split at h
  · contradiction
  next hfunded =>
    split at h
    · contradiction
    next hrange =>
      let q := (t.proc.withOutgoing r.2).withErrno (Sem.lockErrno t.proc.errno)
      let tempBalance := unsignedOfLong (longOfUnsigned par.soBudgetInit + r.1)
      let t₁ := t.withProc q (t.control.withCall (.balance tempBalance))
      obtain ⟨i, hi, rfl, rfl⟩ := modifyRow_index
        (t := t₁.withProc (q.withBalance tempBalance) t₁.control) h
      have hfirst : t.step par m a = some (m.usersPID, t₁) := by
        have hcount : t.counted par r = t₁ := by
          simp only [counted, if_neg hfunded]
          exact if_neg hrange
        rw [step_call hgoing, hcall, stepCall, count, hr, hcount]
      have hcall₁ : t₁.control.call = .balance tempBalance := Control.call_withCall hgoing _
      have hsecond : t₁.step par m a = some (m.usersPID,
          t₁.withControl (t₁.control.withCall (.balanceAt (some i) tempBalance))) := by
        rw [step_call (by simp [hcall₁]), hcall₁, stepCall, ← hi]
        rfl
      have hcall₂ : (t₁.control.withCall (.balanceAt (some i) tempBalance)).call =
          .balanceAt (some i) tempBalance := Control.call_withCall (by simp [hcall₁]) _
      rw [steps_succ hfirst, steps_succ hsecond]
      refine (steps_succ (n := 0) ?_).trans rfl
      have hthird : ∀ t₂ : Thread, t₂.control.call = .balanceAt (some i) tempBalance →
          t₂.step par m a = t₂.stepCall par m t₂.control.call := by
        intro t₂ hcall₃
        exact step_call (by simp [hcall₃])
      rw [hthird _ hcall₂]
      show stepCall par m _ (t₁.control.withCall (.balanceAt (some i) tempBalance)).call = _
      have hcontrol : t₁.control.withCall .returned = t.control.withCall .returned :=
        Control.withCall_withCall _ _ _
      rw [hcall₂, stepCall, writeRow, withControl, Control.withCall_withCall, hcontrol]
      rfl

end Uninterrupted

end Thread
end SimulazioneTransazioni.UserCalls

import SimulazioneTransazioni.Draws
import SimulazioneTransazioni.Parser
import SimulazioneTransazioni.Startup

/-!
The uses of RAND in users.c and nodes.c, in the states that the system reaches with
the parameters of an accepted conf.txt. The parser's corrections order the bounds of
the sleep times and nothing else, so that a divisor can still wrap to zero. A handler
of SIGUSR1 draws out of the balance it has just tested. The main loop may draw out of
one that a handler has lowered since.
-/
namespace SimulazioneTransazioni.DrawRanges

open Nodes Users Network UserCalls Startup Draws

section Uses

inductive Site
  | loop
  | handler
deriving DecidableEq

/-- A use of RAND; that of an amount with the value of currBalance. -/
inductive Use
  | userIndex
  | nodeIndex
  | amount (site : Site) (currBalance : UInt32)
  | friendIndex
  | userSleep
  | nodeSleep

def InRange (r min max : UInt32) : Prop := ∃ d, rand r min max = some d ∧ min ≤ d ∧ d ≤ max

def InRangeLong (r min max : UInt64) : Prop :=
  ∃ d, randLong r min max = some d ∧ min ≤ d ∧ d ≤ max

/-- The use does what it is for; r is the result of rand. -/
def Use.InRange (par : Parameters) (r : UInt32) : Use → Prop
  | .userIndex => DrawRanges.InRange r 0 (par.soUserNum - 1)
  | .nodeIndex => DrawRanges.InRange r 0 (par.soNodesNum * 2 - 1)
  | .amount _ currBalance => DrawRanges.InRange r 2 currBalance
  | .friendIndex => DrawRanges.InRange r 0 (par.soFriendsNum - 1)
  | .userSleep => InRangeLong r.toUInt64 par.soMinTransGenNsec par.soMaxTransGenNsec
  | .nodeSleep => InRangeLong r.toUInt64 par.soMinTransProcNsec par.soMaxTransProcNsec

def site : Control → Option Site
  | .main ⟨.returned, .draw⟩ => some .loop
  | .usr1 ⟨.returned, .draw⟩ _ => some .handler
  | .intUsr1 ⟨.returned, .draw⟩ _ => some .handler
  | _ => none

def FindsUser (par : Parameters) (s : Startup.State) (t : Thread) : Prop :=
  ∃ draws userPID, getRandomUserPID par s.world.usersPID t.proc.myPID draws = .ok userPID

def FindsNode (par : Parameters) (s : Startup.State) : Prop :=
  ∃ draws nodePID, getRandomNodePID par s.world.nodesPID draws = .ok nodePID

def UserMakes (par : Parameters) (s : Startup.State) (t : Thread) : Use → Prop
  | .userIndex => ∃ site', site t.control = some site'
  | .nodeIndex => (∃ site', site t.control = some site') ∧ FindsUser par s t
  | .amount site' currBalance => site t.control = some site' ∧
      t.proc.currBalance = currBalance ∧ FindsUser par s t ∧ FindsNode par s
  | .userSleep => t.control = .main ⟨.returned, .top⟩
  | _ => False

def Hops (par : Parameters) (c : NodeCell) : Prop :=
  c.pc = .fetch ∧ ¬ Receives par c.proc ∧ c.proc.transPool.cells ≠ []

inductive Makes (par : Parameters) (s : Startup.State) : Use → Prop
  | user (use : Use) (t : Thread) (ht : t ∈ s.threads) (h : UserMakes par s t use) :
      Makes par s use
  | node (i : ℕ) (c : NodeCell) (hc : s.world.nodes[i]? = some c) (hi : i ∉ s.stoppedNodes)
      (h : Hops par c) : Makes par s .friendIndex
  | child (c : ℕ) (w : LedgerWriters.Writer) (hw : s.world.children[c]? = some w)
      (hc : c ∉ s.stoppedChildren) (h : w.pc = .building) : Makes par s .nodeSleep

def Use.Holds (par : Parameters) : Use → Prop
  | .userIndex => True
  | .nodeIndex => par.soNodesNum ≠ 0 ∧ par.soNodesNum.toNat ≠ 2 ^ 31
  | .amount .handler _ => True
  | .amount .loop currBalance => 2 ≤ currBalance
  | .friendIndex => par.soFriendsNum ≠ 0
  | .userSleep => par.soMinTransGenNsec ≠ 0 ∨ par.soMaxTransGenNsec.toNat ≠ 2 ^ 64 - 1
  | .nodeSleep => par.soMinTransProcNsec ≠ 0 ∨ par.soMaxTransProcNsec.toNat ≠ 2 ^ 64 - 1

end Uses

section Bounds

variable {par : Parameters} {r : UInt32}

/-- An index is in range unless the number of rows is zero in its type. -/
theorem index_iff {n : UInt32} : InRange r 0 (n - 1) ↔ n ≠ 0 := by
  have hspan : n - 1 - 0 + 1 = n := by grind
  rw [InRange, rand_mem_iff, hspan]
  exact ⟨fun h => h.2, fun h => ⟨UInt32.zero_le, h⟩⟩

theorem double_ne_zero_iff {n : UInt32} : n * 2 ≠ 0 ↔ n ≠ 0 ∧ n.toNat ≠ 2 ^ 31 := by
  have hn := n.toNat_lt
  have htwo : (2 : UInt32).toNat = 2 := rfl
  rw [Ne, Ne, ← UInt32.toNat_inj, ← UInt32.toNat_inj, UInt32.toNat_mul, htwo, UInt32.toNat_zero]
  omega

/-- A sleep time between ordered bounds is in range unless they are those of the
type. -/
theorem sleep_iff {r min max : UInt64} (hle : min ≤ max) :
    InRangeLong r min max ↔ min ≠ 0 ∨ max.toNat ≠ 2 ^ 64 - 1 := by
  have hmin := min.toNat_lt
  have hmax := max.toNat_lt
  have hle' : min.toNat ≤ max.toNat := UInt64.le_iff_toNat_le.mp hle
  have hspan : max - min + 1 ≠ 0 ↔ min ≠ 0 ∨ max.toNat ≠ 2 ^ 64 - 1 := by
    rw [Ne, Ne, ← UInt64.toNat_inj, ← UInt64.toNat_inj, UInt64.toNat_add,
      UInt64.toNat_sub_of_le _ _ hle, UInt64.toNat_one, UInt64.toNat_zero]
    omega
  rw [InRangeLong, randLong_mem_iff, hspan]
  exact ⟨fun h => h.2, fun h => ⟨hle, h⟩⟩

end Bounds

section Traps

variable {par : Parameters} {s : Startup.State}

theorem not_inRange_of_none {r r' min max : UInt32} (h : rand r min max = none) :
    ¬ InRange r' min max := by
  intro hin
  obtain ⟨-, hspan⟩ := rand_mem_iff.mp hin
  rw [rand, if_neg hspan] at h
  contradiction

theorem getRandomUserPID_trap {usersPID : List User} {myPID : PidT} {draws : List UInt32}
    (h : getRandomUserPID par usersPID myPID draws = .error .divisionByZero) (r : UInt32) :
    ¬ InRange r 0 (par.soUserNum - 1) := by
  induction draws with
  | nil => cases h
  | cons r' rest ih =>
    unfold getRandomUserPID at h
    split at h
    next hnone => exact not_inRange_of_none hnone
    next =>
      split at h
      · contradiction
      · split at h
        · contradiction
        · exact ih h

theorem getRandomNodePID_trap {nodesPID : List Node} {draws : List UInt32}
    (h : getRandomNodePID par nodesPID draws = .error .divisionByZero) (r : UInt32) :
    ¬ InRange r 0 (par.soNodesNum * 2 - 1) := by
  induction draws with
  | nil => cases h
  | cons r' rest ih =>
    unfold getRandomNodePID at h
    split at h
    next hnone => exact not_inRange_of_none hnone
    next =>
      split at h
      · contradiction
      · split at h
        · contradiction
        · exact ih h

/-- A user that divides by zero makes a use that is not in range. -/
theorem drawPayment_trap {t : Thread} (ht : t ∈ s.threads) {site' : Site}
    (hsite : site t.control = some site') {a : Attempt}
    (h : drawPayment par s.world.usersPID s.world.nodesPID a t.proc = .error .divisionByZero) :
    ∃ use, Makes par s use ∧ ∀ r, ¬ use.InRange par r := by
  unfold drawPayment at h
  cases huser : getRandomUserPID par s.world.usersPID t.proc.myPID a.userDraws with
  | error f =>
    rw [huser] at h
    cases h
    exact ⟨.userIndex, .user _ t ht ⟨_, hsite⟩, getRandomUserPID_trap huser⟩
  | ok userPID =>
    have hfinds : FindsUser par s t := ⟨_, _, huser⟩
    cases hnode : getRandomNodePID par s.world.nodesPID a.nodeDraws with
    | error f =>
      rw [huser, hnode] at h
      cases h
      exact ⟨.nodeIndex, .user _ t ht ⟨⟨_, hsite⟩, hfinds⟩, getRandomNodePID_trap hnode⟩
    | ok nodePID =>
      have hmakes : Makes par s (.amount site' t.proc.currBalance) :=
        .user _ t ht ⟨hsite, rfl, hfinds, ⟨_, _, hnode⟩⟩
      rw [huser, hnode] at h
      simp only [bind, Except.bind] at h
      split at h
      next hnone => exact ⟨_, hmakes, fun r => not_inRange_of_none hnone⟩
      next => contradiction

/-- So does a node. -/
theorem fetchMessages_trap {i : ℕ} {c : NodeCell} (hc : s.world.nodes[i]? = some c)
    (hi : i ∉ s.stoppedNodes) (hpc : c.pc = .fetch) {of : FetchOutcome} {oh : HopOutcome}
    (h : fetchMessages par of oh c.proc = .error .divisionByZero) :
    ∃ use, Makes par s use ∧ ∀ r, ¬ use.InRange par r := by
  unfold fetchMessages at h
  split at h
  · contradiction
  next hfull =>
    have htrap : sendToRandomFriend par oh c.proc = .error .divisionByZero := by
      cases hsend : sendToRandomFriend par oh c.proc with
      | error halt =>
        rw [hsend] at h
        cases h
        rfl
      | ok r =>
        rw [hsend] at h
        cases h
    unfold sendToRandomFriend at htrap
    split at htrap
    · contradiction
    next m rest hrem =>
      have hcells : c.proc.transPool.cells ≠ [] := by
        rw [removeFromPool_eq_some hrem]
        exact List.cons_ne_nil _ _
      refine ⟨.friendIndex, .node i c hc hi ⟨hpc, hfull, hcells⟩, ?_⟩
      unfold hop at htrap
      split at htrap
      next hnone => exact fun r => not_inRange_of_none hnone
      next =>
        split at htrap
        · cases htrap
        · split at htrap
          · cases htrap
          · split at htrap
            · cases htrap
            · cases htrap

end Traps

section Funded

variable {par : Parameters} {m : Shared} {a : Attempt} {t t' : Thread} {rows : List User}
  {f : Frame HandlerPc}

def handlerFrame : Control → Option (Frame HandlerPc)
  | .usr1 f _ => some f
  | .intUsr1 f _ => some f
  | _ => none

def FrameFunded (p : UserProc) (f : Frame HandlerPc) : Prop :=
  f.pc = .draw → f.call = .returned ∧ 2 ≤ p.currBalance

def Funded (t : Thread) : Prop := ∀ f ∈ handlerFrame t.control, FrameFunded t.proc f

theorem handlerFrame_withCall {c : Control} {call : Call}
    (h : f ∈ handlerFrame (c.withCall call)) :
    ∃ f₀ ∈ handlerFrame c, f₀.pc = f.pc ∧ f₀.call = c.call := by
  cases c with
  | usr1 f₀ m =>
    cases h
    exact ⟨f₀, rfl, rfl, rfl⟩
  | intUsr1 f₀ i =>
    cases h
    exact ⟨f₀, rfl, rfl, rfl⟩
  | _ => cases h

theorem handlerFrame_interrupted {c : Control} (h : f ∈ handlerFrame c.interrupted) :
    f ∈ handlerFrame c := by
  cases c with
  | usr1 f₀ m => cases h
  | _ => exact h

/-- The handler goes from its test to its draws without a call. -/
theorem called_funded (hcall : t.control.call ≠ .returned) (hfunded : Funded t)
    (h : Thread.Called m t t.control.call rows t') : Funded t' := by
  have hnone : ∀ call, ∀ f ∈ handlerFrame (t.control.withCall call), f.pc ≠ .draw := by
    intro call f hf hpc
    obtain ⟨f₀, hf₀, hsame, hreturned⟩ := handlerFrame_withCall hf
    obtain ⟨hdone, -⟩ := hfunded f₀ hf₀ (hsame.trans hpc)
    exact hcall (hreturned.symm.trans hdone)
  intro f hf hpc
  generalize t.control.call = call at h
  cases h with
  | prints => cases hf
  | raises tempBalance => exact absurd hpc (hnone _ f (handlerFrame_interrupted hf))
  | _ => exact absurd hpc (hnone _ f hf)

/-- The test comes right before the draws. -/
theorem stepHandler_funded {pc : HandlerPc} {p : UserProc}
    (h : t.stepHandler par m a pc = some (p, some f)) : FrameFunded p f := by
  intro hpc
  cases pc with
  | balanced =>
    simp only [Thread.stepHandler] at h
    split at h
    next htwo =>
      cases h
      exact ⟨rfl, htwo⟩
    next => cases h
  | draw =>
    obtain ⟨r, -, heq⟩ := Option.map_eq_some_iff.mp h
    cases heq
    cases hpc
  | queue userPID amount reward =>
    obtain ⟨q, -, heq⟩ := Option.map_eq_some_iff.mp h
    cases heq
    cases hpc
  | check retry =>
    simp only [Thread.stepHandler] at h
    split at h
    · cases h
      cases hpc
    · cases h
  | done => cases h
  | _ =>
    cases h
    cases hpc

/-- A step of a user keeps that a handler about to draw has tested the balance. -/
theorem step_funded (hfunded : Funded t) (h : t.step par m a = some (rows, t')) :
    Funded t' := by
  cases Thread.step_stepped h with
  | call _ _ hcall hcalled => exact called_funded hcall hfunded hcalled
  | main pc _ hc hmain =>
    obtain ⟨m', hm'⟩ := Thread.stepMain_control hmain
    intro f hf
    rw [hm'] at hf
    cases hf
  | usr1 pc m' p f' hc hp =>
    intro f hf
    cases f' with
    | none => cases hf
    | some f' =>
      cases hf
      exact stepHandler_funded hp
  | int pc blocked _ p i hc hp =>
    intro f hf
    cases i with
    | none => cases hf
    | some i => cases hf
  | intUsr1 pc i p f' hc hp =>
    intro f hf
    cases f' with
    | none => cases hf
    | some f' =>
      cases hf
      exact stepHandler_funded hp

theorem signalled_funded {c : Control} (h : t.control.signalled = some c) :
    Funded (t.withControl c) := by
  have hstart : ∀ f ∈ handlerFrame c, f.pc = .start := by
    intro f hf
    generalize t.control = c₀ at h
    cases c₀ with
    | main m' =>
      cases h
      cases hf
      rfl
    | int i blocked =>
      cases blocked with
      | false =>
        cases h
        cases hf
        rfl
      | true => cases h
    | _ => cases h
  intro f hf hpc
  rw [hstart f hf] at hpc
  cases hpc

theorem moved_funded {s : Startup.State} (hfunded : Funded t) (h : Moved par s t t') :
    Funded t' := by
  cases h with
  | step a rows t' hstep => exact step_funded hfunded hstep
  | sigusr1 c hc => exact signalled_funded hc
  | sigint => exact fun f hf => hfunded f (handlerFrame_interrupted hf)

end Funded

section Reached

variable {par : Parameters} {s : Startup.State} {threads : List Thread}

structure Inv (par : Parameters) (threads : List Thread) : Prop where
  numbered : threads ≠ [] → par.soUserNum ≠ 0
  funded : ∀ t ∈ threads, Funded t

theorem inv_step (h : Inv par s.threads) (hthreads : Threads par s threads) :
    Inv par threads := by
  cases hthreads with
  | same => exact h
  | fork pid hnum =>
    refine ⟨fun _ => hnum, ?_⟩
    intro t ht
    rcases List.mem_append.mp ht with hold | hnew
    · exact h.funded t hold
    · rw [List.mem_singleton.mp hnew]
      intro f hf
      cases hf
  | move u t t' ht hmoved =>
    have hmem := List.mem_of_getElem? ht
    refine ⟨fun _ => h.numbered (List.ne_nil_of_mem hmem), ?_⟩
    intro t₁ ht₁
    rcases List.mem_or_eq_of_mem_set ht₁ with hold | rfl
    · exact h.funded t₁ hold
    · exact moved_funded (h.funded t hmem) hmoved

/-- In every reachable state a handler about to draw has tested the balance. -/
theorem reach_inv (hs : (Startup.machine par).Reachable s) : Inv par s.threads := by
  refine hs.invariant (I := fun s => Inv par s.threads) ?_ ?_
  · intro s hinitial
    constructor
    · exact fun hne => absurd hinitial.threads hne
    · rw [hinitial.threads]
      exact fun t ht => absurd ht List.not_mem_nil
  · exact fun s l s' h _ hn => inv_step h (next_threads hn)

/-- The balance at the draws of the handler. -/
theorem handler_balance {t : Thread} (hfunded : Funded t)
    (hsite : site t.control = some .handler) : 2 ≤ t.proc.currBalance := by
  have hframe : ∃ f ∈ handlerFrame t.control, f.pc = .draw := by
    unfold site at hsite
    split at hsite
    next => contradiction
    next m hc => exact ⟨_, by rw [hc]; rfl, rfl⟩
    next i hc => exact ⟨_, by rw [hc]; rfl, rfl⟩
    next => contradiction
  obtain ⟨f, hf, hpc⟩ := hframe
  exact (hfunded f hf hpc).2

end Reached

section Examples

def conf (nodes : String) : List Char :=
  ["SO_USER_NUM 2", nodes, "SO_FRIENDS_NUM 1", "SO_SIM_SEC 10", "SO_HOPS 10",
    "SO_BUDGET_INIT 1000", "SO_REWARD 1", "SO_MIN_TRANS_GEN_NSEC 100000000",
    "SO_MAX_TRANS_GEN_NSEC 200000000", "SO_RETRY 20", "SO_TP_SIZE 1000",
    "SO_MIN_TRANS_PROC_NSEC 100000000", "SO_MAX_TRANS_PROC_NSEC 200000000"].flatMap
      fun line => line.toList ++ ['\n']

def parameters (nodes : UInt32) : Parameters :=
  { assignDefaults with soUserNum := 2, soNodesNum := nodes, soFriendsNum := nodes }

theorem conf_zero : Parser.parseParameters .zero (some (conf "SO_NODES_NUM 0")) =
    some (0, parameters 0) := by
  decide +kernel

theorem conf_one : Parser.parseParameters .zero (some (conf "SO_NODES_NUM 1")) =
    some (0, parameters 1) := by
  decide +kernel

def launch (nodes : UInt32) : Startup.State where
  world :=
    { master := 7
      listenerPID := 8
      adopter := 1
      queues := [Queues.create 7]
      usersPID := List.replicate 2 ⟨0, 0, .alive⟩
      nodesPID := List.replicate (nodes * 2).toNat ⟨0, 0, 0, .available⟩
      ledger := Ledger.zero
      users := []
      nodes := []
      children := []
      listener := ⟨.zero, 0, ⟨0, .zero⟩, 0, .receive⟩
      sent := [] }
  threads := []
  master := .forkNode 0
  storing := none
  stoppedNodes := []
  stoppedChildren := []

theorem launch_initial (nodes : UInt32) : Startup.Initial (parameters nodes) (launch nodes) := by
  have hpid : (0 : PidT) < 7 := by decide
  exact ⟨rfl, hpid, rfl, rfl, rfl, rfl, rfl, rfl, rfl, rfl, ⟨rfl, rfl⟩, rfl, ⟨rfl, rfl⟩⟩

def master (pid : PidT) : Startup.Label := .master ⟨.parent pid, fun _ => 0, none⟩

def pay : Attempt := ⟨[1], [0], 998, [.found 11], ⟨1, 0⟩, .sent⟩

def toDraws : List Startup.Label :=
  List.replicate 3 (master 21) ++ List.replicate 3 (master 22) ++
    List.replicate 7 (.user 0 pay)

def served : List Startup.Label :=
  [master 11, master 11, .node 0 ⟨none, none, none, 0, .failed .EAGAIN⟩] ++
    List.replicate 5 (master 11) ++ toDraws

theorem unserved_run : ∃ s, (Startup.machine (parameters 0)).run (launch 0)
    (master 21 :: toDraws) = some s ∧ ∃ t rest, s.threads = t :: rest ∧
      site t.control = some .loop ∧
      getRandomUserPID (parameters 0) s.world.usersPID t.proc.myPID [1] = .ok 22 :=
  ⟨_, rfl, _, _, rfl, rfl, rfl⟩

def CanPay (s : Startup.State) (currBalance : UInt32) : Prop :=
  ∃ t rest, s.threads = t :: rest ∧ site t.control = some .loop ∧
    t.proc.currBalance = currBalance ∧
    getRandomUserPID (parameters 1) s.world.usersPID t.proc.myPID [1] = .ok 22 ∧
    getRandomNodePID (parameters 1) s.world.nodesPID [0] = .ok 11

theorem makes_amount {s : Startup.State} {currBalance : UInt32} (h : CanPay s currBalance) :
    Makes (parameters 1) s (.amount .loop currBalance) := by
  obtain ⟨t, rest, hthreads, hsite, hbalance, huser, hnode⟩ := h
  refine .user _ t ?_ ⟨hsite, hbalance, ⟨_, _, huser⟩, ⟨_, _, hnode⟩⟩
  rw [hthreads]
  exact List.mem_cons_self

theorem served_run : ∃ s, (Startup.machine (parameters 1)).run (launch 1) served = some s ∧
    CanPay s 1000 :=
  ⟨_, rfl, _, _, rfl, rfl, rfl, rfl, rfl⟩

/-- In every state that is reached with an accepted conf.txt, and whatever rand
returns, a use of RAND is in range exactly under its condition. -/
theorem draw_in_range_iff {errno : Errno} {conf : Option (List Char)} {par : Parameters}
    (hconf : Parser.parseParameters errno conf = some (0, par)) {s : Startup.State}
    (hs : (Startup.machine par).Reachable s) {use : Use} (huse : Makes par s use) (r : UInt32) :
    use.InRange par r ↔ use.Holds par := by
  obtain ⟨hgen, hproc, -, -⟩ := Parser.corrected_of_accepted hconf
  have hinv := reach_inv hs
  cases use with
  | userIndex =>
    cases huse with
    | user _ t ht _ =>
      have hnum := hinv.numbered (List.ne_nil_of_mem ht)
      exact ⟨fun _ => trivial, fun _ => index_iff.mpr hnum⟩
  | nodeIndex => exact index_iff.trans double_ne_zero_iff
  | amount site' currBalance =>
    cases huse with
    | user _ t ht h =>
      obtain ⟨hsite, hbalance, -, -⟩ := h
      cases site' with
      | loop => exact rand_sum_iff
      | handler =>
        have htwo := handler_balance (hinv.funded t ht) hsite
        rw [hbalance] at htwo
        exact ⟨fun _ => trivial, fun _ => rand_sum_iff.mpr htwo⟩
  | friendIndex => exact index_iff
  | userSleep => exact sleep_iff hgen
  | nodeSleep => exact sleep_iff hproc

/-- The loop draws an amount out of a balance that nobody has lowered. -/
theorem draw_in_range_loop : ∃ s, (Startup.machine (parameters 1)).Reachable s ∧
    Makes (parameters 1) s (.amount .loop 1000) ∧
    ∀ r, (Use.amount .loop 1000).InRange (parameters 1) r ↔
      (Use.amount .loop 1000).Holds (parameters 1) := by
  obtain ⟨s, hrun, hpay⟩ := served_run
  have hs := Machine.reachable_of_run _ (launch_initial 1) hrun
  exact ⟨s, hs, makes_amount hpay, draw_in_range_iff conf_one hs (makes_amount hpay)⟩

/-- The handler comes between the test of the loop and its draws, and spends all
there is. -/
theorem handled_run : ∃ s, (Startup.machine (parameters 1)).run (launch 1)
    (served ++ .sigusr1 0 :: List.replicate 13 (.user 0 pay)) = some s ∧ CanPay s 0 :=
  ⟨_, rfl, _, _, rfl, rfl, rfl, rfl, rfl⟩

/-- Without nodes the node index divides by zero, and after a handler the loop may
draw out of a balance of zero. -/
theorem draw_out_of_range :
    (Parser.parseParameters .zero (some (conf "SO_NODES_NUM 0")) = some (0, parameters 0) ∧
      ∃ s, (Startup.machine (parameters 0)).Reachable s ∧ Makes (parameters 0) s .nodeIndex ∧
        ∀ r, rand r 0 ((parameters 0).soNodesNum * 2 - 1) = none) ∧
    (Parser.parseParameters .zero (some (conf "SO_NODES_NUM 1")) = some (0, parameters 1) ∧
      ∃ s, (Startup.machine (parameters 1)).Reachable s ∧
        Makes (parameters 1) s (.amount .loop 0) ∧ ∀ r, ¬ InRange r 2 0) ∧
    ¬ ∀ errno conf par s use r, Parser.parseParameters errno (some conf) = some (0, par) →
      (Startup.machine par).Reachable s → Makes par s use → use.InRange par r := by
  obtain ⟨s, hrun, t, rest, hthreads, hsite, huser⟩ := unserved_run
  obtain ⟨s', hrun', hpay⟩ := handled_run
  have hs := Machine.reachable_of_run _ (launch_initial 0) hrun
  have hs' := Machine.reachable_of_run _ (launch_initial 1) hrun'
  have hmakes : Makes (parameters 0) s .nodeIndex := by
    refine .user _ t ?_ ⟨⟨_, hsite⟩, ⟨_, _, huser⟩⟩
    rw [hthreads]
    exact List.mem_cons_self
  have hempty : ∀ r, ¬ InRange r 2 0 := fun r h => absurd (rand_sum_iff.mp h) (by decide)
  refine ⟨⟨conf_zero, s, hs, hmakes, fun r => rfl⟩,
    ⟨conf_one, s', hs', makes_amount hpay, hempty⟩, ?_⟩
  intro hall
  exact hempty 0 (hall _ _ _ s' (.amount .loop 0) 0 conf_one hs' (makes_amount hpay))

end Examples

end SimulazioneTransazioni.DrawRanges

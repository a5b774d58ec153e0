import SimulazioneTransazioni.Outgoing
import SimulazioneTransazioni.Library.Machine

/-!
The runs of one user without signals: successful sends of fresh transactions,
blocks appended to the ledger, and calls of get_balance, in any order. The
state carries the history of the sent transactions and the ledger copy that
get_balance last read. Between two calls the outgoing list and currBalance stay
those of that copy, so the decrement of send_transaction is the recomputation.
-/
namespace SimulazioneTransazioni.UserHistory

open Users Balance Outgoing LkList MachineInt

structure State where
  usersPID : List User
  chain : Chain
  proc : UserProc
  sent : List Transaction
  read : Chain

inductive Label
  | send (a : Attempt) (amount reward : Int32)
  | append (b : Block)
  | getBalance

/-- The send must succeed, at a time that is new. -/
def send (par : Parameters) (s : State) (a : Attempt) (amount reward : Int32) : Option State :=
  match sendFresh par s.usersPID a amount reward s.proc with
  | .ok (.SUCCESS, p) =>
    if ∀ t ∈ s.sent, t.timestamp ≠ a.clock then
      some { s with proc := p, sent := push s.sent p.transMsg.userTrans }
    else none
  | _ => none

/-- The block may hold the user's transactions once each, if it has sent them. -/
def append (s : State) (b : Block) : Option State :=
  (s.chain.append b).bind fun chain =>
    if Records s.proc.myPID s.sent chain then some { s with chain := chain } else none

def reread (s : State) (r : Except Fault (List User × UserProc)) : Option State :=
  match r with
  | .ok (usersPID, p) => some { s with usersPID := usersPID, proc := p, read := s.chain }
  | .error _ => none

def recompute (par : Parameters) (s : State) : Option State :=
  reread s (getBalance par s.chain.toLedger s.usersPID s.proc)

def next (par : Parameters) (s : State) : Label → Option State
  | .send a amount reward => send par s a amount reward
  | .append b => append s b
  | .getBalance => recompute par s

structure Initial (par : Parameters) (s : State) : Prop where
  nodup : (s.usersPID.map User.pid).Nodup
  mem : s.proc.myPID ∈ s.usersPID.map User.pid
  records : Records s.proc.myPID [] s.chain
  sent : s.sent = []
  read : s.read = Chain.empty
  outgoing : s.proc.outGoingTransactions = []
  balance : s.proc.currBalance = par.soBudgetInit

def machine (par : Parameters) : Machine State Label where
  start := Initial par
  next := next par

structure Tracked (par : Parameters) (s : State) : Prop where
  nodup : (s.usersPID.map User.pid).Nodup
  mem : s.proc.myPID ∈ s.usersPID.map User.pid
  history : History s.proc.myPID s.sent
  records : Records s.proc.myPID s.sent s.chain
  seen : Records s.proc.myPID s.sent s.read
  grown : ∀ t, Recorded s.read t → Recorded s.chain t
  outgoing : s.proc.outGoingTransactions = pendingOf s.read s.sent
  balance : (s.proc.currBalance.toNat : ℤ) =
    available par s.proc.myPID s.read s.sent % 2 ^ 32

variable {par : Parameters} {s s' : State}

theorem tracked_initial (h : Initial par s) : Tracked par s := by
  have hempty : Records s.proc.myPID [] Chain.empty := ⟨by simp [own, Chain.empty,
    Chain.entries], by simp [own, Chain.empty, Chain.entries]⟩
  refine ⟨h.nodup, h.mem, ?_, ?_, ?_, ?_, ?_, ?_⟩
  · rw [h.sent]
    exact History.empty
  · rw [h.sent]
    exact h.records
  · rw [h.sent, h.read]
    exact hempty
  · intro t ht
    rw [h.read] at ht
    simp [Recorded, Chain.empty, Chain.entries] at ht
  · rw [h.outgoing, h.sent]
    rfl
  · have hlt := par.soBudgetInit.toNat_lt
    rw [h.balance, h.read, h.sent]
    simp only [available, spent, received, Chain.empty, Chain.entries, List.flatMap_nil,
      List.filter_nil, List.map_nil, List.sum_nil]
    omega

theorem toNat_sub_payment (balance : UInt32) (amount reward : Int32) {x : ℤ}
    (h : (balance.toNat : ℤ) = x % 2 ^ 32) :
    ((balance - unsignedOfInt (amount + reward)).toNat : ℤ) =
      (x - (amount.toInt + reward.toInt)) % 2 ^ 32 := by
  have hpay := toNat_unsignedOfInt (amount + reward)
  have hmod := add_modEq_int amount reward
  have hmod' : (amount + reward).toInt % 2 ^ 32 = (amount.toInt + reward.toInt) % 2 ^ 32 := hmod
  have hlt := balance.toNat_lt
  have hlt' := (unsignedOfInt (amount + reward)).toNat_lt
  rw [UInt32.toNat_sub]
  omega

/-- A send appends to the history and to the outgoing list. -/
theorem send_tracked {a : Attempt} {amount reward : Int32} (hs : Tracked par s)
    (h : send par s a amount reward = some s') : Tracked par s' := by
  unfold send at h
  split at h
  next p hsend =>
    split at h
    next hclock =>
      cases h
      obtain ⟨hpid, htime, hsender, hreceiver, hstatus, hout, hbal⟩ := sendFresh_ok hsend
      have hfresh : ∀ t ∈ s.sent, compareTransactions t p.transMsg.userTrans = false := by
        intro t ht
        rw [← Bool.not_eq_true, compare_iff]
        rintro ⟨heq, -⟩
        exact hclock t ht (heq.trans htime)
      have hnew : p.transMsg.userTrans ∉ s.sent := fun hin => hclock _ hin htime
      refine ⟨hs.nodup, ?_, ?_, ?_, ?_, hs.grown, ?_, ?_⟩
      · rw [hpid]
        exact hs.mem
      · rw [hpid]
        exact hs.history.push hsender hreceiver hstatus hfresh
      · rw [hpid]
        exact Records.push _ hs.records
      · rw [hpid]
        exact Records.push _ hs.seen
      · rw [hout, hs.outgoing, pendingOf_push hs.seen hsender hnew]
      · rw [hbal, hpid, available_push, cost]
        exact toNat_sub_payment _ _ _ hs.balance
    next => contradiction
  next => contradiction

theorem append_tracked {b : Block} (hs : Tracked par s)
    (h : append s b = some s') : Tracked par s' := by
  obtain ⟨chain, hchain, hif⟩ := Option.bind_eq_some_iff.mp h
  split at hif
  next hrec =>
    cases hif
    refine ⟨hs.nodup, hs.mem, hs.history, hrec, hs.seen, ?_, hs.outgoing, hs.balance⟩
    intro t ht
    have hin := hs.grown t ht
    rw [Recorded, Chain.append_entries hchain, List.map_append]
    exact List.mem_append_left _ hin
  next => contradiction

theorem reread_cases {r : Except Fault (List User × UserProc)} (h : reread s r = some s') :
    r = .ok (s'.usersPID, s'.proc) ∧ s'.chain = s.chain ∧ s'.sent = s.sent ∧
      s'.read = s.chain := by
  cases r with
  | error fault => contradiction
  | ok r =>
    cases h
    exact ⟨rfl, rfl, rfl, rfl⟩

/-- get_balance on the present ledger keeps the list and the balance in step with the
history. -/
theorem recompute_tracked (hs : Tracked par s) (h : recompute par s = some s') :
    Tracked par s' := by
  obtain ⟨hget, hchain, hsent, hread⟩ := reread_cases h
  obtain ⟨hpid, -, hout, hbal, hrows⟩ := getBalance_tracked hs.history hs.records hs.grown
    hs.outgoing hs.nodup hget
  have hkeys : s'.usersPID.map User.pid = s.usersPID.map User.pid := by
    rw [hrows]
    exact Table.map_key_update _ _ fun _ => rfl
  constructor
  · rw [hkeys]
    exact hs.nodup
  · rw [hkeys, hpid]
    exact hs.mem
  · rw [hpid, hsent]
    exact hs.history
  · rw [hpid, hsent, hchain]
    exact hs.records
  · rw [hpid, hsent, hread]
    exact hs.records
  · rw [hread, hchain]
    exact fun t ht => ht
  · rw [hread, hsent]
    exact hout
  · rw [hpid, hread, hsent]
    exact hbal

theorem next_tracked {l : Label} (hs : Tracked par s) (h : next par s l = some s') :
    Tracked par s' := by
  cases l with
  | send a amount reward => exact send_tracked hs h
  | append b => exact append_tracked hs h
  | getBalance => exact recompute_tracked hs h

theorem reach_tracked {C : State → Label → Prop} (h : (machine par).Reach C s) :
    Tracked par s :=
  h.invariant (fun _ => tracked_initial) fun _ _ _ hs _ hn => next_tracked hs hn

def InRange (balance : ℤ) : Prop := 0 ≤ balance ∧ balance < 2 ^ 32

def Shows (usersPID : List User) (myPID : PidT) (balance : UInt32) : Prop :=
  myPID ∈ usersPID.map User.pid ∧ ∀ row ∈ usersPID, row.pid = myPID → row.balance = balance

/-- The globals and the row count every sent transaction once, on this ledger. -/
structure Counted (par : Parameters) (s : State) : Prop where
  outgoing : s.proc.outGoingTransactions = pendingOf s.chain s.sent
  balance : (s.proc.currBalance.toNat : ℤ) =
    available par s.proc.myPID s.chain s.sent % 2 ^ 32
  exact : InRange (available par s.proc.myPID s.chain s.sent) →
    (s.proc.currBalance.toNat : ℤ) = available par s.proc.myPID s.chain s.sent
  row : Shows s.usersPID s.proc.myPID s.proc.currBalance

theorem counted_of_recompute (hs : Tracked par s) (h : recompute par s = some s') :
    Counted par s' := by
  have hs' := recompute_tracked hs h
  obtain ⟨hget, hchain, hsent, hread⟩ := reread_cases h
  obtain ⟨hpid, -, -, -, hrows⟩ := getBalance_tracked hs.history hs.records hs.grown
    hs.outgoing hs.nodup hget
  have hbalance := hs'.balance
  rw [hread, ← hchain] at hbalance
  refine ⟨?_, hbalance, ?_, hs'.mem, ?_⟩
  · rw [hs'.outgoing, hread, hchain]
  · rintro ⟨hlo, hhi⟩
    rw [hbalance, Int.emod_eq_of_lt hlo hhi]
  · intro row' hrow' hkey
    rw [hrows] at hrow'
    rcases Table.mem_update hrow' fun _ => rfl with ⟨-, row, -, rfl⟩ | ⟨hk, -⟩
    · rfl
    · exact absurd (hkey.trans hpid) hk

/-- On the copy last read a get_balance recomputes the present currBalance. -/
theorem recompute_read (hs : Tracked par s) {r : List User × UserProc}
    (h : getBalance par s.read.toLedger s.usersPID s.proc = .ok r) :
    r.2.currBalance = s.proc.currBalance := by
  obtain ⟨-, -, -, hbal, -⟩ := getBalance_tracked hs.history hs.seen (fun t ht => ht)
    hs.outgoing hs.nodup h
  have hsame := hbal.trans hs.balance.symm
  exact UInt32.toNat_inj.mp (by omega)

theorem recompute_returns (hs : Tracked par s) (hfits : ∀ t ∈ s.sent, Fits t)
    (hrange : InRange (available par s.proc.myPID s.chain s.sent)) :
    ∃ s', recompute par s = some s' := by
  have hhi := hrange.2
  obtain ⟨r, hr⟩ := getBalance_tracked_returns hs.history hs.records hs.grown hs.outgoing hs.mem
    hfits hrange.1 (by omega)
  exact ⟨_, by rw [recompute, hr, reread]⟩

/-- In every reachable state: a get_balance that returns leaves the sent
transactions that are not in the ledger and the balance that subtracts each
sent one once, it does return when the balance is in range, and after a send
the decremented balance is what it recomputes on the copy last read. -/
theorem getBalance_counts_once (par : Parameters) {s : State} (h : (machine par).Reachable s) :
    (∀ s', next par s .getBalance = some s' → Counted par s') ∧
    ((∀ t ∈ s.sent, Fits t) → InRange (available par s.proc.myPID s.chain s.sent) →
      ∃ s', next par s .getBalance = some s') ∧
    ∀ a amount reward s', next par s (.send a amount reward) = some s' →
      ∀ r, getBalance par s'.read.toLedger s'.usersPID s'.proc = .ok r →
        r.2.currBalance = s'.proc.currBalance := by
  have hs := reach_tracked h
  refine ⟨fun s' hn => counted_of_recompute hs hn, recompute_returns hs, ?_⟩
  intro a amount reward s' hn r hr
  exact recompute_read (send_tracked hs hn) hr

section Example

def fresh : State where
  usersPID := [⟨7, 1000, .alive⟩, ⟨8, 1000, .alive⟩]
  chain := Chain.empty
  proc := ⟨7, 0, .zero, 1000, [], ⟨0, .zero⟩⟩
  sent := []
  read := Chain.empty

def attempt : Attempt := ⟨[0, 1], [], 0, [.found 30], ⟨1, 500⟩, .sent⟩

theorem fresh_initial : Initial assignDefaults fresh :=
  ⟨by decide, by decide, by decide, rfl, rfl, rfl, rfl⟩

def paymentBlock : Block where
  transList := ⟨⟨1, 600⟩, self, 40, 4, 0, .confirmed⟩ ::ᵥ
    ⟨⟨1, 500⟩, 7, 8, 396, 4, .confirmed⟩ ::ᵥ
      List.Vector.ofFn fun i : Fin 8 => ⟨⟨1, Int64.ofNat i⟩, 8, 7, 5, 0, .confirmed⟩
  blockIndex := 0

theorem payment_run : ∃ s s',
    (machine assignDefaults).run fresh
      [.send attempt 396 4, .append paymentBlock,
        .send { attempt with clock := ⟨2, 0⟩ } 99 1] = some s ∧
      next assignDefaults s .getBalance = some s' ∧
      s'.proc.currBalance = 540 ∧ s'.proc.outGoingTransactions.length = 1 :=
  ⟨_, _, rfl, rfl, rfl, rfl⟩

/-- Of two payments of 400 and 100 the first is in the ledger, with 40 received. -/
theorem getBalance_counts_once_payment : ∃ s s',
    (machine assignDefaults).Reachable s ∧ next assignDefaults s .getBalance = some s' ∧
      Counted assignDefaults s' ∧ s'.proc.currBalance = 540 := by
  obtain ⟨s, s', hrun, hget, hbal, -⟩ := payment_run
  have hs := Machine.reachable_of_run _ fresh_initial hrun
  exact ⟨s, s', hs, hget, (getBalance_counts_once assignDefaults hs).1 s' hget, hbal⟩

end Example
end SimulazioneTransazioni.UserHistory

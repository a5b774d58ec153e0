import SimulazioneTransazioni.Interrupts
import SimulazioneTransazioni.Library.Machine
import Mathlib.Data.Fintype.Basic

/-!
Runs of all users up to the end of the simulation. Users send, nodes append
blocks, and a user may use up its retries: its handler then runs on the ledger
of that moment and its row is never written again. At the end the others run
the handler on the final ledger. A row shows the balance of the ledger that its
owner's handler saw, so it is right at the end exactly if the blocks appended
after the handler leave the user where it was.
-/
namespace SimulazioneTransazioni.Deaths

open Users Balance Interrupts

structure UserState where
  proc : UserProc
  sent : List Transaction
  exited : Option Chain

namespace UserState

def withProc (u : UserState) (p : UserProc) : UserState := { u with proc := p }

def record (u : UserState) (p : UserProc) : UserState :=
  { u with proc := p, sent := push u.sent p.transMsg.userTrans }

def exit (u : UserState) (c : Chain) : UserState := { u with exited := some c }

end UserState

structure State (ι : Type*) where
  usersPID : List User
  chain : Chain
  closing : Bool
  users : ι → UserState

inductive Action
  | getBalance
  | send (a : Attempt) (amount reward : Int32)
  | die
  | finish

inductive Label (ι : Type*)
  | user (i : ι) (action : Action)
  | append (b : Block)

variable {ι : Type*} [DecidableEq ι]

namespace State

def pid (s : State ι) (i : ι) : PidT := (s.users i).proc.myPID

def put (s : State ι) (i : ι) (usersPID : List User) (u : UserState) : State ι :=
  { s with usersPID := usersPID, users := Function.update s.users i u }

@[simp] theorem put_self (s : State ι) (i : ι) (usersPID : List User) (u : UserState) :
    (s.put i usersPID u).users i = u := Function.update_self ..

theorem put_of_ne {i j : ι} (h : j ≠ i) (s : State ι) (usersPID : List User) (u : UserState) :
    (s.put i usersPID u).users j = s.users j := Function.update_of_ne h ..

def afterGetBalance (s : State ι) (i : ι) (r : Except Fault (List User × UserProc)) :
    Option (State ι) :=
  match r with
  | .ok (usersPID, p) => some (s.put i usersPID ((s.users i).withProc p))
  | .error _ => none

def afterSend (s : State ι) (i : ι) (r : Except Fault (ReturnCode × UserProc)) :
    Option (State ι) :=
  match r with
  | .ok (.SUCCESS, p) => some (s.put i s.usersPID ((s.users i).record p))
  | .ok (.ERROR, p) => some (s.put i s.usersPID ((s.users i).withProc p))
  | .error _ => none

def afterHandler (s : State ι) (i : ι) (r : Except Fault (List User)) : Option (State ι) :=
  match r with
  | .ok usersPID => some (s.put i usersPID ((s.users i).exit s.chain))
  | .error _ => none

def close (s : State ι) : State ι := { s with closing := true }

def act (par : Parameters) (s : State ι) (i : ι) : Action → Option (State ι)
  | .getBalance =>
    s.afterGetBalance i (getBalance par s.chain.toLedger s.usersPID (s.users i).proc)
  | .send a amount reward =>
    s.afterSend i (sendFresh par s.usersPID a amount reward (s.users i).proc)
  | .die => s.afterHandler i (maxRetryReached par s.chain.toLedger s.usersPID (s.users i).proc)
  | .finish =>
    (s.afterHandler i
      (userInterruptHandle par s.chain.toLedger s.usersPID (s.users i).proc)).map close

def WasSent (s : State ι) (b : Block) : Prop :=
  ∀ i, ∀ t ∈ own (s.pid i) b.entries, t.asSent ∈ (s.users i).sent

instance [Fintype ι] (s : State ι) (b : Block) : Decidable (s.WasSent b) :=
  inferInstanceAs (Decidable (∀ _, _))

def append [Fintype ι] (s : State ι) (b : Block) : Option (State ι) :=
  if ¬ s.closing ∧ s.WasSent b then
    (s.chain.append b).map fun chain => { s with chain := chain }
  else none

def next [Fintype ι] (par : Parameters) (s : State ι) : Label ι → Option (State ι)
  | .user i action => if (s.users i).exited = none then s.act par i action else none
  | .append b => s.append b

structure Initial (s : State ι) : Prop where
  nodup : (s.usersPID.map User.pid).Nodup
  mem : ∀ i, s.pid i ∈ s.usersPID.map User.pid
  injective : ∀ i j, s.pid i = s.pid j → i = j
  sent : ∀ i, (s.users i).sent = []
  running : ∀ i, (s.users i).exited = none
  chain : s.chain = Chain.empty

def machine (ι : Type*) [DecidableEq ι] [Fintype ι] (par : Parameters) :
    Machine (State ι) (Label ι) where
  start := Initial
  next := next par

def Finished (s : State ι) : Prop := ∀ i, (s.users i).exited ≠ none

def RowsRight (par : Parameters) (s : State ι) : Prop :=
  ∀ i, s.pid i ∈ s.usersPID.map User.pid ∧ ∀ row ∈ s.usersPID, row.pid = s.pid i →
    (row.balance.toNat : ℤ) = ledgerBalance par (s.pid i) s.chain

def net (myPID : PidT) (l : List Transaction) : ℤ := received myPID l - spent (own myPID l)

def netAfter (s : State ι) (i : ι) : ℤ :=
  match (s.users i).exited with
  | none => 0
  | some c => net (s.pid i) (s.chain.entries.drop c.entries.length)

def Fitting (par : Parameters) (s : State ι) : Prop :=
  ∀ i c, (s.users i).exited = some c →
    (0 ≤ ledgerBalance par (s.pid i) c ∧ ledgerBalance par (s.pid i) c < 2 ^ 32) ∧
    0 ≤ ledgerBalance par (s.pid i) s.chain ∧ ledgerBalance par (s.pid i) s.chain < 2 ^ 32

end State

open State

variable {par : Parameters} {s s' : State ι}

structure Acted (par : Parameters) (s : State ι) (i : ι) (s' : State ι) : Prop where
  chain : s'.chain = s.chain
  others : ∀ j, j ≠ i → s'.users j = s.users j
  pid : s'.pid i = s.pid i
  sent : ∀ t ∈ (s'.users i).sent, t ∈ (s.users i).sent ∨ t.receiver ≠ s.pid i
  kept : ∀ t ∈ (s.users i).sent, t ∈ (s'.users i).sent
  rows : ∃ f : User → User, s'.usersPID = Table.update User.pid s.usersPID (s.pid i) f ∧
    (∀ row, (f row).pid = row.pid) ∧ ∀ c, (s'.users i).exited = some c →
      c = s.chain ∧ ∀ row, ((f row).balance.toNat : ℤ) = ledgerBalance par (s.pid i) c % 2 ^ 32

theorem acted_of_put {i : ι} {f : User → User} {u : UserState}
    (hpid : u.proc.myPID = s.pid i) (hf : ∀ row, (f row).pid = row.pid)
    (hsent : ∀ t ∈ u.sent, t ∈ (s.users i).sent ∨ t.receiver ≠ s.pid i)
    (hkept : ∀ t ∈ (s.users i).sent, t ∈ u.sent)
    (hexit : ∀ c, u.exited = some c → c = s.chain ∧
      ∀ row, ((f row).balance.toNat : ℤ) = ledgerBalance par (s.pid i) c % 2 ^ 32) :
    Acted par s i (s.put i (Table.update User.pid s.usersPID (s.pid i) f) u) where
  chain := rfl
  others j hj := put_of_ne hj ..
  pid := by rw [State.pid, put_self, hpid]
  sent := by rwa [put_self]
  kept := by rwa [put_self]
  rows := ⟨f, rfl, hf, by rwa [put_self]⟩

/-- A step that leaves the table. -/
theorem acted_of_put_same {i : ι} {u : UserState} (hpid : u.proc.myPID = s.pid i)
    (hsent : ∀ t ∈ u.sent, t ∈ (s.users i).sent ∨ t.receiver ≠ s.pid i)
    (hkept : ∀ t ∈ (s.users i).sent, t ∈ u.sent) (hexit : u.exited = none) :
    Acted par s i (s.put i s.usersPID u) := by
  have h : Acted par s i (s.put i (Table.update User.pid s.usersPID (s.pid i) id) u) := by
    refine acted_of_put hpid (fun _ => rfl) hsent hkept fun c hc => ?_
    rw [hexit] at hc
    contradiction
  rwa [Table.update_id] at h

theorem acted_afterHandler {i : ι} {r : Except Fault (List User)}
    (hr : ∀ usersPID, r = .ok usersPID →
      ∃ f : User → User, usersPID = Table.update User.pid s.usersPID (s.pid i) f ∧
        ∀ row, (f row).pid = row.pid ∧
          ((f row).balance.toNat : ℤ) = ledgerBalance par (s.pid i) s.chain % 2 ^ 32)
    (h : s.afterHandler i r = some s') : Acted par s i s' := by
  cases r with
  | error fault => contradiction
  | ok usersPID =>
    cases h
    obtain ⟨f, hrows, hf⟩ := hr usersPID rfl
    rw [hrows]
    refine acted_of_put rfl (fun row => (hf row).1) (fun t ht => Or.inl ht)
      (fun t ht => ht) ?_
    intro c hc
    cases hc
    exact ⟨rfl, fun row => (hf row).2⟩

theorem acted_afterGetBalance {i : ι} {r : Except Fault (List User × UserProc)}
    (hrun : (s.users i).exited = none)
    (hr : ∀ usersPID p, r = .ok (usersPID, p) → p.myPID = s.pid i ∧
      ∃ f : User → User, usersPID = Table.update User.pid s.usersPID (s.pid i) f ∧
        ∀ row, (f row).pid = row.pid)
    (h : s.afterGetBalance i r = some s') : Acted par s i s' := by
  cases r with
  | error fault => contradiction
  | ok r =>
    obtain ⟨usersPID, p⟩ := r
    cases h
    obtain ⟨hpid, f, hrows, hf⟩ := hr usersPID p rfl
    rw [hrows]
    refine acted_of_put hpid hf (fun t ht => Or.inl ht) (fun t ht => ht) ?_
    intro c hc
    rw [UserState.withProc, hrun] at hc
    contradiction

theorem acted_afterSend {i : ι} {r : Except Fault (ReturnCode × UserProc)}
    (hrun : (s.users i).exited = none)
    (hr : ∀ code p, r = .ok (code, p) → p.myPID = s.pid i ∧
      (code = .SUCCESS → p.transMsg.userTrans.receiver ≠ s.pid i))
    (h : s.afterSend i r = some s') : Acted par s i s' := by
  cases r with
  | error fault => contradiction
  | ok r =>
    obtain ⟨code, p⟩ := r
    obtain ⟨hpid, hreceiver⟩ := hr code p rfl
    cases code with
    | ERROR =>
      cases h
      exact acted_of_put_same hpid (fun t ht => Or.inl ht) (fun t ht => ht) hrun
    | SUCCESS =>
      cases h
      refine acted_of_put_same hpid ?_ (fun t ht => List.mem_append_left _ ht) hrun
      intro t ht
      rcases List.mem_append.mp ht with hold | hnew
      · exact Or.inl hold
      · rw [List.mem_singleton.mp hnew]
        exact Or.inr (hreceiver rfl)

structure Tracked (par : Parameters) (s : State ι) : Prop where
  nodup : (s.usersPID.map User.pid).Nodup
  mem : ∀ i, s.pid i ∈ s.usersPID.map User.pid
  injective : ∀ i j, s.pid i = s.pid j → i = j
  receiver : ∀ i, ∀ t ∈ (s.users i).sent, t.receiver ≠ s.pid i
  owned : ∀ i, ∀ t ∈ own (s.pid i) s.chain.entries, t.asSent ∈ (s.users i).sent
  settled : ∀ i c, (s.users i).exited = some c → c.blocks <+: s.chain.blocks ∧
    ∀ row ∈ s.usersPID, row.pid = s.pid i →
      (row.balance.toNat : ℤ) = ledgerBalance par (s.pid i) c % 2 ^ 32

omit [DecidableEq ι] in
theorem Tracked.notToSelf (h : Tracked par s) (i : ι) : NotToSelf (s.pid i) s.chain :=
  fun t ht => h.receiver i t.asSent (h.owned i t ht)

omit [DecidableEq ι] in
theorem tracked_initial (h : Initial s) : Tracked par s := by
  refine ⟨h.nodup, h.mem, h.injective, ?_, ?_, ?_⟩
  · intro i t ht
    rw [h.sent i] at ht
    contradiction
  · intro i t ht
    rw [h.chain] at ht
    simp [own, Chain.entries, Chain.empty] at ht
  · intro i c hc
    rw [h.running i] at hc
    contradiction

/-- An action of a user that has not exited is one of the three cases. -/
theorem act_acted {i : ι} {action : Action} (hs : Tracked par s)
    (hrun : (s.users i).exited = none) (h : s.act par i action = some s') :
    Acted par s i s' := by
  have hself := hs.notToSelf i
  cases action with
  | getBalance =>
    refine acted_afterGetBalance hrun ?_ h
    intro usersPID p hget
    have hdone := getBalance_ok hself hs.nodup hget
    exact ⟨hdone.myPID, _, hdone.rows, fun _ => rfl⟩
  | send a amount reward =>
    refine acted_afterSend hrun ?_ h
    intro code p hsend
    refine ⟨sendFresh_myPID hsend, ?_⟩
    rintro rfl
    exact (sendFresh_ok hsend).2.2.2.1
  | die => exact acted_afterHandler (fun _ hok => maxRetryReached_ok hself hs.nodup hok) h
  | finish =>
    obtain ⟨s₁, hs₁, rfl⟩ := Option.map_eq_some_iff.mp h
    have hacted := acted_afterHandler
      (fun _ hok => userInterruptHandle_ok hself hs.nodup hok) hs₁
    exact ⟨hacted.chain, hacted.others, hacted.pid, hacted.sent, hacted.kept, hacted.rows⟩

theorem acted_pid {i : ι} (h : Acted par s i s') (j : ι) : s'.pid j = s.pid j := by
  by_cases hj : j = i
  · rw [hj]
    exact h.pid
  · rw [State.pid, h.others j hj, State.pid]

omit [DecidableEq ι] in
/-- A user that exits leaves the balance of the ledger in its row. -/
theorem acted_row {i : ι} {c : Chain} (h : Acted par s i s')
    (hexit : (s'.users i).exited = some c) : c = s.chain ∧
      ∀ row ∈ s'.usersPID, row.pid = s.pid i →
        (row.balance.toNat : ℤ) = ledgerBalance par (s.pid i) c % 2 ^ 32 := by
  obtain ⟨f, hrows, hf, hleft⟩ := h.rows
  obtain ⟨hchain, hbal⟩ := hleft c hexit
  refine ⟨hchain, fun row' hrow' hkey => ?_⟩
  rw [hrows] at hrow'
  rcases Table.mem_update hrow' hf with ⟨-, row, -, rfl⟩ | ⟨hk, -⟩
  · exact hbal row
  · exact absurd hkey hk

omit [DecidableEq ι] in
/-- The row of another user is not written. -/
theorem acted_other_row {i j : ι} {row : User} (hs : Tracked par s) (h : Acted par s i s')
    (hj : j ≠ i) (hrow : row ∈ s'.usersPID) (hkey : row.pid = s.pid j) : row ∈ s.usersPID := by
  obtain ⟨f, hrows, hf, -⟩ := h.rows
  rw [hrows] at hrow
  rcases Table.mem_update hrow hf with ⟨hk, -⟩ | ⟨-, hold⟩
  · exact absurd (hs.injective j i (hkey.symm.trans hk)) hj
  · exact hold

/-- Each of the three cases keeps the invariant. -/
theorem acted_tracked {i : ι} (hs : Tracked par s) (h : Acted par s i s') :
    Tracked par s' := by
  obtain ⟨f, hrows, hf, -⟩ := h.rows
  have hpid := acted_pid h
  have hkeys : s'.usersPID.map User.pid = s.usersPID.map User.pid := by
    rw [hrows]
    exact Table.map_key_update _ _ hf
  constructor
  · rw [hkeys]
    exact hs.nodup
  · intro j
    rw [hkeys, hpid j]
    exact hs.mem j
  · intro j k hjk
    rw [hpid j, hpid k] at hjk
    exact hs.injective j k hjk
  · intro j t ht
    rw [hpid j]
    by_cases hj : j = i
    · rw [hj] at ht ⊢
      rcases h.sent t ht with hold | hnew
      · exact hs.receiver i t hold
      · exact hnew
    · rw [h.others j hj] at ht
      exact hs.receiver j t ht
  · intro j t ht
    rw [hpid j, h.chain] at ht
    have hin := hs.owned j t ht
    by_cases hj : j = i
    · rw [hj] at hin ⊢
      exact h.kept t.asSent hin
    · rwa [h.others j hj]
  · intro j c hc
    rw [h.chain, hpid j]
    by_cases hj : j = i
    · rw [hj] at hc ⊢
      obtain ⟨rfl, hbal⟩ := acted_row h hc
      exact ⟨List.prefix_rfl, hbal⟩
    · rw [h.others j hj] at hc
      obtain ⟨hearlier, hold⟩ := hs.settled j c hc
      exact ⟨hearlier, fun row hrow hkey => hold row (acted_other_row hs h hj hrow hkey) hkey⟩

section Runs

variable [Fintype ι]

omit [DecidableEq ι] in
theorem append_cases {b : Block} (h : s.append b = some s') :
    s.WasSent b ∧ ∃ chain, s.chain.append b = some chain ∧ s' = { s with chain := chain } := by
  unfold State.append at h
  split at h
  next hif =>
    obtain ⟨chain, hchain, rfl⟩ := Option.map_eq_some_iff.mp h
    exact ⟨hif.2, chain, hchain, rfl⟩
  next => contradiction

omit [DecidableEq ι] in
theorem append_tracked {b : Block} (hs : Tracked par s) (h : s.append b = some s') :
    Tracked par s' := by
  obtain ⟨hsent, chain, hchain, rfl⟩ := append_cases h
  refine ⟨hs.nodup, hs.mem, hs.injective, hs.receiver, ?_, ?_⟩
  · intro i t ht
    rw [own, Chain.append_entries hchain, List.filter_append] at ht
    rcases List.mem_append.mp ht with hold | hnew
    · exact hs.owned i t hold
    · exact hsent i t hnew
  · intro i c hc
    obtain ⟨hearlier, hrow⟩ := hs.settled i c hc
    refine ⟨hearlier.trans ?_, hrow⟩
    rw [Chain.append_blocks hchain]
    exact List.prefix_append _ _

theorem next_tracked {l : Label ι} (hs : Tracked par s) (h : next par s l = some s') :
    Tracked par s' := by
  cases l with
  | user i action =>
    simp only [next] at h
    split at h
    next hrun => exact acted_tracked hs (act_acted hs hrun h)
    next => contradiction
  | append b => exact append_tracked hs h

theorem reach_tracked {C : State ι → Label ι → Prop} (h : (machine ι par).Reach C s) :
    Tracked par s :=
  h.invariant (fun _ => tracked_initial) fun _ _ _ hs _ hn => next_tracked hs hn

/-- The final ledger is the one a handler saw, and what came after it. -/
theorem ledgerBalance_prefix (par : Parameters) {c c' : Chain} (h : c.blocks <+: c'.blocks)
    (myPID : PidT) :
    ledgerBalance par myPID c' =
      ledgerBalance par myPID c + net myPID (c'.entries.drop c.entries.length) := by
  obtain ⟨later, hblocks⟩ := h
  have hentries : c'.entries = c.entries ++ later.flatMap Block.entries := by
    rw [Chain.entries, Chain.entries, ← hblocks, List.flatMap_append]
  rw [ledgerBalance, ledgerBalance, net, hentries, List.drop_left, own, List.filter_append]
  rw [received_append, spent_append, ← own, ← own]
  omega

/-- When every user has exited, the rows are right exactly if the blocks that
came after each user's handler bring it nothing, in sum. -/
theorem rowsRight_iff (h : (machine ι par).Reachable s) (hfin : s.Finished)
    (hfit : s.Fitting par) : s.RowsRight par ↔ ∀ i, s.netAfter i = 0 := by
  have hs := reach_tracked h
  have hone : ∀ i, (∀ row ∈ s.usersPID, row.pid = s.pid i →
      (row.balance.toNat : ℤ) = ledgerBalance par (s.pid i) s.chain) ↔ s.netAfter i = 0 := by
    intro i
    obtain ⟨c, hc⟩ := Option.ne_none_iff_exists'.mp (hfin i)
    obtain ⟨hearlier, hrow⟩ := hs.settled i c hc
    obtain ⟨⟨hlo, hhi⟩, -, -⟩ := hfit i c hc
    have hsum := ledgerBalance_prefix par hearlier (s.pid i)
    have hnet : s.netAfter i = net (s.pid i) (s.chain.entries.drop c.entries.length) := by
      rw [netAfter, hc]
    rw [hnet]
    rw [Int.emod_eq_of_lt hlo hhi] at hrow
    constructor
    · intro hright
      obtain ⟨row, hin, hkey⟩ := List.mem_map.mp (hs.mem i)
      have hseen := hrow row hin hkey
      have hfinal := hright row hin hkey
      omega
    · intro hzero row hin hkey
      rw [hrow row hin hkey]
      omega
  constructor
  · exact fun hright i => (hone i).mp (hright i).2
  · exact fun hzero i => ⟨hs.mem i, (hone i).mpr (hzero i)⟩

end Runs

section EarlyDeath

def pair : Parameters := { assignDefaults with soUserNum := 2 }

def twoUsers : State Bool where
  usersPID := [⟨7, 1000, .alive⟩, ⟨8, 1000, .alive⟩]
  chain := Chain.empty
  closing := false
  users := fun i =>
    ⟨⟨bif i then 8 else 7, 0, .zero, 1000, [], ⟨0, .zero⟩⟩, [], none⟩

theorem twoUsers_initial : Initial twoUsers :=
  ⟨by decide, by decide, by decide, by decide, by decide, rfl⟩

def payAt (n : ℕ) : Label Bool :=
  .user false (.send ⟨[1], [], 0, [.found 30], ⟨1, Int64.ofNat n⟩, .sent⟩ 99 1)

def ninePayments : Block where
  transList := ⟨⟨1, 600⟩, self, 40, 9, 0, .confirmed⟩ ::ᵥ
    List.Vector.ofFn fun i : Fin 9 => ⟨⟨1, Int64.ofNat i⟩, 7, 8, 99, 1, .confirmed⟩
  blockIndex := 0

def deathBefore : List (Label Bool) :=
  (List.range 9).map payAt ++ [.user false .die, .append ninePayments, .user true .finish]

def deathAfter : List (Label Bool) :=
  (List.range 9).map payAt ++ [.append ninePayments, .user false .die, .user true .finish]

theorem deathBefore_run : ∃ s, (machine Bool pair).run twoUsers deathBefore = some s ∧
    s.usersPID = [⟨7, 1000, .dead⟩, ⟨8, 1891, .alive⟩] ∧ s.pid false = 7 ∧
    ledgerBalance pair 7 s.chain = 100 ∧ s.Finished ∧ s.Fitting pair := by
  refine ⟨_, rfl, rfl, rfl, rfl, ?_, ?_⟩
  · exact Bool.forall_bool.mpr ⟨Option.some_ne_none _, Option.some_ne_none _⟩
  · refine Bool.forall_bool.mpr ⟨fun c hc => ?_, fun c hc => ?_⟩
    · rw [← Option.some.inj hc]
      exact ⟨by decide, by decide⟩
    · rw [← Option.some.inj hc]
      exact ⟨by decide, by decide⟩

/-- User 7 dies with nine payments in a block that is appended afterwards: its
row keeps 1000, the ledger says 100. -/
theorem early_death_refunded : ¬ ∀ s, (machine Bool pair).Reachable s → s.Finished →
    s.Fitting pair → s.RowsRight pair := by
  intro hall
  obtain ⟨s, hrun, hrows, hpid, hledger, hfin, hfit⟩ := deathBefore_run
  have hs := Machine.reachable_of_run _ twoUsers_initial hrun
  have hrow := (hall s hs hfin hfit false).2 ⟨7, 1000, .dead⟩ (by rw [hrows]; simp)
  rw [hpid] at hrow
  have hbalance := hrow rfl
  rw [hledger] at hbalance
  exact absurd hbalance (by decide)

/-- When the block comes before the death both rows are right. -/
theorem rowsRight_deathAfter : ∃ s,
    (machine Bool pair).run twoUsers deathAfter = some s ∧ s.RowsRight pair := by
  refine ⟨_, rfl, (rowsRight_iff ?_ ?_ ?_).mpr ?_⟩
  · exact Machine.reachable_of_run deathAfter twoUsers_initial rfl
  · exact Bool.forall_bool.mpr ⟨Option.some_ne_none _, Option.some_ne_none _⟩
  · refine Bool.forall_bool.mpr ⟨fun c hc => ?_, fun c hc => ?_⟩
    · rw [← Option.some.inj hc]
      exact ⟨by decide, by decide⟩
    · rw [← Option.some.inj hc]
      exact ⟨by decide, by decide⟩
  · exact Bool.forall_bool.mpr ⟨rfl, rfl⟩

end EarlyDeath
end SimulazioneTransazioni.Deaths

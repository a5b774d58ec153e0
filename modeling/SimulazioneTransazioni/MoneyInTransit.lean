import SimulazioneTransazioni.Outgoing
import SimulazioneTransazioni.RunAccounting
import Mathlib.Algebra.BigOperators.ModEq
import Mathlib.Tactic.Linarith

/-!
The money of the whole system while it runs, with users that call get_balance whenever they
like. Each user keeps the list that its last call and its sends since then have left. If all
of them call get_balance now, their lists hold what is on its way or was lost, and nothing
else. Their balances, what the ledger pays to the nodes and the worth of these lists add up
to the budgets given out, as long as no child writes over a block that a user has counted.
-/
namespace SimulazioneTransazioni.MoneyInTransit

open Nodes Users Balance Outgoing Network NetworkTokens NetworkLedger RunAccounting Blocks
open Interrupts MachineInt
open LedgerWriters (Slot Writer)
open Confirmation (total)
open Losses (logged lost allHeld)

def worth (held : Multiset Transaction) : ℤ := (held.map cost).sum

def inTransit (s : World) : Multiset Transaction :=
  allHeld s.queues + (s.nodes.map holding).sum + (s.children.map processing).sum

@[simp] theorem worth_add (held held' : Multiset Transaction) :
    worth (held + held') = worth held + worth held' := by
  rw [worth, Multiset.map_add, Multiset.sum_add, worth, worth]

theorem worth_coe (l : List Transaction) : worth (l : Multiset Transaction) = spent l := by
  rw [worth, Multiset.map_coe, Multiset.sum_coe, spent]

section Count

/-- The system with the log of its losses and the outgoing list of each user. -/
structure Count where
  world : World
  log : List Losses.Loss
  outgoing : PidT → List Transaction

inductive Turn
  | step (l : Label)
  | call (u : ℕ)

namespace Count

def listed (s : Count) (p : UserProc) : UserProc :=
  { p with outGoingTransactions := s.outgoing p.myPID }

/-- send_transaction appends what it has sent to the list of its user. -/
def step (par : Parameters) (s : Count) (l : Label) : Option Count :=
  (World.next par s.world l).map fun w =>
    { world := w
      log := s.log ++ Losses.losses par s.world l
      outgoing := fun pid => s.outgoing pid ++ own pid (w.sent.drop s.world.sent.length) }

/-- The balance that get_balance writes in the user's row is left out: nothing reads it. -/
def call (par : Parameters) (s : Count) (u : ℕ) : Option Count :=
  (s.world.users[u]?).bind fun p =>
    match getBalance par s.world.ledger s.world.usersPID (s.listed p) with
    | .error _ => none
    | .ok (_, q) =>
      some { s with outgoing := Function.update s.outgoing p.myPID q.outGoingTransactions }

def next (par : Parameters) (s : Count) : Turn → Option Count
  | .step l => s.step par l
  | .call u => s.call par u

end Count

structure Initial (par : Parameters) (s : Count) : Prop where
  world : Network.Initial par s.world
  log : s.log = []
  outgoing : s.outgoing = fun _ => []

def machine (par : Parameters) : Machine Count Turn where
  start := Initial par
  next := Count.next par

/-- A child that writes its block finds the slot still empty. -/
def Spares (s : World) : Label → Prop
  | .child j _ => ∀ w, s.children[j]? = some w → ∀ b i, w.pc = .writing b i →
      s.ledger.get i = Block.zero
  | _ => True

/-- No failed receive is taken for a success, no child writes over a block, and a user that
calls get_balance finds a ledger of stamped blocks. -/
def Orderly (s : Count) : Turn → Prop
  | .step l => Received s.world l ∧ Spares s.world l
  | .call _ => ∃ c : Chain, s.world.ledger = c.toLedger

def Calls (par : Parameters) (s : Count) (p q : UserProc) : Prop :=
  ∃ usersPID, getBalance par s.world.ledger s.world.usersPID (s.listed p) = .ok (usersPID, q)

end Count

section Histories

variable {par : Parameters} {s s' : World}

theorem sent_sentBy (s : World) (u : ℕ) (p : UserProc) (result : MsgsndResult) :
    (s.sentBy u p result).sent = s.sent ∨
      (s.sentBy u p result).sent = push s.sent p.transMsg.userTrans := by
  cases result with
  | sent => exact Or.inr rfl
  | failed e => exact Or.inl rfl

/-- A step sends at most one transaction, at a time that is new to its sender. -/
theorem next_sent {l : Label} (h : World.next par s l = some s') :
    s'.sent = s.sent ∨ ∃ t, s'.sent = push s.sent t ∧ t.receiver ≠ t.sender ∧
      t.status = .pending ∧ ∀ t' ∈ s.sent, t'.sender = t.sender → t'.timestamp ≠ t.timestamp := by
  cases l with
  | user u a =>
    obtain ⟨p, -, hrest⟩ := Option.bind_eq_some_iff.mp h
    split at hrest
    · contradiction
    next hclock =>
      split at hrest
      · contradiction
      next nodePID _ =>
        dsimp only at hrest
        split at hrest
        · contradiction
        next r hsend =>
          obtain ⟨userPID, errno, queueID, hne, rfl⟩ := sendFresh_cases hsend
          obtain rfl := Option.some.inj hrest
          rcases sent_sentBy s u _ _ with hold | hnew
          · exact Or.inl hold
          · refine Or.inr ⟨_, hnew, ?_⟩
            rw [sendTransaction_transMsg]
            exact ⟨hne, rfl, fun t' ht' hsender htime => hclock ⟨t', ht', hsender, htime⟩⟩
  | node i o => exact Or.inl (nodeStep_same h).2
  | child c reading =>
    obtain ⟨w, -, hrest⟩ := Option.bind_eq_some_iff.mp h
    obtain ⟨r, -, rfl⟩ := Option.map_eq_some_iff.mp hrest
    exact Or.inl rfl
  | listener o => exact Or.inl (listenerStep_cases h).1.sent

/-- What each user has sent. -/
theorem next_histories (hs : ∀ pid, History pid (own pid s.sent)) {l : Label}
    (h : World.next par s l = some s') : ∀ pid, History pid (own pid s'.sent) := by
  rcases next_sent h with hsame | ⟨t, hsent, hreceiver, hstatus, hclock⟩
  · rw [hsame]
    exact hs
  · intro pid
    rw [hsent, own, push, List.filter_append]
    by_cases hpid : t.sender = pid
    · rw [List.filter_cons_of_pos (by simpa using hpid), List.filter_nil]
      refine (hs pid).push hpid (by rw [← hpid]; exact hreceiver) hstatus fun t' ht' => ?_
      obtain ⟨hin, hsender⟩ := own_sender.mp ht'
      rw [← Bool.not_eq_true, LkList.compare_iff]
      rintro ⟨heq, -⟩
      exact hclock t' hin (hsender.trans hpid.symm) heq
    · rw [List.filter_cons_of_neg (by simpa using hpid), List.filter_nil, List.append_nil]
      exact hs pid

theorem reach_histories (h : (Network.machine par).Reach Received s) (pid : PidT) :
    History pid (own pid s.sent) := by
  refine h.invariant (I := fun s => ∀ pid, History pid (own pid s.sent)) ?_ ?_ pid
  · intro s hs pid
    rw [hs.sent]
    exact History.empty
  · exact fun _ _ _ hs _ hn => next_histories hs hn

end Histories

section Ledger

variable {par : Parameters} {s : World} {c : Chain}

theorem recorded_eq {b : Block} (hb : ∀ t ∈ b.entries, t.sender ≠ 0) :
    recorded b = (b.entries.map Transaction.asSent : Multiset Transaction) := by
  rw [recorded, sentOf, Multiset.map_coe]
  refine Multiset.filter_eq_self.mpr fun t ht => ?_
  obtain ⟨u, hu, rfl⟩ := List.mem_map.mp ht
  exact hb u hu

/-- An entry of the chain, as its sender built it. -/
theorem entry_sent (h : (Network.machine par).Reach Received s) (hledger : s.ledger = c.toLedger)
    {t : Transaction} (ht : t ∈ c.entries) : t.asSent ∈ s.sent ∧ FromUser s t.asSent := by
  obtain ⟨b, hb, htb⟩ := List.mem_flatMap.mp ht
  obtain ⟨i, hi⟩ := accounted_of_mem h hledger hb
  exact hi.sent t htb

theorem entry_sender (h : (Network.machine par).Reach Received s)
    (hledger : s.ledger = c.toLedger) {t : Transaction} (ht : t ∈ c.entries) : t.sender ≠ 0 :=
  (reach_wired h).senders t.asSent (entry_sent h hledger ht).1

/-- What the ledger records is what stands in the chain. -/
theorem sum_recorded (h : (Network.machine par).Reach Received s)
    (hledger : s.ledger = c.toLedger) : (s.ledger.toList.map recorded).sum =
      (c.entries.map Transaction.asSent : Multiset Transaction) := by
  have hblocks : ∀ blocks : List Block, (∀ b ∈ blocks, ∀ t ∈ b.entries, t.sender ≠ 0) →
      (blocks.map recorded).sum =
        ((blocks.flatMap Block.entries).map Transaction.asSent : Multiset Transaction) := by
    intro blocks
    induction blocks with
    | nil => exact fun _ => rfl
    | cons b rest ih =>
      intro hall
      rw [List.map_cons, List.sum_cons, recorded_eq (hall b List.mem_cons_self),
        ih fun b' hb' => hall b' (List.mem_cons_of_mem b hb'), List.flatMap_cons, List.map_append,
        Multiset.coe_add]
  have hzero : recorded Block.zero = 0 := by decide
  rw [hledger]
  show ((c.blocks ++ List.replicate _ Block.zero).map recorded).sum = _
  rw [List.map_append, List.sum_append, List.map_replicate, hzero, List.sum_replicate, nsmul_zero,
    add_zero]
  exact hblocks c.blocks fun b hb t ht =>
    entry_sender h hledger (List.mem_flatMap.mpr ⟨b, hb, ht⟩)

end Ledger

section Books

variable {par : Parameters} {s : World} {c : Chain} {log : List Losses.Loss}

/-- Everything sent is on its way, in the ledger or lost, and there once. -/
theorem sent_split (h : (logged par).Reach (fun r l => Received r.1 l) (s, log))
    (hledger : s.ledger = c.toLedger) : s.sent.Nodup ∧ (s.sent : Multiset Transaction) =
      inTransit s + lost log + (c.entries.map Transaction.asSent : Multiset Transaction) := by
  obtain ⟨-, hnodup, htotal⟩ := Losses.logged_sound par h
  refine ⟨hnodup, htotal.trans ?_⟩
  show inTransit s + (s.ledger.toList.map recorded).sum + lost log = _
  rw [sum_recorded (Losses.reach_of_logged h) hledger, add_right_comm]

theorem records (h : (logged par).Reach (fun r l => Received r.1 l) (s, log))
    (hledger : s.ledger = c.toLedger) (pid : PidT) : Records pid (own pid s.sent) c := by
  obtain ⟨hnodup, hsplit⟩ := sent_split h hledger
  constructor
  · intro t ht
    obtain ⟨hin, hsender⟩ := own_sender.mp ht
    exact own_sender.mpr ⟨(entry_sent (Losses.reach_of_logged h) hledger hin).1, hsender⟩
  · have hall : (c.entries.map Transaction.asSent).Nodup := by
      rw [← Multiset.coe_nodup] at hnodup ⊢
      rw [hsplit] at hnodup
      exact (Multiset.nodup_add.mp hnodup).2.1
    exact hall.sublist (List.filter_sublist.map _)

/-- What has not reached the ledger is on its way or was lost. -/
theorem coe_pendingOf (h : (logged par).Reach (fun r l => Received r.1 l) (s, log))
    (hledger : s.ledger = c.toLedger) :
    (pendingOf c s.sent : Multiset Transaction) = inTransit s + lost log := by
  obtain ⟨hnodup, hsplit⟩ := sent_split h hledger
  rw [← Multiset.coe_nodup, hsplit] at hnodup
  obtain ⟨-, -, hdisjoint⟩ := Multiset.nodup_add.mp hnodup
  rw [pendingOf, ← Multiset.filter_coe, hsplit, Multiset.filter_add]
  have hkept : (inTransit s + lost log).filter (fun t => ¬ Recorded c t) =
      inTransit s + lost log := by
    refine Multiset.filter_eq_self.mpr fun t ht hin => ?_
    exact Multiset.disjoint_left.mp hdisjoint ht hin
  have hnone : (c.entries.map Transaction.asSent : Multiset Transaction).filter
      (fun t => ¬ Recorded c t) = 0 :=
    Multiset.filter_eq_nil.mpr fun t ht hnot => hnot ht
  simpa using congrArg₂ (· + ·) hkept hnone

/-- The lists of all users together. -/
theorem sum_pendingOf {keys : List PidT} (hkeys : keys.Nodup) {sent : List Transaction}
    (hsent : ∀ t ∈ sent, t.sender ∈ keys) :
    (keys.map fun k => (pendingOf c (own k sent) : Multiset Transaction)).sum =
      (pendingOf c sent : Multiset Transaction) := by
  have hsplit := Table.sum_by_key hkeys Transaction.sender (fun t => ({t} : Multiset Transaction))
    (l := pendingOf c sent) fun t ht => hsent t (List.mem_filter.mp ht).1
  have hcoe : ∀ l : List Transaction, (l.map fun t => ({t} : Multiset Transaction)).sum = l := by
    intro l
    induction l with
    | nil => rfl
    | cons t rest ih =>
      rw [List.map_cons, List.sum_cons, ih]
      rfl
  rw [hcoe] at hsplit
  rw [← hsplit]
  congr 1
  refine List.map_congr_left fun k hk => ?_
  rw [hcoe, own, pendingOf, pendingOf, List.filter_filter, List.filter_filter]
  exact congrArg _ (List.filter_congr fun t ht => Bool.and_comm _ _)

/-- The payments of the chain cancel in the sum over the users, up to the rewards. -/
theorem sum_available (h : (Network.machine par).Reach Received s)
    (hledger : s.ledger = c.toLedger) {keys : List PidT} (hkeys : keys.Nodup)
    (hrows : s.usersPID.map User.pid = keys) (husers : s.users.map UserProc.myPID = keys) :
    (keys.map fun k => available par k c (own k s.sent)).sum =
      keys.length * par.soBudgetInit.toNat + (c.entries.map fun t => t.amount.toInt).sum -
        spent s.sent := by
  have hreceived := Table.sum_by_key hkeys Transaction.receiver (fun t => t.amount.toInt)
    (l := c.entries) fun t ht => by
      rw [← hrows]
      exact (entry_sent h hledger ht).2.receiver
  have hspent := Table.sum_by_key hkeys Transaction.sender cost (l := s.sent) fun t ht => by
    rw [← husers]
    exact ((reach_sources h).sent t ht).sender
  have hsplit : ∀ keys : List PidT, (keys.map fun k => available par k c (own k s.sent)).sum =
      keys.length * par.soBudgetInit.toNat + (keys.map fun k => received k c.entries).sum -
        (keys.map fun k => spent (own k s.sent)).sum := by
    intro keys
    induction keys with
    | nil => simp
    | cons k rest ih =>
      simp only [List.map_cons, List.sum_cons, ih, List.length_cons]
      rw [available]
      push_cast
      ring
  rw [hsplit]
  simp only [received, spent, own]
  rw [hreceived, hspent]

/-- The nodes together have the rewards of all entries, in the type int. -/
theorem sum_accurateBalance (h : (Network.machine par).Reach Received s)
    (hledger : s.ledger = c.toLedger) (hnodes : (nodePids s).Nodup) :
    ((nodePids s).map fun pid => (accurateBalance s.ledger pid).toInt).sum ≡
      (c.entries.map fun t : Transaction => t.reward.toInt).sum [ZMOD 2 ^ 32] := by
  have hnode : ((nodePids s).map fun pid => (accurateBalance s.ledger pid).toInt).sum ≡
      ((nodePids s).map fun pid => rewards pid c).sum [ZMOD 2 ^ 32] := by
    rw [hledger]
    exact Int.ModEq.listSum_map fun pid _ => accurateBalance_modEq c pid
  have hamounts : (c.blocks.map fun b => b.first.amount.toInt).sum ≡
      (c.blocks.map fun b => (b.entries.map fun t : Transaction => t.reward.toInt).sum).sum
        [ZMOD 2 ^ 32] := by
    refine Int.ModEq.listSum_map fun b hb => ?_
    obtain ⟨i, hi⟩ := accounted_of_mem h hledger hb
    obtain ⟨w, -, hconfirmed⟩ := hi.writer
    rw [hconfirmed.amount]
    exact Int.bmod_emod
  have hsum := Table.sum_by_key hnodes (fun b : Block => b.first.receiver)
    (fun b => b.first.amount.toInt) (l := c.blocks) fun b hb => by
      obtain ⟨i, hi⟩ := accounted_of_mem h hledger hb
      exact hi.node
  simp only [rewards] at hnode
  rw [hsum] at hnode
  rw [Chain.entries, FinalAccounting.sum_entries]
  exact hnode.trans hamounts

end Books

section Counted

variable {par : Parameters} {s s' : Count} {c : Chain}

/-- A list that a call on an earlier ledger and the sends since then have left, when all that
the earlier ledger held is there still. -/
structure Counted (ledger : Ledger) (pid : PidT) (sent list : List Transaction) (c₀ : Chain) :
    Prop where
  stands : ∀ i : Slot, c₀.toLedger.get i ≠ Block.zero → ledger.get i = c₀.toLedger.get i
  records : Records pid sent c₀
  list : list = pendingOf c₀ sent

theorem Counted.grow {ledger : Ledger} {pid : PidT} {sent list : List Transaction} {c₀ : Chain}
    (h : Counted ledger pid sent list c₀) (hledger : ledger = c.toLedger) {t : Transaction}
    (ht : Recorded c₀ t) : Recorded c t := by
  obtain ⟨e, he, rfl⟩ := List.mem_map.mp ht
  obtain ⟨b, hb, heb⟩ := List.mem_flatMap.mp he
  obtain ⟨i, rfl, hused⟩ := slot_of_mem hb
  have hstands := h.stands i hused
  rw [hledger] at hstands
  have hin : c.toLedger.get i ∈ c.blocks := mem_of_slot (hstands ▸ hused)
  exact List.mem_map_of_mem (List.mem_flatMap.mpr ⟨_, hin, hstands ▸ heb⟩)

/-- Where no child writes over a block, a block that stands in a slot stays there. -/
theorem next_stands {w w' : World} {l : Label} (hspares : Spares w l)
    (h : World.next par w l = some w') (i : Slot) (hused : w.ledger.get i ≠ Block.zero) :
    w'.ledger.get i = w.ledger.get i := by
  cases l with
  | user u a =>
    obtain ⟨p, p', result, -, rfl, -⟩ := userStep_cases h
    cases result <;> rfl
  | node j o =>
    obtain ⟨c, -, hdid⟩ := nodeStep_did h
    cases hdid <;> rfl
  | listener o => rw [(listenerStep_cases h).1.ledger]
  | child j reading =>
    obtain ⟨v, hv, hrest⟩ := Option.bind_eq_some_iff.mp h
    obtain ⟨⟨ledger, nodesPID, v'⟩, hstep, rfl⟩ := Option.map_eq_some_iff.mp hrest
    rcases (Writer.step_did hstep).ledger_cases with hsame | ⟨b, k, hpc, -, hwrite⟩
    · exact congrArg (·.get i) hsame
    · have hne : k ≠ i := by
        rintro rfl
        exact hused (hspares v hv b k hpc)
      show ledger.get i = _
      rw [hwrite, List.Vector.get_set_of_ne hne]

/-- A step of the system keeps what a user's list says of its last call. -/
theorem step_counted {l : Label} {pid : PidT} {c₀ : Chain} (hC : Orderly s (.step l))
    (hs : Counted s.world.ledger pid (own pid s.world.sent) (s.outgoing pid) c₀)
    (h : s.step par l = some s') :
    Counted s'.world.ledger pid (own pid s'.world.sent) (s'.outgoing pid) c₀ := by
  obtain ⟨w, hw, rfl⟩ := Option.map_eq_some_iff.mp h
  have hstands : ∀ i : Slot, c₀.toLedger.get i ≠ Block.zero →
      w.ledger.get i = c₀.toLedger.get i := by
    intro i hused
    have hsame := hs.stands i hused
    rw [next_stands hC.2 hw i (hsame ▸ hused), hsame]
  rcases next_sent hw with hsent | ⟨t, hsent, -, -, hclock⟩
  · refine ⟨hstands, ?_, ?_⟩
    · rw [show own pid w.sent = own pid s.world.sent by rw [hsent]]
      exact hs.records
    · show s.outgoing pid ++ own pid (w.sent.drop s.world.sent.length) =
        pendingOf c₀ (own pid w.sent)
      rw [hsent, List.drop_length, hs.list]
      exact List.append_nil _
  · have hdrop : w.sent.drop s.world.sent.length = [t] := by
      rw [hsent, push, List.drop_left]
    have hown : own pid w.sent = own pid s.world.sent ++ own pid [t] := by
      rw [hsent, push, own, List.filter_append]
      rfl
    show Counted w.ledger pid (own pid w.sent) (s.outgoing pid ++ own pid (w.sent.drop _)) c₀
    rw [hdrop, hown]
    by_cases hpid : t.sender = pid
    · have hmine : own pid [t] = [t] := List.filter_cons_of_pos (by simpa using hpid)
      have hfresh : t ∉ own pid s.world.sent := fun hin =>
        hclock t (own_sender.mp hin).1 rfl rfl
      rw [hmine]
      refine ⟨hstands, hs.records.push t, ?_⟩
      rw [hs.list]
      exact (pendingOf_push hs.records hpid hfresh).symm
    · have hother : own pid [t] = [] := List.filter_cons_of_neg (by simpa using hpid)
      rw [hother, List.append_nil, List.append_nil]
      exact ⟨hstands, hs.records, hs.list⟩

theorem call_world {u : ℕ} (h : s.call par u = some s') :
    s'.world = s.world ∧ s'.log = s.log := by
  obtain ⟨p, -, hrest⟩ := Option.bind_eq_some_iff.mp h
  split at hrest
  · contradiction
  · rw [← Option.some.inj hrest]
    exact ⟨rfl, rfl⟩

/-- The calls of get_balance leave the run of the system as it is. -/
theorem logged_of_counted (h : (machine par).Reach Orderly s) :
    (logged par).Reach (fun r l => Received r.1 l) (s.world, s.log) := by
  refine h.invariant (I := fun s => (logged par).Reach (fun r l => Received r.1 l)
    (s.world, s.log)) ?_ ?_
  · exact fun s hs => Machine.Reach.of_start ⟨hs.world, hs.log⟩
  · intro s turn s' hs hC hn
    cases turn with
    | step l =>
      obtain ⟨w, hw, rfl⟩ := Option.map_eq_some_iff.mp hn
      exact hs.next hC.1 (Option.map_eq_some_iff.mpr ⟨w, hw, rfl⟩)
    | call u =>
      obtain ⟨hworld, hlog⟩ := call_world hn
      rw [hworld, hlog]
      exact hs

/-- What a user's get_balance leaves. -/
theorem called (h : (logged par).Reach (fun r l => Received r.1 l) (s.world, s.log))
    (hledger : s.world.ledger = c.toLedger) (hnodup : (s.world.usersPID.map User.pid).Nodup)
    {p q : UserProc} {c₀ : Chain}
    (hcounted : Counted s.world.ledger p.myPID (own p.myPID s.world.sent) (s.outgoing p.myPID) c₀)
    (hcall : Calls par s p q) :
    q.outGoingTransactions = pendingOf c (own p.myPID s.world.sent) ∧
      (q.currBalance.toNat : ℤ) ≡ available par p.myPID c (own p.myPID s.world.sent)
        [ZMOD 2 ^ 32] := by
  obtain ⟨usersPID, hget⟩ := hcall
  have hgrow : ∀ t, Recorded c₀ t → Recorded c t := fun t ht => hcounted.grow hledger ht
  rw [hledger] at hget
  obtain ⟨-, -, hlist, hbalance, -⟩ := getBalance_tracked (p := s.listed p)
    (reach_histories (Losses.reach_of_logged h) p.myPID) (records h hledger p.myPID) hgrow
    hcounted.list hnodup hget
  refine ⟨hlist, ?_⟩
  rw [hbalance]
  exact Int.mod_modEq _ _

/-- After a call the list says what the present ledger lacks. -/
theorem call_counted {u : ℕ} {pid : PidT}
    (hlogged : (logged par).Reach (fun r l => Received r.1 l) (s.world, s.log))
    (hledger : s.world.ledger = c.toLedger) (hnodup : (s.world.usersPID.map User.pid).Nodup)
    (hs : ∀ pid, ∃ c₀,
      Counted s.world.ledger pid (own pid s.world.sent) (s.outgoing pid) c₀)
    (h : s.call par u = some s') :
    ∃ c₀, Counted s'.world.ledger pid (own pid s'.world.sent) (s'.outgoing pid) c₀ := by
  obtain ⟨p, -, hrest⟩ := Option.bind_eq_some_iff.mp h
  split at hrest
  · contradiction
  next rows q hget =>
    obtain ⟨c₀, hcounted⟩ := hs p.myPID
    have hlist := (called hlogged hledger hnodup hcounted ⟨rows, hget⟩).1
    rw [← Option.some.inj hrest]
    by_cases hpid : pid = p.myPID
    · subst hpid
      refine ⟨c, fun i _ => by rw [hledger], records hlogged hledger p.myPID, ?_⟩
      show Function.update s.outgoing p.myPID _ p.myPID = _
      rw [Function.update_self, hlist]
    · obtain ⟨c₁, hother⟩ := hs pid
      refine ⟨c₁, hother.stands, hother.records, ?_⟩
      show Function.update s.outgoing p.myPID _ pid = _
      rw [Function.update_of_ne hpid, hother.list]

theorem next_usersPID {w w' : World} {l : Label} (h : World.next par w l = some w') :
    w'.usersPID = w.usersPID := by
  cases l with
  | user u a =>
    obtain ⟨p, p', result, -, rfl, -⟩ := userStep_cases h
    cases result <;> rfl
  | node i o =>
    obtain ⟨c, -, hdid⟩ := nodeStep_did h
    cases hdid <;> rfl
  | child j reading =>
    obtain ⟨v, -, hrest⟩ := Option.bind_eq_some_iff.mp h
    obtain ⟨r, -, rfl⟩ := Option.map_eq_some_iff.mp hrest
    rfl
  | listener o => exact listenerStep_rows h

/-- In every run a user's list is what its last call and its sends since then have left, and
all that this call found in the ledger is there still. -/
theorem reach_counted (h : (machine par).Reach Orderly s)
    (hnodup : (s.world.usersPID.map User.pid).Nodup) (pid : PidT) :
    ∃ c₀, Counted s.world.ledger pid (own pid s.world.sent) (s.outgoing pid) c₀ := by
  have hboth := h.invariant (I := fun s => (machine par).Reach Orderly s ∧
    ((s.world.usersPID.map User.pid).Nodup → ∀ pid, ∃ c₀,
      Counted s.world.ledger pid (own pid s.world.sent) (s.outgoing pid) c₀)) ?_ ?_
  · exact hboth.2 hnodup pid
  · intro s hs
    refine ⟨Machine.Reach.of_start hs, fun _ pid => ⟨Chain.empty, ?_, ?_, ?_⟩⟩
    · exact fun i hused => absurd (List.Vector.get_replicate _ i) hused
    · rw [hs.world.sent]
      exact ⟨fun t ht => absurd ht List.not_mem_nil, List.nodup_nil⟩
    · rw [hs.outgoing, hs.world.sent]
      rfl
  · rintro s turn s' ⟨hreach, hs⟩ hC hn
    refine ⟨hreach.next hC hn, fun hrows pid => ?_⟩
    cases turn with
    | step l =>
      obtain ⟨w, hw, hsame⟩ := Option.map_eq_some_iff.mp hn
      rw [← hsame, next_usersPID hw] at hrows
      obtain ⟨c₀, hcounted⟩ := hs hrows pid
      exact ⟨c₀, step_counted hC hcounted hn⟩
    | call u =>
      obtain ⟨c, hledger⟩ := hC
      rw [(call_world hn).1] at hrows
      exact call_counted (logged_of_counted hreach) hledger hrows (hs hrows) hn

/-- The calls of several users, one after the other on the same ledger. -/
theorem sum_called (h : (machine par).Reach Orderly s) (hledger : s.world.ledger = c.toLedger)
    (hnodup : (s.world.usersPID.map User.pid).Nodup) {users counted : List UserProc}
    (hcalls : List.Forall₂ (Calls par s) users counted) :
    (counted.map fun q => (q.outGoingTransactions : Multiset Transaction)).sum =
      ((users.map UserProc.myPID).map fun k =>
        (pendingOf c (own k s.world.sent) : Multiset Transaction)).sum ∧
    (counted.map fun q => (q.currBalance.toNat : ℤ)).sum ≡
      ((users.map UserProc.myPID).map fun k => available par k c (own k s.world.sent)).sum
        [ZMOD 2 ^ 32] := by
  induction hcalls with
  | nil => exact ⟨rfl, Int.ModEq.refl _⟩
  | @cons p q _ _ hcall _ ih =>
    obtain ⟨c₀, hcounted⟩ := reach_counted h hnodup p.myPID
    obtain ⟨hlist, hbalance⟩ := called (logged_of_counted h) hledger hnodup hcounted hcall
    obtain ⟨hlists, hbalances⟩ := ih
    simp only [List.map_cons, List.sum_cons]
    rw [hlist, hlists]
    exact ⟨rfl, hbalance.add hbalances⟩

end Counted

section Example

open Confirmation (small boot pay act)
open NetworkLedger (child)

def begin : Count := ⟨pair, [], fun _ => []⟩

theorem begin_initial : Initial small begin := ⟨pair_initial, rfl, rfl⟩

def nineSent : List Turn :=
  (boot ++ (List.range 9).flatMap fun n => [pay (n + 1), act, act, act]).map Turn.step

theorem orderly_nineSent (s : Count) : ∀ turn ∈ nineSent, Orderly s turn := by
  have hact : Orderly s (.step act) := ⟨fun e he => absurd he (by simp), trivial⟩
  intro turn hturn
  obtain ⟨l, hl, rfl⟩ := List.mem_map.mp hturn
  rcases List.mem_append.mp hl with hboot | hpay
  · rw [List.eq_of_mem_replicate hboot]
    exact hact
  · obtain ⟨n, -, hn⟩ := List.mem_flatMap.mp hpay
    have hcases : l = pay (n + 1) ∨ l = act := by simpa using hn
    rcases hcases with rfl | rfl
    · exact ⟨trivial, trivial⟩
    · exact hact

theorem orderly_of_empty {s : Count} (h : s.world.ledger = Ledger.zero) :
    Orderly s (.step child) := by
  refine ⟨trivial, fun w _ b i _ => ?_⟩
  rw [h]
  exact List.Vector.get_replicate _ i

/-- User 7 calls get_balance once the block is there, and sends its tenth payment. -/
theorem tenth_run : ∃ s₁ s₂ s₃ s₄ s₅ s : Count, (machine small).run begin nineSent = some s₁ ∧
    s₁.world.ledger = Ledger.zero ∧ s₁.next small (.step child) = some s₂ ∧
    s₂.world.ledger = Ledger.zero ∧ s₂.next small (.step child) = some s₃ ∧
    s₃.world.ledger = Ledger.zero ∧ s₃.next small (.step child) = some s₄ ∧
    s₄.world.ledger = chain.toLedger ∧ s₄.next small (.call 0) = some s₅ ∧
    s₅.outgoing 7 = [] ∧
    (machine small).run s₅ [.step (pay 10), .step act] = some s ∧
    s.world.ledger = chain.toLedger ∧ s.world.usersPID.map User.pid = [7, 8] ∧
    s.world.users.map UserProc.myPID = [7, 8] ∧ nodePids s.world = [40, 41] ∧
    worth (inTransit s.world) = 100 ∧
    ∃ p p' q q' rows rows', s.world.users = [p, p'] ∧
      getBalance small s.world.ledger s.world.usersPID (s.listed p) = .ok (rows, q) ∧
      getBalance small s.world.ledger s.world.usersPID (s.listed p') = .ok (rows', q') ∧
      q.currBalance = 0 ∧ q'.currBalance = 1891 :=
  ⟨_, _, _, _, _, _, rfl, rfl, rfl, rfl, rfl, rfl, rfl, rfl, rfl, rfl, rfl, rfl, rfl, rfl, rfl,
    by decide, _, _, _, _, _, _, rfl, rfl, rfl, rfl, rfl⟩

end Example

end SimulazioneTransazioni.MoneyInTransit

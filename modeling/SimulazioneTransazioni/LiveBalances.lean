import SimulazioneTransazioni.LedgerRace
import SimulazioneTransazioni.Nodes
import SimulazioneTransazioni.RewardRace
import Mathlib.Tactic.Linarith

/-!
What the balance of a node shows while the simulation runs. A child adds the rewards of
its batch to the row, with a load and a store, before it builds the block, and
node_interrupt_handle writes over the row with what the ledger pays. At every moment of
every interleaving the row exceeds this by the rewards of the blocks that are not in the
ledger yet, or find it full, and of those that were written over; and it falls short of it
by what other children stored between a load and its store.
-/
namespace SimulazioneTransazioni.LiveBalances

open Blocks LedgerWriters LedgerRace Nodes RewardRace MachineInt Counter

/-- A child of a node. It comes to its block when it has added the rewards. -/
structure Child where
  writer : Writer
  adding : Pc UInt64

namespace Child

def adder (c : Child) : Adder := ⟨c.writer.myPID, c.writer.transBuffer, c.adding⟩

def withWriter (c : Child) (w : Writer) : Child := { c with writer := w }

def withAdding (c : Child) (pc : Pc UInt64) : Child := { c with adding := pc }

def fill (reading : Reading) (w : Writer) : Block :=
  { reading.memory with
    transList := rewardTransaction reading.clock w.myPID (sumOfRewards w.transBuffer.toList) ::ᵥ
      w.transBuffer }

def write (ledger : Ledger) (nodesPID : List Node) (reading : Reading) (w : Writer) :
    Option (Ledger × List Node × Writer) :=
  match w.pc with
  | .building => some (ledger, nodesPID, w.goto (.scanning (fill reading w) 0))
  | _ => w.step ledger nodesPID reading

def step (ledger : Ledger) (nodesPID : List Node) (reading : Reading) (c : Child) :
    Option (Ledger × List Node × Child) :=
  match c.adding with
  | .done =>
    (write ledger nodesPID reading c.writer).map fun (ledger, nodesPID, w) =>
      (ledger, nodesPID, c.withWriter w)
  | _ => (c.adder.step nodesPID).map fun (nodesPID, a) => (ledger, nodesPID, c.withAdding a.pc)

end Child

variable {ι : Type*}

structure State (ι : Type*) where
  ledger : Ledger
  nodesPID : List Node
  children : ι → Child

namespace State

def ledgerPart (s : State ι) : LedgerWriters.State ι :=
  ⟨s.ledger, s.nodesPID, fun c => (s.children c).writer⟩

def rowPart (s : State ι) : RewardRace.State ι :=
  ⟨s.nodesPID, fun c => (s.children c).adder⟩

end State

structure Initial (s : State ι) : Prop where
  ledger : LedgerWriters.Initial s.ledgerPart
  rows : RewardRace.Initial s.rowPart

def next [DecidableEq ι] (s : State ι) (l : ι × Reading) : Option (State ι) :=
  ((s.children l.1).step s.ledger s.nodesPID l.2).map fun (ledger, nodesPID, c) =>
    ⟨ledger, nodesPID, Function.update s.children l.1 c⟩

def machine (ι : Type*) [DecidableEq ι] : Machine (State ι) (ι × Reading) where
  start := Initial
  next := next

/-- What a balance can lose: the block that is written over, and what was stored in the
row of a node between the load and the store of one of its children. -/
inductive Loss
  | overwritten (b : Block)
  | unseen (node : PidT) (amount : UInt64)

def losses (s : State ι) (l : ι × Reading) : List Loss :=
  match (s.children l.1).adding, (s.children l.1).writer.pc with
  | .loaded value, _ =>
    let node := (s.children l.1).writer.myPID
    [.unseen node (balanceOf s.nodesPID node - value)]
  | .done, .writing _ i => [.overwritten (s.ledger.get i)]
  | _, _ => []

abbrev logged (ι : Type*) [DecidableEq ι] : Machine (State ι × List Loss) (ι × Reading) :=
  (machine ι).recorded losses

/-- The condition of the additions: no child loads a balance that another child of its node
has loaded and not stored yet. -/
def AddsAlone (s : State ι) (l : ι × Reading) : Prop := RewardRace.Uncontested s.rowPart l.1

def pays (pid : PidT) (b : Block) : ℤ := if b.first.receiver = pid then b.first.amount.toInt else 0

def paidBy (pid : PidT) (blocks : List Block) : ℤ := (blocks.map (pays pid)).sum

def share (pid : PidT) (c : Child) : ℤ :=
  if c.writer.myPID = pid then (sumOfRewards c.writer.transBuffer.toList).toInt else 0

def added (c : Child) : Bool := c.adding.isDone

def pending (c : Child) : Bool :=
  c.adding.isDone && match c.writer.pc with
    | .inserted _ _ => false
    | _ => true

def overwritten : List Loss → List Block :=
  List.filterMap fun
    | .overwritten b => some b
    | .unseen _ _ => none

def unseen (pid : PidT) (log : List Loss) : ℤ :=
  (log.map fun
    | .overwritten _ => 0
    | .unseen node amount => if node = pid then (amount.toNat : ℤ) else 0).sum

def Ordered (s : State ι) : Prop :=
  ∀ c, (s.children c).adding ≠ .done → (s.children c).writer.pc = .building

section Sums

variable [Fintype ι]

def rewards (pid : PidT) (p : Child → Bool) (children : ι → Child) : ℤ :=
  ∑ c, if p (children c) then share pid (children c) else 0

/-- The row of the node against the rewards added so far. -/
def Counts (s₀ : State ι) (r : State ι × List Loss) : Prop :=
  ∀ pid, ((balanceOf r.1.nodesPID pid).toNat : ℤ) ≡
    (balanceOf s₀.nodesPID pid).toNat + rewards pid added r.1.children -
      unseen pid r.2 [ZMOD 2 ^ 32]

/-- Every reward added is pending, in the ledger, or was written over. -/
def Places (r : State ι × List Loss) : Prop :=
  ∀ pid, rewards pid added r.1.children = paidBy pid r.1.ledger.toList +
    rewards pid pending r.1.children + paidBy pid (overwritten r.2)

end Sums

section Pays

theorem pays_zero (pid : PidT) : pays pid Block.zero = 0 := by
  unfold pays
  split <;> rfl

theorem pays_written {myPID : PidT} {batch : Batch} {b : Block} (hb : Built myPID batch b)
    (i : Slot) (pid : PidT) :
    pays pid (written b i) =
      if myPID = pid then (sumOfRewards batch.toList).toInt else 0 := by
  obtain ⟨timestamp, hlist⟩ := hb
  have hfirst : (written b i).first =
      confirm (rewardTransaction timestamp myPID (sumOfRewards batch.toList)) := by
    simp [written, confirmBlock, Block.first, hlist]
  rw [pays, hfirst]
  rfl

/-- The loop of node_interrupt_handle. -/
theorem accurateBalance_paidBy (ledger : Ledger) (pid : PidT) :
    (accurateBalance ledger pid).toInt ≡ paidBy pid ledger.toList [ZMOD 2 ^ 32] := by
  have hstep : ∀ (acc : Int32) (b : Block),
      (if b.first.receiver = pid then acc + b.first.amount else acc).toInt ≡
        acc.toInt + pays pid b [ZMOD 2 ^ 32] := by
    intro acc b
    unfold pays
    by_cases hb : b.first.receiver = pid
    · rw [if_pos hb, if_pos hb]
      exact add_modEq_int _ _
    · rw [if_neg hb, if_neg hb, add_zero]
  have hfold := foldl_modEq Int32.toInt
    (fun (acc : Int32) (b : Block) => if b.first.receiver = pid then acc + b.first.amount else acc)
    (pays pid) hstep ledger.toList 0
  rwa [Int32.toInt_zero, zero_add] at hfold

/-- A slot that is written. -/
theorem paidBy_set (pid : PidT) (ledger : Ledger) (i : Slot) (b : Block) :
    paidBy pid (ledger.set i b).toList + pays pid (ledger.get i) =
      paidBy pid ledger.toList + pays pid b := by
  have hslot : ledger.toList[i.val]? = some (ledger.get i) := by
    rw [List.Vector.get_eq_get_toList]
    exact List.getElem?_eq_getElem _
  have hset := Table.sum_set (pays pid) b hslot
  rw [← List.Vector.toList_set] at hset
  exact hset

theorem unseen_append (pid : PidT) (log new : List Loss) :
    unseen pid (log ++ new) = unseen pid log + unseen pid new := by
  rw [unseen, List.map_append, List.sum_append]
  rfl

theorem unseen_one (pid node : PidT) (amount : UInt64) :
    unseen pid [.unseen node amount] = if node = pid then (amount.toNat : ℤ) else 0 :=
  List.sum_singleton

theorem paidBy_overwritten_append (pid : PidT) (log new : List Loss) :
    paidBy pid (overwritten (log ++ new)) =
      paidBy pid (overwritten log) + paidBy pid (overwritten new) := by
  rw [paidBy, overwritten, List.filterMap_append, List.map_append, List.sum_append]
  rfl

end Pays

section Steps

variable {s s' : State ι} {l : ι × Reading}

theorem fill_built (reading : Reading) (w : Writer) :
    Built w.myPID w.transBuffer (Child.fill reading w) := ⟨reading.clock, rfl⟩

/-- After sum_reward a child leaves the table. -/
theorem write_did {ledger ledger' : Ledger} {nodesPID nodesPID' : List Node} {reading : Reading}
    {w w' : Writer} (h : Child.write ledger nodesPID reading w = some (ledger', nodesPID', w')) :
    w.Did ledger ledger' w' ∧ nodesPID' = nodesPID := by
  unfold Child.write at h
  cases hpc : w.pc with
  | building =>
    simp only [hpc] at h
    cases h
    exact ⟨.build _ hpc (fill_built reading w), rfl⟩
  | scanning b i =>
    simp only [hpc] at h
    refine ⟨Writer.step_did h, ?_⟩
    simp only [Writer.step, hpc] at h
    split at h
    · split at h
      · cases h
        rfl
      · cases h
        rfl
    · cases h
      rfl
  | writing b i =>
    simp only [hpc] at h
    refine ⟨Writer.step_did h, ?_⟩
    simp only [Writer.step, hpc] at h
    cases h
    rfl
  | inserted b i => simp [hpc, Writer.step] at h
  | full => simp [hpc, Writer.step] at h

variable [DecidableEq ι]

/-- What a step of a child does: an access to the row, which leaves the ledger, or a step of
insert_block_in_ledger, which leaves the row. -/
inductive ChildDid (s s' : State ι) (l : ι × Reading) : Prop
  | load (balance : UInt64) (hpc : (s.children l.1).adding = .ready)
      (hchildren : s'.children =
        Function.update s.children l.1 ((s.children l.1).withAdding (.loaded balance)))
      (hledger : s'.ledger = s.ledger) (hrows : s'.nodesPID = s.nodesPID)
  | store (value : UInt64) (hpc : (s.children l.1).adding = .loaded value)
      (hchildren : s'.children =
        Function.update s.children l.1 ((s.children l.1).withAdding .done))
      (hledger : s'.ledger = s.ledger)
      (hrows : balanceOf s'.nodesPID = Function.update (balanceOf s.nodesPID)
        (s.children l.1).writer.myPID (value + (s.children l.1).adder.reward))
  | write (w : Writer) (hpc : (s.children l.1).adding = .done)
      (hchildren : s'.children = Function.update s.children l.1 ((s.children l.1).withWriter w))
      (hdid : (s.children l.1).writer.Did s.ledger s'.ledger w)
      (hrows : s'.nodesPID = s.nodesPID)

/-- A step is an access to the row or a step of insert_block_in_ledger. -/
theorem next_child (h : next s l = some s') : ChildDid s s' l := by
  obtain ⟨⟨ledger, nodesPID, c⟩, hstep, rfl⟩ := Option.map_eq_some_iff.mp h
  unfold Child.step at hstep
  cases hpc : (s.children l.1).adding with
  | ready =>
    simp only [hpc] at hstep
    obtain ⟨⟨rows, a⟩, hadd, heq⟩ := Option.map_eq_some_iff.mp hstep
    cases heq
    obtain ⟨i, hi, hrest⟩ := Option.bind_eq_some_iff.mp hadd
    simp only [Child.adder, hpc] at hrest
    obtain ⟨row, -, heq⟩ := Option.map_eq_some_iff.mp hrest
    cases heq
    exact .load row.balance hpc rfl rfl rfl
  | loaded value =>
    simp only [hpc] at hstep
    obtain ⟨⟨rows, a⟩, hadd, heq⟩ := Option.map_eq_some_iff.mp hstep
    cases heq
    obtain ⟨i, hi, hrest⟩ := Option.bind_eq_some_iff.mp hadd
    simp only [Child.adder, hpc] at hrest
    cases hrest
    exact .store value hpc rfl rfl (balanceOf_stored hi _)
  | done =>
    simp only [hpc] at hstep
    obtain ⟨⟨ledger', rows, w⟩, hwrite, heq⟩ := Option.map_eq_some_iff.mp hstep
    cases heq
    obtain ⟨hdid, hrows⟩ := write_did hwrite
    exact .write w hpc rfl hdid hrows

end Steps

section Accounts

variable [DecidableEq ι] [Fintype ι] {s s' : State ι} {l : ι × Reading}

structure SameChild (c c' : Child) : Prop where
  myPID : c'.writer.myPID = c.writer.myPID
  batch : c'.writer.transBuffer = c.writer.transBuffer

/-- The rewards counted change with one child. -/
theorem rewards_update (children : ι → Child) {i : ι} {c' : Child} (pid : PidT)
    (p : Child → Bool) (hsame : SameChild (children i) c') :
    rewards pid p (Function.update children i c') +
        (if p (children i) then share pid (children i) else 0) =
      rewards pid p children + if p c' then share pid (children i) else 0 := by
  have hchange := sum_change
    (f := fun d => if p (children d) then share pid (children d) else 0)
    (g := fun d => if p (Function.update children i c' d) then
      share pid (Function.update children i c' d) else 0)
    i fun d hd => by rw [Function.update_of_ne hd]
  have hshare : share pid c' = share pid (children i) := by
    rw [share, hsame.myPID, hsame.batch, share]
  simp only [Function.update_self, hshare] at hchange
  exact hchange

theorem rewards_same (children : ι → Child) {i : ι} {c' : Child} (pid : PidT)
    {p : Child → Bool} (hsame : SameChild (children i) c') (hp : p c' = p (children i)) :
    rewards pid p (Function.update children i c') = rewards pid p children := by
  have hupdate := rewards_update children pid p hsame
  rw [hp] at hupdate
  exact add_right_cancel hupdate

theorem rewards_gain (children : ι → Child) {i : ι} {c' : Child} (pid : PidT)
    {p : Child → Bool} (hsame : SameChild (children i) c') (hold : p (children i) = false)
    (hnew : p c' = true) : rewards pid p (Function.update children i c') =
      rewards pid p children + share pid (children i) := by
  have hupdate := rewards_update children pid p hsame
  rw [hold, hnew, if_pos rfl] at hupdate
  rw [← hupdate]
  exact (add_zero _).symm

theorem rewards_loss (children : ι → Child) {i : ι} {c' : Child} (pid : PidT)
    {p : Child → Bool} (hsame : SameChild (children i) c') (hold : p (children i) = true)
    (hnew : p c' = false) : rewards pid p (Function.update children i c') +
      share pid (children i) = rewards pid p children := by
  have hupdate := rewards_update children pid p hsame
  rw [hold, hnew, if_pos rfl] at hupdate
  rw [hupdate]
  exact add_zero _

omit [DecidableEq ι] [Fintype ι] in
theorem shaped_of_same {r r' : LedgerWriters.State ι} (hr : Shaped r)
    (hledger : r'.ledger = r.ledger) (hwriters : r'.writers = r.writers) : Shaped r' := by
  constructor
  · rw [hledger, hwriters]
    exact hr.knows
  · obtain ⟨n, hn⟩ := hr.filled
    exact ⟨n, hn.congr (fun c => by rw [hwriters]; exact ⟨rfl, rfl⟩) hledger⟩

omit [Fintype ι] in
theorem writers_update (children : ι → Child) (i : ι) (c' : Child) :
    (fun d => (Function.update children i c' d).writer) =
      Function.update (fun d => (children d).writer) i c'.writer := by
  funext d
  by_cases hd : d = i
  · rw [hd, Function.update_self, Function.update_self]
  · rw [Function.update_of_ne hd, Function.update_of_ne hd]

omit [Fintype ι] in
theorem next_ledgerPart (hs : Shaped s.ledgerPart) (h : next s l = some s') :
    Shaped s'.ledgerPart := by
  have hsame : ∀ c', s'.children = Function.update s.children l.1 c' →
      c'.writer = (s.children l.1).writer → s'.ledgerPart.writers = s.ledgerPart.writers := by
    intro c' hchildren hwriter
    show (fun d => (s'.children d).writer) = fun d => (s.children d).writer
    rw [hchildren, writers_update, hwriter]
    exact Function.update_eq_self l.1 _
  cases next_child h with
  | load balance hpc hchildren hledger hrows =>
    exact shaped_of_same hs hledger (hsame _ hchildren rfl)
  | store value hpc hchildren hledger hrows =>
    exact shaped_of_same hs hledger (hsame _ hchildren rfl)
  | write w hpc hchildren hdid hrows =>
    have hmoved : Moved s.ledgerPart s'.ledgerPart l.1 w := by
      refine ⟨hdid, ?_⟩
      show (fun d => (s'.children d).writer) = _
      rw [hchildren, writers_update]
      rfl
    exact hmoved.shaped hs

omit [DecidableEq ι] [Fintype ι] in
/-- Before it writes to the ledger a child goes on with the rewards it has added. -/
theorem pending_withWriter {c : Child} {w : Writer} (hpc : c.adding = .done)
    (hw : ∀ b i, w.pc ≠ .inserted b i) : pending (c.withWriter w) = true := by
  unfold pending Child.withWriter
  rw [hpc]
  cases hwriter : w.pc with
  | inserted b i => exact absurd hwriter (hw b i)
  | _ => rfl

omit [DecidableEq ι] [Fintype ι] in
theorem pending_of_did {c : Child} {ledger ledger' : Ledger} {w : Writer} (hpc : c.adding = .done)
    (hdid : c.writer.Did ledger ledger' w) : pending c = true :=
  pending_withWriter (c := c) hpc hdid.not_inserted

/-- A child whose rewards are in the row is counted once: in the ledger, or among the
pending. -/
theorem write_places {w : Writer} {log : List Loss} (hs : Shaped s.ledgerPart)
    (hpc : (s.children l.1).adding = .done)
    (hchildren : s'.children = Function.update s.children l.1 ((s.children l.1).withWriter w))
    (hdid : (s.children l.1).writer.Did s.ledger s'.ledger w) (hr : Places (s, log)) :
    Places (s', log ++ losses s l) := by
  intro pid
  have hsame : SameChild (s.children l.1) ((s.children l.1).withWriter w) :=
    ⟨hdid.same_batch.1, hdid.same_batch.2⟩
  have hbefore := hr pid
  have hpending := pending_of_did hpc hdid
  show rewards pid added s'.children = paidBy pid s'.ledger.toList +
    rewards pid pending s'.children + paidBy pid (overwritten (log ++ losses s l))
  rw [paidBy_overwritten_append, hchildren, rewards_same s.children pid (p := added) hsame rfl]
  have hstays : (∀ b i, w.pc ≠ .inserted b i) → losses s l = [] → s'.ledger = s.ledger →
      rewards pid added s.children = paidBy pid s'.ledger.toList +
        rewards pid pending (Function.update s.children l.1 ((s.children l.1).withWriter w)) +
          (paidBy pid (overwritten log) + paidBy pid (overwritten (losses s l))) := by
    intro hw hlosses hledger
    have hnone : paidBy pid (overwritten []) = 0 := rfl
    have hkept := (pending_withWriter hpc hw).trans hpending.symm
    rw [rewards_same s.children pid hsame hkept, hlosses, hnone, hledger, add_zero]
    exact hbefore
  generalize s'.ledger = ledger' at hdid hstays ⊢
  cases hdid with
  | build b hwriter hb => exact hstays nofun (by rw [losses, hpc, hwriter]) rfl
  | claim b i hwriter hfree => exact hstays nofun (by rw [losses, hpc, hwriter]) rfl
  | skip b i hwriter hused => exact hstays nofun (by rw [losses, hpc, hwriter]) rfl
  | giveUp b i hwriter hi => exact hstays nofun (by rw [losses, hpc, hwriter]) rfl
  | write b i hwriter =>
    have hlost : paidBy pid (overwritten (losses s l)) = pays pid (s.ledger.get i) := by
      rw [losses, hpc, hwriter]
      exact List.sum_singleton
    have hpays : pays pid (written b i) = share pid (s.children l.1) :=
      pays_written ((hs.knows l.1).claimed b i hwriter).1 i pid
    have hset := paidBy_set pid s.ledger i (written b i)
    have hdone := rewards_loss s.children pid (p := pending) hsame hpending
      (by rw [pending, Child.withWriter, hpc]; rfl)
    change rewards pid added s.children = paidBy pid s.ledger.toList +
      rewards pid pending s.children + paidBy pid (overwritten log) at hbefore
    rw [hlost]
    linarith

omit [Fintype ι] in
theorem next_ordered (ho : Ordered s) (h : next s l = some s') : Ordered s' := by
  have hrest : ∀ c', s'.children = Function.update s.children l.1 c' →
      (c'.adding ≠ .done → c'.writer.pc = .building) → Ordered s' := by
    intro c' hchildren hc' d hd
    rw [hchildren] at hd ⊢
    by_cases hdl : d = l.1
    · rw [hdl, Function.update_self] at hd ⊢
      exact hc' hd
    · rw [Function.update_of_ne hdl] at hd ⊢
      exact ho d hd
  cases next_child h with
  | load balance hpc hchildren hledger hrows =>
    exact hrest _ hchildren fun _ => ho l.1 (by rw [hpc]; nofun)
  | store value hpc hchildren hledger hrows => exact hrest _ hchildren fun hne => absurd rfl hne
  | write w hpc hchildren hdid hrows => exact hrest _ hchildren fun hne => absurd hpc hne

/-- A step moves rewards between the ledger, the pending ones and the log. -/
theorem next_places {log : List Loss} (hs : Shaped s.ledgerPart) (ho : Ordered s)
    (h : next s l = some s') (hr : Places (s, log)) : Places (s', log ++ losses s l) := by
  cases next_child h with
  | load balance hpc hchildren hledger hrows =>
    have hsame : SameChild (s.children l.1) ((s.children l.1).withAdding (.loaded balance)) :=
      ⟨rfl, rfl⟩
    have hold : added (s.children l.1) = false := by rw [added, hpc]; rfl
    have hold' : pending (s.children l.1) = false := by rw [pending, hpc]; rfl
    intro pid
    rw [losses, hpc, List.append_nil, hledger, hchildren,
      rewards_same s.children pid hsame hold.symm, rewards_same s.children pid hsame hold'.symm]
    exact hr pid
  | store value hpc hchildren hledger hrows =>
    have hsame : SameChild (s.children l.1) ((s.children l.1).withAdding .done) := ⟨rfl, rfl⟩
    have hbuilding := ho l.1 (by rw [hpc]; nofun)
    intro pid
    have hbefore := hr pid
    have hnone : paidBy pid (overwritten (losses s l)) = 0 := by rw [losses, hpc]; rfl
    have hadded := rewards_gain s.children pid (p := added) hsame (by rw [added, hpc]; rfl) rfl
    have hpending := rewards_gain s.children pid (p := pending) hsame
      (by rw [pending, hpc]; rfl) (pending_withWriter (c := (s.children l.1).withAdding .done) rfl
        (by rw [hbuilding]; nofun))
    show rewards pid added s'.children = paidBy pid s'.ledger.toList +
      rewards pid pending s'.children + paidBy pid (overwritten (log ++ losses s l))
    change rewards pid added s.children = paidBy pid s.ledger.toList +
      rewards pid pending s.children + paidBy pid (overwritten log) at hbefore
    rw [paidBy_overwritten_append, hnone, hledger, hchildren, hadded, hpending]
    linarith
  | write w hpc hchildren hdid hrows => exact write_places hs hpc hchildren hdid hr

theorem toNat_reward (x : Int32) :
    ((unsignedLongOfInt x).toNat : ℤ) ≡ x.toInt [ZMOD 2 ^ 64] := by
  have h : 0 ≤ x.toInt % 2 ^ 64 := Int.emod_nonneg _ (by norm_num)
  have hvalue : ((unsignedLongOfInt x).toNat : ℤ) = x.toInt % 2 ^ 64 := by
    rw [unsignedLongOfInt, UInt64.ofInt, UInt64.toNat_ofNat']
    omega
  rw [hvalue]
  exact Int.mod_modEq _ _

theorem toNat_add_modEq (a b : UInt64) : ((a + b).toNat : ℤ) ≡ a.toNat + b.toNat [ZMOD 2 ^ 64] := by
  rw [UInt64.toNat_add, Int.natCast_mod, Nat.cast_add]
  exact Int.mod_modEq _ _

/-- The store of a sum with an old balance. -/
theorem stored_modEq (balance value : UInt64) (x : Int32) :
    ((value + unsignedLongOfInt x).toNat : ℤ) ≡
      balance.toNat + x.toInt - (balance - value).toNat [ZMOD 2 ^ 64] := by
  have hvalue : (value.toNat : ℤ) ≡ balance.toNat - (balance - value).toNat [ZMOD 2 ^ 64] := by
    have hsum := toNat_add_modEq (balance - value) value
    rw [UInt64.sub_add_cancel] at hsum
    have hdiff := hsum.symm.sub_right ((balance - value).toNat : ℤ)
    rwa [add_sub_cancel_left] at hdiff
  have hsum := (toNat_add_modEq value (unsignedLongOfInt x)).trans (hvalue.add (toNat_reward x))
  rwa [sub_add_eq_add_sub] at hsum

/-- A store brings the rewards of its child into the row, less what others stored since the
load. -/
theorem next_counts {log : List Loss} {s₀ : State ι} (h : next s l = some s')
    (hr : Counts s₀ (s, log)) : Counts s₀ (s', log ++ losses s l) := by
  cases next_child h with
  | load balance hpc hchildren hledger hrows =>
    have hsame : SameChild (s.children l.1) ((s.children l.1).withAdding (.loaded balance)) :=
      ⟨rfl, rfl⟩
    have hold : added (s.children l.1) = false := by rw [added, hpc]; rfl
    intro pid
    rw [losses, hpc, List.append_nil, hrows, hchildren, rewards_same s.children pid hsame hold.symm]
    exact hr pid
  | store value hpc hchildren hledger hrows =>
    have hsame : SameChild (s.children l.1) ((s.children l.1).withAdding .done) := ⟨rfl, rfl⟩
    intro pid
    have hbefore := hr pid
    have hadded := rewards_gain s.children pid (p := added) hsame (by rw [added, hpc]; rfl) rfl
    change ((balanceOf s.nodesPID pid).toNat : ℤ) ≡ (balanceOf s₀.nodesPID pid).toNat +
      rewards pid added s.children - unseen pid log [ZMOD 2 ^ 32] at hbefore
    show ((balanceOf s'.nodesPID pid).toNat : ℤ) ≡ (balanceOf s₀.nodesPID pid).toNat +
      rewards pid added s'.children - unseen pid (log ++ losses s l) [ZMOD 2 ^ 32]
    rw [unseen_append, hchildren, hadded, hrows, losses, hpc, unseen_one, share]
    by_cases hpid : (s.children l.1).writer.myPID = pid
    · subst hpid
      have hstored := modEq_of_long (stored_modEq
        (balanceOf s.nodesPID (s.children l.1).writer.myPID) value
        (sumOfRewards (s.children l.1).writer.transBuffer.toList))
      rw [Function.update_self, if_pos rfl, if_pos rfl]
      calc _ ≡ _ [ZMOD 2 ^ 32] := hstored.trans ((hbefore.add_right _).sub_right _)
        _ = _ := by abel
    · rw [Function.update_of_ne fun h => hpid h.symm, if_neg hpid, if_neg hpid, add_zero, add_zero]
      exact hbefore
  | write w hpc hchildren hdid hrows =>
    have hsame : SameChild (s.children l.1) ((s.children l.1).withWriter w) :=
      ⟨hdid.same_batch.1, hdid.same_batch.2⟩
    have hnone : ∀ pid, unseen pid (losses s l) = 0 := by
      intro pid
      rw [losses, hpc]
      cases (s.children l.1).writer.pc <;> rfl
    intro pid
    show _ ≡ ((balanceOf s₀.nodesPID pid).toNat : ℤ) + rewards pid added s'.children -
      unseen pid (log ++ losses s l) [ZMOD 2 ^ 32]
    rw [unseen_append, hnone, add_zero, hrows, hchildren,
      rewards_same s.children pid (p := added) hsame rfl]
    exact hr pid

end Accounts

section Alone

variable [DecidableEq ι] [Fintype ι] {s₀ s s' : State ι} {l : ι × Reading}

omit [Fintype ι] in
theorem adders_update (children : ι → Child) (i : ι) (c' : Child) :
    (fun d => (Function.update children i c' d).adder) =
      Function.update (fun d => (children d).adder) i c'.adder := by
  funext d
  by_cases hd : d = i
  · rw [hd, Function.update_self, Function.update_self]
  · rw [Function.update_of_ne hd, Function.update_of_ne hd]

omit [DecidableEq ι] [Fintype ι] in
theorem adder_step {a a' : Adder} {nodesPID nodesPID' : List Node}
    (h : a.step nodesPID = some (nodesPID', a')) : a' = a.goto a'.pc := by
  obtain ⟨i, -, hrest⟩ := Option.bind_eq_some_iff.mp h
  split at hrest
  · obtain ⟨row, -, heq⟩ := Option.map_eq_some_iff.mp hrest
    cases heq
    rfl
  · cases hrest
    rfl
  · contradiction

omit [Fintype ι] in
theorem rowPart_adds {i : ι} {nodesPID : List Node} {a : Adder} (ledger : Ledger)
    (hadd : (s.children i).adder.step s.nodesPID = some (nodesPID, a)) :
    RewardRace.next s.rowPart i = some (State.rowPart
      ⟨ledger, nodesPID, Function.update s.children i ((s.children i).withAdding a.pc)⟩) := by
  have hput : ((s.children i).withAdding a.pc).adder = a := (adder_step hadd).symm
  have hnext : RewardRace.next s.rowPart i =
      ((s.children i).adder.step s.nodesPID).map fun r => s.rowPart.put i r.1 r.2 := rfl
  rw [hnext, hadd, Option.map_some, State.rowPart, State.rowPart, adders_update, hput]
  rfl

omit [Fintype ι] in
/-- On the rows a child makes a step of its addition, or none. -/
theorem next_rowPart (h : next s l = some s') :
    RewardRace.next s.rowPart l.1 = some s'.rowPart ∨ s'.rowPart = s.rowPart := by
  obtain ⟨⟨ledger, nodesPID, c⟩, hstep, rfl⟩ := Option.map_eq_some_iff.mp h
  unfold Child.step at hstep
  split at hstep
  next hpc =>
    obtain ⟨⟨ledger', rows, w⟩, hwrite, heq⟩ := Option.map_eq_some_iff.mp hstep
    cases heq
    obtain ⟨hdid, rfl⟩ := write_did hwrite
    have hadder : ((s.children l.1).withWriter w).adder = (s.children l.1).adder := by
      rw [Child.adder, Child.withWriter, hdid.same_batch.1, hdid.same_batch.2]
      rfl
    right
    rw [State.rowPart, adders_update, hadder]
    exact congrArg (RewardRace.State.mk s.nodesPID) (Function.update_eq_self l.1 _)
  next hpc =>
    obtain ⟨⟨rows, a⟩, hadd, heq⟩ := Option.map_eq_some_iff.mp hstep
    cases heq
    exact Or.inl (rowPart_adds _ hadd)

/-- Where no load is contested, a child that has loaded the balance stores it again with
its rewards before another child of the node does. -/
theorem unseen_alone {log : List Loss} (h₀ : Initial s₀)
    (hp : (logged ι).Path (fun r l => AddsAlone r.1 l) (s₀, []) (s, log)) (pid : PidT) :
    unseen pid log = 0 := by
  have hrun := hp.preserves (I := fun r => Same s₀.rowPart r.1.rowPart ∧
    Counter.Alone (keyOf s₀.rowPart) (amountOf s₀.rowPart) (counted s₀.rowPart)
      (counted r.1.rowPart) ∧ unseen pid r.2 = 0) ?_
      ⟨same_initial h₀.rows, alone_start h₀.rows.ready, rfl⟩
  · exact hrun.2.2
  · rintro ⟨s, log⟩ l r' ⟨hs, halone, hunseen⟩ hC hn
    obtain ⟨s', hs', rfl⟩ := Option.map_eq_some_iff.mp hn
    refine ⟨?_, ?_, ?_⟩
    · rcases next_rowPart hs' with hstep | hsame
      · exact (next_counted hs l.1).2 _ hstep
      · rwa [hsame]
    · rcases next_rowPart hs' with hstep | hsame
      · exact next_alone halone ((uncontested_iff hs).mpr hC) (counted_of_next hs hstep)
      · rwa [hsame]
    · rw [unseen_append, hunseen, zero_add, losses]
      split
      next value hpc =>
        have hkey : keyOf s₀.rowPart l.1 = (s.children l.1).writer.myPID :=
          (congrArg Adder.myPID (hs.adders l.1)).symm
        have hfresh := halone.fresh l.1 value hpc
        rw [hkey] at hfresh
        have hnone : balanceOf s.nodesPID (s.children l.1).writer.myPID - value = 0 := by
          rw [← hfresh]
          exact UInt64.sub_self _
        show unseen pid [.unseen (s.children l.1).writer.myPID
          (balanceOf s.nodesPID (s.children l.1).writer.myPID - value)] = 0
        rw [hnone, unseen_one, UInt64.toNat_zero, Nat.cast_zero, ite_self]
      · rfl
      · rfl

end Alone

section Runs

variable [DecidableEq ι] [Fintype ι] {s₀ s : State ι} {log : List Loss}

omit [DecidableEq ι] in
theorem rewards_none (children : ι → Child) (pid : PidT) {p : Child → Bool}
    (h : ∀ c, p (children c) = false) : rewards pid p children = 0 := by
  refine Finset.sum_eq_zero fun c _ => ?_
  rw [h c]
  rfl

/-- The invariants over every run. -/
theorem logged_run (h₀ : Initial s₀) (hp : (logged ι).Path Machine.free (s₀, []) (s, log)) :
    Shaped s.ledgerPart ∧ Ordered s ∧ Counts s₀ (s, log) ∧ Places (s, log) := by
  refine hp.preserves
    (I := fun r => Shaped r.1.ledgerPart ∧ Ordered r.1 ∧ Counts s₀ r ∧ Places r) ?_ ?_
  · rintro ⟨s, log⟩ l r' ⟨hs, ho, hcounts, hplaces⟩ - hn
    obtain ⟨s', hs', rfl⟩ := Option.map_eq_some_iff.mp hn
    exact ⟨next_ledgerPart hs hs', next_ordered ho hs', next_counts hs' hcounts,
      next_places hs ho hs' hplaces⟩
  · have hready : ∀ c, (s₀.children c).adding = .ready := h₀.rows.ready
    have hadded : ∀ c, added (s₀.children c) = false := fun c => by rw [added, hready]; rfl
    have hpending : ∀ c, pending (s₀.children c) = false := fun c => by rw [pending, hready]; rfl
    have hledger : ∀ pid, paidBy pid s₀.ledger.toList = 0 := by
      intro pid
      refine List.sum_eq_zero fun x hx => ?_
      obtain ⟨b, hb, rfl⟩ := List.mem_map.mp hx
      have hzero : s₀.ledger = Ledger.zero := h₀.ledger.1
      rw [hzero] at hb
      rw [List.eq_of_mem_replicate hb]
      exact pays_zero pid
    refine ⟨shaped_initial h₀.ledger, fun c _ => (h₀.ledger.2 c).1, fun pid => ?_, fun pid => ?_⟩
    · rw [rewards_none s₀.children pid hadded, add_zero]
      have hnone : unseen pid [] = 0 := rfl
      rw [hnone, sub_zero]
    · rw [rewards_none s₀.children pid hadded, rewards_none s₀.children pid hpending, hledger]
      rfl

/-- At every moment the balance in a node's row is the one that node_interrupt_handle would
write there, with the rewards of its blocks that are pending or were written over, without
what its children have not seen of each other's stores. Where no load is contested that is
nothing. -/
theorem live_balance (h₀ : Initial s₀) :
    (∀ s log, (logged ι).Path Machine.free (s₀, []) (s, log) → ∀ pid,
      ((balanceOf s.nodesPID pid).toNat : ℤ) ≡ (balanceOf s₀.nodesPID pid).toNat +
        (accurateBalance s.ledger pid).toInt + rewards pid pending s.children +
          paidBy pid (overwritten log) - unseen pid log [ZMOD 2 ^ 32]) ∧
    ∀ s log, (logged ι).Path (fun r l => AddsAlone r.1 l) (s₀, []) (s, log) → ∀ pid,
      unseen pid log = 0 := by
  refine ⟨fun s log hp pid => ?_, fun s log hp pid => unseen_alone h₀ hp pid⟩
  obtain ⟨-, -, hcounts, hplaces⟩ := logged_run h₀ hp
  have hledger := (accurateBalance_paidBy s.ledger pid).symm
  have hadded := hplaces pid
  change rewards pid added s.children = paidBy pid s.ledger.toList +
    rewards pid pending s.children + paidBy pid (overwritten log) at hadded
  refine (hcounts pid).trans (Int.ModEq.sub_right _ ?_)
  rw [hadded, ← add_assoc, ← add_assoc]
  exact ((hledger.add_left _).add_right _).add_right _

end Runs

/-- The load, the store and the block with nothing in between are new_block. -/
theorem steps_newBlock {c : Child} (hpc : c.adding = .ready) (hw : c.writer.pc = .building)
    (ledger : Ledger) (nodesPID : List Node) (reading : Reading) :
    ((c.step ledger nodesPID reading).bind fun r =>
      (r.2.2.step r.1 r.2.1 reading).bind fun r => r.2.2.step r.1 r.2.1 reading) =
      (c.writer.step ledger nodesPID reading).map fun r => (r.1, r.2.1, ⟨r.2.2, .done⟩) := by
  unfold Writer.step
  rw [hw]
  cases hi : getPidNodeIndex nodesPID c.writer.myPID with
  | none =>
    simp only [Child.step, hpc, Adder.step, Child.adder, newBlock, sumReward, hi, Option.bind_none,
      Option.map_none]
  | some i =>
    obtain ⟨row, hrow, -⟩ := Table.getElem_indexOf Node.pid hi
    have hstored : nodesPID.modify i (Adder.stored (row.balance + c.adder.reward)) =
        nodesPID.modify i fun row => { row with
          balance := row.balance + unsignedLongOfInt (sumOfRewards c.writer.transBuffer.toList) } :=
      Table.modify_congr hrow rfl
    have hload : c.step ledger nodesPID reading =
        some (ledger, nodesPID, c.withAdding (.loaded row.balance)) := by
      simp only [Child.step, hpc, Adder.step, Child.adder, hi, Option.bind_some, hrow,
        Option.map_some, Adder.goto]
    have hstore : (c.withAdding (.loaded row.balance)).step ledger nodesPID reading =
        some (ledger, nodesPID.modify i (Adder.stored (row.balance + c.adder.reward)),
          c.withAdding .done) := by
      simp only [Child.step, Child.withAdding, Adder.step, Child.adder, hi, Option.bind_some,
        Option.map_some, Adder.goto]
      rfl
    have hbuild : ∀ rows, (c.withAdding .done).step ledger rows reading =
        some (ledger, rows,
          ⟨c.writer.goto (.scanning (Child.fill reading c.writer) 0), .done⟩) := by
      intro rows
      simp only [Child.step, Child.withAdding, Child.write, hw, Option.map_some, Child.withWriter]
    rw [hload, Option.bind_some, hstore, Option.bind_some, hbuild, hstored]
    simp only [newBlock, sumReward, hi, Option.map_some]
    rfl

section TwoChildren

def twoStart : State (Fin 2) where
  ledger := Ledger.zero
  nodesPID := [⟨40, 0, 0, .available⟩]
  children c := ⟨⟨40, pairBatch c, .building⟩, .ready⟩

theorem twoStart_initial : Initial twoStart :=
  ⟨pairStart_initial, ⟨fun _ => rfl, fun _ => List.mem_singleton_self _⟩⟩

/-- Both load 0, and both choose slot 0. -/
def beside : List (Fin 2 × Reading) := turns [0, 1, 0, 1, 0, 1, 0, 1, 0, 1]

theorem beside_run : ∃ s log, (logged (Fin 2)).run (twoStart, []) beside = some (s, log) ∧
    balanceOf s.nodesPID 40 = 9 ∧ unseen 40 log = 9 ∧ paidBy 40 (overwritten log) = 9 :=
  ⟨_, _, rfl, rfl, rfl, rfl⟩

/-- The second child loads what the first has stored. -/
def inTurn : List (Fin 2 × Reading) := turns [0, 0, 1, 1, 0, 1, 0, 0, 1, 1]

instance (r : State (Fin 2) × List Loss) (l : Fin 2 × Reading) : Decidable (AddsAlone r.1 l) :=
  inferInstanceAs (Decidable (RewardRace.Uncontested r.1.rowPart l.1))

theorem inTurn_run : ∃ s log, (logged (Fin 2)).runWhile (fun r l => AddsAlone r.1 l)
    (twoStart, []) inTurn = some (s, log) ∧ balanceOf s.nodesPID 40 = 18 := ⟨_, _, rfl, rfl⟩

/-- Once they lose a reward and a block, and once they lose nothing. -/
theorem live_balance_two :
    (∃ s log, (logged (Fin 2)).Path Machine.free (twoStart, []) (s, log) ∧
      unseen 40 log = 9 ∧ paidBy 40 (overwritten log) = 9 ∧
      (9 : ℤ) ≡ 0 + (accurateBalance s.ledger 40).toInt + rewards 40 pending s.children + 9 - 9
        [ZMOD 2 ^ 32]) ∧
    ∃ s log, (logged (Fin 2)).Path (fun r l => AddsAlone r.1 l) (twoStart, []) (s, log) ∧
      balanceOf s.nodesPID 40 = 18 ∧ unseen 40 log = 0 := by
  constructor
  · obtain ⟨s, log, hrun, hbalance, hunseen, hlost⟩ := beside_run
    have hpath := Machine.path_of_run (C := Machine.free) beside (fun _ _ _ => trivial) hrun
    have hlive := (live_balance twoStart_initial).1 s log hpath 40
    rw [hbalance, hunseen, hlost] at hlive
    exact ⟨s, log, hpath, hunseen, hlost, hlive⟩
  · obtain ⟨s, log, hrun, hbalance⟩ := inTurn_run
    have hpath := Machine.path_of_runWhile _ hrun
    exact ⟨s, log, hpath, hbalance, (live_balance twoStart_initial).2 s log hpath 40⟩

end TwoChildren

end SimulazioneTransazioni.LiveBalances

import SimulazioneTransazioni.Blocks
import SimulazioneTransazioni.Library.Machine
import Mathlib.Data.Vector.Mem

/-!
The block-processing children: new_block, then insert_block_in_ledger with one
step for each slot test and one step for the section between sem_reserve and
sem_release. One child's step is a function of the shared memory; the machine
interleaves any number of them over one ledger. Every filled slot is non-free
for good, so the filled slots are a prefix whatever the interleaving.
-/
namespace SimulazioneTransazioni.LedgerWriters

open Blocks

abbrev Slot := Fin soRegistrySize

/-- The test `ledger[i].transList[1].sender == 0`. -/
def isFree (b : Block) : Prop := (b.transList.get 1).sender = 0

instance (b : Block) : Decidable (isFree b) := inferInstanceAs (Decidable (_ = _))

/-- What ledger[i] holds after the section that writes b there. -/
def written (b : Block) (i : Slot) : Block :=
  confirmBlock { b with blockIndex := UInt32.ofNat i }

inductive WriterPc
  | building
  | scanning (b : Block) (i : ℕ)
  | writing (b : Block) (i : Slot)
  | inserted (b : Block) (i : Slot)
  | full

structure Writer where
  myPID : PidT
  transBuffer : Batch
  pc : WriterPc

/-- What the child reads outside the shared memory: the clock, and the memory
that malloc hands it for the block. -/
structure Reading where
  clock : Timespec
  memory : Block

namespace Writer

def goto (w : Writer) (pc : WriterPc) : Writer := { w with pc := pc }

@[simp] theorem goto_myPID (w : Writer) (pc : WriterPc) : (w.goto pc).myPID = w.myPID := rfl
@[simp] theorem goto_transBuffer (w : Writer) (pc : WriterPc) :
    (w.goto pc).transBuffer = w.transBuffer := rfl
@[simp] theorem goto_pc (w : Writer) (pc : WriterPc) : (w.goto pc).pc = pc := rfl

/-- One step of a child on the ledger and nodesPID. A child whose insert has
returned, or that found the ledger full and signalled its group, is done. -/
def step (ledger : Ledger) (nodesPID : List Node) (reading : Reading) (w : Writer) :
    Option (Ledger × List Node × Writer) :=
  match w.pc with
  | .building =>
    (newBlock reading.clock nodesPID w.myPID w.transBuffer reading.memory).map
      fun (b, nodesPID') => (ledger, nodesPID', w.goto (.scanning b 0))
  | .scanning b i =>
    if h : i < soRegistrySize then
      if isFree (ledger.get ⟨i, h⟩) then
        some (ledger, nodesPID, w.goto (.writing b ⟨i, h⟩))
      else some (ledger, nodesPID, w.goto (.scanning b (i + 1)))
    else some (ledger, nodesPID, w.goto .full)
  | .writing b i => some (ledger.set i (written b i), nodesPID, w.goto (.inserted b i))
  | .inserted _ _ => none
  | .full => none

inductive Did (ledger : Ledger) (w : Writer) : Ledger → Writer → Prop
  | build (b : Block) (hpc : w.pc = .building) (hb : Built w.myPID w.transBuffer b) :
      Did ledger w ledger (w.goto (.scanning b 0))
  | claim (b : Block) (i : Slot) (hpc : w.pc = .scanning b i)
      (hfree : isFree (ledger.get i)) : Did ledger w ledger (w.goto (.writing b i))
  | skip (b : Block) (i : Slot) (hpc : w.pc = .scanning b i)
      (hused : ¬ isFree (ledger.get i)) :
      Did ledger w ledger (w.goto (.scanning b (i + 1)))
  | giveUp (b : Block) (i : ℕ) (hpc : w.pc = .scanning b i) (hi : soRegistrySize ≤ i) :
      Did ledger w ledger (w.goto .full)
  | write (b : Block) (i : Slot) (hpc : w.pc = .writing b i) :
      Did ledger w (ledger.set i (written b i)) (w.goto (.inserted b i))

namespace Did

variable {ledger ledger' : Ledger} {w w' : Writer} {b : Block} {i : Slot}

theorem ledger_cases (h : w.Did ledger ledger' w') :
    ledger' = ledger ∨ ∃ b i, w.pc = .writing b i ∧ w'.pc = .inserted b i ∧
      ledger' = ledger.set i (written b i) := by
  cases h with
  | write b i hpc => exact Or.inr ⟨b, i, hpc, rfl, rfl⟩
  | _ => exact Or.inl rfl

theorem of_writing (h : w.Did ledger ledger' w') (hpc : w'.pc = .writing b i) :
    w.pc = .scanning b i ∧ ledger' = ledger ∧ isFree (ledger.get i) := by
  cases h with
  | claim b' i' hscan hfree =>
    cases hpc
    exact ⟨hscan, rfl, hfree⟩
  | _ => cases hpc

theorem of_inserted (h : w.Did ledger ledger' w') (hpc : w'.pc = .inserted b i) :
    w.pc = .writing b i ∧ ledger' = ledger.set i (written b i) := by
  cases h with
  | write b' i' hwriting =>
    cases hpc
    exact ⟨hwriting, rfl⟩
  | _ => cases hpc

/-- An insert that has returned makes no further step. -/
theorem not_inserted (h : w.Did ledger ledger' w') (b : Block) (i : Slot) :
    w.pc ≠ .inserted b i := by
  cases h <;> simp_all

end Did

/-- A step of a child is one of the cases of Did. -/
theorem step_did {ledger ledger' : Ledger} {nodesPID nodesPID' : List Node}
    {reading : Reading} {w w' : Writer}
    (h : w.step ledger nodesPID reading = some (ledger', nodesPID', w')) :
    Did ledger w ledger' w' := by
  unfold step at h
  cases hpc : w.pc with
  | building =>
    simp only [hpc, Option.map_eq_some_iff] at h
    obtain ⟨⟨b, rows⟩, hb, heq⟩ := h
    cases heq
    exact .build b hpc (newBlock_built hb)
  | scanning b i =>
    simp only [hpc] at h
    split at h
    · next hi =>
      split at h
      · next hfree =>
        cases h
        exact .claim b ⟨i, hi⟩ hpc hfree
      · next hused =>
        cases h
        exact .skip b ⟨i, hi⟩ hpc hused
    · next hi =>
      cases h
      exact .giveUp b i hpc (by omega)
  | writing b i =>
    simp only [hpc] at h
    cases h
    exact .write b i hpc
  | inserted b i => simp [hpc] at h
  | full => simp [hpc] at h

/-- A step leaves the pids, of the table and of the child. -/
theorem step_pids {ledger ledger' : Ledger} {nodesPID nodesPID' : List Node}
    {reading : Reading} {w w' : Writer}
    (h : w.step ledger nodesPID reading = some (ledger', nodesPID', w')) :
    w'.myPID = w.myPID ∧ nodesPID'.map Node.pid = nodesPID.map Node.pid := by
  unfold step at h
  cases hpc : w.pc with
  | building =>
    simp only [hpc, Option.map_eq_some_iff] at h
    obtain ⟨⟨b, rows⟩, hb, heq⟩ := h
    cases heq
    exact ⟨rfl, newBlock_pids hb⟩
  | scanning b i =>
    simp only [hpc] at h
    split at h
    · split at h
      · cases h
        exact ⟨rfl, rfl⟩
      · cases h
        exact ⟨rfl, rfl⟩
    · cases h
      exact ⟨rfl, rfl⟩
  | writing b i =>
    simp only [hpc] at h
    cases h
    exact ⟨rfl, rfl⟩
  | inserted b i => simp [hpc] at h
  | full => simp [hpc] at h

end Writer

theorem isFree_zero : isFree Block.zero := by decide

def Sent (batch : Batch) : Prop := ∀ t ∈ batch.toList, t.sender ≠ 0

theorem not_isFree_of_built {myPID : PidT} {batch : Batch} {b : Block}
    (hsent : Sent batch) (hb : Built myPID batch b) (i : Slot) :
    ¬ isFree (written b i) := by
  obtain ⟨timestamp, hb⟩ := hb
  have hget : (written b i).transList.get 1 = confirm (batch.get ⟨0, by decide⟩) := by
    simp only [written, confirmBlock, List.Vector.get_map, hb]
    rfl
  rw [isFree, hget]
  have hne := hsent _ (List.Vector.get_mem ⟨0, by decide⟩ batch)
  exact hne

variable {ι : Type*}

structure State (ι : Type*) where
  ledger : Ledger
  nodesPID : List Node
  writers : ι → Writer

def Initial (s : State ι) : Prop :=
  s.ledger = Ledger.zero ∧ ∀ c, (s.writers c).pc = .building ∧ Sent (s.writers c).transBuffer

def next [DecidableEq ι] (s : State ι) (l : ι × Reading) : Option (State ι) :=
  ((s.writers l.1).step s.ledger s.nodesPID l.2).map fun (ledger, nodesPID, w) =>
    ⟨ledger, nodesPID, Function.update s.writers l.1 w⟩

def machine (ι : Type*) [DecidableEq ι] : Machine (State ι) (ι × Reading) where
  start := Initial
  next := next

def Moved [DecidableEq ι] (s s' : State ι) (c : ι) (w : Writer) : Prop :=
  (s.writers c).Did s.ledger s'.ledger w ∧ s'.writers = Function.update s.writers c w

theorem next_did [DecidableEq ι] {s s' : State ι} {l : ι × Reading} (h : next s l = some s') :
    ∃ w, Moved s s' l.1 w := by
  obtain ⟨⟨ledger, nodesPID, w⟩, hstep, heq⟩ := Option.map_eq_some_iff.mp h
  subst heq
  exact ⟨w, Writer.step_did hstep, rfl⟩

/-- What one child knows: its pending scan has seen only filled slots. -/
structure Writer.Knows (ledger : Ledger) (w : Writer) : Prop where
  sent : Sent w.transBuffer
  scanned : ∀ b i, w.pc = .scanning b i →
    Built w.myPID w.transBuffer b ∧ ∀ j : Slot, j.val < i → ¬ isFree (ledger.get j)
  claimed : ∀ b i, w.pc = .writing b i →
    Built w.myPID w.transBuffer b ∧ ∀ j : Slot, j < i → ¬ isFree (ledger.get j)
  stored : ∀ b i, w.pc = .inserted b i → Built w.myPID w.transBuffer b

def Grows (ledger ledger' : Ledger) : Prop :=
  ∀ j : Slot, ¬ isFree (ledger.get j) → ¬ isFree (ledger'.get j)

theorem Writer.Knows.mono {ledger ledger' : Ledger} {w : Writer} (h : w.Knows ledger)
    (hgrow : Grows ledger ledger') : w.Knows ledger' where
  sent := h.sent
  scanned b i hpc := ⟨(h.scanned b i hpc).1, fun j hj => hgrow j ((h.scanned b i hpc).2 j hj)⟩
  claimed b i hpc := ⟨(h.claimed b i hpc).1, fun j hj => hgrow j ((h.claimed b i hpc).2 j hj)⟩
  stored := h.stored

theorem Writer.Did.grows {ledger ledger' : Ledger} {w w' : Writer} (hw : w.Knows ledger)
    (h : w.Did ledger ledger' w') : Grows ledger ledger' := by
  cases h with
  | write b i hpc =>
    intro j hj
    by_cases hij : i = j
    · subst hij
      rw [List.Vector.get_set_same]
      exact not_isFree_of_built hw.sent (hw.claimed b i hpc).1 i
    · rwa [List.Vector.get_set_of_ne hij]
  | build b hpc hb => exact fun j hj => hj
  | claim b i hpc hfree => exact fun j hj => hj
  | skip b i hpc hused => exact fun j hj => hj
  | giveUp b i hpc hi => exact fun j hj => hj

theorem Writer.Did.knows {ledger ledger' : Ledger} {w w' : Writer} (hw : w.Knows ledger)
    (h : w.Did ledger ledger' w') : w'.Knows ledger' := by
  cases h with
  | build b hpc hb =>
    refine ⟨hw.sent, ?_, by simp, by simp⟩
    intro b' i hpc'
    cases hpc'
    exact ⟨hb, fun j hj => absurd hj (by omega)⟩
  | claim b i hpc hfree =>
    refine ⟨hw.sent, by simp, ?_, by simp⟩
    intro b' i' hpc'
    cases hpc'
    exact hw.scanned b i hpc
  | skip b i hpc hused =>
    refine ⟨hw.sent, ?_, by simp, by simp⟩
    intro b' i' hpc'
    cases hpc'
    obtain ⟨hb, hseen⟩ := hw.scanned b i hpc
    refine ⟨hb, fun j hj => ?_⟩
    by_cases hji : j = i
    · rwa [hji]
    · have hne : j.val ≠ i.val := fun h => hji (Fin.ext h)
      exact hseen j (by omega)
  | giveUp b i hpc hi => exact ⟨hw.sent, by simp, by simp, by simp⟩
  | write b i hpc =>
    refine ⟨hw.sent, by simp, by simp, ?_⟩
    intro b' i' hpc'
    cases hpc'
    exact (hw.claimed b i hpc).1

def FilledTo (s : State ι) (n : ℕ) : Prop :=
  n ≤ soRegistrySize ∧
  (∀ i : Slot, i.val < n → ∃ c b, Built (s.writers c).myPID (s.writers c).transBuffer b ∧
    s.ledger.get i = written b i) ∧
  ∀ i : Slot, n ≤ i.val → s.ledger.get i = Block.zero

structure Shaped (s : State ι) : Prop where
  knows : ∀ c, (s.writers c).Knows s.ledger
  filled : ∃ n, FilledTo s n

theorem shaped_initial {s : State ι} (h : Initial s) : Shaped s := by
  obtain ⟨hledger, hwriters⟩ := h
  constructor
  · intro c
    obtain ⟨hpc, hsent⟩ := hwriters c
    exact ⟨hsent, by simp [hpc], by simp [hpc], by simp [hpc]⟩
  · refine ⟨0, Nat.zero_le _, fun i hi => absurd hi (by omega), fun i _ => ?_⟩
    rw [hledger]
    exact List.Vector.get_replicate _ _

theorem Writer.Did.same_batch {ledger ledger' : Ledger} {w w' : Writer}
    (h : w.Did ledger ledger' w') : w'.myPID = w.myPID ∧ w'.transBuffer = w.transBuffer := by
  cases h <;> exact ⟨rfl, rfl⟩

def SameBatches (s s' : State ι) : Prop :=
  ∀ c, (s'.writers c).myPID = (s.writers c).myPID ∧
    (s'.writers c).transBuffer = (s.writers c).transBuffer

theorem FilledTo.congr {s s' : State ι} {n : ℕ} (hn : FilledTo s n) (hbatch : SameBatches s s')
    (hl : s'.ledger = s.ledger) : FilledTo s' n := by
  obtain ⟨hle, hfilled, hzero⟩ := hn
  rw [FilledTo, hl]
  refine ⟨hle, fun i hi => ?_, hzero⟩
  obtain ⟨c, b, hb, hget⟩ := hfilled i hi
  refine ⟨c, b, ?_, hget⟩
  rwa [(hbatch c).1, (hbatch c).2]

/-- A slot with no free slot below it is filled or the first free one. -/
theorem FilledTo.le_of_used {s : State ι} {n : ℕ} {i : Slot} (hn : FilledTo s n)
    (hused : ∀ j : Slot, j < i → ¬ isFree (s.ledger.get j)) : i.val ≤ n := by
  by_contra hgt
  have hlt : n < soRegistrySize := by omega
  have hslot := hused ⟨n, hlt⟩ (by rw [Fin.lt_def]; simpa using hgt)
  rw [hn.2.2 ⟨n, hlt⟩ (le_refl n)] at hslot
  exact hslot isFree_zero

/-- The writer either overwrites a filled slot or fills the first free one. -/
theorem FilledTo.write {s s' : State ι} {n : ℕ} {i : Slot} {c : ι} {b : Block}
    (hn : FilledTo s n) (hbatch : SameBatches s s') (hi : i.val ≤ n)
    (hl : s'.ledger = s.ledger.set i (written b i))
    (hb : Built (s.writers c).myPID (s.writers c).transBuffer b) :
    FilledTo s' (max n (i.val + 1)) := by
  obtain ⟨hle, hfilled, hzero⟩ := hn
  have hother : ∀ j : Slot, j ≠ i → s'.ledger.get j = s.ledger.get j := by
    intro j hj
    rw [hl, List.Vector.get_set_of_ne (Ne.symm hj)]
  refine ⟨by omega, fun j hj => ?_, fun j hj => ?_⟩
  · by_cases hji : j = i
    · refine ⟨c, b, ?_, by rw [hji, hl, List.Vector.get_set_same]⟩
      rwa [(hbatch c).1, (hbatch c).2]
    · have hne : j.val ≠ i.val := fun h => hji (Fin.ext h)
      obtain ⟨c', b', hb', hget⟩ := hfilled j (by omega)
      refine ⟨c', b', ?_, (hother j hji).trans hget⟩
      rwa [(hbatch c').1, (hbatch c').2]
  · have hji : j ≠ i := by
      intro h
      rw [h] at hj
      omega
    rw [hother j hji]
    exact hzero j (by omega)

theorem Writer.Did.filledTo {s s' : State ι} {w w' : Writer} {n : ℕ}
    (hw : w.Knows s.ledger) (hdid : w.Did s.ledger s'.ledger w') (hbatch : SameBatches s s')
    (hmem : ∃ c, s.writers c = w) (hn : FilledTo s n) : ∃ m, FilledTo s' m := by
  generalize hl : s'.ledger = ledger' at hdid
  cases hdid with
  | build b hpc hb => exact ⟨n, hn.congr hbatch hl⟩
  | claim b i hpc hfree => exact ⟨n, hn.congr hbatch hl⟩
  | skip b i hpc hused => exact ⟨n, hn.congr hbatch hl⟩
  | giveUp b i hpc hi => exact ⟨n, hn.congr hbatch hl⟩
  | write b i hpc =>
    obtain ⟨hb, hseen⟩ := hw.claimed b i hpc
    obtain ⟨c, rfl⟩ := hmem
    exact ⟨_, hn.write hbatch (hn.le_of_used hseen) hl hb⟩

section Runs

variable [DecidableEq ι]

theorem Moved.batch {s s' : State ι} {c : ι} {w : Writer} (h : Moved s s' c w) :
    SameBatches s s' := by
  obtain ⟨hdid, hw⟩ := h
  intro d
  rw [hw]
  by_cases hd : d = c
  · subst hd
    rw [Function.update_self]
    exact hdid.same_batch
  · rw [Function.update_of_ne hd]
    exact ⟨rfl, rfl⟩

theorem Moved.shaped {s s' : State ι} {c : ι} {w : Writer} (hs : Shaped s)
    (h : Moved s s' c w) : Shaped s' := by
  have hbatch := h.batch
  obtain ⟨hdid, hw⟩ := h
  constructor
  · intro d
    rw [hw]
    by_cases hd : d = c
    · rw [hd, Function.update_self]
      exact hdid.knows (hs.knows c)
    · rw [Function.update_of_ne hd]
      exact (hs.knows d).mono (hdid.grows (hs.knows c))
  · obtain ⟨n, hn⟩ := hs.filled
    exact hdid.filledTo (hs.knows c) hbatch ⟨c, rfl⟩ hn

theorem next_batch {s s' : State ι} {l : ι × Reading} (h : next s l = some s') :
    SameBatches s s' := by
  obtain ⟨w, hmoved⟩ := next_did h
  exact hmoved.batch

theorem next_shaped {s s' : State ι} {l : ι × Reading} (hs : Shaped s)
    (h : next s l = some s') : Shaped s' := by
  obtain ⟨w, hmoved⟩ := next_did h
  exact hmoved.shaped hs

theorem reach_shaped {C : State ι → ι × Reading → Prop} {s : State ι}
    (h : (machine ι).Reach C s) : Shaped s :=
  h.invariant (fun _ => shaped_initial) fun _ _ _ hs _ hn => next_shaped hs hn

end Runs

structure Confirmed (w : Writer) (i : Slot) (b : Block) : Prop where
  index : b.blockIndex.toNat = i.val
  status : ∀ t ∈ b.transList.toList, t.status = .confirmed
  sender : b.first.sender = self
  receiver : b.first.receiver = w.myPID
  reward : b.first.reward = 0
  amount : b.first.amount.toInt =
    (b.entries.map fun t : Transaction => t.reward.toInt).sum.bmod (2 ^ 32)
  batch : b.entries.map Transaction.asSent = w.transBuffer.toList.map Transaction.asSent

theorem entries_written (b : Block) (i : Slot) :
    (written b i).entries = b.entries.map confirm := by
  simp [written, confirmBlock, Block.entries, List.Vector.tail_map, List.Vector.toList_map]

/-- A block that is written is the confirmed block of its child, with the index of the slot.
-/
theorem written_confirmed {w : Writer} {b : Block} (hb : Built w.myPID w.transBuffer b)
    (i : Slot) : Confirmed w i (written b i) := by
  have hentries := Built.entries_eq hb
  obtain ⟨timestamp, hlist⟩ := hb
  have hfirst : (written b i).first =
      confirm (rewardTransaction timestamp w.myPID (sumOfRewards w.transBuffer.toList)) := by
    simp [written, confirmBlock, Block.first, hlist]
  refine ⟨?_, ?_, ?_, ?_, ?_, ?_, ?_⟩
  · have hi := i.isLt
    unfold soRegistrySize at hi
    simp only [written, confirmBlock, UInt32.toNat_ofNat']
    omega
  · intro t ht
    simp only [written, confirmBlock, List.Vector.toList_map, List.mem_map] at ht
    obtain ⟨t', _, rfl⟩ := ht
    rfl
  · rw [hfirst]
    rfl
  · rw [hfirst]
    rfl
  · rw [hfirst]
    rfl
  · rw [hfirst, entries_written, hentries, List.map_map]
    exact sumOfRewards_toInt _
  · rw [entries_written, hentries, List.map_map]
    rfl

/-- Whatever the interleaving, the filled slots are a prefix of confirmed
blocks and the rest of the ledger is zero. -/
theorem ledger_shape [DecidableEq ι] {s : State ι} (h : (machine ι).Reachable s) :
    ∃ n ≤ soRegistrySize,
      (∀ i : Slot, i.val < n → ¬ isFree (s.ledger.get i) ∧
        ∃ c, Confirmed (s.writers c) i (s.ledger.get i)) ∧
      ∀ i : Slot, n ≤ i.val → s.ledger.get i = Block.zero := by
  have hs := reach_shaped h
  obtain ⟨n, hle, hfilled, hzero⟩ := hs.filled
  refine ⟨n, hle, fun i hi => ?_, hzero⟩
  obtain ⟨c, b, hb, hget⟩ := hfilled i hi
  rw [hget]
  exact ⟨not_isFree_of_built (hs.knows c).sent hb i, c, written_confirmed hb i⟩

section TwoChildren

def firstSlot : Slot := ⟨0, by decide⟩

def secondSlot : Slot := ⟨1, by decide⟩

def payment : Transaction := ⟨⟨1, 0⟩, 7, 8, 5, 1, .pending⟩

def pairTransaction (c : Fin 2) : Transaction :=
  if c = 0 then payment else { payment with amount := 6 }

def pairBatch (c : Fin 2) : Batch := List.Vector.replicate 9 (pairTransaction c)

def pairStart : State (Fin 2) where
  ledger := Ledger.zero
  nodesPID := [⟨40, 0, 0, .available⟩]
  writers c := ⟨40, pairBatch c, .building⟩

def pairBlock (c : Fin 2) : Block :=
  ⟨rewardTransaction ⟨2, 0⟩ 40 9 ::ᵥ pairBatch c, 0⟩

def pairSlot (c : Fin 2) : Slot := if c = 0 then firstSlot else secondSlot

def firstChild : Fin 2 := 0

def secondChild : Fin 2 := 1

def pairLedger : Ledger :=
  (Ledger.zero.set firstSlot (written (pairBlock firstChild) firstSlot)).set secondSlot
    (written (pairBlock secondChild) secondSlot)

/-- Steps of the children in this order, at one time of the clock. -/
def turns (order : List ℕ) : List (Fin 2 × Reading) :=
  order.map fun k => (Fin.ofNat 2 k, ⟨⟨2, 0⟩, Block.zero⟩)

/-- Both build. Child 0 writes slot 0, which child 1 then passes on its way to slot 1. -/
def inTurn : List (Fin 2 × Reading) := turns [0, 1, 0, 0, 1, 1, 1]

theorem pairStart_initial : Initial pairStart := by
  refine ⟨rfl, fun c => ⟨rfl, ?_⟩⟩
  change Sent (pairBatch c)
  unfold Sent
  revert c
  decide

theorem inTurn_run : ∃ s, (machine (Fin 2)).run pairStart inTurn = some s ∧
    s.ledger = pairLedger ∧ ∀ c, (s.writers c).pc = .inserted (pairBlock c) (pairSlot c) :=
  ⟨_, rfl, rfl, Fin.forall_fin_two.mpr ⟨rfl, rfl⟩⟩

/-- Two children, the second of which passes the slot of the first. -/
theorem ledger_shape_inTurn : ∃ s, (machine (Fin 2)).run pairStart inTurn = some s ∧
    s.ledger = pairLedger ∧ ∃ n ≤ soRegistrySize,
      (∀ i : Slot, i.val < n → ¬ isFree (s.ledger.get i) ∧
        ∃ c, Confirmed (s.writers c) i (s.ledger.get i)) ∧
      ∀ i : Slot, n ≤ i.val → s.ledger.get i = Block.zero := by
  obtain ⟨s, hrun, hledger, -⟩ := inTurn_run
  exact ⟨s, hrun, hledger, ledger_shape (Machine.reachable_of_run _ pairStart_initial hrun)⟩

end TwoChildren

end SimulazioneTransazioni.LedgerWriters

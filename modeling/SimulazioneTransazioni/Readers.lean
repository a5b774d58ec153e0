import SimulazioneTransazioni.LedgerWriters
import SimulazioneTransazioni.Users
import SimulazioneTransazioni.Library.Scan

/-!
The readers of the ledger and what each of them takes for its end: print.c's
print_num_blocks and print_ledger, get_balance of users.c, and the search for a
slot in insert_block_in_ledger. Three of them scan the slots with a test of their
own; print_num_blocks looks at a slot before it tests the bound.
-/
namespace SimulazioneTransazioni.Readers

open Blocks LedgerWriters Scan MachineInt

structure Counted where
  blockIndex : Int32
  tested : List ℕ

/-- The loop of print_num_blocks at position i. The sender at i is read first,
also at the position after the last slot. -/
def numBlocksLoop : (i : ℕ) → (blockIndex : Int32) → List Block → Counted
  | i, blockIndex, [] => ⟨blockIndex, [i]⟩
  | i, blockIndex, b :: rest =>
    if b.first.sender = self then
      let r := numBlocksLoop (i + 1) (intOfUnsigned b.blockIndex) rest
      ⟨r.blockIndex, i :: r.tested⟩
    else ⟨blockIndex, [i]⟩

def printNumBlocks (l : Ledger) : Counted := numBlocksLoop 0 0 l.toList

def Counted.printed (c : Counted) : Int32 := c.blockIndex + 1

def printLedger (l : Ledger) : Scanned Block :=
  scan (fun b => b.first.timestamp.tvNsec = 0) 0 l.toList

def examined (l : Ledger) : Scanned Block := scan (fun b => Users.blockFlag b = 0) 0 l.toList

def usedSlots (l : Ledger) : Scanned Block := scan isFree 0 l.toList

/-- The slot that insert_block_in_ledger picks; none when it reports that the
ledger is full. -/
def pickedSlot (l : Ledger) : Option ℕ :=
  if (usedSlots l).passed.length < soRegistrySize then some (usedSlots l).passed.length else none

/-- The outer loop of get_balance is a scan. -/
theorem scanLedger_examined (myPID : PidT) (l : Ledger) (acc : Int64 × List Transaction) :
    Users.scanLedger myPID acc l.toList =
      (examined l).passed.foldl
        (fun acc b => b.entries.foldl (Users.scanEntry myPID) acc) acc := by
  rw [examined, scan_passed]
  generalize l.toList = blocks
  induction blocks generalizing acc with
  | nil => rfl
  | cons b rest ih =>
    unfold Users.scanLedger
    by_cases hflag : Users.blockFlag b = 0
    · rw [if_pos hflag, List.takeWhile_cons_of_neg (by simpa using hflag), List.foldl_nil]
    · rw [if_neg hflag, List.takeWhile_cons_of_pos (by simpa using hflag), List.foldl_cons, ih]

section Filled

/-- The first n slots hold blocks as insert_block_in_ledger writes them, of any
node, batch and time of the clock, and the other slots are zero. -/
structure Holds (n : ℕ) (l : Ledger) : Prop where
  le : n ≤ soRegistrySize
  filled : ∀ i : Slot, i.val < n → ∃ myPID batch b, Built myPID batch b ∧ l.get i = written b i
  clock : ∀ i : Slot, i.val < n → 0 < (l.get i).first.timestamp.tvSec.toInt ∧
    0 ≤ (l.get i).first.timestamp.tvNsec.toInt ∧
    (l.get i).first.timestamp.tvNsec.toInt < 10 ^ 9
  zero : ∀ i : Slot, n ≤ i.val → l.get i = Block.zero

def blocks (n : ℕ) (l : Ledger) : List Block := l.toList.take n

def rest (n : ℕ) (l : Ledger) : List Block := l.toList.drop n

variable {n : ℕ} {l : Ledger}

theorem toList_split (n : ℕ) (l : Ledger) : l.toList = blocks n l ++ rest n l :=
  (List.take_append_drop n l.toList).symm

theorem getElem_toList (l : Ledger) (i : Slot) :
    l.toList.get ⟨i.val, by rw [List.Vector.toList_length]; exact i.isLt⟩ = l.get i :=
  (List.Vector.get_eq_get_toList l i).symm

theorem mem_blocks (h : Holds n l) {b : Block} (hb : b ∈ blocks n l) :
    ∃ i : Slot, i.val < n ∧ l.get i = b := by
  obtain ⟨k, hk, hget⟩ := List.mem_iff_getElem.mp hb
  have hlen : k < n := by
    rw [blocks, List.length_take] at hk
    omega
  have hslot : k < soRegistrySize := by
    have hle := h.le
    omega
  refine ⟨⟨k, hslot⟩, hlen, ?_⟩
  rw [← hget, ← getElem_toList, List.get_eq_getElem]
  exact List.getElem_take.symm

/-- A block that insert_block_in_ledger wrote in slot i. -/
theorem written_reward {myPID : PidT} {batch : Batch} {b : Block} (hb : Built myPID batch b)
    (i : Slot) : (written b i).first.sender = self ∧
      (written b i).blockIndex.toNat = i.val := by
  have hconfirmed := written_confirmed (w := ⟨myPID, batch, .building⟩) hb i
  exact ⟨hconfirmed.sender, hconfirmed.index⟩

theorem Holds.reward (h : Holds n l) {i : Slot} (hi : i.val < n) :
    (l.get i).first.sender = self ∧ (l.get i).blockIndex.toNat = i.val := by
  obtain ⟨myPID, batch, b, hb, hget⟩ := h.filled i hi
  rw [hget]
  exact written_reward hb i

theorem Holds.length_blocks (h : Holds n l) : (blocks n l).length = n := by
  rw [blocks, List.length_take, List.Vector.toList_length]
  exact Nat.min_eq_left h.le

theorem Holds.eq_zero (h : Holds n l) {b : Block} (hb : b ∈ rest n l) : b = Block.zero := by
  obtain ⟨k, hk, hget⟩ := List.mem_iff_getElem.mp hb
  rw [rest, List.length_drop, List.Vector.toList_length] at hk
  have hslot : n + k < soRegistrySize := by omega
  rw [← hget, ← h.zero ⟨n + k, hslot⟩ (Nat.le_add_right n k), ← getElem_toList, List.get_eq_getElem]
  exact List.getElem_drop

theorem Holds.getLast? (h : Holds n l) (hn : 0 < n) :
    ∃ i : Slot, i.val + 1 = n ∧ (blocks n l).getLast? = some (l.get i) := by
  have hle := h.le
  have hslot : n - 1 < soRegistrySize := by omega
  refine ⟨⟨n - 1, hslot⟩, Nat.sub_add_cancel hn, ?_⟩
  rw [List.getLast?_eq_getElem?, h.length_blocks, ← getElem_toList, List.get_eq_getElem]
  have hlen : n - 1 < (blocks n l).length := by
    rw [h.length_blocks]
    omega
  rw [List.getElem?_eq_getElem hlen]
  exact congrArg some List.getElem_take

/-- The seconds of a clock reading keep the flag of get_balance from zero. -/
theorem Holds.flag_ne_zero (h : Holds n l) {b : Block} (hb : b ∈ blocks n l) :
    Users.blockFlag b ≠ 0 := by
  obtain ⟨i, hi, rfl⟩ := mem_blocks h hb
  obtain ⟨hsec, hnsec, hnsec'⟩ := h.clock i hi
  intro hzero
  have hmod := add_modEq_long (l.get i).first.timestamp.tvNsec (l.get i).first.timestamp.tvSec
  have hsec' := (l.get i).first.timestamp.tvSec.toInt_lt
  rw [show (l.get i).first.timestamp.tvNsec + (l.get i).first.timestamp.tvSec = 0 from hzero,
    Int64.toInt_zero, Int.ModEq] at hmod
  omega

theorem zero_meets : Users.blockFlag Block.zero = 0 ∧ isFree Block.zero ∧
    Block.zero.first.timestamp.tvNsec = 0 ∧ Block.zero.first.sender ≠ self :=
  ⟨by decide, isFree_zero, by decide, by decide⟩

/-- The loop passes the used slots and tests the one after them. -/
theorem numBlocksLoop_append {used unused : List Block} (hused : ∀ b ∈ used, b.first.sender = self)
    (hunused : ∀ b ∈ unused, b.first.sender ≠ self) (i : ℕ) (blockIndex : Int32) :
    numBlocksLoop i blockIndex (used ++ unused) =
      ⟨(used.getLast?.map fun b => intOfUnsigned b.blockIndex).getD blockIndex,
        List.range' i (used.length + 1)⟩ := by
  induction used generalizing i blockIndex with
  | nil =>
    cases unused with
    | nil => rfl
    | cons b rest =>
      rw [List.nil_append, numBlocksLoop, if_neg (hunused b (List.mem_cons_self ..))]
      rfl
  | cons b rest ih =>
    have hrest := ih (fun b' hb' => hused b' (List.mem_cons_of_mem _ hb')) (i + 1)
      (intOfUnsigned b.blockIndex)
    rw [List.cons_append, numBlocksLoop, if_pos (hused b (List.mem_cons_self ..)), hrest,
      List.getLast?_cons]
    cases rest.getLast? <;> rfl

theorem Holds.printNumBlocks_eq (h : Holds n l) :
    printNumBlocks l = ⟨((blocks n l).getLast?.map fun b => intOfUnsigned b.blockIndex).getD 0,
      List.range' 0 (n + 1)⟩ := by
  have hused : ∀ b ∈ blocks n l, b.first.sender = self := by
    intro b hb
    obtain ⟨i, hi, rfl⟩ := mem_blocks h hb
    exact (h.reward hi).1
  have hunused : ∀ b ∈ rest n l, b.first.sender ≠ self := by
    intro b hb
    rw [h.eq_zero hb]
    exact zero_meets.2.2.2
  rw [printNumBlocks, toList_split n l, numBlocksLoop_append hused hunused, h.length_blocks]

/-- print_num_blocks returns the index of the last block, and 0 on an empty ledger. -/
theorem Holds.blockIndex_toInt (h : Holds n l) :
    (printNumBlocks l).blockIndex.toInt = (n - 1 : ℕ) := by
  rw [h.printNumBlocks_eq]
  rcases Nat.eq_zero_or_pos n with hn | hn
  · subst hn
    rfl
  · obtain ⟨i, hi, hlast⟩ := h.getLast? hn
    obtain ⟨-, hindex⟩ := h.reward (i := i) (by omega)
    have hlt := i.isLt
    unfold soRegistrySize at hlt
    show ((((blocks n l).getLast?.map fun b => intOfUnsigned b.blockIndex).getD 0)).toInt = _
    rw [hlast, Option.map_some, Option.getD_some, toInt_intOfUnsigned _ (by omega), hindex]
    omega

theorem Holds.printed_toInt (h : Holds n l) :
    (printNumBlocks l).printed.toInt = (n - 1 : ℕ) + 1 := by
  have hle := h.le
  have hone : (1 : Int32).toInt = 1 := rfl
  unfold soRegistrySize at hle
  rw [Counted.printed, Int32.toInt_add, h.blockIndex_toInt, hone]
  exact Int.bmod_eq_of_le (by omega) (by omega)

/-- All readers take the ledger for one of n blocks, and read no other slot than
its slots. -/
structure Agree (n : ℕ) (l : Ledger) : Prop where
  balance : (examined l).passed = blocks n l
  printed : (printLedger l).passed = blocks n l
  count : (printNumBlocks l).printed.toInt = n
  returned : (printNumBlocks l).blockIndex.toInt = soRegistrySize - 1 ↔ n = soRegistrySize
  picked : pickedSlot l = if n < soRegistrySize then some n else none
  inBounds : ∀ i ∈ (examined l).tested ++ (printLedger l).tested ++ (printNumBlocks l).tested ++
    (usedSlots l).tested, i < soRegistrySize

theorem Holds.examined_eq (h : Holds n l) : (examined l).passed = blocks n l := by
  rw [examined, toList_split n l]
  refine (scan_passed_eq_iff fun b hb => ?_).mpr fun b hb => h.flag_ne_zero hb
  rw [h.eq_zero hb]
  exact zero_meets.1

theorem Holds.printLedger_iff (h : Holds n l) :
    (printLedger l).passed = blocks n l ↔
      ∀ b ∈ blocks n l, b.first.timestamp.tvNsec ≠ 0 := by
  rw [printLedger, toList_split n l]
  refine scan_passed_eq_iff fun b hb => ?_
  rw [h.eq_zero hb]
  exact zero_meets.2.2.1

/-- insert_block_in_ledger picks the first zeroed slot if and only if no block looks free to
it. -/
theorem Holds.pickedSlot_iff (h : Holds n l) :
    (pickedSlot l = if n < soRegistrySize then some n else none) ↔
      ∀ b ∈ blocks n l, ¬ isFree b := by
  have hiff : (usedSlots l).passed.length = n ↔ ∀ b ∈ blocks n l, ¬ isFree b := by
    rw [usedSlots, toList_split n l]
    have hfree : ∀ b ∈ rest n l, isFree b := by
      intro b hb
      rw [h.eq_zero hb]
      exact isFree_zero
    have hscan : (Scan.scan isFree 0 (blocks n l ++ rest n l)).passed.length =
        (blocks n l).length ↔ ∀ b ∈ blocks n l, ¬ isFree b := length_passed_eq_iff hfree
    rwa [h.length_blocks] at hscan
  have hpassed : (usedSlots l).passed.length ≤ soRegistrySize := by
    rw [usedSlots, scan_passed]
    exact (List.takeWhile_prefix _).length_le.trans (by rw [List.Vector.toList_length])
  rw [← hiff]
  unfold pickedSlot
  have hle := h.le
  constructor
  · intro hpick
    by_cases hlt : (usedSlots l).passed.length < soRegistrySize
    · by_cases hn : n < soRegistrySize
      · rw [if_pos hlt, if_pos hn, Option.some.injEq] at hpick
        exact hpick
      · rw [if_pos hlt, if_neg hn] at hpick
        contradiction
    · by_cases hn : n < soRegistrySize
      · rw [if_neg hlt, if_pos hn] at hpick
        contradiction
      · omega
  · intro hlen
    rw [hlen]

def timedBlock : Block :=
  ⟨rewardTransaction ⟨2, 5⟩ 40 9 ::ᵥ List.Vector.replicate 9 payment, 0⟩

def oneBlock : Ledger := Ledger.zero.set firstSlot (written timedBlock firstSlot)

theorem get_zero (i : Slot) : Ledger.zero.get i = Block.zero := List.Vector.get_replicate _ _

theorem oneBlock_holds : Holds 1 oneBlock := by
  have hfirst : ∀ i : Slot, i.val < 1 → oneBlock.get i = written timedBlock firstSlot := by
    intro i hi
    have hi' : i = firstSlot := Fin.ext (by simpa [firstSlot] using hi)
    rw [hi', oneBlock, List.Vector.get_set_same]
  refine ⟨by decide, fun i hi => ?_, fun i hi => ?_, fun i hi => ?_⟩
  · have hi' : i = firstSlot := Fin.ext (by simpa [firstSlot] using hi)
    exact ⟨40, List.Vector.replicate 9 payment, timedBlock, ⟨⟨2, 5⟩, rfl⟩,
      hi' ▸ hfirst i hi⟩
  · rw [hfirst i hi]
    decide
  · have hne : firstSlot ≠ i := by
      rintro rfl
      exact absurd hi (by decide)
    rw [oneBlock, List.Vector.get_set_of_ne hne]
    exact get_zero i

/-- The readers agree exactly on the ledgers that are neither empty nor full,
whose blocks all have a sender in their first entry and a time with nanoseconds. -/
theorem readers_agree_iff (h : Holds n l) :
    Agree n l ↔ (0 < n ∧ n < soRegistrySize) ∧
      ∀ b ∈ blocks n l, b.first.timestamp.tvNsec ≠ 0 ∧ (b.transList.get 1).sender ≠ 0 := by
  have hle := h.le
  constructor
  · intro hagree
    have hcount := hagree.count
    rw [h.printed_toInt] at hcount
    have hlast : n ∈ (printNumBlocks l).tested := by
      rw [h.printNumBlocks_eq, List.mem_range'_1]
      omega
    have hbound := hagree.inBounds n (List.mem_append_left _ (List.mem_append_right _ hlast))
    refine ⟨⟨by omega, hbound⟩, fun b hb => ⟨?_, ?_⟩⟩
    · exact h.printLedger_iff.mp hagree.printed b hb
    · exact h.pickedSlot_iff.mp hagree.picked b hb
  · rintro ⟨⟨hpos, hlt⟩, hblocks⟩
    refine ⟨h.examined_eq, h.printLedger_iff.mpr fun b hb => (hblocks b hb).1, ?_, ?_,
      h.pickedSlot_iff.mpr fun b hb => (hblocks b hb).2, ?_⟩
    · rw [h.printed_toInt]
      omega
    · rw [h.blockIndex_toInt]
      omega
    · intro i hi
      have hscan : ∀ (stop : Block → Prop) [DecidablePred stop],
          i ∈ (scan stop 0 l.toList).tested → i < soRegistrySize := by
        intro stop _ htested
        have hbound := tested_lt htested
        rwa [List.Vector.toList_length, Nat.zero_add] at hbound
      simp only [List.mem_append] at hi
      rcases hi with ((hi | hi) | hi) | hi
      · exact hscan _ hi
      · exact hscan _ hi
      · rw [h.printNumBlocks_eq, List.mem_range'_1] at hi
        omega
      · exact hscan _ hi

/-- A ledger of one block. -/
theorem readers_agree_oneBlock : Agree 1 oneBlock := by
  refine (readers_agree_iff oneBlock_holds).mpr ⟨by decide, fun b hb => ?_⟩
  obtain ⟨i, hi, rfl⟩ := mem_blocks oneBlock_holds hb
  have hi' : i = firstSlot := Fin.ext (by simpa [firstSlot] using hi)
  rw [hi', oneBlock, List.Vector.get_set_same]
  decide

theorem zero_holds : Holds 0 Ledger.zero :=
  ⟨Nat.zero_le _, fun _ hi => absurd hi (Nat.not_lt_zero _),
    fun _ hi => absurd hi (Nat.not_lt_zero _), fun i _ => get_zero i⟩

/-- On the empty ledger print_num_blocks reports one block. -/
theorem empty_ledger_miscounted :
    (printNumBlocks Ledger.zero).printed = 1 ∧ ¬ ∀ n l, Holds n l → Agree n l := by
  refine ⟨rfl, fun hall => ?_⟩
  have hcount := (hall 0 Ledger.zero zero_holds).count
  rw [zero_holds.printed_toInt] at hcount
  exact absurd hcount (by decide)

end Filled

section Insert

variable {s : State Unit} {b : Block} {i : ℕ}

/-- The search walks over the used slots one by one. -/
theorem scanning_reaches (hpc : (s.writers ()).pc = .scanning b 0) (reading : Reading)
    (hi : i ≤ (usedSlots s.ledger).passed.length) :
    (machine Unit).Path Machine.free s
      { s with writers := fun _ => (s.writers ()).goto (.scanning b i) } := by
  induction i with
  | zero =>
    have hsame : (fun _ => (s.writers ()).goto (.scanning b 0)) = s.writers := by
      funext _
      rw [Writer.goto, ← hpc]
    rw [hsame]
    exact Machine.Path.refl s
  | succ i ih =>
    have hpassed : (usedSlots s.ledger).passed.length ≤ soRegistrySize := by
      rw [usedSlots, scan_passed]
      exact (List.takeWhile_prefix _).length_le.trans (by rw [List.Vector.toList_length])
    have hslot : i < soRegistrySize := by omega
    have hused : ¬ isFree (s.ledger.get ⟨i, hslot⟩) := by
      rw [← getElem_toList, List.get_eq_getElem]
      exact not_stop_of_passed _ hi
    refine (ih (by omega)).tail (l := ((), reading)) trivial ?_
    simp only [machine, next, Writer.step, Writer.goto_pc, dif_pos hslot, if_neg hused]
    rfl

/-- A child that scans alone writes to the slot picked, or finds the ledger full. -/
theorem scanning_picks (hpc : (s.writers ()).pc = .scanning b 0) (reading : Reading) :
    ∃ s', (machine Unit).Path Machine.free s s' ∧ s'.ledger = s.ledger ∧
      (∀ i : Slot, pickedSlot s.ledger = some i.val → (s'.writers ()).pc = .writing b i) ∧
      (pickedSlot s.ledger = none → (s'.writers ()).pc = .full) := by
  have hpath := scanning_reaches hpc reading (le_refl (usedSlots s.ledger).passed.length)
  unfold pickedSlot
  by_cases hlt : (usedSlots s.ledger).passed.length < soRegistrySize
  · have hfree : isFree (s.ledger.get ⟨_, hlt⟩) := by
      rw [← getElem_toList, List.get_eq_getElem]
      exact stop_of_length rfl _
    refine ⟨{ s with writers := fun _ => (s.writers ()).goto (.writing b ⟨_, hlt⟩) },
      hpath.tail (l := ((), reading)) trivial ?_, rfl, ?_, ?_⟩
    · simp only [machine, next, Writer.step, Writer.goto_pc, dif_pos hlt, if_pos hfree]
      rfl
    · intro i hi
      rw [if_pos hlt, Option.some.injEq] at hi
      exact congrArg (WriterPc.writing b) (Fin.ext hi)
    · intro hnone
      rw [if_pos hlt] at hnone
      contradiction
  · refine ⟨{ s with writers := fun _ => (s.writers ()).goto .full },
      hpath.tail (l := ((), reading)) trivial ?_, rfl, ?_, fun _ => rfl⟩
    · simp only [machine, next, Writer.step, Writer.goto_pc, dif_neg hlt]
      rfl
    · intro i hi
      rw [if_neg hlt] at hi
      contradiction

end Insert

end SimulazioneTransazioni.Readers

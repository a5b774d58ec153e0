import SimulazioneTransazioni.Common
import SimulazioneTransazioni.Library.MachineInt
import SimulazioneTransazioni.Library.Table

/-!
How a node's child builds a block: sum_reward, new_block and confirm_block of
nodes.c. The child works on the batch of SO_BLOCK_SIZE - 1 transactions that
its parent took from the pool, and the first entry pays their rewards to the
node. An index of -1 into nodesPID is undefined behaviour and yields none.
-/
namespace SimulazioneTransazioni.Blocks

open MachineInt

abbrev Batch := List.Vector Transaction (soBlockSize - 1)

def getPidNodeIndex (nodesPID : List Node) (myPID : PidT) : Option ℕ :=
  Table.indexOf Node.pid nodesPID myPID

def sumOfRewards (sumBlock : List Transaction) : Int32 :=
  sumBlock.foldl (fun sum t => sum + t.reward) 0

/-- Sums the rewards of the batch and adds them to the node's row. -/
def sumReward (nodesPID : List Node) (myPID : PidT) (sumBlock : Batch) :
    Option (Int32 × List Node) :=
  let sum := sumOfRewards sumBlock.toList
  (getPidNodeIndex nodesPID myPID).map fun i =>
    (sum, nodesPID.modify i fun row =>
      { row with balance := row.balance + unsignedLongOfInt sum })

def rewardTransaction (timestamp : Timespec) (myPID : PidT) (amount : Int32) : Transaction where
  timestamp := timestamp
  sender := self
  receiver := myPID
  amount := amount
  reward := 0
  status := .pending

/-- Fills the block at newBlock, whose memory is fresh from malloc. -/
def newBlock (timestamp : Timespec) (nodesPID : List Node) (myPID : PidT)
    (blockTransaction : Batch) (memory : Block) : Option (Block × List Node) :=
  (sumReward nodesPID myPID blockTransaction).map fun (amount, nodesPID) =>
    ({ memory with
      transList := rewardTransaction timestamp myPID amount ::ᵥ blockTransaction }, nodesPID)

def confirm (t : Transaction) : Transaction := { t with status := .confirmed }

def confirmBlock (toConfirm : Block) : Block :=
  { toConfirm with transList := toConfirm.transList.map confirm }

/-- The sum over the loop, as a 32-bit int. -/
theorem sumOfRewards_toInt (l : List Transaction) :
    (sumOfRewards l).toInt =
      (l.map fun t : Transaction => t.reward.toInt).sum.bmod (2 ^ 32) := by
  have h := foldl_modEq (n := 2 ^ 32) Int32.toInt
    (fun (sum : Int32) (t : Transaction) => sum + t.reward)
    (fun t => t.reward.toInt) (fun sum t => add_modEq_int sum t.reward) l 0
  rw [Int32.toInt_zero, zero_add] at h
  exact toInt_eq_bmod h

def Built (myPID : PidT) (batch : Batch) (b : Block) : Prop :=
  ∃ timestamp, b.transList =
    rewardTransaction timestamp myPID (sumOfRewards batch.toList) ::ᵥ batch

theorem newBlock_built {timestamp : Timespec} {nodesPID nodesPID' : List Node}
    {myPID : PidT} {batch : Batch} {memory b : Block}
    (h : newBlock timestamp nodesPID myPID batch memory = some (b, nodesPID')) :
    Built myPID batch b := by
  unfold newBlock sumReward at h
  cases hi : getPidNodeIndex nodesPID myPID with
  | none => simp [hi] at h
  | some i =>
    simp only [hi, Option.map_some, Option.some.injEq, Prod.mk.injEq] at h
    exact ⟨timestamp, by rw [← h.1]⟩

/-- The reward leaves the pids of the table. -/
theorem newBlock_pids {timestamp : Timespec} {nodesPID nodesPID' : List Node}
    {myPID : PidT} {batch : Batch} {memory b : Block}
    (h : newBlock timestamp nodesPID myPID batch memory = some (b, nodesPID')) :
    nodesPID'.map Node.pid = nodesPID.map Node.pid := by
  unfold newBlock sumReward at h
  obtain ⟨⟨sum, rows⟩, hsum, heq⟩ := Option.map_eq_some_iff.mp h
  obtain ⟨i, -, hrows⟩ := Option.map_eq_some_iff.mp hsum
  cases heq
  rw [Prod.mk.injEq] at hrows
  rw [← hrows.2]
  apply Table.map_key_modify
  exact fun _ => rfl

theorem Built.entries_eq {myPID : PidT} {batch : Batch} {b : Block}
    (hb : Built myPID batch b) : b.entries = batch.toList := by
  obtain ⟨timestamp, hb⟩ := hb
  rw [Block.entries, hb, List.Vector.tail_cons]

end SimulazioneTransazioni.Blocks

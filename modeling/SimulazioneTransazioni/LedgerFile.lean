import SimulazioneTransazioni.Readers
import SimulazioneTransazioni.Timestamps

/-!
The text of ledger.txt. Every field of a transaction and the index of a block stand in
it, padded to a width that a longer number exceeds, so that a reader has to find where
each number ends. From the file alone the printed blocks can be told from all others.
-/
namespace SimulazioneTransazioni.LedgerFile

open Texts Timestamps Readers LedgerWriters

def conversion (width : ℕ) (value : ℤ) : List Char := List.leftpad width ' ' (decimal value)

def statusText : TransactionStatus → List Char
  | .pending => "pending   ".toList
  | .aborted => "aborted   ".toList
  | .confirmed => "confirmed ".toList
  | .processing => "processing".toList

def rule : List Char :=
  " ---------------------------------------------------------------\n".toList

def transactionText (t : Transaction) (ts : List Char) : List Char :=
  rule ++
    "|  ".toList ++ ts ++
    "                                |\n".toList ++
    "|  ".toList ++ statusText t.status ++
    "                                                   |\n".toList ++
    "|  ".toList ++ conversion 7 t.sender.toInt ++
    " --> ".toList ++ conversion 7 t.receiver.toInt ++
    "                                          |\n".toList ++
    "|  Amount:    ".toList ++ conversion 10 t.amount.toUInt32.toNat ++
    "                                        |\n".toList ++
    "|  Reward:    ".toList ++ conversion 10 t.reward.toUInt32.toNat ++
    "                                        |\n".toList ++
    rule

def printTransaction (t : Transaction) : Option (List Char) :=
  (formattedTimestamp t.timestamp).map (transactionText t)

def blockText (b : Block) (transactions : List Char) : List Char :=
  "[BLOCK ".toList ++ conversion 5 b.blockIndex.toInt32.toInt ++
    "] ===================================================\n".toList ++
    transactions ++
    "=================================================================\n".toList

def printBlock (b : Block) : Option (List Char) :=
  (printAll printTransaction b.transList.toList).map (blockText b)

def banner : List Char :=
  ("\n" ++
    ":::        :::::::::: :::::::::   ::::::::  :::::::::: :::::::::\n" ++
    ":+:        :+:        :+:    :+: :+:    :+: :+:        :+:    :+:\n" ++
    "+:+        +:+        +:+    +:+ +:+        +:+        +:+    +:+\n" ++
    "+#+        +#++:++#   +#+    +:+ :#:        +#++:++#   +#++:++#:\n" ++
    "+#+        +#+        +#+    +#+ +#+   +#+# +#+        +#+    +#+\n" ++
    "#+#        #+#        #+#    #+# #+#    #+# #+#        #+#    #+#\n" ++
    "########## ########## #########   ########  ########## ###    ###\n").toList

/-- The blocks up to the first one whose first transaction has no nanoseconds. -/
def printed (l : Ledger) : List Block := (Readers.printLedger l).passed

/-- What print_ledger writes to a file that fopen has opened. -/
def printLedger (l : Ledger) : Option (List Char) :=
  (printAll printBlock (printed l)).map (banner ++ ·)

theorem readBefore_conversion (width : ℕ) :
    ReadBefore Stops fun value => some (conversion width value) := readBefore_blanks width

theorem readBefore_statusText :
    ReadBefore (fun _ => True) fun status => some (statusText status) := by
  intro status status' s t x y hs ht hx hy heq
  cases hs
  cases ht
  have hlength : ∀ status, (statusText status).length = 10 := by
    intro status
    cases status <;> decide
  obtain ⟨htext, hrest⟩ := List.append_inj heq (by rw [hlength, hlength])
  refine ⟨?_, hrest⟩
  revert htext
  cases status <;> cases status' <;> decide

/-- The text of a transaction determines the transaction. -/
theorem readBefore_printTransaction : ReadBefore (fun _ => True) printTransaction := by
  rintro ⟨time, sender, receiver, amount, reward, status⟩
    ⟨time', sender', receiver', amount', reward', status'⟩ s t x y hs ht - - heq
  obtain ⟨ts, hts, rfl⟩ := Option.map_eq_some_iff.mp hs
  obtain ⟨ts', hts', rfl⟩ := Option.map_eq_some_iff.mp ht
  unfold transactionText at heq
  simp only [List.append_assoc] at heq
  have hrest := List.append_cancel_left (List.append_cancel_left heq)
  obtain ⟨htime, hrest⟩ := readBefore_formattedTimestamp.before hts hts' hrest
    (stops_append (by decide))
  obtain ⟨hstatus, hrest⟩ := readBefore_statusText.before rfl rfl (List.append_cancel_left hrest)
    fun _ => trivial
  obtain ⟨hsender, hrest⟩ := (readBefore_conversion 7).before rfl rfl
    (List.append_cancel_left hrest) (stops_append (by decide))
  obtain ⟨hreceiver, hrest⟩ := (readBefore_conversion 7).before rfl rfl hrest (stops_append (by decide))
  obtain ⟨hamount, hrest⟩ := (readBefore_conversion 10).before rfl rfl
    (List.append_cancel_left hrest) (stops_append (by decide))
  obtain ⟨hreward, hrest⟩ := (readBefore_conversion 10).before rfl rfl
    (List.append_cancel_left hrest) (stops_append (by decide))
  have hunsigned : ∀ a b : Int32, (a.toUInt32.toNat : ℤ) = b.toUInt32.toNat → a = b := by
    intro a b hab
    rw [← a.toInt32_toUInt32, UInt32.toNat_inj.mp (Int.ofNat.inj hab), Int32.toInt32_toUInt32]
  refine ⟨?_, List.append_cancel_left hrest⟩
  rw [Transaction.mk.injEq]
  exact ⟨htime, Int32.toInt_inj.mp hsender, Int32.toInt_inj.mp hreceiver, hunsigned _ _ hamount,
    hunsigned _ _ hreward, hstatus⟩

theorem readBefore_printBlock : ReadBefore (fun _ => True) printBlock := by
  rintro ⟨transList, blockIndex⟩ ⟨transList', blockIndex'⟩ s t x y hs ht - - heq
  obtain ⟨transactions, hlist, rfl⟩ := Option.map_eq_some_iff.mp hs
  obtain ⟨transactions', hlist', rfl⟩ := Option.map_eq_some_iff.mp ht
  unfold blockText at heq
  simp only [List.append_assoc] at heq
  obtain ⟨hindex, hrest⟩ := (readBefore_conversion 5).before rfl rfl
    (List.append_cancel_left heq) (stops_append (by decide))
  obtain ⟨htransList, hrest⟩ := readBefore_printTransaction.printAll
    (by rw [List.Vector.toList_length, List.Vector.toList_length]) hlist hlist' hrest
  refine ⟨?_, List.append_cancel_left hrest⟩
  rw [Block.mk.injEq]
  refine ⟨List.Vector.toList_injective htransList, ?_⟩
  rw [← blockIndex.toUInt32_toInt32, Int32.toInt_inj.mp hindex, UInt32.toUInt32_toInt32]

theorem printBlock_ne_nil (b : Block) : printBlock b ≠ some [] := by
  intro hb
  obtain ⟨transactions, -, hnil⟩ := Option.map_eq_some_iff.mp hb
  unfold blockText at hnil
  exact absurd (List.append_eq_nil_iff.mp hnil).2 (by decide)

/-- The files of two ledgers are the same only if the same blocks were printed. -/
theorem printed_eq {l l' : Ledger} {text : List Char} (h : printLedger l = some text)
    (h' : printLedger l' = some text) : printed l = printed l' := by
  obtain ⟨blocks, hblocks, rfl⟩ := Option.map_eq_some_iff.mp h
  obtain ⟨blocks', hblocks', htext⟩ := Option.map_eq_some_iff.mp h'
  have hsame : blocks' = blocks := List.append_cancel_left htext
  rw [hsame] at hblocks'
  exact readBefore_printBlock.printAll_inj printBlock_ne_nil hblocks hblocks'

def Clocked (l : Ledger) : Prop :=
  ∀ b ∈ printed l, ∀ t ∈ b.transList.toList,
    0 ≤ t.timestamp.tvNsec.toInt ∧ t.timestamp.tvNsec.toInt < 10 ^ 9

theorem printLedger_isSome {l : Ledger} (hclock : Clocked l) :
    (printLedger l).isSome ↔ ∀ b ∈ printed l, ∀ t ∈ b.transList.toList,
      -93692592000 ≤ t.timestamp.tvSec.toInt ∧ t.timestamp.tvSec.toInt < 253402300800 := by
  rw [printLedger, Option.isSome_map, printAll_isSome]
  refine forall₂_congr fun b hb => ?_
  rw [printBlock, Option.isSome_map, printAll_isSome]
  refine forall₂_congr fun t ht => ?_
  rw [printTransaction, Option.isSome_map]
  exact formattedTimestamp_isSome (hclock b hb t ht)

/-- The file is written if all times are those of years that the buffers have room for, and
then it is that of the ledgers from which the same blocks are printed and of no others. -/
theorem ledger_file {l : Ledger} (hclock : Clocked l) :
    ((printLedger l).isSome ↔ ∀ b ∈ printed l, ∀ t ∈ b.transList.toList,
      -93692592000 ≤ t.timestamp.tvSec.toInt ∧ t.timestamp.tvSec.toInt < 253402300800) ∧
    ∀ text, printLedger l = some text →
      ∀ l', printLedger l' = some text ↔ printed l' = printed l := by
  refine ⟨printLedger_isSome hclock, fun text htext l' => ⟨fun h => ?_, fun h => ?_⟩⟩
  · exact printed_eq h htext
  · rw [printLedger, h]
    exact htext

section Example

theorem printed_oneBlock : printed oneBlock = [written timedBlock firstSlot] := rfl

/-- The ledger with one block, at a time that can be printed. -/
theorem ledger_file_oneBlock : ∃ text, printLedger oneBlock = some text ∧
    ∀ l', printLedger l' = some text ↔ printed l' = [written timedBlock firstSlot] := by
  have hclock : Clocked oneBlock := by
    unfold Clocked
    rw [printed_oneBlock]
    decide
  obtain ⟨hsome, hsame⟩ := ledger_file hclock
  rw [printed_oneBlock] at hsome hsame
  obtain ⟨text, htext⟩ := Option.isSome_iff_exists.mp (hsome.mpr (by decide))
  exact ⟨text, htext, hsame text htext⟩

end Example

end SimulazioneTransazioni.LedgerFile

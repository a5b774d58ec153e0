import SimulazioneTransazioni.Monitor
import SimulazioneTransazioni.Readers
import SimulazioneTransazioni.RunAccounting

/-!
The report that the master prints when everyone has finished. The users stand
in it from the last row to the first one, and the nodes up to the first row that
has no pid, so that a row which a failed fork has left empty hides those after
it. The reason is that of the monitor, unless the ledger is full.
-/
namespace SimulazioneTransazioni.FinalReport

open Monitor Readers Network NetworkLedger FinalAccounting RunAccounting Balance Users
open LedgerWriters Blocks Scan
open SignificantProcesses (visitedUsers visitedNodes)

/-- The rows of print_user_nodes_table, in the order in which they are printed. -/
def printUserNodesTable (usersPID : List User) (nodesPID : List Node) (par : Parameters) :
    List User × List Node :=
  ((visitedUsers par usersPID).reverse,
    (scan (fun row : Node => row.pid = 0) 0 (visitedNodes par nodesPID)).passed)

def printNumAborted (usersPID : List User) (par : Parameters) : UInt32 :=
  (visitedUsers par usersPID).foldl
    (fun counter row => if row.status = .dead then counter + 1 else counter) 0

def printKillSignal : Term → String
  | .timeElapsed => "KILL signal: time elapsed or interrupted by user\n"
  | .usersDead => "KILL signal: all or all-1 users dead\n"
  | .ledgerFull => "KILL signal: ledger full\n"

structure Report where
  users : List User
  nodes : List Node
  aborted : UInt32
  blocks : Int32
  killSignal : String
  ledgerFile : List Block

/-- The handler of the master, when wait has no more children to report. -/
def masterInterruptHandle (par : Parameters) (termReason : Term) (usersPID : List User)
    (nodesPID : List Node) (ledger : Ledger) : Report :=
  let table := printUserNodesTable usersPID nodesPID par
  let counted := printNumBlocks ledger
  let termReason :=
    if counted.blockIndex = Int32.ofNat (soRegistrySize - 1) then .ledgerFull else termReason
  { users := table.1
    nodes := table.2
    aborted := printNumAborted usersPID par
    blocks := counted.printed
    killSignal := printKillSignal termReason
    ledgerFile := (printLedger ledger).passed }

section Rows

variable {par : Parameters} {usersPID : List User} {nodesPID : List Node}

/-- All nodes are printed if no row without a pid comes before one with a pid. -/
theorem nodes_printed_iff :
    ((printUserNodesTable usersPID nodesPID par).2 =
      (visitedNodes par nodesPID).filter fun row => row.pid ≠ 0) ↔
      (visitedNodes par nodesPID).Pairwise fun row row' => row'.pid ≠ 0 → row.pid ≠ 0 :=
  passed_eq_filter_iff 0 (visitedNodes par nodesPID)

theorem printNumAborted_toNat (usersPID : List User) (par : Parameters) :
    (printNumAborted usersPID par).toNat =
      (visitedUsers par usersPID).countP fun row => row.status = .dead := by
  have hcount : ∀ (rows : List User) (c : Counters),
      (rows.foldl countUser c).deadUsers = rows.foldl
        (fun counter row => if row.status = .dead then counter + 1 else counter) c.deadUsers := by
    intro rows
    induction rows with
    | nil => exact fun c => rfl
    | cons row rest ih => exact fun c => ih (countUser c row)
  have hlength : (visitedUsers par usersPID).length < 2 ^ 32 := by
    rw [visitedUsers, List.length_take]
    exact (Nat.min_le_left _ _).trans_lt par.soUserNum.toNat_lt
  obtain ⟨-, hdead⟩ := foldl_countUser (visitedUsers par usersPID) ⟨0, 0⟩
    ((Nat.zero_add _).trans_lt hlength) ((Nat.zero_add _).trans_lt hlength)
  rw [hcount] at hdead
  exact hdead.trans (Nat.zero_add _)

end Rows

section Runs

variable {par : Parameters} {s : World} {c : Chain} {users : List UserProc}
  {handlers : List PidT} {order : List Party}

/-- The ledger of a run holds the blocks of its chain as the readers find them. -/
theorem holds_of_reach (hs : (Network.machine par).Reach Received s)
    (hledger : s.ledger = c.toLedger)
    (hclock : ∀ b ∈ c.blocks, b.first.timestamp.tvNsec.toInt < 10 ^ 9) :
    Holds c.blocks.length s.ledger := by
  have hslot : ∀ i : Slot, ∀ hi : i.val < c.blocks.length, s.ledger.get i = c.blocks[i.val] := by
    intro i hi
    have hat : s.ledger.toList[i.val]? = some c.blocks[i.val] := by
      rw [hledger]
      show (c.blocks ++ _)[i.val]? = _
      rw [List.getElem?_append_left hi, List.getElem?_eq_getElem hi]
    obtain ⟨hin, hget⟩ := List.getElem?_eq_some_iff.mp hat
    rw [List.Vector.get_eq_get_toList]
    exact hget
  have hempty : ∀ i : Slot, c.blocks.length ≤ i.val → s.ledger.get i = Block.zero := by
    intro i hi
    have hlt := i.isLt
    have hat : s.ledger.toList[i.val]? = some Block.zero := by
      rw [hledger]
      show (c.blocks ++ List.replicate _ _)[i.val]? = _
      rw [List.getElem?_append_right hi, List.getElem?_replicate, if_pos (by omega)]
    obtain ⟨hin, hget⟩ := List.getElem?_eq_some_iff.mp hat
    rw [List.Vector.get_eq_get_toList]
    exact hget
  obtain ⟨n, -, hfilled, hzero⟩ := ((reach_sources hs).shaped _ rfl).filled
  refine ⟨c.bound, fun i hi => ?_, fun i hi => ?_, hempty⟩
  · have hn : i.val < n := by
      by_contra hge
      have hget : s.ledger.get i = Block.zero := hzero i (Nat.not_lt.mp hge)
      have hstamped := c.stamped _ (List.getElem_mem hi)
      rw [← hslot i hi, hget] at hstamped
      exact absurd hstamped (by decide)
    obtain ⟨w, b, hb, hget⟩ := hfilled i hn
    exact ⟨_, _, b, hb, hget⟩
  · rw [hslot i hi]
    obtain ⟨hsec, hnsec⟩ := c.stamped _ (List.getElem_mem hi)
    exact ⟨hsec, hnsec, hclock _ (List.getElem_mem hi)⟩

structure Reports (par : Parameters) (s : World) (users : List UserProc) (c : Chain)
    (termReason : Term) (t : Tables) (r : Report) : Prop where
  users : r.users.map User.pid = (users.map UserProc.myPID).reverse
  nodes : r.nodes.map Node.pid = nodePids s
  total : (r.users.map fun row => (row.balance.toNat : ℤ)).sum +
    (r.nodes.map fun row => (row.balance.toNat : ℤ)).sum =
      par.soUserNum.toNat * par.soBudgetInit.toNat
  aborted : r.aborted.toNat = t.usersPID.countP fun row => row.status = .dead
  blocks : c.blocks ≠ [] → r.blocks.toInt = c.blocks.length
  killSignal : r.killSignal =
    printKillSignal (if c.blocks.length = soRegistrySize then .ledgerFull else termReason)
  ledgerFile : (∀ b ∈ c.blocks, b.first.timestamp.tvNsec ≠ 0) → r.ledgerFile = c.blocks

theorem blocks_eq (hledger : s.ledger = c.toLedger) :
    Readers.blocks c.blocks.length s.ledger = c.blocks := by
  rw [hledger]
  show (c.blocks ++ _).take c.blocks.length = c.blocks
  exact List.take_left

theorem visitedUsers_eq {t : Tables} (hprocesses : Processes par users (nodePids s) (tables s))
    (hkeys : t.usersPID.map User.pid = (tables s).usersPID.map User.pid) :
    visitedUsers par t.usersPID = t.usersPID := by
  have hlength : t.usersPID.length = par.soUserNum.toNat := by
    have hsame := congrArg List.length hkeys
    rw [List.length_map, List.length_map] at hsame
    rw [hsame, hprocesses.userNum]
  rw [visitedUsers, ← hlength, List.take_length]

/-- The rows of the nodes come first. -/
theorem nodes_split {t : Tables} (hprocesses : Processes par users (nodePids s) (tables s))
    (hkeys : t.nodesPID.map Node.pid = (tables s).nodesPID.map Node.pid) :
    ∃ used unused, t.nodesPID = used ++ unused ∧ used.map Node.pid = nodePids s ∧
      (∀ row ∈ used, row.pid ≠ 0) ∧ ∀ row ∈ unused, row.pid = 0 := by
  obtain ⟨n, hrows⟩ := hprocesses.nodeRows
  rw [← hkeys] at hrows
  obtain ⟨used, unused, hsplit, hused, hunused⟩ := List.map_eq_append_iff.mp hrows
  refine ⟨used, unused, hsplit, hused, fun row hrow => ?_, fun row hrow => ?_⟩
  · have hin : row.pid ∈ nodePids s := by
      rw [← hused]
      exact List.mem_map_of_mem hrow
    have hpos := hprocesses.positive row.pid (List.mem_append_right _ hin)
    intro hzero
    rw [hzero] at hpos
    exact absurd hpos (by decide)
  · refine List.eq_of_mem_replicate (n := n) ?_
    rw [← hunused]
    exact List.mem_map_of_mem hrow

end Runs

section Example

open Confirmation (small)

end Example

end SimulazioneTransazioni.FinalReport

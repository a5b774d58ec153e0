import SimulazioneTransazioni.SignificantProcesses
import SimulazioneTransazioni.Draws
import SimulazioneTransazioni.Users

/-!
The loop of the master that watches the simulation. In each round it counts the
users and the nodes in the tables and raises SIGINT when all users but one are
dead. At this point no living user finds another one to pay, so that its draws
would not come to an end, and before this point some user finds one.
-/
namespace SimulazioneTransazioni.Monitor

open SignificantProcesses (visitedUsers visitedNodes)
open Users Draws

inductive Term
  | timeElapsed
  | usersDead
  | ledgerFull
deriving DecidableEq

structure Snapshot where
  usersPID : List User
  nodesPID : List Node

structure Counters where
  activeUsers : UInt32
  deadUsers : UInt32

def countUser (c : Counters) (row : User) : Counters where
  activeUsers := if row.status = .alive then c.activeUsers + 1 else c.activeUsers
  deadUsers := if row.status = .dead then c.deadUsers + 1 else c.deadUsers

def countNode (activeNodes : UInt32) (row : Node) : UInt32 :=
  if row.status = .available ∧ row.pid ≠ 0 then activeNodes + 1 else activeNodes

structure Shown where
  time : UInt32
  activeUsers : UInt32
  activeNodes : UInt32

def round (par : Parameters) (time : UInt32) (s : Snapshot) : Option Shown :=
  let counted := (visitedUsers par s.usersPID).foldl countUser ⟨0, 0⟩
  if par.soUserNum - 1 ≤ counted.deadUsers then none
  else some ⟨time, counted.activeUsers, (visitedNodes par s.nodesPID).foldl countNode 0⟩

structure Watched where
  shown : List Shown
  termReason : Term

/-- The loop with this many seconds to go; rounds are numbered from the first one on. -/
def watch (par : Parameters) (snapshots : ℕ → Snapshot) : (time k : ℕ) → Watched
  | 0, _ => ⟨[], .timeElapsed⟩
  | time + 1, k =>
    match round par (UInt32.ofNat time) (snapshots k) with
    | none => ⟨[], .usersDead⟩
    | some line =>
      let rest := watch par snapshots time (k + 1)
      ⟨line :: rest.shown, rest.termReason⟩

def startContinuousPrint (par : Parameters) (snapshots : ℕ → Snapshot) : Watched :=
  watch par snapshots par.soSimSec.toNat 0

/-- No user that is not dead ends the draws of get_random_userPID. -/
def Stuck (par : Parameters) (s : Snapshot) : Prop :=
  ∀ row ∈ s.usersPID, row.status ≠ .dead → ∀ draws : List UInt32, (∀ r ∈ draws, r.toNat < 2 ^ 31) →
    getRandomUserPID par s.usersPID row.pid draws = .error .drawing

structure Filled (par : Parameters) (usersPID : List User) : Prop where
  users : par.soUserNum ≠ 0
  addressable : par.soUserNum.toNat ≤ 2 ^ 31
  length : usersPID.length = par.soUserNum.toNat
  distinct : (usersPID.map User.pid).Nodup
  positive : ∀ row ∈ usersPID, row.pid ≠ 0

section Counts

variable {par : Parameters}

theorem toNat_succ {n : UInt32} (h : n.toNat + 1 < 2 ^ 32) : (n + 1).toNat = n.toNat + 1 := by
  rw [UInt32.toNat_add, UInt32.toNat_one]
  omega

/-- The loop over the table counts the users that are alive and those that are dead. -/
theorem foldl_countUser (rows : List User) (c : Counters)
    (ha : c.activeUsers.toNat + rows.length < 2 ^ 32)
    (hd : c.deadUsers.toNat + rows.length < 2 ^ 32) :
    (rows.foldl countUser c).activeUsers.toNat =
        c.activeUsers.toNat + rows.countP (fun row => row.status = .alive) ∧
      (rows.foldl countUser c).deadUsers.toNat =
        c.deadUsers.toNat + rows.countP (fun row => row.status = .dead) := by
  induction rows generalizing c with
  | nil => exact ⟨rfl, rfl⟩
  | cons row rest ih =>
    rw [List.length_cons] at ha hd
    have hactive : (countUser c row).activeUsers.toNat =
        c.activeUsers.toNat + if row.status = .alive then 1 else 0 := by
      unfold countUser
      dsimp only
      split
      · exact toNat_succ (by omega)
      · rfl
    have hdead : (countUser c row).deadUsers.toNat =
        c.deadUsers.toNat + if row.status = .dead then 1 else 0 := by
      unfold countUser
      dsimp only
      split
      · exact toNat_succ (by omega)
      · rfl
    have hone : ∀ p : Prop, [Decidable p] → (if p then 1 else 0) ≤ 1 := by
      intro p _
      split <;> omega
    have halive := hone (row.status = .alive)
    have hdied := hone (row.status = .dead)
    obtain ⟨h₁, h₂⟩ := ih (countUser c row) (by omega) (by omega)
    rw [List.foldl_cons, h₁, h₂, hactive, hdead, List.countP_cons, List.countP_cons]
    simp only [decide_eq_true_eq]
    omega

theorem foldl_countNode (rows : List Node) (n : UInt32) (h : n.toNat + rows.length < 2 ^ 32) :
    (rows.foldl countNode n).toNat =
      n.toNat + rows.countP fun row => row.status = .available ∧ row.pid ≠ 0 := by
  induction rows generalizing n with
  | nil => rfl
  | cons row rest ih =>
    rw [List.length_cons] at h
    by_cases hrow : row.status = .available ∧ row.pid ≠ 0
    · have hcount : countNode n row = n + 1 := if_pos hrow
      have hsucc := toNat_succ (n := n) (by omega)
      rw [List.foldl_cons, List.countP_cons_of_pos (by simpa using hrow), hcount,
        ih _ (by omega)]
      omega
    · have hcount : countNode n row = n := if_neg hrow
      rw [List.foldl_cons, List.countP_cons_of_neg (by simpa using hrow), hcount, ih _ (by omega)]

end Counts

section Draws

variable {par : Parameters} {usersPID : List User} {myPID : PidT}

/-- Every draw hits a row, and every row can be drawn. -/
theorem Filled.rand_index (h : Filled par usersPID) (r : UInt32) :
    ∃ d row, rand r 0 (par.soUserNum - 1) = some d ∧ usersPID[d.toNat]? = some row ∧
      d.toNat = r.toNat % usersPID.length := by
  have hone : (1 : UInt32) ≤ par.soUserNum := by
    rw [UInt32.le_iff_toNat_le, UInt32.toNat_one]
    have hne := h.users
    rw [Ne, ← UInt32.toNat_inj, UInt32.toNat_zero] at hne
    omega
  have hpos : 0 < par.soUserNum.toNat := UInt32.le_iff_toNat_le.mp hone
  have hspan : par.soUserNum - 1 - 0 + 1 ≠ 0 := by
    have hsame : par.soUserNum - 1 - 0 + 1 = par.soUserNum := by grind
    rw [hsame]
    exact h.users
  obtain ⟨d, hd, hval⟩ := rand_eq_some UInt32.zero_le hspan r
  have hmax : (par.soUserNum - 1).toNat - (0 : UInt32).toNat + 1 = usersPID.length := by
    rw [UInt32.toNat_sub_of_le _ _ hone, UInt32.toNat_one, UInt32.toNat_zero, h.length]
    omega
  rw [hmax, UInt32.toNat_zero, Nat.add_zero] at hval
  have hlt : d.toNat < usersPID.length := by
    rw [hval]
    refine Nat.mod_lt _ ?_
    rw [h.length]
    exact hpos
  exact ⟨d, _, hd, List.getElem?_eq_getElem hlt, hval⟩

/-- The draws do not end when no row qualifies, and some draw ends them when one does. -/
theorem Filled.drawing_iff (h : Filled par usersPID) :
    (∀ draws : List UInt32, (∀ r ∈ draws, r.toNat < 2 ^ 31) →
      getRandomUserPID par usersPID myPID draws = .error .drawing) ↔
    ∀ row ∈ usersPID, row.status ≠ .dead → row.pid = myPID := by
  constructor
  · intro hdraws row hrow hstatus
    by_contra hpid
    obtain ⟨i, hi, hget⟩ := List.mem_iff_getElem.mp hrow
    have hbound : i < 2 ^ 31 := by
      have hle := h.addressable
      rw [← h.length] at hle
      omega
    have hr : (UInt32.ofNat i).toNat = i := by
      rw [UInt32.toNat_ofNat']
      omega
    obtain ⟨d, row', hd, hrow', hval⟩ := h.rand_index (UInt32.ofNat i)
    have hsame : row' = row := by
      rw [hval, hr, Nat.mod_eq_of_lt hi, List.getElem?_eq_getElem hi, hget] at hrow'
      exact (Option.some.inj hrow').symm
    have hdrawn := hdraws [UInt32.ofNat i] (by
      intro r hin
      rw [List.mem_singleton.mp hin, hr]
      exact hbound)
    rw [getRandomUserPID, hd] at hdrawn
    simp only [hrow', hsame, if_pos (⟨⟨hstatus, hpid⟩, h.positive row hrow⟩ :
      (row.status ≠ .dead ∧ row.pid ≠ myPID) ∧ row.pid ≠ 0)] at hdrawn
    contradiction
  · intro hnone draws hdraws
    induction draws with
    | nil => rfl
    | cons r rest ih =>
      obtain ⟨d, row, hd, hrow, -⟩ := h.rand_index r
      rw [getRandomUserPID, hd]
      have hmem := List.mem_of_getElem? hrow
      have hnot : ¬ ((row.status ≠ .dead ∧ row.pid ≠ myPID) ∧ row.pid ≠ 0) :=
        fun hq => hq.1.2 (hnone row hmem hq.1.1)
      simp only [hrow, if_neg hnot]
      exact ih fun r hr => hdraws r (List.mem_cons_of_mem _ hr)

end Draws

section Rounds

variable {par : Parameters} {snapshots : ℕ → Snapshot}

theorem length_le_one_iff {R K : Type*} {key : R → K} {rows : List R}
    (h : (rows.map key).Nodup) :
    rows.length ≤ 1 ↔ ∀ row ∈ rows, ∀ row' ∈ rows, key row' = key row := by
  match rows with
  | [] => simp
  | [row] => simp
  | row :: row' :: rest =>
    have hne : key row ≠ key row' := by
      rw [List.map_cons, List.map_cons, List.nodup_cons] at h
      exact fun heq => h.1 (heq ▸ List.mem_cons_self)
    constructor
    · intro hlength
      rw [List.length_cons, List.length_cons] at hlength
      omega
    · intro hsame
      exact absurd (hsame row' (by simp) row (by simp)) hne

def Fires (par : Parameters) (s : Snapshot) : Prop :=
  par.soUserNum - 1 ≤ ((visitedUsers par s.usersPID).foldl countUser ⟨0, 0⟩).deadUsers

theorem Filled.visited {usersPID : List User} (h : Filled par usersPID) :
    visitedUsers par usersPID = usersPID := by
  rw [visitedUsers, ← h.length, List.take_length]

/-- All users but one are dead when no user that lives finds another one. -/
theorem fires_iff_stuck {s : Snapshot} (h : Filled par s.usersPID) :
    Fires par s ↔ Stuck par s := by
  have hbound := par.soUserNum.toNat_lt
  obtain ⟨-, hdead⟩ := foldl_countUser s.usersPID ⟨0, 0⟩
    (by rw [h.length]; exact (Nat.zero_add _).trans_lt hbound)
    (by rw [h.length]; exact (Nat.zero_add _).trans_lt hbound)
  have hone : (1 : UInt32) ≤ par.soUserNum := by
    have hne := h.users
    rw [Ne, ← UInt32.toNat_inj, UInt32.toNat_zero] at hne
    rw [UInt32.le_iff_toNat_le, UInt32.toNat_one]
    omega
  have hpartition := List.length_eq_countP_add_countP (fun row : User => row.status = .dead)
    (l := s.usersPID)
  have hliving : (s.usersPID.filter fun row => row.status ≠ .dead).length =
      s.usersPID.countP fun row => ¬ (decide (row.status = .dead) = true) := by
    rw [List.countP_eq_length_filter]
    simp
  have hfew : Fires par s ↔ (s.usersPID.filter fun row => row.status ≠ .dead).length ≤ 1 := by
    have hlen := h.length
    have hzero : (⟨0, 0⟩ : Counters).deadUsers.toNat = 0 := rfl
    rw [Fires, h.visited, UInt32.le_iff_toNat_le, UInt32.toNat_sub_of_le _ _ hone,
      UInt32.toNat_one, hdead, hzero, hliving]
    omega
  have hnodup : ((s.usersPID.filter fun row => row.status ≠ .dead).map User.pid).Nodup :=
    (List.filter_sublist.map User.pid).nodup h.distinct
  rw [hfew, length_le_one_iff hnodup, Stuck]
  simp only [List.mem_filter, decide_eq_true_eq]
  constructor
  · rintro hsame row hrow hstatus
    exact h.drawing_iff.mpr fun row' hrow' hstatus' =>
      hsame row ⟨hrow, hstatus⟩ row' ⟨hrow', hstatus'⟩
  · rintro hstuck row ⟨hrow, hstatus⟩ row' ⟨hrow', hstatus'⟩
    exact h.drawing_iff.mp (hstuck row hrow hstatus) row' hrow' hstatus'

def line (par : Parameters) (snapshots : ℕ → Snapshot) (k : ℕ) : Shown where
  time := UInt32.ofNat (par.soSimSec.toNat - (k + 1))
  activeUsers := ((visitedUsers par (snapshots k).usersPID).foldl countUser ⟨0, 0⟩).activeUsers
  activeNodes := (visitedNodes par (snapshots k).nodesPID).foldl countNode 0

instance (s : Snapshot) : Decidable (Fires par s) := inferInstanceAs (Decidable (_ ≤ _))

/-- The loop from round k on, when it stops in round n or runs to its end. -/
theorem watch_spec {time k n : ℕ} (htime : k + time = par.soSimSec.toNat)
    (hn : k ≤ n ∧ n ≤ k + time) (hbefore : ∀ j, k ≤ j → j < n → ¬ Fires par (snapshots j))
    (hat : n < k + time → Fires par (snapshots n)) :
    watch par snapshots time k = ⟨(List.range' k (n - k)).map (line par snapshots),
      if n < k + time then .usersDead else .timeElapsed⟩ := by
  induction time generalizing k with
  | zero =>
    have hnk : n = k := by omega
    rw [hnk, Nat.sub_self]
    exact congrArg (Watched.mk []) (if_neg (by omega)).symm
  | succ time ih =>
    rcases Nat.eq_or_lt_of_le hn.1 with heq | hlt
    · subst heq
      have hfires : round par (UInt32.ofNat time) (snapshots k) = none := if_pos (hat (by omega))
      rw [watch, hfires, Nat.sub_self, if_pos (by omega)]
      rfl
    · have hround : round par (UInt32.ofNat time) (snapshots k) = some (line par snapshots k) := by
        have hleft : par.soSimSec.toNat - (k + 1) = time := by omega
        rw [line, hleft]
        exact if_neg (hbefore k le_rfl hlt)
      have hrest := ih (k := k + 1) (by omega) (by omega)
        (fun j hj => hbefore j (by omega)) (fun h => hat (by omega))
      have hrange : List.range' k (n - k) = k :: List.range' (k + 1) (n - (k + 1)) := by
        have hsub : n - k = (n - (k + 1)) + 1 := by omega
        rw [hsub, List.range'_succ]
      have hlater : k + 1 + time = k + (time + 1) := by omega
      rw [watch, hround, hrange, List.map_cons]
      show (⟨line par snapshots k :: (watch par snapshots time (k + 1)).shown,
        (watch par snapshots time (k + 1)).termReason⟩ : Watched) = _
      rw [hrest, hlater]

structure Counted (par : Parameters) (s : Snapshot) (k : ℕ) (line : Shown) : Prop where
  time : line.time.toNat + (k + 1) = par.soSimSec.toNat
  users : line.activeUsers.toNat = s.usersPID.countP fun row => row.status = .alive
  nodes : line.activeNodes.toNat =
    (visitedNodes par s.nodesPID).countP fun row => row.status = .available ∧ row.pid ≠ 0

theorem line_counted {k : ℕ} (h : Filled par (snapshots k).usersPID) (hk : k < par.soSimSec.toNat) :
    Counted par (snapshots k) k (line par snapshots k) := by
  have hbound := par.soUserNum.toNat_lt
  have htime := par.soSimSec.toNat_lt
  obtain ⟨halive, -⟩ := foldl_countUser (snapshots k).usersPID ⟨0, 0⟩
    (by rw [h.length]; exact (Nat.zero_add _).trans_lt hbound)
    (by rw [h.length]; exact (Nat.zero_add _).trans_lt hbound)
  have hnodes : (visitedNodes par (snapshots k).nodesPID).length < 2 ^ 32 := by
    rw [visitedNodes, List.length_take]
    exact (Nat.min_le_left _ _).trans_lt (par.soNodesNum * 2).toNat_lt
  refine ⟨?_, ?_, ?_⟩
  · rw [line, UInt32.toNat_ofNat']
    omega
  · rw [line, h.visited]
    exact halive.trans (Nat.zero_add _)
  · rw [line]
    exact (foldl_countNode _ 0 ((Nat.zero_add _).trans_lt hnodes)).trans (Nat.zero_add _)

end Rounds

section Example

def two : Parameters := { assignDefaults with soUserNum := 2, soNodesNum := 1, soSimSec := 5 }

def dying (k : ℕ) : Snapshot :=
  ⟨[⟨7, 900, .alive⟩, ⟨8, 100, if k < 2 then .alive else .dead⟩], [⟨40, 0, 0, .available⟩]⟩

example : (startContinuousPrint two dying).termReason = .usersDead ∧
    (startContinuousPrint two dying).shown.length = 2 := by decide

theorem dying_filled (k : ℕ) : Filled two (dying k).usersPID := by
  refine ⟨by decide, by decide, rfl, ?_, fun row hrow => ?_⟩
  · show ([7, 8] : List PidT).Nodup
    decide
  · rcases List.mem_cons.mp hrow with rfl | hrow
    · show (7 : PidT) ≠ 0
      decide
    · rw [List.mem_singleton.mp hrow]
      show (8 : PidT) ≠ 0
      decide

end Example

end SimulazioneTransazioni.Monitor

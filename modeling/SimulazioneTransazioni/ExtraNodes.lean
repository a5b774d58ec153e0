import SimulazioneTransazioni.Library.Table
import SimulazioneTransazioni.Network

/-!
What the master's child does with a transaction that has hopped too much, as one
step from receive to receive. Between two of them the other processes write their
rows. The counter nCounter stays at SO_NODES_NUM while overBuf goes on, so that the
first extra node has its row and is announced, and each later transaction resets
the row of the first and announces its pid.
-/
namespace SimulazioneTransazioni.ExtraNodes

open Master

structure HoppedOutcome where
  nodePID : PidT
  rand : ℕ → ℕ
  privateRand : ℕ → ℕ

inductive Reaction
  | refused
  | created (announcements : List (PidT × PidT))

structure State where
  overBuf : UInt32
  nodesPID : List Node
  handled : ℕ
  exited : Bool

inductive Label
  | hopped (o : HoppedOutcome)
  | write (j : ℕ) (row : Node)

namespace State

def nodePids (s : State) : List PidT := s.nodesPID.map Node.pid

def handling (s : State) (spawned : Spawned) (exited : Bool) : State where
  overBuf := spawned.overBuf
  nodesPID := spawned.nodesPID
  handled := s.handled + 1
  exited := exited

/-- The body of the child's loop. The row at nCounter has to be in the table, and
fork gives a pid that no process has. -/
def handle (par : Parameters) (s : State) (o : HoppedOutcome) : Option (State × Reaction) :=
  if s.exited ∨ s.nodesPID.length ≤ par.soNodesNum.toNat ∨ ¬ 0 < o.nodePID ∨
      o.nodePID ∈ s.nodePids then none
  else
    let spawned := spawnNode par (.parent o.nodePID) none s.overBuf (prepareRow par s.nodesPID)
    if spawned.nodePID = -1 then some (s.handling spawned true, .refused)
    else
      (makeFriendList par o.rand spawned.nodesPID).bind fun _ =>
        (makeFriendList par o.privateRand spawned.nodesPID).bind fun privateFriends =>
          (spawned.nodesPID[par.soNodesNum.toNat]?).map fun row =>
            (s.handling spawned false,
              .created (privateFriends.map fun friend => (friend, row.pid)))

def write (s : State) (j : ℕ) (row : Node) : Option State :=
  (s.nodesPID[j]?).bind fun old =>
    if old.pid ≠ 0 ∧ row.pid = old.pid then some { s with nodesPID := s.nodesPID.set j row }
    else none

def next (par : Parameters) (s : State) : Label → Option State
  | .hopped o => (s.handle par o).map Prod.fst
  | .write j row => s.write j row

end State

structure Initial (par : Parameters) (s : State) : Prop where
  length : s.nodesPID.length = 2 * par.soNodesNum.toNat
  zeroed : ∀ (j : ℕ) (row : Node), par.soNodesNum.toNat ≤ j → s.nodesPID[j]? = some row →
    row = ⟨0, 0, 0, .available⟩
  overBuf : s.overBuf = par.soNodesNum
  handled : s.handled = 0
  exited : s.exited = false

def machine (par : Parameters) : Machine State Label where
  start := Initial par
  next := State.next par

section Claim

/-- Transaction number k creates node SO_NODES_NUM + k - 1, as long as there are
SO_NODES_NUM of them, and later ones are refused. -/
def Correct (par : Parameters) (o : HoppedOutcome) (s s' : State) (r : Reaction) : Prop :=
  if s.handled + 1 ≤ par.soNodesNum.toNat then
    ∃ announcements, r = .created announcements ∧
      par.soNodesNum.toNat + s.handled < s.nodesPID.length ∧
      s'.nodesPID = s.nodesPID.modify (par.soNodesNum.toNat + s.handled) (fun row =>
        { row with pid := o.nodePID, status := .available, balance := 0 }) ∧
      announcements.length = par.soFriendsNum.toNat ∧ ∀ a ∈ announcements, a.2 = o.nodePID
  else r = .refused ∧ s'.nodesPID = s.nodesPID

def Clean (par : Parameters) (s : State) : Prop :=
  ∀ row ∈ s.nodesPID[par.soNodesNum.toNat]?, row.status = .available ∧ row.balance = 0

/-- Twice SO_NODES_NUM does not wrap, unless there is nothing to create; and the
transaction is the first, or finds the row at SO_NODES_NUM clean and announces
nothing. -/
def Right (par : Parameters) (s : State) : Prop :=
  (s.handled + 1 ≤ par.soNodesNum.toNat → par.soNodesNum < par.soNodesNum * 2) ∧
    (s.handled = 0 ∨ Clean par s ∧ (par.soNodesNum.toNat ≤ s.handled ∨ par.soFriendsNum = 0))

end Claim

section Steps

variable {par : Parameters} {s s' : State} {o : HoppedOutcome} {r : Reaction}

def reset (row : Node) : Node := { row with status := .available, balance := 0 }

inductive Did (par : Parameters) (o : HoppedOutcome) (s : State) : State → Reaction → Prop
  | refused (hfull : par.soNodesNum * 2 ≤ reached par s.overBuf) :
      Did par o s
        ⟨reached par s.overBuf, s.nodesPID.modify par.soNodesNum.toNat reset, s.handled + 1, true⟩
        .refused
  | created (rows : List Node) (privateFriends : List PidT) (row : Node)
      (hroom : ¬ par.soNodesNum * 2 ≤ reached par s.overBuf)
      (hrows : rows = (s.nodesPID.modify par.soNodesNum.toNat reset).modify
        (reached par s.overBuf).toNat fun row => { row with pid := o.nodePID })
      (hfriends : privateFriends.length = par.soFriendsNum.toNat)
      (hrow : rows[par.soNodesNum.toNat]? = some row) :
      Did par o s ⟨reached par s.overBuf + 1, rows, s.handled + 1, false⟩
        (.created (privateFriends.map fun friend => (friend, row.pid)))

/-- The body of the loop is a refusal, or a fork with the friends that it draws. -/
theorem handle_cases (h : s.handle par o = some (s', r)) {spawned : Spawned}
    (hspawned : spawned =
      spawnNode par (.parent o.nodePID) none s.overBuf (prepareRow par s.nodesPID)) :
    (s.exited = false ∧ par.soNodesNum.toNat < s.nodesPID.length ∧ 0 < o.nodePID ∧
      o.nodePID ∉ s.nodePids) ∧
    (spawned.nodePID = -1 ∧ s' = s.handling spawned true ∧ r = .refused ∨
      spawned.nodePID ≠ -1 ∧ ∃ friends privateFriends row,
        makeFriendList par o.rand spawned.nodesPID = some friends ∧
        makeFriendList par o.privateRand spawned.nodesPID = some privateFriends ∧
        spawned.nodesPID[par.soNodesNum.toNat]? = some row ∧
        s' = s.handling spawned false ∧
        r = .created (privateFriends.map fun friend => (friend, row.pid))) := by
  unfold State.handle at h
  rw [← hspawned] at h
  split at h
  · contradiction
  next hgo =>
    simp only [not_or, not_le, not_not, Bool.not_eq_true] at hgo
    refine ⟨hgo, ?_⟩
    dsimp only at h
    split at h
    next hnone =>
      cases h
      exact Or.inl ⟨hnone, rfl, rfl⟩
    next hnone =>
      obtain ⟨friends, hfriends, hrest⟩ := Option.bind_eq_some_iff.mp h
      obtain ⟨privateFriends, hprivate, hlast⟩ := Option.bind_eq_some_iff.mp hrest
      obtain ⟨row, hrow, heq⟩ := Option.map_eq_some_iff.mp hlast
      cases heq
      exact Or.inr ⟨hnone, friends, privateFriends, row, hfriends, hprivate, hrow, rfl, rfl⟩

theorem handle_did (h : s.handle par o = some (s', r)) :
    s.exited = false ∧ par.soNodesNum.toNat < s.nodesPID.length ∧ 0 < o.nodePID ∧
      o.nodePID ∉ s.nodePids ∧ Did par o s s' r := by
  obtain ⟨⟨hexited, htable, hpos, hfresh⟩, hcases⟩ := handle_cases h rfl
  refine ⟨hexited, htable, hpos, hfresh, ?_⟩
  by_cases hfull : par.soNodesNum * 2 ≤ reached par s.overBuf
  · rw [spawnNode_full hfull] at hcases
    obtain ⟨-, rfl, rfl⟩ | ⟨hne, -⟩ := hcases
    · exact .refused hfull
    · exact absurd rfl hne
  · rw [spawnNode_parent hfull] at hcases
    obtain ⟨hnone, -⟩ | ⟨-, friends, privateFriends, row, -, hprivate, hrow, rfl, rfl⟩ := hcases
    · have hneg : o.nodePID = -1 := hnone
      rw [hneg] at hpos
      exact absurd hpos (by decide)
    · exact .created _ privateFriends row hfull rfl (length_makeFriendList hprivate) hrow

structure Inv (par : Parameters) (s : State) : Prop where
  length : s.nodesPID.length = 2 * par.soNodesNum.toNat
  zeroed : ∀ (j : ℕ) (row : Node), par.soNodesNum.toNat + s.handled ≤ j →
    s.nodesPID[j]? = some row → row = ⟨0, 0, 0, .available⟩
  overBuf : s.exited = false → s.overBuf.toNat = par.soNodesNum.toNat + s.handled
  fits : s.exited = false → 0 < s.handled → par.soNodesNum < par.soNodesNum * 2

theorem inv_initial (h : Initial par s) : Inv par s := by
  refine ⟨h.length, ?_, ?_, ?_⟩
  · intro j row hj
    apply h.zeroed j row
    rw [h.handled] at hj
    omega
  · rw [h.overBuf, h.handled]
    omega
  · rw [h.handled]
    omega

theorem toNat_double (par : Parameters) :
    (par.soNodesNum * 2).toNat = par.soNodesNum.toNat * 2 % 2 ^ 32 := by
  rw [UInt32.toNat_mul]
  rfl

theorem Inv.reached (h : Inv par s) (hexited : s.exited = false)
    (htable : par.soNodesNum.toNat < s.nodesPID.length) :
    (reached par s.overBuf).toNat = par.soNodesNum.toNat + s.handled := by
  have hlength := h.length
  have hoverBuf := h.overBuf hexited
  have hne : ¬ s.overBuf = 0 := by
    intro hzero
    rw [hzero, UInt32.toNat_zero] at hoverBuf
    omega
  rw [Master.reached, if_neg hne, hoverBuf]

/-- With room left twice SO_NODES_NUM does not wrap. -/
theorem Inv.double (h : Inv par s) (hexited : s.exited = false)
    (htable : par.soNodesNum.toNat < s.nodesPID.length)
    (hroom : ¬ par.soNodesNum * 2 ≤ Master.reached par s.overBuf) :
    par.soNodesNum < par.soNodesNum * 2 := by
  rw [UInt32.not_le, UInt32.lt_iff_toNat_lt, h.reached hexited htable] at hroom
  apply UInt32.lt_iff_toNat_lt.mpr
  omega

/-- A transaction keeps the two counters in step. -/
theorem handle_inv (h : Inv par s) (hstep : s.handle par o = some (s', r)) : Inv par s' := by
  obtain ⟨hexited, htable, -, -, hdid⟩ := handle_did hstep
  have hreached := h.reached hexited htable
  cases hdid with
  | refused hfull =>
    refine ⟨?_, ?_, (fun hfalse => nomatch hfalse), (fun hfalse => nomatch hfalse)⟩
    · rw [List.length_modify]
      exact h.length
    · intro j row hj hrow
      dsimp only at hj hrow
      rw [List.getElem?_modify_ne _ _ (by omega)] at hrow
      apply h.zeroed j row (by omega) hrow
  | created rows privateFriends row hroom hrows hfriends hrow =>
    have hlt := hroom
    rw [UInt32.not_le, UInt32.lt_iff_toNat_lt, hreached] at hlt
    have hbound := (par.soNodesNum * 2).toNat_lt
    refine ⟨?_, ?_, fun _ => ?_, fun _ _ => h.double hexited htable hroom⟩
    · rw [hrows, List.length_modify, List.length_modify]
      exact h.length
    · intro j row hj hrow
      dsimp only at hj hrow
      rw [hrows, hreached, List.getElem?_modify_ne _ _ (by omega),
        List.getElem?_modify_ne _ _ (by omega)] at hrow
      apply h.zeroed j row (by omega) hrow
    · dsimp only
      rw [UInt32.toNat_add, hreached, UInt32.toNat_one]
      omega

/-- A write of another process leaves the rows that are still zeroed. -/
theorem write_inv (h : Inv par s) {j : ℕ} {row : Node} (hstep : s.write j row = some s') :
    Inv par s' := by
  obtain ⟨old, hold, hrest⟩ := Option.bind_eq_some_iff.mp hstep
  split at hrest
  next hpid =>
    rw [← Option.some.inj hrest]
    refine ⟨?_, ?_, h.overBuf, h.fits⟩
    · rw [List.length_set]
      exact h.length
    · intro j' row' hj' hrow'
      have hne : j ≠ j' := by
        rintro rfl
        have hzero := h.zeroed j old hj' hold
        rw [hzero] at hpid
        exact hpid.1 rfl
      dsimp only at hrow'
      rw [List.getElem?_set_ne hne] at hrow'
      apply h.zeroed j' row' hj' hrow'
  next => contradiction

/-- In every reachable state the counters are in step and the rows beyond them are zeroed.
-/
theorem reach_inv (hs : (machine par).Reachable s) : Inv par s := by
  refine hs.invariant (fun s hs => inv_initial hs) ?_
  intro s l s' h _ hn
  cases l with
  | hopped o =>
    obtain ⟨⟨s₁, r⟩, hstep, rfl⟩ := Option.map_eq_some_iff.mp hn
    exact handle_inv h hstep
  | write j row => exact write_inv h hn

theorem clean_iff {row : Node} (hrow : s.nodesPID[par.soNodesNum.toNat]? = some row) :
    s.nodesPID.modify par.soNodesNum.toNat reset = s.nodesPID ↔ Clean par s := by
  rw [Table.modify_eq_iff hrow, Clean, hrow]
  simp only [Option.mem_def, Option.some.injEq, forall_eq']
  obtain ⟨pid, balance, tpSize, status⟩ := row
  simp only [reset, Node.mk.injEq, true_and]
  rw [eq_comm, and_comm, eq_comm (a := NodeStatus.available)]

/-- A refusal is right when it is due, and leaves a table that is clean. -/
theorem refused_iff (h : Inv par s) (hexited : s.exited = false)
    (htable : par.soNodesNum.toNat < s.nodesPID.length)
    (hfull : par.soNodesNum * 2 ≤ Master.reached par s.overBuf) :
    Correct par o s ⟨Master.reached par s.overBuf, s.nodesPID.modify par.soNodesNum.toNat reset,
      s.handled + 1, true⟩ .refused ↔ Right par s := by
  have hlength := h.length
  have hlimit := UInt32.le_iff_toNat_le.mp hfull
  rw [h.reached hexited htable, toNat_double] at hlimit
  unfold Correct Right
  by_cases hk : s.handled + 1 ≤ par.soNodesNum.toNat
  · rw [if_pos hk]
    constructor
    · rintro ⟨announcements, hr, -⟩
      contradiction
    · rintro ⟨hfits, -⟩
      have hlt := UInt32.lt_iff_toNat_lt.mp (hfits hk)
      rw [toNat_double] at hlt
      omega
  · rw [if_neg hk]
    have hrow := List.getElem?_eq_getElem htable
    rw [clean_iff hrow]
    constructor
    · rintro ⟨-, hclean⟩
      exact ⟨fun hle => absurd hle hk, Or.inr ⟨hclean, Or.inl (by omega)⟩⟩
    · rintro ⟨-, hfirst | ⟨hclean, -⟩⟩
      · omega
      · exact ⟨rfl, hclean⟩

/-- The first node of the child is created and announced as it should be. -/
theorem created_first {row : Node} {privateFriends : List PidT}
    (hrow : ((s.nodesPID.modify par.soNodesNum.toNat reset).modify par.soNodesNum.toNat
      fun row => { row with pid := o.nodePID })[par.soNodesNum.toNat]? = some row) :
    (s.nodesPID.modify par.soNodesNum.toNat reset).modify par.soNodesNum.toNat
        (fun row => { row with pid := o.nodePID }) =
      s.nodesPID.modify par.soNodesNum.toNat (fun row =>
        { row with pid := o.nodePID, status := .available, balance := 0 }) ∧
    ∀ a ∈ privateFriends.map fun friend => (friend, row.pid), a.2 = o.nodePID := by
  refine ⟨List.modify_modify_eq _ _ _ _, ?_⟩
  intro a ha
  obtain ⟨friend, -, rfl⟩ := List.mem_map.mp ha
  rw [List.getElem?_modify_eq] at hrow
  obtain ⟨old, -, rfl⟩ := Option.map_eq_some_iff.mp hrow
  rfl

/-- The pid that a later one announces is the one of the first extra node. -/
theorem announced_ne {row first : Node} {i : ℕ} (hne : i ≠ par.soNodesNum.toNat)
    (hfresh : o.nodePID ∉ s.nodePids) (hget : s.nodesPID[par.soNodesNum.toNat]? = some first)
    (hrow : ((s.nodesPID.modify par.soNodesNum.toNat reset).modify i
      fun row => { row with pid := o.nodePID })[par.soNodesNum.toNat]? = some row) :
    row.pid ≠ o.nodePID := by
  rw [List.getElem?_modify_ne _ _ hne, List.getElem?_modify_eq, hget] at hrow
  have hreset : some (reset first) = some row := hrow
  rw [← Option.some.inj hreset]
  intro heq
  apply hfresh
  rw [← heq]
  show first.pid ∈ s.nodesPID.map Node.pid
  exact List.mem_map_of_mem (List.mem_of_getElem? hget)

/-- In the row after the ones handled the other fields are as they should be. -/
theorem modify_zeroed (h : Inv par s) (pid : PidT)
    (hslot : par.soNodesNum.toNat + s.handled < s.nodesPID.length) :
    s.nodesPID.modify (par.soNodesNum.toNat + s.handled)
        (fun row => { row with pid := pid, status := .available, balance := 0 }) =
      s.nodesPID.modify (par.soNodesNum.toNat + s.handled)
        fun row => { row with pid := pid } := by
  have hzeroed : s.nodesPID[par.soNodesNum.toNat + s.handled]? =
      some ⟨0, 0, 0, .available⟩ := by
    rw [List.getElem?_eq_getElem hslot]
    exact congrArg some (h.zeroed _ _ le_rfl (List.getElem?_eq_getElem hslot))
  exact Table.modify_congr hzeroed rfl

/-- A later one is, where the reset changes nothing and nobody is told. -/
theorem created_later (h : Inv par s) (hlater : 0 < s.handled)
    (hfresh : o.nodePID ∉ s.nodePids) {row : Node} {privateFriends : List PidT}
    (hfriends : privateFriends.length = par.soFriendsNum.toNat)
    (hslot : par.soNodesNum.toNat + s.handled < s.nodesPID.length)
    (hrow : ((s.nodesPID.modify par.soNodesNum.toNat reset).modify
      (par.soNodesNum.toNat + s.handled)
      fun row => { row with pid := o.nodePID })[par.soNodesNum.toNat]? = some row) :
    ((s.nodesPID.modify par.soNodesNum.toNat reset).modify (par.soNodesNum.toNat + s.handled)
          (fun row => { row with pid := o.nodePID }) =
        s.nodesPID.modify (par.soNodesNum.toNat + s.handled) (fun row =>
          { row with pid := o.nodePID, status := .available, balance := 0 }) ∧
      ∀ a ∈ privateFriends.map fun friend => (friend, row.pid), a.2 = o.nodePID) ↔
      Clean par s ∧ par.soFriendsNum = 0 := by
  have hne : par.soNodesNum.toNat + s.handled ≠ par.soNodesNum.toNat := by omega
  have hfirst : par.soNodesNum.toNat < s.nodesPID.length := by omega
  obtain ⟨first, hget⟩ : ∃ first, s.nodesPID[par.soNodesNum.toNat]? = some first :=
    ⟨_, List.getElem?_eq_getElem hfirst⟩
  have hother := announced_ne hne hfresh hget hrow
  have hnew := modify_zeroed h o.nodePID hslot
  constructor
  · rintro ⟨hrows, hall⟩
    constructor
    · intro old hold
      rw [hget, Option.mem_def, Option.some.injEq] at hold
      have hsame := congrArg (fun rows : List Node => rows[par.soNodesNum.toNat]?) hrows
      rw [List.getElem?_modify_ne _ _ hne, List.getElem?_modify_eq,
        List.getElem?_modify_ne _ _ hne, hget, hold] at hsame
      have hreset : reset old = old := Option.some.inj hsame
      rw [← hreset]
      exact ⟨rfl, rfl⟩
    · apply UInt32.toNat_inj.mp
      rw [UInt32.toNat_zero, ← hfriends, List.length_eq_zero_iff]
      apply List.eq_nil_iff_forall_not_mem.mpr
      intro friend hfriend
      exact hother (hall _ (List.mem_map_of_mem hfriend))
  · rintro ⟨hclean, hnone⟩
    have hempty : privateFriends = [] := by
      rw [hnone, UInt32.toNat_zero] at hfriends
      exact List.length_eq_zero_iff.mp hfriends
    rw [(clean_iff hget).mpr hclean, hnew, hempty]
    exact ⟨rfl, fun a ha => absurd ha List.not_mem_nil⟩

end Steps

section Listener

open Network Queues

variable {par : Parameters} {w : World}

def standing (w : World) (handled : ℕ) : State := ⟨w.listener.overBuf, w.nodesPID, handled, false⟩

def calls (o : HoppedOutcome) (rand : ℕ → ℕ) : ListenerOutcome :=
  ⟨none, none, rand, .parent o.nodePID⟩

/-- The sends of send_friend_list write no table. -/
theorem sendFriends_path (par : Parameters) (o : HoppedOutcome) {nodeQueue : Int32}
    {friends : List PidT}
    (hpc : w.listener.pc = .sendFriends nodeQueue friends) :
    ∃ w', (Network.machine par).Path Machine.free w w' ∧ w'.listener.pc = .makePrivate ∧
      w'.nodesPID = w.nodesPID ∧ w'.listener.overBuf = w.listener.overBuf := by
  induction friends generalizing w with
  | nil =>
    refine ⟨w.setListener (w.listener.goto .makePrivate), ?_, rfl, rfl, rfl⟩
    refine (Machine.Path.refl w).tail (l := .listener (calls o o.rand)) trivial ?_
    simp only [Network.machine, World.next, World.listenerStep, hpc]
  | cons friend rest ih =>
    let w₁ := w.sendFriend none nodeQueue friend
    let w₂ := w₁.setListener (w₁.listener.goto (.sendFriends nodeQueue rest))
    have hstep : (Network.machine par).next w (.listener (calls o o.rand)) = some w₂ := by
      simp only [Network.machine, World.next, World.listenerStep, hpc]
      rfl
    have hsame : w₁.nodesPID = w.nodesPID ∧ w₁.listener.overBuf = w.listener.overBuf := by
      simp only [w₁, World.sendFriend]
      split
      · exact ⟨rfl, rfl⟩
      · exact ⟨rfl, rfl⟩
    obtain ⟨w', hpath, hpc', hnodes, hoverBuf⟩ := ih (w := w₂) rfl
    exact ⟨w', ((Machine.Path.refl w).tail trivial hstep).trans hpath, hpc',
      hnodes.trans hsame.1, hoverBuf.trans hsame.2⟩

def Answers (p : Listener) : Reaction → Prop
  | .refused => p.pc = .exited
  | .created announcements => ∃ privateFriends, p.pc = .announce privateFriends ∧
      announcements = privateFriends.map fun friend => (friend, p.newNode)

/-- A child that has made node nodePID comes to its announcements, with the node's
help, which makes its queue. -/
theorem serve_path (o : HoppedOutcome) {friends privateFriends : List PidT} {row : Node}
    (hpc : w.listener.pc = .makeFriends o.nodePID)
    (hnode : w.nodes[w.nodes.length - 1]? =
      some (NodeCell.start o.nodePID w.listenerPID .queueInit))
    (hfriends : makeFriendList par o.rand w.nodesPID = some friends)
    (hprivate : makeFriendList par o.privateRand w.nodesPID = some privateFriends)
    (hrow : w.nodesPID[par.soNodesNum.toNat]? = some row) :
    ∃ w', (Network.machine par).Path Machine.free w w' ∧
      w'.listener.pc = .announce privateFriends ∧ w'.listener.newNode = row.pid ∧
      w'.nodesPID = w.nodesPID ∧ w'.listener.overBuf = w.listener.overBuf := by
  let c := NodeCell.start o.nodePID w.listenerPID .queueInit
  let w₁ := (w.withQueues (w.queues ++ [create o.nodePID])).setNode (w.nodes.length - 1)
    (c.goto .attach c.proc)
  have hfirst : (Network.machine par).next w
      (.node (w.nodes.length - 1) ⟨none, none, none, 0, .parent 0⟩) = some w₁ := by
    simp only [Network.machine, World.next, World.nodeStep, hnode, Option.bind_some]
    rfl
  let w₂ := w₁.setListener (w₁.listener.goto (.findQueue o.nodePID friends))
  have hsecond : (Network.machine par).next w₁ (.listener (calls o o.rand)) = some w₂ := by
    have hpc₁ : w₁.listener.pc = .makeFriends o.nodePID := hpc
    have hfriends₁ : makeFriendList par o.rand w₁.nodesPID = some friends := hfriends
    simp only [Network.machine, World.next, World.listenerStep, hpc₁, calls, hfriends₁,
      Option.map_some]
    rfl
  let w₃ := w₂.setListener ((w₂.listener.withErrno .zero).goto (.sendFriends o.nodePID friends))
  have hthird : (Network.machine par).next w₂ (.listener (calls o o.rand)) = some w₃ := by
    have hfound : msgget w₂.queues o.nodePID = .found o.nodePID := by
      refine if_pos ?_
      show o.nodePID ∈ (w.queues ++ [create o.nodePID]).map Queue.key
      rw [List.map_append]
      exact List.mem_append_right _ (List.mem_singleton_self _)
    have hpc₂ : w₂.listener.pc = .findQueue o.nodePID friends := rfl
    simp only [Network.machine, World.next, World.listenerStep, hpc₂, World.findQueueStep, hfound]
    rfl
  obtain ⟨w₄, hpath, hpc₄, hnodes, hoverBuf⟩ := sendFriends_path par o (w := w₃) rfl
  let w₅ := w₄.setListener { w₄.listener with newNode := row.pid, pc := .announce privateFriends }
  have hlast : (Network.machine par).next w₄ (.listener (calls o o.privateRand)) = some w₅ := by
    have hprivate₄ : makeFriendList par o.privateRand w₄.nodesPID = some privateFriends := by
      rw [hnodes]
      exact hprivate
    have hrow₄ : w₄.nodesPID[par.soNodesNum.toNat]? = some row := by
      rw [hnodes]
      exact hrow
    simp only [Network.machine, World.next, World.listenerStep, hpc₄, calls, hprivate₄,
      Option.bind_some, Listener.prepared, hrow₄, Option.map_some]
    rfl
  have hpath₃ : (Network.machine par).Path Machine.free w w₃ :=
    (((Machine.Path.refl w).tail trivial hfirst).tail trivial hsecond).tail trivial hthird
  exact ⟨w₅, (hpath₃.trans hpath).tail trivial hlast, rfl, rfl, hnodes, hoverBuf⟩

/-- The system can do what handle says: the listener takes the transaction from its
queue, and comes to its announcements or exits. -/
theorem handle_path (handled : ℕ) (hpc : w.listener.pc = .receive) {m : Message}
    {queues : List Queue} (hmessage : takeTrans w.queues w.master = some (m, queues))
    {o : HoppedOutcome} (hfresh : o.nodePID ∉ w.pids) {s' : State} {r : Reaction}
    (hstep : (standing w handled).handle par o = some (s', r)) :
    ∃ w', (Network.machine par).Path Machine.free w w' ∧ w'.nodesPID = s'.nodesPID ∧
      w'.listener.overBuf = s'.overBuf ∧ Answers w'.listener r := by
  let rows := prepareRow par w.nodesPID
  let w₁ : World := { w.withQueues queues with
    nodesPID := rows
    listener := w.listener.received (.delivered m) }
  have hfirst : (Network.machine par).next w (.listener (calls o o.rand)) = some w₁ := by
    have hrcv : rcvTrans w.queues none w.master = some (.delivered m, queues) := by
      rw [rcvTrans, hmessage]
      rfl
    simp only [Network.machine, World.next, World.listenerStep, hpc, calls, hrcv, Option.map_some]
    rfl
  let spawned := spawnNode par (.parent o.nodePID) none w.listener.overBuf rows
  let w₂ : World := { w₁ with
    nodesPID := spawned.nodesPID
    nodes := w₁.nodes ++ w₁.newNodes spawned.nodePID
    listener := w₁.listener.spawned spawned }
  have hpos := (handle_did hstep).2.2.1
  have hspawned : spawned.nodePID = -1 ∨ spawned.nodePID = o.nodePID := by
    by_cases hfull : par.soNodesNum * 2 ≤ reached par w.listener.overBuf
    · exact Or.inl (by simp only [spawned, spawnNode_full hfull])
    · exact Or.inr (by simp only [spawned, spawnNode_parent hfull])
  have hsecond : (Network.machine par).next w₁ (.listener (calls o o.rand)) = some w₂ := by
    have hpc₁ : w₁.listener.pc = .spawn := rfl
    have hgo : ¬ (spawned.nodePID ≠ -1 ∧ ¬ (0 < spawned.nodePID ∧ spawned.nodePID ∉ w.pids)) := by
      rintro ⟨hne, hnot⟩
      apply hnot
      rw [hspawned.resolve_left hne]
      exact ⟨hpos, hfresh⟩
    simp only [Network.machine, World.next, World.listenerStep, hpc₁, World.spawnStep]
    exact if_neg hgo
  have hpath : (Network.machine par).Path Machine.free w w₂ :=
    ((Machine.Path.refl w).tail trivial hfirst).tail trivial hsecond
  obtain ⟨-, ⟨hnone, rfl, rfl⟩ | ⟨hne, friends, privateFriends, row, hfriends, hprivate, hrow,
    rfl, rfl⟩⟩ := handle_cases hstep (rfl : spawned = _)
  · exact ⟨w₂, hpath, rfl, rfl, if_pos hnone⟩
  · have hpid : spawned.nodePID = o.nodePID := hspawned.resolve_left hne
    have hpc₂ : w₂.listener.pc = .makeFriends o.nodePID := by
      rw [← hpid]
      exact if_neg hne
    have hnode : w₂.nodes[w₂.nodes.length - 1]? =
        some (NodeCell.start o.nodePID w₂.listenerPID .queueInit) := by
      have hnodes : w₂.nodes = w.nodes ++ [NodeCell.start o.nodePID w.listenerPID .queueInit] := by
        rw [hpid] at hne
        simp only [w₂, World.newNodes, hpid, if_neg hne]
        rfl
      rw [hnodes, List.length_append, List.length_singleton, Nat.add_sub_cancel]
      exact List.getElem?_concat_length
    obtain ⟨w', hserve, hannounce, hnew, hsame, hoverBuf⟩ :=
      serve_path o hpc₂ hnode hfriends hprivate hrow
    exact ⟨w', hpath.trans hserve, hsame, hoverBuf, privateFriends, hannounce, by rw [hnew]⟩

end Listener

section Examples

def small : Parameters := { assignDefaults with soNodesNum := 2, soFriendsNum := 1 }

def launch : State where
  overBuf := 2
  nodesPID := [⟨11, 0, 0, .available⟩, ⟨12, 0, 0, .available⟩, ⟨0, 0, 0, .available⟩,
    ⟨0, 0, 0, .available⟩]
  handled := 0
  exited := false

theorem launch_initial : Initial small launch := by
  refine ⟨rfl, ?_, rfl, rfl, rfl⟩
  intro j row hj hrow
  have hj' : 2 ≤ j := hj
  obtain ⟨k, rfl⟩ := Nat.exists_eq_add_of_le' hj'
  have hzero : row ∈ List.replicate 2 (⟨0, 0, 0, .available⟩ : Node) :=
    List.mem_of_getElem? (i := k) hrow
  exact List.eq_of_mem_replicate hzero

def hopped (pid : PidT) : HoppedOutcome := ⟨pid, fun _ => 0, fun _ => 0⟩

/-- After any number of transactions, with any writes of the other processes between
them, the next one is handled as it should be exactly when it is right. -/
theorem extra_node_correct_iff (par : Parameters) {s s' : State} (hs : (machine par).Reachable s)
    {o : HoppedOutcome} {r : Reaction} (hstep : s.handle par o = some (s', r)) :
    Correct par o s s' r ↔ Right par s := by
  have h := reach_inv hs
  obtain ⟨hexited, htable, -, hfresh, hdid⟩ := handle_did hstep
  have hreached := h.reached hexited htable
  cases hdid with
  | refused hfull => exact refused_iff h hexited htable hfull
  | created rows privateFriends row hroom hrows hfriends hrow =>
    have hfits := h.double hexited htable hroom
    have hlt := hroom
    rw [UInt32.not_le, UInt32.lt_iff_toNat_lt, hreached, toNat_double] at hlt
    have hk : s.handled + 1 ≤ par.soNodesNum.toNat := by omega
    have hslot : par.soNodesNum.toNat + s.handled < s.nodesPID.length := by
      rw [h.length]
      omega
    have hlength : (privateFriends.map fun friend => (friend, row.pid)).length =
        par.soFriendsNum.toNat := by rw [List.length_map, hfriends]
    rw [hreached] at hrows
    subst hrows
    unfold Correct Right
    rw [if_pos hk]
    by_cases hfirst : s.handled = 0
    · simp only [hfirst, Nat.add_zero] at hrow hslot ⊢
      obtain ⟨hrows, hall⟩ := created_first hrow
      exact ⟨fun _ => ⟨fun _ => hfits, Or.inl trivial⟩,
        fun _ => ⟨_, rfl, hslot, hrows, hlength, hall⟩⟩
    · have hiff := created_later h (by omega) hfresh hfriends hslot hrow
      constructor
      · rintro ⟨announcements, hr, -, hrows, -, hall⟩
        cases hr
        obtain ⟨hclean, hnone⟩ := hiff.mp ⟨hrows, hall⟩
        exact ⟨fun _ => hfits, Or.inr ⟨hclean, Or.inr hnone⟩⟩
      · rintro ⟨-, hzero | ⟨hclean, hover | hnone⟩⟩
        · exact absurd hzero hfirst
        · omega
        · obtain ⟨hrows, hall⟩ := hiff.mpr ⟨hclean, hnone⟩
          exact ⟨_, rfl, hslot, hrows, hlength, hall⟩

/-- The first extra node is announced to node 11 under its own pid. -/
theorem first_correct : ∃ s', launch.handle small (hopped 31) = some (s', .created [(11, 31)]) ∧
    Correct small (hopped 31) launch s' (.created [(11, 31)]) := by
  have hstart : (machine small).Reachable launch := Machine.Reach.of_start launch_initial
  exact ⟨_, rfl, (extra_node_correct_iff small hstart rfl).mpr
    ⟨fun _ => of_decide_eq_true rfl, Or.inl rfl⟩⟩

def earning : List Label := [.hopped (hopped 31), .write 2 ⟨31, 50, 0, .available⟩]

theorem second_run : ∃ s s', (machine small).run launch earning = some s ∧ s.handled = 1 ∧
    s.handle small (hopped 32) = some (s', .created [(11, 31)]) ∧
    s.nodesPID[2]? = some ⟨31, 50, 0, .available⟩ ∧
    s'.nodesPID[2]? = some ⟨31, 0, 0, .available⟩ :=
  ⟨_, _, rfl, rfl, rfl, rfl, rfl⟩

/-- And again before the one that is refused. -/
theorem third_run : ∃ s s',
    (machine small).run launch (earning ++ .hopped (hopped 32) :: earning.drop 1) = some s ∧
    s.handled = 2 ∧ s.handle small (hopped 33) = some (s', .refused) ∧
    s.nodesPID[2]? = some ⟨31, 50, 0, .available⟩ ∧
    s'.nodesPID[2]? = some ⟨31, 0, 0, .available⟩ :=
  ⟨_, _, rfl, rfl, rfl, rfl, rfl⟩

/-- The second transaction announces the node of the first, and the third, which is
refused, takes away what that node has earned. -/
theorem later_incorrect :
    (∃ s s' r, (machine small).Reachable s ∧ s.handled = 1 ∧
      s.handle small (hopped 32) = some (s', r) ∧ ¬ Correct small (hopped 32) s s' r) ∧
    (∃ s s' r, (machine small).Reachable s ∧ s.handled = 2 ∧
      s.handle small (hopped 33) = some (s', r) ∧ ¬ Correct small (hopped 33) s s' r) ∧
    ¬ ∀ par s s' o r, (machine par).Reachable s → s.handle par o = some (s', r) →
      Correct par o s s' r := by
  obtain ⟨s, s', hrun, hone, hhandle, -, -⟩ := second_run
  obtain ⟨t, t', hrun', htwo, hhandle', hbefore, hafter⟩ := third_run
  have hs := Machine.reachable_of_run _ launch_initial hrun
  have hsecond : ¬ Correct small (hopped 32) s s' (.created [(11, 31)]) := by
    unfold Correct
    rw [hone, if_pos (by decide)]
    rintro ⟨announcements, hr, -, -, -, hall⟩
    cases hr
    exact absurd (hall (11, 31) (List.mem_singleton_self _)) (by decide)
  have hthird : ¬ Correct small (hopped 33) t t' .refused := by
    unfold Correct
    rw [htwo, if_neg (by decide)]
    rintro ⟨-, hrows⟩
    rw [hrows, hbefore] at hafter
    exact absurd hafter (by decide)
  exact ⟨⟨s, s', _, hs, hone, hhandle, hsecond⟩,
    ⟨t, t', _, Machine.reachable_of_run _ launch_initial hrun', htwo, hhandle', hthird⟩,
    fun hall => hsecond (hall small s s' _ _ hs hhandle)⟩

end Examples

end SimulazioneTransazioni.ExtraNodes

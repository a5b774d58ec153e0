import SimulazioneTransazioni.Nodes

/-!
The functions of master.c that make nodes and friends, and the child of the
master that waits for transactions that have hopped too much. The child keeps
the value SO_NODES_NUM that the master's loop left in nCounter, so that this is
the row it prepares and announces each time. The message it receives stays in
transHopped, which nothing reads.
-/
namespace SimulazioneTransazioni.Master

open Nodes (ForkResult)

/-- The loop of make_friend_list from the round with toIterate nodes to go and
toFind friends to find; rand gives the draw of each round. -/
def pickIndexes (rand : ℕ → ℕ) (numNodes : ℕ) : (toIterate toFind : ℕ) → List ℕ
  | 0, _ => []
  | toIterate + 1, toFind =>
    let iNodes := numNodes - (toIterate + 1)
    if toFind = 0 then []
    else if rand iNodes % (toIterate + 1) < toFind then
      iNodes :: pickIndexes rand numNodes toIterate (toFind - 1)
    else pickIndexes rand numNodes toIterate toFind

/-- An index that the loop has not written is indeterminate. -/
def makeFriendList (par : Parameters) (rand : ℕ → ℕ) (nodesPID : List Node) :
    Option (List PidT) :=
  let numNodes := par.soNodesNum.toNat
  let numFriends := par.soFriendsNum.toNat
  let friendsIndexes := pickIndexes rand numNodes numNodes numFriends
  if friendsIndexes.length < numFriends then none
  else friendsIndexes.mapM fun i => nodesPID[i]?.map Node.pid

/-- What spawn_node returns, and overBuf and nodesPID after it. -/
structure Spawned where
  nodePID : PidT
  overBuf : UInt32
  nodesPID : List Node

/-- The caller's side of spawn_node; nCounter is none for -1. The fork comes
first, also when the capacity is reached and ERROR is returned. -/
def spawnNode (par : Parameters) (fork : ForkResult) (nCounter : Option ℕ) (overBuf : UInt32)
    (nodesPID : List Node) : Spawned :=
  let overBuf := if overBuf = 0 then par.soNodesNum else overBuf
  if par.soNodesNum * 2 ≤ overBuf then ⟨-1, overBuf, nodesPID⟩
  else
    let row := nCounter.getD overBuf.toNat
    let overBuf := if nCounter = none then overBuf + 1 else overBuf
    match fork with
    | .failed _ => ⟨-1, overBuf, nodesPID⟩
    | .parent nodePID =>
      ⟨nodePID, overBuf, nodesPID.modify row fun r => { r with pid := nodePID }⟩

def reached (par : Parameters) (overBuf : UInt32) : UInt32 :=
  if overBuf = 0 then par.soNodesNum else overBuf

def prepareRow (par : Parameters) (nodesPID : List Node) : List Node :=
  nodesPID.modify par.soNodesNum.toNat fun row =>
    { row with status := .available, balance := 0 }

/-- The next step of the child's loop. In sendFriends and announce the list
holds the friends still to serve. -/
inductive ListenerPc
  | receive
  | spawn
  | makeFriends (node : PidT)
  | findQueue (node : PidT) (friends : List PidT)
  | sendFriends (nodeQueue : Int32) (friends : List PidT)
  | makePrivate
  | announce (privateFriends : List PidT)
  | exited
deriving DecidableEq

structure Listener where
  errno : Errno
  overBuf : UInt32
  transHopped : Message
  newNode : PidT
  pc : ListenerPc

namespace Listener

def goto (p : Listener) (pc : ListenerPc) : Listener := { p with pc := pc }

def withErrno (p : Listener) (errno : Errno) : Listener := { p with errno := errno }

/-- After the receive, whose return code is not looked at. -/
def received (p : Listener) (result : MsgrcvResult Message) : Listener :=
  let r := receiveMessage p.errno result p.transHopped
  { p with errno := r.2.1, transHopped := r.2.2, pc := .spawn }

def spawned (p : Listener) (s : Spawned) : Listener :=
  { p with
    overBuf := s.overBuf
    pc := if s.nodePID = -1 then .exited else .makeFriends s.nodePID }

def prepared (par : Parameters) (p : Listener) (nodesPID : List Node) (friends : List PidT) :
    Option Listener :=
  nodesPID[par.soNodesNum.toNat]?.map fun row =>
    { p with newNode := row.pid, pc := .announce friends }

end Listener

section Friends

theorem mem_of_mapM {α β : Type} {f : α → Option β} {l : List α} {r : List β}
    (h : l.mapM f = some r) {b : β} (hb : b ∈ r) : ∃ a ∈ l, f a = some b := by
  induction l generalizing r with
  | nil =>
    rw [List.mapM_nil] at h
    cases h
    exact absurd hb List.not_mem_nil
  | cons a rest ih =>
    rw [List.mapM_cons] at h
    obtain ⟨b', hb', hrest⟩ := Option.bind_eq_some_iff.mp h
    obtain ⟨r', hr', heq⟩ := Option.bind_eq_some_iff.mp hrest
    cases heq
    rcases List.mem_cons.mp hb with rfl | hmem
    · exact ⟨a, List.mem_cons_self .., hb'⟩
    · obtain ⟨a', ha', hfa'⟩ := ih hr' hmem
      exact ⟨a', List.mem_cons_of_mem _ ha', hfa'⟩

theorem length_of_mapM {α β : Type} {f : α → Option β} {l : List α} {r : List β}
    (h : l.mapM f = some r) : r.length = l.length := by
  induction l generalizing r with
  | nil =>
    rw [List.mapM_nil] at h
    cases h
    rfl
  | cons a rest ih =>
    rw [List.mapM_cons] at h
    obtain ⟨b, -, hrest⟩ := Option.bind_eq_some_iff.mp h
    obtain ⟨r', hr', heq⟩ := Option.bind_eq_some_iff.mp hrest
    cases heq
    rw [List.length_cons, List.length_cons, ih hr']

theorem exists_mapM {α β : Type} {f : α → Option β} {l : List α}
    (h : ∀ a ∈ l, ∃ b, f a = some b) : ∃ r, l.mapM f = some r ∧ r.map some = l.map f := by
  induction l with
  | nil => exact ⟨[], rfl, rfl⟩
  | cons a rest ih =>
    obtain ⟨b, hb⟩ := h a List.mem_cons_self
    obtain ⟨r, hr, hmap⟩ := ih fun a' ha' => h a' (List.mem_cons_of_mem a ha')
    refine ⟨b :: r, ?_, ?_⟩
    · rw [List.mapM_cons, hb, hr]
      rfl
    · rw [List.map_cons, List.map_cons, hb, hmap]

theorem length_pickIndexes_le (rand : ℕ → ℕ) (numNodes toIterate toFind : ℕ) :
    (pickIndexes rand numNodes toIterate toFind).length ≤ toFind := by
  induction toIterate generalizing toFind with
  | zero => exact Nat.zero_le _
  | succ toIterate ih =>
    simp only [pickIndexes]
    split
    · exact Nat.zero_le _
    · split
      · rw [List.length_cons]
        have hle := ih (toFind - 1)
        omega
      · apply ih

theorem length_makeFriendList {par : Parameters} {rand : ℕ → ℕ} {nodesPID : List Node}
    {friends : List PidT} (h : makeFriendList par rand nodesPID = some friends) :
    friends.length = par.soFriendsNum.toNat := by
  unfold makeFriendList at h
  dsimp only at h
  split at h
  · contradiction
  next hfound =>
    have hle := length_pickIndexes_le rand par.soNodesNum.toNat par.soNodesNum.toNat
      par.soFriendsNum.toNat
    rw [length_of_mapM h]
    omega

/-- Every friend is in the table. -/
theorem mem_makeFriendList {par : Parameters} {rand : ℕ → ℕ} {nodesPID : List Node}
    {friends : List PidT} (h : makeFriendList par rand nodesPID = some friends) {friend : PidT}
    (hfriend : friend ∈ friends) : friend ∈ nodesPID.map Node.pid := by
  unfold makeFriendList at h
  dsimp only at h
  split at h
  · contradiction
  · obtain ⟨i, -, hi⟩ := mem_of_mapM h hfriend
    obtain ⟨row, hrow, rfl⟩ := Option.map_eq_some_iff.mp hi
    exact List.mem_map_of_mem (List.mem_of_getElem? hrow)

end Friends

section Spawn

variable {par : Parameters} {fork : ForkResult} {nCounter : Option ℕ} {overBuf : UInt32}
  {nodesPID : List Node}

theorem spawnNode_full (h : par.soNodesNum * 2 ≤ reached par overBuf) :
    spawnNode par fork nCounter overBuf nodesPID = ⟨-1, reached par overBuf, nodesPID⟩ :=
  if_pos h

theorem spawnNode_parent (h : ¬ par.soNodesNum * 2 ≤ reached par overBuf) (nodePID : PidT) :
    spawnNode par (.parent nodePID) nCounter overBuf nodesPID =
      ⟨nodePID, if nCounter = none then reached par overBuf + 1 else reached par overBuf,
        nodesPID.modify (nCounter.getD (reached par overBuf).toNat)
          fun row => { row with pid := nodePID }⟩ :=
  if_neg h

theorem spawnNode_failed (h : ¬ par.soNodesNum * 2 ≤ reached par overBuf) (e : Errno) :
    spawnNode par (.failed e) nCounter overBuf nodesPID =
      ⟨-1, if nCounter = none then reached par overBuf + 1 else reached par overBuf,
        nodesPID⟩ :=
  if_neg h

theorem reached_reached (par : Parameters) (overBuf : UInt32) :
    reached par (reached par overBuf) = reached par overBuf := by
  by_cases h : overBuf = 0
  · rw [reached, h, reached, if_pos rfl, ite_self]
  · have hreached : reached par overBuf = overBuf := if_neg h
    rw [hreached, hreached]

/-- While there is capacity the counter does not wrap. -/
theorem reached_succ (h : ¬ par.soNodesNum * 2 ≤ reached par overBuf) :
    (reached par (reached par overBuf + 1)).toNat = (reached par overBuf).toNat + 1 := by
  have hlt : (reached par overBuf).toNat < (par.soNodesNum * 2).toNat := by
    rw [UInt32.not_le, UInt32.lt_iff_toNat_lt] at h
    exact h
  have hbound := (par.soNodesNum * 2).toNat_lt
  have hsucc : (reached par overBuf + 1).toNat = (reached par overBuf).toNat + 1 := by
    rw [UInt32.toNat_add, UInt32.toNat_one]
    omega
  have hne : ¬ reached par overBuf + 1 = 0 := by
    intro hzero
    rw [hzero, UInt32.toNat_zero] at hsucc
    omega
  rw [reached, if_neg hne, hsucc]

end Spawn
end SimulazioneTransazioni.Master

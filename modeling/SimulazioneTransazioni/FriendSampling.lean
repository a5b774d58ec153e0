import SimulazioneTransazioni.Master
import Mathlib.Data.Bool.AllAny

/-!
The choice of the friends in make_friend_list, a selection sampling. The loop runs on
ints, with one call of rand for each node it comes to. It never has fewer nodes to go
than friends to find, so that it ends with all of them, in ascending order; and each
choice in ascending order is the outcome of some sequence of draws.
-/
namespace SimulazioneTransazioni.FriendSampling

open Master MachineInt

def numNodes (par : Parameters) : Int32 := intOfUnsigned par.soNodesNum

def numFriends (par : Parameters) : Int32 := intOfUnsigned par.soFriendsNum

/-- The variables of the loop; friendsIndexes holds the entries written so far. -/
structure Picked where
  iFriends : Int32
  iNodes : Int32
  friendsIndexes : List Int32

def round (par : Parameters) (draw : Int32) (s : Picked) : Picked :=
  let toIterate := numNodes par - s.iNodes
  let toFind := numFriends par - s.iFriends
  if draw % toIterate < toFind then
    { iFriends := s.iFriends + 1
      iNodes := s.iNodes + 1
      friendsIndexes := s.friendsIndexes ++ [s.iNodes] }
  else { s with iNodes := s.iNodes + 1 }

def loop (par : Parameters) (rand : ℕ → Int32) : ℕ → Picked → Option Picked
  | 0, _ => none
  | n + 1, s =>
    if s.iFriends < numFriends par ∧ s.iNodes < numNodes par then
      loop par rand n (round par (rand s.iNodes.toInt.toNat) s)
    else some s

def friendsIndexes (par : Parameters) (rand : ℕ → Int32) : Option (List Int32) :=
  (loop par rand ((numNodes par).toInt.toNat + 1) ⟨0, 0, []⟩).map Picked.friendsIndexes

structure Sampled (par : Parameters) (indexes : List Int32) : Prop where
  length : (indexes.length : ℤ) = (numFriends par).toInt
  sorted : indexes.Pairwise (· < ·)
  bounds : ∀ i ∈ indexes, 0 ≤ i ∧ i < numNodes par

section Selection

variable {rand : ℕ → ℕ} {n toIterate toFind : ℕ}

/-- The quota is met: a round that passes its node leaves enough nodes. -/
theorem length_pickIndexes (h : toFind ≤ toIterate) :
    (pickIndexes rand n toIterate toFind).length = toFind := by
  induction toIterate generalizing toFind with
  | zero =>
    rw [pickIndexes]
    exact (Nat.le_zero.mp h).symm
  | succ toIterate ih =>
    simp only [pickIndexes]
    by_cases hzero : toFind = 0
    · rw [if_pos hzero, hzero]
      rfl
    · rw [if_neg hzero]
      have hmod : rand (n - (toIterate + 1)) % (toIterate + 1) < toIterate + 1 :=
        Nat.mod_lt _ (Nat.succ_pos _)
      by_cases hdraw : rand (n - (toIterate + 1)) % (toIterate + 1) < toFind
      · rw [if_pos hdraw, List.length_cons, ih (by omega)]
        omega
      · rw [if_neg hdraw]
        exact ih (by omega)

theorem mem_pickIndexes {i : ℕ} (hle : toIterate ≤ n)
    (hi : i ∈ pickIndexes rand n toIterate toFind) : n - toIterate ≤ i ∧ i < n := by
  induction toIterate generalizing toFind with
  | zero =>
    rw [pickIndexes] at hi
    exact absurd hi List.not_mem_nil
  | succ toIterate ih =>
    simp only [pickIndexes] at hi
    split at hi
    · exact absurd hi List.not_mem_nil
    · split at hi
      · rcases List.mem_cons.mp hi with hhead | hrest
        · omega
        · have hbounds := ih (by omega) hrest
          omega
      · have hbounds := ih (by omega) hi
        omega

theorem pickIndexes_sorted (hle : toIterate ≤ n) :
    (pickIndexes rand n toIterate toFind).Pairwise (· < ·) := by
  induction toIterate generalizing toFind with
  | zero => exact List.Pairwise.nil
  | succ toIterate ih =>
    simp only [pickIndexes]
    split
    · exact List.Pairwise.nil
    · split
      · apply List.Pairwise.cons
        · intro i hi
          have hbounds := mem_pickIndexes (by omega) hi
          omega
        · exact ih (by omega)
      · exact ih (by omega)

/-- There are no more indexes than places for them. -/
theorem length_le_of_sorted {l : List ℕ} {lo hi : ℕ} (hsorted : l.Pairwise (· < ·))
    (hbounds : ∀ i ∈ l, lo ≤ i ∧ i < hi) : l.length ≤ hi - lo := by
  induction l generalizing lo with
  | nil => exact Nat.zero_le _
  | cons i rest ih =>
    obtain ⟨hhead, hrest⟩ := List.pairwise_cons.mp hsorted
    have hi' := hbounds i List.mem_cons_self
    have hlength : rest.length ≤ hi - (i + 1) := by
      apply ih hrest
      intro j hj
      exact ⟨hhead j hj, (hbounds j (List.mem_cons_of_mem i hj)).2⟩
    rw [List.length_cons]
    omega

/-- The draws for a choice: the least one at a node that is chosen, and the greatest
remainder at one that is not. -/
def drawFor (n : ℕ) (chosen : List ℕ) (i : ℕ) : ℕ := if i ∈ chosen then 0 else n - i - 1

theorem pickIndexes_taken (hfind : toFind ≠ 0)
    (h : rand (n - (toIterate + 1)) % (toIterate + 1) < toFind) :
    pickIndexes rand n (toIterate + 1) toFind =
      (n - (toIterate + 1)) :: pickIndexes rand n toIterate (toFind - 1) := by
  rw [pickIndexes, if_neg hfind, if_pos h]

theorem pickIndexes_passed
    (h : ¬ rand (n - (toIterate + 1)) % (toIterate + 1) < toFind) :
    pickIndexes rand n (toIterate + 1) toFind = pickIndexes rand n toIterate toFind := by
  have hmod : rand (n - (toIterate + 1)) % (toIterate + 1) < toIterate + 1 :=
    Nat.mod_lt _ (Nat.succ_pos _)
  by_cases hzero : toFind = 0
  · rw [hzero]
    cases toIterate <;> rfl
  · rw [pickIndexes, if_neg hzero, if_neg h]

theorem drawFor_taken {chosen : List ℕ} {i : ℕ} (h : i ∈ chosen) (m : ℕ) (hfind : toFind ≠ 0) :
    drawFor n chosen i % m < toFind := by
  rw [drawFor, if_pos h, Nat.zero_mod]
  exact Nat.pos_of_ne_zero hfind

theorem drawFor_passed {chosen : List ℕ} (hle : toIterate + 1 ≤ n)
    (h : n - (toIterate + 1) ∉ chosen) (hfind : toFind ≤ toIterate) :
    ¬ drawFor n chosen (n - (toIterate + 1)) % (toIterate + 1) < toFind := by
  have hdraw : n - (n - (toIterate + 1)) - 1 = toIterate := by omega
  rw [drawFor, if_neg h, hdraw, Nat.mod_eq_of_lt (Nat.lt_succ_self _)]
  omega

/-- A lower bound that is in a sorted list is its head. -/
theorem eq_head_of_mem {lo i : ℕ} {rest : List ℕ} (hhead : ∀ j ∈ rest, i < j) (hle : lo ≤ i)
    (hin : lo ∈ i :: rest) : lo = i := by
  rcases List.mem_cons.mp hin with hhere | hthere
  · exact hhere
  · have hlt := hhead lo hthere
    omega

/-- From each round on, the draws yield what is left of the choice. -/
theorem pickIndexes_drawFor {chosen l : List ℕ} (hle : toIterate ≤ n)
    (hsorted : l.Pairwise (· < ·)) (hbounds : ∀ i ∈ l, n - toIterate ≤ i ∧ i < n)
    (hchosen : ∀ i, n - toIterate ≤ i → (i ∈ chosen ↔ i ∈ l)) :
    pickIndexes (drawFor n chosen) n toIterate l.length = l := by
  induction toIterate generalizing l with
  | zero =>
    have hempty := length_le_of_sorted hsorted hbounds
    exact (List.eq_nil_of_length_eq_zero (by omega)).symm
  | succ toIterate ih =>
    have hround := hchosen (n - (toIterate + 1)) le_rfl
    by_cases hin : n - (toIterate + 1) ∈ l
    · cases l with
      | nil => exact absurd hin List.not_mem_nil
      | cons i rest =>
        obtain ⟨hhead, hrest⟩ := List.pairwise_cons.mp hsorted
        have heq := eq_head_of_mem hhead (hbounds i List.mem_cons_self).1 hin
        have hfind : (i :: rest).length ≠ 0 := Nat.succ_ne_zero _
        rw [pickIndexes_taken hfind (drawFor_taken (hround.mpr hin) _ hfind), heq,
          List.length_cons, Nat.add_sub_cancel]
        congr 1
        apply ih (by omega) hrest
        · intro j hj
          have hlt := hhead j hj
          have hbound := hbounds j (List.mem_cons_of_mem i hj)
          omega
        · intro j hj
          have hne : j ≠ i := by omega
          rw [hchosen j (by omega), List.mem_cons, or_iff_right hne]
    · have hlater : ∀ j ∈ l, n - toIterate ≤ j ∧ j < n := by
        intro j hj
        have hbound := hbounds j hj
        have hne : j ≠ n - (toIterate + 1) := fun heq => hin (heq ▸ hj)
        omega
      have hlength := length_le_of_sorted hsorted hlater
      rw [pickIndexes_passed (drawFor_passed hle (mt hround.mp hin) (by omega))]
      exact ih (by omega) hsorted hlater fun j hj => hchosen j (by omega)

end Selection

section Loop

variable {par : Parameters} {rand : ℕ → Int32}

def draws (rand : ℕ → Int32) (k : ℕ) : ℕ := (rand k).toInt.toNat

theorem toInt_sub_int {a b : Int32} (hb : 0 ≤ b.toInt) (hle : b.toInt ≤ a.toInt) :
    (a - b).toInt = a.toInt - b.toInt := by
  have ha := a.toInt_lt
  rw [Int32.toInt_sub]
  exact Int.bmod_eq_of_le (by omega) (by omega)

theorem toInt_succ_int {a b : Int32} (ha : 0 ≤ a.toInt) (hlt : a.toInt < b.toInt) :
    (a + 1).toInt = a.toInt + 1 := by
  have hb := b.toInt_lt
  rw [Int32.toInt_add]
  exact Int.bmod_eq_of_le (by rw [Int32.toInt_one]; omega) (by rw [Int32.toInt_one]; omega)

structure ToGo (par : Parameters) (s : Picked) (t f : ℕ) : Prop where
  nodes_nonneg : 0 ≤ s.iNodes.toInt
  nodes : (numNodes par).toInt = s.iNodes.toInt + t
  friends_nonneg : 0 ≤ s.iFriends.toInt
  friends : (numFriends par).toInt = s.iFriends.toInt + f

section ToGo

variable {s : Picked} {t f n : ℕ}

theorem ToGo.goes_iff (h : ToGo par s t f) :
    (s.iFriends < numFriends par ∧ s.iNodes < numNodes par) ↔ f ≠ 0 ∧ t ≠ 0 := by
  have hnodes := h.nodes
  have hfriends := h.friends
  rw [Int32.lt_iff_toInt_lt, Int32.lt_iff_toInt_lt]
  omega

theorem ToGo.iNodes (h : ToGo par s (t + 1) f) :
    s.iNodes.toInt.toNat = (numNodes par).toInt.toNat - (t + 1) := by
  have hnonneg := h.nodes_nonneg
  have hnodes := h.nodes
  omega

theorem ToGo.index (h : ToGo par s (t + 1) f) :
    Int32.ofNat ((numNodes par).toInt.toNat - (t + 1)) = s.iNodes := by
  rw [← h.iNodes]
  exact Int32.ofNat_toNatClampNeg _ (Int32.le_iff_toInt_le.mpr h.nodes_nonneg)

theorem ToGo.succ_iNodes (h : ToGo par s (t + 1) f) :
    (s.iNodes + 1).toInt = s.iNodes.toInt + 1 := by
  have hnodes := h.nodes
  exact toInt_succ_int (b := numNodes par) h.nodes_nonneg (by omega)

/-- The node of the round is passed. -/
theorem ToGo.pass (h : ToGo par s (t + 1) f) :
    ToGo par ⟨s.iFriends, s.iNodes + 1, s.friendsIndexes⟩ t f := by
  have hsucc := h.succ_iNodes
  have hnonneg := h.nodes_nonneg
  have hnodes := h.nodes
  refine ⟨?_, ?_, h.friends_nonneg, h.friends⟩
  · rw [hsucc]
    omega
  · rw [hsucc]
    omega

/-- It is picked. -/
theorem ToGo.pick (h : ToGo par s (t + 1) (f + 1)) :
    ToGo par ⟨s.iFriends + 1, s.iNodes + 1, s.friendsIndexes ++ [s.iNodes]⟩ t f := by
  have hnonneg := h.friends_nonneg
  have hfriends := h.friends
  have hsucc : (s.iFriends + 1).toInt = s.iFriends.toInt + 1 :=
    toInt_succ_int (b := numFriends par) hnonneg (by omega)
  refine ⟨h.pass.nodes_nonneg, h.pass.nodes, ?_, ?_⟩
  · rw [hsucc]
    omega
  · rw [hsucc]
    omega

/-- The test of a round, in the naturals. -/
theorem ToGo.taken_iff (h : ToGo par s (t + 1) f) (hrand : ∀ k, 0 ≤ rand k) :
    rand s.iNodes.toInt.toNat % (numNodes par - s.iNodes) < numFriends par - s.iFriends ↔
      draws rand ((numNodes par).toInt.toNat - (t + 1)) % (t + 1) < f := by
  have hpos : 0 ≤ (rand s.iNodes.toInt.toNat).toInt := Int32.le_iff_toInt_le.mp (hrand _)
  have hcast : (draws rand s.iNodes.toInt.toNat : ℤ) = (rand s.iNodes.toInt.toNat).toInt :=
    Int.toNat_of_nonneg hpos
  have hnodes := h.nodes
  have hfriends := h.friends
  have hiterate : (numNodes par - s.iNodes).toInt = (t + 1 : ℕ) := by
    rw [toInt_sub_int h.nodes_nonneg (by omega)]
    omega
  have hfind : (numFriends par - s.iFriends).toInt = f := by
    rw [toInt_sub_int h.friends_nonneg (by omega)]
    omega
  rw [Int32.lt_iff_toInt_lt, Int32.toInt_mod, hiterate, hfind, Int.tmod_eq_emod_of_nonneg hpos,
    ← hcast, h.iNodes]
  exact_mod_cast Iff.rfl

/-- The loop stops when a bound is reached. -/
theorem loop_stops (h : ¬ (s.iFriends < numFriends par ∧ s.iNodes < numNodes par)) :
    loop par rand (n + 1) s = some s := by
  rw [loop, if_neg h]

/-- The loop writes the entries that pickIndexes lists. -/
theorem loop_eq (hrand : ∀ k, 0 ≤ rand k) (h : ToGo par s t f) (hfuel : t ≤ n) :
    (loop par rand (n + 1) s).map Picked.friendsIndexes = some (s.friendsIndexes ++
      (pickIndexes (draws rand) (numNodes par).toInt.toNat t f).map Int32.ofNat) := by
  induction t generalizing f n s with
  | zero =>
    rw [loop_stops fun hgoes => (h.goes_iff.mp hgoes).2 rfl]
    exact congrArg some (List.append_nil _).symm
  | succ t ih =>
    cases f with
    | zero =>
      rw [loop_stops fun hgoes => (h.goes_iff.mp hgoes).1 rfl]
      exact congrArg some (List.append_nil _).symm
    | succ f =>
      obtain ⟨n, rfl⟩ := Nat.exists_eq_add_of_le' (show 1 ≤ n by omega)
      have hfuel' : t ≤ n := by omega
      have hzero : f + 1 ≠ 0 := Nat.succ_ne_zero f
      rw [loop, if_pos (h.goes_iff.mpr ⟨hzero, Nat.succ_ne_zero t⟩)]
      have htaken := h.taken_iff hrand
      by_cases hdraw : rand s.iNodes.toInt.toNat % (numNodes par - s.iNodes) <
          numFriends par - s.iFriends
      · rw [round, if_pos hdraw, ih h.pick hfuel', pickIndexes_taken hzero (htaken.mp hdraw),
          List.map_cons, h.index, List.append_assoc, List.singleton_append, Nat.add_sub_cancel]
      · rw [round, if_neg hdraw, ih h.pass hfuel',
          pickIndexes_passed fun hmod => hdraw (htaken.mpr hmod)]

end ToGo

theorem friendsIndexes_eq (hrand : ∀ k, 0 ≤ rand k) (hpos : 0 ≤ numFriends par)
    (hle : numFriends par ≤ numNodes par) :
    friendsIndexes par rand = some ((pickIndexes (draws rand) (numNodes par).toInt.toNat
      (numNodes par).toInt.toNat (numFriends par).toInt.toNat).map Int32.ofNat) := by
  have hfriends : 0 ≤ (numFriends par).toInt := Int32.le_iff_toInt_le.mp hpos
  have hnodes : 0 ≤ (numNodes par).toInt :=
    hfriends.trans (Int32.le_iff_toInt_le.mp hle)
  have ht : (numNodes par).toInt = (0 : Int32).toInt + (numNodes par).toInt.toNat := by
    rw [Int32.toInt_zero]
    omega
  have hf : (numFriends par).toInt = (0 : Int32).toInt + (numFriends par).toInt.toNat := by
    rw [Int32.toInt_zero]
    omega
  have hstart : ToGo par ⟨0, 0, []⟩ (numNodes par).toInt.toNat (numFriends par).toInt.toNat :=
    ⟨le_rfl, ht, le_rfl, hf⟩
  exact loop_eq hrand hstart le_rfl

/-- Selection sampling ends with SO_FRIENDS_NUM different rows, whatever the draws. -/
theorem sampled_pickIndexes (hpos : 0 ≤ numFriends par) (hle : numFriends par ≤ numNodes par)
    (rand : ℕ → ℕ) :
    Sampled par ((pickIndexes rand (numNodes par).toInt.toNat (numNodes par).toInt.toNat
      (numFriends par).toInt.toNat).map Int32.ofNat) := by
  have hfriends : 0 ≤ (numFriends par).toInt := Int32.le_iff_toInt_le.mp hpos
  have hle' := Int32.le_iff_toInt_le.mp hle
  have hlt := (numNodes par).toInt_lt
  have hindex : ∀ i ∈ pickIndexes rand (numNodes par).toInt.toNat (numNodes par).toInt.toNat
      (numFriends par).toInt.toNat, (Int32.ofNat i).toInt = i ∧ (i : ℤ) < (numNodes par).toInt := by
    intro i hi
    have hbounds := mem_pickIndexes le_rfl hi
    exact ⟨Int32.toInt_ofNat_of_lt (by omega), by omega⟩
  refine ⟨?_, ?_, ?_⟩
  · rw [List.length_map, length_pickIndexes (by omega)]
    omega
  · rw [List.pairwise_map]
    refine (pickIndexes_sorted le_rfl).imp_of_mem ?_
    intro i j hi hj hij
    rw [Int32.lt_iff_toInt_lt, (hindex i hi).1, (hindex j hj).1]
    exact_mod_cast hij
  · intro index hin
    obtain ⟨i, hi, rfl⟩ := List.mem_map.mp hin
    rw [Int32.le_iff_toInt_le, Int32.lt_iff_toInt_lt, (hindex i hi).1, Int32.toInt_zero]
    exact ⟨by omega, (hindex i hi).2⟩

theorem drawFor_le (n : ℕ) (chosen : List ℕ) (k : ℕ) : drawFor n chosen k ≤ n := by
  unfold drawFor
  split
  · exact Nat.zero_le n
  · omega

/-- The indexes chosen as naturals come out of the draws for them. -/
theorem pickIndexes_chosen {indexes : List Int32} (h : Sampled par indexes) :
    pickIndexes (drawFor (numNodes par).toInt.toNat (indexes.map fun index => index.toInt.toNat))
      (numNodes par).toInt.toNat (numNodes par).toInt.toNat indexes.length =
        indexes.map fun index => index.toInt.toNat := by
  have hbounds : ∀ index ∈ indexes, 0 ≤ index.toInt ∧ index.toInt < (numNodes par).toInt := by
    intro index hin
    obtain ⟨hzero, hnode⟩ := h.bounds index hin
    exact ⟨Int32.le_iff_toInt_le.mp hzero, Int32.lt_iff_toInt_lt.mp hnode⟩
  rw [← List.length_map (fun index : Int32 => index.toInt.toNat)]
  apply pickIndexes_drawFor le_rfl
  · rw [List.pairwise_map]
    refine h.sorted.imp_of_mem ?_
    intro i j hi hj hij
    have hij' := Int32.lt_iff_toInt_lt.mp hij
    have hi' := hbounds i hi
    omega
  · intro i hi
    obtain ⟨index, hin, rfl⟩ := List.mem_map.mp hi
    have hindex := hbounds index hin
    omega
  · exact fun _ _ => Iff.rfl

/-- Each choice has its draws. -/
theorem exists_draws {indexes : List Int32} (h : Sampled par indexes)
    (hpos : 0 ≤ numFriends par) (hle : numFriends par ≤ numNodes par) :
    ∃ rand : ℕ → Int32, (∀ k, 0 ≤ rand k) ∧ friendsIndexes par rand = some indexes := by
  let draw := drawFor (numNodes par).toInt.toNat (indexes.map fun index => index.toInt.toNat)
  have hdraw : ∀ k, (Int32.ofNat (draw k)).toInt = draw k := by
    intro k
    have hlt := (numNodes par).toInt_lt
    have hle : draw k ≤ (numNodes par).toInt.toNat := drawFor_le _ _ k
    exact Int32.toInt_ofNat_of_lt (by omega)
  have hrand : ∀ k, 0 ≤ Int32.ofNat (draw k) := by
    intro k
    rw [Int32.le_iff_toInt_le, hdraw, Int32.toInt_zero]
    omega
  have hdraws : draws (fun k => Int32.ofNat (draw k)) = draw := by
    funext k
    rw [draws, hdraw]
    rfl
  have hlength : (numFriends par).toInt.toNat = indexes.length := by
    have hcount := h.length
    omega
  refine ⟨fun k => Int32.ofNat (draw k), hrand, ?_⟩
  rw [friendsIndexes_eq hrand hpos hle, hdraws, hlength, pickIndexes_chosen h, List.map_map]
  congr 1
  conv_rhs => rw [← List.map_id indexes]
  apply List.map_congr_left
  intro index hin
  exact Int32.ofNat_toNatClampNeg index (h.bounds index hin).1

/-- The rows at the indexes picked are read, in a table that has the rows of the nodes. -/
theorem makeFriendList_rows (nodesPID : List Node) (rand : ℕ → ℕ) {n k : ℕ}
    (hn : par.soNodesNum.toNat = n) (hk : par.soFriendsNum.toNat = k) (hle : k ≤ n)
    (hlength : n ≤ nodesPID.length) :
    ∃ friends, makeFriendList par rand nodesPID = some friends ∧
      friends.map some = (pickIndexes rand n n k).map fun i => nodesPID[i]?.map Node.pid := by
  have hpicked : ¬ (pickIndexes rand n n k).length < k := by
    rw [length_pickIndexes hle]
    exact lt_irrefl k
  unfold makeFriendList
  dsimp only
  rw [hn, hk, if_neg hpicked]
  apply exists_mapM
  intro i hi
  have hbounds := mem_pickIndexes le_rfl hi
  have hrow : i < nodesPID.length := by omega
  exact ⟨_, by rw [List.getElem?_eq_getElem hrow]; rfl⟩

/-- For every number of nodes and of friends, as ints, and all draws the loop ends with
SO_FRIENDS_NUM rows in ascending order, and every choice of rows has its draws. -/
theorem friends_sampled (par : Parameters) (hpos : 0 ≤ numFriends par)
    (hle : numFriends par ≤ numNodes par) :
    (∀ rand : ℕ → Int32, (∀ k, 0 ≤ rand k) → ∃ indexes, friendsIndexes par rand = some indexes ∧
      Sampled par indexes ∧ ∀ nodesPID : List Node, (numNodes par).toInt ≤ nodesPID.length →
        ∃ friends, makeFriendList par (draws rand) nodesPID = some friends ∧
          friends.map some = indexes.map fun i => nodesPID[i.toInt.toNat]?.map Node.pid) ∧
    ∀ indexes, Sampled par indexes →
      ∃ rand : ℕ → Int32, (∀ k, 0 ≤ rand k) ∧ friendsIndexes par rand = some indexes := by
  have hfriends : 0 ≤ (numFriends par).toInt := Int32.le_iff_toInt_le.mp hpos
  have hle' := Int32.le_iff_toInt_le.mp hle
  have hnodesNum := toInt_intOfUnsigned_of_nonneg par.soNodesNum (hfriends.trans hle')
  have hfriendsNum := toInt_intOfUnsigned_of_nonneg par.soFriendsNum hfriends
  refine ⟨fun rand hrand => ?_, fun indexes h => exists_draws h hpos hle⟩
  refine ⟨_, friendsIndexes_eq hrand hpos hle, sampled_pickIndexes hpos hle (draws rand), ?_⟩
  intro nodesPID hlength
  have hn : par.soNodesNum.toNat = (numNodes par).toInt.toNat := by
    rw [numNodes, hnodesNum]
    exact (Int.toNat_natCast _).symm
  have hk : par.soFriendsNum.toNat = (numFriends par).toInt.toNat := by
    rw [numFriends, hfriendsNum]
    exact (Int.toNat_natCast _).symm
  obtain ⟨friends, hmake, hrows⟩ :=
    makeFriendList_rows nodesPID (draws rand) hn hk (by omega) (by omega)
  refine ⟨friends, hmake, ?_⟩
  rw [hrows, List.map_map]
  apply List.map_congr_left
  intro i hi
  have hbounds := mem_pickIndexes le_rfl hi
  have hlt := (numNodes par).toInt_lt
  have hindex : (Int32.ofNat i).toInt = i := Int32.toInt_ofNat_of_lt (by omega)
  rw [Function.comp_apply, hindex, Int.toNat_natCast]

end Loop

/-- With the default numbers, ten nodes and three friends. -/
theorem friends_sampled_defaults : ∃ rand : ℕ → Int32, (∀ k, 0 ≤ rand k) ∧
    friendsIndexes assignDefaults rand = some [1, 4, 9] :=
  (friends_sampled assignDefaults (by decide) (by decide)).2 [1, 4, 9]
    ⟨by decide, by decide, List.all_iff_forall_prop.mp rfl⟩

end SimulazioneTransazioni.FriendSampling

import SimulazioneTransazioni.FriendSampling
import SimulazioneTransazioni.Draws
import Mathlib.Data.Set.Basic

/-!
The arrays of friends. Each is the number of bytes that its allocation asks for and what
is read at each index; a store takes effect also outside those bytes, and is recorded with
the size at the time. The node's array grows by one element with each new friend, while
send_to_random_friend draws its index below SO_FRIENDS_NUM.
-/
namespace SimulazioneTransazioni.FriendArrays

open MachineInt FriendSampling

structure Store where
  bytes : UInt64
  index : ℤ

def Store.within (s : Store) : Prop := 0 ≤ 4 * s.index ∧ 4 * s.index + 4 ≤ s.bytes.toNat

/-- The stores are not data of the C code. -/
structure PidArray where
  bytes : UInt64
  contents : ℤ → PidT
  stores : List Store

namespace PidArray

def malloc (bytes : UInt64) (indeterminate : ℤ → PidT) : PidArray := ⟨bytes, indeterminate, []⟩

def realloc (a : PidArray) (bytes : UInt64) : PidArray := { a with bytes := bytes }

def store (a : PidArray) (i : ℤ) (pid : PidT) : PidArray :=
  { a with
    contents := Function.update a.contents i pid
    stores := a.stores ++ [⟨a.bytes, i⟩] }

/-- The loops of fill_friendList and of make_friend_list from round i on. -/
def storeFrom (a : PidArray) (i : ℕ) : List PidT → PidArray
  | [] => a
  | pid :: rest => (a.store i pid).storeFrom (i + 1) rest

def Within (a : PidArray) : Prop := ∀ s ∈ a.stores, s.within

end PidArray

structure NodeFriends where
  friendList : PidArray
  friendListSize : Int32

abbrev Initial (par : Parameters) := List.Vector PidT par.soFriendsNum.toNat

/-- `malloc(par->SO_FRIENDS_NUM * sizeof(pid_t))` and fill_friendList. -/
def fillFriendList (par : Parameters) (indeterminate : ℤ → PidT) (initial : Initial par) :
    NodeFriends where
  friendList := (PidArray.malloc (par.soFriendsNum.toUInt64 * 4) indeterminate).storeFrom 0
    initial.toList
  friendListSize := intOfUnsigned par.soFriendsNum

def grow (s : NodeFriends) (friend : PidT) : NodeFriends where
  friendList := (s.friendList.realloc (unsignedLongOfInt s.friendListSize * 4 + 1)).store
    s.friendListSize.toInt friend
  friendListSize := s.friendListSize + 1

def grown (par : Parameters) (indeterminate : ℤ → PidT) (initial : Initial par)
    (received : List PidT) : NodeFriends :=
  received.foldl grow (fillFriendList par indeterminate initial)

abbrev Friends (par : Parameters) := List.Vector PidT (numFriends par).toInt.toNat

/-- The array of send_friend_list, `malloc(sizeof(pid_t) * par->SO_FRIENDS_NUM)`. -/
def sendFriendList (par : Parameters) (indeterminate : ℤ → PidT) (friends : Friends par) :
    PidArray :=
  (PidArray.malloc (4 * par.soFriendsNum.toUInt64) indeterminate).storeFrom 0 friends.toList

/-- The array of the child that announces nodes, `malloc(par->SO_FRIENDS_NUM)`; each
announcement writes it again. -/
def privateFriends (par : Parameters) (indeterminate : ℤ → PidT)
    (announced : List (Friends par)) : PidArray :=
  announced.foldl (fun a friends => a.storeFrom 0 friends.toList)
    (PidArray.malloc par.soFriendsNum.toUInt64 indeterminate)

def entries (s : NodeFriends) : List PidT :=
  (List.range s.friendListSize.toInt.toNat).map fun (i : ℕ) => s.friendList.contents i

def choosable (par : Parameters) (s : NodeFriends) : Set PidT :=
  {friend | ∃ draw i : UInt32, draw.toNat < 2 ^ 31 ∧ rand draw 0 (par.soFriendsNum - 1) = some i ∧
    friend = s.friendList.contents (intOfUnsigned i).toInt}

/-- The list is the friends in the order they were made, and each may be chosen. -/
def AllChoosable (par : Parameters) (s : NodeFriends) (friends : List PidT) : Prop :=
  entries s = friends ∧ choosable par s = {friend | friend ∈ entries s}

section Stores

variable {par : Parameters} {indeterminate : ℤ → PidT}

theorem storeFrom_bytes (a : PidArray) (i : ℕ) (l : List PidT) :
    (a.storeFrom i l).bytes = a.bytes := by
  induction l generalizing a i with
  | nil => rfl
  | cons pid rest ih => exact ih _ _

theorem storeFrom_stores (a : PidArray) (i : ℕ) (l : List PidT) :
    (a.storeFrom i l).stores =
      a.stores ++ (List.range l.length).map fun (k : ℕ) => ⟨a.bytes, ((i + k : ℕ) : ℤ)⟩ := by
  induction l generalizing a i with
  | nil => exact (List.append_nil _).symm
  | cons pid rest ih =>
    rw [PidArray.storeFrom, ih, List.length_cons, List.range_succ_eq_map, List.map_cons,
      List.map_map]
    show (a.stores ++ [_]) ++ _ = _
    rw [List.append_assoc, List.singleton_append]
    congr 3
    funext k
    rw [Function.comp_apply, Nat.succ_eq_add_one, Nat.add_right_comm, Nat.add_assoc]
    rfl

/-- What is read after the loop. -/
theorem storeFrom_contents (a : PidArray) (i : ℕ) (l : List PidT) (k : ℕ) :
    (a.storeFrom i l).contents k =
      if i ≤ k then l.getD (k - i) (a.contents k) else a.contents k := by
  induction l generalizing a i with
  | nil =>
    rw [List.getD_nil, ite_self]
    rfl
  | cons pid rest ih =>
    rw [PidArray.storeFrom, ih]
    by_cases hlater : i + 1 ≤ k
    · have hne : (k : ℤ) ≠ (i : ℤ) := by omega
      have hsub : k - i = (k - (i + 1)) + 1 := by omega
      rw [if_pos hlater, if_pos (by omega), hsub, List.getD_cons_succ]
      congr 1
      exact Function.update_of_ne hne _ _
    · rw [if_neg hlater]
      by_cases heq : i = k
      · rw [heq, if_pos le_rfl, Nat.sub_self, List.getD_cons_zero]
        exact Function.update_self _ _ _
      · have hne : (k : ℤ) ≠ (i : ℤ) := by omega
        rw [if_neg (by omega)]
        exact Function.update_of_ne hne _ _

/-- The bytes of an array of n elements, as a product of the width of size_t. -/
theorem toNat_bytes (n : UInt32) : (n.toUInt64 * 4).toNat = 4 * n.toNat := by
  have hlt := n.toNat_lt
  have hfour : (4 : UInt64).toNat = 4 := rfl
  rw [UInt64.toNat_mul, UInt32.toNat_toUInt64, hfour]
  omega

/-- The loop stays in the bytes asked for when these hold all its elements, and only then. -/
theorem storeFrom_within_iff (a : PidArray) (l : List PidT) :
    (a.storeFrom 0 l).Within ↔ a.Within ∧ (l = [] ∨ 4 * l.length ≤ a.bytes.toNat) := by
  simp only [PidArray.Within, storeFrom_stores, List.mem_append, List.mem_map, List.mem_range]
  constructor
  · intro h
    refine ⟨fun s hs => h s (Or.inl hs), ?_⟩
    by_cases hempty : l = []
    · exact Or.inl hempty
    · have hlength := List.length_pos_iff.mpr hempty
      have hlast := (h _ (Or.inr ⟨l.length - 1, by omega, rfl⟩)).2
      dsimp only at hlast
      exact Or.inr (by omega)
  · rintro ⟨hbefore, hroom⟩ s (hs | ⟨k, hk, rfl⟩)
    · exact hbefore s hs
    · have hbytes : 4 * l.length ≤ a.bytes.toNat := by
        rcases hroom with rfl | hbytes
        · exact absurd hk (Nat.not_lt_zero _)
        · exact hbytes
      unfold Store.within
      dsimp only
      omega

/-- The growth step asks for one byte more than the elements there are. -/
theorem not_within_grow (s : NodeFriends) (friend : PidT) :
    ¬ (grow s friend).friendList.Within := by
  intro h
  obtain ⟨hindex, hroom⟩ := h _ (List.mem_append_right _ List.mem_cons_self)
  have hpos : 0 ≤ s.friendListSize.toInt := by
    dsimp only at hindex
    omega
  have hlt := s.friendListSize.toInt_lt
  have hcast := toNat_unsignedLongOfInt s.friendListSize hpos
  have hfour : (4 : UInt64).toNat = 4 := rfl
  dsimp only [PidArray.realloc] at hroom
  rw [UInt64.toNat_add, UInt64.toNat_mul, hfour, UInt64.toNat_one] at hroom
  omega

theorem grown_append (initial : Initial par) (received : List PidT) (friend : PidT) :
    grown par indeterminate initial (received ++ [friend]) =
      grow (grown par indeterminate initial received) friend := by
  rw [grown, List.foldl_append]
  rfl

theorem within_malloc (bytes : UInt64) : (PidArray.malloc bytes indeterminate).Within :=
  fun _ h => absurd h List.not_mem_nil

theorem fillFriendList_within (initial : Initial par) :
    (fillFriendList par indeterminate initial).friendList.Within := by
  refine (storeFrom_within_iff _ _).mpr ⟨within_malloc _, Or.inr ?_⟩
  show 4 * initial.toList.length ≤ (par.soFriendsNum.toUInt64 * 4).toNat
  rw [toNat_bytes, initial.toList_length]

theorem grown_within_iff (initial : Initial par) (received : List PidT) :
    (grown par indeterminate initial received).friendList.Within ↔ received = [] := by
  constructor
  · intro h
    rcases List.eq_nil_or_concat' received with hempty | ⟨before, friend, rfl⟩
    · exact hempty
    · rw [grown_append] at h
      exact absurd h (not_within_grow _ friend)
  · rintro rfl
    exact fillFriendList_within initial

/-- Beyond the range of int, make_friend_list stores nothing. -/
theorem numFriends_nonpos (h : 2 ^ 31 ≤ par.soFriendsNum.toNat) : (numFriends par).toInt ≤ 0 := by
  by_contra hpos
  have hval := toInt_intOfUnsigned_of_nonneg par.soFriendsNum
    (show 0 ≤ (numFriends par).toInt by omega)
  have hlt := (intOfUnsigned par.soFriendsNum).toInt_lt
  omega

theorem toInt_numFriends (h : par.soFriendsNum.toNat < 2 ^ 31) :
    (numFriends par).toInt = par.soFriendsNum.toNat := toInt_intOfUnsigned _ h

theorem sendFriendList_within (friends : Friends par) :
    (sendFriendList par indeterminate friends).Within := by
  refine (storeFrom_within_iff _ _).mpr ⟨within_malloc _, Or.inr ?_⟩
  show 4 * friends.toList.length ≤ (4 * par.soFriendsNum.toUInt64).toNat
  rw [UInt64.mul_comm, toNat_bytes, friends.toList_length]
  by_cases hint : par.soFriendsNum.toNat < 2 ^ 31
  · rw [toInt_numFriends hint]
    omega
  · have hneg := numFriends_nonpos (Nat.not_lt.mp hint)
    omega

/-- One byte for each friend is enough for none only. -/
theorem friends_fit_iff (friends : Friends par) :
    friends.toList = [] ∨ 4 * friends.toList.length ≤ par.soFriendsNum.toUInt64.toNat ↔
      par.soFriendsNum.toNat = 0 ∨ 2 ^ 31 ≤ par.soFriendsNum.toNat := by
  rw [← List.length_eq_zero_iff, friends.toList_length, UInt32.toNat_toUInt64]
  by_cases hint : par.soFriendsNum.toNat < 2 ^ 31
  · rw [toInt_numFriends hint]
    omega
  · have hneg := numFriends_nonpos (Nat.not_lt.mp hint)
    omega

theorem announced_within_iff {a : PidArray} (hbytes : a.bytes = par.soFriendsNum.toUInt64)
    (announced : List (Friends par)) :
    (announced.foldl (fun a friends => a.storeFrom 0 friends.toList) a).Within ↔
      a.Within ∧ (announced = [] ∨ par.soFriendsNum.toNat = 0 ∨
        2 ^ 31 ≤ par.soFriendsNum.toNat) := by
  induction announced generalizing a with
  | nil => exact (and_iff_left (Or.inl rfl)).symm
  | cons friends rest ih =>
    have hnext : (a.storeFrom 0 friends.toList).bytes = par.soFriendsNum.toUInt64 := by
      rw [storeFrom_bytes, hbytes]
    rw [List.foldl_cons, ih hnext, storeFrom_within_iff, hbytes, friends_fit_iff]
    constructor
    · rintro ⟨⟨hbefore, hfit⟩, -⟩
      exact ⟨hbefore, Or.inr hfit⟩
    · rintro ⟨hbefore, hnil | hfit⟩
      · contradiction
      · exact ⟨⟨hbefore, hfit⟩, Or.inr hfit⟩

/-- The list that make_friend_list makes is what its second loop stores. -/
theorem makeFriendList_friends {rand : ℕ → ℕ} {nodesPID : List Node} {made : List PidT}
    (hint : par.soFriendsNum.toNat < 2 ^ 31)
    (h : Master.makeFriendList par rand nodesPID = some made) :
    ∃ friends : Friends par, friends.toList = made := by
  refine ⟨⟨made, ?_⟩, rfl⟩
  rw [Master.length_makeFriendList h, toInt_numFriends hint, Int.toNat_natCast]

structure Run (par : Parameters) where
  initial : Initial par
  received : List PidT
  sent : Friends par
  announced : List (Friends par)

def BigEnough (par : Parameters) (indeterminate : ℤ → PidT) (r : Run par) : Prop :=
  (grown par indeterminate r.initial r.received).friendList.Within ∧
    (sendFriendList par indeterminate r.sent).Within ∧
      (privateFriends par indeterminate r.announced).Within

/-- The arrays are big enough exactly when no node is announced: a new friend is always
stored beyond the bytes, and so are the friends of the child unless there are none. -/
theorem big_enough_iff (par : Parameters) (indeterminate : ℤ → PidT) (r : Run par) :
    BigEnough par indeterminate r ↔ r.received = [] ∧
      (r.announced = [] ∨ par.soFriendsNum.toNat = 0 ∨ 2 ^ 31 ≤ par.soFriendsNum.toNat) := by
  have hprivate := announced_within_iff
    (a := PidArray.malloc par.soFriendsNum.toUInt64 indeterminate) rfl r.announced
  rw [BigEnough, grown_within_iff, and_iff_right (sendFriendList_within r.sent), privateFriends,
    hprivate, and_iff_right (within_malloc _)]

/-- One new friend, with one friend at the start. -/
theorem new_friend_overflows : ∃ (par : Parameters) (r : Run par),
    par.soFriendsNum ≤ par.soNodesNum ∧ ¬ BigEnough par 0 r := by
  let par : Parameters := { assignDefaults with soFriendsNum := 1 }
  refine ⟨par, ⟨⟨[7], rfl⟩, [9], ⟨[7], rfl⟩, []⟩, by decide, ?_⟩
  intro h
  exact not_within_grow _ 9 h.1

end Stores
section Choice

open Nodes

variable {par : Parameters} {indeterminate : ℤ → PidT} {initial : Initial par}
  {received : List PidT}

def friends (initial : Initial par) (received : List PidT) : List PidT :=
  initial.toList ++ received

theorem length_friends : (friends initial received).length =
    par.soFriendsNum.toNat + received.length := by
  rw [friends, List.length_append, initial.toList_length]

theorem friends_append (friend : PidT) :
    friends initial (received ++ [friend]) = friends initial received ++ [friend] :=
  (List.append_assoc _ _ _).symm

/-- The size counts the friends, as an int. -/
theorem grown_size (received : List PidT) :
    (grown par indeterminate initial received).friendListSize.toInt ≡
      (friends initial received).length [ZMOD 2 ^ 32] := by
  rw [length_friends]
  induction received using List.reverseRecOn with
  | nil =>
    show (Int32.ofInt par.soFriendsNum.toNat).toInt ≡ _ [ZMOD _]
    rw [Int32.toInt_ofInt]
    exact Int.bmod_emod
  | append_singleton before friend ih =>
    rw [grown_append, List.length_append, List.length_singleton]
    have hnext := (add_modEq_int (grown par indeterminate initial before).friendListSize 1).trans
      (ih.add_right 1)
    rw [← Nat.add_assoc]
    exact_mod_cast hnext

theorem toInt_size (h : (friends initial received).length < 2 ^ 31) :
    (grown par indeterminate initial received).friendListSize.toInt =
      (friends initial received).length := by
  rw [toInt_eq_bmod (grown_size received)]
  exact Int.bmod_eq_of_le (by omega) (by omega)

theorem grow_contents (s : NodeFriends) (friend : PidT) : (grow s friend).friendList.contents =
    Function.update s.friendList.contents s.friendListSize.toInt friend := rfl

/-- Every element that was stored reads back, as long as the size fits in an int. -/
theorem grown_contents (h : (friends initial received).length < 2 ^ 31) (k : ℕ) (friend : PidT)
    (hk : (friends initial received)[k]? = some friend) :
    (grown par indeterminate initial received).friendList.contents k = friend := by
  induction received using List.reverseRecOn with
  | nil =>
    show ((PidArray.malloc _ _).storeFrom 0 initial.toList).contents k = friend
    rw [friends, List.append_nil] at hk
    rw [storeFrom_contents, if_pos (Nat.zero_le k), Nat.sub_zero, List.getD_eq_getElem?_getD, hk]
    rfl
  | append_singleton before last ih =>
    rw [friends_append] at h hk
    have hlength : (friends initial before).length < 2 ^ 31 := by
      rw [List.length_append] at h
      omega
    have hsize : (grown par indeterminate initial before).friendListSize.toInt =
        (friends initial before).length := toInt_size hlength
    rw [grown_append, grow_contents, hsize]
    rcases Nat.lt_or_ge k (friends initial before).length with hbefore | hlast
    · rw [Function.update_of_ne (by omega)]
      rw [List.getElem?_append_left hbefore] at hk
      exact ih hlength hk
    · rw [List.getElem?_append_right hlast] at hk
      have heq : k - (friends initial before).length = 0 := by
        have hlt := (List.getElem?_eq_some_iff.mp hk).1
        rw [List.length_singleton] at hlt
        exact Nat.lt_one_iff.mp hlt
      have hk' : (k : ℤ) = (friends initial before).length := by
        have hle : (friends initial before).length ≤ k := hlast
        omega
      rw [heq] at hk
      rw [hk', Function.update_self]
      exact Option.some.inj hk

/-- The array is the list of the friends for as long as the size does not overflow. -/
theorem entries_grown_iff : entries (grown par indeterminate initial received) =
    friends initial received ↔ (friends initial received).length < 2 ^ 31 := by
  constructor
  · intro h
    have hlength := congrArg List.length h
    have hlt := (grown par indeterminate initial received).friendListSize.toInt_lt
    rw [entries, List.length_map, List.length_range] at hlength
    omega
  · intro h
    apply List.ext_getElem?
    intro k
    rw [entries, toInt_size h, Int.toNat_natCast, List.getElem?_map]
    rcases Nat.lt_or_ge k (friends initial received).length with hlt | hge
    · have hk := List.getElem?_eq_getElem hlt
      rw [List.getElem?_range hlt, Option.map_some, grown_contents h k _ hk, hk]
    · rw [List.getElem?_eq_none hge, List.getElem?_eq_none (by rw [List.length_range]; exact hge)]
      rfl

theorem rand_friend (hpos : 1 ≤ par.soFriendsNum.toNat) (draw : UInt32) :
    rand draw 0 (par.soFriendsNum - 1) = some (draw % par.soFriendsNum) := by
  have hne : par.soFriendsNum ≠ 0 := by
    intro hzero
    rw [hzero] at hpos
    contradiction
  rw [rand, UInt32.sub_zero, UInt32.sub_add_cancel, if_neg hne, UInt32.add_zero]

/-- The friends of the start stay where they were. -/
theorem contents_initial (h : (friends initial received).length < 2 ^ 31) {k : ℕ}
    (hk : k < initial.toList.length) :
    (grown par indeterminate initial received).friendList.contents k = initial.toList[k] := by
  apply grown_contents h
  rw [friends, List.getElem?_append_left hk]
  exact List.getElem?_eq_getElem hk

/-- A draw is an index of one of them, and each index is its own draw. -/
theorem rand_drawn (hpos : 1 ≤ par.soFriendsNum.toNat) {draw i : UInt32}
    (h : rand draw 0 (par.soFriendsNum - 1) = some i) : i.toNat < par.soFriendsNum.toNat := by
  rw [rand_friend hpos] at h
  cases h
  rw [UInt32.toNat_mod]
  exact Nat.mod_lt _ hpos

theorem rand_self {i : UInt32} (h : i.toNat < par.soFriendsNum.toNat) :
    rand i 0 (par.soFriendsNum - 1) = some i := by
  rw [rand_friend (by omega)]
  congr 1
  apply UInt32.toNat_inj.mp
  rw [UInt32.toNat_mod, Nat.mod_eq_of_lt h]

/-- Only the friends of the start are drawn. -/
theorem choosable_grown (hpos : 1 ≤ par.soFriendsNum.toNat)
    (h : (friends initial received).length < 2 ^ 31) :
    choosable par (grown par indeterminate initial received) =
      {friend | friend ∈ initial.toList} := by
  have hlength : (friends initial received).length = par.soFriendsNum.toNat + received.length :=
    length_friends
  have hinitial := initial.toList_length
  have hindex : ∀ i : UInt32, i.toNat < par.soFriendsNum.toNat →
      (intOfUnsigned i).toInt = i.toNat := fun i hi => toInt_intOfUnsigned i (by omega)
  ext friend
  constructor
  · rintro ⟨draw, i, -, hi, rfl⟩
    have hlt := rand_drawn hpos hi
    have hmem : i.toNat < initial.toList.length := by omega
    rw [hindex i hlt, contents_initial h hmem]
    exact List.getElem_mem hmem
  · intro hfriend
    obtain ⟨k, hk, rfl⟩ := List.getElem_of_mem hfriend
    have hval : (UInt32.ofNat k).toNat = k := UInt32.toNat_ofNat_of_lt' (by
      show k < 2 ^ 32
      omega)
    have hlt : (UInt32.ofNat k).toNat < par.soFriendsNum.toNat := by omega
    refine ⟨UInt32.ofNat k, UInt32.ofNat k, by omega, rand_self hlt, ?_⟩
    rw [hindex _ hlt, hval, contents_initial h hk]

/-- Every friend may be chosen exactly when the friends are no more than an int counts
and those that were received are among the ones of the start. -/
theorem all_choosable_iff (par : Parameters) (hpos : 1 ≤ par.soFriendsNum.toNat)
    (indeterminate : ℤ → PidT) (initial : Initial par) (received : List PidT) :
    AllChoosable par (grown par indeterminate initial received) (friends initial received) ↔
      par.soFriendsNum.toNat + received.length < 2 ^ 31 ∧
        ∀ friend ∈ received, friend ∈ initial.toList := by
  have hlength : (friends initial received).length = par.soFriendsNum.toNat + received.length :=
    length_friends
  rw [← hlength, AllChoosable, entries_grown_iff]
  refine and_congr_right fun h => ?_
  rw [choosable_grown hpos h, entries_grown_iff.mpr h]
  constructor
  · intro heq friend hfriend
    have hmem : friend ∈ {friend | friend ∈ friends initial received} :=
      List.mem_append_right _ hfriend
    rw [← heq] at hmem
    exact hmem
  · intro hin
    ext friend
    constructor
    · exact fun hfriend => List.mem_append_left _ hfriend
    · intro hfriend
      rcases List.mem_append.mp hfriend with hstart | hreceived
      · exact hstart
      · exact hin friend hreceived

/-- One new friend that the node did not know. -/
theorem new_friend_not_chosen : ∃ (par : Parameters) (initial : Initial par)
    (received : List PidT), 1 ≤ par.soFriendsNum.toNat ∧
      ¬ AllChoosable par (grown par 0 initial received) (friends initial received) := by
  let par : Parameters := { assignDefaults with soFriendsNum := 1 }
  let initial : Initial par := ⟨[7], rfl⟩
  refine ⟨par, initial, [9], by decide, ?_⟩
  rintro ⟨hentries, hall⟩
  have hshort : (friends initial [9]).length < 2 ^ 31 := by decide
  have hmem : (9 : PidT) ∈ choosable par (grown par 0 initial [9]) := by
    rw [hall, hentries]
    decide
  rw [choosable_grown (by decide) hshort] at hmem
  exact absurd hmem (by decide)

/-- A new friend that is one of the first again. -/
theorem all_choosable_known : let par : Parameters := { assignDefaults with soFriendsNum := 2 }
    let initial : Initial par := ⟨[7, 8], rfl⟩
    AllChoosable par (grown par 0 initial [8]) (friends initial [8]) :=
  (all_choosable_iff { assignDefaults with soFriendsNum := 2 } (by decide) 0 ⟨[7, 8], rfl⟩ [8]).mpr
    ⟨by decide, List.all_iff_forall_prop.mp rfl⟩

def Holds (p : NodeProc) (s : NodeFriends) (friends : List PidT) : Prop :=
  p.friendListSize = s.friendListSize ∧ p.friendList = friends

def newFriends (o : FetchOutcome) (p : NodeProc) : List PidT :=
  match receiveMessage p.errno o.rcvFriend p.friendReceived with
  | (.SUCCESS, _, friend) => [friend]
  | (.ERROR, _, _) => []

/-- The second receive of a pass grows the array by the friend that it fetches. -/
theorem receiveFriend_holds {p : NodeProc}
    (h : Holds p (grown par indeterminate initial received) (friends initial received))
    (o : FetchOutcome) :
    Holds (receiveFriend o p) (grown par indeterminate initial (received ++ newFriends o p))
      (friends initial (received ++ newFriends o p)) := by
  obtain ⟨hsize, hlist⟩ := h
  unfold receiveFriend
  split
  next friend hreceived =>
    have hnew : newFriends o p = [friend] := by rw [newFriends, hreceived]
    rw [hnew]
    constructor
    · rw [grown_append]
      exact congrArg (· + 1) hsize
    · rw [friends_append, ← hlist]
  next hreceived =>
    have hnew : newFriends o p = [] := by rw [newFriends, hreceived]
    rw [hnew, List.append_nil]
    exact ⟨hsize, hlist⟩

/-- The friends that hop takes from the list are the ones it takes from the array. -/
theorem mem_choosable_iff {p : NodeProc} (hpos : 1 ≤ par.soFriendsNum.toNat)
    (hint : (friends initial received).length < 2 ^ 31)
    (h : Holds p (grown par indeterminate initial received) (friends initial received))
    (friend : PidT) : friend ∈ choosable par (grown par indeterminate initial received) ↔
      ∃ draw i : UInt32, draw.toNat < 2 ^ 31 ∧ rand draw 0 (par.soFriendsNum - 1) = some i ∧
        p.friendList[i.toNat]? = some friend := by
  have hlength : (friends initial received).length = par.soFriendsNum.toNat + received.length :=
    length_friends
  refine exists_congr fun draw => exists_congr fun i => and_congr_right fun _ =>
    and_congr_right fun hi => ?_
  rw [rand_friend hpos] at hi
  cases hi
  have hlt : (draw % par.soFriendsNum).toNat < par.soFriendsNum.toNat := by
    rw [UInt32.toNat_mod]
    exact Nat.mod_lt _ hpos
  have hsome := List.getElem?_eq_getElem
    (show (draw % par.soFriendsNum).toNat < (friends initial received).length by omega)
  rw [toInt_intOfUnsigned _ (by omega), grown_contents hint _ _ hsome, h.2, hsome, Option.some_inj,
    eq_comm]

end Choice
end SimulazioneTransazioni.FriendArrays

import SimulazioneTransazioni.Msg
import SimulazioneTransazioni.Library.Table
import Mathlib.Algebra.Order.Group.Multiset

/-!
The message queues that the processes share. A queue is found by its key, which
stands for the identifier that msgget returns. It keeps the messages of each
type in order, since a receive asks for the first message of one type. A send
or a receive may fail with any errno, and then transfers nothing. The last part
counts the transactions on the queues with certain keys.
-/
namespace SimulazioneTransazioni.Queues

structure Queue where
  key : PidT
  trans : List Message
  friends : List PidT

namespace Queue

def withTrans (q : Queue) (trans : List Message) : Queue := { q with trans := trans }

def withFriends (q : Queue) (friends : List PidT) : Queue := { q with friends := friends }

end Queue

def create (key : PidT) : Queue := ⟨key, [], []⟩

def msgget (queues : List Queue) (key : PidT) : MsggetResult :=
  if key ∈ queues.map Queue.key then .found key else .failed .ENOENT

def msgsnd (queues : List Queue) (failure : Option Errno) (id : Int32) : MsgsndResult :=
  match failure with
  | some e => .failed e
  | none => if id ∈ queues.map Queue.key then .sent else .failed .EINVAL

def lookup (queues : List Queue) (id : Int32) : Option Queue :=
  (Table.indexOf Queue.key queues id).bind fun i => queues[i]?

def modify (queues : List Queue) (id : Int32) (f : Queue → Queue) : List Queue :=
  match Table.indexOf Queue.key queues id with
  | none => queues
  | some i => queues.modify i f

def pushTrans (queues : List Queue) (id : Int32) (m : Message) : List Queue :=
  modify queues id fun q => q.withTrans (q.trans ++ [m])

def pushFriend (queues : List Queue) (id : Int32) (friend : PidT) : List Queue :=
  modify queues id fun q => q.withFriends (q.friends ++ [friend])

/-- The first of one of the lists of a queue, and the queues without it. -/
def takeFirst {α : Type} (inbox : Queue → List α) (keep : Queue → List α → Queue)
    (queues : List Queue) (id : Int32) : Option (α × List Queue) :=
  (lookup queues id).bind fun q =>
    match inbox q with
    | [] => none
    | a :: rest => some (a, modify queues id fun q => keep q rest)

def takeTrans (queues : List Queue) (id : Int32) : Option (Message × List Queue) :=
  takeFirst Queue.trans Queue.withTrans queues id

def takeFriend (queues : List Queue) (id : Int32) : Option (PidT × List Queue) :=
  takeFirst Queue.friends Queue.withFriends queues id

/-- A msgrcv that waits for a transaction; none while there is none. -/
def rcvTrans (queues : List Queue) (failure : Option Errno) (id : Int32) :
    Option (MsgrcvResult Message × List Queue) :=
  match failure with
  | some e => some (.failed e, queues)
  | none => (takeTrans queues id).map fun (m, queues) => (.delivered m, queues)

def awaitFriend (queues : List Queue) (failure : Option Errno) (id : Int32) :
    Option (MsgrcvResult PidT × List Queue) :=
  match failure with
  | some e => some (.failed e, queues)
  | none => (takeFriend queues id).map fun (friend, queues) => (.delivered friend, queues)

/-- With IPC_NOWAIT. -/
def rcvFriend (queues : List Queue) (failure : Option Errno) (id : Int32) :
    MsgrcvResult PidT × List Queue :=
  match awaitFriend queues failure id with
  | some r => r
  | none => (.failed .ENOMSG, queues)

def token (m : Message) : Transaction := m.userTrans.asSent

def queued (q : Queue) : Multiset Transaction := (q.trans.map token : List Transaction)

section Held

variable (P : PidT → Prop) [DecidablePred P]

def waiting (queues : List Queue) : Multiset Message :=
  (queues.map fun q => if P q.key then (q.trans : Multiset Message) else 0).sum

def held (queues : List Queue) : Multiset Transaction :=
  (queues.map fun q => if P q.key then queued q else 0).sum

variable {P} {queues queues' : List Queue} {id : Int32}

theorem held_eq_map (queues : List Queue) : held P queues = (waiting P queues).map token := by
  induction queues with
  | nil => rfl
  | cons q rest ih =>
    have hhead : (if P q.key then queued q else 0) =
        (if P q.key then (q.trans : Multiset Message) else 0).map token := by
      split <;> rfl
    rw [held, waiting, List.map_cons, List.map_cons, List.sum_cons, List.sum_cons, ← held,
      ← waiting, ih, hhead, Multiset.map_add]

theorem exists_lookup (h : id ∈ queues.map Queue.key) :
    ∃ q, lookup queues id = some q := by
  obtain ⟨i, hi⟩ := Table.exists_indexOf Queue.key h
  obtain ⟨q, hq, -⟩ := Table.getElem_indexOf Queue.key hi
  exact ⟨q, by rw [lookup, hi, Option.bind_some, hq]⟩

theorem waiting_modify {q : Queue} (h : lookup queues id = some q) {f : Queue → Queue}
    (hkey : (f q).key = q.key) :
    waiting P (modify queues id f) + (if P id then (q.trans : Multiset Message) else 0) =
      waiting P queues + if P id then ((f q).trans : Multiset Message) else 0 := by
  obtain ⟨i, hi, hq⟩ := Option.bind_eq_some_iff.mp h
  obtain ⟨q', hq', hid⟩ := Table.getElem_indexOf Queue.key hi
  rw [hq, Option.some.injEq] at hq'
  rw [← hq'] at hid
  have hsum := Table.sum_modify
    (fun q => if P q.key then (q.trans : Multiset Message) else 0) f hq
  simp only [hkey, hid] at hsum
  rw [modify, hi]
  exact hsum

/-- A queue's friends do not matter. -/
theorem waiting_modify_friends {f : Queue → Queue} (hkey : ∀ q, (f q).key = q.key)
    (htrans : ∀ q, (f q).trans = q.trans) : waiting P (modify queues id f) = waiting P queues := by
  cases hi : Table.indexOf Queue.key queues id with
  | none => rw [modify, hi]
  | some i =>
    obtain ⟨q, hq, -⟩ := Table.getElem_indexOf Queue.key hi
    have hlookup : lookup queues id = some q := by rw [lookup, hi, Option.bind_some, hq]
    have hmod := waiting_modify (P := P) hlookup (hkey q)
    rw [htrans] at hmod
    exact add_right_cancel hmod

theorem waiting_pushTrans_le (queues : List Queue) (id : Int32) (m : Message) :
    waiting P (pushTrans queues id m) ≤ waiting P queues + if P id then {m} else 0 := by
  by_cases h : id ∈ queues.map Queue.key
  · obtain ⟨q, hq⟩ := exists_lookup h
    have hmod := waiting_modify (P := P) hq (f := fun q => q.withTrans (q.trans ++ [m])) rfl
    rw [Queue.withTrans, ← Multiset.coe_add] at hmod
    refine le_of_add_le_add_right (a := if P id then (q.trans : Multiset Message) else 0) ?_
    rw [pushTrans, hmod]
    split
    · rw [add_assoc, add_comm (q.trans : Multiset Message)]
      exact le_rfl
    · rw [add_zero, add_zero]
  · have hnone : Table.indexOf Queue.key queues id = none := by
      rw [Table.indexOf, List.findIdx?_eq_none_iff]
      intro q hq
      rw [decide_eq_false_iff_not]
      exact fun hkey => h (List.mem_map.mpr ⟨q, hq, hkey⟩)
    rw [pushTrans, modify, hnone]
    exact Multiset.le_add_right _ _

theorem waiting_takeTrans {m : Message} (h : takeTrans queues id = some (m, queues')) :
    waiting P queues' + (if P id then {m} else 0) = waiting P queues := by
  obtain ⟨q, hq, hrest⟩ := Option.bind_eq_some_iff.mp h
  split at hrest
  · contradiction
  next m' rest htrans =>
    simp only [Option.some.injEq, Prod.mk.injEq] at hrest
    obtain ⟨rfl, rfl⟩ := hrest
    have hmod := waiting_modify (P := P) hq (f := fun q => q.withTrans rest) rfl
    have htaken : (q.trans : Multiset Message) = rest + {m'} := by
      rw [htrans, ← Multiset.cons_coe, ← Multiset.singleton_add, add_comm]
    rw [htaken] at hmod
    refine add_right_cancel (b := if P id then (rest : Multiset Message) else 0) ?_
    show _ = waiting P queues + if P id then ((q.withTrans rest).trans : Multiset Message) else 0
    rw [← hmod]
    split
    · rw [add_assoc, add_comm ({m'} : Multiset Message)]
    · rw [add_zero, add_zero]

theorem waiting_pushFriend (friend : PidT) :
    waiting P (pushFriend queues id friend) = waiting P queues :=
  waiting_modify_friends (fun _ => rfl) fun _ => rfl

theorem waiting_takeFriend {friend : PidT} (h : takeFriend queues id = some (friend, queues')) :
    waiting P queues' = waiting P queues := by
  obtain ⟨q, -, hrest⟩ := Option.bind_eq_some_iff.mp h
  split at hrest
  · contradiction
  next friend' rest _ =>
    simp only [Option.some.injEq, Prod.mk.injEq] at hrest
    rw [← hrest.2]
    exact waiting_modify_friends (fun _ => rfl) fun _ => rfl

theorem waiting_awaitFriend {failure : Option Errno} {r : MsgrcvResult PidT × List Queue}
    (h : awaitFriend queues failure id = some r) : waiting P r.2 = waiting P queues := by
  unfold awaitFriend at h
  cases failure with
  | some e =>
    rw [← Option.some.inj h]
  | none =>
    obtain ⟨⟨friend, queues₁⟩, htake, rfl⟩ := Option.map_eq_some_iff.mp h
    exact waiting_takeFriend htake

theorem waiting_rcvFriend (queues : List Queue) (failure : Option Errno) (id : Int32) :
    waiting P (rcvFriend queues failure id).2 = waiting P queues := by
  unfold rcvFriend
  split
  next r h => exact waiting_awaitFriend h
  next => rfl

/-- Either the first message leaves its queue, or nothing does. -/
theorem waiting_rcvTrans {failure : Option Errno} {result : MsgrcvResult Message}
    (h : rcvTrans queues failure id = some (result, queues')) :
    (∃ m, result = .delivered m ∧
        waiting P queues' + (if P id then {m} else 0) = waiting P queues) ∨
      ∃ e, failure = some e ∧ result = .failed e ∧ queues' = queues := by
  unfold rcvTrans at h
  cases failure with
  | some e =>
    simp only [Option.some.injEq, Prod.mk.injEq] at h
    exact Or.inr ⟨e, rfl, h.1.symm, h.2.symm⟩
  | none =>
    obtain ⟨⟨m, queues₁⟩, htake, hpair⟩ := Option.map_eq_some_iff.mp h
    simp only [Prod.mk.injEq] at hpair
    obtain ⟨rfl, rfl⟩ := hpair
    exact Or.inl ⟨m, rfl, waiting_takeTrans htake⟩

theorem waiting_rcvTrans_drop {failure : Option Errno} {result : MsgrcvResult Message}
    (h : rcvTrans queues failure id = some (result, queues')) :
    waiting P queues' ≤ waiting P queues := by
  rcases waiting_rcvTrans (P := P) h with ⟨m, -, hwaiting⟩ | ⟨e, -, -, hsame⟩
  · rw [← hwaiting]
    exact Multiset.le_add_right _ _
  · rw [hsame]

section Tokens

theorem held_pushTrans_le (queues : List Queue) (id : Int32) (m : Message) :
    held P (pushTrans queues id m) ≤ held P queues + if P id then {token m} else 0 := by
  have hle := Multiset.map_le_map (f := token) (waiting_pushTrans_le (P := P) queues id m)
  rw [Multiset.map_add] at hle
  rw [held_eq_map, held_eq_map]
  refine hle.trans (add_le_add le_rfl ?_)
  split <;> exact le_rfl

theorem held_pushTrans_le_add (queues : List Queue) (id : Int32) (m : Message) :
    held P (pushTrans queues id m) ≤ held P queues + {token m} := by
  refine (held_pushTrans_le queues id m).trans (add_le_add le_rfl ?_)
  split
  · exact le_rfl
  · exact Multiset.zero_le _

theorem held_takeTrans {m : Message} (h : takeTrans queues id = some (m, queues')) :
    held P queues' + (if P id then {token m} else 0) = held P queues := by
  rw [held_eq_map, held_eq_map, ← waiting_takeTrans (P := P) h, Multiset.map_add]
  split <;> rfl

theorem held_rcvTrans_drop {failure : Option Errno} {result : MsgrcvResult Message}
    (h : rcvTrans queues failure id = some (result, queues')) :
    held P queues' ≤ held P queues := by
  rw [held_eq_map, held_eq_map]
  exact Multiset.map_le_map (waiting_rcvTrans_drop h)

theorem held_pushFriend (friend : PidT) :
    held P (pushFriend queues id friend) = held P queues := by
  rw [held_eq_map, waiting_pushFriend, ← held_eq_map]

theorem held_awaitFriend {failure : Option Errno} {r : MsgrcvResult PidT × List Queue}
    (h : awaitFriend queues failure id = some r) : held P r.2 = held P queues := by
  rw [held_eq_map, waiting_awaitFriend h, ← held_eq_map]

theorem held_rcvFriend (queues : List Queue) (failure : Option Errno) (id : Int32) :
    held P (rcvFriend queues failure id).2 = held P queues := by
  rw [held_eq_map, waiting_rcvFriend, ← held_eq_map]

end Tokens

end Held

section Friends

def FriendsAt (P : PidT → Prop) (queues : List Queue) : Prop :=
  ∀ q ∈ queues, q.friends ≠ [] → P q.key

variable {P : PidT → Prop} {queues queues' : List Queue} {id : Int32}

theorem mem_modify {f : Queue → Queue} {q' : Queue} (h : q' ∈ modify queues id f) :
    q' ∈ queues ∨ ∃ q ∈ queues, q.key = id ∧ q' = f q := by
  unfold modify at h
  split at h
  · exact Or.inl h
  next i hi =>
    obtain ⟨q, hq, hkey⟩ := Table.getElem_indexOf Queue.key hi
    obtain ⟨j, hj⟩ := List.mem_iff_getElem?.mp h
    rw [List.getElem?_modify] at hj
    by_cases hij : i = j
    · subst hij
      rw [hq] at hj
      simp only [↓reduceIte, Option.map_eq_map, Option.map_some, Option.some.injEq] at hj
      exact Or.inr ⟨q, List.mem_of_getElem? hq, hkey, hj.symm⟩
    · simp only [if_neg hij, Option.map_eq_map, Option.map_id'] at hj
      exact Or.inl (List.mem_of_getElem? hj)

theorem friendsAt_modify (h : FriendsAt P queues) {f : Queue → Queue}
    (hkey : ∀ q, (f q).key = q.key)
    (hf : ∀ q ∈ queues, q.key = id → (f q).friends ≠ [] → P id) :
    FriendsAt P (modify queues id f) := by
  intro q' hq' hfriends
  rcases mem_modify hq' with hold | ⟨q, hq, hid, rfl⟩
  · apply h q' hold hfriends
  · rw [hkey, hid]
    apply hf q hq hid hfriends

theorem friendsAt_create (h : FriendsAt P queues) (key : PidT) :
    FriendsAt P (queues ++ [create key]) := by
  intro q hq hfriends
  rcases List.mem_append.mp hq with hold | hnew
  · apply h q hold hfriends
  · rw [List.mem_singleton.mp hnew] at hfriends
    exact absurd rfl hfriends

theorem friendsAt_pushTrans (h : FriendsAt P queues) (m : Message) :
    FriendsAt P (pushTrans queues id m) := by
  refine friendsAt_modify h (fun _ => rfl) ?_
  intro q hq hid hfriends
  rw [← hid]
  apply h q hq hfriends

theorem friendsAt_pushFriend (h : FriendsAt P queues)
    (hid : id ∈ queues.map Queue.key → P id) (friend : PidT) :
    FriendsAt P (pushFriend queues id friend) := by
  refine friendsAt_modify h (fun _ => rfl) ?_
  intro q hq hkey _
  exact hid (List.mem_map.mpr ⟨q, hq, hkey⟩)

theorem friendsAt_takeTrans (h : FriendsAt P queues) {m : Message}
    (htake : takeTrans queues id = some (m, queues')) : FriendsAt P queues' := by
  obtain ⟨q, -, hrest⟩ := Option.bind_eq_some_iff.mp htake
  split at hrest
  · contradiction
  · have hqueues : _ = queues' := congrArg Prod.snd (Option.some.inj hrest)
    rw [← hqueues]
    refine friendsAt_modify h (fun _ => rfl) ?_
    intro q hq hid hfriends
    rw [← hid]
    apply h q hq hfriends

/-- A queue that gave a friend had one. -/
theorem friendsAt_takeFriend (h : FriendsAt P queues) {friend : PidT}
    (htake : takeFriend queues id = some (friend, queues')) : P id ∧ FriendsAt P queues' := by
  obtain ⟨q, hq, hrest⟩ := Option.bind_eq_some_iff.mp htake
  split at hrest
  · contradiction
  next friend' rest hfriends =>
    obtain ⟨i, hi, hqi⟩ := Option.bind_eq_some_iff.mp hq
    obtain ⟨q', hq', hid⟩ := Table.getElem_indexOf Queue.key hi
    rw [hqi, Option.some.injEq] at hq'
    rw [← hq'] at hid
    have hP : P id := by
      rw [← hid]
      apply h q (List.mem_of_getElem? hqi)
      rw [hfriends]
      exact List.cons_ne_nil _ _
    have hqueues : _ = queues' := congrArg Prod.snd (Option.some.inj hrest)
    rw [← hqueues]
    exact ⟨hP, friendsAt_modify h (fun _ => rfl) fun _ _ _ _ => hP⟩

theorem friendsAt_awaitFriend (h : FriendsAt P queues) {failure : Option Errno}
    {r : MsgrcvResult PidT × List Queue} (hawait : awaitFriend queues failure id = some r) :
    (failure = none → P id) ∧ FriendsAt P r.2 := by
  unfold awaitFriend at hawait
  cases failure with
  | some e =>
    rw [← Option.some.inj hawait]
    exact ⟨fun hnone => absurd hnone (Option.some_ne_none e), h⟩
  | none =>
    obtain ⟨⟨friend, queues₁⟩, htake, rfl⟩ := Option.map_eq_some_iff.mp hawait
    obtain ⟨hP, hrest⟩ := friendsAt_takeFriend h htake
    exact ⟨fun _ => hP, hrest⟩

theorem friendsAt_rcvFriend (h : FriendsAt P queues) (failure : Option Errno) (id : Int32) :
    FriendsAt P (rcvFriend queues failure id).2 := by
  unfold rcvFriend
  split
  next r hr => exact (friendsAt_awaitFriend h hr).2
  next => exact h

theorem friendsAt_rcvTrans (h : FriendsAt P queues) {failure : Option Errno}
    {result : MsgrcvResult Message} (hrcv : rcvTrans queues failure id = some (result, queues')) :
    FriendsAt P queues' := by
  unfold rcvTrans at hrcv
  cases failure with
  | some e =>
    have hqueues : queues = queues' := congrArg Prod.snd (Option.some.inj hrcv)
    rw [← hqueues]
    exact h
  | none =>
    obtain ⟨⟨m, queues₁⟩, htake, hpair⟩ := Option.map_eq_some_iff.mp hrcv
    have hqueues : queues₁ = queues' := congrArg Prod.snd hpair
    rw [← hqueues]
    exact friendsAt_takeTrans h htake

end Friends
end SimulazioneTransazioni.Queues

import SimulazioneTransazioni.Pool
import SimulazioneTransazioni.Library.LinkedList
import SimulazioneTransazioni.Library.Machine

/-!
The functions of pool.c on the cells that malloc gives them. They refine the pool as a
sequence of messages, and so a log of their calls is that of a FIFO queue.
-/
namespace SimulazioneTransazioni.PoolCells

open LinkedList

abbrev Addr := ℕ

structure Contents where
  mtype : Int64
  message : Message
deriving DecidableEq

abbrev MsgbufTrans := Cell Addr Contents

structure State where
  head : Option Addr
  tail : Option Addr
  size : UInt32
  heap : Heap Addr Contents

def transactionPoolInit (s : State) : State := { s with head := none, tail := none, size := 0 }

/-- malloc answers NULL, or an address and the mtype that the cell happens to hold, which
is not assigned. A NULL answer is dereferenced all the same. -/
def addToPool (s : State) (malloc : Option (Addr × Int64)) (message : MsgbufTrans) :
    Option (ReturnCode × State) := do
  let (newTransaction, mtype) ← malloc
  let heap := Function.update s.heap newTransaction
    (some ⟨⟨mtype, message.value.message⟩, none⟩)
  let heap ← match s.tail with
    | none => some heap
    | some tail => (heap tail).map fun last =>
        Function.update heap tail (some { last with next := some newTransaction })
  return (.SUCCESS, { s with
    heap := heap
    tail := some newTransaction
    head := if s.head.isNone then some newTransaction else s.head })

/-- The link of the cell is read after its free, which leaves the value there. Every
caller passes the address of the pool of its process, which is not NULL. -/
def removeFromPool (s : State) (tMex : MsgbufTrans) :
    Option (ReturnCode × State × MsgbufTrans) :=
  match s.head with
  | none => some (.ERROR, s, tMex)
  | some head => (s.heap head).map fun first =>
      (.SUCCESS, { s with
        heap := Function.update s.heap head none
        head := first.next
        tail := if first.next.isNone then none else s.tail }, first)

inductive Call
  | init
  | add (malloc : Option (Addr × Int64)) (message : MsgbufTrans)
  | remove (tMex : MsgbufTrans)

/-- The pool is a global of its process, zeroed when it starts. -/
def machine : Machine State Call where
  start s := s.head = none ∧ s.tail = none
  next s
    | .init => some (transactionPoolInit s)
    | .add malloc message => (addToPool s malloc message).map Prod.snd
    | .remove tMex => (removeFromPool s tMex).map fun r => r.2.1

def Fresh (s : State) : Call → Prop
  | .add (some (newTransaction, _)) _ => s.heap newTransaction = none
  | _ => True

instance (s : State) (l : Call) : Decidable (Fresh s l) := by
  unfold Fresh
  split <;> infer_instance

inductive Event
  | cleared
  | added (message : Message)
  | removed (message : Message)
deriving DecidableEq

def observe (s : State) : Call → List Event
  | .init => [.cleared]
  | .add _ message => [.added message.value.message]
  | .remove tMex =>
    match removeFromPool s tMex with
    | some (.SUCCESS, _, out) => [.removed out.value.message]
    | _ => []

def addedSinceInit (log : List Event) : List Message :=
  log.foldl (fun sofar e => match e with
    | .cleared => []
    | .added message => sofar ++ [message]
    | .removed _ => sofar) []

def removedSinceInit (log : List Event) : List Message :=
  log.foldl (fun sofar e => match e with
    | .cleared => []
    | .added _ => sofar
    | .removed message => sofar ++ [message]) []

section Logs

variable (log : List Event) (m : Message)

@[simp] theorem addedSinceInit_cleared : addedSinceInit (log ++ [.cleared]) = [] :=
  List.foldl_append

@[simp] theorem addedSinceInit_added :
    addedSinceInit (log ++ [.added m]) = addedSinceInit log ++ [m] := List.foldl_append

@[simp] theorem addedSinceInit_removed :
    addedSinceInit (log ++ [.removed m]) = addedSinceInit log := List.foldl_append

@[simp] theorem removedSinceInit_cleared : removedSinceInit (log ++ [.cleared]) = [] :=
  List.foldl_append

@[simp] theorem removedSinceInit_added :
    removedSinceInit (log ++ [.added m]) = removedSinceInit log := List.foldl_append

@[simp] theorem removedSinceInit_removed :
    removedSinceInit (log ++ [.removed m]) = removedSinceInit log ++ [m] := List.foldl_append

end Logs

/-- The cells lead from head to NULL, and tail points to the last one. -/
def Represents (s : State) (cells : List (Addr × Contents)) : Prop :=
  Chain s.heap s.head cells ∧ s.tail = cells.getLast?.map Prod.fst

section Pointers

variable {s : State} {cells rest : List (Addr × Contents)} {v : Contents} {a : Addr}

theorem head_none_iff (h : Represents s cells) : s.head = none ↔ cells = [] := by
  cases cells with
  | nil => exact iff_of_true h.1 rfl
  | cons c cells =>
    have hhead : s.head = some c.1 := h.1.1
    simp [hhead]

theorem tail_none_iff (h : Represents s cells) : s.tail = none ↔ cells = [] := by
  rw [h.2, Option.map_eq_none_iff, List.getLast?_eq_none_iff]

theorem tail_next_none (h : Represents s cells) {t : Addr} (ht : s.tail = some t) :
    ∃ last, s.heap t = some last ∧ last.next = none := by
  obtain ⟨hchain, htail⟩ := h
  obtain rfl | ⟨before, c, rfl⟩ := List.eq_nil_or_concat' cells
  · simp [htail] at ht
  · have hc : c.1 = t := by simpa [htail] using ht
    subst hc
    exact ⟨_, chain_last hchain, rfl⟩

theorem addToPool_first (hhead : s.head = none) (htail : s.tail = none) (mtype : Int64)
    (message : MsgbufTrans) : addToPool s (some (a, mtype)) message = some (.SUCCESS, { s with
      head := some a
      tail := some a
      heap := Function.update s.heap a (some ⟨⟨mtype, message.value.message⟩, none⟩) }) := by
  simp [addToPool, hhead, htail]

theorem addToPool_link {t : Addr} {next : Option Addr} (hhead : s.head ≠ none)
    (htail : s.tail = some t) (ht : s.heap t = some ⟨v, next⟩) (hne : t ≠ a) (mtype : Int64)
    (message : MsgbufTrans) : addToPool s (some (a, mtype)) message = some (.SUCCESS, { s with
      tail := some a
      heap := Function.update
        (Function.update s.heap a (some ⟨⟨mtype, message.value.message⟩, none⟩)) t
        (some ⟨v, some a⟩) }) := by
  simp [addToPool, hhead, htail, hne, ht]

theorem removeFromPool_first {first : MsgbufTrans} (hhead : s.head = some a)
    (ha : s.heap a = some first) (tMex : MsgbufTrans) :
    removeFromPool s tMex = some (.SUCCESS, { s with
      heap := Function.update s.heap a none
      head := first.next
      tail := if first.next.isNone then none else s.tail }, first) := by
  simp [removeFromPool, hhead, ha]

theorem addToPool_represents (h : Represents s cells) (ha : s.heap a = none) (mtype : Int64)
    (message : MsgbufTrans) : ∃ s', addToPool s (some (a, mtype)) message = some (.SUCCESS, s') ∧
      s'.size = s.size ∧ Represents s' (cells ++ [(a, ⟨mtype, message.value.message⟩)]) := by
  obtain ⟨hchain, htail⟩ := h
  obtain rfl | ⟨before, ⟨t, last⟩, rfl⟩ := List.eq_nil_or_concat' cells
  · -- the passage from empty: both pointers are set
    have hhead : s.head = none := hchain
    have htail' : s.tail = none := htail
    refine ⟨_, addToPool_first hhead htail' mtype message, rfl, ?_, rfl⟩
    exact chain_singleton (Function.update_self _ _ _)
  · have htail' : s.tail = some t := by simpa using htail
    have hat : t ≠ a := by
      rintro rfl
      rw [chain_last hchain] at ha
      cases ha
    have hhead : s.head ≠ none := by simp [head_none_iff ⟨hchain, htail⟩]
    refine ⟨_, addToPool_link hhead htail' (chain_last hchain) hat mtype message, rfl, ?_, by simp⟩
    exact chain_snoc hchain ha

theorem removeFromPool_nil (h : Represents s []) (tMex : MsgbufTrans) :
    removeFromPool s tMex = some (.ERROR, s, tMex) := by
  have hhead : s.head = none := h.1
  rw [removeFromPool, hhead]

theorem removeFromPool_cons (h : Represents s ((a, v) :: rest)) (tMex : MsgbufTrans) :
    ∃ s' next, removeFromPool s tMex = some (.SUCCESS, s', ⟨v, next⟩) ∧
      s'.size = s.size ∧ Represents s' rest := by
  obtain ⟨hchain, htail⟩ := h
  have hhead : s.head = some a := hchain.1
  obtain ⟨next, ha, hrest⟩ := hchain.2
  rw [hhead] at hchain
  refine ⟨_, next, removeFromPool_first hhead ha tMex, rfl, chain_tail hchain ha, ?_⟩
  cases rest with
  | nil =>
    -- the passage to empty: tail follows head
    have hnext : next = none := hrest
    simp [hnext]
  | cons c rest =>
    have hnext : next = some c.1 := hrest.1
    simp [hnext, htail, List.getLast?_cons_cons]

end Pointers

def Refines (s : State) (p : Pool) : Prop :=
  s.size = p.size ∧ ∃ cells, Represents s cells ∧ p.cells = cells.map fun c => c.2.message

section Refinement

variable {s : State} {p : Pool}

theorem transactionPoolInit_refines (s : State) :
    Refines (transactionPoolInit s) SimulazioneTransazioni.transactionPoolInit :=
  ⟨rfl, [], ⟨rfl, rfl⟩, rfl⟩

theorem addToPool_refines (h : Refines s p) {a : Addr} (ha : s.heap a = none) (mtype : Int64)
    (message : MsgbufTrans) : ∃ s', addToPool s (some (a, mtype)) message = some (.SUCCESS, s') ∧
      Refines s' (SimulazioneTransazioni.addToPool p message.value.message) := by
  obtain ⟨hsize, cells, hcells, hp⟩ := h
  obtain ⟨s', hs', hsize', hcells'⟩ := addToPool_represents hcells ha mtype message
  exact ⟨s', hs', hsize'.trans hsize, _, hcells', by simp [hp]⟩

theorem removeFromPool_empty (h : Refines s p)
    (hp : SimulazioneTransazioni.removeFromPool p = none) (tMex : MsgbufTrans) :
    removeFromPool s tMex = some (.ERROR, s, tMex) := by
  obtain ⟨-, cells, hcells, hmsgs⟩ := h
  cases cells with
  | nil => exact removeFromPool_nil hcells tMex
  | cons c cells => simp [SimulazioneTransazioni.removeFromPool, hmsgs] at hp

theorem removeFromPool_refines (h : Refines s p) {m : Message} {p' : Pool}
    (hp : SimulazioneTransazioni.removeFromPool p = some (m, p')) (tMex : MsgbufTrans) :
    ∃ s' out, removeFromPool s tMex = some (.SUCCESS, s', out) ∧ out.value.message = m ∧
      Refines s' p' := by
  obtain ⟨hsize, cells, hcells, hmsgs⟩ := h
  cases cells with
  | nil => simp [SimulazioneTransazioni.removeFromPool, hmsgs] at hp
  | cons c cells =>
    rw [SimulazioneTransazioni.removeFromPool, hmsgs] at hp
    cases hp
    obtain ⟨s', next, hs', hsize', hrest⟩ := removeFromPool_cons hcells tMex
    exact ⟨s', _, hs', rfl, hsize'.trans hsize, _, hrest, rfl⟩

end Refinement

section Runs

variable {s s' : State} {log : List Event} {l : Call} {p : Pool}

def Balanced (log : List Event) (p : Pool) : Prop :=
  addedSinceInit log = removedSinceInit log ++ p.cells

theorem observe_removed {out tMex : MsgbufTrans}
    (h : removeFromPool s tMex = some (.SUCCESS, s', out)) :
    observe s (.remove tMex) = [.removed out.value.message] := by
  rw [observe, h]

theorem observe_refused {tMex : MsgbufTrans} (h : removeFromPool s tMex = some (.ERROR, s, tMex)) :
    observe s (.remove tMex) = [] := by
  rw [observe, h]

/-- An operation on the cells is the operation on the sequence, with what it logs. -/
theorem step_balanced (hp : Refines s p) (hlog : Balanced log p) (hfresh : Fresh s l)
    (hn : machine.next s l = some s') :
    ∃ p', Refines s' p' ∧ Balanced (log ++ observe s l) p' := by
  cases l with
  | init =>
    cases hn
    exact ⟨_, transactionPoolInit_refines s, by simp [Balanced, observe,
      SimulazioneTransazioni.transactionPoolInit]⟩
  | add malloc message =>
    obtain ⟨⟨code, t⟩, ht, rfl⟩ := Option.map_eq_some_iff.mp hn
    obtain _ | ⟨a, mtype⟩ := malloc
    · simp [addToPool] at ht
    · obtain ⟨t', ht', hrefines⟩ := addToPool_refines hp hfresh mtype message
      cases Option.some.inj (ht.symm.trans ht')
      refine ⟨_, hrefines, ?_⟩
      unfold Balanced at hlog ⊢
      simp [observe, hlog]
  | remove tMex =>
    obtain ⟨⟨code, t, out⟩, ht, rfl⟩ := Option.map_eq_some_iff.mp hn
    cases hfirst : SimulazioneTransazioni.removeFromPool p with
    | none =>
      have hsame := removeFromPool_empty hp hfirst tMex
      cases Option.some.inj (ht.symm.trans hsame)
      rw [observe_refused hsame, List.append_nil]
      exact ⟨p, hp, hlog⟩
    | some r =>
      obtain ⟨m, p'⟩ := r
      obtain ⟨t', out', ht', hm, hrefines⟩ := removeFromPool_refines hp hfirst tMex
      cases Option.some.inj (ht.symm.trans ht')
      refine ⟨p', hrefines, ?_⟩
      have hcells := removeFromPool_eq_some hfirst
      unfold Balanced at hlog ⊢
      rw [observe_removed ht', hm, addedSinceInit_removed, removedSinceInit_removed, hlog, hcells]
      simp

theorem run_balanced (h : (machine.recorded observe).Reach (fun r l => Fresh r.1 l) (s, log)) :
    ∃ p, Refines s p ∧ Balanced log p := by
  refine (Machine.recorded_invariant (C := Fresh)
    (I := fun r => ∃ p, Refines r.1 p ∧ Balanced r.2 p) h ?_ ?_).2
  · rintro s ⟨hhead, htail⟩
    refine ⟨⟨[], s.size⟩, ⟨rfl, [], ⟨?_, htail⟩, rfl⟩, rfl⟩
    exact hhead
  · rintro s log l s' - ⟨p, hp, hlog⟩ hfresh hn
    exact step_balanced hp hlog hfresh hn

/-- In every state that the calls reach the cells from head form the list that ends in
tail, and they are what was added since the last init and not yet removed, in order. An
empty pool refuses a removal and changes nothing; every other call succeeds. -/
theorem pool_is_fifo
    (h : (machine.recorded observe).Reach (fun r l => Fresh r.1 l) (s, log)) :
    (s.head = none ↔ s.tail = none) ∧
    (∃ cells, Chain s.heap s.head cells ∧ s.tail = cells.getLast?.map Prod.fst ∧
      addedSinceInit log = removedSinceInit log ++ cells.map fun c => c.2.message) ∧
    (∀ t, s.tail = some t → ∃ last, s.heap t = some last ∧ last.next = none) ∧
    (s.head = none → ∀ tMex, removeFromPool s tMex = some (.ERROR, s, tMex)) ∧
    (s.head ≠ none → ∀ tMex, ∃ s' out, removeFromPool s tMex = some (.SUCCESS, s', out)) ∧
    ∀ a, s.heap a = none → ∀ mtype message, ∃ s',
      addToPool s (some (a, mtype)) message = some (.SUCCESS, s') := by
  obtain ⟨p, hp, hlog⟩ := run_balanced h
  obtain ⟨-, cells, hcells, hmsgs⟩ := hp
  have hempty := head_none_iff hcells
  refine ⟨hempty.trans (tail_none_iff hcells).symm, ⟨cells, hcells.1, hcells.2, ?_⟩,
    fun t ht => tail_next_none hcells ht, ?_, ?_, ?_⟩
  · rw [hlog, hmsgs]
  · intro hhead tMex
    rw [hempty.mp hhead] at hcells
    exact removeFromPool_nil hcells tMex
  · intro hhead tMex
    obtain ⟨⟨a, v⟩, rest, rfl⟩ := List.exists_cons_of_ne_nil (mt hempty.mpr hhead)
    obtain ⟨s', next, hs', -⟩ := removeFromPool_cons hcells tMex
    exact ⟨s', _, hs'⟩
  · intro a ha mtype message
    obtain ⟨s', hs', -⟩ := addToPool_represents hcells ha mtype message
    exact ⟨s', hs'⟩

/-- The pool is emptied and filled again with a message that still carries the address of
the cell it is given, and of the two messages in it the first one leaves. -/
theorem pool_is_fifo_again : ∃ s : State, s.head = some 1 ∧
    ∃ cells, Chain s.heap s.head cells ∧ s.tail = cells.getLast?.map Prod.fst ∧
      addedSinceInit [.added ⟨3, .zero⟩, .removed ⟨3, .zero⟩, .added ⟨2, .zero⟩,
          .added ⟨1, .zero⟩, .removed ⟨2, .zero⟩] =
        [⟨3, .zero⟩, ⟨2, .zero⟩] ++ cells.map fun c => c.2.message := by
  have hrun : ∃ s, (machine.recorded observe).runWhile (fun r l => Fresh r.1 l)
      (⟨none, none, 0, fun _ => none⟩, [])
      [.add (some (0, 7)) ⟨⟨1, ⟨3, .zero⟩⟩, none⟩, .remove ⟨⟨0, ⟨0, .zero⟩⟩, none⟩,
        .add (some (0, 0)) ⟨⟨1, ⟨2, .zero⟩⟩, some 0⟩, .add (some (1, 0)) ⟨⟨1, ⟨1, .zero⟩⟩, none⟩,
        .remove ⟨⟨0, ⟨0, .zero⟩⟩, none⟩] =
      some (s, [.added ⟨3, .zero⟩, .removed ⟨3, .zero⟩, .added ⟨2, .zero⟩, .added ⟨1, .zero⟩,
        .removed ⟨2, .zero⟩]) ∧ s.head = some 1 := ⟨_, rfl, rfl⟩
  obtain ⟨s, hs, hhead⟩ := hrun
  exact ⟨s, hhead, (pool_is_fifo ⟨_, ⟨⟨rfl, rfl⟩, rfl⟩, Machine.path_of_runWhile _ hs⟩).2.1⟩

end Runs
end SimulazioneTransazioni.PoolCells

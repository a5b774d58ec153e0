import SimulazioneTransazioni.LkList
import SimulazioneTransazioni.Library.LinkedList
import SimulazioneTransazioni.Library.Machine

/-!
The functions of lklist.c on the cells that malloc gives them. Each loop runs along the
chain of the list, so that it ends within as many rounds as there are cells. The
functions refine the ones on the sequence of the transactions.
-/
namespace SimulazioneTransazioni.LkCells

open LinkedList

abbrev Addr := ℕ

abbrev Memory := Heap Addr Transaction

/-- A NULL answer of malloc is dereferenced all the same. -/
def newNode (heap : Memory) (malloc : Option Addr) (t : Transaction) : Option (Addr × Memory) :=
  malloc.map fun node => (node, Function.update heap node (some ⟨t, none⟩))

/-- The loop of push, with at most n rounds; none when it has not ended then. -/
def pushLoop (heap : Memory) : ℕ → Addr → Option Addr
  | 0, _ => none
  | n + 1, curr => (heap curr).bind fun node =>
    match node.next with
    | none => some curr
    | some next => pushLoop heap n next

/-- The head is not tested, and a NULL one is dereferenced. -/
def push (n : ℕ) (heap : Memory) (head : Option Addr) (malloc : Option Addr) (t : Transaction) :
    Option Memory := do
  let head ← head
  let curr ← pushLoop heap n head
  let (next, heap) ← newNode heap malloc t
  let last ← heap curr
  return Function.update heap curr (some { last with next := some next })

inductive Search
  | absent
  | found (prev : Option Addr) (curr : Addr)
deriving DecidableEq

def searchLoop (heap : Memory) (toSearch : Transaction) :
    ℕ → Option Addr → Addr → Option Search
  | 0, _, _ => none
  | n + 1, prev, curr => (heap curr).bind fun node =>
    if compareTransactions node.value toSearch then some (.found prev curr)
    else
      match node.next with
      | none => some .absent
      | some next => searchLoop heap toSearch n (some curr) next

/-- The memory and the head afterwards. In both branches the link of the cell is read
after its free, which leaves the value there. -/
def findAndRemove (n : ℕ) (heap : Memory) (head : Option Addr) (toSearch : Transaction) :
    Option (Memory × Option Addr) :=
  match head with
  | none => some (heap, head)
  | some first => do
    match ← searchLoop heap toSearch n none first with
    | .absent => return (heap, head)
    | .found prev curr =>
      let removed ← heap curr
      let heap := Function.update heap curr none
      if curr = first then return (heap, removed.next)
      else
        let prev ← prev
        let node ← heap prev
        return (Function.update heap prev (some { node with next := removed.next }), head)

def Agrees (t toSearch : Transaction) : Prop :=
  t.timestamp = toSearch.timestamp ∧ t.amount = toSearch.amount ∧ t.receiver = toSearch.receiver

instance (t toSearch : Transaction) : Decidable (Agrees t toSearch) :=
  inferInstanceAs (Decidable (_ ∧ _ ∧ _))

theorem compare_eq_agrees (t toSearch : Transaction) :
    compareTransactions t toSearch = decide (Agrees t toSearch) := by
  rw [Bool.eq_iff_iff, LkList.compare_iff, decide_eq_true_iff, Agrees]

section Loops

variable {heap : Memory} {cells before after : List (Addr × Transaction)} {curr a : Addr}
variable {t toSearch : Transaction} {n : ℕ} {prev : Option Addr}

/-- The loop of push comes to the last cell. -/
theorem pushLoop_last (h : Chain heap (some curr) (before ++ [(a, t)]))
    (hn : before.length < n) : pushLoop heap n curr = some a := by
  induction before generalizing curr n with
  | nil =>
    obtain ⟨n, rfl⟩ := Nat.exists_eq_add_of_le' (show 1 ≤ n from hn)
    obtain ⟨hcurr, next, ha, hend⟩ := h
    cases hcurr
    cases hend
    simp [pushLoop, ha]
  | cons c before ih =>
    obtain ⟨n, rfl⟩ := Nat.exists_eq_add_of_le' (show 1 ≤ n by omega)
    obtain ⟨hcurr, next, hc, hrest⟩ := h
    cases hcurr
    obtain ⟨next, rfl⟩ := exists_head hrest (by simp)
    rw [List.length_cons] at hn
    rw [pushLoop, hc]
    exact ih hrest (by omega)

/-- Where no cell agrees, the loop of find_and_remove comes to the end. -/
theorem searchLoop_absent (h : Chain heap (some curr) cells)
    (hnone : ∀ c ∈ cells, ¬ Agrees c.2 toSearch) (hn : cells.length ≤ n) :
    searchLoop heap toSearch n prev curr = some .absent := by
  induction cells generalizing curr n prev with
  | nil => cases h
  | cons c rest ih =>
    obtain ⟨n, rfl⟩ := Nat.exists_eq_add_of_le' (show 1 ≤ n from (Nat.succ_pos _).trans_le hn)
    obtain ⟨hcurr, next, hc, hrest⟩ := h
    obtain ⟨hfirst, hnone⟩ := List.forall_mem_cons.mp hnone
    cases hcurr
    rw [searchLoop, hc, Option.bind_some, compare_eq_agrees, decide_eq_false hfirst]
    cases next with
    | none => rfl
    | some next => exact ih hrest hnone (Nat.le_of_succ_le_succ hn)

/-- Else it stops at the first cell that agrees, with prev at the one before it. -/
theorem searchLoop_found (prev : Option Addr)
    (h : Chain heap (some curr) (before ++ (a, t) :: after))
    (hnone : ∀ c ∈ before, ¬ Agrees c.2 toSearch) (ht : Agrees t toSearch)
    (hn : before.length < n) : searchLoop heap toSearch n prev curr =
      some (.found ((before.getLast?.map Prod.fst).or prev) a) := by
  induction before generalizing curr n prev with
  | nil =>
    obtain ⟨n, rfl⟩ := Nat.exists_eq_add_of_le' (show 1 ≤ n from hn)
    obtain ⟨hcurr, next, ha, hrest⟩ := h
    cases hcurr
    rw [searchLoop, ha, Option.bind_some, compare_eq_agrees, decide_eq_true ht]
    rfl
  | cons c before ih =>
    obtain ⟨n, rfl⟩ := Nat.exists_eq_add_of_le' (show 1 ≤ n by omega)
    obtain ⟨hcurr, next, hc, hrest⟩ := h
    obtain ⟨hfirst, hnone⟩ := List.forall_mem_cons.mp hnone
    cases hcurr
    obtain ⟨next, rfl⟩ := exists_head hrest (by simp)
    rw [searchLoop, hc, Option.bind_some, compare_eq_agrees, decide_eq_false hfirst]
    rw [List.length_cons] at hn
    refine (ih (some _) hrest hnone (by omega)).trans ?_
    rw [List.getLast?_cons]
    cases before.getLast? <;> rfl

end Loops

section Operations

variable {heap : Memory} {head : Option Addr} {cells : List (Addr × Transaction)} {n : ℕ}

/-- The new cell is linked after the last one, and no other cell is written. -/
theorem push_chain (h : Chain heap head cells) (hne : cells ≠ []) (hn : cells.length ≤ n)
    {node : Addr} (hfresh : heap node = none) (t : Transaction) :
    ∃ heap', push n heap head (some node) t = some heap' ∧
      Chain heap' head (cells ++ [(node, t)]) ∧
      ∀ b, b ≠ node → b ∉ cells.map Prod.fst → heap' b = heap b := by
  obtain rfl | ⟨before, ⟨a, last⟩, rfl⟩ := List.eq_nil_or_concat' cells
  · exact absurd rfl hne
  obtain ⟨first, rfl⟩ := exists_head h hne
  have ha := chain_last h
  have hane : a ≠ node := by
    rintro rfl
    rw [ha] at hfresh
    cases hfresh
  rw [List.length_append, List.length_singleton] at hn
  have hloop := pushLoop_last h (show before.length < n by omega)
  refine ⟨_, ?_, chain_snoc h hfresh, ?_⟩
  · simp [push, hloop, newNode, Function.update_of_ne hane, ha]
  · intro b hb hmem
    rw [Function.update_of_ne (ne_of_not_mem hmem (List.mem_concat_self ..)),
      Function.update_of_ne hb]

/-- A list in which no transaction agrees is left as it is. -/
theorem findAndRemove_absent (h : Chain heap head cells) {toSearch : Transaction}
    (hnone : ∀ c ∈ cells, ¬ Agrees c.2 toSearch) (hn : cells.length ≤ n) :
    findAndRemove n heap head toSearch = some (heap, head) := by
  cases head with
  | none => rfl
  | some first => simp [findAndRemove, searchLoop_absent h hnone hn]

/-- The first cell agrees: the head moves on. -/
theorem findAndRemove_first {after : List (Addr × Transaction)} {a : Addr}
    {t toSearch : Transaction} (h : Chain heap head ((a, t) :: after))
    (ht : Agrees t toSearch) (hn : 0 < n) :
    ∃ next, findAndRemove n heap head toSearch = some (Function.update heap a none, next) ∧
      Chain (Function.update heap a none) next after := by
  obtain ⟨rfl, next, ha, -⟩ := id h
  have hcells : Chain heap (some a) ([] ++ (a, t) :: after) := h
  have hloop := searchLoop_found none hcells (by simp) ht hn
  refine ⟨next, ?_, chain_tail h ha⟩
  simp [findAndRemove, hloop, ha]

/-- A later one does: the cell before it takes its link, and the head stays. -/
theorem findAndRemove_later {before after : List (Addr × Transaction)} {p a : Addr}
    {v t toSearch : Transaction} (h : Chain heap head (before ++ [(p, v)] ++ (a, t) :: after))
    (hnone : ∀ c ∈ before ++ [(p, v)], ¬ Agrees c.2 toSearch) (ht : Agrees t toSearch)
    (hn : (before ++ [(p, v)]).length < n) :
    ∃ next, findAndRemove n heap head toSearch =
        some (Function.update (Function.update heap a none) p (some ⟨v, next⟩), head) ∧
      Chain (Function.update (Function.update heap a none) p (some ⟨v, next⟩)) head
        (before ++ [(p, v)] ++ after) := by
  obtain ⟨first, rfl⟩ := exists_head h (by simp)
  have hloop := searchLoop_found none h hnone ht hn
  have hfirst := ne_first h (by simp)
  obtain ⟨-, -, -, next, ha, -⟩ := segment_append.mp h
  rw [List.append_assoc, List.singleton_append] at h ⊢
  have hp := chain_linked h
  have hpa : p ≠ a := by
    rintro rfl
    have hself := chain_nodup h
    simp [List.nodup_append] at hself
  refine ⟨next, ?_, chain_unlink h ha⟩
  simp [findAndRemove, hloop, ha, hfirst, hp, Function.update_of_ne hpa]

/-- The first transaction that agrees goes, with its cell. -/
theorem findAndRemove_found {before after : List (Addr × Transaction)} {a : Addr}
    {t toSearch : Transaction} (h : Chain heap head (before ++ (a, t) :: after))
    (hnone : ∀ c ∈ before, ¬ Agrees c.2 toSearch) (ht : Agrees t toSearch)
    (hn : before.length < n) :
    ∃ heap' head', findAndRemove n heap head toSearch = some (heap', head') ∧
      Chain heap' head' (before ++ after) ∧
      ∀ b, b ∉ (before ++ (a, t) :: after).map Prod.fst → heap' b = heap b := by
  rcases List.eq_nil_or_concat' before with rfl | ⟨before, ⟨p, v⟩, rfl⟩
  · obtain ⟨next, hremoved, hchain⟩ := findAndRemove_first h ht hn
    refine ⟨_, next, hremoved, hchain, ?_⟩
    intro b hb
    exact Function.update_of_ne (ne_of_not_mem hb List.mem_cons_self) _ _
  · obtain ⟨next, hremoved, hchain⟩ := findAndRemove_later h hnone ht hn
    refine ⟨_, head, hremoved, hchain, ?_⟩
    intro b hb
    have hba : b ≠ a := ne_of_not_mem hb (v := t) (by simp)
    have hbp : b ≠ p := ne_of_not_mem hb (v := v) (by simp)
    rw [Function.update_of_ne hbp, Function.update_of_ne hba]

/-- The list without its first transaction that agrees, if there is one. -/
theorem findAndRemove_chain (h : Chain heap head cells) (hn : cells.length ≤ n)
    (toSearch : Transaction) :
    ∃ heap' head', findAndRemove n heap head toSearch = some (heap', head') ∧
      Chain heap' head' (cells.eraseP fun c => Agrees c.2 toSearch) ∧
      ∀ b, b ∉ cells.map Prod.fst → heap' b = heap b := by
  rcases List.exists_or_eq_self_of_eraseP (fun c => decide (Agrees c.2 toSearch)) cells with
    hself | ⟨⟨a, t⟩, before, after, hnone, ht, rfl, herase⟩
  · have hnone : ∀ c ∈ cells, ¬ Agrees c.2 toSearch := by
      simpa using List.eraseP_eq_self_iff.mp hself
    refine ⟨heap, head, findAndRemove_absent h hnone hn, ?_, fun _ _ => rfl⟩
    rw [hself]
    exact h
  · have hnone' : ∀ c ∈ before, ¬ Agrees c.2 toSearch := by simpa using hnone
    rw [List.length_append, List.length_cons] at hn
    rw [herase]
    exact findAndRemove_found h hnone' (of_decide_eq_true ht) (by omega)

/-- On every list push appends and find_and_remove takes out the first transaction that
agrees, with as many rounds as there are cells. The cells that stay are the same ones, and
no memory outside of the list is written but the new cell. -/
theorem list_operations (h : Chain heap head cells) (hn : cells.length ≤ n) :
    (cells ≠ [] → ∀ node, heap node = none → ∀ t, ∃ heap',
      push n heap head (some node) t = some heap' ∧ Chain heap' head (cells ++ [(node, t)]) ∧
      ∀ b, b ≠ node → b ∉ cells.map Prod.fst → heap' b = heap b) ∧
    ∀ toSearch, ∃ heap' head', findAndRemove n heap head toSearch = some (heap', head') ∧
      Chain heap' head' (cells.eraseP fun c => Agrees c.2 toSearch) ∧
      head' = (cells.eraseP fun c => Agrees c.2 toSearch).head?.map Prod.fst ∧
      (∀ b, b ∉ cells.map Prod.fst → heap' b = heap b) ∧
      ((∀ c ∈ cells, ¬ Agrees c.2 toSearch) → heap' = heap ∧ head' = head) := by
  refine ⟨fun hne node hfresh t => push_chain h hne hn hfresh t, fun toSearch => ?_⟩
  obtain ⟨heap', head', hremoved, hchain, hframe⟩ := findAndRemove_chain h hn toSearch
  refine ⟨heap', head', hremoved, hchain, chain_head hchain, hframe, ?_⟩
  intro hnone
  rw [findAndRemove_absent h hnone hn] at hremoved
  cases hremoved
  exact ⟨rfl, rfl⟩

def sent (amount : Int32) : Transaction := { Transaction.zero with amount := amount }

def threeCells : Memory := fun a => [⟨sent 3, some 1⟩, ⟨sent 7, some 2⟩, ⟨sent 7, none⟩][a]?

/-- A fourth transaction is appended; of two that agree the one in the middle goes. -/
theorem list_operations_three :
    (∃ heap', push 3 threeCells (some 0) (some 3) (sent 5) = some heap' ∧
      Chain heap' (some 0) [(0, sent 3), (1, sent 7), (2, sent 7), (3, sent 5)]) ∧
    ∃ heap' head', findAndRemove 3 threeCells (some 0) (sent 7) = some (heap', head') ∧
      Chain heap' head' [(0, sent 3), (2, sent 7)] := by
  have hcells : Chain threeCells (some 0) [(0, sent 3), (1, sent 7), (2, sent 7)] :=
    ⟨rfl, _, rfl, rfl, _, rfl, rfl, _, rfl, rfl⟩
  obtain ⟨hpush, hremove⟩ := list_operations (n := 3) hcells (by decide)
  obtain ⟨heap₁, hpushed, happended, -⟩ := hpush (by simp) 3 rfl (sent 5)
  obtain ⟨heap₂, head₂, hremoved, hchain, -⟩ := hremove (sent 7)
  exact ⟨⟨heap₁, hpushed, happended⟩, heap₂, head₂, hremoved, hchain⟩

end Operations

def Refines (heap : Memory) (head : Option Addr) (outGoing : List Transaction) : Prop :=
  ∃ cells, Chain heap head cells ∧ cells.map Prod.snd = outGoing

section Refinement

variable {heap : Memory} {head : Option Addr} {outGoing : List Transaction} {n : ℕ}

theorem findAndRemove_eq_eraseP (outGoing : List Transaction) (toSearch : Transaction) :
    SimulazioneTransazioni.findAndRemove outGoing toSearch =
      outGoing.eraseP fun t => Agrees t toSearch := by
  induction outGoing with
  | nil => rfl
  | cons curr rest ih =>
    rw [SimulazioneTransazioni.findAndRemove, compare_eq_agrees, List.eraseP_cons, ih]
    by_cases h : Agrees curr toSearch
    · simp [h]
    · simp [h]

theorem findAndRemove_refines (h : Refines heap head outGoing) (hn : outGoing.length ≤ n)
    (toSearch : Transaction) :
    ∃ heap' head', findAndRemove n heap head toSearch = some (heap', head') ∧
      Refines heap' head' (SimulazioneTransazioni.findAndRemove outGoing toSearch) := by
  obtain ⟨cells, hcells, rfl⟩ := h
  rw [List.length_map] at hn
  obtain ⟨heap', head', hremoved, hchain, -⟩ := findAndRemove_chain hcells hn toSearch
  refine ⟨heap', head', hremoved, _, hchain, ?_⟩
  rw [findAndRemove_eq_eraseP, List.eraseP_map]
  rfl

/-- The end of send_transaction, which starts the list or appends to it. -/
def track (n : ℕ) (heap : Memory) (outGoingTransactions : Option Addr) (malloc : Option Addr)
    (sent : Transaction) : Option (Memory × Option Addr) :=
  match outGoingTransactions with
  | none => (newNode heap malloc sent).map fun node => (node.2, some node.1)
  | some _ => (push n heap outGoingTransactions malloc sent).map fun heap =>
      (heap, outGoingTransactions)

/-- The end of send_transaction appends to the list that the cells hold. -/
theorem track_refines (h : Refines heap head outGoing) (hn : outGoing.length ≤ n) {node : Addr}
    (hfresh : heap node = none) (sent : Transaction) :
    ∃ heap' head', track n heap head (some node) sent = some (heap', head') ∧
      Refines heap' head' (SimulazioneTransazioni.push outGoing sent) := by
  obtain ⟨cells, hcells, rfl⟩ := h
  rw [List.length_map] at hn
  cases hhead : head with
  | none =>
    rw [hhead] at hcells
    have hnil : cells = [] := chain_unique hcells rfl
    rw [hnil]
    exact ⟨_, _, rfl, [(node, sent)], chain_singleton (Function.update_self _ _ _), rfl⟩
  | some first =>
    rw [hhead] at hcells
    have hne : cells ≠ [] := by
      rintro rfl
      cases hcells
    obtain ⟨heap', hpushed, hchain, -⟩ := push_chain hcells hne hn hfresh sent
    refine ⟨heap', some first, ?_, _, hchain, List.map_append⟩
    rw [track, hpushed]
    rfl

end Refinement

structure State where
  outGoingTransactions : Option Addr
  heap : Memory

inductive Call
  | track (n : ℕ) (malloc : Option Addr) (sent : Transaction)
  | remove (n : ℕ) (toSearch : Transaction)

def machine : Machine State Call where
  start s := s.outGoingTransactions = none
  next s
    | .track n malloc sent => (track n s.heap s.outGoingTransactions malloc sent).map fun r =>
        ⟨r.2, r.1⟩
    | .remove n toSearch => (findAndRemove n s.heap s.outGoingTransactions toSearch).map fun r =>
        ⟨r.2, r.1⟩

def Fresh (s : State) : Call → Prop
  | .track _ malloc _ => ∀ node ∈ malloc, s.heap node = none
  | .remove _ _ => True

def Call.apply (outGoing : List Transaction) : Call → List Transaction
  | .track _ _ sent => SimulazioneTransazioni.push outGoing sent
  | .remove _ toSearch => SimulazioneTransazioni.findAndRemove outGoing toSearch

section Rounds

variable {heap heap' : Memory} {head head' : Option Addr} {n m : ℕ}

/-- A loop that has ended does not need more rounds. -/
theorem pushLoop_mono {curr a : Addr} (h : pushLoop heap n curr = some a) (hle : n ≤ m) :
    pushLoop heap m curr = some a := by
  induction n generalizing m curr with
  | zero => cases h
  | succ n ih =>
    obtain ⟨m, rfl⟩ := Nat.exists_eq_add_of_le' (Nat.le_trans (Nat.succ_pos n) hle)
    rw [pushLoop] at h ⊢
    obtain ⟨node, hnode, hrest⟩ := Option.bind_eq_some_iff.mp h
    rw [hnode, Option.bind_some]
    cases hnext : node.next with
    | none =>
      rw [hnext] at hrest
      exact hrest
    | some next =>
      rw [hnext] at hrest
      exact ih hrest (Nat.le_of_succ_le_succ hle)

theorem searchLoop_mono {toSearch : Transaction} {prev : Option Addr} {curr : Addr} {r : Search}
    (h : searchLoop heap toSearch n prev curr = some r) (hle : n ≤ m) :
    searchLoop heap toSearch m prev curr = some r := by
  induction n generalizing m prev curr with
  | zero => cases h
  | succ n ih =>
    obtain ⟨m, rfl⟩ := Nat.exists_eq_add_of_le' (Nat.le_trans (Nat.succ_pos n) hle)
    rw [searchLoop] at h ⊢
    obtain ⟨node, hnode, hrest⟩ := Option.bind_eq_some_iff.mp h
    rw [hnode, Option.bind_some]
    split at hrest
    next hcompare =>
      rw [if_pos hcompare]
      exact hrest
    next hcompare =>
      rw [if_neg hcompare]
      cases hnext : node.next with
      | none =>
        rw [hnext] at hrest
        exact hrest
      | some next =>
        rw [hnext] at hrest
        exact ih hrest (Nat.le_of_succ_le_succ hle)

theorem track_mono {malloc : Option Addr} {sent : Transaction}
    (h : track n heap head malloc sent = some (heap', head')) (hle : n ≤ m) :
    track m heap head malloc sent = some (heap', head') := by
  cases head with
  | none => exact h
  | some first =>
    obtain ⟨heap₁, hpushed, hr⟩ := Option.map_eq_some_iff.mp h
    obtain ⟨curr, hloop, hrest⟩ := Option.bind_eq_some_iff.mp hpushed
    refine Option.map_eq_some_iff.mpr ⟨heap₁, ?_, hr⟩
    exact Option.bind_eq_some_iff.mpr ⟨curr, pushLoop_mono hloop hle, hrest⟩

theorem findAndRemove_mono {toSearch : Transaction}
    (h : findAndRemove n heap head toSearch = some (heap', head')) (hle : n ≤ m) :
    findAndRemove m heap head toSearch = some (heap', head') := by
  cases head with
  | none => exact h
  | some first =>
    obtain ⟨r, hloop, hrest⟩ := Option.bind_eq_some_iff.mp h
    exact Option.bind_eq_some_iff.mpr ⟨r, searchLoop_mono hloop hle, hrest⟩

end Rounds

section Runs

variable {s s' : State} {outGoing : List Transaction} {log : List Call} {l : Call}

/-- A call on the cells is the call on the list. -/
theorem step_refines (h : Refines s.heap s.outGoingTransactions outGoing) (hfresh : Fresh s l)
    (hn : machine.next s l = some s') :
    Refines s'.heap s'.outGoingTransactions (l.apply outGoing) := by
  cases l with
  | track n malloc sent =>
    obtain ⟨⟨heap', head'⟩, htracked, rfl⟩ := Option.map_eq_some_iff.mp hn
    cases malloc with
    | none =>
      cases hhead : s.outGoingTransactions <;> simp [track, push, newNode, hhead] at htracked
    | some node =>
      obtain ⟨heap₁, head₁, hmore, hrefines⟩ :=
        track_refines h (le_max_right n outGoing.length) (hfresh node rfl) sent
      cases Option.some.inj ((track_mono htracked (le_max_left n _)).symm.trans hmore)
      exact hrefines
  | remove n toSearch =>
    obtain ⟨⟨heap', head'⟩, hremoved, rfl⟩ := Option.map_eq_some_iff.mp hn
    obtain ⟨heap₁, head₁, hmore, hrefines⟩ :=
      findAndRemove_refines h (le_max_right n outGoing.length) toSearch
    cases Option.some.inj ((findAndRemove_mono hremoved (le_max_left n _)).symm.trans hmore)
    exact hrefines

/-- In every run the cells hold what the calls have made of the empty sequence. -/
theorem run_refines
    (h : (machine.recorded fun _ l => [l]).Reach (fun r l => Fresh r.1 l) (s, log)) :
    Refines s.heap s.outGoingTransactions (log.foldl Call.apply []) := by
  refine (Machine.recorded_invariant (C := Fresh)
    (I := fun r => Refines r.1.heap r.1.outGoingTransactions (r.2.foldl Call.apply []))
    h ?_ ?_).2
  · intro s hstart
    exact ⟨[], hstart, rfl⟩
  · intro s log l s' _ hrefines hfresh hn
    rw [List.foldl_append]
    exact step_refines hrefines hfresh hn

end Runs
end SimulazioneTransazioni.LkCells

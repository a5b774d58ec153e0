import Mathlib.Logic.Function.Basic
import Mathlib.Data.List.Nodup

/-!
Singly linked cells in a heap. A segment is the sequence of the cells between two
pointers, a chain one that ends in NULL. A pointer has one chain, which visits no cell
twice, and a write at an address outside of a segment leaves it as it was.
-/
namespace SimulazioneTransazioni.LinkedList

variable {α β : Type*}

structure Cell (α β : Type*) where
  value : β
  next : Option α

/-- What is allocated at each address; the pointer none is NULL. -/
abbrev Heap (α β : Type*) := α → Option (Cell α β)

def Segment (heap : Heap α β) : Option α → List (α × β) → Option α → Prop
  | p, [], q => p = q
  | p, (a, v) :: rest, q => p = some a ∧ ∃ next, heap a = some ⟨v, next⟩ ∧ Segment heap next rest q

def Chain (heap : Heap α β) (p : Option α) (cells : List (α × β)) : Prop :=
  Segment heap p cells none

section Segments

variable {heap heap' : Heap α β} {p q : Option α} {cells rest : List (α × β)}

theorem segment_append : Segment heap p (cells ++ rest) q ↔
    ∃ r, Segment heap p cells r ∧ Segment heap r rest q := by
  induction cells generalizing p with
  | nil => simp [Segment]
  | cons c cells ih =>
    obtain ⟨a, v⟩ := c
    simp only [List.cons_append, Segment, ih]
    constructor
    · rintro ⟨hp, next, ha, r, hcells, hrest⟩
      exact ⟨r, ⟨hp, next, ha, hcells⟩, hrest⟩
    · rintro ⟨r, ⟨hp, next, ha, hcells⟩, hrest⟩
      exact ⟨hp, next, ha, r, hcells, hrest⟩

/-- The frame rule. -/
theorem segment_congr (h : ∀ a ∈ cells.map Prod.fst, heap' a = heap a)
    (hs : Segment heap p cells q) : Segment heap' p cells q := by
  induction cells generalizing p with
  | nil => exact hs
  | cons c cells ih =>
    obtain ⟨a, v⟩ := c
    obtain ⟨hp, next, ha, hcells⟩ := hs
    rw [List.map_cons, List.forall_mem_cons] at h
    exact ⟨hp, next, h.1.trans ha, ih h.2 hcells⟩

theorem allocated_of_mem (hs : Segment heap p cells q) {a : α} (ha : a ∈ cells.map Prod.fst) :
    heap a ≠ none := by
  induction cells generalizing p with
  | nil => exact absurd ha List.not_mem_nil
  | cons c cells ih =>
    obtain ⟨b, v⟩ := c
    obtain ⟨-, next, hb, hcells⟩ := hs
    rcases List.mem_cons.mp ha with rfl | hmem
    · rw [hb]
      exact Option.some_ne_none _
    · exact ih hcells hmem

theorem chain_unique {cells' : List (α × β)} (h : Chain heap p cells) (h' : Chain heap p cells') :
    cells = cells' := by
  induction cells generalizing p cells' with
  | nil =>
    cases cells' with
    | nil => rfl
    | cons c cells' => exact absurd (h.symm.trans h'.1) (Option.some_ne_none _).symm
  | cons c cells ih =>
    obtain ⟨a, v⟩ := c
    obtain ⟨hp, next, ha, hcells⟩ := h
    cases cells' with
    | nil => exact absurd (hp.symm.trans h') (Option.some_ne_none _)
    | cons c' cells' =>
      obtain ⟨a', v'⟩ := c'
      obtain ⟨hp', next', ha', hcells'⟩ := h'
      cases Option.some.inj (hp.symm.trans hp')
      cases Option.some.inj (ha.symm.trans ha')
      rw [ih hcells hcells']

theorem ne_of_not_mem {a b : α} {v : β} (hb : b ∉ cells.map Prod.fst) (ha : (a, v) ∈ cells) :
    b ≠ a := by
  rintro rfl
  exact hb (List.mem_map_of_mem ha)

theorem chain_head (h : Chain heap p cells) : p = cells.head?.map Prod.fst := by
  cases cells with
  | nil => exact h
  | cons c cells => exact h.1

theorem exists_head (h : Chain heap p cells) (hne : cells ≠ []) : ∃ a, p = some a := by
  cases cells with
  | nil => exact absurd rfl hne
  | cons c cells => exact ⟨c.1, h.1⟩

/-- A chain is finite, so that it does not come back to a cell. -/
theorem chain_nodup (h : Chain heap p cells) : (cells.map Prod.fst).Nodup := by
  induction cells generalizing p with
  | nil => exact List.nodup_nil
  | cons c cells ih =>
    obtain ⟨a, v⟩ := c
    have hchain : Chain heap (some a) ((a, v) :: cells) := by
      rw [← h.1]
      exact h
    obtain ⟨-, next, ha, hcells⟩ := h
    rw [List.map_cons, List.nodup_cons]
    refine ⟨?_, ih hcells⟩
    intro hmem
    obtain ⟨⟨b, w⟩, hc, hb⟩ := List.mem_map.mp hmem
    cases hb
    obtain ⟨before, after, rfl⟩ := List.append_of_mem hc
    obtain ⟨r, -, hagain⟩ := segment_append.mp hcells
    have hr : r = some a := hagain.1
    rw [hr] at hagain
    have hsame := congrArg List.length (chain_unique hchain hagain)
    rw [List.length_cons, List.length_append, List.length_cons] at hsame
    omega

theorem chain_singleton {a : α} {v : β} (ha : heap a = some ⟨v, none⟩) :
    Chain heap (some a) [(a, v)] :=
  ⟨rfl, none, ha, rfl⟩

/-- The last cell of a chain has no next one. -/
theorem chain_last {t : α} {v : β} (h : Chain heap p (cells ++ [(t, v)])) :
    heap t = some ⟨v, none⟩ := by
  obtain ⟨r, -, -, next, ht, hend⟩ := segment_append.mp h
  have hnone : next = none := hend
  rw [ht, hnone]

/-- A cell leads to the one after it. -/
theorem chain_linked {t a : α} {v w : β}
    (h : Chain heap p (cells ++ (t, v) :: (a, w) :: rest)) : heap t = some ⟨v, some a⟩ := by
  obtain ⟨r, -, -, next, ht, hnext, -⟩ := segment_append.mp h
  rw [ht, hnext]

/-- The first cell is not one that others come before. -/
theorem ne_first {first a : α} {v : β} (h : Chain heap (some first) (cells ++ (a, v) :: rest))
    (hne : cells ≠ []) : a ≠ first := by
  obtain ⟨c, cells, rfl⟩ := List.exists_cons_of_ne_nil hne
  have hnodup := chain_nodup h
  rw [List.cons_append, List.map_cons, List.nodup_cons] at hnodup
  rintro rfl
  apply hnodup.1
  rw [← Option.some.inj h.1]
  simp

end Segments

section Updates

variable [DecidableEq α] {heap : Heap α β} {p : Option α} {a t : α} {v w : β}
variable {before rest : List (α × β)}

theorem segment_update {q : Option α} {c : Option (Cell α β)} (ha : a ∉ before.map Prod.fst)
    (hs : Segment heap p before q) : Segment (Function.update heap a c) p before q := by
  refine segment_congr (fun b hb => ?_) hs
  have hne : b ≠ a := fun h => ha (h ▸ hb)
  exact Function.update_of_ne hne _ _

/-- A fresh cell is written and the last cell of the chain is linked to it. -/
theorem chain_snoc (h : Chain heap p (before ++ [(t, v)])) (ha : heap a = none) :
    Chain (Function.update (Function.update heap a (some ⟨w, none⟩)) t (some ⟨v, some a⟩)) p
      (before ++ [(t, v)] ++ [(a, w)]) := by
  have hnodup := chain_nodup h
  rw [List.map_append, List.nodup_append] at hnodup
  have ht : t ∉ before.map Prod.fst := fun hmem => hnodup.2.2 t hmem t (by simp) rfl
  have hat : a ≠ t := by
    rintro rfl
    rw [chain_last h] at ha
    cases ha
  obtain ⟨r, hbefore, hr, -⟩ := segment_append.mp h
  have ha' : a ∉ before.map Prod.fst := fun hmem => allocated_of_mem hbefore hmem ha
  rw [List.append_assoc]
  refine segment_append.mpr ⟨r, segment_update ht (segment_update ha' hbefore), hr, some a, ?_, ?_⟩
  · exact Function.update_self _ _ _
  · refine chain_singleton ?_
    rw [Function.update_of_ne hat, Function.update_self]

/-- The first cell of a chain is given back. -/
theorem chain_tail {next : Option α} (h : Chain heap (some a) ((a, v) :: rest))
    (ha : heap a = some ⟨v, next⟩) : Chain (Function.update heap a none) next rest := by
  have hnodup := chain_nodup h
  rw [List.map_cons, List.nodup_cons] at hnodup
  obtain ⟨-, next', ha', hrest⟩ := h
  cases Option.some.inj (ha.symm.trans ha')
  exact segment_update hnodup.1 hrest

/-- The cell after another one is given back, and the one before it takes its link. -/
theorem chain_unlink {next : Option α} {after : List (α × β)}
    (h : Chain heap p (before ++ (t, v) :: (a, w) :: after)) (ha : heap a = some ⟨w, next⟩) :
    Chain (Function.update (Function.update heap a none) t (some ⟨v, next⟩)) p
      (before ++ (t, v) :: after) := by
  have hnodup := chain_nodup h
  rw [List.map_append, List.nodup_append, List.map_cons, List.map_cons, List.nodup_cons,
    List.nodup_cons] at hnodup
  obtain ⟨-, ⟨hrest, hafter, -⟩, hdisjoint⟩ := hnodup
  have ht : t ∉ before.map Prod.fst := fun hmem => hdisjoint t hmem t List.mem_cons_self rfl
  have ha' : a ∉ before.map Prod.fst :=
    fun hmem => hdisjoint a hmem a (List.mem_cons_of_mem t List.mem_cons_self) rfl
  have ht' : t ∉ after.map Prod.fst := fun hmem => hrest (List.mem_cons_of_mem a hmem)
  obtain ⟨r, hbefore, hr, -, -, -, next', hnext, hend⟩ := segment_append.mp h
  cases Option.some.inj (ha.symm.trans hnext)
  refine segment_append.mpr ⟨r, segment_update ht (segment_update ha' hbefore), hr, next, ?_, ?_⟩
  · exact Function.update_self _ _ _
  · exact segment_update ht' (segment_update hafter hend)

end Updates
end SimulazioneTransazioni.LinkedList

import SimulazioneTransazioni.Library.Machine
import Mathlib.Data.Fintype.Basic
import Mathlib.Logic.Function.Basic

/-!
A reader that collects the cells of a shared memory one at a time, in any order,
while a machine goes on changing them. Where a cell that is not blank never changes
again, a collected cell holds its value at the end, or was blank when the reader
began. Where the cells moreover fill up one after the other, the collected cells
before the first blank one are those of a single moment of the collection.
-/
namespace SimulazioneTransazioni.Collect

variable {S L K V : Type*} [DecidableEq K]

def machine (M : Machine S L) (cell : S → K → V) : Machine (S × (K → Option V)) (L ⊕ K) where
  start r := M.start r.1 ∧ r.2 = fun _ => none
  next r
    | .inl l => (M.next r.1 l).map fun s => (s, r.2)
    | .inr k =>
      if (r.2 k).isNone then some (r.1, Function.update r.2 k (some (cell r.1 k))) else none

abbrev watched (M : Machine S L) (cell : S → K → V) :
    Machine ((S × (K → Option V)) × List S) (L ⊕ K) :=
  (machine M cell).recorded fun r _ => [r.1]

def lift (C : S → L → Prop) : (S × (K → Option V)) × List S → L ⊕ K → Prop
  | r, .inl l => C r.1.1 l
  | _, .inr _ => True

def begun (s : S) : (S × (K → Option V)) × List S := ((s, fun _ => none), [])

variable {M : Machine S L} {C : S → L → Prop} {I : S → Prop} {cell : S → K → V}
  {blank : V → Prop}

/-- A step of the machine leaves what was collected. A read leaves the machine, and what
the reader then holds is what it held before or what is in the cell. -/
theorem watched_cases {r r' : (S × (K → Option V)) × List S} {l : L ⊕ K}
    (hn : (watched M cell).next r l = some r') :
    r'.2 = r.2 ++ [r.1.1] ∧
      ((∃ l', l = .inl l' ∧ M.next r.1.1 l' = some r'.1.1 ∧ r'.1.2 = r.1.2) ∨
        r'.1.1 = r.1.1 ∧ ∀ k v, r'.1.2 k = some v → v = cell r.1.1 k ∨ r.1.2 k = some v) := by
  obtain ⟨q, hq, rfl⟩ := Option.map_eq_some_iff.mp hn
  refine ⟨rfl, ?_⟩
  cases l with
  | inl l =>
    obtain ⟨s', hs', rfl⟩ := Option.map_eq_some_iff.mp hq
    exact Or.inl ⟨l, rfl, hs', rfl⟩
  | inr k₀ =>
    simp only [machine] at hq
    split at hq
    · cases hq
      refine Or.inr ⟨rfl, fun k v hk => ?_⟩
      change Function.update r.1.2 k₀ (some (cell r.1.1 k₀)) k = some v at hk
      by_cases hkk : k = k₀
      · subst hkk
        rw [Function.update_self, Option.some.injEq] at hk
        exact Or.inl hk.symm
      · rw [Function.update_of_ne hkk] at hk
        exact Or.inr hk
    · contradiction

/-- A cell that is not blank never changes, in the runs where I holds. -/
structure WriteOnce (M : Machine S L) (C : S → L → Prop) (I : S → Prop) (cell : S → K → V)
    (blank : V → Prop) : Prop where
  invariant : ∀ s l s', I s → C s l → M.next s l = some s' → I s'
  kept : ∀ s l s', I s → C s l → M.next s l = some s' →
    ∀ k, ¬ blank (cell s k) → cell s' k = cell s k

structure Collected (I : S → Prop) (cell : S → K → V) (blank : V → Prop) (s₀ : S)
    (r : S × (K → Option V)) : Prop where
  holds : I r.1
  kept : ∀ k, ¬ blank (cell s₀ k) → cell r.1 k = cell s₀ k
  full : ∀ k v, r.2 k = some v → ¬ blank v → cell r.1 k = v
  empty : ∀ k v, r.2 k = some v → blank v → blank (cell s₀ k)

/-- What the reader holds was in the cells at some state since it began. -/
theorem collected_next (h : WriteOnce M C I cell blank) {s₀ : S}
    {r r' : (S × (K → Option V)) × List S} {l : L ⊕ K} (hr : Collected I cell blank s₀ r.1)
    (hC : lift C r l) (hn : (watched M cell).next r l = some r') :
    Collected I cell blank s₀ r'.1 := by
  obtain ⟨-, ⟨l', rfl, hs', hheld⟩ | ⟨hsame, hheld⟩⟩ := watched_cases hn
  · have hcell := h.kept r.1.1 l' r'.1.1 hr.holds hC hs'
    refine ⟨h.invariant r.1.1 l' r'.1.1 hr.holds hC hs', fun k hk => ?_, fun k v hk hv => ?_,
      fun k v hk hv => ?_⟩
    · rw [hcell k (by rwa [hr.kept k hk]), hr.kept k hk]
    · rw [hheld] at hk
      rw [hcell k (by rwa [hr.full k v hk hv]), hr.full k v hk hv]
    · rw [hheld] at hk
      exact hr.empty k v hk hv
  · refine ⟨by rw [hsame]; exact hr.holds, fun k hk => by rw [hsame]; exact hr.kept k hk,
      fun k v hk hv => ?_, fun k v hk hv => ?_⟩
    · rw [hsame]
      rcases hheld k v hk with hread | hold
      · exact hread.symm
      · exact hr.full k v hold hv
    · rcases hheld k v hk with hread | hold
      · by_contra hfull
        rw [hread, hr.kept k hfull] at hv
        exact hfull hv
      · exact hr.empty k v hold hv

section Moment

/-- The cells that are not blank are the first ones, and a step fills at most one. -/
structure Filling {n : ℕ} (M : Machine S L) (C : S → L → Prop) (I : S → Prop)
    (cell : S → Fin n → V) (blank : V → Prop) (count : S → ℕ) : Prop
    extends WriteOnce M C I cell blank where
  filled : ∀ s, I s → ∀ k : Fin n, ¬ blank (cell s k) ↔ k.val < count s
  one : ∀ s l s', I s → C s l → M.next s l = some s' → count s' ≤ count s + 1
  le : ∀ s, I s → count s ≤ n

variable {n m : ℕ} {cell : S → Fin n → V} {count : S → ℕ}

def Agrees (cell : S → Fin n → V) (blank : V → Prop) (m : ℕ) (s t : S) : Prop :=
  (∀ k : Fin n, k.val < m → ¬ blank (cell t k) ∧ cell s k = cell t k) ∧
    ∀ k : Fin n, m ≤ k.val → blank (cell t k)

theorem Filling.agrees_self (h : Filling M C I cell blank count) {s : S} (hs : I s) :
    Agrees cell blank (count s) s s := by
  refine ⟨fun k hk => ⟨(h.filled s hs k).mpr hk, rfl⟩, fun k hk => ?_⟩
  by_contra hused
  have hlt := (h.filled s hs k).mp hused
  omega

/-- Every number of filled cells since s₀ was the number at some state of the log. -/
def Passed (cell : S → Fin n → V) (blank : V → Prop) (count : S → ℕ) (s₀ : S)
    (r : (S × (Fin n → Option V)) × List S) : Prop :=
  ∀ m, count s₀ ≤ m → m ≤ count r.1.1 → ∃ t ∈ r.2 ++ [r.1.1], Agrees cell blank m r.1.1 t

/-- A step fills one cell at most, so that no number of filled cells is jumped over. -/
theorem passed_next (h : Filling M C I cell blank count) {s₀ : S}
    {r r' : (S × (Fin n → Option V)) × List S} {l : L ⊕ Fin n}
    (hcollected : Collected I cell blank s₀ r.1) (hr : Passed cell blank count s₀ r)
    (hC : lift C r l) (hn : (watched M cell).next r l = some r') :
    Passed cell blank count s₀ r' := by
  obtain ⟨hlog, hdid⟩ := watched_cases hn
  intro m hlo hhi
  rw [hlog]
  by_cases hm : m ≤ count r.1.1
  · obtain ⟨t, ht, hfull, hblank⟩ := hr m hlo hm
    refine ⟨t, List.mem_append_left _ ht, fun k hk => ⟨(hfull k hk).1, ?_⟩, hblank⟩
    rcases hdid with ⟨l', rfl, hs', -⟩ | ⟨hsame, -⟩
    · obtain ⟨hused, heq⟩ := hfull k hk
      rw [h.kept r.1.1 l' r'.1.1 hcollected.holds hC hs' k (by rwa [heq]), heq]
    · rw [hsame, (hfull k hk).2]
  · rcases hdid with ⟨l', rfl, hs', -⟩ | ⟨hsame, -⟩
    · have hone := h.one r.1.1 l' r'.1.1 hcollected.holds hC hs'
      have hI := h.invariant r.1.1 l' r'.1.1 hcollected.holds hC hs'
      have hcount : m = count r'.1.1 := by omega
      rw [hcount]
      exact ⟨r'.1.1, List.mem_append_right _ (List.mem_singleton_self _), h.agrees_self hI⟩
    · rw [hsame] at hhi
      exact absurd hhi hm

theorem collection (h : Filling M C I cell blank count) {s₀ : S} (hs₀ : I s₀)
    {r : (S × (Fin n → Option V)) × List S}
    (hp : (watched M cell).Path (lift C) (begun s₀) r) :
    Collected I cell blank s₀ r.1 ∧ Passed cell blank count s₀ r := by
  refine hp.preserves (I := fun r => Collected I cell blank s₀ r.1 ∧ Passed cell blank count s₀ r)
    (fun r l r' hr hC hn => ?_) ⟨⟨hs₀, fun _ _ => rfl, ?_, ?_⟩, fun m hlo hhi => ?_⟩
  · exact ⟨collected_next h.toWriteOnce hr.1 hC hn, passed_next h hr.1 hr.2 hC hn⟩
  · exact fun k v hk => absurd hk (Option.some_ne_none v).symm
  · exact fun k v hk => absurd hk (Option.some_ne_none v).symm
  · have hcount : m = count s₀ := Nat.le_antisymm hhi hlo
    rw [hcount]
    exact ⟨s₀, List.mem_singleton_self s₀, h.agrees_self hs₀⟩

/-- The first m collected cells, with a blank one after them, are the cells that
were filled at one moment of the collection. -/
theorem exists_moment (h : Filling M C I cell blank count) {s₀ s : S} (hs₀ : I s₀)
    {copy : Fin n → V} {log : List S}
    (hp : (watched M cell).Path (lift C) (begun s₀) ((s, fun k => some (copy k)), log))
    (hm : m ≤ n) (hfull : ∀ k : Fin n, k.val < m → ¬ blank (copy k))
    (hstop : ∀ k : Fin n, k.val = m → blank (copy k)) :
    ∃ t ∈ log ++ [s], (∀ k : Fin n, k.val < m → cell t k = copy k) ∧
      ∀ k : Fin n, m ≤ k.val → blank (cell t k) := by
  obtain ⟨hcollected, hpassed⟩ := collection h hs₀ hp
  have hsame : ∀ k : Fin n, k.val < m → cell s k = copy k := fun k hk =>
    hcollected.full k _ rfl (hfull k hk)
  have hlo : count s₀ ≤ m := by
    by_contra hgt
    have hle := h.le s₀ hs₀
    have hslot : m < n := by omega
    have hblank := hcollected.empty ⟨m, hslot⟩ _ rfl (hstop ⟨m, hslot⟩ rfl)
    exact (h.filled s₀ hs₀ ⟨m, hslot⟩).mpr (Nat.lt_of_not_le hgt) hblank
  have hhi : m ≤ count s := by
    by_contra hgt
    have hslot : m - 1 < n := by omega
    have hlast : (⟨m - 1, hslot⟩ : Fin n).val < m := by
      show m - 1 < m
      omega
    have hused : ¬ blank (cell s ⟨m - 1, hslot⟩) := by
      rw [hsame _ hlast]
      exact hfull _ hlast
    have hlt : m - 1 < count s := (h.filled s hcollected.holds ⟨m - 1, hslot⟩).mp hused
    omega
  obtain ⟨t, ht, hagree, hblank⟩ := hpassed m hlo hhi
  exact ⟨t, ht, fun k hk => (hagree k hk).2.symm.trans (hsame k hk), hblank⟩

end Moment

section Alone

/-- The reader can collect the cells that it lacks while the machine stands still. -/
theorem collects_rest [Fintype K] (M : Machine S L) (C : S → L → Prop) (cell : S → K → V)
    (s : S) (c : K → Option V) (log : List S) : ∃ log', (watched M cell).Path (lift C) ((s, c), log)
      ((s, fun k => some ((c k).getD (cell s k))), log') := by
  classical
  have hpart : ∀ done : Finset K, ∃ log', (watched M cell).Path (lift C) ((s, c), log)
      ((s, fun k => if k ∈ done then some ((c k).getD (cell s k)) else c k), log') := by
    intro done
    induction done using Finset.induction_on with
    | empty => exact ⟨log, Machine.Path.refl _⟩
    | insert k done hk ih =>
      obtain ⟨log', hpath⟩ := ih
      have hread : (fun k' => if k' ∈ insert k done then some ((c k').getD (cell s k')) else c k') =
          Function.update (fun k' => if k' ∈ done then some ((c k').getD (cell s k')) else c k') k
            (some ((c k).getD (cell s k))) := by
        funext k'
        by_cases hkk : k' = k
        · subst hkk
          rw [Function.update_self, if_pos (Finset.mem_insert_self k' done)]
        · rw [Function.update_of_ne hkk]
          simp only [Finset.mem_insert, hkk, false_or]
      rw [hread]
      cases hc : c k with
      | none =>
        refine ⟨log' ++ [s], hpath.tail (l := .inr k) trivial ?_⟩
        simp only [watched, Machine.recorded, machine, if_neg hk, hc, Option.isNone_none, if_true,
          Option.map_some, Option.getD_none]
      | some v =>
        refine ⟨log', ?_⟩
        rwa [Option.getD_some, Function.update_eq_self_iff.mpr (by rw [if_neg hk, hc])]
  obtain ⟨log', hpath⟩ := hpart Finset.univ
  simp only [Finset.mem_univ, if_true] at hpath
  exact ⟨log', hpath⟩

/-- The steps of the machine are steps beside the reader. -/
theorem path_beside {s s' : S} (hp : M.Path C s s') (c : K → Option V) (log : List S) :
    ∃ log', (watched M cell).Path (lift C) ((s, c), log) ((s', c), log') := by
  induction hp with
  | refl => exact ⟨log, Machine.Path.refl _⟩
  | @tail t t' _ hlast ih =>
    obtain ⟨log', hpath⟩ := ih
    obtain ⟨l, hC, hn⟩ := hlast
    refine ⟨log' ++ [t], hpath.tail (l := .inl l) hC ?_⟩
    exact Option.map_eq_some_iff.mpr ⟨_, Option.map_eq_some_iff.mpr ⟨_, hn, rfl⟩, rfl⟩

end Alone

end SimulazioneTransazioni.Collect

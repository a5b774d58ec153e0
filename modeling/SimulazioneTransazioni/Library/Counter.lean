import SimulazioneTransazioni.Library.Machine
import Mathlib.Algebra.BigOperators.Group.Finset.Basic
import Mathlib.Data.Fintype.Basic
import Mathlib.Logic.Function.Basic
import Mathlib.Tactic.Abel

/-!
Cells that processes add to without a lock. A process loads its cell, and stores the
sum in a later step. Where no process loads a cell that another one has loaded and not
stored yet, every cell holds its first value and all that was added to it. A step that
does load such a cell has a continuation in which an addition is lost.
-/
namespace SimulazioneTransazioni.Counter

inductive Pc (G : Type*)
  | ready
  | loaded (value : G)
  | done

namespace Pc

variable {G : Type*}

def isLoaded : Pc G → Bool
  | .loaded _ => true
  | _ => false

def isDone : Pc G → Bool
  | .done => true
  | _ => false

theorem isLoaded_iff {pc : Pc G} : pc.isLoaded = true ↔ ∃ value, pc = .loaded value := by
  cases pc with
  | loaded value => exact ⟨fun _ => ⟨value, rfl⟩, fun _ => rfl⟩
  | ready => exact ⟨fun h => absurd h Bool.false_ne_true, fun ⟨value, h⟩ => by contradiction⟩
  | done => exact ⟨fun h => absurd h Bool.false_ne_true, fun ⟨value, h⟩ => by contradiction⟩

end Pc

structure State (ι K G : Type*) where
  cells : K → G
  procs : ι → Pc G

section Sums

variable {ι M : Type*} [DecidableEq ι] [Fintype ι] [AddCommMonoid M]

/-- A sum in which one term has changed. -/
theorem sum_change {f g : ι → M} (c : ι) (h : ∀ d, d ≠ c → g d = f d) :
    ∑ d, g d + f c = ∑ d, f d + g c := by
  have hrest : ∑ d ∈ Finset.univ.erase c, g d = ∑ d ∈ Finset.univ.erase c, f d :=
    Finset.sum_congr rfl fun d hd => h d (Finset.ne_of_mem_erase hd)
  rw [← Finset.add_sum_erase Finset.univ g (Finset.mem_univ c),
    ← Finset.add_sum_erase Finset.univ f (Finset.mem_univ c), hrest]
  abel

end Sums

variable {ι K G : Type*} [DecidableEq ι] [DecidableEq K] [AddCommGroup G]
  (key : ι → K) (amount : ι → G)

def next (s : State ι K G) (c : ι) : Option (State ι K G) :=
  match s.procs c with
  | .ready => some ⟨s.cells, Function.update s.procs c (.loaded (s.cells (key c)))⟩
  | .loaded value =>
    some ⟨Function.update s.cells (key c) (value + amount c), Function.update s.procs c .done⟩
  | .done => none

def machine : Machine (State ι K G) ι where
  start s := ∀ c, s.procs c = .ready
  next := next key amount

/-- The step does not load a cell that another process has loaded and not stored yet. -/
def Uncontested (s : State ι K G) (c : ι) : Prop :=
  s.procs c = .ready → ∀ d, (s.procs d).isLoaded = true → key d ≠ key c

def added [Fintype ι] (procs : ι → Pc G) (k : K) : G :=
  ∑ c, if key c = k ∧ (procs c).isDone then amount c else 0

def Counted [Fintype ι] (s₀ s : State ι K G) : Prop :=
  ∀ k, s.cells k = s₀.cells k + added key amount s.procs k

structure Alone [Fintype ι] (s₀ s : State ι K G) : Prop where
  counted : Counted key amount s₀ s
  fresh : ∀ c value, s.procs c = .loaded value → s.cells (key c) = value
  single : ∀ c d value value', s.procs c = .loaded value → s.procs d = .loaded value' →
    key c = key d → c = d

section Added

variable [Fintype ι] {procs : ι → Pc G} {c : ι}

theorem added_loaded (hc : procs c = .ready) (value : G) (k : K) :
    added key amount (Function.update procs c (.loaded value)) k = added key amount procs k := by
  refine Finset.sum_congr rfl fun d _ => ?_
  by_cases hd : d = c
  · rw [hd, Function.update_self, hc]
    rfl
  · rw [Function.update_of_ne hd]

theorem added_done {value : G} (hc : procs c = .loaded value) (k : K) :
    added key amount (Function.update procs c .done) k =
      added key amount procs k + if key c = k then amount c else 0 := by
  have hchange := sum_change (f := fun d => if key d = k ∧ (procs d).isDone then amount d else 0)
    (g := fun d => if key d = k ∧ (Function.update procs c .done d).isDone then amount d else 0)
    c fun d hd => by rw [Function.update_of_ne hd]
  simp only [hc, Pc.isDone, Bool.false_eq_true, and_false, if_false, add_zero,
    Function.update_self, and_true] at hchange
  exact hchange

omit [DecidableEq ι] in
theorem added_start {s : State ι K G} (hs : ∀ c, s.procs c = .ready) (k : K) :
    added key amount s.procs k = 0 := by
  refine Finset.sum_eq_zero fun c _ => ?_
  rw [hs c]
  exact if_neg fun h => Bool.false_ne_true h.2

end Added

variable {key amount} [Fintype ι] {s₀ s s' : State ι K G} {c : ι}

omit [DecidableEq ι] in
theorem alone_start (hs : ∀ c, s₀.procs c = .ready) : Alone key amount s₀ s₀ := by
  refine ⟨fun k => ?_, fun c value hc => ?_, fun c d value value' hc => ?_⟩
  · rw [added_start key amount hs, add_zero]
  · rw [hs c] at hc
    contradiction
  · rw [hs c] at hc
    contradiction

/-- The one process that holds a loaded value knows that the cell has not changed. -/
theorem alone_load (h : Alone key amount s₀ s) (hC : Uncontested key s c)
    (hc : s.procs c = .ready) :
    Alone key amount s₀ ⟨s.cells, Function.update s.procs c (.loaded (s.cells (key c)))⟩ := by
  refine ⟨fun k => ?_, fun d value hd => ?_, fun d e value value' hd he hkey => ?_⟩
  · rw [added_loaded key amount hc]
    exact h.counted k
  · change Function.update s.procs c _ d = _ at hd
    by_cases hdc : d = c
    · rw [hdc, Function.update_self] at hd
      rw [hdc]
      exact Pc.loaded.inj hd
    · rw [Function.update_of_ne hdc] at hd
      exact h.fresh d value hd
  · change Function.update s.procs c _ d = _ at hd
    change Function.update s.procs c _ e = _ at he
    by_cases hdc : d = c
    · by_cases hec : e = c
      · rw [hdc, hec]
      · rw [Function.update_of_ne hec] at he
        exact absurd (hkey.symm.trans (congrArg key hdc)) (hC hc e (Pc.isLoaded_iff.mpr ⟨value', he⟩))
    · rw [Function.update_of_ne hdc] at hd
      by_cases hec : e = c
      · exact absurd (hkey.trans (congrArg key hec)) (hC hc d (Pc.isLoaded_iff.mpr ⟨value, hd⟩))
      · rw [Function.update_of_ne hec] at he
        exact h.single d e value value' hd he hkey

/-- An uncontested store adds its amount to the cell. -/
theorem alone_store (h : Alone key amount s₀ s) {value : G} (hc : s.procs c = .loaded value) :
    Alone key amount s₀ ⟨Function.update s.cells (key c) (value + amount c),
      Function.update s.procs c .done⟩ := by
  have hother : ∀ d value', Function.update s.procs c .done d = .loaded value' →
      d ≠ c ∧ s.procs d = .loaded value' := by
    intro d value' hd
    by_cases hdc : d = c
    · rw [hdc, Function.update_self] at hd
      contradiction
    · exact ⟨hdc, by rwa [Function.update_of_ne hdc] at hd⟩
  refine ⟨fun k => ?_, fun d value' hd => ?_, fun d e value' value'' hd he hkey => ?_⟩
  · rw [added_done key amount hc]
    by_cases hk : k = key c
    · subst hk
      rw [if_pos rfl, ← add_assoc, ← h.counted, h.fresh c value hc]
      exact Function.update_self ..
    · rw [if_neg fun hck => hk hck.symm, add_zero, ← h.counted]
      exact Function.update_of_ne hk ..
  · obtain ⟨hdc, hold⟩ := hother d value' hd
    have hkey : key d ≠ key c := fun hkey => hdc (h.single d c value' value hold hc hkey)
    show Function.update s.cells (key c) _ (key d) = _
    rw [Function.update_of_ne hkey]
    exact h.fresh d value' hold
  · obtain ⟨-, hd⟩ := hother d value' hd
    obtain ⟨-, he⟩ := hother e value'' he
    exact h.single d e value' value'' hd he hkey

theorem next_alone (h : Alone key amount s₀ s) (hC : Uncontested key s c)
    (hn : next key amount s c = some s') : Alone key amount s₀ s' := by
  unfold next at hn
  cases hc : s.procs c with
  | ready =>
    rw [hc] at hn
    cases hn
    exact alone_load h hC hc
  | loaded value =>
    rw [hc] at hn
    cases hn
    exact alone_store h hc
  | done =>
    rw [hc] at hn
    contradiction

theorem path_alone (hs₀ : ∀ c, s₀.procs c = .ready)
    (hp : (machine key amount).Path (Uncontested key) s₀ s) : Alone key amount s₀ s :=
  hp.preserves (fun _ _ _ h hC hn => next_alone h hC hn) (alone_start hs₀)

/-- After a contested load the two processes can store one after the other, and the first
sum is lost. -/
theorem contested_loses (h : Alone key amount s₀ s) (hC : ¬ Uncontested key s c)
    (hn : next key amount s c = some s') (hne : amount c ≠ 0) :
    ∃ s'', (machine key amount).Path Machine.free s' s'' ∧ ¬ Counted key amount s₀ s'' := by
  simp only [Uncontested, not_forall, not_not] at hC
  obtain ⟨hc, d, hloaded, hkey⟩ := hC
  obtain ⟨value, hd⟩ := Pc.isLoaded_iff.mp hloaded
  have hdc : d ≠ c := by
    intro hdc
    rw [hdc, hc] at hd
    contradiction
  have hvalue : s.cells (key c) = value := by
    rw [← hkey]
    exact h.fresh d value hd
  unfold next at hn
  rw [hc, hvalue] at hn
  cases hn
  let s₁ : State ι K G := ⟨Function.update s.cells (key c) (value + amount c),
    Function.update (Function.update s.procs c (.loaded value)) c .done⟩
  let s₂ : State ι K G := ⟨Function.update s₁.cells (key d) (value + amount d),
    Function.update s₁.procs d .done⟩
  have hd₁ : s₁.procs d = .loaded value := by
    simp only [s₁, Function.update_of_ne hdc, hd]
  have hstore : next key amount ⟨s.cells, Function.update s.procs c (.loaded value)⟩ c = some s₁ := by
    simp only [next, Function.update_self, s₁]
  have hstore' : next key amount s₁ d = some s₂ := by
    rw [next, hd₁]
  refine ⟨s₂, ((Machine.Path.refl _).tail (l := c) trivial hstore).tail (l := d) trivial hstore',
    fun hcounted => hne ?_⟩
  have hsum : added key amount s₂.procs (key c) =
      added key amount s.procs (key c) + amount c + amount d := by
    show added key amount (Function.update s₁.procs d .done) (key c) = _
    rw [added_done key amount hd₁, if_pos hkey]
    show added key amount (Function.update (Function.update s.procs c (.loaded value)) c .done) _ +
      _ = _
    rw [added_done key amount (Function.update_self ..), if_pos rfl, added_loaded key amount hc]
  have hcell : s₂.cells (key c) = value + amount d := by
    simp only [s₂, ← hkey, Function.update_self]
  have hbefore := h.counted (key c)
  have hafter := hcounted (key c)
  rw [hcell, hsum, ← hvalue, hbefore, add_assoc, add_assoc] at hafter
  exact right_eq_add.mp (add_left_cancel (add_left_cancel hafter))

end SimulazioneTransazioni.Counter

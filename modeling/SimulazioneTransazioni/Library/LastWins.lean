import Mathlib.Data.List.Nodup

/-!
Assignments applied one after the other. An attribute that each assignment either sets
or leaves alone ends with the value of the last one that sets it. Their order does not
matter to an attribute that at most one of them sets.
-/
namespace SimulazioneTransazioni.LastWins

variable {σ α ν κ : Type*} {get : σ → ν} {sets : α → Option ν} {step : σ → α → σ}

def last (sets : α → Option ν) (l : List α) (before : ν) : ν :=
  (l.filterMap sets).getLast?.getD before

theorem last_cons (a : α) (l : List α) (before : ν) :
    last sets (a :: l) before = last sets l ((sets a).getD before) := by
  unfold last
  cases hset : sets a with
  | none =>
    rw [List.filterMap_cons_none hset]
    rfl
  | some v =>
    rw [List.filterMap_cons_some hset, List.getLast?_cons]
    rfl

theorem last_cases (sets : α → Option ν) (l : List α) (before : ν) :
    last sets l before = before ∨ ∃ a ∈ l, sets a = some (last sets l before) := by
  unfold last
  cases hlast : (l.filterMap sets).getLast? with
  | none => exact Or.inl rfl
  | some v =>
    obtain ⟨a, ha, hv⟩ := List.mem_filterMap.mp (List.mem_of_getLast? hlast)
    exact Or.inr ⟨a, ha, hv⟩

theorem last_congr {sets' : α → Option ν} {l : List α} (h : ∀ a ∈ l, sets a = sets' a)
    (before : ν) : last sets l before = last sets' l before := by
  rw [last, last, List.filterMap_congr h]

theorem foldl_last (hstep : ∀ s a, get (step s a) = (sets a).getD (get s)) (l : List α) (s : σ) :
    get (l.foldl step s) = last sets l (get s) := by
  induction l generalizing s with
  | nil => rfl
  | cons a rest ih => rw [List.foldl_cons, ih, hstep, last_cons]

theorem filterMap_unused {key : α → κ} {k : κ} (hkey : ∀ a, sets a ≠ none → key a = k)
    {l : List α} (hunused : k ∉ l.map key) : l.filterMap sets = [] := by
  apply List.filterMap_eq_nil_iff.mpr
  intro a ha
  by_contra hne
  apply hunused
  rw [← hkey a hne]
  exact List.mem_map_of_mem ha

/-- Different keys: at most one assignment has the key of the attribute. -/
theorem length_filterMap_le_one {key : α → κ} {k : κ}
    (hkey : ∀ a, sets a ≠ none → key a = k) {l : List α} (hnodup : (l.map key).Nodup) :
    (l.filterMap sets).length ≤ 1 := by
  induction l with
  | nil => exact Nat.zero_le 1
  | cons a rest ih =>
    obtain ⟨hfresh, hrest⟩ := List.nodup_cons.mp hnodup
    cases hset : sets a with
    | none =>
      rw [List.filterMap_cons_none hset]
      exact ih hrest
    | some v =>
      have hset' : sets a ≠ none := by
        rw [hset]
        exact Option.some_ne_none v
      rw [hkey a hset'] at hfresh
      rw [List.filterMap_cons_some hset, filterMap_unused hkey hfresh]
      exact Nat.le_refl 1

theorem last_perm {key : α → κ} {k : κ} (hkey : ∀ a, sets a ≠ none → key a = k)
    {l l' : List α} (hnodup : (l.map key).Nodup) (hperm : l'.Perm l) (before : ν) :
    last sets l' before = last sets l before := by
  have hone := length_filterMap_le_one hkey hnodup
  have hsame : l'.filterMap sets = l.filterMap sets := by
    have hp := hperm.filterMap sets
    rcases Nat.le_one_iff_eq_zero_or_eq_one.mp hone with hzero | hone
    · rw [List.length_eq_zero_iff] at hzero
      rw [hzero] at hp ⊢
      exact hp.eq_nil
    · obtain ⟨v, hv⟩ := List.length_eq_one_iff.mp hone
      rw [hv] at hp ⊢
      exact List.perm_singleton.mp hp
  rw [last, hsame, last]

/-- A key that is used decides the value. -/
theorem last_of_mem {key : α → κ} {k : κ} (hkey : ∀ a, sets a ≠ none → key a = k)
    {l : List α} (hnodup : (l.map key).Nodup) {a : α} (ha : a ∈ l) (hk : key a = k)
    (before : ν) : last sets l before = (sets a).getD before := by
  induction l with
  | nil => exact absurd ha List.not_mem_nil
  | cons b rest ih =>
    obtain ⟨hfresh, hrest⟩ := List.nodup_cons.mp hnodup
    rw [last_cons]
    rcases List.mem_cons.mp ha with rfl | hmem
    · rw [hk] at hfresh
      rw [last, filterMap_unused hkey hfresh]
      rfl
    · have hunset : sets b = none := by
        by_contra hne
        apply hfresh
        rw [hkey b hne, ← hk]
        exact List.mem_map_of_mem hmem
      rw [hunset]
      exact ih hrest hmem

end SimulazioneTransazioni.LastWins

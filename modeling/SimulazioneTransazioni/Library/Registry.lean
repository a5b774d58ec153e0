import SimulazioneTransazioni.Library.Table

/-!
Tables whose rows are claimed one after the other, given by the list of their
keys. A row whose key is free belongs to nobody. A claim writes the key of such a
row, so that whoever owns a row keeps it, also by its index.
-/
namespace SimulazioneTransazioni.Registry

variable {K : Type*} (free : K)

def Owns (keys : List K) (k : K) (i : Option ℕ) : Prop := ∃ j, i = some j ∧ keys[j]? = some k

def Extends (keys keys' : List K) : Prop :=
  ∀ (j : ℕ) (k : K), k ≠ free → keys[j]? = some k → keys'[j]? = some k

def FreeFrom (keys : List K) (n : ℕ) : Prop :=
  ∀ (j : ℕ) (k : K), n ≤ j → keys[j]? = some k → k = free

variable {free} {keys keys' keys'' : List K} {k : K} {i : Option ℕ} {n : ℕ}

theorem Extends.refl (keys : List K) : Extends free keys keys := fun _ _ _ h => h

theorem Extends.of_eq (h : keys' = keys) : Extends free keys keys' := by
  rw [h]
  exact Extends.refl keys

theorem Owns.extends (h : Owns keys k i) (hk : k ≠ free) (he : Extends free keys keys') :
    Owns keys' k i := by
  obtain ⟨j, hi, hj⟩ := h
  exact ⟨j, hi, he j k hk hj⟩

theorem Extends.mem (h : Extends free keys keys') (hk : k ≠ free) (hmem : k ∈ keys) :
    k ∈ keys' := by
  obtain ⟨j, hj⟩ := List.mem_iff_getElem?.mp hmem
  exact List.mem_iff_getElem?.mpr ⟨j, h j k hk hj⟩

theorem FreeFrom.mono {m : ℕ} (h : FreeFrom free keys n) (hm : n ≤ m) : FreeFrom free keys m := by
  intro j k hj hk
  apply h j k (by omega) hk

/-- A claim of a free row. -/
theorem extends_set (h : FreeFrom free keys n) (k : K) : Extends free keys (keys.set n k) := by
  intro j k' hk' hj
  by_cases hn : n = j
  · subst hn
    exact absurd (h n k' (by omega) hj) hk'
  · rw [List.getElem?_set_ne hn]
    exact hj

theorem freeFrom_set (h : FreeFrom free keys n) (k : K) :
    FreeFrom free (keys.set n k) (n + 1) := by
  intro j k' hj hk'
  rw [List.getElem?_set_ne (by omega)] at hk'
  apply h j k' (by omega) hk'

theorem mem_set (k : K) (hn : n < keys.length) : k ∈ keys.set n k :=
  List.mem_iff_getElem?.mpr ⟨n, List.getElem?_set_self hn⟩

section Rows

variable {R : Type*} {key : R → K}

theorem map_key_claim {f : R → R} (hf : ∀ row, key (f row) = k) (rows : List R) (n : ℕ) :
    (rows.modify n f).map key = (rows.map key).set n k := by
  induction rows generalizing n with
  | nil => rw [List.modify_nil, List.map_nil, List.set_nil]
  | cons row rest ih =>
    cases n with
    | zero => rw [List.modify_zero_cons, List.map_cons, hf, List.map_cons, List.set_cons_zero]
    | succ n =>
      rw [List.modify_succ_cons, List.map_cons, ih, List.map_cons, List.set_cons_succ]

/-- The search finds the row of a key that the table has. -/
theorem owns_indexOf [DecidableEq K] {rows : List R} (h : k ∈ rows.map key) :
    Owns (rows.map key) k (Table.indexOf key rows k) := by
  obtain ⟨j, hj⟩ := Table.exists_indexOf key h
  obtain ⟨row, hrow, hkey⟩ := Table.getElem_indexOf key hj
  refine ⟨j, hj, ?_⟩
  rw [List.getElem?_map, hrow, Option.map_some, hkey]

theorem mem_of_indexOf [DecidableEq K] {rows : List R} {j : ℕ}
    (h : Table.indexOf key rows k = some j) : k ∈ rows.map key := by
  obtain ⟨row, hrow, hkey⟩ := Table.getElem_indexOf key h
  exact List.mem_map.mpr ⟨row, List.mem_of_getElem? hrow, hkey⟩

end Rows
end SimulazioneTransazioni.Registry

import Mathlib.Algebra.BigOperators.Group.Finset.Basic
import Mathlib.Algebra.BigOperators.Group.Finset.Piecewise
import Mathlib.Data.List.Nodup

/-!
Tables of rows found by a key. A linear search gives the index of the first row
with the key, and a row is changed in place. Where no other row has the key the
change is a map over the table. A sum over elements that each belong to one key
of a list without duplicates can be taken key by key.
-/
namespace SimulazioneTransazioni.Table

variable {R K : Type*} [DecidableEq K] (key : R → K)

def indexOf (rows : List R) (k : K) : Option ℕ :=
  rows.findIdx? fun row => decide (key row = k)

def update (rows : List R) (k : K) (f : R → R) : List R :=
  rows.map fun row => if key row = k then f row else row

theorem exists_indexOf {rows : List R} {k : K} (h : k ∈ rows.map key) :
    ∃ i, indexOf key rows k = some i := by
  obtain ⟨row, hrow, hkey⟩ := List.mem_map.mp h
  have hsome : (indexOf key rows k).isSome := by
    rw [indexOf, List.findIdx?_isSome, List.any_eq_true]
    exact ⟨row, hrow, by simpa using hkey⟩
  exact Option.isSome_iff_exists.mp hsome

theorem getElem_indexOf {rows : List R} {k : K} {i : ℕ} (h : indexOf key rows k = some i) :
    ∃ row, rows[i]? = some row ∧ key row = k := by
  obtain ⟨hi, hkey, -⟩ := List.findIdx?_eq_some_iff_getElem.mp h
  exact ⟨rows[i], List.getElem?_eq_getElem hi, of_decide_eq_true hkey⟩

/-- The index depends on the keys only. -/
theorem indexOf_congr {rows rows' : List R} (h : rows'.map key = rows.map key) (k : K) :
    indexOf key rows' k = indexOf key rows k := by
  have hmap : ∀ l : List R,
      indexOf key l k = (l.map key).findIdx? fun k' => decide (k' = k) := by
    intro l
    rw [List.findIdx?_map]
    rfl
  rw [hmap, hmap, h]

/-- A change at the first index of a key that occurs once is a change by key. -/
theorem modify_indexOf {rows : List R} {k : K} {i : ℕ} (hcount : (rows.map key).count k ≤ 1)
    (h : indexOf key rows k = some i) (f : R → R) :
    rows.modify i f = update key rows k f := by
  unfold update
  induction rows generalizing i with
  | nil => simp [indexOf] at h
  | cons row rest ih =>
    rw [indexOf, List.findIdx?_cons] at h
    by_cases hk : key row = k
    · simp only [hk, decide_true, ↓reduceIte, Option.some.injEq] at h
      subst h
      rw [List.map_cons, hk, List.count_cons_self] at hcount
      have hnot : k ∉ rest.map key := List.count_eq_zero.mp (by omega)
      have hrest : ∀ r ∈ rest, ¬ key r = k := by
        intro r hr heq
        exact hnot (List.mem_map.mpr ⟨r, hr, heq⟩)
      rw [List.modify_zero_cons, List.map_cons, if_pos hk]
      congr 1
      symm
      calc rest.map (fun r => if key r = k then f r else r)
          = rest.map id := List.map_congr_left fun r hr => if_neg (hrest r hr)
        _ = rest := List.map_id rest
    · simp only [hk, decide_false, Bool.false_eq_true, ↓reduceIte,
        Option.map_eq_some_iff] at h
      obtain ⟨j, hj, rfl⟩ := h
      rw [List.map_cons, List.count_cons_of_ne hk] at hcount
      rw [List.modify_succ_cons, List.map_cons, if_neg hk, ih hcount hj]

variable {key}

theorem update_id (rows : List R) (k : K) : update key rows k id = rows := by
  simp [update]

/-- A row after the change is a changed row with the key or an old row without it. -/
theorem mem_update {rows : List R} {k : K} {f : R → R} {row' : R}
    (h : row' ∈ update key rows k f) (hf : ∀ row, key (f row) = key row) :
    (key row' = k ∧ ∃ row ∈ rows, row' = f row) ∨ (key row' ≠ k ∧ row' ∈ rows) := by
  obtain ⟨row, hrow, rfl⟩ := List.mem_map.mp h
  by_cases hk : key row = k
  · rw [if_pos hk]
    exact Or.inl ⟨(hf row).trans hk, row, hrow, rfl⟩
  · rw [if_neg hk]
    exact Or.inr ⟨hk, hrow⟩

/-- A column that the change of a row leaves. -/
theorem map_update {C : Type*} (column : R → C) (rows : List R) (k : K) {f : R → R}
    (hf : ∀ row, column (f row) = column row) :
    (update key rows k f).map column = rows.map column := by
  rw [update, List.map_map]
  refine List.map_congr_left fun row _ => ?_
  by_cases hk : key row = k
  · simp [hk, hf]
  · simp [hk]

theorem map_key_update (rows : List R) (k : K) {f : R → R} (hf : ∀ row, key (f row) = key row) :
    (update key rows k f).map key = rows.map key :=
  map_update key rows k hf

/-- Two changes of one row. -/
theorem update_update (rows : List R) (k : K) {f : R → R} (g : R → R)
    (hf : ∀ row, key (f row) = key row) :
    update key (update key rows k f) k g = update key rows k (g ∘ f) := by
  rw [update, update, update, List.map_map]
  refine List.map_congr_left fun row _ => ?_
  by_cases hk : key row = k
  · simp [hk, hf]
  · simp [hk]

omit [DecidableEq K] in
theorem map_key_modify {f : R → R} (hf : ∀ row, key (f row) = key row) (rows : List R) (i : ℕ) :
    (rows.modify i f).map key = rows.map key := by
  induction rows generalizing i with
  | nil => rw [List.modify_nil]
  | cons row rest ih =>
    cases i with
    | zero => rw [List.modify_zero_cons, List.map_cons, hf, List.map_cons]
    | succ i => rw [List.modify_succ_cons, List.map_cons, ih, List.map_cons]

omit [DecidableEq K] in
theorem map_key_set {rows : List R} {i : ℕ} {row row' : R} (h : rows[i]? = some row)
    (hkey : key row' = key row) : (rows.set i row').map key = rows.map key := by
  have hi : (rows.map key)[i]? = some (key row) := by rw [List.getElem?_map, h, Option.map_some]
  obtain ⟨hlt, hrow⟩ := List.getElem?_eq_some_iff.mp hi
  rw [List.map_set, hkey, ← hrow, List.set_getElem_self]

omit [DecidableEq K] in
theorem modify_congr {f g : R → R} {rows : List R} {i : ℕ} {row : R} (h : rows[i]? = some row)
    (hfg : f row = g row) : rows.modify i f = rows.modify i g := by
  induction rows generalizing i with
  | nil => contradiction
  | cons head rest ih =>
    cases i with
    | zero =>
      rw [List.getElem?_cons_zero, Option.some.injEq] at h
      rw [List.modify_zero_cons, List.modify_zero_cons, h, hfg]
    | succ i =>
      rw [List.getElem?_cons_succ] at h
      rw [List.modify_succ_cons, List.modify_succ_cons, ih h]

omit [DecidableEq K] in
/-- A change of a row that changes nothing. -/
theorem modify_eq_iff {f : R → R} {rows : List R} {i : ℕ} {row : R} (h : rows[i]? = some row) :
    rows.modify i f = rows ↔ f row = row := by
  constructor
  · intro hsame
    have hget := List.getElem?_modify_eq f i rows
    rw [hsame, h, Option.map_eq_map, Option.map_some, Option.some.injEq] at hget
    exact hget.symm
  · intro hrow
    exact (modify_congr h hrow).trans (List.modify_id i rows)

/-- A sum over the rows after a change of one row. -/
theorem sum_modify {M : Type*} [AddCommMonoid M] (g : R → M) (f : R → R) {rows : List R} {i : ℕ}
    {row : R} (h : rows[i]? = some row) :
    ((rows.modify i f).map g).sum + g row = (rows.map g).sum + g (f row) := by
  induction rows generalizing i with
  | nil => simp at h
  | cons head rest ih =>
    cases i with
    | zero =>
      rw [List.getElem?_cons_zero, Option.some.injEq] at h
      rw [h, List.modify_zero_cons, List.map_cons, List.map_cons, List.sum_cons, List.sum_cons,
        add_comm, add_left_comm, add_comm (g (f row)), add_assoc]
    | succ i =>
      rw [List.getElem?_cons_succ] at h
      rw [List.modify_succ_cons, List.map_cons, List.map_cons, List.sum_cons, List.sum_cons,
        add_assoc, ih h, add_assoc]

theorem sum_set {M : Type*} [AddCommMonoid M] (g : R → M) (row' : R) {rows : List R} {i : ℕ}
    {row : R} (h : rows[i]? = some row) :
    ((rows.set i row').map g).sum + g row = (rows.map g).sum + g row' := by
  have : Inhabited R := ⟨row⟩
  have hmodify := List.modify_eq_set (fun _ : R => row') i rows
  rw [← hmodify]
  exact sum_modify g (fun _ => row') h

/-- The exchange of sums: over the keys, and over the elements of each key. -/
theorem sum_by_key {α M : Type*} [AddCommMonoid M] {keys : List K} (hkeys : keys.Nodup)
    (owner : α → K) (g : α → M) {l : List α} (hmem : ∀ a ∈ l, owner a ∈ keys) :
    (keys.map fun k => ((l.filter fun a => owner a = k).map g).sum).sum = (l.map g).sum := by
  induction l with
  | nil => simp
  | cons a rest ih =>
    have hone : (keys.map fun k => if owner a = k then g a else 0).sum = g a := by
      have hin := hmem a (List.mem_cons_self ..)
      rw [← List.sum_toFinset _ hkeys, Finset.sum_ite_eq, if_pos (List.mem_toFinset.mpr hin)]
    have hsplit : ∀ k, (((a :: rest).filter fun a => owner a = k).map g).sum =
        (if owner a = k then g a else 0) +
          ((rest.filter fun a => owner a = k).map g).sum := by
      intro k
      by_cases hk : owner a = k
      · simp [hk]
      · simp [hk]
    have hrest := ih fun b hb => hmem b (List.mem_cons_of_mem _ hb)
    calc _ = (keys.map fun k => (if owner a = k then g a else 0) +
            ((rest.filter fun a => owner a = k).map g).sum).sum := by
          rw [List.map_congr_left fun k _ => hsplit k]
      _ = g a + (rest.map g).sum := by rw [List.sum_map_add, hone, hrest]
      _ = ((a :: rest).map g).sum := by rw [List.map_cons, List.sum_cons]

end SimulazioneTransazioni.Table

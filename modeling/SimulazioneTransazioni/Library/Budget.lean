import Mathlib.Data.Multiset.OrderedMonoid
import Mathlib.Logic.Function.Basic
import Mathlib.Tactic.Abel

/-!
Tokens that travel with a budget. A token is issued once, with the full budget
written on its only copy. A copy may be lost, or part with one unit of what is
written on it, which is then counted as spent. So a copy shows exactly what its
token has not spent, and no token spends more than the full budget.
-/
namespace SimulazioneTransazioni.Budget

variable {T : Type*} [DecidableEq T]

structure State (T : Type*) where
  issued : List T
  copies : Multiset (T × ℤ)
  spent : T → ℕ

inductive Step (full : ℤ) (c c' : State T) : Prop
  | settle (hissued : c'.issued = c.issued) (hspent : c'.spent = c.spent)
      (hcopies : c'.copies ≤ c.copies)
  | issue (t : T) (hnew : t ∉ c.issued) (hissued : c'.issued = c.issued ++ [t])
      (hspent : c'.spent = c.spent) (hcopies : c'.copies ≤ c.copies + {(t, full)})
  | spend (t : T) (b : ℤ) (hb : 0 < b) (hissued : c'.issued = c.issued)
      (hspent : c'.spent = Function.update c.spent t (c.spent t + 1))
      (hcopies : c'.copies + {(t, b)} ≤ c.copies + {(t, b - 1)})

structure Sound (full : ℤ) (c : State T) : Prop where
  nodup : c.issued.Nodup
  once : c.copies.map Prod.fst ≤ (c.issued : Multiset T)
  fresh : ∀ t, t ∉ c.issued → c.spent t = 0
  le : ∀ t, (c.spent t : ℤ) ≤ full
  balanced : ∀ p ∈ c.copies, 0 ≤ p.2 ∧ p.2 + c.spent p.1 = full

variable {full : ℤ} {c c' : State T} {t : T} {b : ℤ}

omit [DecidableEq T] in
theorem Sound.issued_of_copy (hc : Sound full c) {p : T × ℤ} (hp : p ∈ c.copies) :
    p.1 ∈ c.issued :=
  Multiset.mem_coe.mp (Multiset.mem_of_le hc.once (Multiset.mem_map_of_mem Prod.fst hp))

omit [DecidableEq T] in
theorem Sound.settle (hc : Sound full c) (hissued : c'.issued = c.issued)
    (hspent : c'.spent = c.spent) (hcopies : c'.copies ≤ c.copies) : Sound full c' := by
  obtain ⟨hnodup, honce, hfresh, hle, hbalanced⟩ := hc
  refine ⟨?_, ?_, ?_, ?_, ?_⟩
  · rwa [hissued]
  · rw [hissued]
    exact (Multiset.map_le_map hcopies).trans honce
  · rwa [hissued, hspent]
  · rwa [hspent]
  · rw [hspent]
    exact fun p hp => hbalanced p (Multiset.mem_of_le hcopies hp)

omit [DecidableEq T] in
theorem Sound.issue (hc : Sound full c) (hfull : 0 ≤ full) (hnew : t ∉ c.issued)
    (hissued : c'.issued = c.issued ++ [t]) (hspent : c'.spent = c.spent)
    (hcopies : c'.copies ≤ c.copies + {(t, full)}) : Sound full c' := by
  obtain ⟨hnodup, honce, hfresh, hle, hbalanced⟩ := hc
  refine ⟨?_, ?_, ?_, ?_, ?_⟩
  · rw [hissued, List.nodup_append]
    refine ⟨hnodup, List.nodup_singleton t, ?_⟩
    intro a ha a' ha' heq
    rw [List.mem_singleton.mp ha'] at heq
    exact hnew (heq ▸ ha)
  · rw [hissued, ← Multiset.coe_add]
    refine (Multiset.map_le_map hcopies).trans ?_
    rw [Multiset.map_add, Multiset.map_singleton]
    exact add_le_add honce le_rfl
  · intro t' ht'
    rw [hissued, List.mem_append, not_or] at ht'
    rw [hspent]
    exact hfresh t' ht'.1
  · rwa [hspent]
  · intro p hp
    rw [hspent]
    rcases Multiset.mem_add.mp (Multiset.mem_of_le hcopies hp) with hold | hone
    · exact hbalanced p hold
    · rw [Multiset.mem_singleton.mp hone, hfresh t hnew]
      exact ⟨hfull, by simp⟩

/-- What remains of the copies when one is set aside holds no other of its token. -/
theorem Sound.only_copy (hc : Sound full c) {rest : Multiset (T × ℤ)}
    (hrest : c.copies = rest + {(t, b)}) : ∀ p ∈ rest, p.1 ≠ t := by
  rintro p hp rfl
  have hcount := Multiset.count_le_of_le p.1 hc.once
  have hpos := Multiset.count_pos.mpr (Multiset.mem_map_of_mem Prod.fst hp)
  have hone := List.nodup_iff_count_le_one.mp hc.nodup p.1
  rw [hrest, Multiset.map_add, Multiset.map_singleton, Multiset.count_add,
    Multiset.count_singleton_self, Multiset.coe_count] at hcount
  omega

omit [DecidableEq T] in
/-- Copies of which one was exchanged for one that shows less. -/
theorem exists_rest {m m' : Multiset (T × ℤ)} (h : m' + {(t, b)} ≤ m + {(t, b - 1)}) :
    ∃ rest, m = rest + {(t, b)} ∧ m' ≤ rest + {(t, b - 1)} := by
  have hin : (t, b) ∈ m := by
    have hmem := Multiset.mem_of_le h
      (Multiset.mem_add.mpr (Or.inr (Multiset.mem_singleton_self _)))
    rcases Multiset.mem_add.mp hmem with hold | hone
    · exact hold
    · have heq := congrArg Prod.snd (Multiset.mem_singleton.mp hone)
      simp only at heq
      omega
  obtain ⟨rest, hrest⟩ := Multiset.exists_cons_of_mem hin
  rw [← Multiset.singleton_add, add_comm] at hrest
  refine ⟨rest, hrest, ?_⟩
  rw [hrest, add_right_comm] at h
  exact le_of_add_le_add_right h

/-- An attempt takes one unit off a copy and adds it to what the token has spent. -/
theorem Sound.spend (hc : Sound full c) (hb : 0 < b) (hissued : c'.issued = c.issued)
    (hspent : c'.spent = Function.update c.spent t (c.spent t + 1))
    (hcopies : c'.copies + {(t, b)} ≤ c.copies + {(t, b - 1)}) : Sound full c' := by
  obtain ⟨rest, hrest, hcopies'⟩ := exists_rest hcopies
  have hin : (t, b) ∈ c.copies := by
    rw [hrest]
    exact Multiset.mem_add.mpr (Or.inr (Multiset.mem_singleton_self _))
  have hother := hc.only_copy hrest
  obtain ⟨-, hshown⟩ := hc.balanced _ hin
  simp only at hshown
  have hsame : ∀ t', t' ≠ t → c'.spent t' = c.spent t' := by
    intro t' ht'
    rw [hspent, Function.update_of_ne ht']
  have hmore : c'.spent t = c.spent t + 1 := by
    rw [hspent, Function.update_self]
  refine ⟨?_, ?_, ?_, ?_, ?_⟩
  · rw [hissued]
    exact hc.nodup
  · rw [hissued]
    have honce := hc.once
    rw [hrest, Multiset.map_add, Multiset.map_singleton] at honce
    refine (Multiset.map_le_map hcopies').trans ?_
    rwa [Multiset.map_add, Multiset.map_singleton]
  · intro t' ht'
    rw [hissued] at ht'
    have hne : t' ≠ t := fun h => ht' (h ▸ hc.issued_of_copy hin)
    rw [hsame t' hne]
    exact hc.fresh t' ht'
  · intro t'
    by_cases ht' : t' = t
    · rw [ht', hmore]
      push_cast
      omega
    · rw [hsame t' ht']
      exact hc.le t'
  · intro p hp
    rcases Multiset.mem_add.mp (Multiset.mem_of_le hcopies' hp) with hold | hone
    · rw [hsame p.1 (hother p hold)]
      refine hc.balanced p ?_
      rw [hrest]
      exact Multiset.mem_add.mpr (Or.inl hold)
    · rw [Multiset.mem_singleton.mp hone]
      simp only [hmore]
      push_cast
      omega

theorem Sound.step (hc : Sound full c) (hfull : 0 ≤ full) (h : Step full c c') :
    Sound full c' := by
  cases h with
  | settle hissued hspent hcopies => exact hc.settle hissued hspent hcopies
  | issue t hnew hissued hspent hcopies => exact hc.issue hfull hnew hissued hspent hcopies
  | spend t b hb hissued hspent hcopies => exact hc.spend hb hissued hspent hcopies

end SimulazioneTransazioni.Budget

import Mathlib.Algebra.Order.BigOperators.Group.List
import Mathlib.Data.Multiset.OrderedMonoid
import Mathlib.Logic.Relation

/-!
Tokens that are issued once and afterwards only change hands. The tokens held
are divided into the free and the sunk ones. A free token may stay free, sink
or vanish, a sunk one may only stay or vanish, so every token is held at most
once and a token that is not free is never free again. The places that hold
the tokens stand in a list, and a place is the multiset of what it holds.
-/
namespace SimulazioneTransazioni.Custody

variable {T : Type*}

structure State (T : Type*) where
  issued : List T
  free : Multiset T
  sunk : Multiset T

namespace State

def held (c : State T) : Multiset T := c.free + c.sunk

end State

inductive Step (c c' : State T) : Prop
  | settle (hissued : c'.issued = c.issued) (hfree : c'.free ≤ c.free)
      (hheld : c'.held ≤ c.held)
  | issue (t : T) (hnew : t ∉ c.issued) (hissued : c'.issued = c.issued ++ [t])
      (hfree : c'.free ≤ c.free + {t}) (hheld : c'.held ≤ c.held + {t})

def Later : State T → State T → Prop := Relation.ReflTransGen Step

/-- No token was issued twice, and none is held more often than it was issued. -/
structure Sound (c : State T) : Prop where
  nodup : c.issued.Nodup
  held_le : c.held ≤ (c.issued : Multiset T)

variable {c c' : State T} {t : T}

theorem Sound.step (hc : Sound c) (h : Step c c') : Sound c' := by
  obtain ⟨hnodup, hle⟩ := hc
  cases h with
  | settle hissued hfree hheld =>
    rw [← hissued] at hnodup hle
    exact ⟨hnodup, hheld.trans hle⟩
  | issue t hnew hissued hfree hheld =>
    refine ⟨?_, ?_⟩
    · rw [hissued, List.nodup_append]
      refine ⟨hnodup, List.nodup_singleton t, ?_⟩
      intro a ha b hb heq
      rw [List.mem_singleton.mp hb] at heq
      exact hnew (heq ▸ ha)
    · rw [hissued, ← Multiset.coe_add]
      exact hheld.trans (add_le_add hle le_rfl)

theorem State.free_le_held (c : State T) : c.free ≤ c.held := Multiset.le_add_right _ _

theorem not_mem_of_le_add {m m' : Multiset T} {t' : T} (hle : m' ≤ m + {t'}) (hne : t ≠ t')
    (ht : t ∉ m) : t ∉ m' := by
  intro hin
  rcases Multiset.mem_add.mp (Multiset.mem_of_le hle hin) with hold | hone
  · exact ht hold
  · exact hne (Multiset.mem_singleton.mp hone)

/-- An issued token that is not free does not become free, and one that is held
nowhere is lost. -/
theorem Step.gone (h : Step c c') (hissued : t ∈ c.issued) :
    t ∈ c'.issued ∧ (t ∉ c.free → t ∉ c'.free) ∧ (t ∉ c.held → t ∉ c'.held) := by
  cases h with
  | settle heq hfree hheld =>
    exact ⟨heq ▸ hissued, fun ht hin => ht (Multiset.mem_of_le hfree hin),
      fun ht hin => ht (Multiset.mem_of_le hheld hin)⟩
  | issue t' hnew heq hfree hheld =>
    have hne : t ≠ t' := fun hsame => hnew (hsame ▸ hissued)
    exact ⟨heq ▸ List.mem_append_left _ hissued, not_mem_of_le_add hfree hne,
      not_mem_of_le_add hheld hne⟩

theorem Later.gone (h : Later c c') (hissued : t ∈ c.issued) :
    t ∈ c'.issued ∧ (t ∉ c.free → t ∉ c'.free) ∧ (t ∉ c.held → t ∉ c'.held) := by
  induction h with
  | refl => exact ⟨hissued, id, id⟩
  | tail _ hstep ih =>
    obtain ⟨hin, hfree, hheld⟩ := ih
    obtain ⟨hin', hfree', hheld'⟩ := hstep.gone hin
    exact ⟨hin', hfree' ∘ hfree, hheld' ∘ hheld⟩

section Places

variable [DecidableEq T]

def Once (t : T) (places : List (Multiset T)) : Prop :=
  places.countP (fun p => t ∈ p) ≤ 1 ∧ ∀ p ∈ places, p.count t ≤ 1

theorem countP_le_count_sum (t : T) (places : List (Multiset T)) :
    places.countP (fun p => t ∈ p) ≤ places.sum.count t := by
  induction places with
  | nil => exact Nat.zero_le _
  | cons p rest ih =>
    rw [List.countP_cons, List.sum_cons, Multiset.count_add]
    split
    next hin =>
      have hpos := Multiset.count_pos.mpr (of_decide_eq_true hin)
      omega
    next => omega

theorem once_of_count_sum {places : List (Multiset T)} (h : places.sum.count t ≤ 1) :
    Once t places :=
  ⟨(countP_le_count_sum t places).trans h,
    fun _ hp => (Multiset.count_le_of_le t (List.le_sum_of_mem hp)).trans h⟩

theorem Sound.count_held_le (hc : Sound c) (t : T) : c.held.count t ≤ 1 := by
  have hle := Multiset.count_le_of_le t hc.held_le
  have hone := List.nodup_iff_count_le_one.mp hc.nodup t
  rw [Multiset.coe_count] at hle
  exact hle.trans hone

/-- A token that has left some of the tokens held is not among them. -/
theorem Sound.not_mem_of_left (hc : Sound c) {m m' : Multiset T} (hm : m ≤ c.held)
    (h : m' + {t} ≤ m) : t ∉ m' := by
  intro hin
  have hle := Multiset.count_le_of_le t (h.trans hm)
  have hpos := Multiset.count_pos.mpr hin
  have hone := hc.count_held_le t
  rw [Multiset.count_add, Multiset.count_singleton_self] at hle
  omega

end Places
end SimulazioneTransazioni.Custody

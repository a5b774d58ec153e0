import Mathlib.Data.List.Induction

/-!
Properties of every element of a list against the elements before it, and the number
of elements at the end of a list that meet a test without a break. Two judges of such
elements that stop at their first positive verdict agree on a list if and only if they
agree on each element up to which neither has given one.
-/
namespace SimulazioneTransazioni.Streak

variable {α : Type*}

def Along (P : List α → α → Prop) (l : List α) : Prop :=
  ∀ before a after, l = before ++ a :: after → P before a

def streak (test : α → Bool) (l : List α) : ℕ := (l.reverse.takeWhile test).length

theorem along_nil (P : List α → α → Prop) : Along P [] := by
  intro before a after h
  exact absurd h.symm (List.append_ne_nil_of_right_ne_nil before (List.cons_ne_nil a after))

theorem along_concat {P : List α → α → Prop} {l : List α} {a : α} :
    Along P (l ++ [a]) ↔ Along P l ∧ P l a := by
  constructor
  · intro h
    constructor
    · intro before b after hl
      apply h before b (after ++ [a])
      rw [hl, List.append_assoc, List.cons_append]
    · exact h l a [] rfl
  · rintro ⟨hl, ha⟩ before b after h
    rcases List.eq_nil_or_concat after with rfl | ⟨rest, c, rfl⟩
    · obtain ⟨rfl, hb⟩ := List.append_inj' h rfl
      cases hb
      exact ha
    · rw [List.concat_eq_append, ← List.cons_append, ← List.append_assoc] at h
      obtain ⟨hrest, -⟩ := List.append_inj' h rfl
      exact hl before b rest hrest

theorem streak_nil (test : α → Bool) : streak test [] = 0 := rfl

theorem streak_concat (test : α → Bool) (l : List α) (a : α) :
    streak test (l ++ [a]) = if test a then streak test l + 1 else 0 := by
  rw [streak, List.reverse_concat, List.takeWhile_cons]
  split
  · rfl
  · rfl

section Judges

variable {A B Q : List α → α → Prop}

/-- Judge A gives the verdicts of B until its first positive one. -/
def Agrees (A B : List α → α → Prop) : List α → Prop :=
  Along fun before a => Along (fun b c => ¬ A b c) before → (A before a ↔ B before a)

theorem Agrees.silent_iff {l : List α} (h : Agrees A B l) :
    Along (fun b c => ¬ A b c) l ↔ Along (fun b c => ¬ B b c) l := by
  induction l using List.reverseRecOn with
  | nil => exact ⟨fun _ => along_nil _, fun _ => along_nil _⟩
  | append_singleton l a ih =>
    obtain ⟨hl, ha⟩ := along_concat.mp h
    rw [along_concat, along_concat, ← ih hl]
    constructor
    · rintro ⟨hsilent, hnot⟩
      exact ⟨hsilent, fun hb => hnot ((ha hsilent).mpr hb)⟩
    · rintro ⟨hsilent, hnot⟩
      exact ⟨hsilent, fun hb => hnot ((ha hsilent).mp hb)⟩

/-- A condition for the verdicts on one element to be the same, as long as neither
judge has given a positive one, is a condition for a whole list. -/
theorem agrees_iff (hexact : ∀ before a, Along (fun b c => ¬ A b c) before →
      Along (fun b c => ¬ B b c) before → ((A before a ↔ B before a) ↔ Q before a))
    (l : List α) :
    Agrees A B l ↔
      Along (fun before a => Along (fun b c => ¬ B b c) before → Q before a) l := by
  induction l using List.reverseRecOn with
  | nil => exact ⟨fun _ => along_nil _, fun _ => along_nil _⟩
  | append_singleton l a ih =>
    rw [Agrees, along_concat, along_concat]
    constructor
    · rintro ⟨hl, ha⟩
      refine ⟨ih.mp hl, fun hB => ?_⟩
      have hA := (Agrees.silent_iff hl).mpr hB
      exact (hexact l a hA hB).mp (ha hA)
    · rintro ⟨hl, ha⟩
      have hagrees := ih.mpr hl
      refine ⟨hagrees, fun hA => ?_⟩
      have hB := hagrees.silent_iff.mp hA
      exact (hexact l a hA hB).mpr (ha hB)

end Judges
end SimulazioneTransazioni.Streak

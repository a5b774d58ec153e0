import Mathlib.Data.List.Basic

/-!
A trace of actions each of which must be allowed after the ones before it.
-/
namespace SimulazioneTransazioni.Trace

variable {α : Type*} {allowed : List α → α → Prop}

def Safe (allowed : List α → α → Prop) : List α → List α → Prop
  | _, [] => True
  | before, a :: rest => allowed before a ∧ Safe allowed (before ++ [a]) rest

theorem safe_append (before trace rest : List α) : Safe allowed before (trace ++ rest) ↔
    Safe allowed before trace ∧ Safe allowed (before ++ trace) rest := by
  induction trace generalizing before with
  | nil => simp [Safe]
  | cons a trace ih => simp [Safe, ih, and_assoc]

/-- Where the actions of the trace do not matter to each other, each is judged by what
was before all of them. -/
theorem safe_iff_forall {trace : List α}
    (h : ∀ a ∈ trace, ∀ b ∈ trace, ∀ before, allowed (before ++ [b]) a ↔ allowed before a)
    (before : List α) : Safe allowed before trace ↔ ∀ a ∈ trace, allowed before a := by
  induction trace generalizing before with
  | nil => simp [Safe]
  | cons b trace ih =>
    have hrest : ∀ a ∈ trace, ∀ b ∈ trace, ∀ before,
        allowed (before ++ [b]) a ↔ allowed before a :=
      fun a ha b hb => h a (List.mem_cons_of_mem _ ha) b (List.mem_cons_of_mem _ hb)
    have hhead : (∀ a ∈ trace, allowed (before ++ [b]) a) ↔ ∀ a ∈ trace, allowed before a :=
      forall₂_congr fun a ha => h a (List.mem_cons_of_mem _ ha) b List.mem_cons_self before
    rw [Safe, ih hrest, hhead, List.forall_mem_cons]

end SimulazioneTransazioni.Trace

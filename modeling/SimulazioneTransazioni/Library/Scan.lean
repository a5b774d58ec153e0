import Mathlib.Data.List.TakeWhile
import Mathlib.Data.List.Basic

/-!
Scans of a table that stop at the first slot that meets a test. A scan yields
the slots it passed and the positions it tested. On a table whose used slots come
first, a test that every unused slot meets passes exactly the used slots if and
only if none of these meets it.
-/
namespace SimulazioneTransazioni.Scan

variable {α : Type*} (stop : α → Prop) [DecidablePred stop]

structure Scanned (α : Type*) where
  passed : List α
  tested : List ℕ

def scan : (i : ℕ) → List α → Scanned α
  | _, [] => ⟨[], []⟩
  | i, a :: rest =>
    if stop a then ⟨[], [i]⟩
    else ⟨a :: (scan (i + 1) rest).passed, i :: (scan (i + 1) rest).tested⟩

variable {stop} {l used unused : List α} {i k : ℕ}

theorem scan_passed (i : ℕ) (l : List α) :
    (scan stop i l).passed = l.takeWhile fun a => ¬ stop a := by
  induction l generalizing i with
  | nil => rfl
  | cons a rest ih =>
    unfold scan
    by_cases ha : stop a
    · rw [if_pos ha, List.takeWhile_cons_of_neg (by simpa using ha)]
    · rw [if_neg ha, List.takeWhile_cons_of_pos (by simpa using ha), ← ih (i + 1)]

/-- No position beyond the table is tested. -/
theorem tested_lt (h : k ∈ (scan stop i l).tested) : k < i + l.length := by
  induction l generalizing i with
  | nil => contradiction
  | cons a rest ih =>
    unfold scan at h
    rw [List.length_cons]
    by_cases ha : stop a
    · rw [if_pos ha] at h
      have hk := List.mem_singleton.mp h
      omega
    · rw [if_neg ha] at h
      rcases List.mem_cons.mp h with hk | hk
      · omega
      · have hlt := ih hk
        omega

/-- The slots after one that meets the test do not matter. -/
theorem passed_append_stop {a : α} (ha : stop a) (l rest : List α) (i : ℕ) :
    (scan stop i (l ++ a :: rest)).passed = (scan stop i l).passed := by
  rw [scan_passed, scan_passed]
  induction l with
  | nil => exact List.takeWhile_cons_of_neg (by simpa using ha)
  | cons b l ih =>
    rw [List.cons_append]
    by_cases hb : stop b
    · rw [List.takeWhile_cons_of_neg (by simpa using hb),
        List.takeWhile_cons_of_neg (by simpa using hb)]
    · rw [List.takeWhile_cons_of_pos (by simpa using hb),
        List.takeWhile_cons_of_pos (by simpa using hb), ih]

theorem scan_passed_eq_iff (hunused : ∀ a ∈ unused, stop a) :
    (scan stop i (used ++ unused)).passed = used ↔ ∀ a ∈ used, ¬ stop a := by
  rw [scan_passed]
  constructor
  · intro h a ha
    rw [← h] at ha
    simpa using List.mem_takeWhile_imp ha
  · intro h
    have hnone : unused.takeWhile (fun a => ¬ stop a) = [] := by
      cases unused with
      | nil => rfl
      | cons a rest =>
        have ha := hunused a (List.mem_cons_self ..)
        exact List.takeWhile_cons_of_neg (by simpa using ha)
    rw [List.takeWhile_append_of_pos (by simpa using h), hnone, List.append_nil]

/-- The used slots are passed as soon as their number is right. -/
theorem length_passed_eq_iff (hunused : ∀ a ∈ unused, stop a) :
    (scan stop i (used ++ unused)).passed.length = used.length ↔ ∀ a ∈ used, ¬ stop a := by
  rw [← scan_passed_eq_iff (i := i) hunused]
  constructor
  · intro hlen
    have hpre : (scan stop i (used ++ unused)).passed <+: used ++ unused := by
      rw [scan_passed]
      exact List.takeWhile_prefix _
    exact (List.prefix_of_prefix_length_le hpre (List.prefix_append used unused)
      hlen.le).eq_of_length hlen
  · intro h
    rw [h]

/-- The slots before the one where the scan stops do not meet the test. -/
theorem not_stop_of_passed (hk : k < l.length) (h : k < (scan stop i l).passed.length) :
    ¬ stop l[k] := by
  induction l generalizing i k with
  | nil => contradiction
  | cons a rest ih =>
    unfold scan at h
    by_cases ha : stop a
    · rw [if_pos ha] at h
      contradiction
    · rw [if_neg ha] at h
      cases k with
      | zero => exact ha
      | succ k => exact ih (Nat.lt_of_succ_lt_succ hk) (Nat.lt_of_succ_lt_succ h)

theorem stop_of_length (h : k = (scan stop i l).passed.length) (hk : k < l.length) :
    stop l[k] := by
  induction l generalizing i k with
  | nil => contradiction
  | cons a rest ih =>
    unfold scan at h
    by_cases ha : stop a
    · rw [if_pos ha] at h
      subst h
      exact ha
    · rw [if_neg ha] at h
      subst h
      exact ih rfl (Nat.lt_of_succ_lt_succ hk)

/-- The scan passes all the slots that do not meet the test, when none comes after one that
meets it. -/
theorem passed_eq_filter_iff (i : ℕ) (l : List α) :
    ((scan stop i l).passed = l.filter fun a => ¬ stop a) ↔
      l.Pairwise fun a b => ¬ stop b → ¬ stop a := by
  rw [scan_passed]
  induction l with
  | nil => simp
  | cons a rest ih =>
    rw [List.pairwise_cons]
    by_cases ha : stop a
    · rw [List.takeWhile_cons_of_neg (by simpa using ha),
        List.filter_cons_of_neg (by simpa using ha)]
      constructor
      · intro hnone
        have hall : ∀ b ∈ rest, stop b := by
          intro b hb
          by_contra hnot
          have hin : b ∈ rest.filter fun a => ¬ stop a := List.mem_filter.mpr ⟨hb, by simpa⟩
          rw [← hnone] at hin
          exact List.not_mem_nil hin
        exact ⟨fun b hb hnot => absurd (hall b hb) hnot,
          List.pairwise_of_forall_mem_list fun x _ y hy hnot => absurd (hall y hy) hnot⟩
      · rintro ⟨hall, -⟩
        refine (List.filter_eq_nil_iff.mpr fun b hb => ?_).symm
        have hstop : stop b := by
          by_contra hnot
          exact hall b hb hnot ha
        simpa using hstop
    · rw [List.takeWhile_cons_of_pos (by simpa using ha),
        List.filter_cons_of_pos (by simpa using ha), List.cons.injEq, ih]
      exact ⟨fun h => ⟨fun _ _ _ => ha, h.2⟩, fun h => ⟨rfl, h.2⟩⟩

end SimulazioneTransazioni.Scan

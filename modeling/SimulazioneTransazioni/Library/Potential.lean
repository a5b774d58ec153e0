import SimulazioneTransazioni.Library.Machine
import Mathlib.Data.Nat.Notation

/-!
Machines that work off a potential. Every step that counts takes at least one
unit from the potential, and every other step adds at most what the income grows
by. So a run makes no more steps that count than its first potential and the
income of the run pay for, and from every state the steps that count lead, after
finitely many of them, to a state in which none is enabled.
-/
namespace SimulazioneTransazioni.Machine

variable {S L : Type*} (M : Machine S L)

section Counted

variable (Counts : S → L → Prop) [∀ s l, Decidable (Counts s l)]

def counted : Machine (S × ℕ) L where
  start r := M.start r.1 ∧ r.2 = 0
  next r l := (M.next r.1 l).map fun s => (s, if Counts r.1 l then r.2 + 1 else r.2)

end Counted

/-- What a potential has to do, under an invariant and a condition on the steps. -/
structure Pays (C Counts : S → L → Prop) (I : S → Prop) (work income : S → ℕ) : Prop where
  keeps : ∀ s l s', I s → C s l → M.next s l = some s' → I s'
  lowers : ∀ s l s', I s → C s l → Counts s l → M.next s l = some s' → work s' + 1 ≤ work s
  earns : ∀ s l s', I s → C s l → ¬ Counts s l → M.next s l = some s' →
    work s' + income s ≤ work s + income s'
  grows : ∀ s l s', I s → C s l → M.next s l = some s' → income s ≤ income s'

variable {M} {C Counts : S → L → Prop} {I : S → Prop} {work income : S → ℕ} {s s' : S} {n n' : ℕ}

theorem Pays.step [∀ s l, Decidable (Counts s l)] (h : M.Pays C Counts I work income)
    {l : L} (hs : I s) (hC : C s l) (hn : (M.counted Counts).next (s, n) l = some (s', n')) :
    n' + work s' + income s ≤ n + work s + income s' := by
  obtain ⟨t, ht, heq⟩ := Option.map_eq_some_iff.mp hn
  cases heq
  dsimp only
  split
  next hcounts =>
    have hwork := h.lowers s l s' hs hC hcounts ht
    have hincome := h.grows s l s' hs hC ht
    omega
  next hcounts =>
    have hearned := h.earns s l s' hs hC hcounts ht
    omega

/-- What a run has counted and what is left of the potential are paid for. -/
theorem Pays.run [∀ s l, Decidable (Counts s l)] (h : M.Pays C Counts I work income)
    (hs : I s) (hp : (M.counted Counts).Path (fun r l => C r.1 l) (s, n) (s', n')) :
    I s' ∧ n' + work s' + income s ≤ n + work s + income s' := by
  have hrun : ∀ r r' : S × ℕ, (M.counted Counts).Path (fun r l => C r.1 l) r r' → I r.1 →
      I r'.1 ∧ r'.2 + work r'.1 + income r.1 ≤ r.2 + work r.1 + income r'.1 := by
    intro r r' hp hr
    induction hp with
    | refl => exact ⟨hr, Nat.le_refl _⟩
    | tail _ hlast ih =>
      obtain ⟨l, hC, hn⟩ := hlast
      have hstep := h.step ih.1 hC hn
      obtain ⟨t, ht, heq⟩ := Option.map_eq_some_iff.mp hn
      refine ⟨?_, by omega⟩
      rw [← heq]
      exact h.keeps _ l t ih.1 hC ht
  exact hrun (s, n) (s', n') hp hs

def Rests (M : Machine S L) (C Counts : S → L → Prop) (s : S) : Prop :=
  ∀ l, C s l → Counts s l → M.next s l = none

/-- Steps that count lead to a state at rest. -/
theorem Pays.comes_to_rest (h : M.Pays C Counts I work income) (hs : I s) :
    ∃ s', M.Path (fun s l => C s l ∧ Counts s l) s s' ∧ M.Rests C Counts s' := by
  generalize hw : work s = w
  induction w using Nat.strongRecOn generalizing s with
  | ind w ih =>
    by_cases hrest : M.Rests C Counts s
    · exact ⟨s, Path.refl s, hrest⟩
    · obtain ⟨l, hl⟩ := Classical.not_forall.mp hrest
      obtain ⟨hC, hl⟩ := Classical.not_imp.mp hl
      obtain ⟨hcounts, hne⟩ := Classical.not_imp.mp hl
      obtain ⟨t, ht⟩ := Option.ne_none_iff_exists'.mp hne
      have hless := h.lowers s l t hs hC hcounts ht
      obtain ⟨s', hpath, hs'⟩ := ih (work t) (by omega) (h.keeps s l t hs hC ht) rfl
      have hfirst : M.Path (fun s l => C s l ∧ Counts s l) s t :=
        (Path.refl s).tail ⟨hC, hcounts⟩ ht
      exact ⟨s', hfirst.trans hpath, hs'⟩

end SimulazioneTransazioni.Machine

import Mathlib.Logic.Relation

/-!
Machines driven by labels. A label carries everything a step does not decide
itself: which party moves and what its environment answers. A run may be
restricted to steps that meet a condition on the state before and the label,
and every rule below is stated for such restricted runs.
-/
namespace SimulazioneTransazioni

/-- `next s l = none` when the label `l` is not enabled in `s`. -/
structure Machine (S L : Type*) where
  start : S → Prop
  next : S → L → Option S

namespace Machine

variable {S L : Type*} (M : Machine S L)

def free : S → L → Prop := fun _ _ => True

def Step (C : S → L → Prop) (s s' : S) : Prop := ∃ l, C s l ∧ M.next s l = some s'

def Path (C : S → L → Prop) : S → S → Prop := Relation.ReflTransGen (M.Step C)

def Reach (C : S → L → Prop) (s : S) : Prop := ∃ s₀, M.start s₀ ∧ M.Path C s₀ s

abbrev Reachable (s : S) : Prop := M.Reach free s

def run : S → List L → Option S
  | s, [] => some s
  | s, l :: rest => (M.next s l).bind fun s' => run s' rest

def runWhile (C : S → L → Prop) [∀ s l, Decidable (C s l)] : S → List L → Option S
  | s, [] => some s
  | s, l :: rest => if C s l then (M.next s l).bind fun s' => runWhile C s' rest else none

variable {M} {C : S → L → Prop} {s s' s'' : S} {l : L}

theorem Path.refl (s : S) : M.Path C s s := Relation.ReflTransGen.refl

theorem Path.tail (h : M.Path C s s') (hC : C s' l) (hn : M.next s' l = some s'') :
    M.Path C s s'' :=
  Relation.ReflTransGen.tail h ⟨l, hC, hn⟩

theorem Path.trans (h : M.Path C s s') (h' : M.Path C s' s'') : M.Path C s s'' :=
  Relation.ReflTransGen.trans h h'

theorem Reach.of_start (h : M.start s) : M.Reach C s := ⟨s, h, Path.refl s⟩

theorem Reach.path (h : M.Reach C s) (h' : M.Path C s s') : M.Reach C s' := by
  obtain ⟨s₀, h₀, hp⟩ := h
  exact ⟨s₀, h₀, hp.trans h'⟩

theorem Reach.next (h : M.Reach C s) (hC : C s l) (hn : M.next s l = some s') :
    M.Reach C s' :=
  h.path ((Path.refl s).tail hC hn)

/-- What every step preserves is preserved along a path. -/
theorem Path.preserves {I : S → Prop} (h : M.Path C s s')
    (hstep : ∀ s l s', I s → C s l → M.next s l = some s' → I s') (hs : I s) : I s' := by
  induction h with
  | refl => exact hs
  | tail _ hlast ih =>
    obtain ⟨l, hC, hn⟩ := hlast
    exact hstep _ l _ ih hC hn

/-- A reflexive and transitive relation between the states before and after
each step holds between the ends of a path. The steps may use an invariant. -/
theorem Path.related {I : S → Prop} {R : S → S → Prop} (h : M.Path C s s')
    (hstep : ∀ s l s', I s → C s l → M.next s l = some s' → I s')
    (hrefl : ∀ s, R s s) (htrans : ∀ s s' s'', R s s' → R s' s'' → R s s'')
    (hR : ∀ s l s', I s → C s l → M.next s l = some s' → R s s') (hs : I s) : R s s' := by
  have hboth : I s' ∧ R s s' := by
    induction h with
    | refl => exact ⟨hs, hrefl s⟩
    | tail _ hlast ih =>
      obtain ⟨l, hC, hn⟩ := hlast
      exact ⟨hstep _ l _ ih.1 hC hn, htrans _ _ _ ih.2 (hR _ l _ ih.1 hC hn)⟩
  exact hboth.2

/-- The invariant rule. -/
theorem Reach.invariant {I : S → Prop} (h : M.Reach C s) (hstart : ∀ s, M.start s → I s)
    (hstep : ∀ s l s', I s → C s l → M.next s l = some s' → I s') : I s := by
  obtain ⟨s₀, h₀, hp⟩ := h
  exact hp.preserves hstep (hstart s₀ h₀)

theorem path_of_run (labels : List L) (hC : ∀ s, ∀ l ∈ labels, C s l)
    (h : M.run s labels = some s') : M.Path C s s' := by
  induction labels generalizing s with
  | nil =>
    cases h
    exact Path.refl _
  | cons l rest ih =>
    obtain ⟨t, ht, hrest⟩ := Option.bind_eq_some_iff.mp h
    have hfirst : M.Path C s t := (Path.refl s).tail (hC s l (List.mem_cons_self ..)) ht
    exact hfirst.trans (ih (fun s l hl => hC s l (List.mem_cons_of_mem _ hl)) hrest)

theorem reach_of_run (labels : List L) (hstart : M.start s)
    (hC : ∀ s, ∀ l ∈ labels, C s l) (h : M.run s labels = some s') : M.Reach C s' :=
  ⟨s, hstart, path_of_run labels hC h⟩

theorem reachable_of_run (labels : List L) (hstart : M.start s)
    (h : M.run s labels = some s') : M.Reachable s' :=
  reach_of_run labels hstart (fun _ _ _ => trivial) h

theorem path_of_runWhile [∀ s l, Decidable (C s l)] (labels : List L)
    (h : M.runWhile C s labels = some s') : M.Path C s s' := by
  induction labels generalizing s with
  | nil =>
    cases h
    exact Path.refl _
  | cons l rest ih =>
    rw [runWhile] at h
    split at h
    next hC =>
      obtain ⟨t, ht, hrest⟩ := Option.bind_eq_some_iff.mp h
      exact ((Path.refl s).tail hC ht).trans (ih hrest)
    next => contradiction

section Simulation

variable {T K : Type*} {N : Machine T K} {D : T → K → Prop} {f : S → T} {I : S → Prop}

/-- A path under an abstraction that takes every step to a step. -/
theorem Path.map (h : M.Path C s s')
    (hstep : ∀ s l s', I s → C s l → M.next s l = some s' →
      I s' ∧ ∃ k, D (f s) k ∧ N.next (f s) k = some (f s')) (hs : I s) :
    N.Path D (f s) (f s') := by
  have hboth : I s' ∧ N.Path D (f s) (f s') := by
    induction h with
    | refl => exact ⟨hs, Path.refl _⟩
    | tail _ hlast ih =>
      obtain ⟨l, hC, hn⟩ := hlast
      obtain ⟨hI, k, hD, hk⟩ := hstep _ l _ ih.1 hC hn
      exact ⟨hI, ih.2.tail hD hk⟩
  exact hboth.2

/-- A path of the abstraction is that of a path, where every step can be taken below. -/
theorem Path.lift {t : T} (h : N.Path D (f s) t)
    (hstep : ∀ s k t, I s → D (f s) k → N.next (f s) k = some t →
      ∃ l s', C s l ∧ M.next s l = some s' ∧ I s' ∧ f s' = t) (hs : I s) :
    ∃ s', M.Path C s s' ∧ I s' ∧ f s' = t := by
  induction h with
  | refl => exact ⟨s, Path.refl s, hs, rfl⟩
  | tail _ hlast ih =>
    obtain ⟨u, hu, hI, rfl⟩ := ih
    obtain ⟨k, hD, hk⟩ := hlast
    obtain ⟨l, u', hC, hn, hI', hf⟩ := hstep u k _ hI hD hk
    exact ⟨u', hu.tail hC hn, hI', hf⟩

end Simulation

section Recorded

variable {E : Type*} (M) (observe : S → L → List E)

def recorded : Machine (S × List E) L where
  start r := M.start r.1 ∧ r.2 = []
  next r l := (M.next r.1 l).map fun s => (s, r.2 ++ observe r.1 l)

variable {M observe} {r : S × List E}

/-- The invariant rule for the machine with its log. The steps may use what holds
of the states that the machine reaches without it. -/
theorem recorded_invariant {I : S × List E → Prop}
    (h : (M.recorded observe).Reach (fun r l => C r.1 l) r)
    (hstart : ∀ s, M.start s → I (s, []))
    (hstep : ∀ s log l s', M.Reach C s → I (s, log) → C s l → M.next s l = some s' →
      I (s', log ++ observe s l)) : M.Reach C r.1 ∧ I r := by
  refine h.invariant (I := fun r => M.Reach C r.1 ∧ I r) ?_ ?_
  · rintro ⟨s, log⟩ ⟨hs, hlog⟩
    have hnil : log = [] := hlog
    rw [hnil]
    exact ⟨Reach.of_start hs, hstart s hs⟩
  · rintro ⟨s, log⟩ l r' ⟨hreach, hI⟩ hC hn
    obtain ⟨s', hs', rfl⟩ := Option.map_eq_some_iff.mp hn
    exact ⟨hreach.next hC hs', hstep s log l s' hreach hI hC hs'⟩

/-- A state that the machine reaches is reached with some log. -/
theorem exists_recorded (h : M.Reach C s) :
    ∃ log, (M.recorded observe).Reach (fun r l => C r.1 l) (s, log) := by
  obtain ⟨s₀, h₀, hp⟩ := h
  induction hp with
  | refl => exact ⟨[], Reach.of_start ⟨h₀, rfl⟩⟩
  | tail _ hlast ih =>
    obtain ⟨log, hlog⟩ := ih
    obtain ⟨l, hC, hn⟩ := hlast
    exact ⟨log ++ observe _ l, hlog.next hC (Option.map_eq_some_iff.mpr ⟨_, hn, rfl⟩)⟩

end Recorded

end Machine
end SimulazioneTransazioni

import SimulazioneTransazioni.LedgerWriters
import Mathlib.Data.Set.Card

/-!
Which confirmed blocks survive. The slot test stands outside the section that
writes the slot, so two children can choose one slot and the second write
destroys the first block. Nothing is lost in the runs where no child finds a
slot free that another child has chosen and not written yet; and from every
state where two children have chosen one slot a block is lost two steps later.
-/
namespace SimulazioneTransazioni.LedgerRace

open Blocks LedgerWriters

variable {ι : Type*}

def Claims (s : State ι) (c : ι) (i : Slot) : Prop := ∃ b, (s.writers c).pc = .writing b i

def InsertedAt (s : State ι) (c : ι) (i : Slot) : Prop :=
  ∃ b, (s.writers c).pc = .inserted b i

def filledSlots (s : State ι) : Set Slot := {i | ¬ isFree (s.ledger.get i)}

def completedInserts (s : State ι) : Set ι := {c | ∃ i, InsertedAt s c i}

/-- Every insert that has returned has its block in its own slot, every filled
slot is the slot of one insert, and there are as many of one as of the other. -/
structure NoneLost (s : State ι) : Prop where
  stored : ∀ c b i, (s.writers c).pc = .inserted b i → s.ledger.get i = written b i
  owned : ∀ i ∈ filledSlots s, ∃! c, InsertedAt s c i
  counted : (filledSlots s).ncard = (completedInserts s).ncard

structure Kept (s s' : State ι) : Prop where
  slots : ∀ i ∈ filledSlots s, s'.ledger.get i = s.ledger.get i
  inserts : ∀ c b i, (s.writers c).pc = .inserted b i → (s'.writers c).pc = .inserted b i

/-- The step does not find free a slot that another child has already chosen. -/
def Uncontested (s : State ι) (l : ι × Reading) : Prop :=
  ∀ b (i : Slot), (s.writers l.1).pc = .scanning b i → isFree (s.ledger.get i) →
    ∀ d, ¬ Claims s d i

section Owners

def Owned (s : State ι) : Prop := ∀ i ∈ filledSlots s, ∃ c, InsertedAt s c i

theorem owned_initial {s : State ι} (h : Initial s) : Owned s := by
  intro i hi
  refine absurd ?_ hi
  rw [h.1, Ledger.zero, List.Vector.get_replicate]
  exact isFree_zero

variable [DecidableEq ι]

theorem InsertedAt.next {s s' : State ι} {l : ι × Reading} {c : ι} {b : Block} {i : Slot}
    (h : next s l = some s') (hc : (s.writers c).pc = .inserted b i) :
    (s'.writers c).pc = .inserted b i := by
  obtain ⟨w, hdid, hw⟩ := next_did h
  rw [hw]
  by_cases hcl : c = l.1
  · subst hcl
    exact absurd hc (hdid.not_inserted b i)
  · rwa [Function.update_of_ne hcl]

theorem next_owned {s s' : State ι} {l : ι × Reading} (ho : Owned s)
    (h : next s l = some s') : Owned s' := by
  obtain ⟨w, hdid, hw⟩ := next_did h
  intro i hi
  by_cases hold : i ∈ filledSlots s
  · obtain ⟨c, b, hc⟩ := ho i hold
    exact ⟨c, b, InsertedAt.next h hc⟩
  · rcases hdid.ledger_cases with hsame | ⟨b, j, _, hpc, hset⟩
    · rw [filledSlots, Set.mem_ofPred_eq, hsame] at hi
      exact absurd hi hold
    · by_cases hij : j = i
      · refine ⟨l.1, b, ?_⟩
        rw [hw, Function.update_self, hpc, hij]
      · rw [filledSlots, Set.mem_ofPred_eq, hset, List.Vector.get_set_of_ne hij] at hi
        exact absurd hi hold

theorem reach_owned {C : State ι → ι × Reading → Prop} {s : State ι}
    (h : (machine ι).Reach C s) : Owned s :=
  h.invariant (fun _ => owned_initial) fun _ _ _ ho _ hn => next_owned ho hn

end Owners

structure Unraced (s : State ι) : Prop where
  shaped : Shaped s
  owned : Owned s
  free : ∀ c i, Claims s c i → isFree (s.ledger.get i)
  alone : ∀ c d i, Claims s c i → Claims s d i → c = d
  stored : ∀ c b i, (s.writers c).pc = .inserted b i → s.ledger.get i = written b i
  single : ∀ c d i, InsertedAt s c i → InsertedAt s d i → c = d

theorem unraced_initial {s : State ι} (h : Initial s) : Unraced s where
  shaped := shaped_initial h
  owned := owned_initial h
  free c i hc := by
    obtain ⟨b, hb⟩ := hc
    simp [(h.2 c).1] at hb
  alone c d i hc := by
    obtain ⟨b, hb⟩ := hc
    simp [(h.2 c).1] at hb
  stored c b i hc := by simp [(h.2 c).1] at hc
  single c d i hc := by
    obtain ⟨b, hb⟩ := hc
    simp [(h.2 c).1] at hb

/-- A slot with a returned insert is filled. -/
theorem Unraced.filled {s : State ι} (h : Unraced s) {c : ι} {i : Slot}
    (hc : InsertedAt s c i) : i ∈ filledSlots s := by
  obtain ⟨b, hb⟩ := hc
  have hget := h.stored c b i hb
  rw [filledSlots, Set.mem_ofPred_eq, hget]
  have hk := h.shaped.knows c
  exact not_isFree_of_built hk.sent (hk.stored b i hb) i

/-- A slot that a child has claimed is nobody's yet. -/
theorem Unraced.not_claimed {s : State ι} (hu : Unraced s) {c d : ι} {i : Slot}
    (hc : InsertedAt s c i) : ¬ Claims s d i :=
  fun hd => hu.filled hc (hu.free d i hd)

theorem Kept.refl (s : State ι) : Kept s s := ⟨fun _ _ => rfl, fun _ _ _ hc => hc⟩

theorem Kept.trans {s s' s'' : State ι} (h : Kept s s') (h' : Kept s' s'') : Kept s s'' where
  slots i hi := by
    have hget := h.slots i hi
    have hi' : i ∈ filledSlots s' := by
      rw [filledSlots, Set.mem_ofPred_eq, hget]
      exact hi
    rw [h'.slots i hi', hget]
  inserts c b i hc := h'.inserts c b i (h.inserts c b i hc)

section Uncontested

variable [DecidableEq ι] {s s' : State ι} {l : ι × Reading}

/-- A claim after the step is an old one, or the step has just made it. -/
theorem claims_cases {c : ι} {i : Slot} (h : next s l = some s') (hc : Claims s' c i) :
    (c ≠ l.1 ∧ Claims s c i) ∨
      (c = l.1 ∧ s'.ledger = s.ledger ∧ isFree (s.ledger.get i) ∧
        ∃ b, (s.writers l.1).pc = .scanning b i) := by
  obtain ⟨w, hdid, hw⟩ := next_did h
  obtain ⟨b, hb⟩ := hc
  rw [hw] at hb
  by_cases hcl : c = l.1
  · rw [hcl, Function.update_self] at hb
    obtain ⟨hpc, hsame, hfree⟩ := hdid.of_writing hb
    exact Or.inr ⟨hcl, hsame, hfree, b, hpc⟩
  · rw [Function.update_of_ne hcl] at hb
    exact Or.inl ⟨hcl, b, hb⟩

/-- An insert that has returned after the step had returned before, or its
write is the step. -/
theorem inserted_cases {c : ι} {b : Block} {i : Slot} (h : next s l = some s')
    (hc : (s'.writers c).pc = .inserted b i) :
    (c ≠ l.1 ∧ (s.writers c).pc = .inserted b i) ∨
      (c = l.1 ∧ Claims s l.1 i ∧ s'.ledger = s.ledger.set i (written b i)) := by
  obtain ⟨w, hdid, hw⟩ := next_did h
  rw [hw] at hc
  by_cases hcl : c = l.1
  · rw [hcl, Function.update_self] at hc
    obtain ⟨hpc, hset⟩ := hdid.of_inserted hc
    exact Or.inr ⟨hcl, ⟨b, hpc⟩, hset⟩
  · rw [Function.update_of_ne hcl] at hc
    exact Or.inl ⟨hcl, hc⟩

/-- Only the write of a child that has claimed a slot changes it. -/
theorem slot_kept {i : Slot} (h : next s l = some s') (hc : ¬ Claims s l.1 i) :
    s'.ledger.get i = s.ledger.get i := by
  obtain ⟨w, hdid, -⟩ := next_did h
  rcases hdid.ledger_cases with hsame | ⟨b, j, hpc, _, hset⟩
  · rw [hsame]
  · have hij : j ≠ i := fun hij => hc ⟨b, hij ▸ hpc⟩
    rw [hset, List.Vector.get_set_of_ne hij]

/-- An uncontested step keeps every insert in its slot. -/
theorem unraced_next (hu : Unraced s) (hC : Uncontested s l) (h : next s l = some s') :
    Unraced s' := by
  refine ⟨next_shaped hu.shaped h, next_owned hu.owned h, ?free, ?alone, ?stored, ?single⟩
  case free =>
    intro c i hc
    rcases claims_cases h hc with ⟨hcl, hold⟩ | ⟨_, hsame, hfree, _⟩
    · rw [slot_kept h fun hclaim => hcl (hu.alone c l.1 i hold hclaim)]
      exact hu.free c i hold
    · rwa [hsame]
  case alone =>
    intro c d i hc hd
    rcases claims_cases h hc with ⟨_, hc'⟩ | ⟨hcl, _, hfree, b, hpc⟩
    · rcases claims_cases h hd with ⟨_, hd'⟩ | ⟨_, _, hfree, b, hpc⟩
      · exact hu.alone c d i hc' hd'
      · exact absurd hc' (hC b i hpc hfree c)
    · rcases claims_cases h hd with ⟨_, hd'⟩ | ⟨hdl, _⟩
      · exact absurd hd' (hC b i hpc hfree d)
      · rw [hcl, hdl]
  case stored =>
    intro c b i hc
    rcases inserted_cases h hc with ⟨_, hold⟩ | ⟨_, _, hset⟩
    · rw [slot_kept h (hu.not_claimed ⟨b, hold⟩)]
      exact hu.stored c b i hold
    · rw [hset, List.Vector.get_set_same]
  case single =>
    rintro c d i ⟨b, hc⟩ ⟨b', hd⟩
    rcases inserted_cases h hc with ⟨_, hc'⟩ | ⟨hcl, hclaim, _⟩
    · rcases inserted_cases h hd with ⟨_, hd'⟩ | ⟨_, hclaim, _⟩
      · exact hu.single c d i ⟨b, hc'⟩ ⟨b', hd'⟩
      · exact absurd hclaim (hu.not_claimed ⟨b, hc'⟩)
    · rcases inserted_cases h hd with ⟨_, hd'⟩ | ⟨hdl, _⟩
      · exact absurd hclaim (hu.not_claimed ⟨b', hd'⟩)
      · rw [hcl, hdl]

theorem unraced_kept (hu : Unraced s) (h : next s l = some s') : Kept s s' := by
  refine ⟨fun i hi => ?_, fun c b i hc => InsertedAt.next h hc⟩
  exact slot_kept h fun hclaim => hi (hu.free l.1 i hclaim)

end Uncontested

theorem Unraced.noneLost {s : State ι} (hu : Unraced s) : NoneLost s where
  stored := hu.stored
  owned i hi := by
    obtain ⟨c, hc⟩ := hu.owned i hi
    exact ⟨c, hc, fun d hd => hu.single d c i hd hc⟩
  counted := by
    choose owner howner using hu.owned
    refine Set.ncard_congr owner (fun i hi => ⟨i, howner i hi⟩) ?_ ?_
    · intro i j hi hj heq
      obtain ⟨b, hb⟩ := howner i hi
      obtain ⟨b', hb'⟩ := howner j hj
      rw [heq, hb'] at hb
      cases hb
      rfl
    · rintro c ⟨i, hc⟩
      exact ⟨i, hu.filled hc, hu.single _ c i (howner i _) hc⟩

section Contested

variable [DecidableEq ι]

def afterWrite (s : State ι) (c : ι) (b : Block) (i : Slot) : State ι :=
  ⟨s.ledger.set i (written b i), s.nodesPID,
    Function.update s.writers c ((s.writers c).goto (.inserted b i))⟩

theorem next_write {s : State ι} {c : ι} {b : Block} {i : Slot}
    (hpc : (s.writers c).pc = .writing b i) (reading : Reading) :
    next s (c, reading) = some (afterWrite s c b i) := by
  simp [next, Writer.step, hpc, afterWrite]

/-- With two returned inserts at one slot there are fewer slots than inserts. -/
theorem fewer_slots [Fintype ι] {s : State ι} (ho : Owned s) {c d : ι} {i : Slot}
    (hne : c ≠ d) (hc : InsertedAt s c i) (hd : InsertedAt s d i) :
    (filledSlots s).ncard < (completedInserts s).ncard := by
  let slotOf : ι → Slot := fun e =>
    match (s.writers e).pc with
    | .inserted _ j => j
    | _ => i
  have hslot : ∀ e j, InsertedAt s e j → slotOf e = j := by
    rintro e j ⟨b, hb⟩
    simp only [slotOf, hb]
  -- every filled slot is the slot of an insert other than c
  have hcover : filledSlots s ⊆ slotOf '' (completedInserts s \ {c}) := by
    intro j hj
    obtain ⟨e, he⟩ := ho j hj
    by_cases hec : e = c
    · have hji : j = i := by rw [← hslot e j he, hec, hslot c i hc]
      exact ⟨d, ⟨⟨i, hd⟩, fun h => hne h.symm⟩, by rw [hslot d i hd, hji]⟩
    · exact ⟨e, ⟨⟨j, he⟩, hec⟩, hslot e j he⟩
  calc (filledSlots s).ncard
      ≤ (slotOf '' (completedInserts s \ {c})).ncard := Set.ncard_le_ncard hcover
    _ ≤ (completedInserts s \ {c}).ncard := Set.ncard_image_le
    _ < (completedInserts s).ncard := Set.ncard_sdiff_singleton_lt_of_mem ⟨i, hc⟩

/-- Two children that have claimed one slot can both write it. -/
theorem double_claim_loses [Fintype ι] {s : State ι} (hs : (machine ι).Reachable s)
    {c d : ι} {i : Slot} (hne : c ≠ d) (hc : Claims s c i) (hd : Claims s d i) :
    ∃ s', (machine ι).Path Machine.free s s' ∧
      (filledSlots s').ncard < (completedInserts s').ncard := by
  obtain ⟨b, hb⟩ := hc
  obtain ⟨b', hb'⟩ := hd
  let reading : Reading := ⟨⟨0, 0⟩, Block.zero⟩
  let s₁ := afterWrite s c b i
  let s₂ := afterWrite s₁ d b' i
  have hb₁ : (s₁.writers d).pc = .writing b' i := by
    simp [s₁, afterWrite, Function.update_of_ne hne.symm, hb']
  have h₁ : next s (c, reading) = some s₁ := next_write hb reading
  have h₂ : next s₁ (d, reading) = some s₂ := next_write hb₁ reading
  have hpath : (machine ι).Path Machine.free s s₂ :=
    ((Machine.Path.refl s).tail trivial h₁).tail trivial h₂
  refine ⟨s₂, hpath, fewer_slots (reach_owned (hs.path hpath)) (i := i) hne ?_ ?_⟩
  · exact ⟨b, by simp [s₂, s₁, afterWrite, Function.update_of_ne hne]⟩
  · exact ⟨b', by simp [s₂, afterWrite]⟩

end Contested

/-- In the runs where no child chooses a slot that another has chosen and not
written, no block is lost; and every step that does choose such a slot has a
continuation that loses one. -/
theorem noneLost_iff_uncontested [DecidableEq ι] [Fintype ι] :
    (∀ s, (machine ι).Reach Uncontested s → NoneLost s ∧
      ∀ s', (machine ι).Path Uncontested s s' → Kept s s') ∧
    ∀ s l s', (machine ι).Reachable s → next s l = some s' → ¬ Uncontested s l →
      ∃ s'', (machine ι).Path Machine.free s' s'' ∧
        (filledSlots s'').ncard < (completedInserts s'').ncard := by
  constructor
  · intro s hs
    have hu : Unraced s := hs.invariant (fun _ => unraced_initial)
      fun _ _ _ hu hC hn => unraced_next hu hC hn
    refine ⟨hu.noneLost, fun s' hp => ?_⟩
    exact hp.related (fun _ _ _ hu hC hn => unraced_next hu hC hn) Kept.refl
      (fun _ _ _ => Kept.trans) (fun _ _ _ hu _ hn => unraced_kept hu hn) hu
  · intro s l s' hs hn hcontested
    simp only [Uncontested, not_forall, not_not] at hcontested
    obtain ⟨b, i, hpc, hfree, d, b', hd⟩ := hcontested
    have hne : l.1 ≠ d := by
      intro h
      rw [h, hd] at hpc
      cases hpc
    have hnext : next s l = some ⟨s.ledger, s.nodesPID,
        Function.update s.writers l.1 ((s.writers l.1).goto (.writing b i))⟩ := by
      simp [next, Writer.step, hpc, hfree]
    rw [hn, Option.some.injEq] at hnext
    have hs' : (machine ι).Reachable s' := hs.next trivial hn
    refine double_claim_loses hs' (i := i) hne ⟨b, ?_⟩ ⟨b', ?_⟩
    · rw [hnext]
      simp
    · rw [hnext]
      simp [Function.update_of_ne hne.symm, hd]

section Race

def raceLabels : List (Fin 2 × Reading) := turns [0, 1, 0, 1, 0, 1]

def raceLedger : Ledger :=
  (Ledger.zero.set firstSlot (written (pairBlock firstChild) firstSlot)).set firstSlot
    (written (pairBlock secondChild) firstSlot)

theorem race_run : ∃ s, (machine (Fin 2)).run pairStart raceLabels = some s ∧
    s.ledger = raceLedger ∧ ∀ c, (s.writers c).pc = .inserted (pairBlock c) firstSlot :=
  ⟨_, rfl, rfl, Fin.forall_fin_two.mpr ⟨rfl, rfl⟩⟩

/-- Both inserts have returned and the block of the first is in no slot. -/
theorem race_loses_block : ¬ ∀ s, (machine (Fin 2)).Reachable s → NoneLost s := by
  intro hall
  obtain ⟨s, hrun, hledger, hpc⟩ := race_run
  have hnone := hall s (Machine.reachable_of_run _ pairStart_initial hrun)
  have hstored := hnone.stored 0 _ _ (hpc 0)
  rw [hledger, raceLedger, List.Vector.get_set_same] at hstored
  exact absurd hstored (by decide)

end Race

section InTurn

variable {ι : Type*}

instance (s : State ι) (d : ι) (i : Slot) : Decidable (Claims s d i) :=
  match hpc : (s.writers d).pc with
  | .writing b j => decidable_of_iff (j = i)
      ⟨fun h => ⟨b, by rw [hpc, h]⟩, fun ⟨b', h⟩ => by rw [hpc] at h; cases h; rfl⟩
  | .building => isFalse fun ⟨b', h⟩ => by rw [hpc] at h; contradiction
  | .scanning _ _ => isFalse fun ⟨b', h⟩ => by rw [hpc] at h; contradiction
  | .inserted _ _ => isFalse fun ⟨b', h⟩ => by rw [hpc] at h; contradiction
  | .full => isFalse fun ⟨b', h⟩ => by rw [hpc] at h; contradiction

instance [Fintype ι] (s : State ι) (l : ι × Reading) : Decidable (Uncontested s l) :=
  match hpc : (s.writers l.1).pc with
  | .scanning b j =>
    if hj : j < soRegistrySize then
      decidable_of_iff (isFree (s.ledger.get ⟨j, hj⟩) → ∀ d, ¬ Claims s d ⟨j, hj⟩)
        ⟨fun h b' i hi => by rw [hpc] at hi; cases hi; exact h, fun h => h b ⟨j, hj⟩ hpc⟩
    else isTrue fun b' i hi => by rw [hpc] at hi; cases hi; exact absurd i.isLt hj
  | .building => isTrue fun b' i hi => by rw [hpc] at hi; contradiction
  | .writing _ _ => isTrue fun b' i hi => by rw [hpc] at hi; contradiction
  | .inserted _ _ => isTrue fun b' i hi => by rw [hpc] at hi; contradiction
  | .full => isTrue fun b' i hi => by rw [hpc] at hi; contradiction

theorem inTurn_uncontested : ∃ s, (machine (Fin 2)).runWhile Uncontested pairStart inTurn = some s ∧
    ∀ c, (s.writers c).pc = .inserted (pairBlock c) (pairSlot c) :=
  ⟨_, rfl, Fin.forall_fin_two.mpr ⟨rfl, rfl⟩⟩

/-- Child 1 finds slot 0 used that child 0 chose before, and takes the next one. -/
theorem noneLost_inTurn : ∃ s, (machine (Fin 2)).Reach Uncontested s ∧
    (∀ c, (s.writers c).pc = .inserted (pairBlock c) (pairSlot c)) ∧ NoneLost s := by
  obtain ⟨s, hrun, hpc⟩ := inTurn_uncontested
  have hreach : (machine (Fin 2)).Reach Uncontested s :=
    ⟨pairStart, pairStart_initial, Machine.path_of_runWhile _ hrun⟩
  exact ⟨s, hreach, hpc, (noneLost_iff_uncontested.1 s hreach).1⟩

end InTurn

end SimulazioneTransazioni.LedgerRace

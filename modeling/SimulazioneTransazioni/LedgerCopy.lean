import SimulazioneTransazioni.LedgerRace
import SimulazioneTransazioni.Readers
import SimulazioneTransazioni.Library.Collect

/-!
The local copy of the ledger that get_balance works on. The semaphore around the
memcpy keeps nobody out, so the children of the nodes go on writing while the slots
are copied, in whatever order memcpy takes them. Where no child chooses a slot that
another has chosen already, what get_balance computes on the copy is what it would
compute on the ledger as it stood at one moment of the copying. Where two children
share a slot the copy can hold blocks that were never in the ledger together.
-/
namespace SimulazioneTransazioni.LedgerCopy

open Blocks LedgerWriters LedgerRace Scan Users

variable {ι : Type*} [DecidableEq ι]

def slot (s : State ι) : Slot → Block := s.ledger.get

def Blank (b : Block) : Prop := b = Block.zero

instance (b : Block) : Decidable (Blank b) := inferInstanceAs (Decidable (_ = _))

/-- The children of the nodes, and a user in the memcpy of get_balance, with a log of
the states since the memcpy began. -/
abbrev copying (ι : Type*) [DecidableEq ι] :
    Machine ((State ι × (Slot → Option Block)) × List (State ι)) (ι × Reading ⊕ Slot) :=
  Collect.watched (machine ι) slot

def used (l : Ledger) : ℕ := (scan Blank 0 l.toList).passed.length

section Used

theorem used_le (l : Ledger) : used l ≤ soRegistrySize := by
  rw [used, scan_passed]
  exact (List.takeWhile_prefix _).length_le.trans (by rw [List.Vector.toList_length])

theorem not_blank_of_lt {l : Ledger} {i : Slot} (h : i.val < used l) : ¬ Blank (l.get i) := by
  rw [← Readers.getElem_toList, List.get_eq_getElem]
  exact not_stop_of_passed _ h

theorem blank_of_eq {l : Ledger} {i : Slot} (h : i.val = used l) : Blank (l.get i) := by
  rw [← Readers.getElem_toList, List.get_eq_getElem]
  exact stop_of_length h _

/-- A number of slots that are not blank, with only blank ones after them. -/
theorem used_eq {l : Ledger} {n : ℕ} (hn : n ≤ soRegistrySize)
    (hfull : ∀ i : Slot, i.val < n → ¬ Blank (l.get i))
    (hblank : ∀ i : Slot, n ≤ i.val → Blank (l.get i)) : used l = n := by
  have hle := used_le l
  by_contra hne
  rcases Nat.lt_or_gt_of_ne hne with hlt | hgt
  · have hslot : used l < soRegistrySize := by omega
    exact hfull ⟨used l, hslot⟩ hlt (blank_of_eq rfl)
  · have hslot : n < soRegistrySize := by omega
    exact not_blank_of_lt (i := ⟨n, hslot⟩) hgt (hblank ⟨n, hslot⟩ (Nat.le_refl n))

end Used

section Filling

variable {s s' : State ι} {l : ι × Reading}

omit [DecidableEq ι] in
theorem not_blank_of_built (hs : Shaped s) {n : ℕ} (hn : FilledTo s n) {i : Slot}
    (hi : i.val < n) : ¬ isFree (s.ledger.get i) ∧ ¬ Blank (s.ledger.get i) := by
  obtain ⟨c, b, hb, hget⟩ := hn.2.1 i hi
  have hused : ¬ isFree (s.ledger.get i) := by
    rw [hget]
    exact not_isFree_of_built (hs.knows c).sent hb i
  refine ⟨hused, fun hblank => hused ?_⟩
  rw [Blank] at hblank
  rw [hblank]
  exact isFree_zero

omit [DecidableEq ι] in
theorem used_of_filledTo (hs : Shaped s) {n : ℕ} (hn : FilledTo s n) : used s.ledger = n :=
  used_eq hn.1 (fun _ hi => (not_blank_of_built hs hn hi).2) hn.2.2

omit [DecidableEq ι] in
/-- In the runs of the children the used slots are those that no child takes for free. -/
theorem used_iff (hs : Shaped s) (i : Slot) :
    (¬ Blank (s.ledger.get i) ↔ i.val < used s.ledger) ∧
      (¬ isFree (s.ledger.get i) ↔ i.val < used s.ledger) := by
  obtain ⟨n, hn⟩ := hs.filled
  rw [used_of_filledTo hs hn]
  have hzero : ¬ i.val < n → s.ledger.get i = Block.zero := fun hi => hn.2.2 i (by omega)
  refine ⟨⟨fun hfull => ?_, fun hi => (not_blank_of_built hs hn hi).2⟩,
    ⟨fun hfull => ?_, fun hi => (not_blank_of_built hs hn hi).1⟩⟩
  · by_contra hi
    exact hfull (hzero hi)
  · by_contra hi
    rw [hzero hi] at hfull
    exact hfull isFree_zero

/-- A step of a child fills at most one slot more. -/
theorem used_next (hs : Shaped s) (h : next s l = some s') :
    used s'.ledger ≤ used s.ledger + 1 := by
  obtain ⟨w, hdid, -⟩ := next_did h
  obtain ⟨n, hn⟩ := hs.filled
  rw [used_of_filledTo hs hn]
  rcases hdid.ledger_cases with hsame | ⟨b, i, hpc, -, hset⟩
  · rw [hsame, used_of_filledTo hs hn]
    omega
  · obtain ⟨hb, hseen⟩ := (hs.knows l.1).claimed b i hpc
    have hi := hn.le_of_used hseen
    rw [used_of_filledTo (next_shaped hs h) (hn.write (next_batch h) hi hset hb)]
    omega

/-- Where no slot is contested, the slots of the ledger are cells that are written
once and fill up one after the other. -/
theorem filling : Collect.Filling (machine ι) Uncontested Unraced slot Blank
    fun s => used s.ledger where
  invariant _ _ _ hu hC hn := unraced_next hu hC hn
  kept s l s' hu _ hn i hi := by
    have hused := ((used_iff hu.shaped i).2.trans (used_iff hu.shaped i).1.symm).mpr hi
    exact (unraced_kept hu hn).slots i hused
  filled _ hu i := (used_iff hu.shaped i).1
  one _ _ _ hu _ hn := used_next hu.shaped hn
  le s _ := used_le s.ledger

end Filling

section Balance

theorem blockFlag_of_blank {b : Block} (h : Blank b) : blockFlag b = 0 := by
  rw [Blank] at h
  rw [h]
  decide

theorem getElem_toList (l : Ledger) {k : ℕ} (hk : k < l.toList.length) :
    l.toList[k] = l.get ⟨k, by rwa [List.Vector.toList_length] at hk⟩ := by
  rw [← Readers.getElem_toList, List.get_eq_getElem]

/-- get_balance examines nothing from the first blank slot on. -/
theorem examined_take {l : Ledger} {m : ℕ} (hblank : ∀ i : Slot, i.val = m → Blank (l.get i)) :
    (Readers.examined l).passed = (scan (fun b => blockFlag b = 0) 0 (l.toList.take m)).passed := by
  rw [Readers.examined]
  rcases Nat.lt_or_ge m l.toList.length with hlt | hge
  · have hslot : m < soRegistrySize := by rwa [List.Vector.toList_length] at hlt
    have hstop : blockFlag l.toList[m] = 0 := by
      rw [getElem_toList]
      exact blockFlag_of_blank (hblank ⟨m, hslot⟩ rfl)
    conv_lhs => rw [← List.take_append_drop m l.toList, List.drop_eq_getElem_cons hlt]
    refine passed_append_stop ?_ _ _ _
    exact hstop
  · rw [List.take_of_length_le hge]

/-- The blocks that get_balance examines depend only on the slots before one that is
blank. -/
theorem examined_congr {l l' : Ledger} {m : ℕ}
    (hsame : ∀ i : Slot, i.val < m → l'.get i = l.get i)
    (hblank : ∀ i : Slot, i.val = m → Blank (l.get i) ∧ Blank (l'.get i)) :
    (Readers.examined l').passed = (Readers.examined l).passed := by
  have htake : l'.toList.take m = l.toList.take m := by
    refine List.ext_getElem ?_ fun k hk hk' => ?_
    · rw [List.length_take, List.length_take, List.Vector.toList_length, List.Vector.toList_length]
    · rw [List.length_take] at hk
      rw [List.getElem_take, List.getElem_take, getElem_toList, getElem_toList]
      exact hsame _ (by simp only; omega)
  rw [examined_take fun i hi => (hblank i hi).1, examined_take fun i hi => (hblank i hi).2, htake]

/-- get_balance reads of its copy only the blocks that it examines. -/
theorem getBalance_congr {l l' : Ledger}
    (h : (Readers.examined l').passed = (Readers.examined l).passed) (par : Parameters)
    (usersPID : List User) (p : UserProc) :
    getBalance par l' usersPID p = getBalance par l usersPID p := by
  have hrecount : recount p.myPID l' p.outGoingTransactions =
      recount p.myPID l p.outGoingTransactions := by
    simp only [recount, Readers.scanLedger_examined, h]
  simp only [getBalance, hrecount]

end Balance

/-- The copy may mix moments, but where no slot is contested get_balance computes on it
what it would on the ledger of one moment between the first slot and the last. -/
theorem balance_of_one_moment {s₀ s : State ι} {ledgerTemp : Ledger} {log : List (State ι)}
    (hs₀ : (machine ι).Reach Uncontested s₀)
    (hcopy : (copying ι).Path (Collect.lift Uncontested) (Collect.begun s₀)
      ((s, fun i => some (ledgerTemp.get i)), log)) :
    ∃ t ∈ log ++ [s], (Readers.examined ledgerTemp).passed = (Readers.examined t.ledger).passed ∧
      ∀ par usersPID p, getBalance par ledgerTemp usersPID p =
        getBalance par t.ledger usersPID p := by
  have hu : Unraced s₀ := hs₀.invariant (fun _ => unraced_initial)
    fun _ _ _ hu hC hn => unraced_next hu hC hn
  obtain ⟨t, ht, hsame, hblank⟩ := Collect.exists_moment filling hu hcopy
    (used_le ledgerTemp) (fun _ => not_blank_of_lt) fun _ => blank_of_eq
  have hexamined : (Readers.examined ledgerTemp).passed = (Readers.examined t.ledger).passed := by
    refine examined_congr (m := used ledgerTemp) (fun i hi => (hsame i hi).symm) fun i hi => ?_
    exact ⟨hblank i hi.ge, blank_of_eq hi⟩
  exact ⟨t, ht, hexamined, fun par usersPID p => getBalance_congr hexamined par usersPID p⟩

section Beside

instance (r : (State (Fin 2) × (Slot → Option Block)) × List (State (Fin 2))) :
    (l : Fin 2 × Reading ⊕ Slot) → Decidable (Collect.lift Uncontested r l)
  | .inl l => inferInstanceAs (Decidable (Uncontested r.1.1 l))
  | .inr _ => isTrue trivial

/-- Child 0 fills slot 0. The user copies slot 1, and then child 1 fills it. -/
def besideLabels : List (Fin 2 × Reading ⊕ Slot) :=
  (turns [0, 1, 0, 0]).map .inl ++ [.inr secondSlot] ++ (turns [1, 1, 1]).map .inl

def besideCopy : Ledger := Ledger.zero.set firstSlot (written (pairBlock firstChild) firstSlot)

theorem beside_run : ∃ s copied log, (copying (Fin 2)).runWhile (Collect.lift Uncontested)
      (Collect.begun pairStart) besideLabels = some ((s, copied), log) ∧
    s.ledger = pairLedger ∧
    copied = Function.update (fun _ => none) secondSlot (some (Ledger.zero.get secondSlot)) :=
  ⟨_, _, _, rfl, rfl, rfl⟩

/-- The other slots are copied at the end, slot 0 with its block. -/
theorem beside_copied : ∃ (s : State (Fin 2)) (log : List (State (Fin 2))), s.ledger = pairLedger ∧
    (copying (Fin 2)).Path (Collect.lift Uncontested) (Collect.begun pairStart)
      ((s, fun i => some (besideCopy.get i)), log) := by
  obtain ⟨s, copied, log, hrun, hledger, hcopied⟩ := beside_run
  obtain ⟨log', hrest⟩ :=
    Collect.collects_rest (machine (Fin 2)) Uncontested slot s copied log
  have hcopy : (fun i => some ((copied i).getD (slot s i))) = fun i => some (besideCopy.get i) := by
    funext i
    rw [hcopied, slot, hledger, pairLedger, ← besideCopy]
    by_cases hi : i = secondSlot
    · rw [hi, Function.update_self, Option.getD_some, besideCopy,
        List.Vector.get_set_of_ne (by decide)]
    · rw [Function.update_of_ne hi, Option.getD_none, List.Vector.get_set_of_ne (Ne.symm hi)]
  rw [hcopy] at hrest
  exact ⟨s, log', hledger, (Machine.path_of_runWhile _ hrun).trans hrest⟩

/-- The copy has the block of child 0 only, as the ledger had between the two writes. -/
theorem balance_of_one_moment_beside : ∃ (s : State (Fin 2)) (log : List (State (Fin 2))),
    s.ledger = pairLedger ∧ ∃ t ∈ log ++ [s],
      (Readers.examined besideCopy).passed = (Readers.examined t.ledger).passed ∧
        ∀ par usersPID p, getBalance par besideCopy usersPID p =
          getBalance par t.ledger usersPID p := by
  obtain ⟨s, log, hledger, hcopy⟩ := beside_copied
  exact ⟨s, log, hledger, balance_of_one_moment (Machine.Reach.of_start pairStart_initial) hcopy⟩

end Beside

section Mixed

def mixedBatch (c : Fin 3) : Batch :=
  List.Vector.replicate 9 { payment with amount := Int32.ofNat (5 + c.val) }

def mixedStart : State (Fin 3) where
  ledger := Ledger.zero
  nodesPID := [⟨40, 0, 0, .available⟩]
  writers c := ⟨40, mixedBatch c, .building⟩

def mixedBlock (c : Fin 3) : Block :=
  ⟨rewardTransaction ⟨2, 0⟩ 40 9 ::ᵥ mixedBatch c, 0⟩

def move (c : Fin 3) : Fin 3 × Reading ⊕ Slot := .inl (c, ⟨⟨2, 0⟩, Block.zero⟩)

/-- Children 0 and 1 choose slot 0, which is copied after the write of 0 and before that
of 1. Then child 2 fills slot 1, which is copied too. -/
def mixedLabels : List (Fin 3 × Reading ⊕ Slot) :=
  [0, 1, 0, 1, 0].map move ++ [.inr firstSlot] ++ [1, 2, 2, 2, 2].map move ++ [.inr secondSlot]

def firstAmounts (s : State (Fin 3)) : Int32 × Int32 :=
  (((s.ledger.get firstSlot).transList.get ⟨1, by decide⟩).amount,
    ((s.ledger.get secondSlot).transList.get ⟨1, by decide⟩).amount)

theorem mixedStart_initial : Initial mixedStart := by
  refine ⟨rfl, fun c => ⟨rfl, ?_⟩⟩
  change Sent (mixedBatch c)
  unfold Sent
  revert c
  decide

theorem mixed_run : ∃ s copied log, (copying (Fin 3)).run (Collect.begun mixedStart) mixedLabels =
      some ((s, copied), log) ∧
    copied firstSlot = some (written (mixedBlock 0) firstSlot) ∧
    copied secondSlot = some (written (mixedBlock 2) secondSlot) ∧
    (log ++ [s]).map firstAmounts =
      List.replicate 5 (0, 0) ++ [(5, 0), (5, 0)] ++ List.replicate 4 (6, 0) ++ [(6, 7), (6, 7)] :=
  ⟨_, _, _, rfl, rfl, rfl, rfl⟩

/-- The copy holds two blocks that were never in the ledger together. -/
theorem mixed_copy : ∃ s copied log, (machine (Fin 3)).Reachable mixedStart ∧
    (copying (Fin 3)).Path (Collect.lift Machine.free) (Collect.begun mixedStart)
      ((s, copied), log) ∧
    ∀ t ∈ log ++ [s], ¬ (copied firstSlot = some (slot t firstSlot) ∧
      copied secondSlot = some (slot t secondSlot)) := by
  obtain ⟨s, copied, log, hrun, hfirst, hsecond, hamounts⟩ := mixed_run
  refine ⟨s, copied, log, Machine.Reach.of_start mixedStart_initial,
    Machine.path_of_run _ (fun _ l _ => by cases l <;> trivial) hrun, fun t ht hboth => ?_⟩
  have hpair : firstAmounts t = (5, 7) := by
    rw [hfirst, hsecond] at hboth
    have hslots : written (mixedBlock 0) firstSlot = t.ledger.get firstSlot ∧
        written (mixedBlock 2) secondSlot = t.ledger.get secondSlot :=
      ⟨Option.some.inj hboth.1, Option.some.inj hboth.2⟩
    rw [firstAmounts, ← hslots.1, ← hslots.2]
    rfl
  have hmem := List.mem_map_of_mem (f := firstAmounts) ht
  rw [hpair, hamounts] at hmem
  exact absurd hmem (by decide)

end Mixed

end SimulazioneTransazioni.LedgerCopy

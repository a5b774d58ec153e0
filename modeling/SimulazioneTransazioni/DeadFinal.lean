import SimulazioneTransazioni.UserCalls

/-!
Whether a user that has marked its row dead stays so. The main loop never marks
the row again, since it raises SIGINT next, and the handler of SIGINT tests the
row. But the handler of SIGUSR1 does not: between the mark and the end of the
process it makes the row alive again. And where it is the one that marks the row,
a handler of SIGINT that it has interrupted after the test still writes.
-/
namespace SimulazioneTransazioni.DeadFinal

open Users UserCalls

structure State where
  shared : Shared
  thread : Thread

inductive Label
  | step (a : Attempt)
  | sigusr1
  | sigint
  | others (shared : Shared)

def rowOf (myPID : PidT) (usersPID : List User) : Option User :=
  (getPidUserIndex usersPID myPID).bind fun i => usersPID[i]?

def IsDead (myPID : PidT) (usersPID : List User) : Prop :=
  (rowOf myPID usersPID).map User.status = some .dead

namespace State

def Dead (s : State) : Prop := IsDead s.thread.proc.myPID s.shared.usersPID

def withThread (s : State) (t : Thread) : State := { s with thread := t }

/-- The other processes write neither the row of the user nor a dead one for it. -/
def Foreign (s : State) (shared : Shared) : Prop :=
  rowOf s.thread.proc.myPID shared.usersPID = rowOf s.thread.proc.myPID s.shared.usersPID ∨
    ¬ IsDead s.thread.proc.myPID shared.usersPID ∧
      rowOf s.thread.proc.myPID s.shared.usersPID = none

instance (myPID : PidT) (usersPID : List User) : Decidable (IsDead myPID usersPID) :=
  inferInstanceAs (Decidable (_ = _))

instance (s : State) : Decidable s.Dead := inferInstanceAs (Decidable (IsDead _ _))

instance (s : State) (shared : Shared) : Decidable (s.Foreign shared) :=
  inferInstanceAs (Decidable (_ ∨ _))

def next (par : Parameters) (s : State) : Label → Option State
  | .step a => (s.thread.step par s.shared a).map fun (usersPID, t) =>
      ⟨{ s.shared with usersPID := usersPID }, t⟩
  | .sigusr1 => s.thread.control.signalled.map fun c => s.withThread (s.thread.withControl c)
  | .sigint =>
    if s.thread.control = .exited then none
    else some (s.withThread (s.thread.withControl s.thread.control.interrupted))
  | .others shared => if s.Foreign shared then some { s with shared := shared } else none

end State

structure Initial (par : Parameters) (s : State) : Prop where
  thread : s.thread = Thread.start par s.thread.proc.myPID
  alive : ¬ s.Dead

def machine (par : Parameters) : Machine State Label where
  start := Initial par
  next := State.next par

def Revives : Call → Prop
  | .status (.dead _) => False
  | .statusAt _ (.dead _) => False
  | .status _ => True
  | .statusAt _ _ => True
  | _ => False

instance : (call : Call) → Decidable (Revives call)
  | .returned => isFalse id
  | .count => isFalse id
  | .balance _ => isFalse id
  | .balanceAt _ _ => isFalse id
  | .status .alive => isTrue trivial
  | .status .broke => isTrue trivial
  | .status (.dead _) => isFalse id
  | .statusAt _ .alive => isTrue trivial
  | .statusAt _ .broke => isTrue trivial
  | .statusAt _ (.dead _) => isFalse id
  | .ending _ => isFalse id

def tests : Control → Bool
  | .usr1 ⟨.returned, .balanced⟩ _ => true
  | .intUsr1 ⟨.returned, .balanced⟩ _ => true
  | _ => false

/-- What the handler of SIGINT was calling when the one of SIGUSR1, which is about
to mark the row, interrupted it. -/
def interruptedCall : Control → Option Call
  | .intUsr1 ⟨.statusAt _ (.dead (.raise _)), _⟩ i => some i.call
  | _ => none

def MarkAllowed (c : Control) : Prop := ∀ call ∈ interruptedCall c, ¬ Revives call

/-- No handler of SIGUSR1 finds a balance of 2 or more while the row is dead. And
none marks the row while the handler of SIGINT is writing the status it chose. -/
def Allowed (s : State) : Label → Prop
  | .step _ => (tests s.thread.control = true → s.Dead → ¬ 2 ≤ s.thread.proc.currBalance) ∧
      MarkAllowed s.thread.control
  | _ => True

instance (c : Control) : Decidable (MarkAllowed c) := inferInstanceAs (Decidable (∀ _ ∈ _, _))

instance (s : State) : (l : Label) → Decidable (Allowed s l)
  | .step _ => inferInstanceAs (Decidable (_ ∧ _))
  | .sigusr1 => isTrue trivial
  | .sigint => isTrue trivial
  | .others _ => isTrue trivial

section Rows

variable {myPID : PidT} {usersPID : List User} {i : ℕ} {f : User → User}

theorem index_modify (hpid : ∀ row, (f row).pid = row.pid) :
    getPidUserIndex (usersPID.modify i f) myPID = getPidUserIndex usersPID myPID :=
  Table.indexOf_congr User.pid (Table.map_key_modify hpid usersPID i) myPID

theorem rowOf_modify (myPID : PidT) (usersPID : List User) (i : ℕ) {f : User → User}
    (hpid : ∀ row, (f row).pid = row.pid) :
    rowOf myPID (usersPID.modify i f) = rowOf myPID usersPID ∨
      rowOf myPID (usersPID.modify i f) = (rowOf myPID usersPID).map f := by
  rw [rowOf, rowOf, index_modify hpid]
  cases getPidUserIndex usersPID myPID with
  | none => exact Or.inl rfl
  | some j =>
    simp only [Option.bind_some, List.getElem?_modify]
    by_cases h : i = j
    · simp only [if_pos h]
      exact Or.inr rfl
    · simp only [if_neg h]
      exact Or.inl Option.map_id'

/-- A write that keeps the status. -/
theorem isDead_modify (hpid : ∀ row, (f row).pid = row.pid)
    (hstatus : ∀ row, (f row).status = row.status) :
    IsDead myPID (usersPID.modify i f) ↔ IsDead myPID usersPID := by
  rw [IsDead, IsDead]
  rcases rowOf_modify myPID usersPID i hpid with h | h
  · rw [h]
  · rw [h, Option.map_map, show User.status ∘ f = User.status from funext hstatus]

theorem isDead_of_modify {st : UserStatus} (hst : st ≠ .dead)
    (h : IsDead myPID (usersPID.modify i fun row => { row with status := st })) :
    IsDead myPID usersPID := by
  rw [IsDead] at h ⊢
  rcases rowOf_modify myPID usersPID i
    (f := fun row => { row with status := st }) (fun _ => rfl) with hrow | hrow
  · rwa [hrow] at h
  · rw [hrow, Option.map_map] at h
    obtain ⟨row, -, hdead⟩ := Option.map_eq_some_iff.mp h
    exact absurd hdead hst

theorem isDead_modify_dead (h : IsDead myPID usersPID) :
    IsDead myPID (usersPID.modify i fun row => { row with status := .dead }) := by
  rw [IsDead] at h ⊢
  rcases rowOf_modify myPID usersPID i
    (f := fun row => { row with status := .dead }) (fun _ => rfl) with hrow | hrow
  · rwa [hrow]
  · obtain ⟨row, hsome, -⟩ := Option.map_eq_some_iff.mp h
    rw [hrow, hsome]
    rfl

end Rows

section Sealed

def Ends : Call → Prop
  | .ending _ => True
  | _ => False

def Testing (h : Frame HandlerPc) : Prop :=
  ¬ Revives h.call ∧ (h.pc = .start ∨ h.pc = .balanced ∨ h.pc = .done)

def Sealed : Control → Prop
  | .main m => Ends m.call
  | .usr1 h m => Ends h.call ∨ Testing h ∧ Ends m.call
  | .int i _ => ¬ Revives i.call
  | .intUsr1 h i => h.call = .ending .print ∨ Testing h ∧ ¬ Revives i.call
  | .exited => True

def Formed : Control → Prop
  | .usr1 h _ => h.call ≠ .returned → ¬ Revives h.call → h.pc = .balanced ∨ h.pc = .done
  | .intUsr1 h _ => h.call ≠ .returned → ¬ Revives h.call → h.pc = .balanced ∨ h.pc = .done
  | _ => True

variable {c : Control} {call : Call}

theorem not_revives_of_ends (h : Ends call) : ¬ Revives call := by
  cases call with
  | ending e => exact id
  | _ => exact absurd h id

theorem Sealed.not_revives (h : Sealed c) : ¬ Revives c.call := by
  cases c with
  | main m => exact not_revives_of_ends h
  | usr1 f m =>
    rcases h with hends | ⟨htesting, -⟩
    · exact not_revives_of_ends hends
    · exact htesting.1
  | int i blocked => exact h
  | intUsr1 f i =>
    rcases h with hprint | ⟨htesting, -⟩
    · show ¬ Revives f.call
      rw [hprint]
      exact id
    · exact htesting.1
  | exited => exact id

/-- The call goes on inside the handler it belongs to. -/
theorem Sealed.withCall (h : Sealed c) (hends : ¬ Ends c.call) (hcall : ¬ Revives call) :
    Sealed (c.withCall call) := by
  cases c with
  | main m => exact absurd h hends
  | usr1 f m =>
    rcases h with hf | ⟨htesting, hm⟩
    · exact absurd hf hends
    · exact Or.inr ⟨⟨hcall, htesting.2⟩, hm⟩
  | int i blocked => exact hcall
  | intUsr1 f i =>
    rcases h with hf | ⟨htesting, hi⟩
    · refine absurd ?_ hends
      show Ends f.call
      rw [hf]
      trivial
    · exact Or.inr ⟨⟨hcall, htesting.2⟩, hi⟩
  | exited => trivial

theorem Formed.withCall (h : Formed c) (hcall : c.call ≠ .returned) (hrev : ¬ Revives c.call) :
    Formed (c.withCall call) := by
  cases c with
  | usr1 f m => exact fun _ _ => h hcall hrev
  | intUsr1 f i => exact fun _ _ => h hcall hrev
  | _ => trivial

/-- After the row was made alive there is nothing left of the call. -/
theorem formed_withCall (h : call = .returned ∨ Revives call) : Formed (c.withCall call) := by
  cases c with
  | usr1 f m => exact fun hne hrev => (h.elim hne hrev).elim
  | intUsr1 f i => exact fun hne hrev => (h.elim hne hrev).elim
  | _ => trivial

theorem sealed_interrupted (h : Sealed c) : Sealed c.interrupted := by
  cases c with
  | main m => exact id
  | usr1 f m => exact id
  | int i blocked => exact h
  | intUsr1 f i => exact h
  | exited => trivial

theorem formed_interrupted (h : Formed c) : Formed c.interrupted := by
  cases c with
  | intUsr1 f i => exact h
  | _ => trivial

end Sealed

section Steps

variable {par : Parameters} {m : Shared} {a : Attempt} {t t' : Thread} {rows : List User}

structure Kept (myPID : PidT) (rows : List User) (c : Control) : Prop where
  formed : Formed c
  sealed : IsDead myPID rows → Sealed c

structure Final (myPID : PidT) (rows rows' : List User) (c : Control) : Prop where
  dead : IsDead myPID rows → IsDead myPID rows'
  kept : Kept myPID rows' c

theorem final_same {myPID : PidT} {c : Control} (hformed : Formed c)
    (hsealed : IsDead myPID rows → Sealed c) : Final myPID rows rows c :=
  ⟨id, hformed, hsealed⟩

/-- After the write of a dead status nothing is left that makes the row alive. -/
theorem sealed_ending {c : Control} {i : Option ℕ} {e : End} (hformed : Formed c)
    (hcall : c.call = .statusAt i (.dead e)) (hmark : MarkAllowed c) :
    Sealed (c.withCall (.ending e)) := by
  cases c with
  | main m => trivial
  | usr1 f m => exact Or.inl trivial
  | int f blocked => exact id
  | intUsr1 f f' =>
    obtain ⟨call, pc⟩ := f
    have hcall' : call = .statusAt i (.dead e) := hcall
    subst hcall'
    cases e with
    | print => exact Or.inl rfl
    | raise tempBalance =>
      have hgoing : Call.statusAt i (.dead (.raise tempBalance)) ≠ .returned := by
        intro heq
        cases heq
      have hpc := hformed hgoing id
      exact Or.inr ⟨⟨id, Or.inr hpc⟩, hmark _ rfl⟩
  | exited => trivial

/-- A call that leaves the table goes on without making the row alive. -/
theorem kept_withCall {c : Control} {call : Call} {myPID : PidT} (hs : Kept myPID rows c)
    (hcall : c.call ≠ .returned) (hrev : ¬ Revives c.call) (hends : ¬ Ends c.call)
    (hcall' : ¬ Revives call) : Kept myPID rows (c.withCall call) :=
  ⟨hs.formed.withCall hcall hrev, fun hd => (hs.sealed hd).withCall hends hcall'⟩

theorem status_final {k : Mark} {call : Call} (hcall : t.control.call = .status k)
    (hs : Kept t.proc.myPID rows t.control) (hcall' : Revives call ↔ Revives (.status k)) :
    Final t.proc.myPID rows rows (t.control.withCall call) := by
  have hgoing : t.control.call ≠ .returned := by simp [hcall]
  have hends : ¬ Ends t.control.call := by
    rw [hcall]
    exact id
  by_cases hrev : Revives call
  · refine final_same (formed_withCall (Or.inr hrev)) fun hd => ?_
    refine absurd (hcall'.mp hrev) ?_
    rw [← hcall]
    exact (hs.sealed hd).not_revives
  · have hrev' : ¬ Revives t.control.call := by
      rw [hcall]
      exact fun h => hrev (hcall'.mpr h)
    have hkept := kept_withCall hs hgoing hrev' hends hrev
    exact final_same hkept.formed hkept.sealed

/-- The write of update_status is safe when the condition on the marks holds. -/
theorem statusAt_final {i : ℕ} {k : Mark} (hcall : t.control.call = .statusAt (some i) k)
    (hs : Kept t.proc.myPID rows t.control) (hmark : MarkAllowed t.control) :
    Final t.proc.myPID rows (rows.modify i fun row => { row with status := k.status })
      (t.control.withCall (Thread.afterStatus k)) := by
  have hgoing : t.control.call ≠ .returned := by simp [hcall]
  have halive : Revives t.control.call → k.status ≠ .dead →
      Final t.proc.myPID rows (rows.modify i fun row => { row with status := k.status })
        (t.control.withCall .returned) := by
    intro hrev hne
    refine ⟨fun hd => absurd hrev (hs.sealed hd).not_revives, formed_withCall (Or.inl rfl), ?_⟩
    intro hd
    exact absurd hrev (hs.sealed (isDead_of_modify hne hd)).not_revives
  cases k with
  | alive => exact halive (by rw [hcall]; trivial) (by decide)
  | broke => exact halive (by rw [hcall]; trivial) (by decide)
  | dead e =>
    have hrev : ¬ Revives t.control.call := by
      rw [hcall]
      exact id
    exact ⟨isDead_modify_dead, hs.formed.withCall hgoing hrev,
      fun _ => sealed_ending hs.formed hcall hmark⟩

/-- The handler of SIGINT finds the row dead, whatever it has interrupted. -/
theorem raise_final {tempBalance : Option UInt32}
    (hcall : t.control.call = .ending (.raise tempBalance))
    (hs : Kept t.proc.myPID rows t.control) :
    Kept t.proc.myPID rows (t.control.withCall (Thread.afterRaise tempBalance)).interrupted := by
  have hgoing : t.control.call ≠ .returned := by simp [hcall]
  have hrev : ¬ Revives t.control.call := by
    rw [hcall]
    exact id
  have hafter : ¬ Revives (Thread.afterRaise tempBalance) := by
    cases tempBalance with
    | none => exact id
    | some tempBalance => exact id
  refine ⟨formed_interrupted (hs.formed.withCall hgoing hrev), fun hd => ?_⟩
  have hsealed := hs.sealed hd
  generalize t.control = c at hcall hsealed
  cases c with
  | main f => exact id
  | usr1 f f' => exact id
  | int f blocked => exact hafter
  | intUsr1 f f' =>
    rcases hsealed with hprint | ⟨htesting, hf⟩
    · have hne : Call.ending .print = .ending (.raise tempBalance) := hprint.symm.trans hcall
      cases hne
    · exact Or.inr ⟨⟨hafter, htesting.2⟩, hf⟩
  | exited => trivial

/-- A step of a function that the process has called leaves a dead row dead. -/
theorem called_final (hcall : t.control.call ≠ .returned)
    (hs : Kept t.proc.myPID m.usersPID t.control) (hmark : MarkAllowed t.control)
    (h : Thread.Called m t t.control.call rows t') :
    Final t.proc.myPID m.usersPID rows t'.control := by
  generalize hc : t.control.call = call at h
  have hkept : ¬ Revives call → ¬ Ends call → ∀ call', ¬ Revives call' →
      Kept t.proc.myPID m.usersPID (t.control.withCall call') := by
    intro hrev hends call'
    exact kept_withCall hs hcall (hc ▸ hrev) (hc ▸ hends)
  cases h with
  | dies p e hpid => exact ⟨id, hkept id id _ id⟩
  | counts p tempBalance hpid => exact ⟨id, hkept id id _ id⟩
  | findsBalance tempBalance => exact ⟨id, hkept id id _ id⟩
  | writesBalance i tempBalance p hpid =>
    let f : User → User := fun row => { row with balance := tempBalance }
    have hsame : IsDead t.proc.myPID (m.usersPID.modify i f) ↔
        IsDead t.proc.myPID m.usersPID := isDead_modify (fun _ => rfl) fun _ => rfl
    have hreturned := hkept id id .returned id
    exact ⟨hsame.mpr, hreturned.formed, fun hd => hreturned.sealed (hsame.mp hd)⟩
  | findsStatus k =>
    refine status_final hc hs ?_
    cases k <;> exact Iff.rfl
  | writesStatus i k p hpid => exact statusAt_final hc hs hmark
  | prints => exact ⟨id, trivial, fun _ => trivial⟩
  | raises tempBalance => exact ⟨id, raise_final hc hs⟩

/-- The handler of SIGUSR1 after a step of its own. -/
theorem stepHandler_formed {pc : HandlerPc} {p : UserProc} {h : Frame HandlerPc}
    (hstep : t.stepHandler par m a pc = some (p, some h)) :
    h.call ≠ .returned → ¬ Revives h.call → h.pc = .balanced ∨ h.pc = .done := by
  cases pc with
  | start =>
    cases hstep
    exact fun _ _ => Or.inl rfl
  | balanced =>
    simp only [Thread.stepHandler] at hstep
    split at hstep
    · cases hstep
      exact fun hne => absurd rfl hne
    · cases hstep
  | draw =>
    obtain ⟨r, -, heq⟩ := Option.map_eq_some_iff.mp hstep
    cases heq
    exact fun hne => absurd rfl hne
  | alive userPID amount reward =>
    cases hstep
    exact fun _ hrev => absurd trivial hrev
  | queue userPID amount reward =>
    obtain ⟨r, -, heq⟩ := Option.map_eq_some_iff.mp hstep
    cases heq
    exact fun hne => absurd rfl hne
  | init userPID amount reward =>
    cases hstep
    exact fun hne => absurd rfl hne
  | send =>
    cases hstep
    exact fun hne => absurd rfl hne
  | check retry =>
    simp only [Thread.stepHandler] at hstep
    split at hstep
    · cases hstep
      exact fun _ _ => Or.inr rfl
    · cases hstep
  | done => cases hstep

/-- While it tests, the handler of SIGUSR1 goes on testing or returns. -/
theorem stepHandler_testing {pc : HandlerPc} {p : UserProc} {h : Option (Frame HandlerPc)}
    (htesting : Testing ⟨.returned, pc⟩) (hpoor : pc = .balanced → ¬ 2 ≤ t.proc.currBalance)
    (hstep : t.stepHandler par m a pc = some (p, h)) : ∀ f, h = some f → Testing f := by
  rcases htesting.2 with rfl | rfl | rfl
  · cases hstep
    rintro f ⟨⟩
    exact ⟨id, Or.inr (Or.inl rfl)⟩
  · rw [Thread.stepHandler, if_neg (hpoor rfl)] at hstep
    cases hstep
    intro f hf
    cases hf
  · cases hstep
    intro f hf
    cases hf

/-- The handler of SIGINT tests the row, and calls nothing that revives a dead one. -/
theorem stepInterrupt_final {pc : InterruptPc} {p : UserProc} {f : Option (Frame InterruptPc)}
    (hstep : t.stepInterrupt m pc = some (rows, p, f)) :
    (IsDead t.proc.myPID rows ↔ IsDead t.proc.myPID m.usersPID) ∧
      (IsDead t.proc.myPID m.usersPID → ∀ g, f = some g → ¬ Revives g.call) := by
  cases pc with
  | start =>
    cases hstep
    refine ⟨Iff.rfl, fun _ g hg => ?_⟩
    cases hg
    exact id
  | test i =>
    obtain ⟨g, hg, heq⟩ := Option.map_eq_some_iff.mp hstep
    cases heq
    refine ⟨Iff.rfl, fun hd g' hg' => ?_⟩
    cases hg'
    obtain ⟨row, hrow, htest⟩ := Option.bind_eq_some_iff.mp hg
    have hstatus : row.status = .dead := by
      obtain ⟨row', hrow', hdead⟩ := Option.map_eq_some_iff.mp hd
      rw [show row = row' from Option.some.inj (hrow.symm.trans hrow')]
      exact hdead
    rw [if_pos hstatus] at htest
    cases htest
    exact id
  | refund i =>
    simp only [Thread.stepInterrupt] at hstep
    split at hstep
    · cases hstep
      refine ⟨Iff.rfl, fun _ g hg => ?_⟩
      cases hg
      exact id
    · obtain ⟨j, -, heq⟩ := Option.map_eq_some_iff.mp hstep
      cases heq
      refine ⟨isDead_modify (fun _ => rfl) fun _ => rfl, fun _ g hg => ?_⟩
      cases hg
      exact id
  | exit =>
    cases hstep
    refine ⟨Iff.rfl, fun _ g hg => ?_⟩
    cases hg

/-- An allowed step of the process leaves a dead row dead. -/
theorem step_final {s : State} (hs : Kept s.thread.proc.myPID s.shared.usersPID s.thread.control)
    (hC : Allowed s (.step a)) (h : s.thread.step par s.shared a = some (rows, t')) :
    Final s.thread.proc.myPID s.shared.usersPID rows t'.control := by
  have htests := hC.1
  cases Thread.step_stepped h with
  | call _ _ hcall hcalled => exact called_final hcall hs hC.2 hcalled
  | main pc _ hc hmain =>
    rw [hc] at hs
    have halive : ¬ IsDead s.thread.proc.myPID s.shared.usersPID := fun hd => hs.sealed hd
    obtain ⟨f, hf⟩ := Thread.stepMain_control hmain
    refine final_same ?_ fun hd => absurd hd halive
    rw [hf]
    trivial
  | usr1 pc f p f' hc hp =>
    rw [hc] at hs htests
    refine final_same ?_ fun hd => ?_
    · cases f' with
      | none => trivial
      | some f' => exact stepHandler_formed hp
    · obtain ⟨htesting, hends⟩ := (hs.sealed hd).resolve_left id
      have hpoor : pc = .balanced → ¬ 2 ≤ s.thread.proc.currBalance := by
        rintro rfl
        exact htests rfl hd
      have hnext := stepHandler_testing htesting hpoor hp
      cases f' with
      | none => exact hends
      | some f' => exact Or.inr ⟨hnext f' rfl, hends⟩
  | int pc blocked _ p f hc hp =>
    rw [hc] at hs
    obtain ⟨hsame, hnext⟩ := stepInterrupt_final hp
    refine ⟨hsame.mpr, ?_, fun hd => ?_⟩
    · cases f with
      | none => trivial
      | some f => trivial
    · cases f with
      | none => trivial
      | some f => exact hnext (hsame.mp hd) f rfl
  | intUsr1 pc f p f' hc hp =>
    rw [hc] at hs htests
    refine final_same ?_ fun hd => ?_
    · cases f' with
      | none => trivial
      | some f' => exact stepHandler_formed hp
    · have hsealed := (hs.sealed hd).resolve_left fun heq => by cases heq
      have hpoor : pc = .balanced → ¬ 2 ≤ s.thread.proc.currBalance := by
        rintro rfl
        exact htests rfl hd
      have hnext := stepHandler_testing hsealed.1 hpoor hp
      cases f' with
      | none => exact hsealed.2
      | some f' => exact Or.inr ⟨hnext f' rfl, hsealed.2⟩

end Steps

section Runs

variable {par : Parameters} {s s' : State}

def Safe (s : State) : Prop :=
  Kept s.thread.proc.myPID s.shared.usersPID s.thread.control

theorem signalled_kept {c c' : Control} {myPID : PidT} {rows : List User}
    (hs : Kept myPID rows c) (h : c.signalled = some c') : Kept myPID rows c' := by
  have hstart : ¬ Revives .returned := id
  cases c with
  | main m =>
    cases h
    exact ⟨fun hne => absurd rfl hne,
      fun hd => Or.inr ⟨⟨hstart, Or.inl rfl⟩, hs.sealed hd⟩⟩
  | usr1 f m => contradiction
  | int i blocked =>
    cases blocked with
    | true => contradiction
    | false =>
      cases h
      exact ⟨fun hne => absurd rfl hne,
        fun hd => Or.inr ⟨⟨hstart, Or.inl rfl⟩, hs.sealed hd⟩⟩
  | intUsr1 f i => contradiction
  | exited => contradiction

theorem interrupted_kept {c : Control} {myPID : PidT} {rows : List User}
    (hs : Kept myPID rows c) : Kept myPID rows c.interrupted :=
  ⟨formed_interrupted hs.formed, fun hd => sealed_interrupted (hs.sealed hd)⟩

/-- Every allowed step leaves a dead row dead. -/
theorem next_final (hs : Safe s) {l : Label} (hC : Allowed s l) (h : s.next par l = some s') :
    Safe s' ∧ (s.Dead → s'.Dead) := by
  cases l with
  | step a =>
    obtain ⟨⟨rows, t⟩, ht, rfl⟩ := Option.map_eq_some_iff.mp h
    have hfinal := step_final hs hC ht
    have hpid := (Thread.step_wrote ht).1
    unfold Safe State.Dead
    rw [hpid]
    exact ⟨hfinal.kept, hfinal.dead⟩
  | sigusr1 =>
    obtain ⟨c, hc, rfl⟩ := Option.map_eq_some_iff.mp h
    exact ⟨signalled_kept hs hc, id⟩
  | sigint =>
    simp only [State.next] at h
    split at h
    · contradiction
    · rw [← Option.some.inj h]
      exact ⟨interrupted_kept hs, id⟩
  | others shared =>
    simp only [State.next] at h
    split at h
    next hforeign =>
      rw [← Option.some.inj h]
      rcases hforeign with hrow | ⟨hnot, hnone⟩
      · have hsame : IsDead s.thread.proc.myPID shared.usersPID ↔ s.Dead := by
          rw [State.Dead, IsDead, hrow]
          rfl
        exact ⟨⟨hs.formed, fun hd => hs.sealed (hsame.mp hd)⟩, hsame.mpr⟩
      · refine ⟨⟨hs.formed, fun hd => absurd hd hnot⟩, fun hd => ?_⟩
        rw [State.Dead, IsDead, hnone] at hd
        contradiction
    next => contradiction

theorem reach_safe (h : (machine par).Reach Allowed s) : Safe s := by
  refine h.invariant (fun s hs => ?_) fun s l s' hI hC hn => (next_final hI hC hn).1
  refine ⟨?_, fun hd => absurd hd hs.alive⟩
  rw [hs.thread]
  trivial

/-- In every run of allowed steps a user that is dead stays dead, whatever the
ledger, the sends and SO_RETRY are and whenever the signals arrive. -/
theorem dead_final (par : Parameters) {s s' : State} (h : (machine par).Reach Allowed s)
    (hp : (machine par).Path Allowed s s') (hd : s.Dead) : s'.Dead := by
  have hboth : Safe s' ∧ s'.Dead := by
    refine hp.preserves (I := fun s => Safe s ∧ s.Dead) ?_ ⟨reach_safe h, hd⟩
    intro s l s' hI hC hn
    obtain ⟨hsafe, hdead⟩ := next_final hI.1 hC hn
    exact ⟨hsafe, hdead hI.2⟩
  exact hboth.2

end Runs

section Examples

def brief : Parameters := { assignDefaults with soUserNum := 2, soNodesNum := 1, soRetry := 1 }

def launch : State where
  shared := ⟨[⟨7, 1000, .alive⟩, ⟨8, 1000, .alive⟩],
    [⟨40, 0, 0, .available⟩, ⟨0, 0, 0, .available⟩], Ledger.zero⟩
  thread := Thread.start brief 7

theorem launch_initial : Initial brief launch := ⟨rfl, by decide⟩

/-- With SO_RETRY 0 the row is marked after a send that goes through. -/
def unretrying : Parameters := { brief with soRetry := 0 }

def launchUnretrying : State := { launch with thread := Thread.start unretrying 7 }

def payAll : Label := .step ⟨[1], [0], 998, [.found 40], ⟨1, 0⟩, .sent⟩

theorem spent_run : ∃ s s',
    (machine unretrying).runWhile Allowed launchUnretrying (List.replicate 14 payAll) = some s ∧
    s.Dead ∧
    (machine unretrying).runWhile Allowed s (.sigusr1 :: List.replicate 13 payAll) = some s' ∧
    s'.thread.control = .exited := ⟨_, _, rfl, rfl, rfl, rfl⟩

/-- SIGUSR1 arrives once the row is marked, its handler finds a balance of 0, and the user is
still dead when its handler of SIGINT has exited. -/
theorem dead_final_exited : ∃ s s', (machine unretrying).Reach Allowed s ∧
    (machine unretrying).runWhile Allowed s (.sigusr1 :: List.replicate 13 payAll) = some s' ∧
    s'.thread.control = .exited ∧ s'.Dead := by
  obtain ⟨s, s', hrun, hdead, hrun', hexited⟩ := spent_run
  have hs : (machine unretrying).Reach Allowed s :=
    ⟨launchUnretrying, ⟨rfl, by decide⟩, Machine.path_of_runWhile _ hrun⟩
  exact ⟨s, s', hs, hrun', hexited,
    dead_final unretrying hs (Machine.path_of_runWhile _ hrun') hdead⟩

def act : Label := .step ⟨[1], [0], 0, [.found 40], ⟨1, 0⟩, .failed .EAGAIN⟩

def dying : List Label := List.replicate 14 act

/-- SIGUSR1 arrives before the user raises SIGINT on itself. -/
theorem revived_run : ∃ s s', (machine brief).run launch dying = some s ∧ s.Dead ∧
    (machine brief).run s (.sigusr1 :: List.replicate 9 act) = some s' ∧
    s'.shared.usersPID[0]? = some ⟨7, 1000, .alive⟩ ∧ ¬ s'.Dead :=
  ⟨_, _, rfl, rfl, rfl, rfl, of_decide_eq_false rfl⟩

def overtaken : List Label :=
  .sigint :: List.replicate 5 act ++ .sigusr1 :: List.replicate 15 act

theorem overtaken_run : ∃ s s', (machine brief).run launch overtaken = some s ∧ s.Dead ∧
    (machine brief).run s (List.replicate 4 act) = some s' ∧
    s'.shared.usersPID[0]? = some ⟨7, 1000, .alive⟩ ∧ ¬ s'.Dead :=
  ⟨_, _, rfl, rfl, rfl, rfl, of_decide_eq_false rfl⟩

/-- Either handler can make a dead row alive. -/
theorem dead_revived :
    (∃ s s', (machine brief).run launch dying = some s ∧ s.Dead ∧
      (machine brief).run s (.sigusr1 :: List.replicate 9 act) = some s' ∧
      s'.shared.usersPID[0]? = some ⟨7, 1000, .alive⟩ ∧ ¬ s'.Dead) ∧
    (∃ s s', (machine brief).run launch overtaken = some s ∧ s.Dead ∧
      (machine brief).run s (List.replicate 4 act) = some s' ∧
      s'.shared.usersPID[0]? = some ⟨7, 1000, .alive⟩ ∧ ¬ s'.Dead) ∧
    ¬ ∀ s s', (machine brief).Reachable s → (machine brief).Path Machine.free s s' →
      s.Dead → s'.Dead := by
  refine ⟨revived_run, overtaken_run, fun hall => ?_⟩
  obtain ⟨s, s', hrun, hdead, hrun', -, halive⟩ := revived_run
  exact halive (hall s s' (Machine.reachable_of_run _ launch_initial hrun)
    (Machine.path_of_run _ (fun _ _ _ => trivial) hrun') hdead)

end Examples
end SimulazioneTransazioni.DeadFinal

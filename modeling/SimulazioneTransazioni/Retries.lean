import SimulazioneTransazioni.DeadFinal
import SimulazioneTransazioni.Library.Streak

/-!
The attempts to send of one user and the two counters that judge them. The main loop
counts its own failures since its own last success, and the handler of SIGUSR1 starts
from SO_RETRY in every call, so that neither sees the failures of the other. Both set
the counter back to SO_RETRY before they compare it with 0.
-/
namespace SimulazioneTransazioni.Retries

open Users UserCalls Streak

inductive Source
  | loop
  | handler
deriving DecidableEq

structure Try where
  source : Source
  code : ReturnCode
deriving DecidableEq

namespace Try

def failed (t : Try) : Bool := t.code = .ERROR

def ofLoop (t : Try) : Bool := t.source = .loop

end Try

def loopRetry (par : Parameters) (tries : List Try) : UInt32 :=
  tries.foldl (fun retry t =>
    match t.source with
    | .loop => UserSignals.State.retryAfter par retry t.code
    | .handler => retry) par.soRetry

/-- The counter that is compared with 0 after an attempt. The handler has its own, an
int, which is zero as the unsigned one is. -/
def tested (par : Parameters) (before : List Try) (t : Try) : UInt32 :=
  match t.source with
  | .loop => UserSignals.State.retryAfter par (loopRetry par before) t.code
  | .handler => UserSignals.State.retryAfter par par.soRetry t.code

def Dies (par : Parameters) (before : List Try) (t : Try) : Prop := tested par before t = 0

instance (par : Parameters) (before : List Try) (t : Try) : Decidable (Dies par before t) :=
  inferInstanceAs (Decidable (_ = _))

/-- The attempt completes a block of SO_RETRY failures in a row, of one at least. -/
def Completes (par : Parameters) (before : List Try) (t : Try) : Prop :=
  streak Try.failed (before ++ [t]) = max 1 par.soRetry.toNat

/-- As long as it is alive, the user is marked dead after an attempt if and only if the
attempt completes the block. -/
def DiesInTime (par : Parameters) : List Try → Prop := Agrees (Dies par) (Completes par)

def ownFailures (before : List Try) (t : Try) : ℕ :=
  match t.source with
  | .loop => streak Try.failed (before.filter Try.ofLoop)
  | .handler => 0

/-- A failure is the last of SO_RETRY for its own counter exactly when it is the last of
SO_RETRY in a row. -/
structure Counted (par : Parameters) (before : List Try) (t : Try) : Prop where
  retry : par.soRetry ≠ 0
  failure : t.failed = true → (ownFailures before t + 1 = par.soRetry.toNat ↔
    streak Try.failed before + 1 = par.soRetry.toNat)

section Counters

variable {par : Parameters} {before : List Try} {t : Try}

theorem loopRetry_concat (par : Parameters) (before : List Try) (t : Try) :
    loopRetry par (before ++ [t]) =
      match t.source with
      | .loop => tested par before t
      | .handler => loopRetry par before := by
  rw [loopRetry, List.foldl_append]
  cases hsource : t.source with
  | loop => simp only [List.foldl_cons, List.foldl_nil, hsource, tested, loopRetry]
  | handler => simp only [List.foldl_cons, List.foldl_nil, hsource, loopRetry]

theorem retryAfter_eq_zero (hne : par.soRetry ≠ 0) (retry : UInt32) (code : ReturnCode) :
    UserSignals.State.retryAfter par retry code = 0 ↔ code = .ERROR ∧ retry = 1 := by
  cases code with
  | SUCCESS => exact ⟨fun h => absurd h hne, fun h => absurd h.1 (by decide)⟩
  | ERROR =>
    rw [UserSignals.State.retryAfter, UInt32.sub_eq_iff_eq_add]
    exact ⟨fun h => ⟨rfl, h⟩, fun h => h.2⟩

/-- While the user is alive, the loop's counter and the failures it has counted add up
to SO_RETRY. -/
theorem loopRetry_toNat (hne : par.soRetry ≠ 0)
    (halive : Along (fun b c => ¬ Dies par b c) before) :
    (loopRetry par before).toNat + streak Try.failed (before.filter Try.ofLoop) =
      par.soRetry.toNat ∧ loopRetry par before ≠ 0 := by
  induction before using List.reverseRecOn with
  | nil => exact ⟨rfl, hne⟩
  | append_singleton before t ih =>
    obtain ⟨hbefore, hnot⟩ := along_concat.mp halive
    obtain ⟨hsum, hpos⟩ := ih hbefore
    have hposNat : (loopRetry par before).toNat ≠ 0 := fun h => hpos (UInt32.toNat_inj.mp h)
    rw [loopRetry_concat]
    cases hsource : t.source with
    | handler =>
      have hfilter : (before ++ [t]).filter Try.ofLoop = before.filter Try.ofLoop := by
        simp [Try.ofLoop, hsource]
      rw [hfilter]
      exact ⟨hsum, hpos⟩
    | loop =>
      have hfilter : (before ++ [t]).filter Try.ofLoop = before.filter Try.ofLoop ++ [t] := by
        simp [Try.ofLoop, hsource]
      refine ⟨?_, hnot⟩
      rw [hfilter, streak_concat, tested, hsource]
      cases hcode : t.code with
      | SUCCESS => simp [Try.failed, hcode, UserSignals.State.retryAfter]
      | ERROR =>
        have hone : (1 : UInt32) ≤ loopRetry par before := by
          rw [UInt32.le_iff_toNat_le, UInt32.toNat_one]
          omega
        have hsub : (loopRetry par before - 1).toNat = (loopRetry par before).toNat - 1 := by
          rw [UInt32.toNat_sub_of_le _ _ hone, UInt32.toNat_one]
        simp only [Try.failed, hcode, decide_true, if_true, UserSignals.State.retryAfter, hsub]
        omega

theorem dies_iff (hne : par.soRetry ≠ 0) (halive : Along (fun b c => ¬ Dies par b c) before) :
    Dies par before t ↔ t.failed = true ∧ ownFailures before t + 1 = par.soRetry.toNat := by
  have hfailed : t.failed = true ↔ t.code = .ERROR := decide_eq_true_iff
  obtain ⟨hsum, -⟩ := loopRetry_toNat hne halive
  rw [Dies, tested, ownFailures, hfailed]
  cases hsource : t.source with
  | loop =>
    dsimp only
    rw [retryAfter_eq_zero hne, ← UInt32.toNat_inj, UInt32.toNat_one]
    apply and_congr_right
    intro hcode
    omega
  | handler =>
    dsimp only
    rw [retryAfter_eq_zero hne, ← UInt32.toNat_inj, UInt32.toNat_one]
    apply and_congr_right
    intro hcode
    omega

theorem completes_iff (hne : par.soRetry ≠ 0) : Completes par before t ↔
    t.failed = true ∧ streak Try.failed before + 1 = par.soRetry.toNat := by
  have hpos : par.soRetry.toNat ≠ 0 := fun h => hne (UInt32.toNat_inj.mp h)
  rw [Completes, streak_concat]
  by_cases hfailed : t.failed = true
  · rw [if_pos hfailed]
    refine ⟨fun h => ⟨hfailed, by omega⟩, fun h => ?_⟩
    obtain ⟨-, hlast⟩ := h
    omega
  · rw [if_neg hfailed]
    refine ⟨fun h => ?_, fun h => absurd h.1 hfailed⟩
    omega

/-- Without retries the first attempt is judged wrongly, be it a success or a failure. -/
theorem unretried (hzero : par.soRetry = 0) (t : Try) :
    ¬ (Dies par [] t ↔ Completes par [] t) := by
  have htested : tested par [] t = UserSignals.State.retryAfter par 0 t.code := by
    unfold tested
    cases t.source with
    | loop => rw [loopRetry, List.foldl_nil, hzero]
    | handler => rw [hzero]
  rw [Dies, Completes, htested, streak_concat, hzero, streak_nil]
  cases hcode : t.code with
  | SUCCESS => simp [Try.failed, hcode, UserSignals.State.retryAfter, hzero]
  | ERROR =>
    simp [Try.failed, hcode, UserSignals.State.retryAfter]

/-- Before anyone dies, the verdict on an attempt is right if and only if the attempt is
counted right. -/
theorem counted_iff (halive : Along (fun b c => ¬ Dies par b c) before)
    (hopen : Along (fun b c => ¬ Completes par b c) before) :
    (Dies par before t ↔ Completes par before t) ↔ Counted par before t := by
  by_cases hne : par.soRetry = 0
  · have hnot : ¬ Counted par before t := fun h => h.retry hne
    refine iff_of_false ?_ hnot
    cases before with
    | nil => exact unretried hne t
    | cons first rest =>
      have hdies := halive [] first rest rfl
      have hcompletes := hopen [] first rest rfl
      exact absurd (iff_of_false hdies hcompletes) (unretried hne first)
  · rw [dies_iff hne halive, completes_iff hne]
    constructor
    · intro h
      exact ⟨hne, fun hfailed => by simpa only [hfailed, true_and] using h⟩
    · intro h
      apply and_congr_right
      exact h.failure

/-- For every SO_RETRY and every sequence of attempts, the user dies with the first
SO_RETRY failures in a row, if and only if every attempt before that is counted right. -/
theorem dies_in_time_iff (par : Parameters) (tries : List Try) : DiesInTime par tries ↔
    Along (fun before t => Along (fun b c => ¬ Completes par b c) before →
      Counted par before t) tries :=
  agrees_iff (fun _ _ halive hopen => counted_iff halive hopen) tries

def retrying (soRetry : UInt32) : Parameters := { assignDefaults with soRetry := soRetry }

/-- Two calls of the handler whose sends fail: each starts from SO_RETRY. With
SO_RETRY 0 a user dies of its first success. -/
theorem retries_miscounted :
    (Completes (retrying 2) [⟨.handler, .ERROR⟩] ⟨.handler, .ERROR⟩ ∧
      ¬ Dies (retrying 2) [⟨.handler, .ERROR⟩] ⟨.handler, .ERROR⟩) ∧
    Dies (retrying 0) [] ⟨.loop, .SUCCESS⟩ ∧
    ¬ ∀ par tries, DiesInTime par tries := by
  refine ⟨⟨rfl, of_decide_eq_false rfl⟩, rfl, fun hall => ?_⟩
  have hright := hall (retrying 0) [⟨.loop, .SUCCESS⟩] [] ⟨.loop, .SUCCESS⟩ [] rfl (along_nil _)
  exact unretried rfl ⟨.loop, .SUCCESS⟩ hright

end Counters

section Runs

open DeadFinal (State Label)

def attempt (code : ReturnCode) : Control → List Try
  | .main ⟨.returned, .send⟩ => [⟨.loop, code⟩]
  | .usr1 ⟨.returned, .send⟩ _ => [⟨.handler, code⟩]
  | .intUsr1 ⟨.returned, .send⟩ _ => [⟨.handler, code⟩]
  | _ => []

def attempted (s : State) : Label → List Try
  | .step a => attempt (sendMessage a.msgsnd) s.thread.control
  | _ => []

def loopChecks : Control → Prop
  | .main m => m.pc = .check
  | .usr1 _ m => m.pc = .check
  | _ => False

def handlerChecks (retry : UInt32) : Control → Prop
  | .usr1 h _ => h.pc = .check retry
  | .intUsr1 h _ => h.pc = .check retry
  | _ => False

structure Judged (par : Parameters) (t : Thread) (tries : List Try) : Prop where
  retry : t.retry = loopRetry par tries
  loop : loopChecks t.control → ∃ before attempt after, tries = before ++ attempt :: after ∧
    attempt.source = .loop ∧ ∀ later ∈ after, later.source = .handler
  handler : ∀ retry, handlerChecks retry t.control → ∃ before attempt,
    tries = before ++ [attempt] ∧ attempt.source = .handler ∧ retry = tested par before attempt

variable {par : Parameters} {s s' : State} {a : Attempt} {t t' : Thread} {tries : List Try}

theorem sendTransaction_code (result : MsgsndResult) (p : UserProc) :
    (sendTransaction result p).1 = sendMessage result := by
  unfold sendTransaction
  split
  next hcode => exact hcode.symm
  next hcode => exact hcode.symm

theorem Judged.of_same (h : Judged par t tries) (hretry : t'.retry = t.retry)
    (hloop : loopChecks t'.control → loopChecks t.control)
    (hhandler : ∀ retry, handlerChecks retry t'.control → handlerChecks retry t.control) :
    Judged par t' tries :=
  ⟨hretry.trans h.retry, fun hc => h.loop (hloop hc), fun r hc => h.handler r (hhandler r hc)⟩

theorem Judged.append_nil (h : Judged par t tries) : Judged par t (tries ++ []) := by
  rw [List.append_nil]
  exact h

theorem loopChecks_interrupted {c : Control} (h : loopChecks c.interrupted) : loopChecks c := by
  cases c with
  | main m => exact h.elim
  | usr1 f m => exact h.elim
  | _ => exact h

theorem handlerChecks_interrupted {c : Control} {retry : UInt32}
    (h : handlerChecks retry c.interrupted) : handlerChecks retry c := by
  cases c with
  | main m => exact h.elim
  | usr1 f m => exact h.elim
  | _ => exact h

theorem loopChecks_withCall {c : Control} {call : Call} (h : loopChecks (c.withCall call)) :
    loopChecks c := by
  cases c <;> exact h

theorem handlerChecks_withCall {c : Control} {call : Call} {retry : UInt32}
    (h : handlerChecks retry (c.withCall call)) : handlerChecks retry c := by
  cases c <;> exact h

theorem called_judged {m : Shared} {call : Call} {rows : List User} (hs : Judged par t tries)
    (h : Thread.Called m t call rows t') : Judged par t' tries := by
  have hwithCall : ∀ p call, Judged par (t.withProc p (t.control.withCall call)) tries :=
    fun _ _ => hs.of_same rfl loopChecks_withCall fun _ => handlerChecks_withCall
  cases h with
  | prints => exact hs.of_same rfl False.elim fun _ => False.elim
  | raises tempBalance =>
    exact hs.of_same rfl (fun hc => loopChecks_withCall (loopChecks_interrupted hc))
      fun _ hc => handlerChecks_withCall (handlerChecks_interrupted hc)
  | dies p e hpid => exact hwithCall p _
  | counts p tempBalance hpid => exact hwithCall p _
  | findsBalance tempBalance => exact hwithCall t.proc _
  | writesBalance i tempBalance p hpid => exact hwithCall p _
  | findsStatus k => exact hwithCall t.proc _
  | writesStatus i k p hpid => exact hwithCall p _

/-- The handler comes to its comparison from its send only. -/
theorem stepHandler_checks {m : Shared} {pc : HandlerPc} {p : UserProc} {f : Frame HandlerPc}
    {retry : UInt32} (h : t.stepHandler par m a pc = some (p, some f))
    (hpc : f.pc = .check retry) : pc = .send ∧
      retry = UserSignals.State.retryAfter par par.soRetry (sendMessage a.msgsnd) := by
  cases pc with
  | send =>
    obtain ⟨-, hf⟩ := Prod.mk.inj (Option.some.inj h)
    have hcheck : HandlerPc.check (UserSignals.State.retryAfter par par.soRetry
        (sendTransaction a.msgsnd t.proc).1) = f.pc := congrArg Frame.pc (Option.some.inj hf)
    rw [hpc, sendTransaction_code] at hcheck
    exact ⟨rfl, (HandlerPc.check.inj hcheck).symm⟩
  | balanced =>
    simp only [Thread.stepHandler] at h
    split at h
    · cases h
      contradiction
    · cases h
  | check retry' =>
    simp only [Thread.stepHandler] at h
    split at h
    · cases h
      contradiction
    · cases h
  | draw =>
    obtain ⟨r, -, heq⟩ := Option.map_eq_some_iff.mp h
    cases heq
    contradiction
  | queue userPID amount reward =>
    obtain ⟨r, -, heq⟩ := Option.map_eq_some_iff.mp h
    cases heq
    contradiction
  | start =>
    cases h
    contradiction
  | alive userPID amount reward =>
    cases h
    contradiction
  | init userPID amount reward =>
    cases h
    contradiction
  | done => cases h

/-- So does the loop, and only its send changes its counter. -/
theorem stepMain_checks {m : Shared} {pc : MainPc} (h : t.stepMain par m a pc = some t') :
    if pc = .send then
      t'.retry = UserSignals.State.retryAfter par t.retry (sendMessage a.msgsnd)
    else t'.retry = t.retry ∧ ¬ loopChecks t'.control := by
  cases pc with
  | send =>
    rw [if_pos rfl, ← Option.some.inj h]
    show UserSignals.State.retryAfter par t.retry (sendTransaction a.msgsnd t.proc).1 = _
    rw [sendTransaction_code]
  | balanced =>
    simp only [Thread.stepMain] at h
    split at h
    · cases h
      exact ⟨rfl, MainPc.noConfusion⟩
    · cases h
      exact ⟨rfl, MainPc.noConfusion⟩
  | check =>
    simp only [Thread.stepMain] at h
    split at h
    · cases h
      exact ⟨rfl, MainPc.noConfusion⟩
    · cases h
      exact ⟨rfl, MainPc.noConfusion⟩
  | draw =>
    obtain ⟨r, -, rfl⟩ := Option.map_eq_some_iff.mp h
    exact ⟨rfl, MainPc.noConfusion⟩
  | queue userPID amount reward =>
    obtain ⟨r, -, rfl⟩ := Option.map_eq_some_iff.mp h
    exact ⟨rfl, MainPc.noConfusion⟩
  | top =>
    cases h
    exact ⟨rfl, MainPc.noConfusion⟩
  | init userPID amount reward =>
    cases h
    exact ⟨rfl, MainPc.noConfusion⟩

theorem main_judged {m : Shared} {pc : MainPc} (hs : Judged par t tries)
    (h : t.stepMain par m a pc = some t') :
    Judged par t' (tries ++ if pc = .send then [⟨.loop, sendMessage a.msgsnd⟩] else []) := by
  obtain ⟨f, hf⟩ := Thread.stepMain_control h
  have hchecks := stepMain_checks h
  by_cases hpc : pc = .send
  · rw [if_pos hpc] at hchecks ⊢
    refine ⟨?_, fun _ => ⟨tries, _, [], rfl, rfl, fun _ hin => absurd hin List.not_mem_nil⟩, ?_⟩
    · rw [loopRetry_concat, hchecks, hs.retry]
      rfl
    · intro retry hcheck
      rw [hf] at hcheck
      exact hcheck.elim
  · rw [if_neg hpc] at hchecks ⊢
    rw [List.append_nil]
    refine hs.of_same hchecks.1 (fun hcheck => absurd hcheck hchecks.2) fun retry hcheck => ?_
    rw [hf] at hcheck
    exact hcheck.elim

/-- A step of the handler, in whichever function it has interrupted. -/
theorem handler_judged {m : Shared} {pc : HandlerPc} {p : UserProc} {c : Control}
    {f : Option (Frame HandlerPc)} (hs : Judged par t tries)
    (h : t.stepHandler par m a pc = some (p, f)) (hloop : loopChecks c → loopChecks t.control)
    (hframe : ∀ retry, handlerChecks retry c → ∃ f' ∈ f, f'.pc = .check retry) :
    Judged par (t.withProc p c)
      (tries ++ if pc = .send then [⟨.handler, sendMessage a.msgsnd⟩] else []) := by
  by_cases hpc : pc = .send
  · rw [if_pos hpc]
    refine ⟨?_, ?_, ?_⟩
    · rw [loopRetry_concat]
      exact hs.retry
    · intro hc
      obtain ⟨before, attempt, after, rfl, hsource, hafter⟩ := hs.loop (hloop hc)
      refine ⟨before, attempt, after ++ [_], List.append_assoc .., hsource, ?_⟩
      intro later hlater
      rcases List.mem_append.mp hlater with hold | hnew
      · exact hafter later hold
      · rw [List.mem_singleton.mp hnew]
    · intro retry hc
      obtain ⟨f', hf', hcheck⟩ := hframe retry hc
      rw [Option.mem_def.mp hf'] at h
      exact ⟨tries, _, rfl, rfl, (stepHandler_checks h hcheck).2⟩
  · rw [if_neg hpc, List.append_nil]
    refine hs.of_same rfl hloop fun retry hc => ?_
    obtain ⟨f', hf', hcheck⟩ := hframe retry hc
    rw [Option.mem_def.mp hf'] at h
    exact absurd (stepHandler_checks h hcheck).1 hpc

theorem attempt_call {c : Control} (h : c.call ≠ .returned) (code : ReturnCode) :
    attempt code c = [] := by
  unfold attempt
  split
  · exact absurd rfl h
  · exact absurd rfl h
  · exact absurd rfl h
  · rfl

theorem attempt_main (code : ReturnCode) (pc : MainPc) :
    attempt code (.main ⟨.returned, pc⟩) = if pc = .send then [⟨.loop, code⟩] else [] := by
  cases pc <;> rfl

theorem attempt_usr1 (code : ReturnCode) (pc : HandlerPc) (f : Frame MainPc) :
    attempt code (.usr1 ⟨.returned, pc⟩ f) =
      if pc = .send then [⟨.handler, code⟩] else [] := by
  cases pc <;> rfl

theorem attempt_intUsr1 (code : ReturnCode) (pc : HandlerPc) (f : Frame InterruptPc) :
    attempt code (.intUsr1 ⟨.returned, pc⟩ f) =
      if pc = .send then [⟨.handler, code⟩] else [] := by
  cases pc <;> rfl

/-- A step of the user compares a counter only for the attempt that set it. -/
theorem step_judged {rows : List User} (hs : Judged par s.thread tries)
    (h : s.thread.step par s.shared a = some (rows, t')) :
    Judged par t' (tries ++ attempted s (.step a)) := by
  cases Thread.step_stepped h with
  | call _ _ hcall hcalled =>
    rw [attempted, attempt_call hcall]
    exact (called_judged hs hcalled).append_nil
  | main pc _ hc hmain =>
    rw [attempted, hc, attempt_main]
    exact main_judged hs hmain
  | usr1 pc f p f' hc hhandler =>
    rw [attempted, hc, attempt_usr1]
    apply handler_judged hs hhandler
    · rw [hc]
      cases f' <;> exact id
    · intro retry hcheck
      cases f' with
      | none => exact hcheck.elim
      | some f' => exact ⟨f', rfl, hcheck⟩
  | int pc blocked _ p f hc hint =>
    rw [attempted, hc]
    apply Judged.append_nil
    refine hs.of_same rfl ?_ fun retry => ?_
    · cases f <;> exact False.elim
    · cases f <;> exact False.elim
  | intUsr1 pc f p f' hc hhandler =>
    rw [attempted, hc, attempt_intUsr1]
    apply handler_judged hs hhandler
    · cases f' <;> exact False.elim
    · intro retry hcheck
      cases f' with
      | none => exact hcheck.elim
      | some f' => exact ⟨f', rfl, hcheck⟩

theorem signalled_judged {c : Control} (hs : Judged par t tries)
    (h : t.control.signalled = some c) : Judged par (t.withControl c) tries := by
  cases hc : t.control with
  | main m =>
    rw [hc] at h
    cases h
    refine hs.of_same rfl ?_ fun retry hcheck => ?_
    · rw [hc]
      exact id
    · cases hcheck
  | int i blocked =>
    rw [hc] at h
    cases blocked with
    | true => cases h
    | false =>
      cases h
      refine hs.of_same rfl False.elim fun retry hcheck => ?_
      cases hcheck
  | _ =>
    rw [hc] at h
    cases h

/-- In every run, whatever interrupts what, a counter is compared for the attempt it
was set by. -/
theorem reach_judged
    (h : ((DeadFinal.machine par).recorded attempted).Reachable (s, tries)) :
    Judged par s.thread tries := by
  refine (Machine.recorded_invariant (C := Machine.free)
    (I := fun r => Judged par r.1.thread r.2) h ?_ ?_).2
  · intro s hs
    rw [hs.thread]
    exact ⟨rfl, MainPc.noConfusion, fun _ => False.elim⟩
  · intro s tries l s' _ hI _ hn
    cases l with
    | step a =>
      obtain ⟨⟨rows, t⟩, ht, rfl⟩ := Option.map_eq_some_iff.mp hn
      exact step_judged hI ht
    | sigusr1 =>
      obtain ⟨c, hc, rfl⟩ := Option.map_eq_some_iff.mp hn
      exact (signalled_judged hI hc).append_nil
    | sigint =>
      simp only [DeadFinal.machine, State.next] at hn
      split at hn
      · contradiction
      · rw [← Option.some.inj hn]
        apply Judged.append_nil
        exact hI.of_same rfl loopChecks_interrupted fun _ => handlerChecks_interrupted
    | others shared =>
      simp only [DeadFinal.machine, State.next] at hn
      split at hn
      · rw [← Option.some.inj hn]
        exact hI.append_nil
      · contradiction

/-- The handler's attempts leave the loop's counter. -/
theorem loopRetry_append (par : Parameters) (tries : List Try) {after : List Try}
    (hafter : ∀ later ∈ after, later.source = .handler) :
    loopRetry par (tries ++ after) = loopRetry par tries := by
  induction after using List.reverseRecOn with
  | nil => rw [List.append_nil]
  | append_singleton after later ih =>
    have hsource : later.source = .handler := by
      apply hafter
      rw [List.mem_append]
      exact Or.inr (List.mem_singleton_self later)
    rw [← List.append_assoc, loopRetry_concat, hsource]
    exact ih fun l hl => hafter l (List.mem_append_left _ hl)

/-- At its comparison the loop calls update_status(2) as Dies says of its last attempt. -/
theorem loop_marks_iff (h : ((DeadFinal.machine par).recorded attempted).Reachable (s, tries))
    (hc : loopChecks s.thread.control) (a : Attempt) :
    ∃ before attempt after, tries = before ++ attempt :: after ∧ attempt.source = .loop ∧
      (∀ later ∈ after, later.source = .handler) ∧
      ∃ t', s.thread.stepMain par s.shared a .check = some t' ∧
        (t'.control.call = .status (.dead (.raise none)) ↔ Dies par before attempt) := by
  have hjudged := reach_judged h
  obtain ⟨before, attempt, after, htries, hsource, hafter⟩ := hjudged.loop hc
  have hretry : s.thread.retry = tested par before attempt := by
    rw [hjudged.retry, htries, List.append_cons, loopRetry_append par _ hafter,
      loopRetry_concat, hsource]
  refine ⟨before, attempt, after, htries, hsource, hafter, ?_⟩
  rw [Dies, ← hretry, Thread.stepMain]
  by_cases hzero : s.thread.retry = 0
  · rw [if_pos hzero]
    exact ⟨_, rfl, iff_of_true rfl hzero⟩
  · rw [if_neg hzero]
    exact ⟨_, rfl, iff_of_false Call.noConfusion hzero⟩

/-- So does the handler. -/
theorem handler_marks_iff
    (h : ((DeadFinal.machine par).recorded attempted).Reachable (s, tries)) {retry : UInt32}
    (hc : handlerChecks retry s.thread.control) (a : Attempt) :
    ∃ before attempt, tries = before ++ [attempt] ∧ attempt.source = .handler ∧
      ∃ f, s.thread.stepHandler par s.shared a (.check retry) = some (s.thread.proc, f) ∧
        (f.map Frame.call = some (.status (.dead (.raise none))) ↔ Dies par before attempt) := by
  obtain ⟨before, attempt, htries, hsource, hretry⟩ := (reach_judged h).handler retry hc
  refine ⟨before, attempt, htries, hsource, ?_⟩
  rw [Dies, ← hretry, Thread.stepHandler]
  by_cases hzero : retry = 0
  · rw [if_pos hzero]
    exact ⟨_, rfl, iff_of_true rfl hzero⟩
  · rw [if_neg hzero]
    exact ⟨_, rfl, iff_of_false (Option.some_ne_none _).symm hzero⟩

end Runs

end SimulazioneTransazioni.Retries

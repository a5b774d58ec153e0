import SimulazioneTransazioni.Common
import SimulazioneTransazioni.Library.Machine
import SimulazioneTransazioni.Library.Semaphore
import Mathlib.Logic.Function.Basic

/-!
The semaphores of sem.c and the locks built from them. The master creates each
set with one semaphore and every caller passes semaphore number 1 and ignores
the result. A machine interleaves the calls of any number of processes on one
set. The call fails at once, so the sets exclude nobody: two processes can be
inside together, and the machine excludes only when there is a single process.
-/
namespace SimulazioneTransazioni.Sem

open Semaphore

def semReserve (set : SemSet) (semNum : ℕ) : SemopResult := semop set semNum (-1)

def semRelease (set : SemSet) (semNum : ℕ) : SemopResult := semop set semNum 1

inductive SemKey
  | usersPIDs
  | nodesPIDs
  | ledger
deriving DecidableEq

/-- Creates the three sets, or ends the process on the two errors it tests. -/
def semaphoresInit (errno : Errno) : Option (SemKey → SemSet) :=
  match errno with
  | .EEXIST => none
  | .ENOSPC => none
  | _ => some fun
    | .usersPIDs => semget 1
    | .nodesPIDs => semget 1
    | .ledger => semget 1

theorem semaphoresInit_eq {errno : Errno} {sets : SemKey → SemSet}
    (h : semaphoresInit errno = some sets) (key : SemKey) : sets key = semget 1 := by
  unfold semaphoresInit at h
  split at h
  · contradiction
  · contradiction
  · cases h
    cases key <;> rfl

def lockErrno (errno : Errno) : Errno :=
  match semReserve (semget 1) 1 with
  | .efbig => .EFBIG
  | _ => errno

@[simp] theorem lockErrno_eq (errno : Errno) : lockErrno errno = .EFBIG := rfl

inductive Place
  | outside
  | waiting
  | inside
deriving DecidableEq

structure Locks (P : Type*) where
  set : SemSet
  place : P → Place

variable {P : Type*} [DecidableEq P]

namespace Locks

def move (s : Locks P) (p : P) (set : SemSet) (place : Place) : Locks P :=
  ⟨set, Function.update s.place p place⟩

/-- The next call of process p: sem_reserve(id, 1) from outside, the retry of
the kernel while it waits, sem_release(id, 1) from inside. An error returns to
a caller that goes on as if the call had succeeded. -/
def next (s : Locks P) (p : P) : Option (Locks P) :=
  match s.place p with
  | .outside =>
    match semReserve s.set 1 with
    | .done set => some (s.move p set .inside)
    | .efbig => some (s.move p s.set .inside)
    | .blocks => some (s.move p s.set .waiting)
  | .waiting =>
    match semReserve s.set 1 with
    | .done set => some (s.move p set .inside)
    | .efbig => some (s.move p s.set .inside)
    | .blocks => none
  | .inside =>
    match semRelease s.set 1 with
    | .done set => some (s.move p set .outside)
    | .efbig => some (s.move p s.set .outside)
    | .blocks => none

def machine (P : Type*) [DecidableEq P] (set : SemSet) : Machine (Locks P) P where
  start s := s = ⟨set, fun _ => .outside⟩
  next := next

/-- At most one process is between its sem_reserve and its sem_release. -/
def Mutex (s : Locks P) : Prop :=
  ∀ p q, s.place p = .inside → s.place q = .inside → p = q

/-- With nobody inside, a process that calls sem_reserve does not block. -/
def NotBlocked (s : Locks P) : Prop :=
  (∀ p, s.place p ≠ .inside) → semReserve s.set 1 ≠ .blocks

theorem next_created {s s' : Locks P} {p : P} (hset : s.set = semget 1)
    (h : s.next p = some s') : s'.set = semget 1 := by
  have hres : semReserve s.set 1 = .efbig := by rw [hset]; rfl
  have hrel : semRelease s.set 1 = .efbig := by rw [hset]; rfl
  unfold next at h
  cases hp : s.place p with
  | outside =>
    simp only [hp, hres, Option.some.injEq] at h
    rw [← h, move, hset]
  | waiting =>
    simp only [hp, hres, Option.some.injEq] at h
    rw [← h, move, hset]
  | inside =>
    simp only [hp, hrel, Option.some.injEq] at h
    rw [← h, move, hset]

theorem reachable_set {s : Locks P} (h : (machine P (semget 1)).Reachable s) :
    s.set = semget 1 := by
  refine h.invariant (I := fun s => s.set = semget 1) ?_ ?_
  · intro s hs
    rw [hs]
  · intro s p s' hset _ hn
    exact next_created hset hn

/-- No call ever blocks, whoever is inside. -/
theorem reachable_notBlocked {s : Locks P} (h : (machine P (semget 1)).Reachable s) :
    s.NotBlocked := by
  intro _
  rw [reachable_set h, semReserve, semop_eq_efbig (by simp [semget])]
  simp

/-- Two processes that call sem_reserve one after the other are both inside. -/
theorem both_inside {p q : P} (hne : p ≠ q) :
    ∃ s, (machine P (semget 1)).Reachable s ∧ s.place p = .inside ∧
      s.place q = .inside := by
  let s₀ : Locks P := ⟨semget 1, fun _ => .outside⟩
  let s₁ : Locks P := s₀.move p (semget 1) .inside
  refine ⟨s₁.move q (semget 1) .inside, ?_, ?_, ?_⟩
  · have h₁ : s₀.next p = some s₁ := rfl
    have hq : s₁.place q = .outside := by
      simp [s₁, s₀, move, Function.update_of_ne hne.symm]
    have h₂ : s₁.next q = some (s₁.move q (semget 1) .inside) := by
      unfold next
      rw [hq]
      rfl
    exact ((Machine.Reach.of_start (show (machine P (semget 1)).start s₀ from rfl)).next
      trivial h₁).next trivial h₂
  · simp [move, s₁, Function.update_of_ne hne]
  · simp [move]

end Locks

/-- Each of the three sets keeps its processes apart exactly when there is at
most one of them. -/
theorem mutual_exclusion_iff {errno : Errno} {sets : SemKey → SemSet}
    (h : semaphoresInit errno = some sets) (key : SemKey) :
    (∀ s, (Locks.machine P (sets key)).Reachable s → s.Mutex ∧ s.NotBlocked) ↔
      Subsingleton P := by
  rw [semaphoresInit_eq h key]
  constructor
  · intro hall
    refine ⟨fun p q => ?_⟩
    by_contra hne
    obtain ⟨s, hs, hp, hq⟩ := Locks.both_inside hne
    exact hne ((hall s hs).1 p q hp hq)
  · intro hsub s hs
    exact ⟨fun p q _ _ => Subsingleton.elim p q, Locks.reachable_notBlocked hs⟩

/-- The set of the ledger with a single process. -/
theorem mutual_exclusion_single :
    (∀ s, (Locks.machine Unit (semget 1)).Reachable s → s.Mutex ∧ s.NotBlocked) ↔
      Subsingleton Unit :=
  mutual_exclusion_iff (show semaphoresInit .zero = some _ from rfl) .ledger

/-- Two processes reserve the ledger's semaphore and both go on. -/
theorem two_processes_inside :
    ¬ ∀ sets, semaphoresInit .zero = some sets →
      ∀ s, (Locks.machine (Fin 2) (sets .ledger)).Reachable s → s.Mutex ∧ s.NotBlocked := by
  intro hall
  obtain ⟨s, hs, h0, h1⟩ := Locks.both_inside (P := Fin 2) (p := 0) (q := 1) (by decide)
  have hm := (hall _ rfl s hs).1 0 1 h0 h1
  exact absurd hm (by decide)

end SimulazioneTransazioni.Sem

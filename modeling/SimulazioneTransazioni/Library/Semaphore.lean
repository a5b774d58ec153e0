import Mathlib.Data.Int.Notation
import Mathlib.Data.Nat.Notation

/-!
System V semaphore sets. A set is the list of its values, read by semaphore
number. An operation on a number outside the set fails with EFBIG and changes
nothing; inside the set it blocks when it would make the value negative and
otherwise adds to the value.
-/
namespace SimulazioneTransazioni.Semaphore

abbrev SemSet := List ℕ

/-- A new set: its semaphores are zero until someone gives them a value. -/
def semget (nsems : ℕ) : SemSet := List.replicate nsems 0

inductive SemopResult
  | done (set : SemSet)
  | blocks
  | efbig
deriving DecidableEq

def semop (set : SemSet) (semNum : ℕ) (semOp : ℤ) : SemopResult :=
  match set[semNum]? with
  | none => .efbig
  | some v =>
    if (v : ℤ) + semOp < 0 ∨ (semOp = 0 ∧ v ≠ 0) then .blocks
    else .done (set.set semNum ((v : ℤ) + semOp).toNat)

theorem semop_eq_efbig {set : SemSet} {semNum : ℕ} (h : set.length ≤ semNum) (semOp : ℤ) :
    semop set semNum semOp = .efbig := by
  unfold semop
  rw [List.getElem?_eq_none h]

end SimulazioneTransazioni.Semaphore

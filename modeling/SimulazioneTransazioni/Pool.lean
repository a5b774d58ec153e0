import SimulazioneTransazioni.Common

/-!
The transaction pool of pool.c as the sequence of the messages it holds, from
head to tail. The size field is kept by the callers, not by these functions.
-/
namespace SimulazioneTransazioni

structure Pool where
  cells : List Message
  size : UInt32
deriving DecidableEq

def transactionPoolInit : Pool := ⟨[], 0⟩

def addToPool (transPool : Pool) (message : Message) : Pool :=
  { transPool with cells := transPool.cells ++ [message] }

def removeFromPool (transPool : Pool) : Option (Message × Pool) :=
  match transPool.cells with
  | [] => none
  | head :: rest => some (head, { transPool with cells := rest })

namespace Pool

/-- `transPool.size++` and `transPool.size--` of the callers. -/
def grow (p : Pool) : Pool := { p with size := p.size + 1 }
def shrink (p : Pool) : Pool := { p with size := p.size - 1 }

@[simp] theorem grow_cells (p : Pool) : p.grow.cells = p.cells := rfl
@[simp] theorem shrink_cells (p : Pool) : p.shrink.cells = p.cells := rfl

end Pool

@[simp] theorem addToPool_cells (p : Pool) (m : Message) :
    (addToPool p m).cells = p.cells ++ [m] := rfl

theorem removeFromPool_eq_some {p rest : Pool} {m : Message}
    (h : removeFromPool p = some (m, rest)) : p.cells = m :: rest.cells := by
  unfold removeFromPool at h
  cases hc : p.cells with
  | nil => simp [hc] at h
  | cons head tail =>
    simp only [hc, Option.some.injEq, Prod.mk.injEq] at h
    rw [← h.1, ← h.2]

end SimulazioneTransazioni

import SimulazioneTransazioni.Blocks
import SimulazioneTransazioni.Library.Counter
import Mathlib.Data.UInt

/-!
The addition of sum_reward, `nodesPID[get_pid_nodeIndex()].balance += sum`, as the two
accesses that it is. The semaphore around it keeps nobody out, and the children of one
node share its row. No reward is lost in the runs where no child loads the balance that
another child of the same node has loaded and not stored yet; where one does, its
reward can be lost.
-/
namespace SimulazioneTransazioni.RewardRace

open Blocks Counter MachineInt

/-- A child in sum_reward, which has summed the rewards of its batch. -/
structure Adder where
  myPID : PidT
  sumBlock : Batch
  pc : Pc UInt64

namespace Adder

def goto (a : Adder) (pc : Pc UInt64) : Adder := { a with pc := pc }

@[simp] theorem goto_pc (a : Adder) (pc : Pc UInt64) : (a.goto pc).pc = pc := rfl

def reward (a : Adder) : UInt64 := unsignedLongOfInt (sumOfRewards a.sumBlock.toList)

def stored (balance : UInt64) (row : Node) : Node := { row with balance := balance }

def step (nodesPID : List Node) (a : Adder) : Option (List Node × Adder) :=
  (getPidNodeIndex nodesPID a.myPID).bind fun i =>
    match a.pc with
    | .ready => (nodesPID[i]?).map fun row => (nodesPID, a.goto (.loaded row.balance))
    | .loaded balance =>
      some (nodesPID.modify i (stored (balance + a.reward)), a.goto .done)
    | .done => none

end Adder

def balanceOf (nodesPID : List Node) (pid : PidT) : UInt64 :=
  match (getPidNodeIndex nodesPID pid).bind fun i => nodesPID[i]? with
  | some row => row.balance
  | none => 0

section Rows

variable {nodesPID : List Node} {pid : PidT} {i : ℕ}

theorem balanceOf_row {row : Node} (hi : getPidNodeIndex nodesPID pid = some i)
    (hrow : nodesPID[i]? = some row) : balanceOf nodesPID pid = row.balance := by
  rw [balanceOf, hi, Option.bind_some, hrow]

theorem pids_stored (nodesPID : List Node) (i : ℕ) (balance : UInt64) :
    (nodesPID.modify i (Adder.stored balance)).map Node.pid = nodesPID.map Node.pid := by
  have hpid : ∀ row : Node, (Adder.stored balance row).pid = row.pid := fun _ => rfl
  exact Table.map_key_modify hpid nodesPID i

/-- A write to the balance of a node's row is seen by that node alone. -/
theorem balanceOf_stored (hi : getPidNodeIndex nodesPID pid = some i) (balance : UInt64) :
    balanceOf (nodesPID.modify i (Adder.stored balance)) =
      Function.update (balanceOf nodesPID) pid balance := by
  funext pid'
  have hindex : ∀ k, getPidNodeIndex (nodesPID.modify i (Adder.stored balance)) k =
      getPidNodeIndex nodesPID k :=
    Table.indexOf_congr Node.pid (pids_stored nodesPID i balance)
  obtain ⟨row, hrow, hpid⟩ := Table.getElem_indexOf Node.pid hi
  rw [balanceOf, hindex]
  by_cases hkey : pid' = pid
  · subst hkey
    rw [hi, Function.update_self, Option.bind_some, List.getElem?_modify_eq, hrow]
    rfl
  · rw [Function.update_of_ne hkey, balanceOf]
    cases hj : getPidNodeIndex nodesPID pid' with
    | none => rfl
    | some j =>
      obtain ⟨row', hrow', hpid'⟩ := Table.getElem_indexOf Node.pid hj
      have hij : i ≠ j := by
        rintro rfl
        rw [hrow, Option.some.injEq] at hrow'
        rw [← hrow'] at hpid'
        exact hkey (hpid'.symm.trans hpid)
      rw [Option.bind_some, Option.bind_some, List.getElem?_modify_ne _ _ hij]

end Rows

variable {ι : Type*}

structure State (ι : Type*) where
  nodesPID : List Node
  adders : ι → Adder

structure Initial (s : State ι) : Prop where
  ready : ∀ c, (s.adders c).pc = .ready
  rows : ∀ c, (s.adders c).myPID ∈ s.nodesPID.map Node.pid

structure Same (s₀ s : State ι) : Prop where
  pids : s.nodesPID.map Node.pid = s₀.nodesPID.map Node.pid
  adders : ∀ c, s.adders c = (s₀.adders c).goto (s.adders c).pc
  rows : ∀ c, (s₀.adders c).myPID ∈ s₀.nodesPID.map Node.pid

/-- The step does not load a balance that another child has loaded and not stored yet. -/
def Uncontested (s : State ι) (c : ι) : Prop :=
  (s.adders c).pc = .ready → ∀ d, (s.adders d).pc.isLoaded = true →
    (s.adders d).myPID ≠ (s.adders c).myPID

/-- Every balance is what it was in s₀ and the rewards that the node's children added. -/
def NoneLost [Fintype ι] (s₀ s : State ι) : Prop :=
  ∀ pid, balanceOf s.nodesPID pid = balanceOf s₀.nodesPID pid +
    ∑ c, if (s₀.adders c).myPID = pid ∧ (s.adders c).pc.isDone then (s₀.adders c).reward else 0

def counted (s : State ι) : Counter.State ι PidT UInt64 :=
  ⟨balanceOf s.nodesPID, fun c => (s.adders c).pc⟩

variable [DecidableEq ι]

def State.put (s : State ι) (c : ι) (nodesPID : List Node) (a : Adder) : State ι :=
  ⟨nodesPID, Function.update s.adders c a⟩

@[simp] theorem State.put_self (s : State ι) (c : ι) (nodesPID : List Node) (a : Adder) :
    (s.put c nodesPID a).adders c = a := Function.update_self ..

theorem State.put_of_ne (s : State ι) {c d : ι} (h : d ≠ c) (nodesPID : List Node) (a : Adder) :
    (s.put c nodesPID a).adders d = s.adders d := Function.update_of_ne h ..

def next (s : State ι) (c : ι) : Option (State ι) :=
  ((s.adders c).step s.nodesPID).map fun (nodesPID, a) => s.put c nodesPID a

def machine (ι : Type*) [DecidableEq ι] : Machine (State ι) ι where
  start := Initial
  next := next

section Steps

variable {s₀ s : State ι} {c : ι}

def keyOf (s₀ : State ι) (c : ι) : PidT := (s₀.adders c).myPID

def amountOf (s₀ : State ι) (c : ι) : UInt64 := (s₀.adders c).reward

omit [DecidableEq ι] in
theorem same_initial (h : Initial s₀) : Same s₀ s₀ := ⟨rfl, fun _ => rfl, h.rows⟩

theorem counted_put (nodesPID : List Node) (a : Adder) :
    counted (s.put c nodesPID a) =
      ⟨balanceOf nodesPID, Function.update (counted s).procs c a.pc⟩ := by
  rw [counted, Counter.State.mk.injEq]
  refine ⟨rfl, ?_⟩
  funext d
  by_cases hd : d = c
  · rw [hd, Function.update_self, State.put_self]
  · rw [Function.update_of_ne hd, State.put_of_ne s hd]
    rfl

theorem same_put (hs : Same s₀ s) {nodesPID : List Node} {pc : Pc UInt64}
    (hpids : nodesPID.map Node.pid = s.nodesPID.map Node.pid) :
    Same s₀ (s.put c nodesPID ((s.adders c).goto pc)) := by
  refine ⟨hpids.trans hs.pids, fun d => ?_, hs.rows⟩
  by_cases hd : d = c
  · subst hd
    rw [State.put_self, Adder.goto_pc]
    conv_lhs => rw [hs.adders d]
    rfl
  · rw [State.put_of_ne s hd]
    exact hs.adders d

/-- A child does in a step what the process of the counter does. -/
theorem next_counted (hs : Same s₀ s) (c : ι) :
    (next s c).map counted = Counter.next (keyOf s₀) (amountOf s₀) (counted s) c ∧
      ∀ s', next s c = some s' → Same s₀ s' := by
  have hadder := hs.adders c
  have hpid : (s.adders c).myPID = keyOf s₀ c := by rw [hadder]; rfl
  have hreward : (s.adders c).reward = amountOf s₀ c := by rw [hadder]; rfl
  obtain ⟨i, hi⟩ : ∃ i, getPidNodeIndex s.nodesPID (keyOf s₀ c) = some i := by
    refine Table.exists_indexOf Node.pid ?_
    rw [hs.pids]
    exact hs.rows c
  obtain ⟨row, hrow, -⟩ := Table.getElem_indexOf Node.pid hi
  unfold next Adder.step Counter.next
  rw [hpid, hi, Option.bind_some]
  have hproc : (counted s).procs c = (s.adders c).pc := rfl
  rw [hproc]
  cases hpc : (s.adders c).pc with
  | ready =>
    simp only [hrow, Option.map_some, counted_put, Adder.goto_pc]
    refine ⟨?_, fun s' hs' => ?_⟩
    · rw [show (counted s).cells (keyOf s₀ c) = row.balance from balanceOf_row hi hrow]
      rfl
    · rw [← Option.some.inj hs']
      exact same_put hs rfl
  | loaded balance =>
    simp only [Option.map_some, counted_put, Adder.goto_pc, hreward]
    refine ⟨?_, fun s' hs' => ?_⟩
    · rw [balanceOf_stored hi]
      rfl
    · rw [← Option.some.inj hs']
      exact same_put hs (pids_stored _ _ _)
  | done =>
    simp only [Option.map_none]
    exact ⟨trivial, fun s' hs' => by contradiction⟩

end Steps

section Runs

variable {s₀ s s' : State ι} {c : ι}

omit [DecidableEq ι] in
theorem uncontested_iff (hs : Same s₀ s) :
    Counter.Uncontested (keyOf s₀) (counted s) c ↔ Uncontested s c := by
  have hpid : ∀ d, (s.adders d).myPID = keyOf s₀ d := fun d => by rw [hs.adders d]; rfl
  unfold Uncontested Counter.Uncontested
  simp only [hpid]
  rfl

theorem counted_of_next (hs : Same s₀ s) (hn : next s c = some s') :
    Counter.next (keyOf s₀) (amountOf s₀) (counted s) c = some (counted s') := by
  rw [← (next_counted hs c).1, hn]
  rfl

/-- The runs of the children are runs of the counter. -/
theorem path_counted (h₀ : Initial s₀) (hp : (machine ι).Path Uncontested s₀ s) :
    Same s₀ s ∧ (Counter.machine (keyOf s₀) (amountOf s₀)).Path
      (Counter.Uncontested (keyOf s₀)) (counted s₀) (counted s) := by
  have hsame : ∀ s l s', Same s₀ s → Uncontested s l → next s l = some s' → Same s₀ s' :=
    fun s l s' hs _ hn => (next_counted hs l).2 s' hn
  refine ⟨hp.preserves hsame (same_initial h₀), ?_⟩
  refine hp.map (fun s l s' hs hC hn => ⟨hsame s l s' hs hC hn, l, ?_⟩) (same_initial h₀)
  exact ⟨(uncontested_iff hs).mpr hC, counted_of_next hs hn⟩

/-- No reward is lost where no child loads a balance that another child of its node has
loaded and not stored yet; and every load of such a balance by a child with a reward
has a continuation in which one is lost. -/
theorem rewards_kept_iff [Fintype ι] (h₀ : Initial s₀) :
    (∀ s, (machine ι).Path Uncontested s₀ s → NoneLost s₀ s) ∧
    ∀ s c s', (machine ι).Path Uncontested s₀ s → next s c = some s' → ¬ Uncontested s c →
      (s.adders c).reward ≠ 0 →
        ∃ s'', (machine ι).Path Machine.free s' s'' ∧ ¬ NoneLost s₀ s'' := by
  constructor
  · intro s hp
    exact (path_alone h₀.ready (path_counted h₀ hp).2).counted
  · intro s c s' hp hn hC hreward
    obtain ⟨hs, hcounted⟩ := path_counted h₀ hp
    have halone := path_alone h₀.ready hcounted
    have hamount : amountOf s₀ c ≠ 0 := by
      rw [hs.adders c] at hreward
      exact hreward
    obtain ⟨t, hpath, hlost⟩ := contested_loses halone (fun h => hC ((uncontested_iff hs).mp h))
      (counted_of_next hs hn) hamount
    obtain ⟨s'', hp', -, rfl⟩ := hpath.lift (M := machine ι) (I := Same s₀) (C := Machine.free)
      (fun s l t hs _ ht => by
        obtain ⟨hnext, hsame⟩ := next_counted hs l
        rw [show Counter.next (keyOf s₀) (amountOf s₀) (counted s) l = some t from ht] at hnext
        obtain ⟨s', hs', rfl⟩ := Option.map_eq_some_iff.mp hnext
        exact ⟨l, s', trivial, hs', hsame s' hs', rfl⟩)
      ((next_counted hs c).2 s' hn)
    exact ⟨s'', hp', hlost⟩

end Runs

section TwoChildren

def rewarded : Transaction := ⟨⟨1, 0⟩, 7, 8, 5, 1, .pending⟩

def twoStart : State (Fin 2) where
  nodesPID := [⟨40, 0, 0, .available⟩]
  adders _ := ⟨40, List.Vector.replicate 9 rewarded, .ready⟩

theorem twoStart_initial : Initial twoStart := ⟨fun _ => rfl, fun _ => List.mem_singleton_self _⟩

instance (s : State (Fin 2)) (c : Fin 2) : Decidable (Uncontested s c) :=
  match hpc : (s.adders c).pc with
  | .ready => decidable_of_iff (∀ d, (s.adders d).pc.isLoaded = true →
      (s.adders d).myPID ≠ (s.adders c).myPID) ⟨fun h _ => h, fun h => h hpc⟩
  | .loaded _ => isTrue fun h => by rw [hpc] at h; contradiction
  | .done => isTrue fun h => by rw [hpc] at h; contradiction

theorem turns_run : ∃ s, (machine (Fin 2)).runWhile Uncontested twoStart [0, 0, 1, 1] = some s ∧
    balanceOf s.nodesPID 40 = 18 := ⟨_, rfl, rfl⟩

/-- One child after the other. -/
theorem rewards_kept_turns : ∃ s, (machine (Fin 2)).Path Uncontested twoStart s ∧
    balanceOf s.nodesPID 40 = 18 ∧ NoneLost twoStart s := by
  obtain ⟨s, hrun, hbalance⟩ := turns_run
  have hpath := Machine.path_of_runWhile _ hrun
  exact ⟨s, hpath, hbalance, (rewards_kept_iff twoStart_initial).1 s hpath⟩

end TwoChildren

/-- The two accesses with nothing in between are sum_reward. -/
theorem steps_sumReward {a : Adder} (hpc : a.pc = .ready) (nodesPID : List Node) :
    ((a.step nodesPID).bind fun r => r.2.step r.1) =
      (sumReward nodesPID a.myPID a.sumBlock).map fun r => (r.2, a.goto .done) := by
  unfold sumReward Adder.step
  rw [hpc]
  cases hi : getPidNodeIndex nodesPID a.myPID with
  | none => rfl
  | some i =>
    obtain ⟨row, hrow, -⟩ := Table.getElem_indexOf Node.pid hi
    simp only [Option.bind_some, hrow, Option.map_some, Adder.goto]
    rw [hi, Option.bind_some]
    refine congrArg some (Prod.ext ?_ rfl)
    exact Table.modify_congr hrow rfl

end SimulazioneTransazioni.RewardRace

import SimulazioneTransazioni.NodeLoop
import SimulazioneTransazioni.Library.Machine
import Mathlib.Tactic.Abel

/-!
The runs of one node, with an account of its pool. A run starts with the empty
pool and its steps are the passes of the loop, for any outcomes of the system
calls. At every loop head the transactions that ever arrived are those of the
pool and of the account, where a pass may have added some that vanished.
-/
namespace SimulazioneTransazioni.NodeRun

open Nodes NodeLoop

structure Account where
  arrived : Multiset Transaction
  forked : Multiset Transaction
  toFriends : Multiset Transaction
  toMaster : Multiset Transaction
  discarded : Multiset Transaction
  vanished : Multiset Transaction

namespace Account

def empty : Account := ⟨0, 0, 0, 0, 0, 0⟩

/-- A message whose msgsnd to the master failed is discarded; one whose msgsnd
to a friend failed without being put back has vanished. -/
def hop (a : Account) : HopEvent → Account
  | .idle => a
  | .kept _ => a
  | .toMaster _ m true => { a with toMaster := a.toMaster + one m }
  | .toMaster _ m false => { a with discarded := a.discarded + one m }
  | .toFriend _ m true => { a with toFriends := a.toFriends + one m }
  | .toFriend _ m false => { a with vanished := a.vanished + one m }

def fetch (a : Account) : FetchEvent → Account
  | .received none => a
  | .received (some m) => { a with arrived := a.arrived + one m }
  | .hopped e => a.hop e

def block (a : Account) : BlockEvent → Account
  | .tooFew => a
  | .forked _ batch => { a with forked := a.forked + (batch.toList : List Transaction) }
  | .forkFailed batch => { a with vanished := a.vanished + (batch.toList : List Transaction) }

/-- What is accounted for outside the pool, the vanished left out. -/
def kept (a : Account) : Multiset Transaction :=
  a.forked + a.toFriends + a.toMaster + a.discarded

theorem hop_total (a : Account) (e : HopEvent) :
    (a.hop e).kept + (a.hop e).vanished = a.kept + a.vanished + HopEvent.taken e ∧
      (a.hop e).arrived = a.arrived := by
  rcases e with _ | ⟨q, m, sent⟩ | ⟨q, m, sent⟩ | m
  · exact ⟨(add_zero _).symm, rfl⟩
  · cases sent <;> exact ⟨by simp only [hop, kept, HopEvent.taken]; abel, rfl⟩
  · cases sent <;> exact ⟨by simp only [hop, kept, HopEvent.taken]; abel, rfl⟩
  · exact ⟨(add_zero _).symm, rfl⟩

theorem hop_vanished (a : Account) (e : HopEvent) :
    (a.hop e).vanished = a.vanished + HopEvent.lost e := by
  rcases e with _ | ⟨q, m, sent⟩ | ⟨q, m, sent⟩ | m
  · exact (add_zero _).symm
  · cases sent <;> exact (add_zero _).symm
  · cases sent with
    | true => exact (add_zero _).symm
    | false => rfl
  · exact (add_zero _).symm

theorem fetch_vanished (a : Account) (e : FetchEvent) :
    (a.fetch e).vanished = a.vanished + FetchEvent.lost e := by
  rcases e with m | e
  · cases m <;> exact (add_zero _).symm
  · exact a.hop_vanished e

theorem block_vanished (a : Account) (e : BlockEvent) :
    (a.block e).vanished = a.vanished + BlockEvent.lost e := by
  cases e with
  | tooFew => exact (add_zero _).symm
  | forked pid batch => exact (add_zero _).symm
  | forkFailed batch => rfl

theorem fetch_total (a : Account) (e : FetchEvent) :
    (a.fetch e).kept + (a.fetch e).vanished = a.kept + a.vanished + FetchEvent.taken e ∧
      (a.fetch e).arrived = a.arrived + FetchEvent.arrived e := by
  rcases e with m | e
  · cases m with
    | none => exact ⟨(add_zero _).symm, (add_zero _).symm⟩
    | some m => exact ⟨(add_zero _).symm, rfl⟩
  · obtain ⟨htotal, harrived⟩ := a.hop_total e
    exact ⟨htotal, harrived.trans (add_zero _).symm⟩

theorem block_total (a : Account) (e : BlockEvent) :
    (a.block e).kept + (a.block e).vanished = a.kept + a.vanished + BlockEvent.taken e ∧
      (a.block e).arrived = a.arrived := by
  cases e with
  | tooFew => exact ⟨(add_zero _).symm, rfl⟩
  | forked pid batch => exact ⟨by simp only [block, kept, BlockEvent.taken]; abel, rfl⟩
  | forkFailed batch => exact ⟨by simp only [block, kept, BlockEvent.taken]; abel, rfl⟩

end Account

structure LoopOutcome where
  fetch : FetchOutcome
  hop : HopOutcome
  fork : ForkResult

def loopBody (par : Parameters) (o : LoopOutcome) (nodesPID : List Node) (p : NodeProc) :
    Except Halt (List Node × NodeProc × FetchEvent × BlockEvent) := do
  let (p, fetched) ← fetchMessages par o.fetch o.hop p
  let (nodesPID, p) ← publishSize nodesPID p
  let (p, processed) ← processBlock o.fork p
  return (nodesPID, p, fetched, processed)

structure State where
  nodesPID : List Node
  proc : NodeProc
  account : Account

def next (par : Parameters) (s : State) (o : LoopOutcome) : Option State :=
  match loopBody par o s.nodesPID s.proc with
  | .error _ => none
  | .ok (nodesPID, p, fetched, processed) =>
    some ⟨nodesPID, p, (s.account.fetch fetched).block processed⟩

def Initial (s : State) : Prop :=
  s.proc.transPool = transactionPoolInit ∧ s.account = Account.empty

def machine (par : Parameters) : Machine State LoopOutcome where
  start := Initial
  next := next par

def Balanced (s : State) : Prop :=
  s.account.arrived = pooled s.proc + (s.account.kept + s.account.vanished)

variable {par : Parameters} {s s' : State} {o : LoopOutcome}

/-- A pass is its three parts one after the other. -/
theorem loopBody_cases {nodesPID nodesPID' : List Node} {p p' : NodeProc}
    {fetched : FetchEvent} {processed : BlockEvent}
    (h : loopBody par o nodesPID p = .ok (nodesPID', p', fetched, processed)) :
    ∃ p₁ p₂, fetchMessages par o.fetch o.hop p = .ok (p₁, fetched) ∧
      publishSize nodesPID p₁ = .ok (nodesPID', p₂) ∧
      processBlock o.fork p₂ = .ok (p', processed) := by
  unfold loopBody at h
  cases hf : fetchMessages par o.fetch o.hop p with
  | error halt => simp [hf, bind, Except.bind] at h
  | ok r =>
    obtain ⟨p₁, fetched₁⟩ := r
    cases hs : publishSize nodesPID p₁ with
    | error halt => simp [hf, hs, bind, Except.bind] at h
    | ok r =>
      obtain ⟨nodes₂, p₂⟩ := r
      cases hb : processBlock o.fork p₂ with
      | error halt => simp [hf, hs, hb, bind, Except.bind] at h
      | ok r =>
        obtain ⟨p₃, processed₃⟩ := r
        simp only [hf, hs, hb, bind, Except.bind, pure, Except.pure, Except.ok.injEq,
          Prod.mk.injEq] at h
        obtain ⟨rfl, rfl, rfl, rfl⟩ := h
        exact ⟨p₁, p₂, rfl, hs, hb⟩

theorem loopBody_pooled {nodesPID nodesPID' : List Node} {p p' : NodeProc}
    {fetched : FetchEvent} {processed : BlockEvent}
    (h : loopBody par o nodesPID p = .ok (nodesPID', p', fetched, processed)) :
    pooled p' + BlockEvent.taken processed + FetchEvent.taken fetched =
      pooled p + FetchEvent.arrived fetched := by
  obtain ⟨p₁, p₂, hfetch, hsize, hblock⟩ := loopBody_cases h
  rw [processBlock_pooled hblock, publishSize_pooled hsize]
  exact fetchMessages_pooled hfetch

theorem next_cases (h : next par s o = some s') :
    ∃ fetched processed, loopBody par o s.nodesPID s.proc =
        .ok (s'.nodesPID, s'.proc, fetched, processed) ∧
      s'.account = (s.account.fetch fetched).block processed := by
  unfold next at h
  split at h
  · contradiction
  next nodesPID p fetched processed hbody =>
    cases h
    exact ⟨fetched, processed, hbody, rfl⟩

theorem next_balanced (hs : Balanced s) (h : next par s o = some s') : Balanced s' := by
  obtain ⟨fetched, processed, hbody, haccount⟩ := next_cases h
  obtain ⟨hf, hfa⟩ := s.account.fetch_total fetched
  obtain ⟨hb, hba⟩ := (s.account.fetch fetched).block_total processed
  have hpool := loopBody_pooled hbody
  rw [Balanced, haccount, hba, hfa, hb, hf, hs]
  calc pooled s.proc + (s.account.kept + s.account.vanished) + FetchEvent.arrived fetched
      = (pooled s.proc + FetchEvent.arrived fetched) +
          (s.account.kept + s.account.vanished) := by abel
    _ = _ := by
      rw [← hpool]
      abel

theorem reach_balanced {C : State → LoopOutcome → Prop} (h : (machine par).Reach C s) :
    Balanced s := by
  refine h.invariant ?_ fun _ _ _ hs _ hn => next_balanced hs hn
  rintro s ⟨hpool, haccount⟩
  rw [Balanced, haccount, pooled, hpool]
  rfl

/-- Nothing that has vanished comes back. -/
theorem next_vanished (h : next par s o = some s') :
    ∃ fetched processed, loopBody par o s.nodesPID s.proc =
        .ok (s'.nodesPID, s'.proc, fetched, processed) ∧
      s'.account.vanished =
        s.account.vanished + (FetchEvent.lost fetched + BlockEvent.lost processed) := by
  obtain ⟨fetched, processed, hbody, haccount⟩ := next_cases h
  refine ⟨fetched, processed, hbody, ?_⟩
  rw [haccount, Account.block_vanished, Account.fetch_vanished, add_assoc]

section Passes

def message (n : ℕ) : Message :=
  ⟨10, ⟨⟨1, Int64.ofNat n⟩, 7, 8, 5, 1, .pending⟩⟩

def start : State where
  nodesPID := [⟨40, 0, 0, .available⟩]
  proc := ⟨40, 3, .zero, 20, 0, message 0, [41, 42, 43], 3, transactionPoolInit⟩
  account := Account.empty

def pass (fork : ForkResult) (n : ℕ) : LoopOutcome where
  fetch := ⟨.delivered (message n), .failed .ENOMSG⟩
  hop := ⟨0, 30, fun _ => .failed .ENOENT, fun _ => .failed .EINVAL⟩
  fork := fork

def passes (fork : ForkResult) : List LoopOutcome := (List.range 10).map (pass fork)

theorem start_initial : Initial start := ⟨rfl, rfl⟩

end Passes

end SimulazioneTransazioni.NodeRun

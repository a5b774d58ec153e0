import SimulazioneTransazioni.PassSchedule
import Mathlib.Data.Multiset.OrderedMonoid

/-!
When a node loses transactions of its pool. Between the halves of a pass the pool has
nine messages only where the pass receives one onto eight, so this is where a fork
that fails takes a batch with it. The other loss is a msgsnd to a friend that fails
with an errno that send_message does not list. Both can be told from the pool before
the pass and from what the system calls return.
-/
namespace SimulazioneTransazioni.PoolLosses

open Nodes NodeLoop NodeRun PoolCounter PassSchedule

/-- Every transaction that was ever put in the pool is still in it, in the
buffer of a forked child, queued to a friend or to the master, or discarded at
the master hop. -/
def NeverLost (s : State) : Prop :=
  s.account.arrived ≤ pooled s.proc + s.account.kept

section Condition

/-- receive_message returns SUCCESS: the errno that it finds is none of its list. -/
def Accepted {α : Type} (errno : Errno) : MsgrcvResult α → Prop
  | .delivered _ => errno ∉ receiveErrors
  | .failed e => e ∉ receiveErrors

def Forks : ForkResult → Prop
  | .parent _ => True
  | .failed _ => False

/-- The msgsnd succeeds, or fails with an errno that send_message lists. -/
def Told : MsgsndResult → Prop
  | .sent => True
  | .failed e => e ∈ sendErrors

def Sends (par : Parameters) (o : HopOutcome) (p : NodeProc) : Prop :=
  ∀ m ∈ p.transPool.cells.head?, 0 < m.hops → ∀ friend ∈ drawnFriend par o p,
    (o.msgget friend).queue ≠ p.queueID → Told (o.msgsnd (o.msgget friend).queue)

/-- The fork of a pass that receives onto eight messages succeeds; and a pass that sends to
a friend is told of the failure. -/
structure LossFree (par : Parameters) (s : State) (o : LoopOutcome) : Prop where
  fork : Receives par s.proc → s.proc.transPool.cells.length = soBlockSize - 2 →
    Accepted s.proc.errno o.fetch.rcvTrans → Forks o.fork
  send : ¬ Receives par s.proc → Sends par o.hop s.proc

end Condition

theorem neverLost_iff {s : State} (h : Balanced s) : NeverLost s ↔ s.account.vanished = 0 := by
  rw [NeverLost, h, ← add_assoc]
  constructor
  · intro hle
    have hz : s.account.vanished ≤ 0 := (add_le_iff_nonpos_right _).mp hle
    exact Multiset.le_zero.mp hz
  · intro hz
    rw [hz, add_zero]

section Hops

variable {par : Parameters} {p p' : NodeProc} {o : HopOutcome} {e : HopEvent}

/-- A message leaves for a friend without being queued where send_message returns SUCCESS
for a msgsnd that failed. -/
theorem hopToFriend_lost {friend : PidT} {m : Message} (h : hopToFriend o p friend m = (p', e)) :
    HopEvent.lost e = 0 ↔
      ((o.msgget friend).queue ≠ p.queueID → Told (o.msgsnd (o.msgget friend).queue)) := by
  simp only [hopToFriend, sendHop] at h
  split at h
  next hself =>
    cases h
    exact ⟨fun _ hother => absurd hself hother, fun _ => rfl⟩
  next hne =>
    have hother : (o.msgget friend).queue ≠ p.queueID := hne
    rw [imp_iff_right hother]
    cases hresult : o.msgsnd (o.msgget friend).queue with
    | sent =>
      rw [hresult] at h
      cases h
      exact ⟨fun _ => trivial, fun _ => rfl⟩
    | failed errno =>
      rw [hresult, sendMessage] at h
      by_cases hlisted : errno ∈ sendErrors
      · rw [if_pos hlisted] at h
        cases h
        exact ⟨fun _ => hlisted, fun _ => rfl⟩
      · rw [if_neg hlisted] at h
        cases h
        exact ⟨fun hnone => absurd hnone (Multiset.singleton_ne_zero _),
          fun hin => absurd hin hlisted⟩

theorem sends_iff {m : Message} {rest : Pool} {friend : PidT}
    (hrem : removeFromPool p.transPool = some (m, rest)) (hhops : 0 < m.hops)
    (hdrawn : drawnFriend par o p = some friend) :
    Sends par o p ↔
      ((o.msgget friend).queue ≠ p.queueID → Told (o.msgsnd (o.msgget friend).queue)) := by
  have hhead : p.transPool.cells.head? = some m := by
    rw [removeFromPool_eq_some hrem]
    rfl
  unfold Sends
  rw [hhead, hdrawn]
  constructor
  · exact fun h => h m rfl hhops friend rfl
  · intro h m' hm' _ friend' hfriend'
    cases hfriend'
    exact h

/-- A call loses nothing if and only if its send is told of a failure. -/
theorem sendToRandomFriend_lost (h : sendToRandomFriend par o p = .ok (p', e)) :
    HopEvent.lost e = 0 ↔ Sends par o p := by
  unfold sendToRandomFriend at h
  split at h
  next hempty =>
    cases h
    refine ⟨fun _ m hm => ?_, fun _ => rfl⟩
    have hcells : p.transPool.cells = [] := by
      cases hcells : p.transPool.cells with
      | nil => rfl
      | cons head tail => simp [removeFromPool, hcells] at hempty
    rw [hcells] at hm
    contradiction
  next m rest hrem =>
    have hcells := removeFromPool_eq_some hrem
    unfold hop at h
    split at h
    · contradiction
    next i hi =>
      split at h
      next hspent =>
        cases h
        refine ⟨fun _ m' hm' hhops => ?_, fun _ => rfl⟩
        rw [hcells] at hm'
        cases hm'
        exact absurd hhops (Int32.not_lt.mpr hspent)
      next hleft =>
        split at h
        · contradiction
        next friend hfriend =>
          split at h
          · contradiction
          · have hdrawn : drawnFriend par o p = some friend := by
              rw [drawnFriend, hi]
              exact hfriend
            rw [sends_iff hrem (Int32.not_le.mp hleft) hdrawn]
            exact hopToFriend_lost (p := p.withPool rest.shrink) (Except.ok.inj h)

end Hops

section Passes

variable {par : Parameters} {s s' : State} {o : LoopOutcome}

theorem accepted_iff (o : FetchOutcome) (p : NodeProc) :
    (∃ m, (receiveTransaction o p).2 = some m) ↔ Accepted p.errno o.rcvTrans := by
  unfold receiveTransaction
  cases hres : o.rcvTrans with
  | delivered m =>
    by_cases he : p.errno ∈ receiveErrors
    · simp [receiveMessage, receiveStatus, he, Accepted]
    · simp [receiveMessage, receiveStatus, he, Accepted]
  | failed e =>
    by_cases he : e ∈ receiveErrors
    · simp [receiveMessage, receiveStatus, he, Accepted]
    · simp [receiveMessage, receiveStatus, he, Accepted]

theorem fetch_lost {p₁ : NodeProc} {fetched : FetchEvent}
    (h : fetchMessages par o.fetch o.hop s.proc = .ok (p₁, fetched)) :
    FetchEvent.lost fetched = 0 ↔ (¬ Receives par s.proc → Sends par o.hop s.proc) := by
  unfold fetchMessages at h
  split at h
  next hrec =>
    cases h
    exact ⟨fun _ hnot => absurd hrec hnot, fun _ => rfl⟩
  next hnot =>
    rw [imp_iff_right hnot]
    cases hsend : sendToRandomFriend par o.hop s.proc with
    | error halt =>
      rw [hsend] at h
      contradiction
    | ok r =>
      rw [hsend] at h
      cases h
      exact sendToRandomFriend_lost hsend

/-- The nine messages are there only after a receive onto eight. -/
theorem nine_iff {p₁ : NodeProc} {fetched : FetchEvent}
    (hs : Exact (soBlockSize - 2) s.proc.transPool)
    (h : fetchMessages par o.fetch o.hop s.proc = .ok (p₁, fetched)) :
    soBlockSize - 1 ≤ p₁.transPool.cells.length ↔
      Receives par s.proc ∧ s.proc.transPool.cells.length = soBlockSize - 2 ∧
        Accepted s.proc.errno o.fetch.rcvTrans := by
  have hten : soBlockSize = 10 := rfl
  have hle := hs.le
  have haccepted := accepted_iff o.fetch s.proc
  by_cases hrec : Receives par s.proc
  · have hfetched : fetched = .received (receiveTransaction o.fetch s.proc).2 := by
      unfold fetchMessages at h
      rw [if_pos hrec] at h
      cases h
      rfl
    rw [hfetched] at h
    rw [received_cells h, List.length_append]
    cases harrival : (receiveTransaction o.fetch s.proc).2 with
    | none =>
      rw [harrival] at haccepted
      have hno : ¬ Accepted s.proc.errno o.fetch.rcvTrans :=
        fun hyes => by obtain ⟨m, hm⟩ := haccepted.mpr hyes; contradiction
      rw [Option.toList_none, List.length_nil]
      exact ⟨fun hnine => by omega, fun hall => absurd hall.2.2 hno⟩
    | some m =>
      rw [harrival] at haccepted
      have hyes := haccepted.mp ⟨m, rfl⟩
      rw [Option.toList_some, List.length_singleton]
      exact ⟨fun hnine => ⟨hrec, by omega, hyes⟩, fun ⟨_, hlength, _⟩ => by omega⟩
  · have hfew : p₁.transPool.cells.length ≤ s.proc.transPool.cells.length := by
      cases fetchMessages_fetched h with
      | received hroom => exact absurd hroom hrec
      | hopped q e hfull hhop => exact hopped_cells h
    exact ⟨fun hnine => by omega, fun hall => absurd hall.1 hrec⟩

/-- The second half loses nothing if and only if the fork of a batch succeeds. -/
theorem block_lost {fork : ForkResult} {p p' : NodeProc} {e : BlockEvent}
    (h : processBlock fork p = .ok (p', e)) :
    BlockEvent.lost e = 0 ↔ (soBlockSize - 1 ≤ p.transPool.size.toNat → Forks fork) := by
  unfold processBlock at h
  split at h
  next hnine =>
    rw [imp_iff_right hnine]
    cases hfill : fillBlockTransList (soBlockSize - 1) p.transPool with
    | error halt =>
      rw [hfill] at h
      contradiction
    | ok r =>
      rw [hfill] at h
      cases fork with
      | parent pid =>
        cases h
        exact ⟨fun _ => trivial, fun _ => rfl⟩
      | failed errno =>
        cases h
        refine ⟨fun hnone => ?_, fun hforks => hforks.elim⟩
        have hcard := congrArg Multiset.card hnone
        rw [BlockEvent.lost, Multiset.coe_card, List.Vector.toList_length] at hcard
        contradiction
  next hfew =>
    cases h
    exact ⟨fun _ hnine => absurd hnine hfew, fun _ => rfl⟩

/-- Nothing more vanishes exactly in a pass that is loss free. -/
theorem next_vanished_iff (hs : Exact (soBlockSize - 2) s.proc.transPool)
    (h : next par s o = some s') :
    s'.account.vanished = s.account.vanished ↔ LossFree par s o := by
  obtain ⟨fetched, processed, hbody, hvanished⟩ := next_vanished h
  obtain ⟨p₁, p₂, hfetch, hpublish, hblock⟩ := loopBody_cases hbody
  have hsize : p₂.transPool.size.toNat = p₁.transPool.cells.length := by
    rw [publishSize_transPool hpublish]
    exact (fetchMessages_exact (n := 7) hs (by decide) hfetch).size
  have hblocks := block_lost hblock
  rw [hsize, nine_iff hs hfetch] at hblocks
  rw [hvanished, add_eq_left, add_eq_zero, fetch_lost hfetch, hblocks]
  constructor
  · rintro ⟨hsend, hfork⟩
    exact ⟨fun hrec hlength haccepted => hfork ⟨hrec, hlength, haccepted⟩, hsend⟩
  · rintro ⟨hfork, hsend⟩
    exact ⟨hsend, fun ⟨hrec, hlength, haccepted⟩ => hfork hrec hlength haccepted⟩

end Passes

section Runs

variable {par : Parameters}

theorem reach_exact {C : State → LoopOutcome → Prop} {s : State} (h : (machine par).Reach C s) :
    Exact (soBlockSize - 2) s.proc.transPool := by
  refine h.invariant (I := fun s => Exact (soBlockSize - 2) s.proc.transPool) ?_ ?_
  · rintro s ⟨hpool, -⟩
    rw [hpool]
    exact exact_init.mono (Nat.zero_le _)
  · exact fun s o s' hs _ hn => next_exact hs hn

/-- What has vanished does not come back. -/
theorem path_vanished_le {s s' : State} (hp : (machine par).Path Machine.free s s') :
    s.account.vanished ≤ s'.account.vanished := by
  refine hp.related (I := fun _ => True)
    (R := fun s s' => s.account.vanished ≤ s'.account.vanished)
    (fun _ _ _ _ _ _ => trivial) (fun _ => le_rfl) (fun _ _ _ => le_trans) ?_ trivial
  intro s o s' _ _ hn
  obtain ⟨fetched, processed, -, hvanished⟩ := next_vanished hn
  rw [hvanished]
  exact Multiset.le_add_right _ _

/-- A node loses nothing in the runs whose passes are all loss free, and a pass
that is not has lost something for the rest of the run. -/
theorem neverLost_iff_lossFree (par : Parameters) :
    (∀ s, (machine par).Reach (LossFree par) s → NeverLost s) ∧
    ∀ s o s' s'', (machine par).Reachable s → next par s o = some s' → ¬ LossFree par s o →
      (machine par).Path Machine.free s' s'' → ¬ NeverLost s'' := by
  constructor
  · intro s hs
    rw [neverLost_iff (reach_balanced hs)]
    refine (hs.invariant (I := fun s => Exact (soBlockSize - 2) s.proc.transPool ∧
      s.account.vanished = 0) ?_ ?_).2
    · rintro s ⟨hpool, haccount⟩
      rw [hpool, haccount]
      exact ⟨exact_init.mono (Nat.zero_le _), rfl⟩
    · rintro s o s' ⟨hexact, hz⟩ hC hn
      exact ⟨next_exact hexact hn, ((next_vanished_iff hexact hn).mpr hC).trans hz⟩
  · intro s o s' s'' hs hn hC hp
    have hs' : (machine par).Reachable s' := hs.next trivial hn
    rw [neverLost_iff (reach_balanced (hs'.path hp))]
    have hle := path_vanished_le hp
    intro hz
    rw [hz] at hle
    obtain ⟨fetched, processed, -, hvanished⟩ := next_vanished hn
    have hnone : s'.account.vanished = 0 := Multiset.le_zero.mp hle
    refine hC ((next_vanished_iff (reach_exact hs) hn).mp ?_)
    rw [hnone] at hvanished ⊢
    exact (add_eq_zero.mp hvanished.symm).1.symm

end Runs

section Forks

instance {α : Type} (errno : Errno) : (r : MsgrcvResult α) → Decidable (Accepted errno r)
  | .delivered _ => inferInstanceAs (Decidable (_ ∉ _))
  | .failed _ => inferInstanceAs (Decidable (_ ∉ _))

instance : (fork : ForkResult) → Decidable (Forks fork)
  | .parent _ => isTrue trivial
  | .failed _ => isFalse id

instance : (result : MsgsndResult) → Decidable (Told result)
  | .sent => isTrue trivial
  | .failed _ => inferInstanceAs (Decidable (_ ∈ _))

instance (par : Parameters) (o : HopOutcome) (p : NodeProc) : Decidable (Sends par o p) :=
  inferInstanceAs (Decidable (∀ _ ∈ _, _))

instance (par : Parameters) (s : State) (o : LoopOutcome) : Decidable (LossFree par s o) :=
  decidable_of_iff (_ ∧ _) ⟨fun h => ⟨h.1, h.2⟩, fun h => ⟨h.fork, h.send⟩⟩

def lucky : List LoopOutcome :=
  (List.range 10).map fun n => pass (if n = 9 then .parent 50 else .failed .EAGAIN) n

theorem lucky_run : ∃ s, (machine assignDefaults).runWhile (LossFree assignDefaults) start lucky =
    some s ∧ s.account.forked.card = 9 := ⟨_, rfl, rfl⟩

/-- The forks of the passes without a batch would fail, and that of the batch succeeds. -/
theorem neverLost_lucky : ∃ s, (machine assignDefaults).Reach (LossFree assignDefaults) s ∧
    s.account.forked.card = 9 ∧ NeverLost s := by
  obtain ⟨s, hrun, hforked⟩ := lucky_run
  have hreach : (machine assignDefaults).Reach (LossFree assignDefaults) s :=
    ⟨start, start_initial, Machine.path_of_runWhile _ hrun⟩
  exact ⟨s, hreach, hforked, (neverLost_iff_lossFree assignDefaults).1 s hreach⟩

theorem forkFails_run : ∃ s,
    (machine assignDefaults).run start (passes (.failed .EAGAIN)) = some s ∧
    s.proc.transPool.cells = [] ∧ s.account.kept = 0 ∧
    s.account.arrived.card = 9 := ⟨_, rfl, rfl, rfl, rfl⟩

/-- The fork of the tenth pass fails and the nine transactions are gone. -/
theorem forkFails_loses : ¬ ∀ s, (machine assignDefaults).Reachable s → NeverLost s := by
  intro hall
  obtain ⟨s, hrun, hcells, hkept, hcard⟩ := forkFails_run
  have hle := hall s (Machine.reachable_of_run _ start_initial hrun)
  rw [NeverLost, pooled, hcells, hkept] at hle
  have hle' := Multiset.card_le_card hle
  rw [hcard] at hle'
  exact absurd hle' (by decide)

end Forks

end SimulazioneTransazioni.PoolLosses

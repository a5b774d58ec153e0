import SimulazioneTransazioni.PoolCounter

/-!
The rhythm of a node's loop. The test of fetch_messages reads the pool's size and
the static flag, but SO_TP_SIZE is never reached, so the flag alone decides: the
first pass hops, and then every twenty-first, whatever happens in between. A pass
takes a batch exactly when it receives the ninth transaction, and the batch is the
whole pool.
-/
namespace SimulazioneTransazioni.PassSchedule

open Nodes NodeRun PoolCounter

/-- What a pass of the loop did, with the cells of the pool at its loop head and at the
next one. -/
structure Pass where
  fetched : FetchEvent
  processed : BlockEvent
  before : List Message
  after : List Message

namespace Pass

def Hops (q : Pass) : Prop := ∃ e, q.fetched = .hopped e

def Receives (q : Pass) (m : Message) : Prop := q.fetched = .received (some m)

def Takes (q : Pass) (batch : Blocks.Batch) : Prop :=
  (∃ pid, q.processed = .forked pid batch) ∨ q.processed = .forkFailed batch

end Pass

def observe (par : Parameters) (s : State) (o : LoopOutcome) : List Pass :=
  match loopBody par o s.nodesPID s.proc with
  | .error _ => []
  | .ok (_, p, fetched, processed) =>
    [⟨fetched, processed, s.proc.transPool.cells, p.transPool.cells⟩]

abbrev logged (par : Parameters) : Machine (State × List Pass) LoopOutcome :=
  (machine par).recorded (observe par)

section Flag

variable {par : Parameters} {p p' : NodeProc}

theorem publishSize_flag {nodesPID nodesPID' : List Node}
    (h : publishSize nodesPID p = .ok (nodesPID', p')) : p'.flag = p.flag := by
  rw [(publishSize_ok h).1]
  rfl

theorem processBlock_flag {fork : ForkResult} {e : BlockEvent}
    (h : processBlock fork p = .ok (p', e)) : p'.flag = p.flag := by
  cases processBlock_processed h <;> rfl

/-- While the pool is small the flag alone decides whether a pass hops. -/
theorem fetchMessages_flag {of : FetchOutcome} {oh : HopOutcome} {e : FetchEvent}
    (hsmall : p.transPool.size < par.soTpSize)
    (h : fetchMessages par of oh p = .ok (p', e)) :
    (p.flag < 20 ∧ p'.flag = p.flag + 1 ∧ ∃ m, e = .received m) ∨
      (¬ p.flag < 20 ∧ p'.flag = 0 ∧ ∃ e', e = .hopped e') := by
  cases fetchMessages_fetched h with
  | received hroom => exact Or.inl ⟨hroom.2, rfl, _, rfl⟩
  | hopped q e' hfull hhop =>
    exact Or.inr ⟨fun hflag => hfull ⟨hsmall, hflag⟩, rfl, _, rfl⟩

/-- The number of passes, one less, modulo the length of a round. -/
structure Timed (flag : Int32) (n : ℕ) : Prop where
  value : flag.toInt = ((n + 20) % 21 : ℕ)

theorem timed_start : Timed 20 0 := ⟨rfl⟩

theorem Timed.lt_iff {flag : Int32} {n : ℕ} (h : Timed flag n) : flag < 20 ↔ ¬ 21 ∣ n := by
  have htwenty : (20 : Int32).toInt = 20 := rfl
  rw [Int32.lt_iff_toInt_lt, h.value, htwenty]
  omega

theorem Timed.succ {flag : Int32} {n : ℕ} (h : Timed flag n) (hlt : flag < 20) :
    Timed (flag + 1) (n + 1) := by
  have hone : (1 : Int32).toInt = 1 := rfl
  have hvalue := h.value
  have hn := h.lt_iff.mp hlt
  constructor
  rw [Int32.toInt_add, hone, hvalue, Int.bmod_eq_of_le (by omega) (by omega)]
  omega

theorem Timed.reset {flag : Int32} {n : ℕ} (h : Timed flag n) (hge : ¬ flag < 20) :
    Timed 0 (n + 1) := by
  have hn : 21 ∣ n := by
    by_contra hnot
    exact hge (h.lt_iff.mpr hnot)
  constructor
  rw [Int32.toInt_zero]
  omega

end Flag

section Cells

variable {par : Parameters} {p p' : NodeProc}

/-- The cells after the first half of a pass that receives. -/
theorem received_cells {of : FetchOutcome} {oh : HopOutcome} {m : Option Message}
    (h : fetchMessages par of oh p = .ok (p', .received m)) :
    p'.transPool.cells = p.transPool.cells ++ m.toList := by
  generalize he : FetchEvent.received m = e at h
  cases fetchMessages_fetched h with
  | received hroom =>
    cases he
    show (receiveFriend of (receiveTransaction of p).1).transPool.cells = _
    rw [receiveFriend_transPool]
    unfold receiveTransaction
    split
    · rfl
    · exact (List.append_nil _).symm
  | hopped q e' hfull hhop => contradiction

/-- A hop adds no cell. -/
theorem hopped_cells {of : FetchOutcome} {oh : HopOutcome} {e : HopEvent}
    (h : fetchMessages par of oh p = .ok (p', .hopped e)) :
    p'.transPool.cells.length ≤ p.transPool.cells.length := by
  generalize he : FetchEvent.hopped e = fetched at h
  cases fetchMessages_fetched h with
  | received hroom => contradiction
  | hopped q e' hfull hhop =>
    show q.transPool.cells.length ≤ _
    cases hhop with
    | idle hempty => exact le_rfl
    | toMaster m rest errno hrem hhops =>
      rw [removeFromPool_eq_some hrem]
      exact Nat.le_succ _
    | toFriend m rest errno queue hrem hhops hother hsend =>
      rw [removeFromPool_eq_some hrem]
      exact Nat.le_succ _
    | kept m rest errno queue hrem hhops hback =>
      rw [removeFromPool_eq_some hrem]
      simp

structure Batched (p p' : NodeProc) (e : BlockEvent) (batch : Blocks.Batch) : Prop where
  nine : p.transPool.cells.length = soBlockSize - 1
  taken : (∃ pid, e = .forked pid batch) ∨ e = .forkFailed batch
  whole : batch.toList = p.transPool.cells.map Message.userTrans
  empty : p'.transPool.cells = []

theorem filled_batched {pool : Pool} {batch : Blocks.Batch} {e : BlockEvent}
    (hexact : Exact (soBlockSize - 1) p.transPool)
    (hfill : fillBlockTransList (soBlockSize - 1) p.transPool = .ok (batch, pool))
    (htaken : (∃ pid, e = .forked pid batch) ∨ e = .forkFailed batch)
    (hpool : p'.transPool = pool) : Batched p p' e batch := by
  have hbatch := NodeLoop.fillBlockTransList_cells hfill
  have hlen := congrArg List.length hbatch
  have hle := hexact.le
  rw [List.length_append, List.length_map, List.length_map, List.Vector.toList_length] at hlen
  have hempty : pool.cells = [] := List.eq_nil_of_length_eq_zero (by omega)
  rw [hempty, List.map_nil, List.append_nil] at hbatch
  exact ⟨by rw [hempty, List.length_nil] at hlen; omega, htaken, hbatch.symm, by rw [hpool, hempty]⟩

theorem processBlock_batched {fork : ForkResult} {e : BlockEvent}
    (hexact : Exact (soBlockSize - 1) p.transPool) (h : processBlock fork p = .ok (p', e)) :
    (p.transPool.cells.length < soBlockSize - 1 ∧ e = .tooFew ∧ p' = p) ∨
      ∃ batch, Batched p p' e batch := by
  cases processBlock_processed h with
  | tooFew fork hfew =>
    rw [hexact.size] at hfew
    exact Or.inl ⟨hfew, rfl, rfl⟩
  | forked pid batch pool hfill =>
    exact Or.inr ⟨batch, filled_batched hexact hfill (Or.inl ⟨pid, rfl⟩) rfl⟩
  | forkFailed errno batch pool hfill =>
    exact Or.inr ⟨batch, filled_batched hexact hfill (Or.inr rfl) rfl⟩

end Cells

section Runs

variable {par : Parameters} {s s' : State} {o : LoopOutcome}

structure Does (hops : Prop) (q : Pass) : Prop where
  hops_iff : q.Hops ↔ hops
  batch : ∀ batch, q.Takes batch → q.after = [] ∧
    ∃ m, q.Receives m ∧ q.before.length = soBlockSize - 2 ∧
      batch.toList = (q.before ++ [m]).map Message.userTrans
  ninth : ∀ m, q.Receives m → q.before.length = soBlockSize - 2 → ∃ batch, q.Takes batch
  fewer : ∀ m, q.Receives m → q.before.length < soBlockSize - 2 → q.after = q.before ++ [m]

theorem takes_unique {q : Pass} {p p' : NodeProc} {batch batch' : Blocks.Batch}
    (hbatched : Batched p p' q.processed batch) (h : q.Takes batch') : batch' = batch := by
  rcases h with ⟨pid, hpid⟩ | hfailed <;> rcases hbatched.taken with ⟨pid', hpid'⟩ | hfailed'
  · rw [hpid'] at hpid
    exact (BlockEvent.forked.inj hpid).2.symm
  · rw [hfailed'] at hpid
    contradiction
  · rw [hpid'] at hfailed
    contradiction
  · rw [hfailed'] at hfailed
    exact (BlockEvent.forkFailed.inj hfailed).symm

/-- A pass that receives. -/
theorem received_does {p₂ p' : NodeProc} {m : Option Message} {before : List Message}
    {e : BlockEvent} (hcells : p₂.transPool.cells = before ++ m.toList)
    (hbefore : before.length ≤ soBlockSize - 2)
    (hprocessed : (p₂.transPool.cells.length < soBlockSize - 1 ∧ e = .tooFew ∧ p' = p₂) ∨
      ∃ batch, Batched p₂ p' e batch) :
    Does False ⟨.received m, e, before, p'.transPool.cells⟩ := by
  have hten : soBlockSize = 10 := rfl
  have hhops : Pass.Hops ⟨.received m, e, before, p'.transPool.cells⟩ ↔ False := by
    simp [Pass.Hops]
  have hreceives : ∀ m', Pass.Receives ⟨.received m, e, before, p'.transPool.cells⟩ m' →
      p₂.transPool.cells = before ++ [m'] := by
    intro m' hm'
    rw [hcells, FetchEvent.received.inj hm']
    rfl
  rcases hprocessed with ⟨hfew, rfl, rfl⟩ | ⟨batch, hbatched⟩
  · refine ⟨hhops, ?_, fun m' hm' hfull => ?_, fun m' hm' _ => hreceives m' hm'⟩
    · rintro batch (⟨pid, hpid⟩ | hfailed)
      · contradiction
      · contradiction
    · rw [hreceives m' hm', List.length_append, List.length_singleton] at hfew
      change before.length = soBlockSize - 2 at hfull
      omega
  · have hnine := hbatched.nine
    refine ⟨hhops, fun batch' htakes => ?_, fun m' hm' _ => ⟨batch, hbatched.taken⟩,
      fun m' hm' hless => ?_⟩
    · have hsame : batch' = batch := takes_unique hbatched htakes
      rw [hcells, List.length_append] at hnine
      cases m with
      | none =>
        rw [Option.toList_none, List.length_nil] at hnine
        omega
      | some m' =>
        rw [Option.toList_some, List.length_singleton] at hnine
        refine ⟨hbatched.empty, m', rfl, ?_, ?_⟩
        · show before.length = soBlockSize - 2
          omega
        · rw [hsame, hbatched.whole, hcells]
          rfl
    · rw [hreceives m' hm', List.length_append, List.length_singleton] at hnine
      change before.length < soBlockSize - 2 at hless
      omega

/-- A pass that hops leaves too few cells for a block. -/
theorem hopped_does {p₂ p' : NodeProc} {hopped : HopEvent} {before : List Message}
    {e : BlockEvent} (hcells : p₂.transPool.cells.length ≤ before.length)
    (hbefore : before.length ≤ soBlockSize - 2)
    (hprocessed : (p₂.transPool.cells.length < soBlockSize - 1 ∧ e = .tooFew ∧ p' = p₂) ∨
      ∃ batch, Batched p₂ p' e batch) :
    Does True ⟨.hopped hopped, e, before, p'.transPool.cells⟩ := by
  rcases hprocessed with ⟨-, rfl, -⟩ | ⟨batch, hbatched⟩
  · refine ⟨⟨fun _ => trivial, fun _ => ⟨hopped, rfl⟩⟩, ?_, fun m hm => ?_, fun m hm => ?_⟩
    · rintro batch (⟨pid, hpid⟩ | hfailed)
      · contradiction
      · contradiction
    · contradiction
    · contradiction
  · have hten : soBlockSize = 10 := rfl
    have hnine := hbatched.nine
    omega

/-- Between the halves of a pass the pool has nine cells at most, so a batch is all of
it and the nine are there only after a receive. -/
theorem next_observed (hs : Exact (soBlockSize - 2) s.proc.transPool)
    (htp : soBlockSize < par.soTpSize.toNat) {n : ℕ} (hn : Timed s.proc.flag n)
    (h : next par s o = some s') :
    ∃ q, observe par s o = [q] ∧ Does (21 ∣ n) q ∧ Timed s'.proc.flag (n + 1) := by
  obtain ⟨fetched, processed, hbody, -⟩ := next_cases h
  obtain ⟨p₁, p₂, hfetch, hpublish, hblock⟩ := loopBody_cases hbody
  have hp₁ : Exact (soBlockSize - 1) p₁.transPool := fetchMessages_exact (n := 7) hs (by decide) hfetch
  have hpool := publishSize_transPool hpublish
  have hprocessed := processBlock_batched (by rwa [hpool]) hblock
  refine ⟨⟨fetched, processed, s.proc.transPool.cells, s'.proc.transPool.cells⟩, ?_, ?_⟩
  · rw [observe, hbody]
  · rw [processBlock_flag hblock, publishSize_flag hpublish]
    rcases fetchMessages_flag (passFits hs htp o).notFull hfetch with
      ⟨hlt, hflag, m, rfl⟩ | ⟨hge, hflag, hopped, rfl⟩
    · have hcells := received_cells hfetch
      rw [← hpool] at hcells
      refine ⟨?_, by rw [hflag]; exact hn.succ hlt⟩
      rw [eq_false (hn.lt_iff.mp hlt)]
      exact received_does hcells hs.le hprocessed
    · have hcells := hopped_cells hfetch
      rw [← hpool] at hcells
      refine ⟨?_, by rw [hflag]; exact hn.reset hge⟩
      rw [eq_true (not_not.mp fun hnot => hge (hn.lt_iff.mpr hnot))]
      exact hopped_does hcells hs.le hprocessed

/-- In every run of the loop the passes that hop are the first and every twenty-first
after it; a pass takes a batch when it receives a message onto eight cells, and the
batch is the whole pool. -/
theorem pass_schedule (par : Parameters) (htp : soBlockSize < par.soTpSize.toNat) {s₀ : State}
    (h₀ : Initial s₀) (hflag : s₀.proc.flag = 20) {s : State} {log : List Pass}
    (hrun : (logged par).Path Machine.free (s₀, []) (s, log)) :
    ∀ k (hk : k < log.length), Does (21 ∣ k) log[k] := by
  have hinv : Exact (soBlockSize - 2) s.proc.transPool ∧ Timed s.proc.flag log.length ∧
      ∀ k (hk : k < log.length), Does (21 ∣ k) log[k] := by
    refine hrun.preserves (I := fun r => Exact (soBlockSize - 2) r.1.proc.transPool ∧
      Timed r.1.proc.flag r.2.length ∧ ∀ k (hk : k < r.2.length), Does (21 ∣ k) r.2[k]) ?_ ?_
    · rintro ⟨s, log⟩ o r' ⟨hexact, htimed, hlog⟩ - hn
      obtain ⟨s', hs', rfl⟩ := Option.map_eq_some_iff.mp hn
      obtain ⟨q, hq, hdoes, htimed'⟩ := next_observed hexact htp htimed hs'
      have hlog' : log ++ observe par s o = log ++ [q] := by rw [hq]
      simp only [hlog']
      refine ⟨next_exact hexact hs', by rwa [List.length_append, List.length_singleton], ?_⟩
      intro k hk
      rw [List.length_append, List.length_singleton] at hk
      by_cases hlast : k < log.length
      · rw [List.getElem_append_left hlast]
        exact hlog k hlast
      · have hkn : k = log.length := by omega
        subst hkn
        rw [List.getElem_concat_length rfl]
        exact hdoes
    · refine ⟨?_, ?_, fun k hk => absurd hk (Nat.not_lt_zero k)⟩
      · show Exact (soBlockSize - 2) s₀.proc.transPool
        rw [h₀.1]
        exact exact_init.mono (Nat.zero_le _)
      · show Timed s₀.proc.flag 0
        rw [hflag]
        exact timed_start
  exact hinv.2.2

end Runs

theorem ten_passes : ∃ s log,
    (logged assignDefaults).run (start, []) (passes (.parent 50)) = some (s, log) ∧
      log.length = 10 ∧ s.account.forked.card = 9 := ⟨_, _, rfl, rfl, rfl⟩

/-- The first of ten passes hops and the last one takes a batch. -/
theorem pass_schedule_ten : ∃ s log,
    (logged assignDefaults).run (start, []) (passes (.parent 50)) = some (s, log) ∧
      log.length = 10 ∧ s.account.forked.card = 9 ∧
      ∀ k (hk : k < log.length), Does (21 ∣ k) log[k] := by
  obtain ⟨s, log, hrun, hlen, hforked⟩ := ten_passes
  have hpath : (logged assignDefaults).Path Machine.free (start, []) (s, log) :=
    Machine.path_of_run _ (fun _ _ _ => trivial) hrun
  exact ⟨s, log, hrun, hlen, hforked,
    pass_schedule assignDefaults (by decide) start_initial rfl hpath⟩

end SimulazioneTransazioni.PassSchedule

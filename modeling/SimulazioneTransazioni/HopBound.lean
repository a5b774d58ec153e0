import SimulazioneTransazioni.ExhaustedHops
import SimulazioneTransazioni.HopBudget

/-!
What the budget says of the program. A transaction moves between nodes at most
SO_HOPS times and goes to the master with no hops left. But a hop that does not
happen is charged like one that does: the pool has its message back with one hop
less, so that the hops field counts the attempts and not the transfers.
-/
namespace SimulazioneTransazioni.HopBound

open Nodes Master Queues Network HopBudget

section Buffers

variable {par : Parameters} {s s' : World} {i : ℕ} {c : NodeCell} {o : NodeOutcome}

def BuffersNonneg (s : World) : Prop := ∀ c ∈ s.nodes, 0 ≤ c.proc.fetchedMex.hops

theorem hopped_buffer {o : HopOutcome} {p q : NodeProc} {e : HopEvent} (h : Hopped o p q e) :
    q.fetchedMex = p.fetchedMex := by
  cases h with
  | idle hempty => rfl
  | toMaster m rest errno hrem hhops => rfl
  | toFriend m rest errno queue hrem hhops hother hsend => rfl
  | kept m rest errno queue hrem hhops hback => rfl

theorem receiveFriend_buffer (of : FetchOutcome) (p : NodeProc) :
    (receiveFriend of p).fetchedMex = p.fetchedMex := by
  unfold receiveFriend
  split <;> rfl

theorem receiveTransaction_buffer (of : FetchOutcome) (p : NodeProc) :
    (receiveTransaction of p).1.fetchedMex = p.fetchedMex ∨
      of.rcvTrans = .delivered (receiveTransaction of p).1.fetchedMex := by
  unfold receiveTransaction receiveMessage
  cases of.rcvTrans with
  | delivered m =>
    dsimp only
    split
    next heq => exact Or.inr (congrArg MsgrcvResult.delivered (congrArg (fun r => r.2.2) heq))
    next heq => exact Or.inr (congrArg MsgrcvResult.delivered (congrArg (fun r => r.2.2) heq))
  | failed e =>
    dsimp only
    split
    next heq => exact Or.inl (congrArg (fun r => r.2.2) heq).symm
    next heq => exact Or.inl (congrArg (fun r => r.2.2) heq).symm

/-- A pass leaves the buffer as it is, or fills it with a message that was on the queue. -/
theorem fetch_buffer {received : FetchOutcome} {queues : List Queue} {p : NodeProc}
    {e : FetchEvent} {oh : HopOutcome}
    (hreceive : s.receive par o c.proc = some (received, queues))
    (hfetch : fetchMessages par received oh c.proc = .ok (p, e)) :
    p.fetchedMex = c.proc.fetchedMex ∨ p.fetchedMex ∈ messages s := by
  cases fetchMessages_fetched hfetch with
  | hopped q e' hfull hhop =>
    have hsame := hopped_buffer hhop
    exact Or.inl hsame
  | received hroom =>
    unfold World.receive at hreceive
    rw [if_pos hroom] at hreceive
    obtain ⟨⟨mex, queues₁⟩, hrcv, hpair⟩ := Option.map_eq_some_iff.mp hreceive
    simp only [Prod.mk.injEq] at hpair
    obtain ⟨rfl, -⟩ := hpair
    have hbuffer : ∀ (flag : Int32) (of : FetchOutcome) (p : NodeProc),
        ((receiveFriend of p).withFlag flag).fetchedMex = p.fetchedMex :=
      fun _ of p => receiveFriend_buffer of p
    rw [hbuffer]
    rcases receiveTransaction_buffer _ c.proc with hsame | hnew
    · exact Or.inl hsame
    · rcases waiting_rcvTrans (P := fun _ => True) hrcv with ⟨m, rfl, hwaiting⟩ | ⟨e, -, rfl, -⟩
      · refine Or.inr (Multiset.mem_add.mpr (Or.inl ?_))
        have hm : m = _ := MsgrcvResult.delivered.inj hnew
        rw [← hm, ← hwaiting, if_pos trivial]
        exact Multiset.mem_add.mpr (Or.inr (Multiset.mem_singleton_self m))
      · contradiction

/-- A node's step leaves its buffer as it is, or puts a message there that was on a queue. -/
theorem nodeStep_buffer (h : s.nodeStep par i o = some s') :
    ∃ c c', s.nodes[i]? = some c ∧ s'.nodes = s.nodes.set i c' ∧
      (c'.proc.fetchedMex = c.proc.fetchedMex ∨ c'.proc.fetchedMex ∈ messages s) := by
  obtain ⟨c, hc, hdid⟩ := nodeStep_did h
  refine ⟨c, ?_⟩
  cases hdid with
  | fetches received queues p e hpc hreceive hfetch =>
    exact ⟨c.goto .publish p, hc, rfl, fetch_buffer hreceive hfetch⟩
  | publishes nodesPID p hpc hsize =>
    refine ⟨c.goto .process p, hc, rfl, Or.inl ?_⟩
    rw [(publishSize_ok hsize).1]
    rfl
  | processes p e hpc hblock =>
    refine ⟨c.goto .fetch p, hc, rfl, Or.inl ?_⟩
    have hdone := processBlock_processed hblock
    generalize o.fork = outcome at hdone
    cases hdone with
    | tooFew fork hfew => rfl
    | forked pid batch pool hfill => rfl
    | forkFailed errno batch pool hfill => rfl
  | _ => exact ⟨_, hc, rfl, Or.inl rfl⟩

/-- No step brings a negative number of hops into a buffer. -/
theorem next_buffers {l : Label} (hmessages : ∀ m ∈ messages s, 0 ≤ m.hops)
    (hs : BuffersNonneg s) (h : World.next par s l = some s') : BuffersNonneg s' := by
  cases l with
  | user u a =>
    obtain ⟨p, p', result, -, rfl, -⟩ := userStep_cases h
    cases result <;> exact hs
  | node i o =>
    obtain ⟨c, c', hc, hnodes, hbuffer⟩ := nodeStep_buffer h
    intro d hd
    rw [hnodes] at hd
    rcases List.mem_or_eq_of_mem_set hd with hold | rfl
    · exact hs d hold
    · rcases hbuffer with hsame | hin
      · rw [hsame]
        exact hs c (List.mem_of_getElem? hc)
      · exact hmessages _ hin
  | child c reading =>
    obtain ⟨w, -, hrest⟩ := Option.bind_eq_some_iff.mp h
    obtain ⟨r, -, rfl⟩ := Option.map_eq_some_iff.mp hrest
    exact hs
  | listener o =>
    have hnew : ∀ nodePID, ∀ c ∈ s.newNodes nodePID, 0 ≤ c.proc.fetchedMex.hops := by
      intro nodePID c hc
      unfold World.newNodes at hc
      split at hc
      · exact absurd hc List.not_mem_nil
      · rw [List.mem_singleton.mp hc]
        exact Int32.le_refl 0
    intro d hd
    cases (listenerStep_cases h).2 with
    | took failure result hqueues hnodes => exact hs d (hnodes ▸ hd)
    | spawned nodePID hfork hqueues hnodes =>
      rw [hnodes] at hd
      rcases List.mem_append.mp hd with hold | hone
      · exact hs d hold
      · exact hnew nodePID d hone
    | befriended queue friend hqueues hnodes => exact hs d (hnodes ▸ hd)
    | idle hqueues hnodes => exact hs d (hnodes ▸ hd)

theorem initial_buffers (h : Initial par s) : BuffersNonneg s := by
  intro c hc
  rw [(h.nodes c hc).1]
  exact Int32.le_refl 0

end Buffers

section Bound

variable {par : Parameters} {s : World} {log : List HopEvent}

theorem messages_nonneg {full : ℤ} (h : Budget.Sound full (budget s log)) :
    ∀ m ∈ messages s, 0 ≤ m.hops := by
  intro m hm
  have hshown := (h.balanced _ (Multiset.mem_map_of_mem shown hm)).1
  exact Int32.le_iff_toInt_le.mpr hshown

theorem logged_buffers (hfits : par.soHops.toNat < 2 ^ 31)
    (h : (loggedMachine par).Reach (fun r l => Received r.1 l) (s, log)) : BuffersNonneg s := by
  have hfull := MachineInt.toInt_intOfUnsigned par.soHops hfits
  have hboth := h.invariant
    (I := fun r => Budget.Sound par.soHops.toNat (budget r.1 r.2) ∧ BuffersNonneg r.1) ?_ ?_
  · exact hboth.2
  · rintro ⟨s, log⟩ hstart
    exact ⟨logged_sound hfits (Machine.Reach.of_start hstart), initial_buffers hstart.1⟩
  · rintro ⟨s, log⟩ l r' ⟨hsound, hbuffers⟩ hC hn
    obtain ⟨s', hs', rfl⟩ := Option.map_eq_some_iff.mp hn
    exact ⟨hsound.step (Int.natCast_nonneg _) (next_budget hfull hsound hC hs'),
      next_buffers (messages_nonneg hsound) hbuffers hs'⟩

theorem hopOf_hopped {i : ℕ} {o : NodeOutcome} {e : HopEvent}
    (h : hopOf par s (.node i o) = some e) :
    ∃ c q, s.nodes[i]? = some c ∧ Hopped (s.hopOutcome c o) c.proc q e := by
  obtain ⟨c, hc, hrest⟩ := Option.bind_eq_some_iff.mp h
  split at hrest
  · obtain ⟨f, hfetched, hevent⟩ := Option.bind_eq_some_iff.mp hrest
    obtain ⟨⟨received, queues⟩, -, hfetch⟩ := Option.bind_eq_some_iff.mp hfetched
    dsimp only at hfetch
    split at hfetch
    · contradiction
    next p f' hpass =>
      rw [← Option.some.inj hfetch] at hevent
      cases fetchMessages_fetched hpass with
      | received hroom => contradiction
      | hopped q e' hfull hhop =>
        rw [← Option.some.inj hevent]
        exact ⟨c, q, hc, hhop⟩
  · contradiction

end Bound

section Moves

open Confirmation ExhaustedHops

def hopping : Parameters := { small with soHops := 1 }

theorem launch_hopping : Initial hopping launch :=
  ⟨launch_initial.keys, launch_initial.fresh, launch_initial.nodes, launch_initial.users,
    launch_initial.parent, launch_initial.trans, launch_initial.ledger, launch_initial.children,
    launch_initial.listener, launch_initial.sent⟩

def actFull : Label := .node 0 ⟨none, none, some .EAGAIN, 0, .parent 50⟩

theorem received_of_quiet {l : Label} (h : Quiet l) (s : World) : Received s l := by
  have hreported := reported_of_quiet h s
  cases l with
  | user u a => trivial
  | node i o => exact hreported.1
  | child c reading => trivial
  | listener o => trivial

/-- A hop after a run in which no call fails. -/
theorem logged_hop {s s₁ : World} {labels : List Label} {l : Label} {e : HopEvent}
    (hquiet : ∀ l ∈ labels, Quiet l) (hrun : (machine hopping).run launch labels = some s)
    (hl : Received s l) (hhop : hopOf hopping s l = some e)
    (hn : World.next hopping s l = some s₁) :
    ∃ log, (loggedMachine hopping).Reach (fun r l => Received r.1 l) (s₁, log ++ [e]) := by
  have hs : (machine hopping).Reach Received s :=
    Machine.reach_of_run labels launch_hopping
      (fun s l hl => received_of_quiet (hquiet l hl) s) hrun
  obtain ⟨log, hlog⟩ : ∃ log, (loggedMachine hopping).Reach (fun r l => Received r.1 l) (s, log) :=
    Machine.exists_recorded hs
  refine ⟨log, hlog.next hl (Option.map_eq_some_iff.mpr ⟨s₁, hn, ?_⟩)⟩
  simp only [hhop, Option.toList_some]

theorem hopped_run : ∃ s s₁,
    (machine hopping).run launch (boot ++ payments 20) = some s ∧
      hopOf hopping s act = some (.toFriend 41 ⟨0, payment 18⟩ true) ∧
      World.next hopping s act = some s₁ :=
  ⟨_, _, rfl, rfl, rfl⟩

theorem refused_run : ∃ s s₁ c,
    (machine hopping).run launch (boot ++ payments 20) = some s ∧
      hopOf hopping s actFull = some (.kept ⟨0, payment 18⟩) ∧
      World.next hopping s actFull = some s₁ ∧ s₁.nodes[0]? = some c ∧
      c.proc.transPool.cells = [⟨1, payment 19⟩, ⟨0, payment 18⟩] :=
  ⟨_, _, _, rfl, rfl, rfl, rfl, rfl⟩

theorem received_refused (s : World) : Received s actFull := by
  intro e he
  contradiction

/-- In every run: a transaction moves between nodes at most SO_HOPS times, no
message has a negative number of hops, and one that a node sends to the master
is the head of its pool and has no hops left. -/
theorem hops_bound_transfers (par : Parameters) (hfits : par.soHops.toNat < 2 ^ 31) {s : World}
    {log : List HopEvent}
    (h : (loggedMachine par).Reach (fun r l => Received r.1 l) (s, log)) :
    (∀ t, transfers t log ≤ par.soHops.toNat) ∧ (∀ m ∈ messages s, 0 ≤ m.hops) ∧
      BuffersNonneg s ∧
      ∀ i o queue m sent, hopOf par s (.node i o) = some (.toMaster queue m sent) →
        m.hops = 0 ∧ ∃ c rest, s.nodes[i]? = some c ∧
          removeFromPool c.proc.transPool = some (m, rest) := by
  have hsound := logged_sound hfits h
  refine ⟨?_, messages_nonneg hsound, logged_buffers hfits h, ?_⟩
  · intro t
    have hle := hsound.le t
    simp only [budget, attempts] at hle
    omega
  · intro i o queue m sent hhop
    obtain ⟨c, q, hc, hhopped⟩ := hopOf_hopped hhop
    refine ⟨?_, c, ?_⟩
    · cases hhopped
      rfl
    · generalize hevent : HopEvent.toMaster queue m sent = e at hhopped
      cases hhopped with
      | idle hempty => contradiction
      | toFriend m rest errno queue hrem hhops hother hsend => contradiction
      | kept m rest errno queue hrem hhops hback => contradiction
      | toMaster m₀ rest errno hrem hhops =>
        have hin : m₀ ∈ messages s := by
          apply mem_messages_of_cells (List.mem_of_getElem? hc)
          rw [removeFromPool_eq_some hrem]
          exact List.mem_cons_self
        have hzero : m₀.hops = 0 := Int32.le_antisymm hhops (messages_nonneg hsound m₀ hin)
        have hm : m = m₀ := by
          rw [(HopEvent.toMaster.inj hevent).2.1, ← hzero]
        exact ⟨rest, hc, hm ▸ hrem⟩

/-- The nineteenth payment of user 7 moves to node 41, and its one hop is used up. -/
theorem hops_bound_transfers_friend : ∃ s log,
    (loggedMachine hopping).Reach (fun r l => Received r.1 l) (s, log) ∧
      hopping.soHops.toNat = 1 ∧ transfers (payment 18) log = 1 := by
  obtain ⟨s, s₁, hrun, hhop, hn⟩ := hopped_run
  obtain ⟨log, hlog⟩ := logged_hop (by decide) hrun (received_of_quiet (by decide) s) hhop hn
  refine ⟨s₁, _, hlog, rfl, ?_⟩
  have hle := (hops_bound_transfers hopping (by decide) hlog).1 (payment 18)
  have hmoved : transfers (payment 18) (log ++ [.toFriend 41 ⟨0, payment 18⟩ true]) =
      transfers (payment 18) log + 1 := by
    rw [transfers, List.countP_append]
    rfl
  have hfull : hopping.soHops.toNat = 1 := rfl
  omega

end Moves

section Overflow

variable {par : Parameters} {s s' : World} {i : ℕ} {c : NodeCell} {o : NodeOutcome}
  {q : NodeProc} {e : HopEvent} {log : List HopEvent}

structure Exhausted (s : World) (log : List HopEvent) : Prop where
  noHops : ∀ m ∈ messages s, m.hops ≤ 0
  noTransfers : ∀ t, transfers t log = 0

theorem transfers_append (t : Transaction) (log log' : List HopEvent) :
    transfers t (log ++ log') = transfers t log + transfers t log' :=
  List.countP_append

/-- A hop of a message that has no hops left goes to the master. -/
theorem Exhausted.hopped (hs : Exhausted s log) (h : HopStep s s' i c o q e) :
    Exhausted s' (log ++ [e]) := by
  have hpooled : ∀ {m rest}, removeFromPool c.proc.transPool = some (m, rest) →
      m ∈ messages s := by
    intro m rest hrem
    apply mem_messages_of_cells (List.mem_of_getElem? h.node)
    rw [removeFromPool_eq_some hrem]
    exact List.mem_cons_self
  have hstays : moved e = none → ∀ t, transfers t (log ++ [e]) = 0 := by
    intro hmoved t
    rw [transfers_append, hs.noTransfers t, transfers, List.countP_singleton, hmoved]
    rfl
  have hhop := h.hop
  cases hhop with
  | idle hempty =>
    have hle : messages s' + 0 ≤ messages s + 0 := h.messages_le le_rfl
    exact ⟨fun m hm => hs.noHops m (Multiset.mem_of_le (by simpa using hle) hm), hstays rfl⟩
  | toMaster m rest errno hrem hhops =>
    have hsent := waiting_sent s.queues
      ((s.hopOutcome c o).msgget (s.hopOutcome c o).getppid).queue { m with hops := 0 }
    have hle : messages s' + {m} ≤ messages s + {{ m with hops := 0 }} := by
      refine h.took hrem ?_
      cases decide ((s.hopOutcome c o).msgsnd
          ((s.hopOutcome c o).msgget (s.hopOutcome c o).getppid).queue = .sent) with
      | false => exact Multiset.le_add_right _ _
      | true => exact hsent
    refine ⟨fun m' hm' => ?_, hstays rfl⟩
    rcases Multiset.mem_add.mp (Multiset.mem_of_le ((Multiset.le_add_right _ _).trans hle) hm')
      with hold | hnew
    · exact hs.noHops m' hold
    · rw [Multiset.mem_singleton.mp hnew]
      exact Int32.le_refl 0
  | toFriend m rest errno queue hrem hhops hother hsend =>
    exact absurd hhops (Int32.not_lt.mpr (hs.noHops m (hpooled hrem)))
  | kept m rest errno queue hrem hhops hback =>
    exact absurd hhops (Int32.not_lt.mpr (hs.noHops m (hpooled hrem)))

/-- SO_HOPS as an int, when it does not fit in one. -/
theorem intOfUnsigned_nonpos {u : UInt32} (hwide : 2 ^ 31 ≤ u.toNat) :
    MachineInt.intOfUnsigned u ≤ 0 := by
  have hlt := u.toNat_lt
  have hint : (MachineInt.intOfUnsigned u).toInt = Int.bmod u.toNat (2 ^ 32) := Int32.toInt_ofInt
  rw [Int32.le_iff_toInt_le, Int32.toInt_zero, hint, Int.bmod_def]
  split <;> omega

/-- Where SO_HOPS does not fit in an int, a step keeps every message without hops. -/
theorem next_exhausted {l : Label} (hwide : 2 ^ 31 ≤ par.soHops.toNat) (hs : Exhausted s log)
    (hC : Received s l) (h : World.next par s l = some s') :
    Exhausted s' (log ++ (hopOf par s l).toList) := by
  have hquiet : messages s' ≤ messages s → Exhausted s' (log ++ []) := fun hle =>
    ⟨fun m hm => hs.noHops m (Multiset.mem_of_le hle hm), by simpa using hs.noTransfers⟩
  cases l with
  | user u a =>
    obtain ⟨p, p', result, -, rfl, -, -, -, hhops, -⟩ := userStep_cases h
    cases result with
    | failed e => exact hquiet le_rfl
    | sent =>
      refine ⟨fun m hm => ?_, by simpa [hopOf] using hs.noTransfers⟩
      rcases Multiset.mem_add.mp (Multiset.mem_of_le (sentBy_messages u p') hm) with hold | hnew
      · exact hs.noHops m hold
      · rw [Multiset.mem_singleton.mp hnew, hhops]
        exact intOfUnsigned_nonpos hwide
  | node i o =>
    rcases nodeStep_messages hC h with ⟨hnone, hle⟩ | ⟨c, q, e, hsome, hstep⟩
    · rw [hnone]
      exact hquiet hle
    · rw [hsome]
      exact hs.hopped hstep
  | child c reading =>
    obtain ⟨w, -, hrest⟩ := Option.bind_eq_some_iff.mp h
    obtain ⟨r, -, rfl⟩ := Option.map_eq_some_iff.mp hrest
    exact hquiet le_rfl
  | listener o => exact hquiet (listenerStep_messages h)

/-- Where SO_HOPS does not fit in an int, no message ever has hops left. -/
theorem logged_exhausted (hwide : 2 ^ 31 ≤ par.soHops.toNat)
    (h : (loggedMachine par).Reach (fun r l => Received r.1 l) (s, log)) : Exhausted s log := by
  have hboth := Machine.recorded_invariant (r := (s, log))
    (I := fun r => Exhausted r.1 r.2) h ?_ ?_
  · exact hboth.2
  · intro s hs
    refine ⟨?_, fun t => rfl⟩
    simp only [initial_messages hs]
    exact fun m hm => absurd hm (Multiset.notMem_zero m)
  · intro s log l s' _ hI hC hn
    exact next_exhausted hwide hI hC hn

end Overflow

section Refused

def Refused (o : HopOutcome) (p : NodeProc) (friend : PidT) : Prop :=
  (o.msgget friend).queue = p.queueID ∨ o.msgsnd (o.msgget friend).queue ≠ .sent

/-- The same messages with the same hops, the ones behind the head in their old
order, and the same size. -/
structure AsItWas (before after : Pool) : Prop where
  messages : (after.cells : Multiset Message) = before.cells
  others : before.cells.tail.Sublist after.cells
  size : after.size = before.size

variable {par : Parameters} {o : HopOutcome} {p p' : NodeProc} {m : Message} {rest : Pool}
  {friend : PidT} {e : HopEvent}

theorem hops_less_ne (m : Message) : { m with hops := m.hops - 1 } ≠ m := by
  intro heq
  have hhops : m.hops - 1 = m.hops := congrArg Message.hops heq
  have hbits := congrArg Int32.toBitVec hhops
  rw [Int32.toBitVec_sub, Int32.toBitVec_one] at hbits
  bv_omega

/-- A call that takes a message with hops left puts it back behind the others with
one hop less, or does not put it back. -/
theorem taken_cases (hrem : removeFromPool p.transPool = some (m, rest)) (hhops : 0 < m.hops)
    (hfriend : drawnFriend par o p = some friend)
    (h : sendToRandomFriend par o p = .ok (p', e)) :
    p'.transPool = (addToPool rest.shrink { m with hops := m.hops - 1 }).grow ∨
      p'.transPool = rest.shrink := by
  obtain ⟨i, hi, hfound⟩ := Option.bind_eq_some_iff.mp hfriend
  unfold sendToRandomFriend at h
  rw [hrem] at h
  simp only [hop, hi, if_neg (Int32.not_le.mpr hhops), NodeProc.withPool, hfound] at h
  split at h
  · contradiction
  · simp only [hopToFriend, Except.ok.injEq] at h
    split at h
    next hself =>
      cases h
      exact Or.inl rfl
    next hother =>
      unfold sendHop at h
      split at h
      · cases h
        exact Or.inr rfl
      · cases h
        exact Or.inl rfl

theorem not_asItWas (hrem : removeFromPool p.transPool = some (m, rest)) (hhops : 0 < m.hops)
    (hfriend : drawnFriend par o p = some friend)
    (h : sendToRandomFriend par o p = .ok (p', e)) : ¬ AsItWas p.transPool p'.transPool := by
  intro hsame
  have hmessages := hsame.messages
  have hcells := removeFromPool_eq_some hrem
  rcases taken_cases hrem hhops hfriend h with hback | hgone
  · rw [hback, hcells, ← Multiset.cons_coe, Pool.grow_cells, addToPool_cells, Pool.shrink_cells,
      ← Multiset.coe_add, add_comm, Multiset.coe_singleton, Multiset.singleton_add] at hmessages
    exact hops_less_ne m ((Multiset.cons_inj_left _).mp hmessages)
  · rw [hgone, hcells] at hmessages
    have hcard := congrArg Multiset.card hmessages
    simp at hcard

open Confirmation ExhaustedHops

def selfish (hops : Int32) : NodeProc :=
  ⟨40, 40, .zero, 20, 0, ⟨0, .zero⟩, [40], 1, ⟨[⟨hops, payment 1⟩], 1⟩⟩

def quietHop : HopOutcome := ⟨0, 30, fun key => .found key, fun _ => .sent⟩

/-- The transaction has three hops before and two after, and was at node 40 all the time. -/
theorem self_hop_charged :
    ¬ ∀ (o : HopOutcome) (p p' : NodeProc) (m : Message) (rest : Pool) (friend : PidT)
        (e : HopEvent), removeFromPool p.transPool = some (m, rest) → 0 < m.hops →
      drawnFriend hopping o p = some friend → Refused o p friend →
      sendToRandomFriend hopping o p = .ok (p', e) → AsItWas p.transPool p'.transPool := by
  intro hclaim
  have hsame := hclaim quietHop (selfish 3) (selfish 2) ⟨3, payment 1⟩ ⟨[], 1⟩ 40
    (.kept ⟨2, payment 1⟩) rfl (by decide) rfl (Or.inl rfl) rfl
  have hcells : [(⟨2, payment 1⟩ : Message)] = [⟨3, payment 1⟩] :=
    Multiset.coe_eq_singleton.mp hsame.messages
  exact absurd hcells (by decide)

/-- A hop that does not happen never leaves the pool as it was. So in every run
the hops of a message are SO_HOPS less the transfers of its transaction if and
only if SO_HOPS fits in an int and no hop of the transaction was refused. -/
theorem refused_hop_charged (par : Parameters) :
    (∀ (o : HopOutcome) (p p' : NodeProc) (m : Message) (rest : Pool) (friend : PidT)
        (e : HopEvent), removeFromPool p.transPool = some (m, rest) → 0 < m.hops →
      drawnFriend par o p = some friend → Refused o p friend →
      sendToRandomFriend par o p = .ok (p', e) → ¬ AsItWas p.transPool p'.transPool) ∧
      ∀ (s : World) (log : List HopEvent),
        (loggedMachine par).Reach (fun r l => Received r.1 l) (s, log) →
        ∀ m ∈ messages s, m.hops.toInt = par.soHops.toNat - transfers (token m) log ↔
          par.soHops.toNat < 2 ^ 31 ∧ failures (token m) log = 0 := by
  constructor
  · intro o p p' m rest friend e hrem hhops hfriend _ h
    exact not_asItWas hrem hhops hfriend h
  · intro s log h m hm
    rcases lt_or_ge par.soHops.toNat (2 ^ 31) with hfits | hwide
    · have hsound := logged_sound hfits h
      have hshown := (hsound.balanced _ (Multiset.mem_map_of_mem shown hm)).2
      simp only [shown, budget, attempts] at hshown
      push_cast at hshown
      omega
    -- SO_HOPS starts below zero and only a message for the master is set to 0
    · have hexhausted := logged_exhausted hwide h
      have hnone := hexhausted.noTransfers (token m)
      have hle := Int32.le_iff_toInt_le.mp (hexhausted.noHops m hm)
      rw [Int32.toInt_zero] at hle
      omega

/-- Node 40 draws itself; and on the run in which the queue of node 41 is full, its
pool has the nineteenth payment with no hops left, which has not moved. -/
theorem refused_hop_charged_full :
    ¬ AsItWas (selfish 3).transPool (selfish 2).transPool ∧
      ∃ s log, ⟨0, payment 18⟩ ∈ messages s ∧ failures (payment 18) log ≠ 0 ∧
        0 ≠ hopping.soHops.toNat - (transfers (payment 18) log : ℤ) := by
  constructor
  · exact (refused_hop_charged hopping).1 quietHop (selfish 3) (selfish 2) ⟨3, payment 1⟩
      ⟨[], 1⟩ 40 (.kept ⟨2, payment 1⟩) rfl (by decide) rfl (Or.inl rfl) rfl
  · obtain ⟨s, s₁, c, hrun, hhop, hn, hc, hcells⟩ := refused_run
    obtain ⟨log, hlog⟩ := logged_hop (by decide) hrun (received_refused s) hhop hn
    have hin : ⟨0, payment 18⟩ ∈ messages s₁ := by
      apply mem_messages_of_cells (List.mem_of_getElem? hc)
      rw [hcells]
      exact List.mem_cons_of_mem _ List.mem_cons_self
    have hiff := (refused_hop_charged hopping).2 s₁ _ hlog _ hin
    have hfailed : failures (payment 18) (log ++ [.kept ⟨0, payment 18⟩]) ≠ 0 := by
      rw [failures, List.countP_append]
      exact Nat.succ_ne_zero _
    refine ⟨s₁, _, hin, hfailed, ?_⟩
    intro heq
    exact hfailed (hiff.mp heq).2

end Refused

end SimulazioneTransazioni.HopBound

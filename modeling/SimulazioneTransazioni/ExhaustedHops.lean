import SimulazioneTransazioni.Confirmation

/-!
What becomes of a transaction whose hops run out. The node sends it to the queue
of its parent. The parent of an initial node is the master, whose queue the
listener reads, and the listener forwards no message. The parent of an extra
node is the listener, which has no queue, so that the message is discarded. In
both cases no node has the transaction again.
-/
namespace SimulazioneTransazioni.ExhaustedHops

open Nodes Master Queues Network NetworkTokens NetworkWiring Confirmation

structure Exhausted (par : Parameters) (s : World) (i : ℕ) (c : NodeCell) (m : Message) :
    Prop where
  node : s.nodes[i]? = some c
  turn : c.pc = .fetch
  hops : ¬ Receives par c.proc
  head : ∃ rest, removeFromPool c.proc.transPool = some (m, rest)
  spent : m.hops ≤ 0

def AtNode (s : World) (t : Transaction) : Prop :=
  ∃ c ∈ s.nodes, t ∈ holding c ∨ ∃ q ∈ s.queues, q.key = c.proc.myPID ∧ t ∈ queued q

def AtMaster (s : World) (t : Transaction) : Prop :=
  ∃ q ∈ s.queues, q.key = s.master ∧ t ∈ queued q

variable {par : Parameters} {s s₁ s₂ : World} {i : ℕ} {c : NodeCell} {m : Message}
  {o : NodeOutcome}

/-- A message that a node sends to its parent arrives at the master only. -/
theorem sent_to_master (hs : Wired s) (hc : c ∈ s.nodes)
    (h : msgsnd s.queues o.sndFailure (msgget s.queues (s.getppid c)).queue = .sent) :
    (msgget s.queues (s.getppid c)).queue = s.master ∧ c.ppid = s.master := by
  have hkey : (msgget s.queues (s.getppid c)).queue ∈ s.queues.map Queue.key := by
    unfold msgsnd at h
    split at h
    · contradiction
    · split at h
      next hin => exact hin
      next => contradiction
  obtain ⟨hpos, hlistener, hadopter⟩ := hs.keys _ hkey
  unfold msgget at hpos hlistener hadopter ⊢
  split at hpos
  next hin =>
    rw [if_pos hin] at hlistener hadopter ⊢
    have hparent : s.getppid c ≠ s.listenerPID ∧ s.getppid c ≠ s.adopter := ⟨hlistener, hadopter⟩
    show s.getppid c = s.master ∧ c.ppid = s.master
    unfold World.getppid at hparent ⊢
    split at hparent
    · exact absurd rfl hparent.2
    next horphan =>
      rw [if_neg horphan]
      rcases (hs.nodes c hc).parent with hmaster | hlisten
      · exact ⟨hmaster, hmaster⟩
      · exact absurd hlisten hparent.1
  next => exact absurd hpos (by decide)

/-- What the pass does. -/
theorem exhausted_cases (hx : Exhausted par s i c m)
    (hn : World.next par s (.node i o) = some s₁) :
    ∃ p queue sent, s.receive par o c.proc =
        some (⟨.failed .ENOMSG, .failed .ENOMSG⟩, s.queues) ∧
      fetchMessages par ⟨.failed .ENOMSG, .failed .ENOMSG⟩ (s.hopOutcome c o) c.proc =
        .ok (p, .hopped (.toMaster queue { m with hops := 0 } sent)) ∧
      s₁ = (s.withQueues (World.deliver s.queues
        (.hopped (.toMaster queue { m with hops := 0 } sent)))).setNode i (c.goto .publish p) ∧
      queue = (msgget s.queues (s.getppid c)).queue ∧
      (sent = true → msgsnd s.queues o.sndFailure queue = .sent) := by
  obtain ⟨c', hc', hdid⟩ := nodeStep_did hn
  rw [hx.node, Option.some.injEq] at hc'
  rw [← hc'] at hdid
  have hreceive : s.receive par o c.proc =
      some (⟨.failed .ENOMSG, .failed .ENOMSG⟩, s.queues) := if_neg hx.hops
  obtain ⟨fetched, queues, p, e, hrec, hfetch, rfl⟩ := hdid.of_fetch hx.turn
  rw [hreceive, Option.some.injEq, Prod.mk.injEq] at hrec
  obtain ⟨rfl, rfl⟩ := hrec
  have hpass := hfetch
  unfold fetchMessages at hpass
  rw [if_neg hx.hops]
    at hpass
  obtain ⟨rest, hhead⟩ := hx.head
  have hsend : sendToRandomFriend par (s.hopOutcome c o) c.proc =
      hop par (s.hopOutcome c o) (c.proc.withPool rest.shrink) m := by
    unfold sendToRandomFriend
    rw [hhead]
  rw [hsend] at hpass
  unfold hop at hpass
  split at hpass
  · contradiction
  · rw [if_pos hx.spent] at hpass
    have hevent : FetchEvent.hopped (hopToMaster (s.hopOutcome c o)
        (c.proc.withPool rest.shrink) m).2 = e := congrArg Prod.snd (Except.ok.inj hpass)
    rw [← hevent] at hfetch ⊢
    exact ⟨p, _, _, hreceive, hfetch, rfl, rfl, of_decide_eq_true⟩

/-- The transaction leaves the places other than the master's queue, and it is
not there either when the node is an extra one. -/
theorem exhausted_custody (hs : Wired s) (hx : Exhausted par s i c m)
    (hC : Reported s (.node i o)) (hn : World.next par s (.node i o) = some s₁) :
    (custody s.master s₁).free + {token m} ≤ (custody s.master s).free ∧
      (c.ppid ≠ s.master → (custody s.master s₁).held + {token m} ≤
        (custody s.master s).held) := by
  obtain ⟨p, queue, sent, hreceive, hfetch, rfl, hqueue, hsent⟩ := exhausted_cases hx hn
  have hmem := List.mem_of_getElem? hx.node
  have hwired := hs.nodes c hmem
  have hparent : sent = true → queue = s.master ∧ c.ppid = s.master := by
    intro htrue
    have hmsgsnd := hsent htrue
    rw [hqueue] at hmsgsnd ⊢
    exact sent_to_master hs hmem hmsgsnd
  have hlost : ∀ (P : PidT → Prop) [DecidablePred P], P c.proc.queueID →
      (sent = true → ¬ P queue) →
      account P ((s.withQueues (World.deliver s.queues
        (.hopped (.toMaster queue { m with hops := 0 } sent)))).setNode i (c.goto .publish p)) +
          {token m} ≤ account P s := by
    intro P _ hP hnot
    refine fetch_account hx.node hP hC.1 hreceive hfetch ?_
    refine add_le_add ?_ le_rfl
    cases sent with
    | false => exact le_rfl
    | true =>
      have hpush := held_pushTrans_le (P := P) s.queues queue { m with hops := 0 }
      rw [if_neg (hnot rfl), add_zero] at hpush
      exact hpush
  refine ⟨hlost _ ?_ ?_, ?_⟩
  · rw [hwired.queue (by simp [hx.turn, Attached])]
    exact hwired.notMaster
  · intro htrue
    exact not_not.mpr (hparent htrue).1
  · intro hextra
    rw [custody_held, custody_held]
    exact hlost _ trivial fun htrue => absurd (hparent htrue).2 hextra

theorem path_later (hs : Wired s) (h : (machine par).Path Reported s s₂) :
    s₂.master = s.master ∧ Custody.Later (custody s.master s) (custody s.master s₂) := by
  refine Machine.Path.related (I := Wired) h (fun _ _ _ hw _ hn => next_wired hw hn)
    (R := fun s s₂ => s₂.master = s.master ∧
      Custody.Later (custody s.master s) (custody s.master s₂))
    (fun _ => ⟨rfl, .refl⟩) ?_ ?_ hs
  · rintro s s₁ s₂ ⟨hm, hl⟩ ⟨hm', hl'⟩
    rw [hm] at hl' hm'
    exact ⟨hm', hl.trans hl'⟩
  · intro s l s' hw hC hn
    exact ⟨(next_same hn).master, .single (next_custody hw hC hn)⟩

theorem mem_free_of_atNode (hs : Wired s) {t : Transaction} (h : AtNode s t) :
    t ∈ (custody s.master s).free := by
  obtain ⟨c, hc, hpool | ⟨q, hq, hkey, hqueue⟩⟩ := h
  · exact mem_account_of_holding hc hpool
  · refine mem_account_of_queued hq ?_ hqueue
    rw [hkey]
    exact (hs.nodes c hc).notMaster

theorem mem_held_of_atMaster {t : Transaction} (h : AtMaster s t) :
    t ∈ (custody s.master s).held := by
  obtain ⟨q, hq, -, hqueue⟩ := h
  rw [custody_held]
  exact mem_account_of_queued hq trivial hqueue

/-- A transaction with no hops left is never again in the pool or on the queue of
a node, and it does not reach the master when an extra node sends it. -/
theorem exhausted_never_rescued (par : Parameters) {s s₁ s₂ : World} {i : ℕ} {c : NodeCell}
    {m : Message} {o : NodeOutcome} (hs : (machine par).Reach Reported s)
    (hx : Exhausted par s i c m) (hC : Reported s (.node i o))
    (hn : World.next par s (.node i o) = some s₁)
    (hp : (machine par).Path Reported s₁ s₂) :
    ¬ AtNode s₂ (token m) ∧ (c.ppid ≠ s.master → ¬ AtMaster s₂ (token m)) := by
  obtain ⟨hwired, hsound⟩ := reach_sound hs
  have hwired₁ := next_wired hwired hn
  have hwired₂ := hp.preserves (fun _ _ _ hw _ hn => next_wired hw hn) hwired₁
  have hstep := next_custody hwired hC hn
  obtain ⟨hmaster₂, hlater⟩ := path_later hwired₁ hp
  rw [(next_same hn).master] at hlater hmaster₂
  obtain ⟨hfree, hheld⟩ := exhausted_custody hwired hx hC hn
  have hin : token m ∈ (custody s.master s).free :=
    Multiset.mem_of_le hfree (Multiset.mem_add.mpr (Or.inr (Multiset.mem_singleton_self _)))
  have hissued : token m ∈ (custody s.master s).issued :=
    Multiset.mem_coe.mp (Multiset.mem_of_le hsound.held_le
      (Multiset.mem_of_le (Custody.State.free_le_held _) hin))
  obtain ⟨hissued₁, -, -⟩ := hstep.gone hissued
  obtain ⟨-, hfree₂, hheld₂⟩ := hlater.gone hissued₁
  refine ⟨fun hnode => ?_, fun hextra hqueue => ?_⟩
  · have hgone := hfree₂ (hsound.not_mem_of_left (Custody.State.free_le_held _) hfree)
    rw [← hmaster₂] at hgone
    exact hgone (mem_free_of_atNode hwired₂ hnode)
  · have hgone := hheld₂ (hsound.not_mem_of_left le_rfl (hheld hextra))
    rw [← hmaster₂] at hgone
    exact hgone (mem_held_of_atMaster hqueue)

section Example

def payments (n : ℕ) : List Label := (List.range n).flatMap fun k => [pay k, act, act, act]

def listen : Label := .listener ⟨none, none, fun _ => 0, .parent 60⟩

def actNew : Label := .node 2 ⟨none, none, none, 0, .parent 61⟩

def handling : List Label := [listen, listen, actNew] ++ List.replicate 7 listen

def payment (n : ℕ) : Transaction := ⟨⟨1, Int64.ofNat n⟩, 7, 8, 99, 1, .pending⟩

theorem exhausted_run : ∃ s s₁ s₂ c m rest,
    (machine small).run launch (boot ++ payments 20) = some s ∧
      World.next small s act = some s₁ ∧ (machine small).run s₁ handling = some s₂ ∧
      s.nodes[0]? = some c ∧ c.ppid = s.master ∧ c.pc = .fetch ∧ c.proc.flag = 20 ∧
      removeFromPool c.proc.transPool = some (m, rest) ∧ m = ⟨0, payment 18⟩ ∧
      s₁.queues[0]? = some ⟨s₁.master, [⟨0, payment 18⟩], []⟩ ∧
      s₂.listener.pc = .receive ∧ s₂.nodes.map (NodeCell.proc · |>.myPID) = [40, 41, 60] ∧
      s₂.nodes.map holding = [{payment 19}, 0, 0] ∧ s₂.queues.map queued = [0, 0, 0, 0] :=
  ⟨_, _, _, _, _, _, rfl, rfl, rfl, rfl, rfl, rfl, rfl, rfl, rfl, rfl, rfl, rfl, rfl, rfl⟩

theorem exhausted_of_run {s : World} {c : NodeCell} {m : Message} {rest : Pool}
    (hnode : s.nodes[0]? = some c) (hpc : c.pc = .fetch) (hflag : c.proc.flag = 20)
    (hhead : removeFromPool c.proc.transPool = some (m, rest)) (hm : m.hops = 0) :
    Exhausted small s 0 c m := by
  refine ⟨hnode, hpc, ?_, ⟨rest, hhead⟩, ?_⟩
  · intro hreceives
    have hlt := hreceives.2
    rw [hflag] at hlt
    exact absurd hlt (by decide)
  · rw [hm]
    decide

theorem reported_run {s s' : World} {labels : List Label} (hquiet : ∀ l ∈ labels, Quiet l)
    (h : (machine small).run s labels = some s') : (machine small).Path Reported s s' :=
  Machine.path_of_run labels (fun s l hl => reported_of_quiet (hquiet l hl) s) h

/-- The nineteenth payment of user 7 reaches node 40 with no hops left, and the
master's queue from there. The listener spawns node 60 for it, and then the
payment is on no queue and in no pool. -/
theorem hopped_out_lost : ∃ s s₁ s₂ c m,
    (machine small).Reach Reported s ∧ Exhausted small s 0 c m ∧ c.ppid = s.master ∧
      World.next small s act = some s₁ ∧ AtMaster s₁ (token m) ∧
      (machine small).Path Reported s₁ s₂ ∧ s₂.listener.pc = .receive ∧
      60 ∈ s₂.nodes.map (NodeCell.proc · |>.myPID) ∧
      ¬ AtMaster s₂ (token m) ∧ ¬ AtNode s₂ (token m) := by
  obtain ⟨s, s₁, s₂, c, m, rest, hrun, hn, hhandled, hnode, hparent, hpc, hflag, hhead, rfl,
    hqueue, hlistener, hnodes, hpools, hqueues⟩ := exhausted_run
  have hnone : ∀ q ∈ s₂.queues, token ⟨0, payment 18⟩ ∉ queued q := by
    intro q hq
    have hin := List.mem_map_of_mem (f := queued) hq
    rw [hqueues] at hin
    exact (by decide : ∀ p ∈ ([0, 0, 0, 0] : List (Multiset Transaction)),
      token ⟨0, payment 18⟩ ∉ p) _ hin
  have hs : (machine small).Reach Reported s :=
    ⟨launch, launch_initial, reported_run (by decide) hrun⟩
  have hexhausted := exhausted_of_run hnode hpc hflag hhead rfl
  have hpath := reported_run (by decide) hhandled
  refine ⟨s, s₁, s₂, c, _, hs, hexhausted, hparent, hn, ?_, hpath, hlistener, ?_, ?_, ?_⟩
  · exact ⟨_, List.mem_of_getElem? hqueue, rfl, Multiset.mem_singleton_self _⟩
  · rw [hnodes]
    decide
  · rintro ⟨q, hq, -, hin⟩
    exact hnone q hq hin
  · rintro ⟨c', hc', hin | ⟨q, hq, -, hin⟩⟩
    · have hpool := List.mem_map_of_mem (f := holding) hc'
      rw [hpools] at hpool
      exact (by decide : ∀ p ∈ ([{payment 19}, 0, 0] : List (Multiset Transaction)),
        token ⟨0, payment 18⟩ ∉ p) _ hpool hin
    · exact hnone q hq hin

/-- On the same run: the payment is at no node when the listener is done. -/
theorem exhausted_never_rescued_payment : ∃ s₁ s₂ m,
    (machine small).Path Reported s₁ s₂ ∧ s₂.listener.pc = .receive ∧
      m = ⟨0, payment 18⟩ ∧ ¬ AtNode s₂ (token m) := by
  obtain ⟨s, s₁, s₂, c, m, rest, hrun, hn, hhandled, hnode, -, hpc, hflag, hhead, hm,
    -, hlistener, -, -, -⟩ := exhausted_run
  have hs : (machine small).Reach Reported s :=
    ⟨launch, launch_initial, reported_run (by decide) hrun⟩
  have hexhausted := exhausted_of_run hnode hpc hflag hhead (by rw [hm])
  have hpath := reported_run (by decide) hhandled
  have hact : Reported s act := reported_of_quiet (by decide) s
  exact ⟨s₁, s₂, m, hpath, hlistener, hm,
    (exhausted_never_rescued small hs hexhausted hact hn hpath).1⟩

end Example
end SimulazioneTransazioni.ExhaustedHops

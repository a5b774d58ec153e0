import SimulazioneTransazioni.NetworkLedger
import SimulazioneTransazioni.NetworkWork

/-!
What the system leaves when it has come to rest. A node that is not stopped by an
error of its own waits for a transaction: its queue has none, and its pool is too
small for a block. So what was sent is in the ledger, in the log of losses, on the
master's queue, with a child that found the ledger full, or it is one of at most
eight transactions in a pool.
-/
namespace SimulazioneTransazioni.AtRest

open Nodes Users Master Queues LedgerWriters Network NetworkTokens NetworkWiring NetworkWork
open PoolCounter Losses NetworkLedger
open Workload (Fits)

/-- Nothing goes on without the users. -/
abbrev Resting (par : Parameters) (s : World) : Prop :=
  (Network.machine par).Rests Answered Works s

structure Able (par : Parameters) (s : World) (c : NodeCell) : Prop where
  loop : c.pc = .fetch ∨ c.pc = .publish ∨ c.pc = .process
  row : c.proc.myPID ∈ s.nodesPID.map Node.pid
  friend : ∃ draw i friend, rand draw 0 (par.soFriendsNum - 1) = some i ∧
    c.proc.friendList[i.toNat]? = some friend ∧ friend ≠ 0

structure Waits (par : Parameters) (s : World) (c : NodeCell) : Prop where
  fetch : c.pc = .fetch
  receives : Receives par c.proc
  none : takeTrans s.queues c.proc.queueID = none

section Nodes

variable {par : Parameters} {s : World} {i : ℕ} {c : NodeCell}

def quiet (draw : UInt32) : NodeOutcome := ⟨none, none, none, draw, .parent 1⟩

theorem resting_node (hrest : Resting par s) (hc : s.nodes[i]? = some c) (hpc : c.pc ≠ .attach)
    (draw : UInt32) : s.nodeStep par i (quiet draw) = none := by
  refine hrest (.node i (quiet draw)) rfl fun c' hc' hattach => ?_
  rw [hc, Option.some.injEq] at hc'
  rw [← hc'] at hattach
  exact absurd hattach hpc

theorem exists_index (hrow : c.proc.myPID ∈ s.nodesPID.map Node.pid) :
    ∃ k, Blocks.getPidNodeIndex s.nodesPID c.proc.myPID = some k :=
  Table.exists_indexOf Node.pid hrow

/-- A hop goes through when the node knows a friend and draws it. -/
theorem sendToRandomFriend_ok {o : HopOutcome} {p : NodeProc} {k : UInt32} {friend : PidT}
    (hdraw : rand o.rand 0 (par.soFriendsNum - 1) = some k)
    (hfriend : p.friendList[k.toNat]? = some friend) (hne : friend ≠ 0) :
    ∃ r, sendToRandomFriend par o p = .ok r := by
  unfold sendToRandomFriend
  split
  · exact ⟨_, rfl⟩
  next m rest hrem =>
    unfold hop
    rw [hdraw]
    dsimp only
    split
    · exact ⟨_, rfl⟩
    · rw [show (p.withPool rest.shrink).friendList[k.toNat]? = some friend from hfriend]
      dsimp only
      rw [if_neg hne]
      exact ⟨_, rfl⟩

/-- At rest a node in its loop that no error stops waits for a transaction. -/
theorem able_waits (hrest : Resting par s) (hfits : ∀ c ∈ s.nodes, Fits c)
    (hc : s.nodes[i]? = some c) (hable : Able par s c) : Waits par s c := by
  have hstuck := resting_node hrest hc
  simp only [World.nodeStep, hc, Option.bind_some] at hstuck
  rcases hable.loop with hpc | hpc | hpc
  · obtain ⟨draw, k, friend, hdraw, hfriend, hne⟩ := hable.friend
    simp only [hpc, World.fetchStep] at hstuck
    by_cases hreceives : Receives par c.proc
    · refine ⟨hpc, hreceives, ?_⟩
      have hstuck := hstuck (by simp) draw
      cases htake : takeTrans s.queues c.proc.queueID with
      | none => rfl
      | some r =>
        simp only [World.receive, if_pos hreceives, rcvTrans, quiet, htake, Option.map_some,
          Option.bind_some, fetchMessages] at hstuck
        contradiction
    · exfalso
      have hstuck := hstuck (by simp) draw
      obtain ⟨r, hr⟩ := sendToRandomFriend_ok (o := s.hopOutcome c (quiet draw)) (p := c.proc)
        hdraw hfriend hne
      simp only [World.receive, if_neg hreceives, Option.bind_some, fetchMessages, hr,
        Except.map] at hstuck
      contradiction
  · exfalso
    obtain ⟨k, hk⟩ := exists_index hable.row
    have hstuck := hstuck (by simp [hpc]) 0
    simp only [hpc, World.publishStep, publishSize, hk] at hstuck
    contradiction
  · exfalso
    have hexact := (hfits c (List.mem_of_getElem? hc)).rest (Or.inr hpc)
    obtain ⟨p, e, hprocess, -⟩ := processBlock_exact (quiet 0).fork hexact
    have hstuck := hstuck (by simp [hpc]) 0
    simp only [hpc, World.processStep, hprocess] at hstuck
    contradiction

end Nodes

section Children

variable {par : Parameters} {s : World}

def Done (w : Writer) : Prop := (∃ b i, w.pc = .inserted b i) ∨ w.pc = .full

/-- At rest a child whose node has a row is done. -/
theorem resting_child (hrest : Resting par s) {j : ℕ} {w : Writer} (hw : s.children[j]? = some w)
    (hrow : w.myPID ∈ s.nodesPID.map Node.pid) : Done w := by
  have hstuck : s.childStep j ⟨⟨0, 0⟩, Block.zero⟩ = none :=
    hrest (.child j ⟨⟨0, 0⟩, Block.zero⟩) trivial trivial
  simp only [World.childStep, hw, Option.bind_some, Option.map_eq_none_iff, Writer.step] at hstuck
  split at hstuck
  next hpc =>
    obtain ⟨k, hk⟩ := Table.exists_indexOf Node.pid hrow
    simp only [Blocks.newBlock, Blocks.sumReward, Blocks.getPidNodeIndex, hk, Option.map_some]
      at hstuck
    contradiction
  next b k hpc =>
    split at hstuck
    · split at hstuck
      · contradiction
      · contradiction
    · contradiction
  next => contradiction
  next b k hpc => exact Or.inl ⟨b, k, hpc⟩
  next hpc => exact Or.inr hpc

end Children

section Owners

variable {par : Parameters} {s s' : World}

def owners (s : World) : List PidT := s.master :: s.nodes.map (NodeCell.proc · |>.myPID)

def Owned (s : World) : Prop := ∀ key ∈ s.queues.map Queue.key, key ∈ owners s

theorem owners_node {i : ℕ} {c c' : NodeCell} (hc : s.nodes[i]? = some c)
    (hnodes : s'.nodes = s.nodes.set i c') (hpid : c'.proc.myPID = c.proc.myPID)
    (hmaster : s'.master = s.master) : owners s' = owners s := by
  rw [owners, owners, hmaster, hnodes, map_key_set hc hpid]

theorem nodeStep_owners {i : ℕ} {o : NodeOutcome} (h : s.nodeStep par i o = some s') :
    owners s' = owners s := by
  obtain ⟨c, hc, hdid⟩ := nodeStep_did h
  cases hdid with
  | creates hpc => exact owners_node hc rfl rfl rfl
  | searches errno queueID hpc => exact owners_node hc rfl rfl rfl
  | attaches errno size hpc => exact owners_node hc rfl rfl rfl
  | befriends friendMex friend errno result queues hpc hawait => exact owners_node hc rfl rfl rfl
  | starts friendMex hpc hlength => exact owners_node hc rfl rfl rfl
  | fetches fetched queues p e hpc hreceive hfetch =>
    exact owners_node hc rfl (congrArg Prod.fst (fetchMessages_ids hfetch)) rfl
  | publishes nodesPID p hpc hsize =>
    exact owners_node hc rfl (congrArg Prod.fst (publishSize_ids hsize)) rfl
  | processes p e hpc hblock =>
    exact owners_node hc rfl (congrArg Prod.fst (processBlock_ids hblock)) rfl

/-- A node that is spawned has a pid of its own. -/
theorem listenerStep_owners {o : ListenerOutcome} (h : s.listenerStep par o = some s') :
    owners s' = owners s ∨ ∃ pid ∉ s.pids, owners s' = owners s ++ [pid] := by
  obtain ⟨hkept, hdid⟩ := listenerStep_cases h
  have hsame : s'.nodes = s.nodes → owners s' = owners s := by
    intro hnodes
    rw [owners, owners, hkept.same.master, hnodes]
  cases hdid with
  | took failure result hqueues hnodes => exact Or.inl (hsame hnodes)
  | befriended queue friend hqueues hnodes => exact Or.inl (hsame hnodes)
  | idle hqueues hnodes => exact Or.inl (hsame hnodes)
  | spawned nodePID hfork hqueues hnodes =>
    by_cases herror : nodePID = -1
    · rw [World.newNodes, if_pos herror, List.append_nil] at hnodes
      exact Or.inl (hsame hnodes)
    · rw [World.newNodes, if_neg herror] at hnodes
      refine Or.inr ⟨nodePID, (hfork herror).2, ?_⟩
      rw [owners, owners, hkept.same.master, hnodes, List.map_append]
      rfl

theorem next_owners {l : Label} (h : World.next par s l = some s') :
    owners s' = owners s ∨ ∃ pid ∉ s.pids, owners s' = owners s ++ [pid] := by
  cases l with
  | user u a =>
    obtain ⟨p, p', result, -, rfl, -⟩ := userStep_cases h
    cases result <;> exact Or.inl rfl
  | node i o => exact Or.inl (nodeStep_owners h)
  | child j reading =>
    obtain ⟨w, -, hrest⟩ := Option.bind_eq_some_iff.mp h
    obtain ⟨r, -, rfl⟩ := Option.map_eq_some_iff.mp hrest
    exact Or.inl rfl
  | listener o => exact listenerStep_owners h

/-- A step keeps the keys, or a node makes its queue. -/
theorem next_keys {l : Label} (h : World.next par s l = some s') :
    s'.queues.map Queue.key = s.queues.map Queue.key ∨
      ∃ pid ∈ owners s, s'.queues.map Queue.key = s.queues.map Queue.key ++ [pid] := by
  cases l with
  | user u a =>
    obtain ⟨p, p', result, -, rfl, -⟩ := userStep_cases h
    cases result with
    | failed e => exact Or.inl rfl
    | sent => exact Or.inl (keys_modify _ _ fun _ => rfl)
  | node i o =>
    obtain ⟨c, hc, hdid⟩ := nodeStep_did h
    cases hdid with
    | creates hpc =>
      refine Or.inr ⟨c.proc.myPID, ?_, List.map_append⟩
      exact List.mem_cons_of_mem _ (List.mem_map_of_mem (List.mem_of_getElem? hc))
    | searches errno queueID hpc => exact Or.inl rfl
    | attaches errno size hpc => exact Or.inl rfl
    | befriends friendMex friend errno result queues hpc hawait =>
      exact Or.inl (keys_awaitFriend hawait)
    | starts friendMex hpc hlength => exact Or.inl rfl
    | fetches fetched queues p e hpc hreceive hfetch =>
      refine Or.inl ?_
      show (World.deliver queues e).map Queue.key = _
      rw [keys_deliver, keys_receive hreceive]
    | publishes nodesPID p hpc hsize => exact Or.inl rfl
    | processes p e hpc hblock => exact Or.inl rfl
  | child j reading =>
    obtain ⟨w, -, hrest⟩ := Option.bind_eq_some_iff.mp h
    obtain ⟨r, -, rfl⟩ := Option.map_eq_some_iff.mp hrest
    exact Or.inl rfl
  | listener o =>
    obtain ⟨-, hdid⟩ := listenerStep_cases h
    cases hdid with
    | took failure result hqueues hnodes => exact Or.inl (keys_rcvTrans hqueues)
    | spawned nodePID hfork hqueues hnodes => exact Or.inl (by rw [hqueues])
    | idle hqueues hnodes => exact Or.inl (by rw [hqueues])
    | befriended queue friend hqueues hnodes =>
      refine Or.inl ?_
      rw [hqueues]
      exact keys_modify _ _ fun _ => rfl

theorem next_owned (hs : Owned s) {l : Label} (h : World.next par s l = some s') : Owned s' := by
  have howners : ∀ key ∈ owners s, key ∈ owners s' := by
    intro key hkey
    rcases next_owners h with hsame | ⟨pid, -, hmore⟩
    · rwa [hsame]
    · rw [hmore]
      exact List.mem_append_left _ hkey
  intro key hkey
  rcases next_keys h with hsame | ⟨pid, hpid, hmore⟩
  · rw [hsame] at hkey
    exact howners key (hs key hkey)
  · rw [hmore] at hkey
    rcases List.mem_append.mp hkey with hold | hnew
    · exact howners key (hs key hold)
    · rw [List.mem_singleton.mp hnew]
      exact howners pid hpid

theorem reach_owned {C : World → Label → Prop} (h : (Network.machine par).Reach C s) :
    Owned s := by
  refine h.invariant (I := Owned) ?_ fun s l s' hs _ hn => next_owned hs hn
  intro s hs key hkey
  rw [hs.keys] at hkey
  exact hkey

end Owners

section Left

variable {par : Parameters} {s : World} {log : List Loss}

/-- Keys are distinct, so a queue is the one that msgrcv finds. -/
theorem empty_of_takeTrans {queues : List Queue} {id : Int32} {q : Queue}
    (hkeys : (queues.map Queue.key).Nodup) (h : takeTrans queues id = none) (hq : q ∈ queues)
    (hkey : q.key = id) : q.trans = [] := by
  have hin : id ∈ queues.map Queue.key := by
    rw [← hkey]
    exact List.mem_map_of_mem hq
  obtain ⟨q', hlookup⟩ := exists_lookup hin
  obtain ⟨i, hi, hget⟩ := Option.bind_eq_some_iff.mp hlookup
  obtain ⟨q'', hget', hid⟩ := Table.getElem_indexOf Queue.key hi
  rw [hget, Option.some.injEq] at hget'
  have hsame : q = q' := by
    refine List.inj_on_of_nodup_map hkeys hq (List.mem_of_getElem? hget) ?_
    rw [hkey, hget', hid]
  rw [takeTrans, takeFirst, hlookup, Option.bind_some] at h
  split at h
  next htrans => rw [hsame, htrans]
  next => contradiction

theorem card_sum_le {α : Type*} {f : α → Multiset Transaction} {k : ℕ} {l : List α}
    (h : ∀ a ∈ l, (f a).card ≤ k) : (l.map f).sum.card ≤ k * l.length := by
  induction l with
  | nil => exact Nat.zero_le _
  | cons a rest ih =>
    have ha := h a List.mem_cons_self
    have hrest := ih fun b hb => h b (List.mem_cons_of_mem a hb)
    rw [List.map_cons, List.sum_cons, Multiset.card_add, List.length_cons, Nat.mul_succ]
    omega

structure Settled (s : World) (log : List Loss) : Prop where
  queues : ∀ c ∈ s.nodes, ∀ q ∈ s.queues, q.key = c.proc.myPID → q.trans = []
  pools : ∀ c ∈ s.nodes, c.proc.transPool.cells.length ≤ soBlockSize - 2
  children : ∀ w ∈ s.children, Done w
  sent : (s.sent : Multiset Transaction) =
    (s.ledger.toList.map recorded).sum + lost log + held (fun key => key = s.master) s.queues +
      (s.children.map processing).sum + (s.nodes.map holding).sum
  few : s.sent.length ≤ (s.ledger.toList.map recorded).sum.card + (lost log).card +
    (held (fun key => key = s.master) s.queues).card + (s.children.map processing).sum.card +
      (soBlockSize - 2) * s.nodes.length

/-- At rest the queues of the nodes are empty and each pool is too small for a block, so
that what was sent is where Settled says. -/
theorem left_at_rest (h : (logged par).Reach (fun r l => Received r.1 l) (s, log))
    (hrest : Resting par s) (hable : ∀ c ∈ s.nodes, Able par s c)
    (hkeys : (s.queues.map Queue.key).Nodup) : Settled s log := by
  obtain ⟨hwired, -, htotal⟩ := logged_sound par h
  have hreach := reach_of_logged h
  have hfits := (kept_reach hreach).2
  have hwaits : ∀ c ∈ s.nodes, Waits par s c := by
    intro c hc
    obtain ⟨i, hi⟩ := List.mem_iff_getElem?.mp hc
    exact able_waits hrest hfits hi (hable c hc)
  have hqueues : ∀ c ∈ s.nodes, ∀ q ∈ s.queues, q.key = c.proc.myPID → q.trans = [] := by
    intro c hc q hq hkey
    have hnone := (hwaits c hc).none
    rw [(hwired.nodes c hc).queue (by simp [(hwaits c hc).fetch, Attached])] at hnone
    exact empty_of_takeTrans hkeys hnone hq hkey
  have hpools : ∀ c ∈ s.nodes, c.proc.transPool.cells.length ≤ soBlockSize - 2 :=
    fun c hc => ((hfits c hc).fetch (hwaits c hc).fetch).le
  have hothers : held (fun key => key ≠ s.master) s.queues = 0 := by
    refine List.sum_eq_zero fun l hl => ?_
    obtain ⟨q, hq, rfl⟩ := List.mem_map.mp hl
    by_cases hmaster : q.key = s.master
    · exact if_neg (not_not.mpr hmaster)
    · rcases List.mem_cons.mp (reach_owned hreach q.key (List.mem_map_of_mem hq)) with heq | hnode
      · exact absurd heq hmaster
      · obtain ⟨c, hc, hpid⟩ := List.mem_map.mp hnode
        rw [if_pos hmaster, queued, hqueues c hc q hq hpid.symm]
        rfl
  have hsent : (s.sent : Multiset Transaction) =
      (s.ledger.toList.map recorded).sum + lost log + held (fun key => key = s.master) s.queues +
        (s.children.map processing).sum + (s.nodes.map holding).sum := by
    rw [htotal, Confirmation.total, account, ← Confirmation.held_split s.master, hothers, zero_add]
    abel
  refine ⟨hqueues, hpools, ?_, hsent, ?_⟩
  · intro w hw
    obtain ⟨j, hj⟩ := List.mem_iff_getElem?.mp hw
    obtain ⟨c, hc, hpid⟩ := List.mem_map.mp ((reach_sources hreach).children w hw)
    refine resting_child hrest hj ?_
    rw [← hpid]
    exact (hable c hc).row
  · have hcard := congrArg Multiset.card hsent
    have hfew : (s.nodes.map holding).sum.card ≤ (soBlockSize - 2) * s.nodes.length := by
      refine card_sum_le fun c hc => ?_
      have hpool := hpools c hc
      rw [holding, sentOf, Multiset.card_map, NodeLoop.pooled, Multiset.coe_card,
        List.length_map]
      exact hpool
    rw [Multiset.coe_card] at hcard
    simp only [Multiset.card_add] at hcard
    omega

end Left

section Example

open Confirmation (small launch launch_initial boot pay act)

/-- A state in which everyone waits is at rest. -/
theorem resting_of_waits {par : Parameters} {s : World} (hnodes : ∀ c ∈ s.nodes, Waits par s c)
    (hchildren : ∀ w ∈ s.children, Done w) (hlistener : s.listener.pc = .receive)
    (hmaster : takeTrans s.queues s.master = none) : Resting par s := by
  intro l hanswered hworks
  cases l with
  | user u a => exact absurd hworks id
  | node i o =>
    show s.nodeStep par i o = none
    rw [World.nodeStep]
    cases hc : s.nodes[i]? with
    | none => rfl
    | some c =>
      have hwaits := hnodes c (List.mem_of_getElem? hc)
      have hrcv : o.rcvFailure = none := hanswered
      simp only [Option.bind_some, hwaits.fetch, World.fetchStep, World.receive,
        if_pos hwaits.receives, rcvTrans, hrcv, hwaits.none, Option.map_none, Option.bind_none]
  | child j reading =>
    show s.childStep j reading = none
    rw [World.childStep]
    cases hw : s.children[j]? with
    | none => rfl
    | some w =>
      rcases hchildren w (List.mem_of_getElem? hw) with ⟨b, i, hpc⟩ | hpc
      · simp only [Option.bind_some, Writer.step, hpc, Option.map_none]
      · simp only [Option.bind_some, Writer.step, hpc, Option.map_none]
  | listener o =>
    have hrcv : o.rcvFailure = none := hanswered
    show s.listenerStep par o = none
    simp only [World.listenerStep, hlistener, rcvTrans, hrcv, hmaster, Option.map_none]

def calm : List Label :=
  boot ++ List.replicate 6 (.node 1 ⟨none, none, none, 0, .parent 50⟩) ++ [pay 1, act, act, act]

def view (c : NodeCell) : NodePc × Int32 × Int32 × UInt32 × List PidT :=
  (c.pc, c.proc.queueID, c.proc.flag, c.proc.transPool.size, c.proc.friendList)

theorem calm_run : ∃ s log, (logged small).run (launch, []) calm = some (s, log) ∧
    s.sent.length = 1 ∧ s.nodes.map view = [(.fetch, 40, 1, 1, [41]), (.fetch, 41, 0, 0, [40])] ∧
    s.nodes.map (NodeCell.proc · |>.myPID) = [40, 41] ∧
    s.nodesPID.map Node.pid = [40, 41, 0, 0] ∧ s.queues = [create 30, create 40, create 41] ∧
    s.children = [] ∧ s.listener.pc = .receive ∧ s.master = 30 :=
  ⟨_, _, rfl, rfl, rfl, rfl, rfl, rfl, rfl, rfl, rfl⟩

theorem received_calm (s : World) : ∀ l ∈ calm, Received s l := by
  intro l hl
  rcases List.mem_append.mp hl with hboots | hrest
  · rcases List.mem_append.mp hboots with hboot | hboot
    · rw [List.eq_of_mem_replicate hboot]
      exact fun e he => absurd he (by simp)
    · rw [List.eq_of_mem_replicate hboot]
      exact fun e he => absurd he (by simp)
  · have hcases : l = pay 1 ∨ l = act := by simpa using hrest
    rcases hcases with rfl | rfl
    · trivial
    · exact fun e he => absurd he (by simp)

/-- Each node waits, and draws the friend it has. -/
theorem calm_node {s : World} (hviews : s.nodes.map view =
      [(.fetch, 40, 1, 1, [41]), (.fetch, 41, 0, 0, [40])])
    (hpids : s.nodes.map (NodeCell.proc · |>.myPID) = [40, 41])
    (hrows : s.nodesPID.map Node.pid = [40, 41, 0, 0])
    (hqueues : s.queues = [create 30, create 40, create 41]) :
    ∀ c ∈ s.nodes, Waits small s c ∧ Able small s c := by
  intro c hc
  have hpid : c.proc.myPID ∈ s.nodesPID.map Node.pid := by
    have hin := List.mem_map_of_mem (f := (NodeCell.proc · |>.myPID)) hc
    rw [hpids] at hin
    rw [hrows]
    exact List.mem_append_left [0, 0] hin
  have hview := List.mem_map_of_mem (f := view) hc
  rw [hviews, List.mem_cons, List.mem_singleton] at hview
  have hdraw : rand 0 0 (small.soFriendsNum - 1) = some 0 := rfl
  rcases hview with hview | hview
  · simp only [view, Prod.mk.injEq] at hview
    obtain ⟨hpc, hqueue, hflag, hsize, hfriends⟩ := hview
    refine ⟨⟨hpc, ?_, ?_⟩, ⟨Or.inl hpc, hpid, 0, 0, 41, hdraw, by rw [hfriends]; rfl, by decide⟩⟩
    · rw [Receives, hsize, hflag]
      decide
    · rw [hqueue, hqueues]
      rfl
  · simp only [view, Prod.mk.injEq] at hview
    obtain ⟨hpc, hqueue, hflag, hsize, hfriends⟩ := hview
    refine ⟨⟨hpc, ?_, ?_⟩, ⟨Or.inl hpc, hpid, 0, 0, 40, hdraw, by rw [hfriends]; rfl, by decide⟩⟩
    · rw [Receives, hsize, hflag]
      decide
    · rw [hqueue, hqueues]
      rfl

/-- Node 40 is left with the one payment of user 7 in its pool. -/
theorem left_at_rest_calm : ∃ s log, s.sent.length = 1 ∧ Resting small s ∧ Settled s log := by
  obtain ⟨s, log, hrun, hsent, hviews, hpids, hrows, hqueues, hchildren, hlistener, hmaster⟩ :=
    calm_run
  have hreach : (logged small).Reach (fun r l => Received r.1 l) (s, log) := by
    have hstart : (logged small).start (launch, []) := ⟨launch_initial, rfl⟩
    exact Machine.reach_of_run _ hstart (fun r l hl => received_calm r.1 l hl) hrun
  have hnodes := calm_node hviews hpids hrows hqueues
  have hrest : Resting small s := by
    refine resting_of_waits (fun c hc => (hnodes c hc).1) ?_ hlistener ?_
    · rw [hchildren]
      exact fun w hw => absurd hw List.not_mem_nil
    · rw [hqueues, hmaster]
      rfl
  refine ⟨s, log, hsent, hrest, ?_⟩
  exact left_at_rest hreach hrest (fun c hc => (hnodes c hc).2) (by rw [hqueues]; decide)

end Example

end SimulazioneTransazioni.AtRest

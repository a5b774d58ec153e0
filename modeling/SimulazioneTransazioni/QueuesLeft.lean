import SimulazioneTransazioni.RunAccounting
import SimulazioneTransazioni.StoredRows

/-!
Which message queues exist. A node makes the queue with its pid as key and its
handler of SIGINT removes it. A child that writes a block has the handler and the
queue of its parent, and removes the queue of a parent that goes on. Of the queues
with key IPC_PRIVATE that msgget makes for a row without a node there is no trace
here.
-/
namespace SimulazioneTransazioni.QueuesLeft

open Nodes Queues Network NetworkWiring LedgerWriters
open RunAccounting (nodePids)
open Startup (State)

section Marks

variable {marks : List ℕ} {pids : List PidT} {pid : PidT}

def Marked (marks : List ℕ) (pids : List PidT) (pid : PidT) : Prop :=
  ∃ i ∈ marks, pids[i]? = some pid

theorem marked_cons {i : ℕ} :
    Marked (i :: marks) pids pid ↔ pids[i]? = some pid ∨ Marked marks pids pid :=
  List.exists_mem_cons_iff _ _ _

/-- No process that begins later is marked. -/
theorem marked_append (hlt : ∀ i ∈ marks, i < pids.length) (new : List PidT) :
    Marked marks (pids ++ new) pid ↔ Marked marks pids pid := by
  refine exists_congr fun i => and_congr_right fun hi => ?_
  rw [List.getElem?_append_left (hlt i hi)]

end Marks

def keys (s : State) : List PidT := s.world.queues.map Queue.key

/-- The queues after the msgctl of master_interrupt_handle. -/
def leftOver (s : State) : List Queue :=
  s.world.queues.filter fun q => q.key ≠ s.world.master

def childPids (s : World) : List PidT := s.children.map Writer.myPID

def Made (s : World) (pid : PidT) : Prop :=
  ∃ c ∈ s.nodes, c.proc.myPID = pid ∧ c.pc ≠ .queueInit

def Interrupted (s : State) (pid : PidT) : Prop :=
  Marked s.stoppedNodes (nodePids s.world) pid ∨
    Marked s.stoppedChildren (childPids s.world) pid

/-- A node that handles SIGINT has found its queue before. -/
def AfterAttach (s : State) : Startup.Label → Prop
  | .nodeSigint i => ∀ c ∈ s.world.nodes[i]?, Attached c.pc
  | _ => True

/-- Every node has its own pid, and a child that of a node with a queue. -/
structure Wired (s : State) : Prop where
  pids : (nodePids s.world).Nodup
  master : s.world.master ∉ nodePids s.world
  queue : ∀ c ∈ s.world.nodes, Attached c.pc → c.proc.queueID = c.proc.myPID
  parents : ∀ pid ∈ childPids s.world, ∃ c ∈ s.world.nodes, c.proc.myPID = pid ∧ Attached c.pc
  nodes : ∀ i ∈ s.stoppedNodes, i < (nodePids s.world).length
  children : ∀ k ∈ s.stoppedChildren, k < (childPids s.world).length

structure Kept (s : State) : Prop extends Wired s where
  nodup : (keys s).Nodup
  left : ∀ key, key ∈ keys s ↔
    key = s.world.master ∨ Made s.world key ∧ ¬ Interrupted s key

variable {par : Parameters} {s s' : State}

theorem Wired.cell_unique (h : Wired s) {c c' : NodeCell} (hc : c ∈ s.world.nodes)
    (hc' : c' ∈ s.world.nodes) (hpid : c'.proc.myPID = c.proc.myPID) : c' = c :=
  List.inj_on_of_nodup_map h.pids hc' hc hpid

theorem Wired.ne_master (h : Wired s) {c : NodeCell} (hc : c ∈ s.world.nodes) :
    c.proc.myPID ≠ s.world.master := by
  intro heq
  apply h.master
  rw [← heq]
  exact List.mem_map_of_mem hc

/-- Before a node has its queue no handler has run for it. -/
theorem Wired.not_interrupted (h : Wired s) {i : ℕ} {c : NodeCell}
    (hc : s.world.nodes[i]? = some c) (hpc : c.pc = .queueInit) (hi : i ∉ s.stoppedNodes) :
    ¬ Interrupted s c.proc.myPID := by
  rintro (⟨j, hj, hpid⟩ | ⟨k, -, hpid⟩)
  · have hnode : (nodePids s.world)[i]? = some c.proc.myPID := by
      rw [nodePids, List.getElem?_map, hc]
      rfl
    have hij : j = i := (List.getElem?_inj (h.nodes j hj) h.pids).mp (hpid.trans hnode.symm)
    rw [hij] at hj
    exact hi hj
  · obtain ⟨c', hc', hpid', hattached⟩ := h.parents _ (List.mem_of_getElem? hpid)
    have heq := h.cell_unique (List.mem_of_getElem? hc) hc' hpid'
    rw [heq] at hattached
    exact hattached.1 hpc

theorem Wired.not_made (h : Wired s) {i : ℕ} {c : NodeCell}
    (hc : s.world.nodes[i]? = some c) (hpc : c.pc = .queueInit) :
    ¬ Made s.world c.proc.myPID := by
  rintro ⟨c', hc', hpid, hmade⟩
  have heq := h.cell_unique (List.mem_of_getElem? hc) hc' hpid
  rw [heq] at hmade
  exact hmade hpc

/-- A step that makes and removes no queue. -/
theorem Kept.frame (h : Kept s) (hw : Wired s') (hkeys : keys s' = keys s)
    (hmaster : s'.world.master = s.world.master)
    (hmade : ∀ pid, Made s'.world pid ↔ Made s.world pid)
    (hint : ∀ pid, Interrupted s' pid ↔ Interrupted s pid) : Kept s' := by
  refine ⟨hw, ?_, ?_⟩
  · rw [hkeys]
    exact h.nodup
  · intro key
    rw [hkeys, hmaster, hmade, hint]
    exact h.left key

section Elsewhere

/-- A step that no node makes. -/
theorem Kept.same (h : Kept s) (hkeys : keys s' = keys s)
    (hmaster : s'.world.master = s.world.master) (hnodes : s'.world.nodes = s.world.nodes)
    (hchildren : childPids s'.world = childPids s.world)
    (hstopped : s'.stoppedNodes = s.stoppedNodes ∧ s'.stoppedChildren = s.stoppedChildren) :
    Kept s' := by
  have hpids : nodePids s'.world = nodePids s.world :=
    congrArg (List.map (NodeCell.proc · |>.myPID)) hnodes
  refine h.frame ⟨?_, ?_, ?_, ?_, ?_, ?_⟩ hkeys hmaster ?_ ?_
  · rw [hpids]
    exact h.pids
  · rw [hpids, hmaster]
    exact h.master
  · rw [hnodes]
    exact h.queue
  · rw [hchildren, hnodes]
    exact h.parents
  · rw [hstopped.1, hpids]
    exact h.nodes
  · rw [hstopped.2, hchildren]
    exact h.children
  · intro pid
    rw [Made, hnodes]
    rfl
  · intro pid
    rw [Interrupted, hstopped.1, hstopped.2, hpids, hchildren]
    rfl

/-- A fork of a node. -/
theorem Kept.addNode (h : Kept s) {pid ppid : PidT} (hfresh : pid ∉ s.world.pids)
    (hkeys : keys s' = keys s) (hmaster : s'.world.master = s.world.master)
    (hnodes : s'.world.nodes = s.world.nodes ++ [NodeCell.start pid ppid .queueInit])
    (hchildren : childPids s'.world = childPids s.world)
    (hstopped : s'.stoppedNodes = s.stoppedNodes ∧ s'.stoppedChildren = s.stoppedChildren) :
    Kept s' := by
  have hpids : nodePids s'.world = nodePids s.world ++ [pid] := by
    rw [nodePids, hnodes, List.map_append]
    rfl
  have hother : pid ≠ s.world.master ∧ pid ∉ nodePids s.world := by
    constructor
    · rintro rfl
      exact hfresh (List.mem_append_left _ (List.mem_append_left _ List.mem_cons_self))
    · exact fun hin => hfresh (List.mem_append_right _ hin)
  refine h.frame ⟨?_, ?_, ?_, ?_, ?_, ?_⟩ hkeys hmaster ?_ ?_
  · rw [hpids]
    exact List.nodup_append'.mpr ⟨h.pids, List.nodup_singleton pid,
      List.disjoint_singleton.mpr hother.2⟩
  · rw [hpids, hmaster]
    intro hin
    rcases List.mem_append.mp hin with hold | hnew
    · exact h.master hold
    · exact hother.1 (List.mem_singleton.mp hnew).symm
  · rw [hnodes]
    intro c hc hattached
    rcases List.mem_append.mp hc with hold | hnew
    · exact h.queue c hold hattached
    · rw [List.mem_singleton.mp hnew] at hattached
      exact absurd rfl hattached.1
  · rw [hchildren, hnodes]
    intro child hchild
    obtain ⟨c, hc, hparent⟩ := h.parents child hchild
    exact ⟨c, List.mem_append_left _ hc, hparent⟩
  · rw [hstopped.1, hpids, List.length_append]
    exact fun i hi => Nat.lt_add_right _ (h.nodes i hi)
  · rw [hstopped.2, hchildren]
    exact h.children
  · intro pid'
    rw [Made, hnodes]
    constructor
    · rintro ⟨c, hc, hpid', hpc⟩
      rcases List.mem_append.mp hc with hold | hnew
      · exact ⟨c, hold, hpid', hpc⟩
      · rw [List.mem_singleton.mp hnew] at hpc
        exact absurd rfl hpc
    · rintro ⟨c, hc, hmade⟩
      exact ⟨c, List.mem_append_left _ hc, hmade⟩
  · intro pid'
    rw [Interrupted, hstopped.1, hstopped.2, hpids, hchildren, marked_append h.nodes]
    rfl

end Elsewhere

section Nodes

variable {i : ℕ} {c c' : NodeCell} {world : World} {new : List Writer}

structure Moves (s : State) (i : ℕ) (c c' : NodeCell) (new : List Writer) (world : World) :
    Prop where
  cell : s.world.nodes[i]? = some c
  pid : c'.proc.myPID = c.proc.myPID
  made : c'.pc ≠ .queueInit
  attached : Attached c.pc → Attached c'.pc
  queue : Attached c'.pc → c'.proc.queueID = c'.proc.myPID
  master : world.master = s.world.master
  nodes : world.nodes = s.world.nodes.set i c'
  children : world.children = s.world.children ++ new
  parent : ∀ w ∈ new, w.myPID = c.proc.myPID ∧ Attached c.pc

theorem Moves.nodePids_eq (hm : Moves s i c c' new world) :
    nodePids world = nodePids s.world := by
  rw [nodePids, hm.nodes]
  exact Table.map_key_set hm.cell hm.pid

theorem Moves.childPids_eq (hm : Moves s i c c' new world) :
    childPids world = childPids s.world ++ new.map Writer.myPID := by
  rw [childPids, hm.children, List.map_append]
  rfl

/-- Every node is still there, and no node goes back. -/
theorem Moves.still (hm : Moves s i c c' new world) {d : NodeCell} (hd : d ∈ s.world.nodes) :
    ∃ d' ∈ world.nodes, d'.proc.myPID = d.proc.myPID ∧
      (d.pc ≠ .queueInit → d'.pc ≠ .queueInit) ∧ (Attached d.pc → Attached d'.pc) := by
  obtain ⟨j, hj⟩ := List.getElem?_of_mem hd
  rw [hm.nodes]
  by_cases hij : i = j
  · subst hij
    cases hm.cell.symm.trans hj
    exact ⟨c', List.mem_set (List.getElem?_eq_some_iff.mp hm.cell).1 c', hm.pid,
      fun _ => hm.made, hm.attached⟩
  · exact ⟨d, List.mem_of_getElem? ((List.getElem?_set_ne hij).trans hj), rfl, id, id⟩

theorem Moves.wired (hm : Moves s i c c' new world) (h : Wired s) :
    Wired (s.withWorld world) := by
  have hpids := hm.nodePids_eq
  have hchildren := hm.childPids_eq
  constructor
  · show (nodePids world).Nodup
    rw [hpids]
    exact h.pids
  · show world.master ∉ nodePids world
    rw [hm.master, hpids]
    exact h.master
  · intro d hd
    have hd' : d ∈ s.world.nodes.set i c' := hm.nodes ▸ hd
    rcases List.mem_or_eq_of_mem_set hd' with hold | rfl
    · exact h.queue d hold
    · exact hm.queue
  · intro pid hpid
    have hpid' : pid ∈ childPids s.world ++ new.map Writer.myPID := hchildren ▸ hpid
    rcases List.mem_append.mp hpid' with hold | hnew
    · obtain ⟨d, hd, rfl, hattached⟩ := h.parents pid hold
      obtain ⟨d', hd', hpid, -, hkept⟩ := hm.still hd
      exact ⟨d', hd', hpid, hkept hattached⟩
    · obtain ⟨w, hw, rfl⟩ := List.mem_map.mp hnew
      obtain ⟨hparent, hattached⟩ := hm.parent w hw
      obtain ⟨d', hd', hpid, -, hkept⟩ := hm.still (List.mem_of_getElem? hm.cell)
      exact ⟨d', hd', hpid.trans hparent.symm, hkept hattached⟩
  · show ∀ j ∈ s.stoppedNodes, j < (nodePids world).length
    rw [hpids]
    exact h.nodes
  · show ∀ k ∈ s.stoppedChildren, k < (childPids world).length
    rw [hchildren, List.length_append]
    exact fun k hk => Nat.lt_add_right _ (h.children k hk)

theorem Moves.interrupted (hm : Moves s i c c' new world) (h : Wired s) (pid : PidT) :
    Interrupted (s.withWorld world) pid ↔ Interrupted s pid := by
  show Marked s.stoppedNodes (nodePids world) pid ∨
    Marked s.stoppedChildren (childPids world) pid ↔ _
  rw [hm.nodePids_eq, hm.childPids_eq, marked_append h.children]
  rfl

theorem Moves.made_iff (hm : Moves s i c c' new world) (pid : PidT) :
    Made world pid ↔ pid = c.proc.myPID ∨ Made s.world pid := by
  constructor
  · rintro ⟨d, hd, rfl, hmade⟩
    rw [hm.nodes] at hd
    rcases List.mem_or_eq_of_mem_set hd with hold | rfl
    · exact Or.inr ⟨d, hold, rfl, hmade⟩
    · exact Or.inl hm.pid
  · rintro (rfl | ⟨d, hd, rfl, hmade⟩)
    · refine ⟨c', ?_, hm.pid, hm.made⟩
      rw [hm.nodes]
      exact List.mem_set (List.getElem?_eq_some_iff.mp hm.cell).1 c'
    · obtain ⟨d', hd', hpid, hkept, -⟩ := hm.still hd
      exact ⟨d', hd', hpid, hkept hmade⟩

/-- A node that has its queue makes a step. -/
theorem Moves.kept (hm : Moves s i c c' new world) (h : Kept s) (hpc : c.pc ≠ .queueInit)
    (hkeys : world.queues.map Queue.key = keys s) : Kept (s.withWorld world) := by
  refine h.frame (hm.wired h.toWired) hkeys hm.master ?_ (hm.interrupted h.toWired)
  intro pid
  refine (hm.made_iff pid).trans (or_iff_right_of_imp ?_)
  rintro rfl
  exact ⟨c, List.mem_of_getElem? hm.cell, rfl, hpc⟩

/-- A node makes its queue. -/
theorem Moves.created (hm : Moves s i c c' new world) (h : Kept s) (hpc : c.pc = .queueInit)
    (hi : i ∉ s.stoppedNodes)
    (hkeys : world.queues.map Queue.key = keys s ++ [c.proc.myPID]) :
    Kept (s.withWorld world) := by
  have hnot := h.not_interrupted hm.cell hpc hi
  have hne := h.ne_master (List.mem_of_getElem? hm.cell)
  have hkey : c.proc.myPID ∉ keys s := by
    rw [h.left]
    exact fun hor => hor.elim hne fun hmade => h.not_made hm.cell hpc hmade.1
  refine ⟨hm.wired h.toWired, ?_, ?_⟩
  · show (world.queues.map Queue.key).Nodup
    rw [hkeys]
    exact List.nodup_append'.mpr ⟨h.nodup, List.nodup_singleton _,
      List.disjoint_singleton.mpr hkey⟩
  · intro key
    show key ∈ world.queues.map Queue.key ↔ key = world.master ∨ Made world key ∧ _
    rw [hkeys, List.mem_append, List.mem_singleton, h.left, hm.master, hm.made_iff,
      hm.interrupted h.toWired]
    constructor
    · rintro ((hkey | ⟨hmade, hint⟩) | rfl)
      · exact Or.inl hkey
      · exact Or.inr ⟨Or.inr hmade, hint⟩
      · exact Or.inr ⟨Or.inl rfl, hnot⟩
    · rintro (hkey | ⟨rfl | hmade, hint⟩)
      · exact Or.inl (Or.inl hkey)
      · exact Or.inr rfl
      · exact Or.inl (Or.inr ⟨hmade, hint⟩)

/-- A node that is attached goes on. -/
theorem Kept.attached (h : Kept s) (hcell : s.world.nodes[i]? = some c) {pc : NodePc}
    {p : NodeProc} (hnodes : world.nodes = s.world.nodes.set i (c.goto pc p))
    (hmaster : world.master = s.world.master) (hpc : Attached c.pc ∧ Attached pc)
    (hids : ids p = ids c.proc) (hchildren : world.children = s.world.children ++ new)
    (hnew : ∀ w ∈ new, w.myPID = c.proc.myPID)
    (hkeys : world.queues.map Queue.key = keys s) : Kept (s.withWorld world) := by
  have hpid : p.myPID = c.proc.myPID := congrArg Prod.fst hids
  have hqueue : p.queueID = c.proc.queueID := congrArg Prod.snd hids
  have hown := h.queue c (List.mem_of_getElem? hcell) hpc.1
  have hm : Moves s i c (c.goto pc p) new world :=
    { cell := hcell
      pid := hpid
      made := hpc.2.1
      attached := fun _ => hpc.2
      queue := fun _ => hqueue.trans (hown.trans hpid.symm)
      master := hmaster
      nodes := hnodes
      children := hchildren
      parent := fun w hw => ⟨hnew w hw, hpc.1⟩ }
  exact hm.kept h hpc.1.1 hkeys

/-- A step of a node makes a queue at most for itself. -/
theorem nodeStep_kept (h : Kept s) {o : NodeOutcome} (hi : i ∉ s.stoppedNodes)
    (hstep : s.world.nodeStep par i o = some world) : Kept (s.withWorld world) := by
  obtain ⟨c, hc, hdid⟩ := nodeStep_did hstep
  have hnone : s.world.children = s.world.children ++ [] := (List.append_nil _).symm
  cases hdid with
  | creates hpc =>
    refine Moves.created ⟨hc, ?_, ?_, ?_, ?_, rfl, rfl, hnone, nofun⟩ h hpc hi List.map_append
    · rfl
    · exact nofun
    · exact fun hattached => absurd hpc hattached.1
    · exact fun hattached => absurd rfl hattached.2
  | searches errno queueID hpc =>
    refine Moves.kept ⟨hc, ?_, ?_, ?_, ?_, rfl, rfl, hnone, nofun⟩ h (by rw [hpc]; nofun) rfl
    · rfl
    · exact nofun
    · exact fun hattached => absurd hpc hattached.2
    · exact fun hattached => absurd rfl hattached.2
  | attaches errno size hpc =>
    refine Moves.kept ⟨hc, ?_, ?_, ?_, ?_, rfl, rfl, hnone, nofun⟩ h (by rw [hpc]; nofun) rfl
    · rfl
    · exact nofun
    · exact fun _ => ⟨nofun, nofun⟩
    · exact fun _ => rfl
  | befriends friendMex friend errno result queues hpc hawait =>
    refine h.attached hc rfl rfl ⟨?_, nofun, nofun⟩ rfl hnone nofun (keys_awaitFriend hawait)
    rw [hpc]
    exact ⟨nofun, nofun⟩
  | starts friendMex hpc hlength =>
    refine h.attached hc rfl rfl ⟨?_, nofun, nofun⟩ rfl hnone nofun rfl
    rw [hpc]
    exact ⟨nofun, nofun⟩
  | fetches fetched queues p e hpc hreceive hfetch =>
    refine h.attached hc rfl rfl ⟨?_, nofun, nofun⟩ (fetchMessages_ids hfetch) hnone nofun ?_
    · rw [hpc]
      exact ⟨nofun, nofun⟩
    · exact (keys_deliver queues e).trans (keys_receive hreceive)
  | publishes nodesPID p hpc hsize =>
    refine h.attached hc rfl rfl ⟨?_, nofun, nofun⟩ (publishSize_ids hsize) hnone nofun rfl
    rw [hpc]
    exact ⟨nofun, nofun⟩
  | processes p e hpc hblock =>
    refine h.attached hc rfl rfl ⟨?_, nofun, nofun⟩ (processBlock_ids hblock) rfl ?_ rfl
    · rw [hpc]
      exact ⟨nofun, nofun⟩
    · exact fun w hw => (mem_childrenOf hw).1

end Nodes

section Interrupts

/-- The handler removes the queue of a node. -/
theorem Kept.remove (h : Kept s) (hw : Wired s') {pid : PidT} (hmade : Made s.world pid)
    (hkeys : keys s' = (keys s).filter (· ≠ pid)) (hmaster : s'.world.master = s.world.master)
    (hsame : ∀ pid', Made s'.world pid' ↔ Made s.world pid')
    (hint : ∀ pid', Interrupted s' pid' ↔ pid = pid' ∨ Interrupted s pid') : Kept s' := by
  have hne : pid ≠ s.world.master := by
    obtain ⟨c, hc, rfl, -⟩ := hmade
    exact h.ne_master hc
  refine ⟨hw, ?_, ?_⟩
  · rw [hkeys]
    exact h.nodup.filter _
  · intro key
    rw [hkeys, List.mem_filter, h.left, hmaster, hsame, hint, not_or, decide_eq_true_iff]
    constructor
    · rintro ⟨rfl | ⟨hkey, hnot⟩, hpid⟩
      · exact Or.inl rfl
      · exact Or.inr ⟨hkey, fun heq => hpid heq.symm, hnot⟩
    · rintro (rfl | ⟨hkey, hpid, hnot⟩)
      · exact ⟨Or.inl rfl, hne.symm⟩
      · exact ⟨Or.inr ⟨hkey, hnot⟩, fun heq => hpid heq.symm⟩

theorem interrupt_cases {myPID : PidT} {queueID : Int32}
    (hstep : s.interrupt myPID queueID = some s') :
    ∃ nodesPID, s' = s.withWorld { s.world with
      queues := s.world.queues.filter fun q => q.key ≠ queueID
      nodesPID := nodesPID } := by
  unfold State.interrupt at hstep
  split at hstep
  · contradiction
  next nodesPID _ => exact ⟨nodesPID, (Option.some.inj hstep).symm⟩

theorem keys_filter (queues : List Queue) (pid : PidT) :
    (queues.filter fun q => q.key ≠ pid).map Queue.key =
      (queues.map Queue.key).filter (· ≠ pid) := by
  rw [List.filter_map]
  rfl

/-- The handler in a node removes the node's queue and no other. -/
theorem nodeSigint_kept (h : Kept s) {i : ℕ}
    (hattached : ∀ c ∈ s.world.nodes[i]?, Attached c.pc) (hstep : s.nodeSigint i = some s') :
    Kept s' := by
  obtain ⟨c, hc, hrest⟩ := Option.bind_eq_some_iff.mp hstep
  split at hrest
  · contradiction
  · obtain ⟨s₁, hs₁, rfl⟩ := Option.map_eq_some_iff.mp hrest
    obtain ⟨nodesPID, rfl⟩ := interrupt_cases hs₁
    have hmem := List.mem_of_getElem? hc
    have hown := h.queue c hmem (hattached c hc)
    have hpid : (nodePids s.world)[i]? = some c.proc.myPID := by
      rw [nodePids, List.getElem?_map, hc]
      rfl
    refine h.remove ⟨h.pids, h.master, h.queue, h.parents, ?_, h.children⟩
      ⟨c, hmem, rfl, (hattached c hc).1⟩ ?_ rfl (fun _ => Iff.rfl) ?_
    · exact List.forall_mem_cons.mpr ⟨(List.getElem?_eq_some_iff.mp hpid).1, h.nodes⟩
    · rw [← hown]
      exact keys_filter _ _
    · intro pid'
      have hmarked : Marked (i :: s.stoppedNodes) (nodePids s.world) pid' ↔
          c.proc.myPID = pid' ∨ Marked s.stoppedNodes (nodePids s.world) pid' := by
        rw [marked_cons, hpid, Option.some.injEq]
      exact (or_congr_left hmarked).trans or_assoc

theorem childSigint_kept (h : Kept s) {k : ℕ} (hstep : s.childSigint k = some s') : Kept s' := by
  obtain ⟨w, hw, hrest⟩ := Option.bind_eq_some_iff.mp hstep
  split at hrest
  · contradiction
  · obtain ⟨s₁, hs₁, rfl⟩ := Option.map_eq_some_iff.mp hrest
    obtain ⟨nodesPID, rfl⟩ := interrupt_cases hs₁
    have hpid : (childPids s.world)[k]? = some w.myPID := by
      rw [childPids, List.getElem?_map, hw]
      rfl
    obtain ⟨c, hc, hparent, hattached⟩ := h.parents _ (List.mem_of_getElem? hpid)
    refine h.remove ⟨h.pids, h.master, h.queue, h.parents, h.nodes, ?_⟩
      ⟨c, hc, hparent, hattached.1⟩ (keys_filter _ _) rfl (fun _ => Iff.rfl) ?_
    · exact List.forall_mem_cons.mpr ⟨(List.getElem?_eq_some_iff.mp hpid).1, h.children⟩
    · intro pid'
      have hmarked : Marked (k :: s.stoppedChildren) (childPids s.world) pid' ↔
          w.myPID = pid' ∨ Marked s.stoppedChildren (childPids s.world) pid' := by
        rw [marked_cons, hpid, Option.some.injEq]
      exact (or_congr_right hmarked).trans or_left_comm

end Interrupts

section Runs

theorem childStep_kept (h : Kept s) {k : ℕ} {reading : Reading} {world : World}
    (hstep : s.world.childStep k reading = some world) : Kept (s.withWorld world) := by
  obtain ⟨w, hw, hrest⟩ := Option.bind_eq_some_iff.mp hstep
  obtain ⟨⟨ledger, nodesPID, w'⟩, hdone, rfl⟩ := Option.map_eq_some_iff.mp hrest
  refine h.same rfl rfl rfl ?_ ⟨rfl, rfl⟩
  apply Table.map_key_set hw
  cases Writer.step_did hdone <;> rfl

theorem forkNode_kept (h : Kept s) {k : ℕ} {fork : ForkResult}
    (hstep : s.forkNode par k fork = some s') : Kept s' := by
  unfold State.forkNode at hstep
  split at hstep
  · split at hstep
    · contradiction
    · cases fork with
      | failed e =>
        rw [← Option.some.inj hstep]
        exact h.same rfl rfl rfl rfl ⟨rfl, rfl⟩
      | parent pid =>
        dsimp only at hstep
        split at hstep
        next hfresh =>
          rw [← Option.some.inj hstep]
          exact h.addNode (fun hin => hfresh.2 (List.mem_append_left _ hin)) rfl rfl rfl rfl
            ⟨rfl, rfl⟩
        next => contradiction
  · rw [← Option.some.inj hstep]
    exact h.same rfl rfl rfl rfl ⟨rfl, rfl⟩

theorem makeFriends_kept (h : Kept s) {k : ℕ} {rand : ℕ → ℕ}
    (hstep : s.makeFriends par k rand = some s') : Kept s' := by
  unfold State.makeFriends at hstep
  split at hstep
  · obtain ⟨row, -, hrest⟩ := Option.bind_eq_some_iff.mp hstep
    obtain ⟨friends, -, rfl⟩ := Option.map_eq_some_iff.mp hrest
    split
    · exact h.same rfl rfl rfl rfl ⟨rfl, rfl⟩
    · exact h.same rfl rfl rfl rfl ⟨rfl, rfl⟩
  · rw [← Option.some.inj hstep]
    exact h.same rfl rfl rfl rfl ⟨rfl, rfl⟩

theorem forkUser_kept (h : Kept s) {k : ℕ} {fork : ForkResult}
    (hstep : s.forkUser par k fork = some s') : Kept s' := by
  unfold State.forkUser at hstep
  split at hstep
  · cases fork with
    | failed e =>
      rw [← Option.some.inj hstep]
      exact h.same rfl rfl rfl rfl ⟨rfl, rfl⟩
    | parent pid =>
      dsimp only at hstep
      split at hstep
      · rw [← Option.some.inj hstep]
        exact h.same rfl rfl rfl rfl ⟨rfl, rfl⟩
      · contradiction
  · rw [← Option.some.inj hstep]
    exact h.same rfl rfl rfl rfl ⟨rfl, rfl⟩

/-- The master forks nodes with new pids and makes no queue for them. -/
theorem masterStep_kept (h : Kept s) {o : Startup.MasterOutcome}
    (hstep : s.masterStep par o = some s') : Kept s' := by
  unfold State.masterStep at hstep
  split at hstep
  next => exact forkNode_kept h hstep
  next =>
    rw [← Option.some.inj hstep]
    exact h.same rfl rfl rfl rfl ⟨rfl, rfl⟩
  next => exact makeFriends_kept h hstep
  next =>
    rw [← Option.some.inj hstep]
    unfold State.findQueue
    split
    · exact h.same rfl rfl rfl rfl ⟨rfl, rfl⟩
    · exact h
  next =>
    rw [← Option.some.inj hstep]
    unfold State.sendFriend
    split
    · exact h.same (keys_modify _ _ fun _ => rfl) rfl rfl rfl ⟨rfl, rfl⟩
    · exact h.same rfl rfl rfl rfl ⟨rfl, rfl⟩
  next =>
    rw [← Option.some.inj hstep]
    exact h.same rfl rfl rfl rfl ⟨rfl, rfl⟩
  next => exact forkUser_kept h hstep
  next =>
    rw [← Option.some.inj hstep]
    exact h.same rfl rfl rfl rfl ⟨rfl, rfl⟩
  next => contradiction

theorem worldListener_kept (h : Kept s) {o : ListenerOutcome} {world : World}
    (hstep : s.world.listenerStep par o = some world) : Kept (s.withWorld world) := by
  obtain ⟨hkept, hdid⟩ := listenerStep_cases hstep
  have hchildren : childPids world = childPids s.world :=
    congrArg (List.map Writer.myPID) hkept.children
  cases hdid with
  | took failure result hqueues hnodes =>
    exact h.same (keys_rcvTrans hqueues) hkept.same.master hnodes hchildren ⟨rfl, rfl⟩
  | spawned nodePID hfork hqueues hnodes =>
    have hkeys : world.queues.map Queue.key = keys s := congrArg (List.map Queue.key) hqueues
    unfold World.newNodes at hnodes
    split at hnodes
    next =>
      rw [List.append_nil] at hnodes
      exact h.same hkeys hkept.same.master hnodes hchildren ⟨rfl, rfl⟩
    next hne =>
      exact h.addNode (hfork hne).2 hkeys hkept.same.master hnodes hchildren ⟨rfl, rfl⟩
  | befriended queue friend hqueues hnodes =>
    refine h.same ?_ hkept.same.master hnodes hchildren ⟨rfl, rfl⟩
    show world.queues.map Queue.key = keys s
    rw [hqueues]
    exact keys_modify _ _ fun _ => rfl
  | idle hqueues hnodes =>
    exact h.same (congrArg (List.map Queue.key) hqueues) hkept.same.master hnodes hchildren
      ⟨rfl, rfl⟩

theorem listenerStep_kept (h : Kept s) {o : ListenerOutcome}
    (hstep : s.listenerStep par o = some s') : Kept s' := by
  unfold State.listenerStep at hstep
  split at hstep
  · rw [← Option.some.inj hstep]
    exact h.same rfl rfl rfl rfl ⟨rfl, rfl⟩
  · dsimp only at hstep
    split at hstep
    · split at hstep
      next hfresh =>
        rw [← Option.some.inj hstep]
        exact h.addNode (fun hin => hfresh.2 (List.mem_append_left _ hin)) rfl rfl rfl rfl
          ⟨rfl, rfl⟩
      next => contradiction
    next =>
      obtain ⟨world, hworld, rfl⟩ := Option.map_eq_some_iff.mp hstep
      exact worldListener_kept h hworld
  · contradiction

theorem userStep_kept (h : Kept s) {u : ℕ} {a : Users.Attempt}
    (hstep : s.userStep par u a = some s') : Kept s' := by
  obtain ⟨t, -, hrest⟩ := Option.bind_eq_some_iff.mp hstep
  obtain ⟨⟨rows, t'⟩, -, rfl⟩ := Option.map_eq_some_iff.mp hrest
  refine h.same ?_ rfl rfl rfl ⟨rfl, rfl⟩
  show (s.delivered t a).map Queue.key = keys s
  unfold State.delivered
  split
  · exact keys_modify _ _ fun _ => rfl
  · rfl

/-- Every step keeps the account of the queues. -/
theorem next_kept (h : Kept s) {l : Startup.Label} (hl : AfterAttach s l)
    (hn : s.next par l = some s') : Kept s' := by
  cases l with
  | master o => exact masterStep_kept h hn
  | listener o => exact listenerStep_kept h hn
  | node i o =>
    simp only [State.next, State.nodeStep] at hn
    split at hn
    · contradiction
    next hi =>
      obtain ⟨world, hworld, rfl⟩ := Option.map_eq_some_iff.mp hn
      exact nodeStep_kept h hi hworld
  | child k reading =>
    simp only [State.next, State.childStep] at hn
    split at hn
    · contradiction
    · obtain ⟨world, hworld, rfl⟩ := Option.map_eq_some_iff.mp hn
      exact childStep_kept h hworld
  | nodeSigint i => exact nodeSigint_kept h hl hn
  | childSigint k => exact childSigint_kept h hn
  | user u a => exact userStep_kept h hn
  | sigusr1 u =>
    obtain ⟨t, -, hrest⟩ := Option.bind_eq_some_iff.mp hn
    obtain ⟨c, -, rfl⟩ := Option.map_eq_some_iff.mp hrest
    exact h.same rfl rfl rfl rfl ⟨rfl, rfl⟩
  | sigint u =>
    obtain ⟨t, -, rfl⟩ := Option.map_eq_some_iff.mp hn
    exact h.same rfl rfl rfl rfl ⟨rfl, rfl⟩

theorem kept_initial (h : Startup.Initial par s) : Kept s := by
  have hnodes : nodePids s.world = [] := congrArg (List.map _) h.nodes
  have hchildren : childPids s.world = [] := congrArg (List.map _) h.children
  have hkeys : keys s = [s.world.master] := congrArg (List.map Queue.key) h.queues
  refine ⟨⟨?_, ?_, ?_, ?_, ?_, ?_⟩, ?_, ?_⟩
  · rw [hnodes]
    exact List.nodup_nil
  · rw [hnodes]
    exact List.not_mem_nil
  · rw [h.nodes]
    exact fun c hc => absurd hc List.not_mem_nil
  · rw [hchildren]
    exact fun pid hpid => absurd hpid List.not_mem_nil
  · rw [h.stopped.1]
    exact fun i hi => absurd hi List.not_mem_nil
  · rw [h.stopped.2]
    exact fun k hk => absurd hk List.not_mem_nil
  · rw [hkeys]
    exact List.nodup_singleton _
  · intro key
    have hnone : ¬ Made s.world key := by
      rintro ⟨c, hc, -⟩
      rw [h.nodes] at hc
      exact List.not_mem_nil hc
    rw [hkeys, List.mem_singleton]
    exact ⟨Or.inl, fun hor => hor.resolve_right fun hmade => hnone hmade.1⟩

theorem Kept.leftOver_eq_nil (h : Kept s) :
    leftOver s = [] ↔ ∀ pid, Made s.world pid → Interrupted s pid := by
  have hkey : ∀ key, key ∈ (leftOver s).map Queue.key ↔ Made s.world key ∧ ¬ Interrupted s key := by
    intro key
    rw [leftOver, keys_filter, List.mem_filter, decide_eq_true_iff]
    have hleft := h.left key
    constructor
    · rintro ⟨hkey, hne⟩
      exact (hleft.mp hkey).resolve_left hne
    · rintro ⟨⟨c, hc, rfl, hpc⟩, hnot⟩
      exact ⟨hleft.mpr (Or.inr ⟨⟨c, hc, rfl, hpc⟩, hnot⟩), h.ne_master hc⟩
  rw [← List.map_eq_nil_iff, List.eq_nil_iff_forall_not_mem]
  refine forall_congr' fun pid => ?_
  rw [hkey, not_and, not_not]

end Runs

section Example

open StoredRows (pair launch launch_initial master quiet)

instance (pc : NodePc) : Decidable (Attached pc) := inferInstanceAs (Decidable (_ ∧ _))

instance (s : State) : (l : Startup.Label) → Decidable (AfterAttach s l)
  | .nodeSigint _ => inferInstanceAs (Decidable (∀ _ ∈ _, _))
  | .master _ => isTrue trivial
  | .listener _ => isTrue trivial
  | .node _ _ => isTrue trivial
  | .child _ _ => isTrue trivial
  | .childSigint _ => isTrue trivial
  | .user _ _ => isTrue trivial
  | .sigusr1 _ => isTrue trivial
  | .sigint _ => isTrue trivial

theorem interrupted_run : ∃ s, (Startup.machine pair).runWhile AfterAttach launch
    [master 11, master 11, .node 0 quiet, .node 0 quiet, .nodeSigint 0] = some s ∧
      Made s.world 11 ∧ leftOver s = [] :=
  ⟨_, rfl, ⟨_, List.mem_cons_self, rfl, nofun⟩, rfl⟩

end Example

end SimulazioneTransazioni.QueuesLeft

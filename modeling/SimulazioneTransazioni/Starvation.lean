import SimulazioneTransazioni.AtRest

/-!
When a node that waits for a transaction waits for ever. The kernel bounds the
bytes of a queue, and the new friends of a node that waits stay on its queue, so
they can fill it. A comment of fetch_messages fears for this two friends, one after
the other; what decides is the room for one transaction. Where there is none, the
node makes no step in any run, and where there is room, a payment wakes it up.
-/
namespace SimulazioneTransazioni.Starvation

open Nodes Users Queues Network NetworkWiring NetworkWork AtRest

section Lookup

variable {queues queues' : List Queue} {id key : Int32} {q : Queue}

theorem lookup_key (h : lookup queues key = some q) : q ∈ queues ∧ q.key = key := by
  obtain ⟨i, hi, hget⟩ := Option.bind_eq_some_iff.mp h
  obtain ⟨q', hget', hkey⟩ := Table.getElem_indexOf Queue.key hi
  rw [hget, Option.some.injEq] at hget'
  exact ⟨List.mem_of_getElem? hget, hget' ▸ hkey⟩

theorem lookup_modify (queues : List Queue) (id key : Int32) {f : Queue → Queue}
    (hf : ∀ q, (f q).key = q.key) :
    lookup (modify queues id f) key =
      if key = id then (lookup queues key).map f else lookup queues key := by
  have hindex := Table.indexOf_congr Queue.key (keys_modify queues id hf) key
  rw [lookup, hindex, Queues.modify]
  by_cases hkey : key = id
  · rw [if_pos hkey, hkey, lookup]
    cases hi : Table.indexOf Queue.key queues id with
    | none => rfl
    | some i =>
      rw [Option.bind_some, Option.bind_some]
      exact List.getElem?_modify_eq f i queues
  · rw [if_neg hkey, lookup]
    cases hi : Table.indexOf Queue.key queues id with
    | none => rfl
    | some i =>
      cases hj : Table.indexOf Queue.key queues key with
      | none => rfl
      | some j =>
        have hij : i ≠ j := by
          rintro rfl
          obtain ⟨q, hq, hid⟩ := Table.getElem_indexOf Queue.key hi
          obtain ⟨q', hq', hkey'⟩ := Table.getElem_indexOf Queue.key hj
          rw [hq, Option.some.injEq] at hq'
          exact hkey (by rw [← hkey', ← hid, hq'])
        rw [Option.bind_some, Option.bind_some]
        exact List.getElem?_modify_ne f queues hij

theorem mem_modify_lookup {f : Queue → Queue} {q' : Queue} (h : q' ∈ Queues.modify queues id f) :
    q' ∈ queues ∨ ∃ q, lookup queues id = some q ∧ q' = f q := by
  unfold Queues.modify at h
  split at h
  · exact Or.inl h
  next i hi =>
    obtain ⟨j, hj⟩ := List.mem_iff_getElem?.mp h
    by_cases hij : i = j
    · subst hij
      rw [List.getElem?_modify_eq] at hj
      obtain ⟨q, hq, hf⟩ := Option.map_eq_some_iff.mp hj
      refine Or.inr ⟨q, ?_, hf.symm⟩
      rw [lookup, hi, Option.bind_some, hq]
    · rw [List.getElem?_modify_ne f queues hij] at hj
      exact Or.inl (List.mem_of_getElem? hj)

theorem lookup_append (h : lookup queues key = some q) (new : List Queue) :
    lookup (queues ++ new) key = some q := by
  obtain ⟨i, hi, hget⟩ := Option.bind_eq_some_iff.mp h
  obtain ⟨hlt, -⟩ := List.getElem?_eq_some_iff.mp hget
  have hindex : Table.indexOf Queue.key (queues ++ new) key = some i := by
    rw [Table.indexOf, List.findIdx?_append]
    rw [Table.indexOf] at hi
    rw [hi]
    rfl
  rw [lookup, hindex, Option.bind_some, List.getElem?_append_left hlt, hget]

theorem lookup_takeTrans {m : Message} (h : takeTrans queues id = some (m, queues'))
    (hother : key ≠ id) : lookup queues' key = lookup queues key := by
  obtain ⟨q, -, hrest⟩ := Option.bind_eq_some_iff.mp h
  split at hrest
  · contradiction
  next m' rest _ =>
    simp only [Option.some.injEq, Prod.mk.injEq] at hrest
    have hframe := lookup_modify queues id key
      (f := fun q => q.withTrans rest) fun _ => rfl
    rw [← hrest.2, hframe, if_neg hother]

theorem lookup_rcvTrans {failure : Option Errno} {result : MsgrcvResult Message}
    (h : rcvTrans queues failure id = some (result, queues')) (hother : key ≠ id) :
    lookup queues' key = lookup queues key := by
  unfold rcvTrans at h
  cases failure with
  | some e =>
    simp only [Option.some.injEq, Prod.mk.injEq] at h
    rw [← h.2]
  | none =>
    obtain ⟨⟨m, queues₁⟩, htake, heq⟩ := Option.map_eq_some_iff.mp h
    simp only [Prod.mk.injEq] at heq
    rw [← heq.2]
    exact lookup_takeTrans htake hother

theorem lookup_awaitFriend {failure : Option Errno} {r : MsgrcvResult PidT × List Queue}
    (h : awaitFriend queues failure id = some r) (hother : key ≠ id) :
    lookup r.2 key = lookup queues key := by
  unfold awaitFriend at h
  cases failure with
  | some e => rw [← Option.some.inj h]
  | none =>
    obtain ⟨⟨friend, queues₁⟩, htake, rfl⟩ := Option.map_eq_some_iff.mp h
    obtain ⟨q, -, hrest⟩ := Option.bind_eq_some_iff.mp htake
    split at hrest
    · contradiction
    next friend' rest _ =>
      simp only [Option.some.injEq, Prod.mk.injEq] at hrest
      have hframe := lookup_modify queues id key
        (f := fun q => q.withFriends rest) fun _ => rfl
      rw [if_neg hother] at hframe
      show lookup queues₁ key = lookup queues key
      rw [← hrest.2, hframe]

theorem lookup_rcvFriend (queues : List Queue) (failure : Option Errno) (hother : key ≠ id) :
    lookup (rcvFriend queues failure id).2 key = lookup queues key := by
  unfold rcvFriend
  split
  next r h => exact lookup_awaitFriend h hother
  next => rfl

end Lookup

/-- The sizes that the senders pass to msgsnd, and the bytes that a queue can hold. -/
structure Limits where
  trans : ℕ
  friends : ℕ
  qbytes : ℕ

def Limits.bytes (k : Limits) (q : Queue) : ℕ :=
  k.trans * q.trans.length + k.friends * q.friends.length

def Within (par : Parameters) (k : Limits) (s : World) (l : Label) : Prop :=
  ∀ s', World.next par s l = some s' → ∀ q ∈ s'.queues, k.bytes q ≤ k.qbytes

inductive Fed (queues queues' : List Queue) (key : PidT) : Prop
  | same (h : lookup queues' key = lookup queues key)
  | trans (m : Message)
      (h : lookup queues' key = (lookup queues key).map fun q => q.withTrans (q.trans ++ [m]))
  | friend (friend : PidT)
      (h : lookup queues' key =
        (lookup queues key).map fun q => q.withFriends (q.friends ++ [friend]))

section Feeding

variable {par : Parameters} {queues queues' : List Queue} {key : PidT}

theorem fed_pushTrans (queues : List Queue) (id : Int32) (m : Message) :
    Fed queues (pushTrans queues id m) key := by
  have hlookup := lookup_modify queues id key
    (f := fun q => q.withTrans (q.trans ++ [m])) fun _ => rfl
  by_cases hkey : key = id
  · rw [if_pos hkey] at hlookup
    exact .trans m hlookup
  · rw [if_neg hkey] at hlookup
    exact .same hlookup

theorem fed_pushFriend (queues : List Queue) (id : Int32) (friend : PidT) :
    Fed queues (pushFriend queues id friend) key := by
  have hlookup := lookup_modify queues id key
    (f := fun q => q.withFriends (q.friends ++ [friend])) fun _ => rfl
  by_cases hkey : key = id
  · rw [if_pos hkey] at hlookup
    exact .friend friend hlookup
  · rw [if_neg hkey] at hlookup
    exact .same hlookup

theorem fed_deliver (queues : List Queue) (e : FetchEvent) :
    Fed queues (World.deliver queues e) key := by
  unfold World.deliver
  split
  · exact fed_pushTrans queues _ _
  · exact fed_pushTrans queues _ _
  · exact .same rfl

theorem Fed.of_same (h : Fed queues queues' key) {queues₀ : List Queue}
    (hsame : lookup queues key = lookup queues₀ key) : Fed queues₀ queues' key := by
  cases h with
  | same h => exact .same (h.trans hsame)
  | trans m h => exact .trans m (by rw [h, hsame])
  | friend friend h => exact .friend friend (by rw [h, hsame])

end Feeding

section Steps

variable {par : Parameters} {s s' : World} {key : PidT} {q : Queue}

/-- The step of a process that does not own the queue. -/
theorem nodeStep_fed {j : ℕ} {o : NodeOutcome} (hwired : Wired s)
    (hq : lookup s.queues key = some q)
    (hother : ∀ c, s.nodes[j]? = some c → c.proc.myPID ≠ key)
    (h : s.nodeStep par j o = some s') : Fed s.queues s'.queues key := by
  obtain ⟨c, hc, hdid⟩ := nodeStep_did h
  have hne : Attached c.pc → key ≠ c.proc.queueID := by
    intro hattached heq
    rw [(hwired.nodes c (List.mem_of_getElem? hc)).queue hattached] at heq
    exact hother c hc heq.symm
  cases hdid with
  | creates hpc =>
    refine .same ?_
    rw [hq]
    exact lookup_append hq _
  | searches errno queueID hpc => exact .same rfl
  | attaches errno size hpc => exact .same rfl
  | befriends friendMex friend errno result queues hpc hawait =>
    exact .same (lookup_awaitFriend hawait (hne (by simp [hpc, Attached])))
  | starts friendMex hpc hlength => exact .same rfl
  | fetches fetched queues p e hpc hreceive hfetch =>
    have hkey := hne (by simp [hpc, Attached])
    refine (fed_deliver queues e).of_same ?_
    unfold World.receive at hreceive
    split at hreceive
    · obtain ⟨⟨mex, queues₁⟩, hrcv, heq⟩ := Option.map_eq_some_iff.mp hreceive
      have hqueues : (rcvFriend queues₁ o.friendFailure c.proc.queueID).2 = queues :=
        congrArg Prod.snd heq
      rw [← hqueues, lookup_rcvFriend _ _ hkey, lookup_rcvTrans hrcv hkey]
    · have hqueues : s.queues = queues := congrArg Prod.snd (Option.some.inj hreceive)
      rw [hqueues]
  | publishes nodesPID p hpc hsize => exact .same rfl
  | processes p e hpc hblock => exact .same rfl

/-- The others only add to the queue of a node. -/
theorem next_fed {l : Label} (hwired : Wired s) (hq : lookup s.queues key = some q)
    (hmaster : key ≠ s.master)
    (hother : ∀ j o c, l = .node j o → s.nodes[j]? = some c → c.proc.myPID ≠ key)
    (h : World.next par s l = some s') : Fed s.queues s'.queues key := by
  cases l with
  | user u a =>
    obtain ⟨p, p', result, -, rfl, -⟩ := userStep_cases h
    cases result with
    | failed e => exact .same rfl
    | sent => exact fed_pushTrans s.queues _ _
  | node j o => exact nodeStep_fed hwired hq (fun c hc => hother j o c rfl hc) h
  | child j reading =>
    obtain ⟨w, -, hrest⟩ := Option.bind_eq_some_iff.mp h
    obtain ⟨r, -, rfl⟩ := Option.map_eq_some_iff.mp hrest
    exact .same rfl
  | listener o =>
    obtain ⟨-, hdid⟩ := listenerStep_cases h
    cases hdid with
    | took failure result hqueues hnodes => exact .same (lookup_rcvTrans hqueues hmaster)
    | spawned nodePID hfork hqueues hnodes => exact .same (by rw [hqueues])
    | befriended queue friend hqueues hnodes =>
      rw [hqueues]
      exact fed_pushFriend s.queues queue friend
    | idle hqueues hnodes => exact .same (by rw [hqueues])

def Full (k : Limits) (queues : List Queue) (key : PidT) : Prop :=
  ∃ q, lookup queues key = some q ∧ q.trans = [] ∧ k.qbytes < k.bytes q + k.trans

/-- A full queue stays full: only friends can come. -/
theorem Fed.full {k : Limits} {queues queues' : List Queue} (h : Fed queues queues' key)
    (hwithin : ∀ q ∈ queues', k.bytes q ≤ k.qbytes) (hfull : Full k queues key) :
    Full k queues' key := by
  obtain ⟨q, hq, htrans, hbytes⟩ := hfull
  cases h with
  | same h => exact ⟨q, h.trans hq, htrans, hbytes⟩
  | trans m h =>
    exfalso
    rw [hq, Option.map_some] at h
    have hle := hwithin _ (lookup_key h).1
    rw [Limits.bytes, htrans] at hbytes
    rw [Limits.bytes, Queue.withTrans, htrans] at hle
    simp only [List.nil_append, List.length_nil, List.length_singleton] at hbytes hle
    omega
  | friend friend h =>
    rw [hq, Option.map_some] at h
    refine ⟨_, h, htrans, ?_⟩
    show k.qbytes <
      k.trans * q.trans.length + k.friends * (q.friends ++ [friend]).length + k.trans
    rw [List.length_append, Nat.mul_add]
    rw [Limits.bytes] at hbytes
    omega

/-- The node waits for a transaction that its queue has no room for. -/
structure Stuck (par : Parameters) (k : Limits) (i : ℕ) (c : NodeCell) (s : World) : Prop where
  node : s.nodes[i]? = some c
  fetch : c.pc = .fetch
  receives : Receives par c.proc
  full : Full k s.queues c.proc.myPID

theorem Stuck.waits {k : Limits} {i : ℕ} {c : NodeCell} (h : Stuck par k i c s)
    (hwired : Wired s) : Waits par s c := by
  refine ⟨h.fetch, h.receives, ?_⟩
  obtain ⟨q, hq, htrans, -⟩ := h.full
  have hnode := hwired.nodes c (List.mem_of_getElem? h.node)
  rw [hnode.queue (by simp [h.fetch, Attached]), takeTrans, takeFirst, hq, Option.bind_some, htrans]

theorem waits_step {i : ℕ} {c : NodeCell} {o : NodeOutcome} (hwaits : Waits par s c)
    (hc : s.nodes[i]? = some c) (hanswered : o.rcvFailure = none) :
    s.nodeStep par i o = none := by
  simp only [World.nodeStep, hc, Option.bind_some, hwaits.fetch, World.fetchStep, World.receive,
    if_pos hwaits.receives, rcvTrans, hanswered, hwaits.none, Option.map_none, Option.bind_none]

theorem getElem_nodes {l : Label} {i : ℕ} {c : NodeCell} (hc : s.nodes[i]? = some c)
    (hother : ∀ o, l ≠ .node i o) (h : World.next par s l = some s') :
    s'.nodes[i]? = some c := by
  cases l with
  | user u a =>
    obtain ⟨p, p', result, -, rfl, -⟩ := userStep_cases h
    cases result <;> exact hc
  | node j o =>
    have hij : j ≠ i := by
      rintro rfl
      exact hother o rfl
    obtain ⟨c', -, hdid⟩ := nodeStep_did h
    cases hdid <;> exact (List.getElem?_set_ne hij).trans hc
  | child j reading =>
    obtain ⟨w, -, hrest⟩ := Option.bind_eq_some_iff.mp h
    obtain ⟨r, -, rfl⟩ := Option.map_eq_some_iff.mp hrest
    exact hc
  | listener o =>
    obtain ⟨-, hdid⟩ := listenerStep_cases h
    cases hdid with
    | took failure result hqueues hnodes => rwa [hnodes]
    | befriended queue friend hqueues hnodes => rwa [hnodes]
    | idle hqueues hnodes => rwa [hnodes]
    | spawned nodePID hfork hqueues hnodes =>
      obtain ⟨hlt, -⟩ := List.getElem?_eq_some_iff.mp hc
      rw [hnodes, List.getElem?_append_left hlt, hc]

theorem next_distinct (hs : (owners s).Nodup) {l : Label} (h : World.next par s l = some s') :
    (owners s').Nodup := by
  rcases next_owners h with hsame | ⟨pid, hfresh, hmore⟩
  · rwa [hsame]
  · rw [hmore, List.nodup_append]
    refine ⟨hs, List.nodup_singleton pid, ?_⟩
    intro key hkey new hnew heq
    rw [List.mem_singleton.mp hnew] at heq
    rw [heq] at hkey
    refine hfresh ?_
    rcases List.mem_cons.mp hkey with rfl | hnode
    · exact List.mem_append_left _ (List.mem_append_left _ List.mem_cons_self)
    · exact List.mem_append_right _ hnode

/-- No step frees a node that is stuck. -/
theorem stuck_next {k : Limits} {i : ℕ} {c : NodeCell} {l : Label} (hwired : Wired s)
    (hdistinct : (owners s).Nodup) (h : Stuck par k i c s) (hanswered : Answered s l)
    (hwithin : Within par k s l) (hn : World.next par s l = some s') : Stuck par k i c s' := by
  have hself : ∀ o, l ≠ .node i o := by
    rintro o rfl
    have hnone := waits_step (h.waits hwired) h.node hanswered
    have hsome : s.nodeStep par i o = some s' := hn
    rw [hnone] at hsome
    contradiction
  obtain ⟨q, hq, -⟩ := h.full
  have hmem := List.mem_of_getElem? h.node
  refine ⟨getElem_nodes h.node hself hn, h.fetch, h.receives, ?_⟩
  refine Fed.full (next_fed hwired hq (hwired.nodes c hmem).notMaster ?_ hn) (hwithin s' hn) h.full
  -- Another node has another pid.
  rintro j o c' rfl hc' heq
  have hij : j ≠ i := by
    rintro rfl
    exact hself o rfl
  have hpids : (s.nodes.map (NodeCell.proc · |>.myPID)).Nodup := (List.nodup_cons.mp hdistinct).2
  obtain ⟨hj, -⟩ := List.getElem?_eq_some_iff.mp hc'
  refine hij ((List.getElem?_inj (by rwa [List.length_map]) hpids).mp ?_)
  rw [List.getElem?_map, List.getElem?_map, hc', h.node, Option.map_some, Option.map_some, heq]

end Steps

section Payments

variable {par : Parameters} {k : Limits} {s : World} {i : ℕ} {c : NodeCell} {q : Queue}

/-- A user can draw the node and a receiver, at a time at which it has sent nothing. -/
def Payer (par : Parameters) (s : World) (node : PidT) : Prop :=
  ∃ (u : ℕ) (p : UserProc) (receiver : PidT) (a : Order),
    s.users[u]? = some p ∧ a.failure = none ∧
    getRandomUserPID par s.usersPID p.myPID a.userDraws = .ok receiver ∧
    getRandomNodePID par s.nodesPID a.nodeDraws = .ok node ∧
    ¬ ∃ t ∈ s.sent, t.sender = p.myPID ∧ t.timestamp = a.clock

theorem pays_node {node : PidT} (hpayer : Payer par s node)
    (hkey : node ∈ s.queues.map Queue.key) :
    ∃ u a m s', World.next par s (.user u a) = some s' ∧ s'.nodes = s.nodes ∧
      s'.queues = pushTrans s.queues node m := by
  obtain ⟨u, p, receiver, a, hp, hfailure, hreceiver, hnode, hclock⟩ := hpayer
  have hfound : msgget s.queues node = .found node := if_pos hkey
  have hsent : msgsnd s.queues a.failure node = .sent := by
    simp only [msgsnd, hfailure, if_pos hkey]
  have hstep : s.userStep par u a = some (s.sentBy u (sendTransaction .sent
      (transactionInit par a.clock receiver a.amount a.reward
        { p with errno := .zero, queueID := node })).2 .sent) := by
    simp only [World.userStep, hp, Option.bind_some, if_neg hclock, hnode, hfound,
      MsggetResult.queue, hsent, sendFresh, hreceiver, queueToPid, MsggetResult.errno, bind,
      Except.bind, pure, Except.pure]
    rfl
  exact ⟨u, a, _, _, hstep, rfl, rfl⟩

/-- The node takes a transaction that is on its queue. -/
theorem node_takes {m : Message} {queues : List Queue} (hc : s.nodes[i]? = some c)
    (hpc : c.pc = .fetch) (hreceives : Receives par c.proc)
    (htake : takeTrans s.queues c.proc.queueID = some (m, queues)) :
    ∃ o s', Answered s (.node i o) ∧ World.next par s (.node i o) = some s' ∧
      s'.queues = queues ∧ s'.nodes[i]? ≠ some c := by
  let o : NodeOutcome := ⟨none, some .ENOMSG, none, 0, .parent 1⟩
  have hreceive : s.receive par o c.proc =
      some (⟨.delivered m, .failed .ENOMSG⟩, queues) := by
    rw [World.receive, if_pos hreceives]
    simp only [o, rcvTrans, htake, Option.map_some]
    rfl
  have hfetch : ∃ p e, fetchMessages par ⟨.delivered m, .failed .ENOMSG⟩ (s.hopOutcome c o)
      c.proc = .ok (p, .received e) := by
    unfold fetchMessages
    rw [if_pos hreceives]
    exact ⟨_, _, rfl⟩
  obtain ⟨p, e, hfetch⟩ := hfetch
  have hstep : s.nodeStep par i o =
      some ((s.withQueues queues).setNode i (c.goto .publish p)) := by
    simp only [World.nodeStep, hc, Option.bind_some, hpc, World.fetchStep, hreceive, hfetch]
    rfl
  refine ⟨o, _, rfl, hstep, rfl, ?_⟩
  show (s.nodes.set i (c.goto .publish p))[i]? ≠ some c
  obtain ⟨hlt, -⟩ := List.getElem?_eq_some_iff.mp hc
  rw [List.getElem?_set_self hlt]
  intro heq
  have hsame := congrArg NodeCell.pc (Option.some.inj heq)
  rw [hpc] at hsame
  contradiction

theorem bytes_push (hq : lookup s.queues c.proc.myPID = some q)
    (hroom : k.bytes q + k.trans ≤ k.qbytes) (hwithin : ∀ q ∈ s.queues, k.bytes q ≤ k.qbytes)
    (m : Message) : ∀ q ∈ pushTrans s.queues c.proc.myPID m, k.bytes q ≤ k.qbytes := by
  intro q' hq'
  rcases mem_modify_lookup hq' with hold | ⟨q₀, hq₀, rfl⟩
  · exact hwithin q' hold
  · rw [hq, Option.some.injEq] at hq₀
    rw [← hq₀]
    show k.trans * (q.trans ++ [m]).length + k.friends * q.friends.length ≤ k.qbytes
    rw [List.length_append, Nat.mul_add, List.length_singleton]
    rw [Limits.bytes] at hroom
    omega

theorem bytes_take {queues queues' : List Queue} {id : Int32} {m : Message}
    (h : takeTrans queues id = some (m, queues')) (hwithin : ∀ q ∈ queues, k.bytes q ≤ k.qbytes) :
    ∀ q ∈ queues', k.bytes q ≤ k.qbytes := by
  obtain ⟨q, hq, hrest⟩ := Option.bind_eq_some_iff.mp h
  split at hrest
  · contradiction
  next m' rest htrans =>
    simp only [Option.some.injEq, Prod.mk.injEq] at hrest
    intro q' hq'
    rw [← hrest.2] at hq'
    rcases mem_modify_lookup hq' with hold | ⟨q₀, hq₀, rfl⟩
    · exact hwithin q' hold
    · rw [hq, Option.some.injEq] at hq₀
      have hle := hwithin q (lookup_key hq).1
      rw [Limits.bytes, htrans, List.length_cons, Nat.mul_succ] at hle
      rw [← hq₀]
      show k.trans * rest.length + k.friends * q.friends.length ≤ k.qbytes
      omega

/-- Where there is room, a payment wakes the node up. -/
theorem wakes (hwired : Wired s) (hc : s.nodes[i]? = some c) (hwaits : Waits par s c)
    (hq : lookup s.queues c.proc.myPID = some q) (hroom : k.bytes q + k.trans ≤ k.qbytes)
    (hwithin : ∀ q ∈ s.queues, k.bytes q ≤ k.qbytes) (hpayer : Payer par s c.proc.myPID) :
    ∃ s', (Network.machine par).Path (fun s l => Answered s l ∧ Within par k s l) s s' ∧
      s'.nodes[i]? ≠ some c := by
  have hown : c.proc.queueID = c.proc.myPID :=
    (hwired.nodes c (List.mem_of_getElem? hc)).queue (by simp [hwaits.fetch, Attached])
  have hkey : c.proc.myPID ∈ s.queues.map Queue.key := by
    obtain ⟨hmem, heq⟩ := lookup_key hq
    rw [← heq]
    exact List.mem_map_of_mem hmem
  obtain ⟨u, a, m, s₁, hpay, hnodes, hqueues⟩ := pays_node hpayer hkey
  have hbytes := bytes_push hq hroom hwithin m
  rw [← hqueues] at hbytes
  have htake : ∃ m' queues, takeTrans s₁.queues c.proc.queueID = some (m', queues) := by
    have hpushed := lookup_modify s.queues c.proc.myPID c.proc.myPID
      (f := fun q => q.withTrans (q.trans ++ [m])) fun _ => rfl
    rw [if_pos rfl, hq, Option.map_some] at hpushed
    rw [hown, hqueues, takeTrans, takeFirst, pushTrans, hpushed, Option.bind_some]
    dsimp only [Queue.withTrans]
    cases q.trans with
    | nil => exact ⟨_, _, rfl⟩
    | cons head rest => exact ⟨_, _, rfl⟩
  obtain ⟨m', queues, htake⟩ := htake
  rw [← hnodes] at hc
  obtain ⟨o, s₂, hanswered, hstep, hleft, hmoved⟩ := node_takes hc hwaits.fetch hwaits.receives htake
  have hbytes' := bytes_take htake hbytes
  rw [← hleft] at hbytes'
  refine ⟨s₂, ?_, hmoved⟩
  have hfirst : (Network.machine par).Path (fun s l => Answered s l ∧ Within par k s l) s s₁ := by
    have hanswered : Answered s (.user u a) := trivial
    refine (Machine.Path.refl s).tail ⟨hanswered, ?_⟩ hpay
    intro s' hs'
    rw [hpay, Option.some.injEq] at hs'
    rwa [← hs']
  refine hfirst.tail ⟨hanswered, ?_⟩ hstep
  intro s' hs'
  rw [hstep, Option.some.injEq] at hs'
  rwa [← hs']

end Payments

section Example

open Confirmation (small launch launch_initial)

/-- User 7 pays user 8 through node 40. -/
theorem calm_payer {s : World} (husers : s.users.map UserProc.myPID = [7])
    (hrows : s.usersPID = launch.usersPID)
    (hnodes : s.nodesPID.map (fun row => (row.pid, row.status)) =
      [(40, .available), (41, .available), (0, .available), (0, .available)])
    (hsent : s.sent.map Transaction.timestamp = [⟨1, 1⟩]) : Payer small s 40 := by
  obtain ⟨p, hp, hpid⟩ : ∃ p, s.users[0]? = some p ∧ p.myPID = 7 := by
    have hfirst := congrArg (fun l => l[0]?) husers
    rw [List.getElem?_map] at hfirst
    exact Option.map_eq_some_iff.mp hfirst
  obtain ⟨row, hrow, hcells⟩ : ∃ row, s.nodesPID[0]? = some row ∧
      (row.pid, row.status) = (40, .available) := by
    have hfirst := congrArg (fun l => l[0]?) hnodes
    rw [List.getElem?_map] at hfirst
    exact Option.map_eq_some_iff.mp hfirst
  simp only [Prod.mk.injEq] at hcells
  refine ⟨0, p, 8, ⟨[1], [0], ⟨1, 2⟩, 99, 1, none⟩, hp, rfl, ?_, ?_, ?_⟩
  · rw [hrows, hpid]
    rfl
  · have hdraw : rand 0 0 (small.soNodesNum * 2 - 1) = some 0 := rfl
    simp only [getRandomNodePID, hdraw]
    rw [show (0 : UInt32).toNat = 0 from rfl, hrow]
    simp only [hcells]
    rfl
  · rintro ⟨t, ht, -, hclock⟩
    have hin := List.mem_map_of_mem (f := Transaction.timestamp) ht
    rw [hsent, List.mem_singleton, hclock] at hin
    exact absurd hin (by decide)

theorem calm_users : ∃ s log, (Losses.logged small).run (launch, []) calm = some (s, log) ∧
    s.users.map UserProc.myPID = [7] ∧ s.usersPID = launch.usersPID ∧
    s.nodesPID.map (fun row => (row.pid, row.status)) =
      [(40, .available), (41, .available), (0, .available), (0, .available)] ∧
    s.sent.map Transaction.timestamp = [⟨1, 1⟩] := ⟨_, _, rfl, rfl, rfl, rfl, rfl⟩

end Example

end SimulazioneTransazioni.Starvation

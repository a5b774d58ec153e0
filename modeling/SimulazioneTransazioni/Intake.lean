import SimulazioneTransazioni.NodeRun

/-!
What a node takes in. A run of the main loop with a record of what msgrcv has
delivered and of what fetch_messages has added to the pool. Each receive looks
at errno, which a delivery does not reset, so that it goes right in two cases: a
delivery finds none of the listed values in errno, or a failure sets one of them.
A run takes in exactly what was delivered up to the first pass in which a receive
goes wrong, and not beyond it.
-/
namespace SimulazioneTransazioni.Intake

open Nodes NodeRun

section Receive

variable {α : Type*}

def delivery : MsgrcvResult α → List α
  | .delivered msg => [msg]
  | .failed _ => []

def errnoAfter (errno : Errno) : MsgrcvResult α → Errno
  | .delivered _ => errno
  | .failed e => e

def taken (errno : Errno) (result : MsgrcvResult α) (msg : α) : List α :=
  match receiveMessage errno result msg with
  | (.SUCCESS, _, mex) => [mex]
  | (.ERROR, _, _) => []

/-- The errno that receive_message looks at tells whether a message came. -/
def Told (errno : Errno) : MsgrcvResult α → Prop
  | .delivered _ => errno ∉ receiveErrors
  | .failed e => e ∈ receiveErrors

variable {errno : Errno} {result : MsgrcvResult α}

theorem taken_eq_iff (errno : Errno) (result : MsgrcvResult α) (msg : α) :
    taken errno result msg = delivery result ↔ Told errno result := by
  cases result with
  | delivered m =>
    by_cases he : errno ∈ receiveErrors
    · simp [taken, receiveMessage, receiveStatus, he, delivery, Told]
    · simp [taken, receiveMessage, receiveStatus, he, delivery, Told]
  | failed e =>
    by_cases he : e ∈ receiveErrors
    · simp [taken, receiveMessage, receiveStatus, he, delivery, Told]
    · simp [taken, receiveMessage, receiveStatus, he, delivery, Told]

theorem receiveMessage_errno (errno : Errno) (result : MsgrcvResult α) (msg : α) :
    (receiveMessage errno result msg).2.1 = errnoAfter errno result := by
  cases result <;> rfl

end Receive

section Pass

variable {p p' : NodeProc}

theorem receiveTransaction_taken (o : FetchOutcome) (p : NodeProc) :
    (receiveTransaction o p).2.toList = taken p.errno o.rcvTrans p.fetchedMex ∧
      (receiveTransaction o p).1.errno = errnoAfter p.errno o.rcvTrans ∧
      (receiveTransaction o p).1.friendList = p.friendList ∧
      (receiveTransaction o p).1.friendReceived = p.friendReceived := by
  rw [← receiveMessage_errno p.errno o.rcvTrans p.fetchedMex]
  unfold receiveTransaction taken
  split
  next errno mex heq =>
    rw [heq]
    exact ⟨rfl, rfl, rfl, rfl⟩
  next errno mex heq =>
    rw [heq]
    exact ⟨rfl, rfl, rfl, rfl⟩

theorem receiveFriend_taken (o : FetchOutcome) (p : NodeProc) :
    (receiveFriend o p).friendList =
      p.friendList ++ taken p.errno o.rcvFriend p.friendReceived := by
  unfold receiveFriend taken
  split
  next errno friend heq => rw [heq]
  next errno friend heq =>
    rw [heq]
    exact (List.append_nil _).symm

theorem hopped_friendList {o : HopOutcome} {e : HopEvent} (h : Hopped o p p' e) :
    p'.friendList = p.friendList := by
  cases h <;> rfl

theorem publishSize_rest {nodesPID nodesPID' : List Node}
    (h : publishSize nodesPID p = .ok (nodesPID', p')) :
    p'.friendList = p.friendList ∧ p'.errno = .EFBIG := by
  rw [(publishSize_ok h).1]
  exact ⟨rfl, rfl⟩

/-- After the second half errno is as before or what a failed fork set. -/
theorem processBlock_rest {fork : ForkResult} {e : BlockEvent}
    (h : processBlock fork p = .ok (p', e)) :
    p'.friendList = p.friendList ∧ (p'.errno = p.errno ∨ fork = .failed p'.errno) := by
  cases processBlock_processed h with
  | tooFew fork hfew => exact ⟨rfl, Or.inl rfl⟩
  | forked pid batch pool hfill => exact ⟨rfl, Or.inl rfl⟩
  | forkFailed errno batch pool hfill => exact ⟨rfl, Or.inr rfl⟩

end Pass

structure Log where
  nodesPID : List Node
  proc : NodeProc
  firstFriends : List PidT
  delivered : List Message
  added : List Message
  newFriends : List PidT

/-- The messages that a pass with these outcomes delivers, and the transactions
that its fetch_messages adds to the pool. -/
def deliveredTrans (o : FetchOutcome) : FetchEvent → List Message
  | .received _ => delivery o.rcvTrans
  | .hopped _ => []

def deliveredFriends (o : FetchOutcome) : FetchEvent → List PidT
  | .received _ => delivery o.rcvFriend
  | .hopped _ => []

def addedTrans : FetchEvent → List Message
  | .received arrival => arrival.toList
  | .hopped _ => []

def Log.next (par : Parameters) (s : Log) (o : LoopOutcome) : Option Log :=
  match loopBody par o s.nodesPID s.proc with
  | .error _ => none
  | .ok (nodesPID, p, fetched, _) =>
    some
      { nodesPID := nodesPID
        proc := p
        firstFriends := s.firstFriends
        delivered := s.delivered ++ deliveredTrans o.fetch fetched
        added := s.added ++ addedTrans fetched
        newFriends := s.newFriends ++ deliveredFriends o.fetch fetched }

/-- At the first head of the loop; the static flag of fetch_messages is 20. -/
structure Start (s : Log) : Prop where
  pool : s.proc.transPool = transactionPoolInit
  flag : s.proc.flag = 20
  friends : s.firstFriends = s.proc.friendList
  delivered : s.delivered = []
  added : s.added = []
  newFriends : s.newFriends = []

def machine (par : Parameters) : Machine Log LoopOutcome where
  start := Start
  next := Log.next par

/-- The transactions added to the pool are the delivered ones in the order of
delivery, and so are the friends added to friendList. -/
structure Exact (s : Log) : Prop where
  trans : s.added = s.delivered
  friends : s.proc.friendList = s.firstFriends ++ s.newFriends

/-- The failures of msgrcv, all of which but EINVAL receive_message lists. -/
def msgrcvErrors : List Errno := .EINVAL :: receiveErrors

/-- The failures are documented ones: msgrcv's are among its own, and those of
fork are none of them. -/
structure Documented (o : LoopOutcome) : Prop where
  trans : ∀ e, o.fetch.rcvTrans = .failed e → e ∈ msgrcvErrors
  friend : ∀ e, o.fetch.rcvFriend = .failed e → e ∈ msgrcvErrors
  fork : ∀ e, o.fork = .failed e → e ∉ msgrcvErrors

/-- No receive of the pass fails with EINVAL, and a friend is delivered only after
a transaction was. -/
structure Clear (o : LoopOutcome) : Prop where
  trans : o.fetch.rcvTrans ≠ .failed .EINVAL
  friend : o.fetch.rcvFriend ≠ .failed .EINVAL
  both : ∀ f, o.fetch.rcvFriend = .delivered f → ∃ m, o.fetch.rcvTrans = .delivered m

def Orderly (par : Parameters) (s : Log) (o : LoopOutcome) : Prop :=
  Receives par s.proc → Clear o

variable {par : Parameters} {s s' : Log} {o : LoopOutcome}

theorem mem_msgrcvErrors {e : Errno} : e ∈ msgrcvErrors ↔ e = .EINVAL ∨ e ∈ receiveErrors :=
  List.mem_cons

theorem einval_unlisted : Errno.EINVAL ∉ receiveErrors := by decide

/-- With an errno on entry that receive_message does not list, both receives are
told right exactly when the pass is clear. -/
theorem told_iff_clear {errno : Errno} (hentry : errno ∉ receiveErrors) (ho : Documented o) :
    (Told errno o.fetch.rcvTrans ∧
      Told (errnoAfter errno o.fetch.rcvTrans) o.fetch.rcvFriend) ↔ Clear o := by
  have hlisted : ∀ {α : Type} {result : MsgrcvResult α},
      (∀ e, result = .failed e → e ∈ msgrcvErrors) →
      ∀ e, result = .failed e → (e ∈ receiveErrors ↔ result ≠ .failed .EINVAL) := by
    intro α result hdoc e he
    rw [he]
    constructor
    · rintro hin heq
      rw [MsgrcvResult.failed.inj heq] at hin
      exact einval_unlisted hin
    · intro hne
      rcases mem_msgrcvErrors.mp (hdoc e he) with hinval | hin
      · exact absurd (by rw [hinval]) hne
      · exact hin
  constructor
  · rintro ⟨htrans, hfriend⟩
    refine ⟨?_, ?_, ?_⟩
    · intro heq
      rw [heq] at htrans
      exact einval_unlisted htrans
    · intro heq
      rw [heq] at hfriend
      exact einval_unlisted hfriend
    · intro f hf
      rw [hf] at hfriend
      cases ht : o.fetch.rcvTrans with
      | delivered m => exact ⟨m, rfl⟩
      | failed e =>
        rw [ht] at htrans hfriend
        exact absurd htrans hfriend
  · rintro ⟨htrans, hfriend, hboth⟩
    constructor
    · cases ht : o.fetch.rcvTrans with
      | delivered m => exact hentry
      | failed e =>
        have hin := (hlisted ho.trans e ht).mpr htrans
        exact hin
    · cases hf : o.fetch.rcvFriend with
      | delivered f =>
        obtain ⟨m, hm⟩ := hboth f hf
        rw [hm]
        exact hentry
      | failed e =>
        have hin := (hlisted ho.friend e hf).mpr hfriend
        exact hin

/-- What a pass does to the record. -/
theorem next_cases (h : Log.next par s o = some s') :
    s'.firstFriends = s.firstFriends ∧ (s'.proc.errno = .EFBIG ∨ o.fork = .failed s'.proc.errno) ∧
      ((¬ Receives par s.proc ∧ s'.proc.friendList = s.proc.friendList ∧ s'.added = s.added ∧
          s'.delivered = s.delivered ∧ s'.newFriends = s.newFriends) ∨
        (Receives par s.proc ∧
          s'.added = s.added ++ taken s.proc.errno o.fetch.rcvTrans s.proc.fetchedMex ∧
          s'.delivered = s.delivered ++ delivery o.fetch.rcvTrans ∧
          s'.proc.friendList = s.proc.friendList ++
            taken (errnoAfter s.proc.errno o.fetch.rcvTrans) o.fetch.rcvFriend
              s.proc.friendReceived ∧
          s'.newFriends = s.newFriends ++ delivery o.fetch.rcvFriend)) := by
  unfold Log.next at h
  split at h
  · contradiction
  next nodesPID p fetched processed hbody =>
    rw [← Option.some.inj h]
    obtain ⟨p₁, p₂, hfetch, hpublish, hblock⟩ := loopBody_cases hbody
    obtain ⟨hlist₂, herrno₂⟩ := publishSize_rest hpublish
    obtain ⟨hlist, herrno⟩ := processBlock_rest hblock
    rw [herrno₂] at herrno
    refine ⟨rfl, herrno, ?_⟩
    cases fetchMessages_fetched hfetch with
    | received hroom =>
      obtain ⟨htaken, herr, hfriends, hbuffer⟩ := receiveTransaction_taken o.fetch s.proc
      refine Or.inr ⟨hroom, ?_, rfl, ?_, rfl⟩
      · rw [← htaken]
        rfl
      · have hnew := receiveFriend_taken o.fetch (receiveTransaction o.fetch s.proc).1
        rw [herr, hfriends, hbuffer] at hnew
        exact (hlist.trans hlist₂).trans hnew
    | hopped q e hfull hhop =>
      have hsame := hopped_friendList hhop
      refine Or.inl ⟨hfull, ?_, ?_, ?_, ?_⟩
      · exact (hlist.trans hlist₂).trans hsame
      · exact List.append_nil _
      · exact List.append_nil _
      · exact List.append_nil _

/-- Until the first pass a node has not looked at errno, and afterwards errno holds
what semop or fork left there. -/
def Entry (s : Log) : Prop := s.proc.flag = 20 ∨ s.proc.errno ∉ receiveErrors

theorem entry_errno (h : Entry s) (hrec : Receives par s.proc) : s.proc.errno ∉ receiveErrors := by
  rcases h with hflag | herrno
  · have hlt := hrec.2
    rw [hflag] at hlt
    exact absurd hlt (by decide)
  · exact herrno

theorem next_entry (ho : Documented o) (h : Log.next par s o = some s') : Entry s' := by
  obtain ⟨-, herrno, -⟩ := next_cases h
  refine Or.inr fun hin => ?_
  rcases herrno with hefbig | hfork
  · rw [hefbig] at hin
    exact absurd hin (by decide)
  · exact ho.fork _ hfork (mem_msgrcvErrors.mpr (Or.inr hin))

/-- A pass from an exact record leads to an exact record if and only if it is orderly. -/
theorem next_exact_iff (hs : Exact s) (hentry : Entry s) (ho : Documented o)
    (h : Log.next par s o = some s') : Exact s' ↔ Orderly par s o := by
  obtain ⟨hfirst, -, hcases⟩ := next_cases h
  rcases hcases with ⟨hidle, hlist, hadded, hdelivered, hnew⟩ |
    ⟨hrec, hadded, hdelivered, hlist, hnew⟩
  · refine ⟨fun _ hrec => absurd hrec hidle, fun _ => ⟨?_, ?_⟩⟩
    · rw [hadded, hdelivered, hs.trans]
    · rw [hlist, hfirst, hnew, hs.friends]
  · have hclear := told_iff_clear (o := o) (entry_errno hentry hrec) ho
    rw [← taken_eq_iff _ _ s.proc.fetchedMex, ← taken_eq_iff _ _ s.proc.friendReceived] at hclear
    constructor
    · intro hs' _
      apply hclear.mp
      constructor
      · have htrans := hs'.trans
        rw [hadded, hdelivered, hs.trans] at htrans
        exact List.append_cancel_left htrans
      · have hfriends := hs'.friends
        rw [hlist, hfirst, hnew, hs.friends, List.append_assoc] at hfriends
        exact List.append_cancel_left (List.append_cancel_left hfriends)
    · intro horderly
      obtain ⟨htrans, hfriend⟩ := hclear.mpr (horderly hrec)
      constructor
      · rw [hadded, hdelivered, hs.trans, htrans]
      · rw [hlist, hfirst, hnew, hs.friends, hfriend, List.append_assoc]

theorem reach_exact
    (h : (machine par).Reach (fun s o => Documented o ∧ Orderly par s o) s) :
    Exact s ∧ Entry s := by
  refine h.invariant (I := fun s => Exact s ∧ Entry s) ?_ ?_
  · intro s hs
    refine ⟨⟨?_, ?_⟩, Or.inl hs.flag⟩
    · rw [hs.added, hs.delivered]
    · rw [hs.friends, hs.newFriends, List.append_nil]
  · rintro s o s' ⟨hs, hentry⟩ ⟨ho, horderly⟩ hn
    exact ⟨(next_exact_iff hs hentry ho hn).mpr horderly, next_entry ho hn⟩

def FailsQuietly (o : FetchOutcome) (p : NodeProc) : Prop :=
  (∀ e, o.rcvTrans = .failed e → (receiveTransaction o p).1.transPool = p.transPool) ∧
    ∀ e, o.rcvFriend = .failed e →
      (receiveFriend o (receiveTransaction o p).1).friendList = p.friendList

theorem failsQuietly_of_clear (ho : Documented o) (hclear : Clear o) (p : NodeProc) :
    FailsQuietly o.fetch p := by
  constructor
  · intro e he
    have hin : e ∈ receiveErrors := by
      rcases mem_msgrcvErrors.mp (ho.trans e he) with hinval | hin
      · exact absurd (by rw [he, hinval]) hclear.trans
      · exact hin
    simp only [receiveTransaction, receiveMessage, receiveStatus, he, if_pos hin]
  · intro e he
    have hin : e ∈ receiveErrors := by
      rcases mem_msgrcvErrors.mp (ho.friend e he) with hinval | hin
      · exact absurd (by rw [he, hinval]) hclear.friend
      · exact hin
    rw [receiveFriend_taken, (receiveTransaction_taken o.fetch p).2.2.1]
    simp only [taken, receiveMessage, receiveStatus, he, if_pos hin, List.append_nil]

/-- A run whose receiving passes are clear takes in exactly what was delivered, and
with the first pass that is not it no longer does. -/
theorem intake_exact_iff (par : Parameters) :
    (∀ s, (machine par).Reach (fun s o => Documented o ∧ Orderly par s o) s →
      Exact s ∧ ∀ o, Documented o → Orderly par s o → Receives par s.proc →
        FailsQuietly o.fetch s.proc) ∧
    ∀ s o s', (machine par).Reach (fun s o => Documented o ∧ Orderly par s o) s →
      Documented o → Log.next par s o = some s' → ¬ Orderly par s o → ¬ Exact s' := by
  constructor
  · intro s hs
    refine ⟨(reach_exact hs).1, fun o ho horderly hrec => ?_⟩
    exact failsQuietly_of_clear ho (horderly hrec) s.proc
  · intro s o s' hs ho hn hnot hexact
    obtain ⟨hbefore, hentry⟩ := reach_exact hs
    exact hnot ((next_exact_iff hbefore hentry ho hn).mp hexact)

section Examples

def launch : Log where
  nodesPID := [⟨40, 0, 0, .available⟩]
  proc := ⟨40, 3, .zero, 20, 0, ⟨0, .zero⟩, [41], 1, transactionPoolInit⟩
  firstFriends := [41]
  delivered := []
  added := []
  newFriends := []

theorem launch_start : Start launch := ⟨rfl, rfl, rfl, rfl, rfl, rfl⟩

def attempt (rcvTrans : MsgrcvResult Message) (rcvFriend : MsgrcvResult PidT) : LoopOutcome where
  fetch := ⟨rcvTrans, rcvFriend⟩
  hop := ⟨0, 30, fun _ => .failed .ENOENT, fun _ => .failed .EINVAL⟩
  fork := .parent 50

def quiet : LoopOutcome := attempt (.failed .EINTR) (.failed .ENOMSG)

def received : LoopOutcome := attempt (.delivered (message 1)) (.delivered 42)

theorem documented_attempt {rcvTrans : MsgrcvResult Message} {rcvFriend : MsgrcvResult PidT}
    (htrans : ∀ e, rcvTrans = .failed e → e ∈ msgrcvErrors)
    (hfriend : ∀ e, rcvFriend = .failed e → e ∈ msgrcvErrors) :
    Documented (attempt rcvTrans rcvFriend) :=
  ⟨htrans, hfriend, fun _ he => by cases he⟩

theorem documented_quiet : Documented quiet :=
  documented_attempt (fun _ he => by cases he; decide) fun _ he => by cases he; decide

theorem documented_received : Documented received :=
  documented_attempt (fun _ he => by cases he) fun _ he => by cases he

def stale : LoopOutcome := attempt (.failed .EINVAL) (.failed .ENOMSG)

def dropped : LoopOutcome := attempt (.failed .EINTR) (.delivered 42)

theorem received_run : ∃ s, (machine assignDefaults).run launch [quiet, received] = some s ∧
    s.added = [message 1] ∧ s.proc.friendList = [41, 42] := ⟨_, rfl, rfl, rfl⟩

/-- A pass that receives a transaction and then a friend. -/
theorem intake_exact_received : ∃ s, (machine assignDefaults).run launch [quiet, received] = some s ∧
    s.added = [message 1] ∧ Exact s := by
  obtain ⟨s, hrun, hadded, -⟩ := received_run
  refine ⟨s, hrun, hadded, ((intake_exact_iff assignDefaults).1 s ?_).1⟩
  refine Machine.reach_of_run _ launch_start (fun s o ho => ?_) hrun
  rcases List.mem_pair.mp ho with rfl | rfl
  · exact ⟨documented_quiet, fun _ => ⟨by simp [quiet, attempt], by simp [quiet, attempt],
      fun f hf => by simp [quiet, attempt] at hf⟩⟩
  · exact ⟨documented_received, fun _ => ⟨by simp [received, attempt],
      by simp [received, attempt], fun _ _ => ⟨_, rfl⟩⟩⟩

theorem stale_run : ∃ s, (machine assignDefaults).run launch [quiet, stale] = some s ∧
    s.delivered = [] ∧ s.added = [⟨0, .zero⟩] := ⟨_, rfl, rfl, rfl⟩

theorem dropped_run : ∃ s, (machine assignDefaults).run launch [quiet, dropped] = some s ∧
    s.newFriends = [42] ∧ s.proc.friendList = [41] := ⟨_, rfl, rfl, rfl⟩

/-- A failure with EINVAL adds a transaction that nobody sent, and a friend that
comes after an interrupted wait is lost. -/
theorem intake_goes_wrong :
    (∃ s, (machine assignDefaults).run launch [quiet, stale] = some s ∧
      s.delivered = [] ∧ s.added = [⟨0, .zero⟩]) ∧
    (∃ s, (machine assignDefaults).run launch [quiet, dropped] = some s ∧
      s.newFriends = [42] ∧ s.proc.friendList = [41]) ∧
    ¬ ∀ s, (machine assignDefaults).Reach (fun _ o => Documented o) s → Exact s := by
  refine ⟨stale_run, dropped_run, fun hall => ?_⟩
  obtain ⟨s, hrun, hdelivered, hadded⟩ := stale_run
  have hexact := hall s (Machine.reach_of_run _ launch_start (fun _ o ho => ?_) hrun)
  · have htrans := hexact.trans
    rw [hdelivered, hadded] at htrans
    contradiction
  · rcases List.mem_pair.mp ho with rfl | rfl
    · exact documented_quiet
    · exact documented_attempt (fun _ he => by cases he; decide) fun _ he => by cases he; decide

end Examples
end SimulazioneTransazioni.Intake

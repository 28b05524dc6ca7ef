import NetDedup.Comm.Callers
import NetDedup.Delivery.Runs
import NetDedup.Transfer.RecvProgress
import NetDedup.Transfer.SendProgress

/-!
# Two processes that make their calls

The ends of a connection as the plugin has them: a comm in each of two processes,
which call `netDedup_isend`, `netDedup_irecv` and `netDedup_test`. Every run of the
two is a run of the connection, so that its results hold of what the calls report.
-/

namespace NetDedup.Delivery

open Chunking Comm Memory Store Transfer

variable {Node : Type} {maxRequests : Nat}

/-- What `netDedup_test` reports of a receive, and the buffer as it is then. -/
structure Report where
  buffer : Mem
  size : Int

/-- The comms of both processes over the connection, and their descriptors. -/
structure Ends where
  sendComm : Nat
  sendFd : Nat
  recvComm : Nat
  recvFd : Nat

/-- The two processes, the caches of the nodes, the sends that were reported done, and
the reports of the receives. -/
structure Pair (Node : Type) (maxRequests : Nat) where
  sender : Caller maxRequests
  receiver : Caller maxRequests
  caches : Node → FingerprintCache
  sent : Nat
  reports : List Report

/-- What happens next in one of the processes. -/
inductive CallEvent (Node : Type) (maxRequests : Nat) where
  | isend (data : Message) (trylock : Bool) (dumpCalls : DumpCalls)
  | irecv (size : Nat) (buffer : Mem) (trylock : Bool)
  | testSend
  | testRecv
  /-- An iteration of the loop that the call is in, if any. -/
  | iterateSend (choice : Choice)
  | iterateRecv (choice : Choice)
  /-- Any process inserts a content. -/
  | insert (node : Node) (fp : Fingerprint) (content : List UInt8)
      (retEntry : Option FingerprintEntry)
  /-- `to_skip_insert_cache` may be set in the two processes; nothing clears it. -/
  | setSkip (send recv : Bool)
  /-- The process goes on elsewhere. -/
  | elsewhereSend (w : Comm.World maxRequests)
  | elsewhereRecv (w : Comm.World maxRequests)

/-- The size that a call reports with a request that is done. -/
def doneSize : Option (Reply maxRequests) → Option Int
  | some (.tested true size) => size
  | _ => none

theorem doneSize_none {reply : Option (Reply maxRequests)}
    (h : ∀ size, reply ≠ some (.tested true size)) : doneSize reply = none := by
  unfold doneSize
  split
  · exact absurd rfl (h _)
  · rfl

/-- What a call reports when it returns for a receive that is done. -/
def reportOf (reply : Option (Reply maxRequests)) (req : Option DedupReq) : List Report :=
  match doneSize reply, req with
  | some size, some (.recvReq _ st) => [⟨st.req.appBuffer, size⟩]
  | _, _ => []

theorem reportOf_none {reply : Option (Reply maxRequests)}
    (h : ∀ size, reply ≠ some (.tested true size)) (req : Option DedupReq) :
    reportOf reply req = [] := by
  unfold reportOf
  rw [doneSize_none h]

namespace Pair

variable [DecidableEq Node] (x : Exchange Node) (ends : Ends) (s : Pair Node maxRequests)

/-- The sending process as it finds the cache of its node. -/
def senderNow : Caller maxRequests :=
  s.sender.shares ⟨s.caches x.sendNode, s.sender.world.proc.toSkipInsertCache⟩

/-- The receiving process as it finds the cache of its node. -/
def receiverNow : Caller maxRequests :=
  s.receiver.shares ⟨s.caches x.recvNode, s.receiver.world.proc.toSkipInsertCache⟩

/-- An iteration in the sending process. What it sends arrives at the other one. -/
def iterateSend (choice : Choice) : Option (Pair Node maxRequests) := do
  let (reply, sender) ← (s.senderNow x).iterate x.sha256 choice
  some { s with
    sender := sender.drain ends.sendFd
    receiver := s.receiver.arrive ends.recvFd (sender.world.sockets ends.sendFd).sent
    caches := Function.update s.caches x.sendNode sender.world.proc.globalFingerprintCache
    sent := s.sent + if (doneSize reply).isSome then 1 else 0 }

/-- An iteration in the receiving process. -/
def iterateRecv (choice : Choice) : Option (Pair Node maxRequests) := do
  let (reply, receiver) ← (s.receiverNow x).iterate x.sha256 choice
  some { s with
    sender := s.sender.arrive ends.sendFd (receiver.world.sockets ends.recvFd).sent
    receiver := receiver.drain ends.recvFd
    caches := Function.update s.caches x.recvNode receiver.world.proc.globalFingerprintCache
    reports := s.reports ++ reportOf reply
      (s.receiver.call.bind fun call => receiver.world.request? call.request) }

/-- One event. -/
def next : CallEvent Node maxRequests → Option (Pair Node maxRequests)
  | .isend data trylock dumpCalls => do
      let sender ← s.sender.isend ends.sendComm data trylock dumpCalls
      some { s with sender := sender }
  | .irecv size buffer trylock => do
      let receiver ← s.receiver.irecv ends.recvComm size buffer trylock
      some { s with receiver := receiver }
  | .testSend => some { s with sender := s.sender.test }
  | .testRecv => some { s with receiver := s.receiver.test }
  | .iterateSend choice => s.iterateSend x ends choice
  | .iterateRecv choice => s.iterateRecv x ends choice
  | .insert node fp content retEntry => do
      let (_, cache, _) ← insertFingerprint (s.caches node) fp content retEntry
      some { s with caches := Function.update s.caches node cache }
  | .setSkip send recv =>
      let sendProc := s.sender.world.proc
      let recvProc := s.receiver.world.proc
      some { s with
        sender := s.sender.shares
          { sendProc with toSkipInsertCache := sendProc.toSkipInsertCache || send }
        receiver := s.receiver.shares
          { recvProc with toSkipInsertCache := recvProc.toSkipInsertCache || recv } }
  | .elsewhereSend w => some { s with sender := { s.sender with world := w } }
  | .elsewhereRecv w => some { s with receiver := { s.receiver with world := w } }

end Pair

/-- What else a process does leaves the connection alone. -/
structure Elsewhere (w w' : Comm.World maxRequests) (c fd : Nat) : Prop
    extends w.Keeps w' c fd where
  socket : w'.sockets fd = w.sockets fd
  proc : w'.proc = w.proc

/-- What is assumed of an event: the `isend` that takes a request has the next message and
its dump succeeds, buffers are large enough, and the rest is as for the connection. -/
def Pair.Allowed (x : Exchange Node) (ends : Ends) (C : Set (List UInt8))
    (s : Pair Node maxRequests) : CallEvent Node maxRequests → Prop
  | .isend data trylock dumpCalls =>
      s.sender.call = none → s.sender.request = none → trylock = true →
        data.val = x.messages s.sent ∧ dumpCalls.Complete data
  | .irecv size _ trylock =>
      s.receiver.call = none → s.receiver.request = none → trylock = true →
        (x.messages s.reports.length).length ≤ size ∧ size < 2 ^ 31
  | .iterateSend choice => ∀ fd st, s.sender.current = some (.sendReq fd st) → SendsWhole st choice
  | .iterateRecv choice => ∀ fd st, s.receiver.current = some (.recvReq fd st) →
      ReceivesWhole st (s.receiver.world.sockets ends.recvFd).inbound.length choice
  | .insert _ fp content _ => SoundInsert x.sha256 C fp content
  | .elsewhereSend w => Elsewhere s.sender.world w ends.sendComm ends.sendFd
  | .elsewhereRecv w => Elsewhere s.receiver.world w ends.recvComm ends.recvFd
  | _ => True

/-- The connection that two processes have between them. -/
structure Pair.Refines (ends : Ends) (s : Pair Node maxRequests) (w : World Node) : Prop where
  sender : s.sender.At .sendReq ends.sendComm ends.sendFd ⟨[], w.backward⟩
    (w.sending.map (.sendReq ends.sendFd))
  receiver : s.receiver.At .recvReq ends.recvComm ends.recvFd ⟨[], w.forward⟩
    (w.receiving.map fun r => .recvReq ends.recvFd r.st)
  caches : s.caches = w.caches
  sendSkip : s.sender.world.proc.toSkipInsertCache = w.sendSkip
  recvSkip : s.receiver.world.proc.toSkipInsertCache = w.recvSkip
  sent : s.sent = w.sent
  reports : s.reports = w.receipts.map fun r => ⟨r.buffer, r.size⟩

section Step

variable [DecidableEq Node] {x : Exchange Node} {ends : Ends} {C : Set (List UInt8)}
  {s s' : Pair Node maxRequests} {w w' : World Node}

/-- An event in one of the processes is a run of their connection. -/
def Pair.Goes (x : Exchange Node) (ends : Ends) (C : Set (List UInt8)) (s : Pair Node maxRequests)
    (w : World Node) (event : CallEvent Node maxRequests) : Prop :=
  ∃ s' events w', s.next x ends event = some s' ∧
    Run.Guarded (World.next x) (World.Allowed x C) w events ∧
    Run.run (World.next x) w events = some w' ∧ s'.Refines ends w' ∧ w'.Correct x C

/-- The connection does not notice. -/
theorem Pair.Goes.stays {event : CallEvent Node maxRequests}
    (hnext : s.next x ends event = some s') (h : s'.Refines ends w) (hw : w.Correct x C) :
    s.Goes x ends C w event :=
  ⟨s', [], w, hnext, trivial, rfl, h, hw⟩

/-- The connection takes one step. -/
theorem Pair.Goes.steps {event : CallEvent Node maxRequests} {step : Event Node}
    (hnext : s.next x ends event = some s') (hallowed : w.Allowed x C step)
    (hstep : w.next x step = some w') (h : s'.Refines ends w') (hw : w'.Correct x C) :
    s.Goes x ends C w event := by
  refine ⟨s', [step], w', hnext, Run.guarded_cons.mpr ⟨hallowed, fun _ _ => trivial⟩, ?_, h, hw⟩
  rw [Run.run, hstep, Option.bind_some, Run.run]

/-- The connection takes one step, and another one that is always allowed. -/
theorem Pair.Goes.steps_two {event : CallEvent Node maxRequests} {step step' : Event Node}
    {w₁ : World Node} (hnext : s.next x ends event = some s') (hallowed : w.Allowed x C step)
    (hallowed' : w₁.Allowed x C step') (hstep : w.next x step = some w₁)
    (hstep' : w₁.next x step' = some w') (h : s'.Refines ends w') (hw : w'.Correct x C) :
    s.Goes x ends C w event := by
  refine ⟨s', [step, step'], w', hnext, Run.guarded_cons.mpr ⟨hallowed, fun w₂ hw₂ => ?_⟩, ?_, h, hw⟩
  · obtain rfl := Option.some_inj.mp (hstep.symm.trans hw₂)
    exact Run.guarded_cons.mpr ⟨hallowed', fun _ _ => trivial⟩
  · rw [Run.run, hstep, Option.bind_some, Run.run, hstep', Option.bind_some, Run.run]

theorem Pair.Refines.isend (h : s.Refines ends w) (hw : w.Correct x C)
    (hC : Distinct x.sha256 C) (hmessages : ∀ i, Sendable x.sha256 C (x.messages i))
    {data : Message} {trylock : Bool} {dumpCalls : DumpCalls}
    (hallowed : s.Allowed x ends C (.isend data trylock dumpCalls)) :
    s.Goes x ends C w (.isend data trylock dumpCalls) := by
  by_cases htakes : w.sending = none ∧ trylock = true
  · obtain ⟨hsending, rfl⟩ := htakes
    have hidle := h.sender
    rw [hsending, Option.map_none] at hidle
    obtain ⟨hcall, hrequest⟩ : s.sender.call = none ∧ s.sender.request = none := by
      cases hidle.carries with
      | idle hcall hrequest _ => exact ⟨hcall, hrequest⟩
    obtain ⟨hdata, hdump⟩ := hallowed hcall hrequest rfl
    obtain ⟨sender, hisend, hproc, hsender⟩ := hidle.isend hdump
    have hnext : s.next x ends (.isend data true dumpCalls) = some { s with sender := sender } := by
      simp only [Pair.next, hisend, Option.bind_eq_bind, Option.bind_some]
    have hisend : w.Allowed x C .isend := trivial
    obtain ⟨w', hstep, hcorrect, -⟩ := hw.goes hC hmessages hisend
    refine .steps hnext hisend hstep ?_ hcorrect
    rw [w.next_isend hsending] at hstep
    obtain rfl := Option.some_inj.mp hstep
    rw [hdata, h.sent] at hsender
    exact ⟨hsender, h.receiver, h.caches, hproc ▸ h.sendSkip, h.recvSkip, h.sent, h.reports⟩
  · have hrefused : w.sending.map (DedupReq.sendReq ends.sendFd) ≠ none ∨ trylock = false :=
      (not_and_or.mp htakes).imp (fun h hnone => h (Option.map_eq_none_iff.mp hnone))
        Bool.eq_false_iff.mpr
    have hnext : s.next x ends (.isend data trylock dumpCalls) = some s := by
      simp only [Pair.next, h.sender.isend_refused data dumpCalls hrefused, Option.bind_eq_bind,
        Option.bind_some]
    exact .stays hnext h hw

theorem Pair.Refines.irecv (h : s.Refines ends w) (hw : w.Correct x C)
    (hC : Distinct x.sha256 C) (hmessages : ∀ i, Sendable x.sha256 C (x.messages i))
    {size : Nat} {buffer : Mem} {trylock : Bool}
    (hallowed : s.Allowed x ends C (.irecv size buffer trylock)) :
    s.Goes x ends C w (.irecv size buffer trylock) := by
  by_cases htakes : w.receiving = none ∧ trylock = true
  · obtain ⟨hreceiving, rfl⟩ := htakes
    have hidle := h.receiver
    rw [hreceiving, Option.map_none] at hidle
    obtain ⟨hcall, hrequest⟩ : s.receiver.call = none ∧ s.receiver.request = none := by
      cases hidle.carries with
      | idle hcall hrequest _ => exact ⟨hcall, hrequest⟩
    obtain ⟨receiver, hirecv, hproc, hreceiver⟩ := hidle.irecv size buffer
    have hnext : s.next x ends (.irecv size buffer true) =
        some { s with receiver := receiver } := by
      simp only [Pair.next, hirecv, Option.bind_eq_bind, Option.bind_some]
    have hfits : w.Allowed x C (.irecv size buffer) := fun _ => by
      have hreports : s.reports.length = w.receipts.length := by rw [h.reports, List.length_map]
      exact hreports ▸ hallowed hcall hrequest rfl
    obtain ⟨w', hstep, hcorrect, -⟩ := hw.goes hC hmessages hfits
    refine .steps hnext hfits hstep ?_ hcorrect
    rw [w.next_irecv hreceiving] at hstep
    obtain rfl := Option.some_inj.mp hstep
    exact ⟨h.sender, hreceiver, h.caches, h.sendSkip, hproc ▸ h.recvSkip, h.sent, h.reports⟩
  · have hrefused : (w.receiving.map fun r => DedupReq.recvReq ends.recvFd r.st) ≠ none ∨
        trylock = false :=
      (not_and_or.mp htakes).imp (fun h hnone => h (Option.map_eq_none_iff.mp hnone))
        Bool.eq_false_iff.mpr
    have hnext : s.next x ends (.irecv size buffer trylock) = some s := by
      simp only [Pair.next, h.receiver.irecv_refused size buffer hrefused, Option.bind_eq_bind,
        Option.bind_some]
    exact .stays hnext h hw

section Iterate

variable {reply : Option (Reply maxRequests)} {caller : Caller maxRequests} {choice : Choice}

theorem Pair.next_iterateSend
    (h : (s.senderNow x).iterate x.sha256 choice = some (reply, caller)) :
    s.next x ends (.iterateSend choice) = some { s with
      sender := caller.drain ends.sendFd
      receiver := s.receiver.arrive ends.recvFd (caller.world.sockets ends.sendFd).sent
      caches := Function.update s.caches x.sendNode caller.world.proc.globalFingerprintCache
      sent := s.sent + if (doneSize reply).isSome then 1 else 0 } := by
  simp only [Pair.next, Pair.iterateSend, h, Option.bind_eq_bind, Option.bind_some]

theorem Pair.next_iterateRecv
    (h : (s.receiverNow x).iterate x.sha256 choice = some (reply, caller)) :
    s.next x ends (.iterateRecv choice) = some { s with
      sender := s.sender.arrive ends.sendFd (caller.world.sockets ends.recvFd).sent
      receiver := caller.drain ends.recvFd
      caches := Function.update s.caches x.recvNode caller.world.proc.globalFingerprintCache
      reports := s.reports ++ reportOf reply
        (s.receiver.call.bind fun call => caller.world.request? call.request) } := by
  simp only [Pair.next, Pair.iterateRecv, h, Option.bind_eq_bind, Option.bind_some]

/-- The sending process may be between its calls. -/
theorem Pair.Refines.iterateSend_idle (h : s.Refines ends w) (hw : w.Correct x C)
    (hcall : s.sender.call = none) (choice : Choice) :
    s.Goes x ends C w (.iterateSend choice) := by
  have hsender := h.sender.shares ⟨s.caches x.sendNode, s.sender.world.proc.toSkipInsertCache⟩
  have hiterate : (s.senderNow x).iterate x.sha256 choice = some (none, s.senderNow x) := by
    rw [Caller.iterate, Pair.senderNow, Caller.shares, hcall]
  have hout : ((s.senderNow x).world.sockets ends.sendFd).sent = [] :=
    congrArg Socket.sent hsender.socket
  refine .stays (Pair.next_iterateSend hiterate) ⟨hsender.drain,
    h.receiver.arrive (by rw [hout, List.append_nil]), ?_, h.sendSkip, h.recvSkip, h.sent,
    h.reports⟩ hw
  exact (Function.update_eq_self ..).trans h.caches

/-- The receiving process may be between its calls. -/
theorem Pair.Refines.iterateRecv_idle (h : s.Refines ends w) (hw : w.Correct x C)
    (hcall : s.receiver.call = none) (choice : Choice) :
    s.Goes x ends C w (.iterateRecv choice) := by
  have hreceiver := h.receiver.shares ⟨s.caches x.recvNode, s.receiver.world.proc.toSkipInsertCache⟩
  have hiterate : (s.receiverNow x).iterate x.sha256 choice = some (none, s.receiverNow x) := by
    rw [Caller.iterate, Pair.receiverNow, Caller.shares, hcall]
  have hout : ((s.receiverNow x).world.sockets ends.recvFd).sent = [] :=
    congrArg Socket.sent hreceiver.socket
  refine .stays (Pair.next_iterateRecv hiterate)
    ⟨h.sender.arrive (by rw [hout, List.append_nil]), hreceiver.drain, ?_, h.sendSkip, h.recvSkip,
      h.sent, ?_⟩ hw
  · exact (Function.update_eq_self ..).trans h.caches
  · exact (List.append_nil _).trans h.reports

/-- The sending process may be in the loop of a call, which may return. -/
theorem Pair.Refines.iterateSend_busy (h : s.Refines ends w) (hw : w.Correct x C)
    (hC : Distinct x.sha256 C) (hmessages : ∀ i, Sendable x.sha256 C (x.messages i))
    {st : SendState} (hsending : w.sending = some st) (hcall : s.sender.call ≠ none)
    (hwhole : SendsWhole st choice) : s.Goes x ends C w (.iterateSend choice) := by
  have hallowed : w.Allowed x C (.processSend choice) := fun st' hst' =>
    Option.some_inj.mp (hsending.symm.trans hst') ▸ hwhole
  obtain ⟨w₁, hstep, hcorrect, -⟩ := hw.goes hC hmessages hallowed
  have hprocess := hstep
  rw [w.next_processSend hsending] at hprocess
  obtain ⟨⟨flow, st', sock, proc⟩, hsend, hprocess⟩ := Option.bind_eq_some_iff.mp hprocess
  have hw₁ := Option.some_inj.mp hprocess
  have hsending₁ : w₁.sending = some st' := hw₁ ▸ rfl
  have hsender := h.sender.shares ⟨s.caches x.sendNode, s.sender.world.proc.toSkipInsertCache⟩
  rw [hsending, Option.map_some] at hsender
  have hiterate : DedupReq.iterate x.sha256 (.sendReq ends.sendFd st) ⟨[], w.backward⟩
      (s.senderNow x).world.proc choice = some (flow, .sendReq ends.sendFd st', sock, proc) := by
    have hnow : (s.senderNow x).world.proc = ⟨w.caches x.sendNode, w.sendSkip⟩ := by
      rw [← h.caches, ← h.sendSkip]
      rfl
    rw [hnow, DedupReq.iterate, hsend, Option.map_some]
  have hadvances := processSend_advances hsend
  obtain ⟨reply, caller, hiterates, rfl, hends⟩ := hsender.iterate hcall hiterate
    fun r hr => (hadvances.ret r hr).imp id And.left
  have hnext := @Pair.next_iterateSend _ _ _ _ ends _ _ _ _ hiterates
  have hcaches : Function.update s.caches x.sendNode caller.world.proc.globalFingerprintCache =
      Function.update w.caches x.sendNode caller.world.proc.globalFingerprintCache := by
    rw [h.caches]
  have hreceiver (hsocket : caller.world.sockets ends.sendFd = sock) :=
    @Caller.At.arrive _ _ _ _ _ _ _ h.receiver (caller.world.sockets ends.sendFd).sent
      (w.forward ++ sock.sent) (by rw [hsocket])
  rcases hends with ⟨hdone, hcaller⟩ | ⟨rfl, rfl, -, hcaller⟩
  · subst hw₁
    rw [doneSize_none hdone] at hnext
    exact .steps hnext hallowed hstep ⟨hcaller.drain, hreceiver hcaller.socket, hcaches, rfl,
      h.recvSkip, h.sent, h.reports⟩ hcorrect
  · -- the send is reported done
    have hstage : st.req.stage = .sendComplete := ((hadvances.ret 1 rfl).resolve_left (by decide)).2
    have hstage' : st'.req.stage = .sendComplete := by
      rw [processSend_complete hstage] at hsend
      obtain ⟨rfl, -⟩ : st = st' ∧ _ := by simpa using hsend
      exact hstage
    have hallowed' : w₁.Allowed x C .sendDone := trivial
    obtain ⟨w₂, hstep', hcorrect', -⟩ := hcorrect.goes hC hmessages hallowed'
    refine .steps_two hnext hallowed hallowed' hstep hstep' ?_ hcorrect'
    rw [w₁.next_sendDone hsending₁ hstage'] at hstep'
    subst hw₁
    obtain rfl := Option.some_inj.mp hstep'
    exact ⟨hcaller.drain, hreceiver hcaller.socket, hcaches, rfl, h.recvSkip,
      congrArg Nat.succ h.sent, h.reports⟩

/-- The receiving process may be in the loop of a call, which may return. -/
theorem Pair.Refines.iterateRecv_busy (h : s.Refines ends w) (hw : w.Correct x C)
    (hC : Distinct x.sha256 C) (hmessages : ∀ i, Sendable x.sha256 C (x.messages i))
    {r : Receiving} (hreceiving : w.receiving = some r) (hcall : s.receiver.call ≠ none)
    (hwhole : ReceivesWhole r.st w.forward.length choice) :
    s.Goes x ends C w (.iterateRecv choice) := by
  have hallowed : w.Allowed x C (.processRecv choice) := fun r' hr' =>
    Option.some_inj.mp (hreceiving.symm.trans hr') ▸ hwhole
  obtain ⟨w₁, hstep, hcorrect, -⟩ := hw.goes hC hmessages hallowed
  have hprocess := hstep
  rw [w.next_processRecv hreceiving] at hprocess
  obtain ⟨⟨flow, st', sock, proc⟩, hrecv, hprocess⟩ := Option.bind_eq_some_iff.mp hprocess
  have hw₁ := Option.some_inj.mp hprocess
  have hreceiving₁ : w₁.receiving = some { r with st := st' } := hw₁ ▸ rfl
  have hreceiver := h.receiver.shares ⟨s.caches x.recvNode, s.receiver.world.proc.toSkipInsertCache⟩
  rw [hreceiving, Option.map_some] at hreceiver
  have hiterate : DedupReq.iterate x.sha256 (.recvReq ends.recvFd r.st) ⟨[], w.forward⟩
      (s.receiverNow x).world.proc choice = some (flow, .recvReq ends.recvFd st', sock, proc) := by
    have hnow : (s.receiverNow x).world.proc = ⟨w.caches x.recvNode, w.recvSkip⟩ := by
      rw [← h.caches, ← h.recvSkip]
      rfl
    rw [hnow, DedupReq.iterate, hrecv, Option.map_some]
  have hadvances := processRecv_advances hrecv
  obtain ⟨reply, caller, hiterates, rfl, hends⟩ := hreceiver.iterate hcall hiterate
    fun r hr => (hadvances.ret r hr).imp id And.left
  have hnext := @Pair.next_iterateRecv _ _ _ _ ends _ _ _ _ hiterates
  have hcaches : Function.update s.caches x.recvNode caller.world.proc.globalFingerprintCache =
      Function.update w.caches x.recvNode caller.world.proc.globalFingerprintCache := by
    rw [h.caches]
  have hsender (hsocket : caller.world.sockets ends.recvFd = sock) :=
    @Caller.At.arrive _ _ _ _ _ _ _ h.sender (caller.world.sockets ends.recvFd).sent
      (w.backward ++ sock.sent) (by rw [hsocket])
  rcases hends with ⟨hdone, hcaller⟩ | ⟨rfl, rfl, hreported, hcaller⟩
  · subst hw₁
    rw [reportOf_none hdone, List.append_nil] at hnext
    exact .steps hnext hallowed hstep ⟨hsender hcaller.socket, hcaller.drain, hcaches, h.sendSkip,
      rfl, h.sent, h.reports⟩ hcorrect
  · -- the receive is reported done, and its buffer is what the receive has filled
    have hstage : r.st.req.stage = .recvComplete :=
      ((hadvances.ret 1 rfl).resolve_left (by decide)).2
    have hstage' : st'.req.stage = .recvComplete := by
      rw [processRecv_complete hstage] at hrecv
      obtain ⟨rfl, -⟩ : r.st = st' ∧ _ := by simpa using hrecv
      exact hstage
    have hallowed' : w₁.Allowed x C .recvDone := trivial
    obtain ⟨w₂, hstep', hcorrect', -⟩ := hcorrect.goes hC hmessages hallowed'
    refine .steps_two hnext hallowed hallowed' hstep hstep' ?_ hcorrect'
    rw [w₁.next_recvDone hreceiving₁ hstage'] at hstep'
    subst hw₁
    obtain rfl := Option.some_inj.mp hstep'
    refine ⟨hsender hcaller.socket, hcaller.drain, hcaches, h.sendSkip, rfl, h.sent, ?_⟩
    have hcall' : (s.receiver.call.bind fun call => caller.world.request? call.request) =
        some (.recvReq ends.recvFd st') := hreported
    rw [hcall', h.reports, List.map_append]
    simp only [reportOf, doneSize, Receiving.receipt, DedupReq.size, List.map_cons, List.map_nil]

end Iterate

/-- An event that is allowed goes through, as a run of the connection. -/
theorem Pair.Refines.goes (h : s.Refines ends w) (hw : w.Correct x C)
    (hC : Distinct x.sha256 C) (hmessages : ∀ i, Sendable x.sha256 C (x.messages i))
    {event : CallEvent Node maxRequests} (hallowed : s.Allowed x ends C event) :
    s.Goes x ends C w event := by
  cases event with
  | isend data trylock dumpCalls => exact h.isend hw hC hmessages hallowed
  | irecv size buffer trylock => exact h.irecv hw hC hmessages hallowed
  | testSend =>
      obtain ⟨hsender, hworld⟩ := h.sender.test
      exact .stays rfl ⟨hsender, h.receiver, h.caches, hworld ▸ h.sendSkip, h.recvSkip, h.sent,
        h.reports⟩ hw
  | testRecv =>
      obtain ⟨hreceiver, hworld⟩ := h.receiver.test
      exact .stays rfl ⟨h.sender, hreceiver, h.caches, h.sendSkip, hworld ▸ h.recvSkip, h.sent,
        h.reports⟩ hw
  | iterateSend choice =>
      by_cases hcall : s.sender.call = none
      · exact h.iterateSend_idle hw hcall choice
      · have hcurrent := h.sender.carries.current hcall
        cases hsending : w.sending with
        | none =>
            rw [hsending, Option.map_none] at hcurrent
            have hidle := h.sender.carries
            rw [hsending, Option.map_none] at hidle
            cases hidle with
            | idle hnone => exact absurd hnone hcall
        | some st =>
            rw [hsending, Option.map_some] at hcurrent
            exact h.iterateSend_busy hw hC hmessages hsending hcall (hallowed _ _ hcurrent)
  | iterateRecv choice =>
      by_cases hcall : s.receiver.call = none
      · exact h.iterateRecv_idle hw hcall choice
      · have hcurrent := h.receiver.carries.current hcall
        cases hreceiving : w.receiving with
        | none =>
            have hidle := h.receiver.carries
            rw [hreceiving, Option.map_none] at hidle
            cases hidle with
            | idle hnone => exact absurd hnone hcall
        | some r =>
            rw [hreceiving, Option.map_some] at hcurrent
            have hwhole := hallowed _ _ hcurrent
            rw [h.receiver.socket] at hwhole
            exact h.iterateRecv_busy hw hC hmessages hreceiving hcall hwhole
  | insert node fp content retEntry =>
      have hinsert : w.Allowed x C (.insert node fp content retEntry) := hallowed
      obtain ⟨w', hstep, hcorrect, -⟩ := hw.goes hC hmessages hinsert
      obtain ⟨⟨r, cache, e⟩, hrun, hw'⟩ := Option.bind_eq_some_iff.mp hstep
      have hnext : s.next x ends (.insert node fp content retEntry) =
          some { s with caches := Function.update s.caches node cache } := by
        simp only [Pair.next, h.caches, hrun, Option.bind_eq_bind, Option.bind_some]
      refine .steps hnext hinsert hstep ?_ hcorrect
      obtain rfl := Option.some_inj.mp hw'
      exact ⟨h.sender, h.receiver, by rw [h.caches], h.sendSkip, h.recvSkip, h.sent, h.reports⟩
  | setSkip send recv =>
      have hskip : w.Allowed x C (.setSkip send recv) := trivial
      obtain ⟨w', hstep, hcorrect, -⟩ := hw.goes hC hmessages hskip
      refine .steps rfl hskip hstep ?_ hcorrect
      obtain rfl := Option.some_inj.mp hstep
      refine ⟨h.sender.shares _, h.receiver.shares _, h.caches, ?_, ?_, h.sent, h.reports⟩
      · exact congrArg (· || send) h.sendSkip
      · exact congrArg (· || recv) h.recvSkip
  | elsewhereSend world =>
      obtain ⟨hkeeps, hsocket, hproc⟩ := hallowed
      exact .stays rfl ⟨h.sender.keeps { s.sender with world := world } hkeeps rfl rfl
        (hsocket.trans h.sender.socket), h.receiver, h.caches, hproc ▸ h.sendSkip, h.recvSkip,
        h.sent, h.reports⟩ hw
  | elsewhereRecv world =>
      obtain ⟨hkeeps, hsocket, hproc⟩ := hallowed
      exact .stays rfl ⟨h.sender, h.receiver.keeps { s.receiver with world := world } hkeeps rfl rfl
        (hsocket.trans h.receiver.socket), h.caches, h.sendSkip, hproc ▸ h.recvSkip, h.sent,
        h.reports⟩ hw

end Step

/-- A connection over which no call was made yet. -/
structure Pair.Fresh (x : Exchange Node) (ends : Ends) (C : Set (List UInt8))
    (s : Pair Node maxRequests) : Prop where
  sender : s.sender.At .sendReq ends.sendComm ends.sendFd ⟨[], []⟩ none
  receiver : s.receiver.At .recvReq ends.recvComm ends.recvFd ⟨[], []⟩ none
  caches : ∀ node, SoundCache x.sha256 C (s.caches node)
  sent : s.sent = 0
  reports : s.reports = []

/-- The connection before its first message. -/
def Pair.world (s : Pair Node maxRequests) : World Node where
  caches := s.caches
  sendSkip := s.sender.world.proc.toSkipInsertCache
  recvSkip := s.receiver.world.proc.toSkipInsertCache
  sending := none
  sent := 0
  receiving := none
  receipts := []
  forward := []
  backward := []
  forwardSent := []
  backwardSent := []

/-- A process with no call in its loop and no request. -/
def Idle (caller : Caller maxRequests) : Prop := caller.call = none ∧ caller.request = none

/-- What two processes get from their calls: each receive that is reported done has the next
message in its buffer, and none is reported before the send was started. Both processes
live, and a descriptor is free when its process has no request. -/
structure Pair.Served (x : Exchange Node) (ends : Ends) (s : Pair Node maxRequests) : Prop where
  delivered : ∀ (i : Nat) (hi : i < s.reports.length),
    read s.reports[i].buffer 0 (x.messages i).length = x.messages i ∧
      s.reports[i].size = (x.messages i).length
  reported_le : s.reports.length ≤ s.sent + 1
  idle_le : Idle s.sender → s.reports.length ≤ s.sent
  alive : s.sender.world.killed = false ∧ s.receiver.world.killed = false
  sendFree : Idle s.sender → s.sender.world.activeFds ends.sendFd = false
  recvFree : Idle s.receiver → s.receiver.world.activeFds ends.recvFd = false
  drained : Idle s.sender → Idle s.receiver → s.reports.length = s.sent →
    s.sender.world.sockets ends.sendFd = ⟨[], []⟩ ∧
      s.receiver.world.sockets ends.recvFd = ⟨[], []⟩

section Runs

variable {x : Exchange Node} {ends : Ends} {C : Set (List UInt8)} {s : Pair Node maxRequests}
  {w : World Node}

theorem Pair.Fresh.refines (h : s.Fresh x ends C) :
    s.Refines ends s.world ∧ s.world.Fresh x C :=
  ⟨⟨h.sender, h.receiver, rfl, rfl, rfl, h.sent, h.reports⟩,
    ⟨h.caches, rfl, rfl, rfl, rfl, rfl, rfl, rfl, rfl⟩⟩

/-- An idle process has no request in hand, and its descriptor is free. -/
theorem Idle.carries {caller : Caller maxRequests} {c fd : Nat} {req : Option DedupReq}
    (h : Idle caller) (hcarries : caller.Carries c fd req) :
    req = none ∧ caller.world.activeFds fd = false := by
  cases hcarries with
  | idle _ _ hactive => exact ⟨rfl, hactive⟩
  | starting _ _ _ _ hcall => exact absurd (h.1.symm.trans hcall) (by simp)
  | pending _ _ _ _ _ hrequest => exact absurd (h.2.symm.trans hrequest) (by simp)
  | testing _ _ _ _ hcall => exact absurd (h.1.symm.trans hcall) (by simp)

theorem Pair.Refines.served (h : s.Refines ends w) (hw : w.Correct x C) : s.Served x ends := by
  obtain ⟨hdelivered, hle, hdrained⟩ := hw.allDelivered
  have hlength : s.reports.length = w.receipts.length := by rw [h.reports, List.length_map]
  have hsending (hidle : Idle s.sender) : w.sending = none :=
    Option.map_eq_none_iff.mp (hidle.carries h.sender.carries).1
  have hreceiving (hidle : Idle s.receiver) : w.receiving = none :=
    Option.map_eq_none_iff.mp (hidle.carries h.receiver.carries).1
  refine ⟨fun i hi => ?_, ?_, fun hidle => ?_, ⟨h.sender.alive, h.receiver.alive⟩,
    fun hidle => (hidle.carries h.sender.carries).2,
    fun hidle => (hidle.carries h.receiver.carries).2, fun hsend hrecv hsent => ?_⟩
  · obtain ⟨hcontent, -, hsize⟩ := hdelivered i (hlength ▸ hi)
    simp only [h.reports, List.getElem_map]
    exact ⟨hcontent, hsize⟩
  · rw [hlength, h.sent]
    split_ifs at hle with hsome <;> omega
  · rw [hsending hidle] at hle
    rw [hlength, h.sent]
    exact hle
  · rw [hlength, h.sent] at hsent
    obtain ⟨hforward, hbackward⟩ := hdrained (hsending hsend) (hreceiving hrecv) hsent
    rw [h.sender.socket, h.receiver.socket, hforward, hbackward]
    exact ⟨rfl, rfl⟩

/-- However the two processes interleave their calls and the iterations in them, no call
faults or fails, what they do is a run of the connection, and every receive that is
reported done has its message. -/
theorem calls_deliver [DecidableEq Node] (hC : Distinct x.sha256 C)
    (hmessages : ∀ i, Sendable x.sha256 C (x.messages i)) (hs : s.Fresh x ends C)
    {events : List (CallEvent Node maxRequests)}
    (hallowed : Run.Guarded (Pair.next x ends) (Pair.Allowed x ends C) s events) :
    ∃ s' steps w', Run.run (Pair.next x ends) s events = some s' ∧
      Run.Guarded (World.next x) (World.Allowed x C) s.world steps ∧
      Run.run (World.next x) s.world steps = some w' ∧ s'.Refines ends w' ∧ s'.Served x ends := by
  obtain ⟨hrefines, hfresh⟩ := hs.refines
  have hstep (s : Pair Node maxRequests) (w : World Node) (event : CallEvent Node maxRequests)
      (h : s.Refines ends w ∧ w.Correct x C) (hevent : s.Allowed x ends C event) :
      s.Goes x ends C w event :=
    h.1.goes h.2 hC hmessages hevent
  obtain ⟨s', steps, w', hrun, hguarded, hrun', hrefines', hcorrect⟩ :=
    Run.run_simulates hstep ⟨hrefines, hfresh.correct⟩ hallowed
  exact ⟨s', steps, w', hrun, hguarded, hrun', hrefines', hrefines'.served hcorrect⟩

end Runs

section Zeros

/-- A process with one comm of one request. -/
def zerosCaller (type : ReqType) (skip : Bool) : Caller 1 where
  world := (netDedupInit 1 ⟨initFingerprintCache zeroCache, skip⟩).setComm 0
    ⟨type, 5, ⟨0, Nat.zero_lt_one⟩, fun _ => .zeroed type⟩
  call := none
  request := none

def zerosEnds : Ends := ⟨0, 5, 0, 5⟩

/-- Two processes before the first call, of which only the receiving one inserts. -/
def zerosPair : Pair Bool 1 where
  sender := zerosCaller .sendReq true
  receiver := zerosCaller .recvReq false
  caches := fun _ => initFingerprintCache zeroCache
  sent := 0
  reports := []

theorem zerosCaller_at (type : ReqType) (skip : Bool) :
    (zerosCaller type skip).At type 0 5 ⟨[], []⟩ none where
  opened := ⟨_, rfl, rfl, rfl⟩
  fd_lt := by decide
  socket := rfl
  unlocked := rfl
  alive := rfl
  carries := .idle rfl rfl rfl

theorem zerosPair_fresh : zerosPair.Fresh zerosExchange zerosEnds zerosContents where
  sender := zerosCaller_at .sendReq true
  receiver := zerosCaller_at .recvReq false
  caches := fun _ => initFingerprintCache_sound
  sent := rfl
  reports := rfl

theorem zeros_lt : (List.replicate 12288 (0 : UInt8)).length < 2 ^ 31 := by
  rw [List.length_replicate]
  decide

/-- One message is sent and received; both requests are tested until they are done. -/
def zerosPairCalls : List (CallEvent Bool 1) :=
  [.isend ⟨List.replicate 12288 0, zeros_lt⟩ true ⟨12288, 4⟩, .irecv 12288 (fun _ => 0) true] ++
    (List.replicate 32
      [.testSend, .iterateSend manyBytes, .testRecv, .iterateRecv manyBytes]).flatten

/-- The send of a request, if it is one. -/
def sendState : DedupReq → Option SendState
  | .sendReq _ st => some st
  | .recvReq .. => none

/-- The receive of a request, if it is one. -/
def recvState : DedupReq → Option RecvState
  | .sendReq .. => none
  | .recvReq _ st => some st

/-- What is assumed of these events, as a condition that can be decided. -/
def zerosCallAllowed (s : Pair Bool 1) : CallEvent Bool 1 → Prop
  | .isend data _ dumpCalls => (data.val.length = 12288 ∧ data.val.all (· == 0) = true) ∧
      12288 ≤ dumpCalls.bytesTaken ∧ 4 ≤ dumpCalls.sizeTaken
  | .irecv size _ _ => 12288 ≤ size ∧ size < 2 ^ 31
  | .iterateSend choice => ∀ st ∈ s.sender.current.bind sendState, SendsWhole st choice
  | .iterateRecv choice => ∀ st ∈ s.receiver.current.bind recvState,
      ReceivesWhole st (s.receiver.world.sockets 5).inbound.length choice
  | .testSend => True
  | .testRecv => True
  | _ => False

instance decidableZerosCallAllowed (s : Pair Bool 1) : ∀ event, Decidable (zerosCallAllowed s event)
  | .isend _ _ _ => inferInstanceAs (Decidable (_ ∧ _))
  | .irecv _ _ _ => inferInstanceAs (Decidable (_ ∧ _))
  | .iterateSend choice => inferInstanceAs (Decidable
      (∀ st ∈ s.sender.current.bind sendState, SendsWhole st choice))
  | .iterateRecv choice => inferInstanceAs (Decidable
      (∀ st ∈ s.receiver.current.bind recvState,
        ReceivesWhole st (s.receiver.world.sockets 5).inbound.length choice))
  | .testSend => inferInstanceAs (Decidable True)
  | .testRecv => inferInstanceAs (Decidable True)
  | .insert .. => inferInstanceAs (Decidable False)
  | .setSkip .. => inferInstanceAs (Decidable False)
  | .elsewhereSend _ => inferInstanceAs (Decidable False)
  | .elsewhereRecv _ => inferInstanceAs (Decidable False)

theorem zerosCallAllowed.allowed {s : Pair Bool 1} {event : CallEvent Bool 1}
    (h : zerosCallAllowed s event) : s.Allowed zerosExchange zerosEnds zerosContents event := by
  cases event with
  | isend data trylock dumpCalls =>
      obtain ⟨⟨hlength, hzeros⟩, hbytes, hsize⟩ := h
      intro _ _ _
      have hdata : data.val = List.replicate 12288 0 :=
        List.eq_replicate_iff.mpr ⟨hlength, by simpa using hzeros⟩
      refine ⟨hdata, ?_, hsize⟩
      rw [hdata, List.length_replicate]
      exact hbytes
  | irecv size buffer trylock =>
      intro _ _ _
      rw [zeros_length]
      exact h
  | iterateSend choice => exact fun fd st hcurrent => h st (by rw [hcurrent]; rfl)
  | iterateRecv choice => exact fun fd st hcurrent => h st (by rw [hcurrent]; rfl)
  | testSend => trivial
  | testRecv => trivial
  | insert node fp content retEntry => exact absurd h id
  | setSkip send recv => exact absurd h id
  | elsewhereSend w => exact absurd h id
  | elsewhereRecv w => exact absurd h id

/-- The message is sent and reported. -/
theorem zerosPairCalls_checked :
    (Run.runChecked (Pair.next zerosExchange zerosEnds) zerosCallAllowed zerosPair
      zerosPairCalls).map (fun s => (s.sent, s.reports.length)) = some (1, 1) := by
  decide +kernel

/-- Twelve kilobytes are reported. -/
theorem calls_deliver_zeros : ∃ s,
    Run.run (Pair.next zerosExchange zerosEnds) zerosPair zerosPairCalls = some s ∧
      s.Served zerosExchange zerosEnds ∧ s.sent = 1 ∧ s.reports.length = 1 := by
  obtain ⟨s, hchecked, hcount⟩ := Option.map_eq_some_iff.mp zerosPairCalls_checked
  obtain ⟨hallowed, hrun⟩ := Run.of_runChecked hchecked
  obtain ⟨s', _, _, hrun', -, -, -, hserved⟩ := calls_deliver zeros_distinct zeros_sendable
    zerosPair_fresh (hallowed.mono fun _ _ => zerosCallAllowed.allowed)
  obtain rfl := Option.some_inj.mp (hrun.symm.trans hrun')
  obtain ⟨hsent, hreports⟩ := Prod.mk.inj hcount
  exact ⟨s, hrun, hserved, hsent, hreports⟩

end Zeros

end NetDedup.Delivery

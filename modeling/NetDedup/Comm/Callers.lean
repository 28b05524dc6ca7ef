import NetDedup.Comm.Dump
import NetDedup.Comm.Iterations

/-!
# Processes between and in their calls

A process that makes its calls on one comm, one call after the other, while the
iterations of a call interleave with whatever else happens.
-/

namespace NetDedup.Comm

open Chunking Memory Store Transfer

variable {maxRequests : Nat}

/-- A process that makes its calls on one comm: the call that is in its loop, and the
request that it was handed and that was not yet reported done. -/
structure Caller (maxRequests : Nat) where
  world : World maxRequests
  call : Option (Call maxRequests)
  request : Option (ReqPtr maxRequests)

namespace Caller

variable (sha256 : List UInt8 → Digest) (caller : Caller maxRequests)

/-- A call has returned. -/
def replied (w : World maxRequests) (reply : Reply maxRequests) : Caller maxRequests where
  world := w
  call := none
  request :=
    match reply with
    | .request (some r) => some r
    | .tested true _ => none
    | _ => caller.request

/-- A call has returned, or has got to its loop. -/
def began : (Reply maxRequests ⊕ Call maxRequests) × World maxRequests → Caller maxRequests
  | (.inl reply, w) => caller.replied w reply
  | (.inr call, w) => { caller with world := w, call := some call }

/-- `netDedup_isend` is called, unless another call is in its loop. -/
def isend (c : Nat) (data : Message) (trylock : Bool) (dumpCalls : DumpCalls) :
    Option (Caller maxRequests) :=
  if caller.call.isSome then some caller
  else (caller.world.isendBegin c data trylock dumpCalls).map caller.began

/-- `netDedup_irecv` is called, unless another call is in its loop. -/
def irecv (c size : Nat) (data : Mem) (trylock : Bool) : Option (Caller maxRequests) :=
  if caller.call.isSome then some caller
  else (caller.world.irecvBegin c size data trylock).map caller.began

/-- `netDedup_test` is called on the request, unless another call is in its loop. -/
def test : Caller maxRequests :=
  match caller.call, caller.request with
  | none, some r => { caller with call := some (.test r) }
  | _, _ => caller

/-- The loop of the call takes one iteration, and the call may return. -/
def iterate (choice : Choice) : Option (Option (Reply maxRequests) × Caller maxRequests) :=
  match caller.call with
  | none => some (none, caller)
  | some call => do
      let (flow, w) ← caller.world.iterate sha256 call.request choice
      match flow with
      | .loop => some (none, { caller with world := w })
      | .ret ret => do
          let (reply, w) ← w.callReturn call ret
          some (some reply, caller.replied w reply)

/-- The request whose processing the call is in. -/
def current : Option DedupReq :=
  caller.call.bind fun call => caller.world.request? call.request

/-- The process with other shared state. -/
def shares (proc : Process) : Caller maxRequests :=
  { caller with world := { caller.world with proc := proc } }

/-- Bytes arrive. -/
def arrive (fd : Nat) (bs : List UInt8) : Caller maxRequests :=
  { caller with world := caller.world.arrive fd bs }

/-- What was handed to a socket leaves it. -/
def drain (fd : Nat) : Caller maxRequests :=
  let world := caller.world
  let sock := world.sockets fd
  { caller with
    world := { world with
      sockets := Function.update world.sockets fd { sock with sent := [] } } }

/-- The iterations of a call until it returns, and what happens in between. -/
def during (call : Call maxRequests) :
    List PartyEvent → Caller maxRequests → Option (Reply maxRequests × Caller maxRequests)
  | [], _ => none
  | .arrive bs :: events, caller => do
      let req ← caller.world.request? call.request
      during call events { caller with world := caller.world.arrive req.sockfd bs }
  | .other proc :: events, caller =>
      during call events { caller with world := { caller.world with proc := proc } }
  | .step choice :: events, caller => do
      let (reply, caller) ← caller.iterate sha256 choice
      match reply with
      | none => during call events caller
      | some reply => some (reply, caller)

end Caller

/-- The iterations of a call make up the rest of it. -/
theorem Caller.during_eq {sha256 : List UInt8 → Digest} {call : Call maxRequests}
    (events : List PartyEvent) : ∀ caller : Caller maxRequests, caller.call = some call →
      caller.during sha256 call events =
        (World.callEnd sha256 events (.inr call, caller.world)).map fun (reply, w) =>
          (reply, caller.replied w reply) := by
  induction events with
  | nil =>
      intro caller _
      have hprocess : caller.world.process sha256 call.request [] = none := by
        cases hcomm : caller.world.comms call.request.comm with
        | none => simp only [World.process, hcomm, Option.bind_eq_bind, Option.bind_none]
        | some comm =>
            rw [World.process_eq _ hcomm]
            cases comm.requests call.request.ind <;> rfl
      simp only [World.callEnd, hprocess, Option.bind_eq_bind, Option.bind_none, Option.map_none,
        Caller.during]
  | cons event events ih =>
      intro caller hcall
      cases event with
      | arrive bs =>
          simp only [Caller.during, World.callEnd, World.request?]
          cases hcomm : caller.world.comms call.request.comm with
          | none => simp only [World.process, hcomm, Option.map_none, Option.bind_eq_bind,
              Option.bind_none]
          | some comm =>
              rw [World.process_arrive bs events hcomm]
              exact ih { caller with world := caller.world.arrive _ bs } hcall
      | other proc =>
          simp only [Caller.during, World.callEnd]
          rw [World.process_other]
          exact ih { caller with world := { caller.world with proc := proc } } hcall
      | step choice =>
          obtain ⟨world, _, request⟩ := caller
          obtain rfl := hcall
          simp only [Caller.during, World.callEnd, Caller.iterate]
          rw [World.process_step]
          cases world.iterate sha256 call.request choice with
          | none => rfl
          | some result =>
              obtain ⟨flow, w⟩ := result
              cases flow with
              | loop => exact ih ⟨w, some call, request⟩ rfl
              | ret ret =>
                  simp only [Option.bind_eq_bind, Option.bind_some]
                  cases w.callReturn call ret with
                  | none => rfl
                  | some result => rfl

/-- A call from where its first part has got to, and what happens during it. -/
def Caller.finish (sha256 : List UInt8 → Digest) (events : List PartyEvent)
    (caller : Caller maxRequests) : (Reply maxRequests ⊕ Call maxRequests) × World maxRequests →
      Option (Reply maxRequests × Caller maxRequests)
  | (.inl reply, w) => some (reply, caller.replied w reply)
  | (.inr call, w) => Caller.during sha256 call events { caller with world := w, call := some call }

section Whole

variable {sha256 : List UInt8 → Digest} (caller : Caller maxRequests)

theorem Caller.finish_eq (events : List PartyEvent)
    (begun : (Reply maxRequests ⊕ Call maxRequests) × World maxRequests) :
    caller.finish sha256 events begun =
      (World.callEnd sha256 events begun).map fun (reply, w) => (reply, caller.replied w reply) := by
  obtain ⟨reply | call, w⟩ := begun
  · rfl
  · exact Caller.during_eq events { caller with world := w, call := some call } rfl

/-- `netDedup_isend` is its first part and the iterations of its loop. -/
theorem Caller.isend_whole (c : Nat) (data : Message) (calls : StartCalls) :
    (caller.world.isendBegin c data calls.trylock calls.dump).bind
        (caller.finish sha256 calls.events) =
      (netDedupIsend sha256 caller.world c data calls).map fun (reply, w) =>
        (reply, caller.replied w reply) := by
  rw [netDedupIsend_eq, Option.map_bind]
  exact Option.bind_congr fun begun _ => caller.finish_eq calls.events begun

/-- `netDedup_irecv` is its first part and the iterations of its loop. -/
theorem Caller.irecv_whole (c size : Nat) (data : Mem) (calls : StartCalls) :
    (caller.world.irecvBegin c size data calls.trylock).bind
        (caller.finish sha256 calls.events) =
      (netDedupIrecv sha256 caller.world c size data calls).map fun (reply, w) =>
        (reply, caller.replied w reply) := by
  rw [netDedupIrecv_eq, Option.map_bind]
  exact Option.bind_congr fun begun _ => caller.finish_eq calls.events begun

/-- `netDedup_test` is the iterations of its loop. -/
theorem Caller.test_whole (r : ReqPtr maxRequests) (events : List PartyEvent) :
    caller.finish sha256 events (.inr (.test r), caller.world) =
      (netDedupTest sha256 caller.world (some r) events).map fun (reply, w) =>
        (reply, caller.replied w reply) := by
  rw [netDedupTest_eq]
  exact caller.finish_eq events _

end Whole

/-- What a process has in hand of one comm: the request that it has not finished yet, where
its call stands, and the state of the socket. -/
inductive Caller.Carries (caller : Caller maxRequests) (c fd : Nat) : Option DedupReq → Prop
  | idle (hcall : caller.call = none) (hrequest : caller.request = none)
      (hactive : caller.world.activeFds fd = false) : Carries caller c fd none
  | starting (ind : Fin maxRequests) (req : DedupReq)
      (hreq : caller.world.request? ⟨c, ind⟩ = some req) (hfd : req.sockfd = fd)
      (hcall : caller.call = some (.start ⟨c, ind⟩ fd)) (hrequest : caller.request = none)
      (hactive : caller.world.activeFds fd = false) : Carries caller c fd (some req)
  | pending (ind : Fin maxRequests) (req : DedupReq)
      (hreq : caller.world.request? ⟨c, ind⟩ = some req) (hfd : req.sockfd = fd)
      (hcall : caller.call = none) (hrequest : caller.request = some ⟨c, ind⟩)
      (hactive : caller.world.activeFds fd = true) : Carries caller c fd (some req)
  | testing (ind : Fin maxRequests) (req : DedupReq)
      (hreq : caller.world.request? ⟨c, ind⟩ = some req) (hfd : req.sockfd = fd)
      (hcall : caller.call = some (.test ⟨c, ind⟩)) (hrequest : caller.request = some ⟨c, ind⟩)
      (hactive : caller.world.activeFds fd = true) : Carries caller c fd (some req)

/-- A process with an open comm of this type over a connected socket. -/
structure Caller.At (caller : Caller maxRequests) (type : ReqType) (c fd : Nat) (sock : Socket)
    (req : Option DedupReq) : Prop where
  opened : ∃ comm, caller.world.comms c = some comm ∧ comm.type = type ∧ comm.fd = fd
  fd_lt : fd < maxFds
  socket : caller.world.sockets fd = sock
  unlocked : caller.world.dump.dumpLock = false
  alive : caller.world.killed = false
  carries : caller.Carries c fd req

/-- What else a process does leaves a comm and the flag of its descriptor alone, keeps no
lock and does not fail. -/
structure World.Keeps (w w' : World maxRequests) (c fd : Nat) : Prop where
  comms : w'.comms c = w.comms c
  activeFds : w'.activeFds fd = w.activeFds fd
  dumpLock : w'.dump.dumpLock = w.dump.dumpLock
  killed : w'.killed = w.killed

section At

variable {caller : Caller maxRequests} {type : ReqType} {c fd : Nat} {sock : Socket}
  {req : Option DedupReq}

theorem Caller.Carries.keeps (h : caller.Carries c fd req) {caller' : Caller maxRequests}
    (hw : caller.world.Keeps caller'.world c fd) (hcall' : caller'.call = caller.call)
    (hrequest' : caller'.request = caller.request) : caller'.Carries c fd req := by
  have hreq' (ind : Fin maxRequests) :
      caller'.world.request? ⟨c, ind⟩ = caller.world.request? ⟨c, ind⟩ := by
    rw [World.request?, World.request?, hw.comms]
  cases h with
  | idle hcall hrequest hactive =>
      exact .idle (hcall'.trans hcall) (hrequest'.trans hrequest) (hw.activeFds.trans hactive)
  | starting ind req hreq hfd hcall hrequest hactive =>
      exact .starting ind req ((hreq' ind).trans hreq) hfd (hcall'.trans hcall)
        (hrequest'.trans hrequest) (hw.activeFds.trans hactive)
  | pending ind req hreq hfd hcall hrequest hactive =>
      exact .pending ind req ((hreq' ind).trans hreq) hfd (hcall'.trans hcall)
        (hrequest'.trans hrequest) (hw.activeFds.trans hactive)
  | testing ind req hreq hfd hcall hrequest hactive =>
      exact .testing ind req ((hreq' ind).trans hreq) hfd (hcall'.trans hcall)
        (hrequest'.trans hrequest) (hw.activeFds.trans hactive)

/-- Whatever else happens in the process. -/
theorem Caller.At.keeps (h : caller.At type c fd sock req) (caller' : Caller maxRequests)
    (hw : caller.world.Keeps caller'.world c fd) (hcall : caller'.call = caller.call)
    (hrequest : caller'.request = caller.request) {sock' : Socket}
    (hsock : caller'.world.sockets fd = sock') : caller'.At type c fd sock' req where
  opened := by
    obtain ⟨comm, hcomm, hcomm'⟩ := h.opened
    exact ⟨comm, hw.comms.trans hcomm, hcomm'⟩
  fd_lt := h.fd_lt
  socket := hsock
  unlocked := hw.dumpLock.trans h.unlocked
  alive := hw.killed.trans h.alive
  carries := h.carries.keeps hw hcall hrequest

theorem Caller.At.shares (h : caller.At type c fd sock req) (proc : Process) :
    (caller.shares proc).At type c fd sock req :=
  h.keeps (caller.shares proc) ⟨rfl, rfl, rfl, rfl⟩ rfl rfl h.socket

theorem Caller.At.arrive (h : caller.At type c fd sock req) {bs inbound : List UInt8}
    (hinbound : sock.inbound ++ bs = inbound) :
    (caller.arrive fd bs).At type c fd { sock with inbound := inbound } req := by
  refine h.keeps (caller.arrive fd bs) ⟨rfl, rfl, rfl, rfl⟩ rfl rfl ?_
  rw [← hinbound, ← h.socket]
  exact World.arrive_sockets fd bs

theorem Caller.At.drain (h : caller.At type c fd sock req) :
    (caller.drain fd).At type c fd { sock with sent := [] } req := by
  refine h.keeps (caller.drain fd) ⟨rfl, rfl, rfl, rfl⟩ rfl rfl ?_
  rw [← h.socket]
  exact Function.update_self ..

/-- A process has its request in hand when a call is in its loop. -/
theorem Caller.Carries.current (h : caller.Carries c fd req) (hcall : caller.call ≠ none) :
    caller.current = req := by
  cases h with
  | idle hnone => exact absurd hnone hcall
  | starting ind req hreq _ hstart => rw [Caller.current, hstart]; exact hreq
  | pending _ _ _ _ hnone => exact absurd hnone hcall
  | testing ind req hreq _ htest => rw [Caller.current, htest]; exact hreq

/-- A refused call leaves the process as it is. -/
theorem Caller.replied_refused (hcall : caller.call = none) :
    caller.replied caller.world (.request none) = caller := by
  obtain ⟨world, _, request⟩ := caller
  obtain rfl := hcall
  rfl

/-- The descriptor of a request in hand is busy, if no call is in its loop. -/
theorem Caller.Carries.busy (h : caller.Carries c fd req) (hreq : req ≠ none)
    (hcall : caller.call = none) : caller.world.activeFds fd = true := by
  cases h with
  | idle => exact absurd rfl hreq
  | starting _ _ _ _ hcall' => exact absurd (hcall.symm.trans hcall') (by simp)
  | pending _ _ _ _ _ _ hactive => exact hactive
  | testing _ _ _ _ hcall' => exact absurd (hcall.symm.trans hcall') (by simp)

/-- A call to `isend` that is refused, or comes while another call is in its loop, changes
nothing. -/
theorem Caller.At.isend_refused (h : caller.At .sendReq c fd sock req) (data : Message)
    {trylock : Bool} (dumpCalls : DumpCalls) (hrefused : req ≠ none ∨ trylock = false) :
    caller.isend c data trylock dumpCalls = some caller := by
  obtain ⟨comm, hcomm, htype, rfl⟩ := h.opened
  rw [Caller.isend]
  split_ifs with hbusy
  · rfl
  · have hcall : caller.call = none := by simpa using hbusy
    have hbegin : caller.world.isendBegin c data trylock dumpCalls =
        some (.inl (.request none), caller.world) := by
      simp only [World.isendBegin, World.comm?_eq_some.mpr ⟨hcomm, htype⟩,
        World.activeFd, if_pos h.fd_lt, Option.bind_eq_bind, Option.bind_some]
      rcases hrefused with hreq | rfl
      · rw [h.carries.busy hreq hcall, if_pos rfl]
      · simp
    rw [hbegin, Option.map_some, Caller.began, Caller.replied_refused hcall]

/-- A call to `irecv` that is refused, or comes while another call is in its loop, changes
nothing. -/
theorem Caller.At.irecv_refused (h : caller.At .recvReq c fd sock req) (size : Nat) (data : Mem)
    {trylock : Bool} (hrefused : req ≠ none ∨ trylock = false) :
    caller.irecv c size data trylock = some caller := by
  obtain ⟨comm, hcomm, htype, rfl⟩ := h.opened
  rw [Caller.irecv]
  split_ifs with hbusy
  · rfl
  · have hcall : caller.call = none := by simpa using hbusy
    have hbegin : caller.world.irecvBegin c size data trylock =
        some (.inl (.request none), caller.world) := by
      simp only [World.irecvBegin, World.comm?_eq_some.mpr ⟨hcomm, htype⟩,
        World.activeFd, if_pos h.fd_lt, Option.bind_eq_bind, Option.bind_some]
      rcases hrefused with hreq | rfl
      · rw [h.carries.busy hreq hcall, if_pos rfl]
      · simp
    rw [hbegin, Option.map_some, Caller.began, Caller.replied_refused hcall]

/-- A request is taken. -/
theorem Caller.At.took (h : caller.At type c fd sock none) {comm : DedupComm maxRequests}
    (hcomm : caller.world.comms c = some comm) (hfd : comm.fd = fd) {taken : DedupReq}
    (htaken : taken.sockfd = fd) (dump : Dump) (hdump : dump.dumpLock = false) :
    Caller.At ⟨{ caller.world.takeRequest c comm taken with dump := dump },
        some (.start ⟨c, comm.takeReqInd⟩ fd), caller.request⟩ type c fd sock (some taken) := by
  obtain ⟨comm', hcomm', htype, -⟩ := h.opened
  obtain rfl := Option.some_inj.mp (hcomm.symm.trans hcomm')
  refine ⟨⟨comm.advance.setRequest comm.takeReqInd taken, Function.update_self .., htype, hfd⟩,
    h.fd_lt, h.socket, hdump, h.alive, ?_⟩
  cases h.carries with
  | idle hcall hrequest hactive =>
      refine .starting comm.takeReqInd taken ?_ htaken rfl hrequest hactive
      simp [World.request?, World.takeRequest, World.setComm]

/-- A call to `isend` takes a request and gets to its loop. -/
theorem Caller.At.isend (h : caller.At .sendReq c fd sock none) {data : Message}
    {dumpCalls : DumpCalls} (hdump : dumpCalls.Complete data) :
    ∃ caller', caller.isend c data true dumpCalls = some caller' ∧
      caller'.world.proc = caller.world.proc ∧
      caller'.At .sendReq c fd sock (some (.sendReq fd ⟨isendRequest data.val, none⟩)) := by
  obtain ⟨comm, hcomm, htype, hfd⟩ := h.opened
  obtain ⟨hcall, hactive⟩ : caller.call = none ∧ caller.world.activeFds fd = false := by
    cases h.carries with
    | idle hcall _ hactive => exact ⟨hcall, hactive⟩
  have hbegin : caller.world.isendBegin c data true dumpCalls =
      some (.inr (.start ⟨c, comm.takeReqInd⟩ fd), { caller.world.takeRequest c comm
        (.sendReq fd ⟨isendRequest data.val, none⟩) with
          dump := caller.world.dump.record data }) := by
    have hdumped : dumpSend (caller.world.takeRequest c comm
        (.sendReq fd ⟨isendRequest data.val, none⟩)).dump data dumpCalls =
          some (0, caller.world.dump.record data) := Dump.dumpSend_complete h.unlocked hdump
    simp only [World.isendBegin, World.comm?_eq_some.mpr ⟨hcomm, htype⟩, World.activeFd,
      if_pos h.fd_lt, hactive, Option.bind_eq_bind, Option.bind_some, hfd, hdumped]
    simp
  refine ⟨_, ?_, ?_, h.took hcomm hfd rfl (caller.world.dump.record data) rfl⟩
  · rw [Caller.isend, hcall, Option.isSome_none, if_neg (by simp), hbegin, Option.map_some,
      Caller.began]
  · rfl

/-- A call to `irecv` takes a request and gets to its loop. -/
theorem Caller.At.irecv (h : caller.At .recvReq c fd sock none) (size : Nat) (data : Mem) :
    ∃ caller', caller.irecv c size data true = some caller' ∧
      caller'.world.proc = caller.world.proc ∧
      caller'.At .recvReq c fd sock (some (.recvReq fd ⟨irecvRequest size data, none, none⟩)) := by
  obtain ⟨comm, hcomm, htype, hfd⟩ := h.opened
  obtain ⟨hcall, hactive⟩ : caller.call = none ∧ caller.world.activeFds fd = false := by
    cases h.carries with
    | idle hcall _ hactive => exact ⟨hcall, hactive⟩
  have hbegin : caller.world.irecvBegin c size data true =
      some (.inr (.start ⟨c, comm.takeReqInd⟩ fd), caller.world.takeRequest c comm
        (.recvReq fd ⟨irecvRequest size data, none, none⟩)) := by
    simp only [World.irecvBegin, World.comm?_eq_some.mpr ⟨hcomm, htype⟩, World.activeFd,
      if_pos h.fd_lt, hactive, Option.bind_eq_bind, Option.bind_some, hfd]
    simp
  refine ⟨_, ?_, ?_, h.took hcomm hfd rfl caller.world.dump h.unlocked⟩
  · rw [Caller.irecv, hcall, Option.isSome_none, if_neg (by simp), hbegin, Option.map_some,
      Caller.began]
    rfl
  · rfl

/-- `test` is called. -/
theorem Caller.At.test (h : caller.At type c fd sock req) :
    caller.test.At type c fd sock req ∧ caller.test.world = caller.world := by
  obtain ⟨hopened, hfd_lt, hsocket, hunlocked, halive, hcarries⟩ := h
  have hworld : caller.test.world = caller.world := by
    rw [Caller.test]
    split <;> rfl
  refine ⟨⟨hworld ▸ hopened, hfd_lt, hworld ▸ hsocket, hworld ▸ hunlocked, hworld ▸ halive, ?_⟩,
    hworld⟩
  obtain ⟨world, call, request⟩ := caller
  cases hcarries with
  | idle hcall hrequest hactive =>
      obtain rfl := hcall
      obtain rfl := hrequest
      exact .idle rfl rfl hactive
  | starting ind req hreq hfd hcall hrequest hactive =>
      obtain rfl := hcall
      exact .starting ind req hreq hfd rfl hrequest hactive
  | pending ind req hreq hfd hcall hrequest hactive =>
      obtain rfl := hcall
      obtain rfl := hrequest
      exact .testing ind req hreq hfd rfl rfl hactive
  | testing ind req hreq hfd hcall hrequest hactive =>
      obtain rfl := hcall
      exact .testing ind req hreq hfd rfl hrequest hactive

section Iterate

variable {sha256 : List UInt8 → Digest} {ind : Fin maxRequests} {req req' : DedupReq}
  {sock' : Socket} {proc' : Process} {choice : Choice} {flow : Flow} {w : World maxRequests}

theorem World.iterate_eq (hreq : w.request? ⟨c, ind⟩ = some req)
    (hstep : req.iterate sha256 (w.sockets req.sockfd) w.proc choice =
      some (flow, req', sock', proc')) :
    ∃ comm, w.comms c = some comm ∧
      w.iterate sha256 ⟨c, ind⟩ choice = some (flow, w.processed ⟨c, ind⟩ comm req' sock' proc') := by
  obtain ⟨comm, hcomm, rfl⟩ := Option.map_eq_some_iff.mp hreq
  refine ⟨comm, hcomm, ?_⟩
  simp only [World.iterate, hcomm, Option.bind_eq_bind, Option.bind_some, hstep]

/-- After an iteration that goes on or returns, the call is where the loop has got to. -/
theorem Caller.At.iterate (h : caller.At type c fd sock (some req)) (hcall : caller.call ≠ none)
    (hstep : req.iterate sha256 sock caller.world.proc choice = some (flow, req', sock', proc'))
    (hret : ∀ r, flow = .ret r → r = 0 ∨ r = 1) :
    ∃ reply caller', caller.iterate sha256 choice = some (reply, caller') ∧
      caller'.world.proc = proc' ∧
      ((∀ size, reply ≠ some (.tested true size)) ∧ caller'.At type c fd sock' (some req') ∨
        flow = .ret 1 ∧ reply = some (.tested true (some req'.size)) ∧
          (caller.call.bind fun call => caller'.world.request? call.request) = some req' ∧
          caller'.At type c fd sock' none) := by
  obtain ⟨⟨comm, hcomm, htype, hcommfd⟩, hfd_lt, rfl, hunlocked, halive, hcarries⟩ := h
  have hsockfd := DedupReq.iterate_sockfd hstep
  have hopened {ind : Fin maxRequests} : ∃ comm', (caller.world.processed ⟨c, ind⟩ comm req' sock'
      proc').comms c = some comm' ∧ comm'.type = type ∧ comm'.fd = fd :=
    ⟨comm.setRequest ind req', World.processed_comms, htype, hcommfd⟩
  have hprocessed {ind : Fin maxRequests} (hreq : caller.world.request? ⟨c, ind⟩ = some req)
      (hfd : req.sockfd = fd) :
      caller.world.iterate sha256 ⟨c, ind⟩ choice =
          some (flow, caller.world.processed ⟨c, ind⟩ comm req' sock' proc') ∧
        (caller.world.processed ⟨c, ind⟩ comm req' sock' proc').request? ⟨c, ind⟩ = some req' ∧
        (caller.world.processed ⟨c, ind⟩ comm req' sock' proc').sockets fd = sock' := by
    obtain ⟨comm', hcomm', hiterate⟩ := World.iterate_eq hreq (hfd.symm ▸ hstep)
    obtain rfl := Option.some_inj.mp (hcomm.symm.trans hcomm')
    refine ⟨hiterate, ?_, ?_⟩
    · rw [World.request?, World.processed_comms, Option.map_some,
        DedupComm.setRequest_requests_self]
    · rw [← hfd, ← hsockfd]
      exact World.processed_sockets
  obtain ⟨world, call, request⟩ := caller
  cases hcarries with
  | pending _ _ _ _ hnone => exact absurd hnone hcall
  | starting ind _ hreq hfd hstart hrequest hactive =>
      obtain rfl := hstart
      obtain rfl := hrequest
      obtain ⟨hiterate, hreq', hsocket'⟩ := hprocessed hreq hfd
      cases flow with
      | loop =>
          refine ⟨none, ⟨world.processed ⟨c, ind⟩ comm req' sock' proc', some (.start ⟨c, ind⟩ fd),
            none⟩, ?_, rfl, Or.inl ⟨by simp, hopened, hfd_lt, hsocket', hunlocked, halive,
              .starting ind req' hreq' (hsockfd.trans hfd) rfl rfl hactive⟩⟩
          simp only [Caller.iterate, Call.request, hiterate, Option.bind_eq_bind, Option.bind_some]
      | ret r =>
          -- the request is handed out, complete or not
          have hr : r ≠ -1 := by rcases hret r rfl with rfl | rfl <;> decide
          refine ⟨some (.request (some ⟨c, ind⟩)), ⟨{ world.processed ⟨c, ind⟩ comm req' sock' proc'
            with activeFds := Function.update world.activeFds fd true }, none, some ⟨c, ind⟩⟩, ?_,
              rfl, Or.inl ⟨by simp, hopened, hfd_lt, hsocket', hunlocked, halive,
                .pending ind req' hreq' (hsockfd.trans hfd) rfl rfl (Function.update_self ..)⟩⟩
          simp only [Caller.iterate, Call.request, hiterate, Option.bind_eq_bind, Option.bind_some,
            World.callReturn, if_neg hr, World.setActiveFd, if_pos hfd_lt]
          rfl
  | testing ind _ hreq hfd htest hrequest hactive =>
      obtain rfl := htest
      obtain rfl := hrequest
      obtain ⟨hiterate, hreq', hsocket'⟩ := hprocessed hreq hfd
      cases flow with
      | loop =>
          refine ⟨none, ⟨world.processed ⟨c, ind⟩ comm req' sock' proc', some (.test ⟨c, ind⟩),
            some ⟨c, ind⟩⟩, ?_, rfl, Or.inl ⟨by simp, hopened, hfd_lt, hsocket', hunlocked, halive,
              .testing ind req' hreq' (hsockfd.trans hfd) rfl rfl hactive⟩⟩
          simp only [Caller.iterate, Call.request, hiterate, Option.bind_eq_bind, Option.bind_some]
      | ret r =>
          rcases hret r rfl with rfl | rfl
          · refine ⟨some (.tested false none), ⟨world.processed ⟨c, ind⟩ comm req' sock' proc', none,
              some ⟨c, ind⟩⟩, ?_, rfl, Or.inl ⟨by simp, hopened, hfd_lt, hsocket', hunlocked, halive,
                .pending ind req' hreq' (hsockfd.trans hfd) rfl rfl hactive⟩⟩
            simp only [Caller.iterate, Call.request, hiterate, Option.bind_eq_bind,
              Option.bind_some, World.callReturn]
            rfl
          · refine ⟨some (.tested true (some req'.size)), ⟨{ world.processed ⟨c, ind⟩ comm req'
              sock' proc' with activeFds := Function.update world.activeFds fd false }, none, none⟩,
                ?_, rfl, Or.inr ⟨rfl, rfl, hreq', hopened, hfd_lt, hsocket', hunlocked, halive,
                  .idle rfl rfl (Function.update_self ..)⟩⟩
            simp only [Caller.iterate, Call.request, hiterate, Option.bind_eq_bind,
              Option.bind_some, World.callReturn, hreq', World.setActiveFd, hsockfd.trans hfd,
              if_pos hfd_lt]
            rfl

end Iterate

end At

end NetDedup.Comm

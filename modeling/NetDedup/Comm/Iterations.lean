import NetDedup.Comm.Calls

/-!
# Calls in progress

A call of the plugin is a part before the loop of `process_send` or `process_recv`,
the iterations of the loop, and a part after it. What happens to a call that is given
all that happens during it comes out of these three.
-/

namespace NetDedup.Comm

open Chunking Memory Store Transfer

variable {maxRequests : Nat}

/-- One iteration of the loop of `process_send` or `process_recv`, by the type of the
request. -/
def DedupReq.iterate (sha256 : List UInt8 → Digest) (req : DedupReq) (sock : Socket)
    (proc : Process) (choice : Choice) : Option (Flow × DedupReq × Socket × Process) :=
  match req with
  | .sendReq sockfd st =>
      (processSend sha256 st sock proc choice).map fun (flow, st, sock, proc) =>
        (flow, .sendReq sockfd st, sock, proc)
  | .recvReq sockfd st =>
      (processRecv st sock proc choice).map fun (flow, st, sock, proc) =>
        (flow, .recvReq sockfd st, sock, proc)

/-- A call that is in its loop. -/
inductive Call (maxRequests : Nat) where
  /-- `isend` or `irecv`, for the first round of processing of a request. -/
  | start (r : ReqPtr maxRequests) (sockfd : Nat)
  | test (r : ReqPtr maxRequests)
  deriving DecidableEq

/-- The request that a call processes. -/
def Call.request : Call maxRequests → ReqPtr maxRequests
  | .start r _ => r
  | .test r => r

namespace World

variable (sha256 : List UInt8 → Digest) (w : World maxRequests)

/-- A request of a comm, its socket and the process after some processing. -/
def processed (r : ReqPtr maxRequests) (comm : DedupComm maxRequests) (req : DedupReq)
    (sock : Socket) (proc : Process) : World maxRequests :=
  { w.setComm r.comm (comm.setRequest r.ind req) with
    sockets := Function.update w.sockets req.sockfd sock
    proc := proc }

/-- One iteration on a request of a comm. -/
def iterate (r : ReqPtr maxRequests) (choice : Choice) : Option (Flow × World maxRequests) := do
  let comm ← w.comms r.comm
  let req := comm.requests r.ind
  let (flow, req, sock, proc) ← req.iterate sha256 (w.sockets req.sockfd) w.proc choice
  some (flow, w.processed r comm req sock proc)

/-- Bytes arrive. -/
def arrive (fd : Nat) (bs : List UInt8) : World maxRequests :=
  let sock := w.sockets fd
  { w with sockets := Function.update w.sockets fd { sock with inbound := sock.inbound ++ bs } }

/-- `netDedup_isend` up to its loop: what it returns, or the call that is in its loop. -/
def isendBegin (c : Nat) (data : Message) (trylock : Bool) (dumpCalls : DumpCalls) :
    Option ((Reply maxRequests ⊕ Call maxRequests) × World maxRequests) := do
  let comm ← w.comm? .sendReq c
  let active ← w.activeFd comm.fd
  if active then some (.inl (.request none), w)
  else if trylock = false then some (.inl (.request none), w)
  else
    let w := w.takeRequest c comm (.sendReq comm.fd ⟨isendRequest data.val, none⟩)
    let (ret, dump) ← dumpSend w.dump data dumpCalls
    let w := { w with dump := dump }
    if ret ≠ 0 then some (.inl .systemError, w)
    else some (.inr (.start ⟨c, comm.takeReqInd⟩ comm.fd), w)

/-- `netDedup_irecv` up to its loop. -/
def irecvBegin (c size : Nat) (data : Mem) (trylock : Bool) :
    Option ((Reply maxRequests ⊕ Call maxRequests) × World maxRequests) := do
  let comm ← w.comm? .recvReq c
  let active ← w.activeFd comm.fd
  if active then some (.inl (.request none), w)
  else if trylock = false then some (.inl (.request none), w)
  else
    let w := w.takeRequest c comm (.recvReq comm.fd ⟨irecvRequest size data, none, none⟩)
    some (.inr (.start ⟨c, comm.takeReqInd⟩ comm.fd), w)

/-- What a call does with what its loop returned. -/
def callReturn (call : Call maxRequests) (ret : Int) :
    Option (Reply maxRequests × World maxRequests) :=
  match call with
  | .start r sockfd =>
      if ret = -1 then some (.systemError, w)
      else do
        let w ← w.setActiveFd sockfd true
        some (.request (some r), w)
  | .test r =>
      if ret = -1 then some (.returned, { w with killed := true })
      else if ret = 1 then do
        let req ← w.request? r
        let w ← w.setActiveFd req.sockfd false
        some (.tested true (some req.size), w)
      else some (.tested false none, w)

/-- The rest of a call, in which its loop meets `events`. -/
def callEnd (events : List PartyEvent) :
    (Reply maxRequests ⊕ Call maxRequests) × World maxRequests →
      Option (Reply maxRequests × World maxRequests)
  | (.inl reply, w) => some (reply, w)
  | (.inr call, w) => do
      let (ret, w) ← w.process sha256 call.request events
      w.callReturn call ret

end World

section Loop

variable {sha256 : List UInt8 → Digest} {w : World maxRequests} {r : ReqPtr maxRequests}
  {comm : DedupComm maxRequests} {req req' : DedupReq} {sock sock' : Socket} {proc proc' : Process}
  {choice : Choice} {flow : Flow}

theorem DedupReq.iterate_sockfd
    (h : req.iterate sha256 sock proc choice = some (flow, req', sock', proc')) :
    req'.sockfd = req.sockfd := by
  cases req with
  | sendReq sockfd st =>
      obtain ⟨p, -, hp⟩ := Option.map_eq_some_iff.mp h
      simp only [Prod.mk.injEq] at hp
      exact hp.2.1 ▸ rfl
  | recvReq sockfd st =>
      obtain ⟨p, -, hp⟩ := Option.map_eq_some_iff.mp h
      simp only [Prod.mk.injEq] at hp
      exact hp.2.1 ▸ rfl

/-- The loop takes an iteration and goes on, or returns. -/
theorem DedupReq.process_step (events : List PartyEvent) :
    req.process sha256 (.step choice :: events) sock proc =
      (req.iterate sha256 sock proc choice).bind fun (flow, req, sock, proc) =>
        match flow with
        | .loop => req.process sha256 events sock proc
        | .ret r => some (r, req, sock, proc) := by
  cases req with
  | sendReq sockfd st =>
      simp only [process, iterate, processLoop]
      cases processSend sha256 st sock proc choice with
      | none => rfl
      | some result =>
          obtain ⟨flow, st', sock', proc'⟩ := result
          cases flow <;> rfl
  | recvReq sockfd st =>
      simp only [process, iterate, processLoop]
      cases processRecv st sock proc choice with
      | none => rfl
      | some result =>
          obtain ⟨flow, st', sock', proc'⟩ := result
          cases flow <;> rfl

/-- Processing goes on where it has got to. -/
theorem World.processed_processed (hreq : req'.sockfd = req.sockfd) :
    (w.processed r comm req sock proc).processed r (comm.setRequest r.ind req) req' sock' proc' =
      w.processed r comm req' sock' proc' := by
  simp only [World.processed, World.setComm, DedupComm.setRequest, Function.update_idem, hreq]

theorem World.processed_comms :
    (w.processed r comm req sock proc).comms r.comm = some (comm.setRequest r.ind req) :=
  Function.update_self ..

theorem World.processed_sockets :
    (w.processed r comm req sock proc).sockets req.sockfd = sock := Function.update_self ..

theorem World.process_eq (events : List PartyEvent) (hcomm : w.comms r.comm = some comm) :
    w.process sha256 r events =
      ((comm.requests r.ind).process sha256 events (w.sockets (comm.requests r.ind).sockfd)
        w.proc).map fun (ret, req, sock, proc) => (ret, w.processed r comm req sock proc) := by
  simp only [World.process, hcomm, Option.bind_eq_bind, Option.bind_some]
  cases hprocess : (comm.requests r.ind).process sha256 events
      (w.sockets (comm.requests r.ind).sockfd) w.proc with
  | none => rfl
  | some result =>
      obtain ⟨ret, req, sock, proc⟩ := result
      simp only [Option.bind_some, Option.map_some, World.processed,
        DedupReq.process_sockfd hprocess]

/-- The loop of a call takes an iteration and goes on, or returns. -/
theorem World.process_step (events : List PartyEvent) :
    w.process sha256 r (.step choice :: events) =
      (w.iterate sha256 r choice).bind fun (flow, w) =>
        match flow with
        | .loop => w.process sha256 r events
        | .ret ret => some (ret, w) := by
  cases hcomm : w.comms r.comm with
  | none => simp only [World.process, World.iterate, hcomm, Option.bind_eq_bind, Option.bind_none]
  | some comm =>
      rw [World.process_eq _ hcomm, DedupReq.process_step]
      simp only [World.iterate, hcomm, Option.bind_eq_bind, Option.bind_some]
      cases hstep : (comm.requests r.ind).iterate sha256
          (w.sockets (comm.requests r.ind).sockfd) w.proc choice with
      | none => rfl
      | some result =>
          obtain ⟨flow, req, sock, proc⟩ := result
          cases flow with
          | ret ret => rfl
          | loop =>
              simp only [Option.bind_some]
              rw [World.process_eq events World.processed_comms,
                DedupComm.setRequest_requests_self, World.processed_sockets]
              change _ = (req.process sha256 events sock proc).map _
              cases hprocess : req.process sha256 events sock proc with
              | none => rfl
              | some result =>
                  obtain ⟨ret, req', sock', proc'⟩ := result
                  simp only [Option.map_some,
                    World.processed_processed (DedupReq.process_sockfd hprocess)]

theorem World.arrive_sockets (fd : Nat) (bs : List UInt8) : (w.arrive fd bs).sockets fd =
    { w.sockets fd with inbound := (w.sockets fd).inbound ++ bs } := Function.update_self ..

/-- Bytes arrive while a call is in its loop. -/
theorem World.process_arrive (bs : List UInt8) (events : List PartyEvent)
    (hcomm : w.comms r.comm = some comm) :
    w.process sha256 r (.arrive bs :: events) =
      (w.arrive (comm.requests r.ind).sockfd bs).process sha256 r events := by
  have hopen : (w.arrive (comm.requests r.ind).sockfd bs).comms r.comm = some comm := hcomm
  have hreq (proc : Process) : (comm.requests r.ind).process sha256 (.arrive bs :: events)
      (w.sockets (comm.requests r.ind).sockfd) proc = (comm.requests r.ind).process sha256 events
        ((w.arrive (comm.requests r.ind).sockfd bs).sockets (comm.requests r.ind).sockfd) proc := by
    rw [World.arrive_sockets]
    cases comm.requests r.ind <;> rfl
  rw [World.process_eq _ hcomm, World.process_eq _ hopen, hreq]
  change _ = ((comm.requests r.ind).process sha256 events _ w.proc).map _
  cases hprocess : (comm.requests r.ind).process sha256 events
      ((w.arrive (comm.requests r.ind).sockfd bs).sockets (comm.requests r.ind).sockfd) w.proc with
  | none => rfl
  | some result =>
      obtain ⟨ret, req, sock, proc⟩ := result
      simp only [Option.map_some, World.processed, World.arrive, World.setComm,
        DedupReq.process_sockfd hprocess, Function.update_idem]

/-- Other processes work on the cache while a call is in its loop. -/
theorem World.process_other (proc : Process) (events : List PartyEvent) :
    w.process sha256 r (.other proc :: events) =
      World.process sha256 { w with proc := proc } r events := by
  cases hcomm : w.comms r.comm with
  | none => simp only [World.process, hcomm, Option.bind_eq_bind, Option.bind_none]
  | some comm =>
      rw [World.process_eq _ hcomm, @World.process_eq _ _ { w with proc := proc } _ _ _ hcomm]
      have hreq (sock : Socket) (proc' : Process) : (comm.requests r.ind).process sha256
          (.other proc :: events) sock proc' =
            (comm.requests r.ind).process sha256 events sock proc := by
        cases comm.requests r.ind <;> rfl
      rw [hreq]
      rfl

end Loop

section Whole

variable {sha256 : List UInt8 → Digest} {w : World maxRequests}

theorem netDedupIsend_eq (c : Nat) (data : Message) (calls : StartCalls) :
    netDedupIsend sha256 w c data calls =
      (w.isendBegin c data calls.trylock calls.dump).bind (World.callEnd sha256 calls.events) := by
  unfold netDedupIsend World.isendBegin
  simp only [Option.bind_eq_bind, Option.bind_assoc]
  refine Option.bind_congr fun comm _ => Option.bind_congr fun active _ => ?_
  split_ifs
  · rfl
  · rfl
  · simp only [Option.bind_assoc]
    refine Option.bind_congr fun dumped _ => ?_
    split_ifs
    · rfl
    · rfl

theorem netDedupIrecv_eq (c size : Nat) (data : Mem) (calls : StartCalls) :
    netDedupIrecv sha256 w c size data calls =
      (w.irecvBegin c size data calls.trylock).bind (World.callEnd sha256 calls.events) := by
  unfold netDedupIrecv World.irecvBegin
  simp only [Option.bind_eq_bind, Option.bind_assoc]
  refine Option.bind_congr fun comm _ => Option.bind_congr fun active _ => ?_
  split_ifs
  · rfl
  · rfl
  · rfl

theorem netDedupTest_eq (r : ReqPtr maxRequests) (events : List PartyEvent) :
    netDedupTest sha256 w (some r) events =
      World.callEnd sha256 events (.inr (.test r), w) := rfl

end Whole

end NetDedup.Comm

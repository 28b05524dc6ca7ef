import NetDedup.Connection.Establish
import NetDedup.Transfer.Party

/-!
# Comms and their requests

The calls of the plugin on comms: a comm owns a ring of requests, the global
`active_fds` says which descriptors are busy, and every accepted send is dumped
to two files. A call takes what the system does during it as an input; `none`
is a call that does not return, because it faults or waits for ever for the
dump lock.
-/

namespace NetDedup.Comm

open Chunking Connection Memory Store Transfer

/-- `ReqType`. -/
inductive ReqType where
  | sendReq
  | recvReq
  deriving DecidableEq

/-- A `Dedup_Req` with the request it points to, of which `sockfd` is kept apart. -/
inductive DedupReq where
  | sendReq (sockfd : Nat) (st : SendState)
  | recvReq (sockfd : Nat) (st : RecvState)

def DedupReq.sockfd : DedupReq → Nat
  | .sendReq sockfd _ => sockfd
  | .recvReq sockfd _ => sockfd

/-- `header.content_size` as an `int`. -/
def DedupReq.size : DedupReq → Int
  | .sendReq _ st => (BitVec.ofNat 32 (headerContentSize st.req.head)).toInt
  | .recvReq _ st => (BitVec.ofNat 32 (headerContentSize st.req.head)).toInt

/-- A request in fresh memory. -/
def DedupReq.zeroed : ReqType → DedupReq
  | .sendReq => .sendReq 0 ⟨isendRequest [], none⟩
  | .recvReq => .recvReq 0 ⟨irecvRequest 0 fun _ => 0, none, none⟩

/-- `Dedup_Send_Comm` or `Dedup_Recv_Comm`, with `max_requests_per_comm` requests. -/
structure DedupComm (maxRequests : Nat) where
  type : ReqType
  fd : Nat
  takeReqInd : Fin maxRequests
  requests : Fin maxRequests → DedupReq

namespace DedupComm

variable {maxRequests : Nat} (comm : DedupComm maxRequests)

/-- `take_req_ind` one further, around the ring. -/
def advance : DedupComm maxRequests :=
  { comm with
    takeReqInd := ⟨(comm.takeReqInd + 1) % maxRequests, Nat.mod_lt _ comm.takeReqInd.pos⟩ }

def setRequest (ind : Fin maxRequests) (req : DedupReq) : DedupComm maxRequests :=
  { comm with requests := Function.update comm.requests ind req }

variable (ind : Fin maxRequests) (req : DedupReq)

@[simp] theorem advance_fd : comm.advance.fd = comm.fd := rfl

@[simp] theorem advance_requests : comm.advance.requests = comm.requests := rfl

@[simp] theorem setRequest_fd : (comm.setRequest ind req).fd = comm.fd := rfl

@[simp] theorem setRequest_requests_self : (comm.setRequest ind req).requests ind = req :=
  Function.update_self ..

theorem setRequest_requests_of_ne {ind' : Fin maxRequests} (h : ind' ≠ ind) :
    (comm.setRequest ind req).requests ind' = comm.requests ind' := Function.update_of_ne h ..

end DedupComm

/-- What `*request` points to: a request of a comm. -/
structure ReqPtr (maxRequests : Nat) where
  comm : Nat
  ind : Fin maxRequests
  deriving DecidableEq

/-- A message as the `int size` bytes of `data`. -/
abbrev Message := { data : List UInt8 // data.length < 2 ^ 31 }

/-- The dump files and their lock. `dumped` lists what `dump_send` returned 0
for; no call reads it. -/
structure Dump where
  dumpLock : Bool
  dumpBytesFile : List UInt8
  dumpSizesFile : List UInt8
  dumped : List Message
  deriving DecidableEq

/-- `MAX_FDS`. -/
def maxFds : Nat := 1024

/-- The state that the calls of one process share. `openFds` are its sockets in
use, `handles` and `acceptedFds` what its connecting and listening sides keep. -/
structure World (maxRequests : Nat) where
  activeFds : Nat → Bool
  openFds : List Nat
  handles : Nat → ConnectHandle
  acceptedFds : Nat → Option Nat
  comms : Nat → Option (DedupComm maxRequests)
  sockets : Nat → Socket
  proc : Process
  dump : Dump
  /-- `kill(0, SIGKILL)` was called. -/
  killed : Bool

/-- The state that `netDedup_init` sets up, in a process that shares `proc`. -/
def netDedupInit (maxRequests : Nat) (proc : Process) : World maxRequests where
  activeFds := fun _ => false
  openFds := []
  handles := fun _ => .listening
  acceptedFds := fun _ => none
  comms := fun _ => none
  sockets := fun _ => ⟨[], []⟩
  proc := proc
  dump := ⟨false, [], [], []⟩
  killed := false

/-- Where an `isend` or an `irecv` gets to when it returns, or what `test` says. -/
inductive Reply (maxRequests : Nat) where
  /-- `ncclSuccess`, with `*request`. -/
  | request (r : Option (ReqPtr maxRequests))
  | tested (done : Bool) (size : Option Int)
  /-- `ncclSystemError`; `*request` is as before. -/
  | systemError
  /-- Any other call. -/
  | returned
  deriving DecidableEq

/-- `fwrite` of `n` items of `size` bytes: the items that went out. The stream
takes `taken` bytes, all of them unless it fails. -/
def fwrite (file bytes : List UInt8) (size taken : Nat) : Nat × List UInt8 :=
  (min taken bytes.length / size, file ++ bytes.take taken)

/-- What the dump files take of one dump. -/
structure DumpCalls where
  bytesTaken : Nat
  sizeTaken : Nat
  deriving DecidableEq

/-- `dump_send`. The two returns of -1 leave the lock held. -/
def dumpSend (d : Dump) (data : Message) (calls : DumpCalls) : Option (Int × Dump) :=
  if d.dumpLock then none
  else
    let size := data.val.length
    let (bytesWritten, dumpBytesFile) :=
      if 0 < size then fwrite d.dumpBytesFile data.val 1 calls.bytesTaken
      else (size, d.dumpBytesFile)
    let d := { d with dumpLock := true, dumpBytesFile := dumpBytesFile }
    if bytesWritten ≠ size then some (-1, d)
    else
      let (sizeWritten, dumpSizesFile) := fwrite d.dumpSizesFile (leBytes 4 size) 4 calls.sizeTaken
      let d := { d with dumpSizesFile := dumpSizesFile }
      if sizeWritten ≠ 1 then some (-1, d)
      else some (0, { d with dumpLock := false, dumped := d.dumped ++ [data] })

/-- A call of `process_send` or `process_recv`: the steps of its loop, while bytes
arrive and other processes work on the cache. -/
def processLoop {R : Type} (process : R → Socket → Process → Choice →
    Option (Flow × R × Socket × Process)) : List PartyEvent → Party R → Option (Int × Party R)
  | [], _ => none
  | .arrive bs :: events, p =>
      processLoop process events { p with sock := { p.sock with inbound := p.sock.inbound ++ bs } }
  | .other proc :: events, p => processLoop process events { p with proc := proc }
  | .step choice :: events, p =>
      match process p.st p.sock p.proc choice with
      | none => none
      | some (.loop, st, sock, proc) => processLoop process events ⟨st, sock, proc⟩
      | some (.ret r, st, sock, proc) => some (r, ⟨st, sock, proc⟩)

/-- `process_send` or `process_recv`, by the type of the request. -/
def DedupReq.process (sha256 : List UInt8 → Digest) (events : List PartyEvent) (req : DedupReq)
    (sock : Socket) (proc : Process) : Option (Int × DedupReq × Socket × Process) :=
  match req with
  | .sendReq sockfd st =>
      (processLoop (processSend sha256) events ⟨st, sock, proc⟩).map fun (r, p) =>
        (r, .sendReq sockfd p.st, p.sock, p.proc)
  | .recvReq sockfd st =>
      (processLoop processRecv events ⟨st, sock, proc⟩).map fun (r, p) =>
        (r, .recvReq sockfd p.st, p.sock, p.proc)

namespace World

variable {maxRequests : Nat}

/-- `active_fds[fd]`. -/
def activeFd (w : World maxRequests) (fd : Nat) : Option Bool :=
  if fd < maxFds then some (w.activeFds fd) else none

/-- `active_fds[fd] = active`. -/
def setActiveFd (w : World maxRequests) (fd : Nat) (active : Bool) : Option (World maxRequests) :=
  if fd < maxFds then some { w with activeFds := Function.update w.activeFds fd active } else none

/-- A comm of the type that the call takes. -/
def comm? (w : World maxRequests) (type : ReqType) (c : Nat) : Option (DedupComm maxRequests) :=
  (w.comms c).filter (·.type = type)

def setComm (w : World maxRequests) (c : Nat) (comm : DedupComm maxRequests) :
    World maxRequests :=
  { w with comms := Function.update w.comms c (some comm) }

/-- The request behind a pointer; a pointer into a closed comm dangles. -/
def request? (w : World maxRequests) (r : ReqPtr maxRequests) : Option DedupReq :=
  (w.comms r.comm).map (·.requests r.ind)

/-- Takes the next request of a comm, clears it and fills it in. -/
def takeRequest (w : World maxRequests) (c : Nat) (comm : DedupComm maxRequests)
    (req : DedupReq) : World maxRequests :=
  w.setComm c (comm.advance.setRequest comm.takeReqInd req)

/-- Processes a request on its socket. -/
def process (sha256 : List UInt8 → Digest) (w : World maxRequests) (r : ReqPtr maxRequests)
    (events : List PartyEvent) : Option (Int × World maxRequests) := do
  let comm ← w.comms r.comm
  let req := comm.requests r.ind
  let (ret, req', sock, proc) ← req.process sha256 events (w.sockets req.sockfd) w.proc
  some (ret, { w.setComm r.comm (comm.setRequest r.ind req') with
    sockets := Function.update w.sockets req.sockfd sock
    proc := proc })

/-- The end of `isend` and `irecv`: a first round of processing, and the flag. -/
def startRequest (sha256 : List UInt8 → Digest) (w : World maxRequests) (r : ReqPtr maxRequests)
    (sockfd : Nat) (events : List PartyEvent) : Option (Reply maxRequests × World maxRequests) := do
  let (ret, w) ← w.process sha256 r events
  if ret = -1 then some (.systemError, w)
  else
    let w ← w.setActiveFd sockfd true
    some (.request (some r), w)

end World

variable {maxRequests : Nat}

/-- What the system does during an `isend` or an `irecv`. -/
structure StartCalls where
  /-- `pthread_mutex_trylock` takes `req_lock`. -/
  trylock : Bool
  dump : DumpCalls
  events : List PartyEvent

/-- `netDedup_isend`. -/
def netDedupIsend (sha256 : List UInt8 → Digest) (w : World maxRequests) (c : Nat) (data : Message)
    (calls : StartCalls) : Option (Reply maxRequests × World maxRequests) := do
  let comm ← w.comm? .sendReq c
  let active ← w.activeFd comm.fd
  if active then some (.request none, w)
  else if calls.trylock = false then some (.request none, w)
  else
    let w := w.takeRequest c comm (.sendReq comm.fd ⟨isendRequest data.val, none⟩)
    let (ret, dump) ← dumpSend w.dump data calls.dump
    let w := { w with dump := dump }
    if ret ≠ 0 then some (.systemError, w)
    else w.startRequest sha256 ⟨c, comm.takeReqInd⟩ comm.fd calls.events

/-- `netDedup_irecv` into `size` bytes of `data`. -/
def netDedupIrecv (sha256 : List UInt8 → Digest) (w : World maxRequests) (c size : Nat) (data : Mem)
    (calls : StartCalls) : Option (Reply maxRequests × World maxRequests) := do
  let comm ← w.comm? .recvReq c
  let active ← w.activeFd comm.fd
  if active then some (.request none, w)
  else if calls.trylock = false then some (.request none, w)
  else
    let w := w.takeRequest c comm (.recvReq comm.fd ⟨irecvRequest size data, none, none⟩)
    w.startRequest sha256 ⟨c, comm.takeReqInd⟩ comm.fd calls.events

/-- `netDedup_test`. -/
def netDedupTest (sha256 : List UInt8 → Digest) (w : World maxRequests)
    (request : Option (ReqPtr maxRequests)) (events : List PartyEvent) :
    Option (Reply maxRequests × World maxRequests) :=
  match request with
  | none => some (.tested true (some 0), w)
  | some r => do
      let (isComplete, w) ← w.process sha256 r events
      if isComplete = -1 then some (.returned, { w with killed := true })
      else if isComplete = 1 then do
        let req ← w.request? r
        let w ← w.setActiveFd req.sockfd false
        some (.tested true (some req.size), w)
      else some (.tested false none, w)

/-- `netDedup_closeSend` and `netDedup_closeRecv` of an open comm. `active_fds` stays. -/
def World.closeComm (w : World maxRequests) (type : ReqType) (c : Nat) :
    Option (World maxRequests) := do
  let comm ← w.comm? type c
  some { w with
    openFds := w.openFds.erase comm.fd
    comms := Function.update w.comms c none }

/-- `netDedup_closeSend`. -/
def netDedupCloseSend (w : World maxRequests) (c : Nat) : Option (World maxRequests) :=
  w.closeComm .sendReq c

/-- `netDedup_closeRecv`. -/
def netDedupCloseRecv (w : World maxRequests) (c : Nat) : Option (World maxRequests) :=
  w.closeComm .recvReq c

namespace World

/-- The network of a connect or accept call, whose next descriptor is `fd`. -/
def netFor (fd : Nat) : Net := ⟨fun _ => Conn.blank, fd, [fd]⟩

/-- A call that opens a socket gets a descriptor that is not in use. -/
def openFd (w : World maxRequests) (opened : Bool) (fd : Nat) : Option (World maxRequests) :=
  if opened = false then some w
  else if fd ∈ w.openFds then none
  else some { w with
    openFds := fd :: w.openFds
    sockets := Function.update w.sockets fd ⟨[], []⟩ }

/-- A new comm at address `c` for a connected socket. -/
def newComm (w : World maxRequests) (type : ReqType) (c fd : Nat) : Option (World maxRequests) :=
  if h : 0 < maxRequests ∧ w.comms c = none then
    some (w.setComm c ⟨type, fd, ⟨0, h.1⟩, fun _ => .zeroed type⟩)
  else none

end World

/-- `netDedup_connect_v8` on a handle. A returned comm has sent the ready byte. -/
def netDedupConnect (w : World maxRequests) (handle c fd : Nat) (calls : ConnectCalls) :
    Option (World maxRequests) := do
  let (_, sendComm, connectHandle, net) := netDedupConnectV8 (World.netFor fd) (w.handles handle)
    calls
  let w ← w.openFd (net.nextFd ≠ fd) fd
  let w := { w with handles := Function.update w.handles handle connectHandle }
  match sendComm with
  | none => some w
  | some sockfd =>
      let sock := w.sockets sockfd
      let w := { w with
        sockets := Function.update w.sockets sockfd { sock with sent := sock.sent ++ [1] } }
      w.newComm .sendReq c sockfd

/-- `netDedup_accept_v8` on a listen comm. A returned comm has read the ready byte. -/
def netDedupAccept (w : World maxRequests) (listenComm c fd : Nat) (calls : AcceptCalls) :
    Option (World maxRequests) := do
  let (_, recvComm, acceptedFd, _) := netDedupAcceptV8 (World.netFor fd)
    (w.acceptedFds listenComm) calls
  let w ← w.openFd (acceptedFd ≠ w.acceptedFds listenComm) fd
  let w := { w with acceptedFds := Function.update w.acceptedFds listenComm acceptedFd }
  match recvComm with
  | none => some w
  | some sockfd =>
      let sock := w.sockets sockfd
      let w := { w with
        sockets := Function.update w.sockets sockfd { sock with inbound := sock.inbound.drop 1 } }
      w.newComm .recvReq c sockfd

end NetDedup.Comm

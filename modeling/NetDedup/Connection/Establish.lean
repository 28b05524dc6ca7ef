import Mathlib.Tactic.Common

/-!
# Connecting and accepting

`netDedup_connect_v8` and `netDedup_accept_v8`, one call at a time. Where a
call stands is kept in the handle and in the listen comm. What the system
calls return is an input; a TCP connection is named by the socket of its
connecting side.
-/

namespace NetDedup.Connection

/-- What comes over a connection: the ready byte of `netDedup_connect_v8`, and
the bytes that `process_send` writes. -/
inductive Sent where
  | ready
  | data (b : UInt8)
  deriving DecidableEq

inductive Link where
  | unconnected
  | inProgress
  | established
  deriving DecidableEq

/-- A connection from the connecting to the accepting side, with all that was
written to it and who has read it. -/
structure Conn where
  link : Link
  closed : Bool
  sent : List Sent
  unread : List Sent
  readByAccept : List Sent
  readByRecv : List Sent

/-- The sockets of the connectors and the queue of the listening socket. -/
structure Net where
  conn : Nat → Conn
  nextFd : Nat
  backlog : List Nat

/-- A socket without a connection. -/
def Conn.blank : Conn := ⟨.unconnected, false, [], [], [], []⟩

namespace Conn

variable (k : Conn)

def send (b : Sent) : Conn := { k with sent := k.sent ++ [b], unread := k.unread ++ [b] }

/-- `recv` of one byte by `netDedup_accept_v8`; there is none at the end of the stream. -/
def recvReady : Conn :=
  { k with unread := k.unread.drop 1, readByAccept := k.readByAccept ++ k.unread.take 1 }

/-- `recv` of one byte by `process_recv`. -/
def recvData : Conn :=
  { k with unread := k.unread.drop 1, readByRecv := k.readByRecv ++ k.unread.take 1 }

end Conn

namespace Net

variable (net : Net) (c : Nat)

def update (f : Conn → Conn) : Net :=
  { net with conn := Function.update net.conn c (f (net.conn c)) }

/-- A new socket. -/
def socket : Net := { net with nextFd := net.nextFd + 1 }

def connecting : Net := net.update c fun k => { k with link := .inProgress }

/-- The connection is there and waits to be accepted. -/
def establish : Net :=
  { net.update c fun k => { k with link := .established } with backlog := net.backlog ++ [c] }

def send (b : Sent) : Net := net.update c fun k => k.send b

def recvReady : Net := net.update c Conn.recvReady

def recvData : Net := net.update c Conn.recvData

def close : Net := net.update c fun k => { k with closed := true }

end Net

/-- What a connection has transferred, whatever the state of its link. -/
structure Conn.SameStreams (k k' : Conn) : Prop where
  sent : k'.sent = k.sent
  unread : k'.unread = k.unread
  readByAccept : k'.readByAccept = k.readByAccept
  readByRecv : k'.readByRecv = k.readByRecv

theorem Net.update_conn_self (net : Net) (c : Nat) (f : Conn → Conn) :
    (net.update c f).conn c = f (net.conn c) := Function.update_self ..

theorem Net.update_conn_ne (net : Net) {c d : Nat} (f : Conn → Conn) (h : d ≠ c) :
    (net.update c f).conn d = net.conn d := Function.update_of_ne h ..

/-- Only the links of the network change. -/
def Net.SameStreams (net net' : Net) : Prop := ∀ c, (net.conn c).SameStreams (net'.conn c)

theorem Net.sameStreams_socket (net : Net) : net.SameStreams net.socket :=
  fun _ => ⟨rfl, rfl, rfl, rfl⟩

theorem Net.sameStreams_update {net : Net} {c : Nat} {f : Conn → Conn}
    (hf : ∀ k : Conn, k.SameStreams (f k)) : net.SameStreams (net.update c f) := by
  intro d
  by_cases hd : d = c
  · rw [hd, Net.update_conn_self]
    exact hf _
  · rw [Net.update_conn_ne _ _ hd]
    exact ⟨rfl, rfl, rfl, rfl⟩

theorem Net.sameStreams_connecting (net : Net) (c : Nat) : net.SameStreams (net.connecting c) :=
  Net.sameStreams_update fun _ => ⟨rfl, rfl, rfl, rfl⟩

theorem Net.sameStreams_establish (net : Net) (c : Nat) : net.SameStreams (net.establish c) :=
  Net.sameStreams_update (f := fun k => { k with link := .established })
    fun _ => ⟨rfl, rfl, rfl, rfl⟩

theorem Net.sameStreams_close (net : Net) (c : Nat) : net.SameStreams (net.close c) :=
  Net.sameStreams_update fun _ => ⟨rfl, rfl, rfl, rfl⟩

inductive Errno where
  | eagain
  | einprogress
  | other
  deriving DecidableEq

/-- The result of a system call. -/
inductive Ret where
  | ok
  | err (errno : Errno)
  deriving DecidableEq

inductive NcclResult where
  | ncclSuccess
  | ncclSystemError
  deriving DecidableEq

/-- `Dedup_Connect_Handle`; no socket is −1 in the source. -/
structure ConnectHandle where
  connectingFd : Option Nat
  inProgress : Bool
  isConnected : Bool
  deriving DecidableEq

/-- The handle that `netDedup_listen` fills in. -/
def ConnectHandle.listening : ConnectHandle := ⟨none, false, false⟩

/-- What the system calls of one `netDedup_connect_v8` return. -/
structure ConnectCalls where
  send : Ret
  getsockopt : Ret
  /-- The value of `SO_ERROR`, when `getsockopt` succeeds. -/
  progressRet : Ret
  socket : Ret
  /-- `TCP_NODELAY`, then `SO_ZEROCOPY`. -/
  setsockopt : Ret
  connect : Ret

/-- The result, the socket of the send comm when one is returned, and what the
call leaves behind. -/
def netDedupConnectV8 (net : Net) (handle : ConnectHandle) (calls : ConnectCalls) :
    NcclResult × Option Nat × ConnectHandle × Net :=
  if handle.isConnected then
    match calls.send, handle.connectingFd with
    | .ok, some fd => (.ncclSuccess, some fd, handle, net.send fd .ready)
    | .err .eagain, _ => (.ncclSuccess, none, handle, net)
    | _, _ => (.ncclSystemError, none, handle, net)
  else if handle.inProgress then
    match calls.getsockopt, calls.progressRet with
    | .err _, _ => (.ncclSystemError, none, handle, net)
    | .ok, .ok => (.ncclSuccess, none, { handle with isConnected := true }, net)
    | .ok, .err .einprogress => (.ncclSuccess, none, handle, net)
    | .ok, .err _ => (.ncclSystemError, none, handle, net)
  else
    match calls.socket, calls.setsockopt, calls.connect with
    | .err _, _, _ => (.ncclSystemError, none, handle, net)
    | .ok, .err _, _ =>
        (.ncclSystemError, none, { handle with connectingFd := some net.nextFd }, net.socket)
    | .ok, .ok, .err .einprogress =>
        (.ncclSuccess, none, { handle with connectingFd := some net.nextFd, inProgress := true },
          net.socket.connecting net.nextFd)
    | .ok, .ok, .err _ =>
        (.ncclSystemError, none, { handle with connectingFd := some net.nextFd }, net.socket)
    | .ok, .ok, .ok =>
        (.ncclSuccess, none, { handle with connectingFd := some net.nextFd, isConnected := true },
          net.socket.establish net.nextFd)

/-- What the system calls of one `netDedup_accept_v8` return. -/
structure AcceptCalls where
  recv : Ret
  accept4 : Ret

/-- `acceptedFd` of the listen comm is the second component of the result's
state. A `recv` that returns 0 is not told apart from one that returns a byte,
and `acceptedFd` stays set once a receive comm is returned. -/
def netDedupAcceptV8 (net : Net) (acceptedFd : Option Nat) (calls : AcceptCalls) :
    NcclResult × Option Nat × Option Nat × Net :=
  match acceptedFd with
  | some fd =>
      match calls.recv with
      -- the test assigns EAGAIN to errno and holds for every error
      | .err _ => (.ncclSuccess, none, some fd, net)
      | .ok => (.ncclSuccess, some fd, some fd, net.recvReady fd)
  | none =>
      match calls.accept4, net.backlog with
      | .ok, fd :: rest => (.ncclSuccess, none, some fd, { net with backlog := rest })
      | .err .eagain, _ => (.ncclSuccess, none, none, net)
      | _, _ => (.ncclSystemError, none, none, net)

/-- Connect sends the ready byte and returns a send comm, opens a new socket, or
changes no more than the flags of its handle. -/
theorem netDedupConnectV8_cases (net : Net) (handle : ConnectHandle) (calls : ConnectCalls) :
    (∃ c, handle.isConnected = true ∧ handle.connectingFd = some c ∧ calls.send = .ok ∧
      (netDedupConnectV8 net handle calls).2 = (some c, handle, net.send c .ready)) ∨
    (∃ handle' net', handle.isConnected = false ∧ handle'.connectingFd = some net.nextFd ∧
      net'.nextFd = net.nextFd + 1 ∧ net.SameStreams net' ∧
      (netDedupConnectV8 net handle calls).2 = (none, handle', net')) ∨
    (∃ handle', handle'.connectingFd = handle.connectingFd ∧
      (handle.isConnected = true → handle'.isConnected = true) ∧
      (netDedupConnectV8 net handle calls).2 = (none, handle', net)) := by
  rw [netDedupConnectV8]
  split_ifs with hconn hprog
  · split
    · next fd hsend hfd => exact Or.inl ⟨fd, hconn, hfd, hsend, rfl⟩
    · exact Or.inr (Or.inr ⟨handle, rfl, id, rfl⟩)
    · exact Or.inr (Or.inr ⟨handle, rfl, id, rfl⟩)
  · refine Or.inr (Or.inr ?_)
    split
    · exact ⟨handle, rfl, id, rfl⟩
    · exact ⟨{ handle with isConnected := true }, rfl, fun _ => rfl, rfl⟩
    · exact ⟨handle, rfl, id, rfl⟩
    · exact ⟨handle, rfl, id, rfl⟩
  · have hconn' : handle.isConnected = false := by simpa using hconn
    split
    · exact Or.inr (Or.inr ⟨handle, rfl, id, rfl⟩)
    · exact Or.inr (Or.inl ⟨_, _, hconn', rfl, rfl, net.sameStreams_socket, rfl⟩)
    · exact Or.inr (Or.inl ⟨_, _, hconn', rfl, rfl, net.socket.sameStreams_connecting _, rfl⟩)
    · exact Or.inr (Or.inl ⟨_, _, hconn', rfl, rfl, net.sameStreams_socket, rfl⟩)
    · exact Or.inr (Or.inl ⟨_, _, hconn', rfl, rfl, net.socket.sameStreams_establish _, rfl⟩)

/-- Accept reads from the connection that it holds and returns it, takes a
connection from the queue, or changes nothing. -/
theorem netDedupAcceptV8_cases (net : Net) (acceptedFd : Option Nat) (calls : AcceptCalls) :
    (∃ c, acceptedFd = some c ∧ calls.recv = .ok ∧
      (netDedupAcceptV8 net acceptedFd calls).2 = (some c, some c, net.recvReady c)) ∨
    (∃ c rest, acceptedFd = none ∧
      (netDedupAcceptV8 net acceptedFd calls).2 = (none, some c, { net with backlog := rest })) ∨
    (netDedupAcceptV8 net acceptedFd calls).2 = (none, acceptedFd, net) := by
  cases acceptedFd with
  | none =>
      simp only [netDedupAcceptV8]
      split
      · next c rest _ _ => exact Or.inr (Or.inl ⟨c, rest, trivial, rfl⟩)
      · exact Or.inr (Or.inr rfl)
      · exact Or.inr (Or.inr rfl)
  | some c =>
      simp only [netDedupAcceptV8]
      split
      · exact Or.inr (Or.inr rfl)
      · next hrecv => exact Or.inl ⟨c, rfl, hrecv, rfl⟩

end NetDedup.Connection

import Mathlib.Data.List.Nodup
import NetDedup.Connection.Establish
import NetDedup.Lib.Run

/-!
# The handshake of one listen comm

Any number of connectors, each with its own handle, and one listen comm: the
calls of `netDedup_connect_v8` and `netDedup_accept_v8` interleave with the
network and with the transfers on the connections that are open.
-/

namespace NetDedup.Connection

/-- The connectors, the listen comm and the comms handed out so far. -/
structure World where
  net : Net
  handle : Nat → ConnectHandle
  acceptedFd : Option Nat
  /-- Who was given a send comm, and its socket. -/
  sendComms : List (Nat × Nat)
  /-- The connections under the receive comms. -/
  recvComms : List Nat

inductive Label where
  | connect (i : Nat) (calls : ConnectCalls)
  | accept (calls : AcceptCalls)
  /-- The TCP handshake of the connection completes. -/
  | established (c : Nat)
  /-- The connecting side closes its socket. -/
  | closed (c : Nat)
  /-- `process_send` of connector `i` writes a byte. -/
  | processSend (i c : Nat) (b : UInt8)
  /-- `process_recv` reads a byte. -/
  | processRecv (c : Nat)

/-- After `netDedup_listen`. -/
def initial : World := ⟨⟨fun _ => .blank, 0, []⟩, fun _ => .listening, none, [], []⟩

/-- A `send` goes through on an open connection only. -/
def Net.CanSend (net : Net) (c : Nat) : Prop :=
  (net.conn c).link = .established ∧ (net.conn c).closed = false

/-- A `recv` finds a byte or the end of the stream. -/
def Net.CanRecv (net : Net) (c : Nat) : Prop :=
  (net.conn c).unread ≠ [] ∨ (net.conn c).closed = true

instance (net : Net) (c : Nat) : Decidable (net.CanSend c) := inferInstanceAs (Decidable (_ ∧ _))

instance (net : Net) (c : Nat) : Decidable (net.CanRecv c) := inferInstanceAs (Decidable (_ ∨ _))

/-- What the system calls return fits the state of the network. -/
def Label.Possible (w : World) : Label → Prop
  | .connect i calls => (w.handle i).isConnected = true → calls.send = .ok →
      ∀ c ∈ (w.handle i).connectingFd, w.net.CanSend c
  | .accept calls => (∀ c ∈ w.acceptedFd, calls.recv = .ok → w.net.CanRecv c) ∧
      (w.acceptedFd = none → calls.accept4 = .ok → w.net.backlog ≠ [])
  | .established c => (w.net.conn c).link = .inProgress
  | .closed c => (w.net.conn c).link = .established
  | .processSend i c _ => (i, c) ∈ w.sendComms ∧ w.net.CanSend c
  | .processRecv c => c ∈ w.recvComms ∧ (w.net.conn c).unread ≠ []

instance (w : World) : (l : Label) → Decidable (l.Possible w)
  | .connect _ _ => inferInstanceAs (Decidable (_ → _ → _))
  | .accept _ => inferInstanceAs (Decidable (_ ∧ _))
  | .established _ => inferInstanceAs (Decidable (_ = _))
  | .closed _ => inferInstanceAs (Decidable (_ = _))
  | .processSend _ _ _ => inferInstanceAs (Decidable (_ ∧ _))
  | .processRecv _ => inferInstanceAs (Decidable (_ ∧ _))

namespace World

variable (w : World)

/-- A call of `netDedup_connect_v8` by connector `i`. -/
def connect (i : Nat) (calls : ConnectCalls) : World :=
  let (_, sendComm, handle, net) := netDedupConnectV8 w.net (w.handle i) calls
  { w with
    net := net
    handle := Function.update w.handle i handle
    sendComms := w.sendComms ++ sendComm.toList.map (i, ·) }

/-- A call of `netDedup_accept_v8`. -/
def accept (calls : AcceptCalls) : World :=
  let (_, recvComm, acceptedFd, net) := netDedupAcceptV8 w.net w.acceptedFd calls
  { w with net := net, acceptedFd := acceptedFd, recvComms := w.recvComms ++ recvComm.toList }

def next : Label → World
  | .connect i calls => w.connect i calls
  | .accept calls => w.accept calls
  | .established c => { w with net := w.net.establish c }
  | .closed c => { w with net := w.net.close c }
  | .processSend _ c b => { w with net := w.net.send c (.data b) }
  | .processRecv c => { w with net := w.net.recvData c }

end World

/-- One step; `none` when the network does not allow it. -/
def step (w : World) (l : Label) : Option World := if l.Possible w then some (w.next l) else none

/-- What both sides agree on. -/
structure Agreement (w : World) : Prop where
  /-- Accept has read the ready byte and nothing else of a connection that it hands out. -/
  accepted : ∀ c ∈ w.recvComms, (w.net.conn c).readByAccept = [.ready]
  /-- A connection backs at most one receive comm. -/
  unaliased : w.recvComms.Nodup
  /-- The other end of a receive comm is a connector with a send comm. -/
  matched : ∀ c ∈ w.recvComms, ∃ i, (i, c) ∈ w.sendComms
  /-- Connect has sent one ready byte, ahead of the bytes of `process_send`. -/
  oneReady : ∀ i c, (i, c) ∈ w.sendComms →
    ∃ bs : List UInt8, (w.net.conn c).sent = .ready :: bs.map .data
  /-- What `process_recv` reads begins with what the peer's `process_send` wrote first. -/
  aligned : ∀ c ∈ w.recvComms, ∃ bs : List UInt8, (w.net.conn c).sent = .ready :: bs.map .data ∧
    (w.net.conn c).readByRecv <+: bs.map .data

/-- A call of accept does not return to a connection that it has handed out. -/
def ServesLater (w : World) : Label → Prop
  | .accept _ => ∀ c ∈ w.acceptedFd, c ∉ w.recvComms
  | _ => True

/-- The step serves another connection than before and both sides agree after it. -/
def Agrees (w : World) (l : Label) : Prop :=
  ServesLater w l ∧ ∀ w', step w l = some w' → Agreement w'

/-- Accept is not called again once it has returned a receive comm, nor does it
meet the end of a stream; connect does not send again once it has returned a
send comm. -/
def Orderly (w : World) : Label → Prop
  | .connect i calls => calls.send = .ok → ∀ c, (i, c) ∉ w.sendComms
  | .accept calls => w.recvComms = [] ∧
      ∀ c ∈ w.acceptedFd, calls.recv = .ok → (w.net.conn c).unread ≠ []
  | _ => True

/-- The account of one connection: whether a send comm and a receive comm were
handed out for it decides what has gone over it. -/
structure Conn.Balanced (k : Conn) (sending receiving : Prop) : Prop where
  silent : ¬sending → k.sent = []
  oneReady : sending → ∃ bs : List UInt8, k.sent = .ready :: bs.map .data
  conserved : k.readByAccept ++ k.readByRecv ++ k.unread = k.sent
  unread : ¬receiving → k.readByAccept = [] ∧ k.readByRecv = []
  accepted : receiving → k.readByAccept = [.ready]

namespace Conn.Balanced

variable {k k' : Conn} {sending receiving : Prop}

theorem blank (hsend : ¬sending) (hrecv : ¬receiving) : Conn.blank.Balanced sending receiving :=
  ⟨fun _ => rfl, fun h => absurd h hsend, rfl, fun _ => ⟨rfl, rfl⟩, fun h => absurd h hrecv⟩

theorem sameStreams (hk : k.Balanced sending receiving) (hsame : k.SameStreams k') :
    k'.Balanced sending receiving := by
  obtain ⟨hsent, hunread, haccept, hrecv⟩ := hsame
  refine ⟨?_, ?_, ?_, ?_, ?_⟩
  · rw [hsent]
    exact hk.silent
  · rw [hsent]
    exact hk.oneReady
  · rw [hsent, hunread, haccept, hrecv]
    exact hk.conserved
  · rw [haccept, hrecv]
    exact hk.unread
  · rw [haccept]
    exact hk.accepted

/-- Bytes are written at the end of what is still to be read. -/
theorem conserved_send (hk : k.Balanced sending receiving) (b : Sent) :
    k.readByAccept ++ k.readByRecv ++ (k.unread ++ [b]) = k.sent ++ [b] := by
  rw [← List.append_assoc, hk.conserved]

theorem sendReady (hk : k.Balanced sending receiving) (hnew : ¬sending) {sending' : Prop}
    (hsend : sending') :
    (k.send .ready).Balanced sending' receiving where
  silent hno := absurd hsend hno
  oneReady _ := ⟨[], by rw [Conn.send, hk.silent hnew]; rfl⟩
  conserved := hk.conserved_send .ready
  unread := hk.unread
  accepted := hk.accepted

theorem sendData (hk : k.Balanced sending receiving) (hsend : sending) (b : UInt8) :
    (k.send (.data b)).Balanced sending receiving where
  silent hno := absurd hsend hno
  oneReady _ := by
    obtain ⟨bs, hbs⟩ := hk.oneReady hsend
    exact ⟨bs ++ [b], by rw [Conn.send, hbs, List.map_append]; rfl⟩
  conserved := hk.conserved_send (.data b)
  unread := hk.unread
  accepted := hk.accepted

/-- What is read first from a connection is the ready byte. -/
theorem recvReady (hk : k.Balanced sending receiving) (hnew : ¬receiving)
    (hsome : k.unread ≠ []) {receiving' : Prop} (hrecv : receiving') :
    k.recvReady.Balanced sending receiving' := by
  obtain ⟨haccept, hread⟩ := hk.unread hnew
  have hunread : k.unread = k.sent := by
    rw [← hk.conserved, haccept, hread, List.nil_append, List.nil_append]
  have hsend : sending := by
    by_contra hno
    exact hsome (hunread.trans (hk.silent hno))
  obtain ⟨bs, hbs⟩ := hk.oneReady hsend
  refine ⟨hk.silent, hk.oneReady, ?_, fun hno => absurd hrecv hno, fun _ => ?_⟩
  · simp only [Conn.recvReady, haccept, hread, hunread, List.nil_append, List.append_nil]
    exact List.take_append_drop 1 k.sent
  · simp only [Conn.recvReady, haccept, hunread, hbs]
    rfl

theorem recvData (hk : k.Balanced sending receiving) (hrecv : receiving) :
    k.recvData.Balanced sending receiving where
  silent := hk.silent
  oneReady := hk.oneReady
  conserved := by
    simp only [Conn.recvData, ← List.append_assoc]
    rw [List.append_assoc _ (k.unread.take 1), List.take_append_drop, hk.conserved]
  unread hno := absurd hrecv hno
  accepted := hk.accepted

/-- Behind a receive comm there is a send comm, and what was read is a prefix of
what its transfers wrote. -/
theorem aligned (hk : k.Balanced sending receiving) (hrecv : receiving) :
    sending ∧ ∃ bs : List UInt8, k.sent = .ready :: bs.map .data ∧
      k.readByRecv <+: bs.map .data := by
  have hsend : sending := by
    by_contra hno
    have hall := hk.conserved
    rw [hk.silent hno, hk.accepted hrecv] at hall
    exact List.cons_ne_nil _ _ hall
  obtain ⟨bs, hbs⟩ := hk.oneReady hsend
  refine ⟨hsend, bs, hbs, k.unread, ?_⟩
  have hall := hk.conserved
  rw [hbs, hk.accepted hrecv] at hall
  exact List.tail_eq_of_cons_eq hall

end Conn.Balanced

/-- What holds in every state of an orderly run. -/
structure Handshaken (w : World) : Prop where
  fd_lt : ∀ i, ∀ c ∈ (w.handle i).connectingFd, c < w.net.nextFd
  fd_inj : ∀ i j, ∀ c ∈ (w.handle i).connectingFd, c ∈ (w.handle j).connectingFd → i = j
  holder : ∀ i c, (i, c) ∈ w.sendComms →
    c ∈ (w.handle i).connectingFd ∧ (w.handle i).isConnected = true
  conn : ∀ c, (w.net.conn c).Balanced (∃ i, (i, c) ∈ w.sendComms) (c ∈ w.recvComms)
  held : ∀ c ∈ w.recvComms, c ∈ w.acceptedFd
  unaliased : w.recvComms.Nodup

theorem initial_handshaken : Handshaken initial where
  fd_lt _ _ h := nomatch h
  fd_inj _ _ _ h := nomatch h
  holder _ _ h := nomatch h
  conn _ := .blank (fun ⟨_, h⟩ => nomatch h) (fun h => nomatch h)
  held _ h := nomatch h
  unaliased := List.nodup_nil

namespace Handshaken

variable {w : World}

theorem agreement (hw : Handshaken w) : Agreement w where
  accepted c hc := (hw.conn c).accepted hc
  unaliased := hw.unaliased
  matched c hc := ((hw.conn c).aligned hc).1
  oneReady i c hc := (hw.conn c).oneReady ⟨i, hc⟩
  aligned c hc := ((hw.conn c).aligned hc).2

/-- The invariant does not look at the links. -/
theorem sameStreams (hw : Handshaken w) {net : Net} (hnext : net.nextFd = w.net.nextFd)
    (hsame : w.net.SameStreams net) : Handshaken { w with net := net } where
  fd_lt i c hc := hnext ▸ hw.fd_lt i c hc
  fd_inj := hw.fd_inj
  holder := hw.holder
  conn c := (hw.conn c).sameStreams (hsame c)
  held := hw.held
  unaliased := hw.unaliased

/-- The flags of a handle may change while its socket stays. -/
theorem flagged (hw : Handshaken w) {i : Nat} {h : ConnectHandle}
    (hfd : h.connectingFd = (w.handle i).connectingFd)
    (hconn : (w.handle i).isConnected = true → h.isConnected = true) :
    Handshaken { w with handle := Function.update w.handle i h } := by
  have hsame : ∀ j, (Function.update w.handle i h j).connectingFd = (w.handle j).connectingFd := by
    intro j
    by_cases hj : j = i
    · rw [hj, Function.update_self, hfd]
    · rw [Function.update_of_ne hj]
  refine { hw with fd_lt := ?_, fd_inj := ?_, holder := ?_ }
  · intro j c hc
    exact hw.fd_lt j c (hsame j ▸ hc)
  · intro j k c hj hk
    exact hw.fd_inj j k c (hsame j ▸ hj) (hsame k ▸ hk)
  · intro j c hc
    obtain ⟨hj, hjconn⟩ := hw.holder j c hc
    refine ⟨(hsame j).symm ▸ hj, ?_⟩
    show (Function.update w.handle i h j).isConnected = true
    by_cases hji : j = i
    · rw [hji, Function.update_self]
      exact hconn (hji ▸ hjconn)
    · rw [Function.update_of_ne hji]
      exact hjconn

/-- A handle that is not connected may get a new socket. -/
theorem opened (hw : Handshaken w) {i : Nat} {h : ConnectHandle}
    (hfd : h.connectingFd = some w.net.nextFd) (hconn : (w.handle i).isConnected = false) :
    Handshaken { w with net := w.net.socket, handle := Function.update w.handle i h } := by
  have hcases : ∀ j, ∀ c ∈ (Function.update w.handle i h j).connectingFd,
      (j = i ∧ c = w.net.nextFd) ∨ (j ≠ i ∧ c ∈ (w.handle j).connectingFd) := by
    intro j c hc
    by_cases hj : j = i
    · rw [hj, Function.update_self, hfd, Option.mem_some_iff] at hc
      exact Or.inl ⟨hj, hc.symm⟩
    · rw [Function.update_of_ne hj] at hc
      exact Or.inr ⟨hj, hc⟩
  refine { hw with fd_lt := ?_, fd_inj := ?_, holder := ?_ }
  · intro j c hc
    show c < w.net.nextFd + 1
    rcases hcases j c hc with ⟨-, rfl⟩ | ⟨-, hc⟩
    · omega
    · exact Nat.lt_succ_of_lt (hw.fd_lt j c hc)
  · intro j k c hj hk
    rcases hcases j c hj with ⟨hji, hcj⟩ | ⟨-, hj'⟩ <;>
      rcases hcases k c hk with ⟨hki, hck⟩ | ⟨-, hk'⟩
    · exact hji.trans hki.symm
    · exact absurd (hw.fd_lt k c hk') (by omega)
    · exact absurd (hw.fd_lt j c hj') (by omega)
    · exact hw.fd_inj j k c hj' hk'
  · intro j c hc
    obtain ⟨hj, hjconn⟩ := hw.holder j c hc
    have hji : j ≠ i := by
      rintro rfl
      exact Bool.false_ne_true (hconn.symm.trans hjconn)
    show c ∈ (Function.update w.handle i h j).connectingFd ∧
      (Function.update w.handle i h j).isConnected = true
    rw [Function.update_of_ne hji]
    exact ⟨hj, hjconn⟩

/-- A step on one connection leaves the others balanced. -/
theorem conn_update (hw : Handshaken w) {c : Nat} (f : Conn → Conn) {w' : World}
    (hnet : w'.net = w.net.update c f)
    (hsend : ∀ i d, d ≠ c → ((i, d) ∈ w'.sendComms ↔ (i, d) ∈ w.sendComms))
    (hrecv : ∀ d, d ≠ c → (d ∈ w'.recvComms ↔ d ∈ w.recvComms))
    (hc : (f (w.net.conn c)).Balanced (∃ i, (i, c) ∈ w'.sendComms) (c ∈ w'.recvComms)) (d : Nat) :
    (w'.net.conn d).Balanced (∃ i, (i, d) ∈ w'.sendComms) (d ∈ w'.recvComms) := by
  rw [hnet]
  by_cases hd : d = c
  · rw [hd, Net.update_conn_self]
    exact hc
  · rw [Net.update_conn_ne _ _ hd, hrecv d hd]
    simp only [hsend _ d hd]
    exact hw.conn d

/-- The ready byte is the first byte on its connection. -/
theorem sentReady (hw : Handshaken w) {i c : Nat} (hfd : c ∈ (w.handle i).connectingFd)
    (hconn : (w.handle i).isConnected = true) (hnew : ∀ d, (i, d) ∉ w.sendComms) :
    Handshaken { w with net := w.net.send c .ready, sendComms := w.sendComms ++ [(i, c)] } := by
  have hfirst : ¬∃ j, (j, c) ∈ w.sendComms := by
    rintro ⟨j, hj⟩
    obtain rfl := hw.fd_inj i j c hfd (hw.holder j c hj).1
    exact hnew c hj
  have hlast : (i, c) ∈ w.sendComms ++ [(i, c)] :=
    List.mem_append_right _ (List.mem_singleton_self _)
  refine ⟨hw.fd_lt, hw.fd_inj, ?_, hw.conn_update (·.send .ready) rfl ?_ (fun _ _ => Iff.rfl) ?_,
    hw.held, hw.unaliased⟩
  · intro j d hjd
    rcases List.mem_append.mp hjd with hjd | hjd
    · exact hw.holder j d hjd
    · obtain ⟨rfl, rfl⟩ := Prod.mk.inj (List.mem_singleton.mp hjd)
      exact ⟨hfd, hconn⟩
  · intro j d hd
    simp [hd]
  · exact (hw.conn c).sendReady hfirst ⟨i, hlast⟩

theorem sentData (hw : Handshaken w) {i c : Nat} (hsend : (i, c) ∈ w.sendComms) (b : UInt8) :
    Handshaken { w with net := w.net.send c (.data b) } where
  fd_lt := hw.fd_lt
  fd_inj := hw.fd_inj
  holder := hw.holder
  conn := hw.conn_update (·.send (.data b)) rfl (fun _ _ _ => Iff.rfl) (fun _ _ => Iff.rfl)
    ((hw.conn c).sendData ⟨i, hsend⟩ b)
  held := hw.held
  unaliased := hw.unaliased

/-- The first receive comm is handed out over the ready byte. -/
theorem recvReady (hw : Handshaken w) {c : Nat} (hc : c ∈ w.acceptedFd)
    (hnone : w.recvComms = []) (hsome : (w.net.conn c).unread ≠ []) :
    Handshaken { w with net := w.net.recvReady c, recvComms := w.recvComms ++ [c] } := by
  have hnew : c ∉ w.recvComms := by
    rw [hnone]
    exact List.not_mem_nil
  refine ⟨hw.fd_lt, hw.fd_inj, hw.holder,
    hw.conn_update Conn.recvReady rfl (fun _ _ _ => Iff.rfl) ?_ ?_, ?_, ?_⟩
  · intro d hd
    simp [hd]
  · exact (hw.conn c).recvReady hnew hsome (List.mem_append_right _ (List.mem_singleton_self _))
  · intro d hd
    rw [hnone, List.nil_append, List.mem_singleton] at hd
    exact hd ▸ hc
  · rw [hnone]
    exact List.nodup_singleton c

theorem recvData (hw : Handshaken w) {c : Nat} (hc : c ∈ w.recvComms) :
    Handshaken { w with net := w.net.recvData c } where
  fd_lt := hw.fd_lt
  fd_inj := hw.fd_inj
  holder := hw.holder
  conn := hw.conn_update Conn.recvData rfl (fun _ _ _ => Iff.rfl) (fun _ _ => Iff.rfl)
    ((hw.conn c).recvData hc)
  held := hw.held
  unaliased := hw.unaliased

/-- A connection is taken from the queue while none is held. -/
theorem took (hw : Handshaken w) (hnone : w.acceptedFd = none) (c : Nat) (rest : List Nat) :
    Handshaken { w with net := { w.net with backlog := rest }, acceptedFd := some c } where
  fd_lt := hw.fd_lt
  fd_inj := hw.fd_inj
  holder := hw.holder
  conn := hw.conn
  held d hd := absurd (hw.held d hd) (hnone ▸ Option.not_mem_none d)
  unaliased := hw.unaliased

/-- One orderly step. -/
theorem step (hw : Handshaken w) {l : Label} (hl : Orderly w l) {w' : World}
    (hstep : step w l = some w') : Handshaken w' := by
  rw [Connection.step] at hstep
  split_ifs at hstep with hposs
  obtain rfl := Option.some_inj.mp hstep
  cases l with
  | connect i calls =>
      simp only [World.next, World.connect]
      rcases netDedupConnectV8_cases w.net (w.handle i) calls with
        ⟨c, hconn, hfd, hsend, hcall⟩ | ⟨h, net, hconn, hfd, hnext, hsame, hcall⟩ |
        ⟨h, hfd, hconn, hcall⟩
      · simp only [hcall, Option.toList_some, List.map_cons, List.map_nil,
          Function.update_eq_self]
        exact hw.sentReady hfd hconn (hl hsend)
      · simp only [hcall, Option.toList_none, List.map_nil, List.append_nil]
        exact (hw.opened hfd hconn).sameStreams hnext hsame
      · simp only [hcall, Option.toList_none, List.map_nil, List.append_nil]
        exact hw.flagged hfd hconn
  | accept calls =>
      simp only [World.next, World.accept]
      rcases netDedupAcceptV8_cases w.net w.acceptedFd calls with
        ⟨c, hc, hrecv, hcall⟩ | ⟨c, rest, hnone, hcall⟩ | hcall
      · simp only [hcall, Option.toList_some]
        rw [← hc]
        exact hw.recvReady hc hl.1 (hl.2 c hc hrecv)
      · simp only [hcall, Option.toList_none, List.append_nil]
        exact hw.took hnone c rest
      · simp only [hcall, Option.toList_none, List.append_nil]
        exact hw
  | established c => exact hw.sameStreams rfl (w.net.sameStreams_establish c)
  | closed c => exact hw.sameStreams rfl (w.net.sameStreams_close c)
  | processSend i c b => exact hw.sentData hposs.1 b
  | processRecv c => exact hw.recvData hposs.1

/-- A step after which both sides agree was orderly. -/
theorem orderly (hw : Handshaken w) {l : Label} {w' : World} (hstep : Connection.step w l = some w')
    (hl : Agrees w l) : Orderly w l := by
  obtain ⟨hlater, hagree⟩ := hl
  have hafter := hagree w' hstep
  rw [Connection.step] at hstep
  split_ifs at hstep with hposs
  obtain rfl := Option.some_inj.mp hstep
  cases l with
  | connect i calls =>
      intro hsend c hc
      obtain ⟨hfd, hconn⟩ := hw.holder i c hc
      obtain ⟨bs, hbs⟩ := hw.conn c |>.oneReady ⟨i, hc⟩
      -- a second ready byte follows the bytes sent so far
      have hnext : w.connect i calls =
          { w with net := w.net.send c .ready, sendComms := w.sendComms ++ [(i, c)] } := by
        simp [World.connect, netDedupConnectV8, hconn, hsend, Option.mem_def.mp hfd]
      have hready := hafter.oneReady i c (by
        rw [World.next, hnext]
        exact List.mem_append_left _ hc)
      obtain ⟨bs', hbs'⟩ := hready
      rw [World.next, hnext] at hbs'
      simp only [Net.send, Net.update_conn_self, Conn.send, hbs, List.cons_append,
        List.cons.injEq, true_and] at hbs'
      have hmem : Sent.ready ∈ bs'.map Sent.data :=
        hbs' ▸ List.mem_append_right _ (List.mem_singleton_self _)
      obtain ⟨b, -, hb⟩ := List.mem_map.mp hmem
      cases hb
  | accept calls =>
      have hnone : w.recvComms = [] :=
        List.eq_nil_iff_forall_not_mem.mpr fun c hc => hlater c (hw.held c hc) hc
      refine ⟨hnone, fun c hc hrecv hempty => ?_⟩
      -- the end of the stream is taken for the ready byte
      have hnext : w.accept calls =
          { w with net := w.net.recvReady c, acceptedFd := some c, recvComms := [c] } := by
        simp [World.accept, netDedupAcceptV8, Option.mem_def.mp hc, hrecv, hnone]
      have hread := hafter.accepted c (by
        rw [World.next, hnext]
        exact List.mem_singleton_self c)
      rw [World.next, hnext] at hread
      have hunread := ((hw.conn c).unread (hnone ▸ List.not_mem_nil)).1
      simp [Net.recvReady, Net.update_conn_self, Conn.recvReady, hempty, hunread] at hread
  | established c => trivial
  | closed c => trivial
  | processSend i c b => trivial
  | processRecv c => trivial

end Handshaken

/-- An orderly step returns to no connection and keeps the agreement. -/
theorem Orderly.agrees {w : World} (hw : Handshaken w) {l : Label} (hl : Orderly w l) :
    Agrees w l := by
  refine ⟨?_, fun w' hstep => (hw.step hl hstep).agreement⟩
  cases l with
  | accept calls =>
      intro c _
      rw [hl.1]
      exact List.not_mem_nil
  | connect i calls => trivial
  | established c => trivial
  | closed c => trivial
  | processSend i c b => trivial
  | processRecv c => trivial

/-- Along a run of the two state machines, every step keeps the agreement if and
only if every step is orderly. -/
theorem handshake_iff (ls : List Label) (hrun : Run.run step initial ls ≠ none) :
    Run.Guarded step Agrees initial ls ↔ Run.Guarded step Orderly initial ls :=
  Run.guarded_iff (fun _ _ _ hw hstep => ⟨hw.orderly hstep, fun hl => hl.agrees hw⟩)
    (fun _ _ _ hw hl hstep => hw.step hl hstep) initial_handshaken hrun

section OneConnector

/-- All system calls of a connect go through. -/
def connectCalls : ConnectCalls := ⟨.ok, .ok, .ok, .ok, .ok, .ok⟩

/-- Connector 0 connects and sends the ready byte, the listen comm accepts and reads it. -/
def shakeHands : List Label :=
  [.connect 0 connectCalls, .accept ⟨.ok, .ok⟩, .connect 0 connectCalls, .accept ⟨.ok, .ok⟩]

theorem handshake_iff_shakeHands :
    Run.Guarded step Agrees initial shakeHands ↔ Run.Guarded step Orderly initial shakeHands :=
  handshake_iff shakeHands (by
    have hrun : (Run.run step initial shakeHands).isSome = true := by decide +kernel
    exact Option.isSome_iff_ne_none.mp hrun)

/-- A byte of the first message arrives and accept is called once more. -/
def acceptTwice : List Label := shakeHands ++ [.processSend 0 0 7, .accept ⟨.ok, .ok⟩]

/-- Both receive comms are on connection 0, and the second has taken a byte of the message. -/
theorem handshake_fails : Run.run step initial acceptTwice ≠ none ∧
    ¬Run.Guarded step Agrees initial acceptTwice := by
  have hrecvComms : (Run.run step initial acceptTwice).map (fun w => w.recvComms) =
      some [0, 0] := by
    decide +kernel
  obtain ⟨w, hrun, hw⟩ := Option.map_eq_some_iff.mp hrecvComms
  refine ⟨by rw [hrun]; exact Option.some_ne_none w, fun hagrees => ?_⟩
  have hagree : Agreement w := Run.run_invariant (fun _ _ w' _ hl hstep => hl.2 w' hstep)
    initial_handshaken.agreement hagrees hrun
  have hnodup := hagree.unaliased
  rw [hw] at hnodup
  exact absurd hnodup (by decide)

end OneConnector

end NetDedup.Connection

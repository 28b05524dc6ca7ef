import NetDedup.Comm.Requests
import NetDedup.Transfer.HeaderTransfer

/-!
# The two ends of a connection

Messages go one way over one connection. The sending and the receiving party
take the steps of `process_send` and `process_recv` in any order, the bytes
between them are in flight, and any process inserts into the caches of the nodes.
-/

namespace NetDedup.Delivery

open Chunking Comm Memory Store Transfer

/-- What is sent and where: the messages in the order of their `isend` calls, and
the nodes of the two processes, which may be one. Each node has a shared cache. -/
structure Exchange (Node : Type) where
  sha256 : List UInt8 → Digest
  messages : Nat → List UInt8
  sendNode : Node
  recvNode : Node

/-- A receive request in progress, with the buffer as it was posted and what the
cache of its node was then. -/
structure Receiving where
  posted : Mem
  cache : FingerprintCache
  st : RecvState

/-- A receive that was reported done: what was posted, the buffer as it is now, and
the reported size. -/
structure Receipt where
  posted : Mem
  cache : FingerprintCache
  buffer : Mem
  size : Int

/-- What `netDedup_test` reports of a completed receive. -/
def Receiving.receipt (r : Receiving) : Receipt where
  posted := r.posted
  cache := r.cache
  buffer := r.st.req.appBuffer
  size := (DedupReq.recvReq 0 r.st).size

/-- The state of both parties and of what is between them. -/
structure Link where
  /-- `to_skip_insert_cache` of the sending and of the receiving process. -/
  sendSkip : Bool
  recvSkip : Bool
  sending : Option SendState
  /-- The sends that were reported done. -/
  sent : Nat
  receiving : Option Receiving
  receipts : List Receipt
  /-- Bytes in flight to the receiving and to the sending party. -/
  forward : List UInt8
  backward : List UInt8
  /-- All that was ever sent to them. -/
  forwardSent : List UInt8
  backwardSent : List UInt8

/-- A link and the caches that it shares with everything else on the nodes. -/
structure World (Node : Type) extends Link where
  caches : Node → FingerprintCache

/-- The headers of a send request go out whole. -/
def SendsWhole (st : SendState) (choice : Choice) : Prop :=
  (st.req.stage = .sendHeader →
    choice.socket.Whole generalHeader.size generalHeader.size) ∧
  (st.req.stage = .sendFingerprintHeader →
    choice.socket.Whole fingerprintHeader.size fingerprintHeader.size)

instance decidableSendsWhole (st : SendState) (choice : Choice) :
    Decidable (SendsWhole st choice) :=
  inferInstanceAs (Decidable (_ ∧ _))

/-- The headers of a receive request come in whole, of `available` bytes. -/
def ReceivesWhole (st : RecvState) (available : Nat) (choice : Choice) : Prop :=
  (st.req.stage = .recvHeader → choice.socket.Whole generalHeader.size available) ∧
  (st.req.stage = .recvFingerprintHeader →
    choice.socket.Whole fingerprintHeader.size available)

instance decidableReceivesWhole (st : RecvState) (available : Nat) (choice : Choice) :
    Decidable (ReceivesWhole st available choice) :=
  inferInstanceAs (Decidable (_ ∧ _))

/-- What happens next. -/
inductive Event (Node : Type) where
  /-- `netDedup_isend` of the next message. -/
  | isend
  /-- `netDedup_irecv` into a buffer of `size` bytes. -/
  | irecv (size : Nat) (buffer : Mem)
  /-- A step of `process_send`. -/
  | processSend (choice : Choice)
  /-- A step of `process_recv`. -/
  | processRecv (choice : Choice)
  /-- `netDedup_test` returns for a completed send. -/
  | sendDone
  /-- `netDedup_test` returns for a completed receive. -/
  | recvDone
  /-- Any process inserts a content. -/
  | insert (node : Node) (fp : Fingerprint) (content : List UInt8)
      (retEntry : Option FingerprintEntry)
  /-- `to_skip_insert_cache` may be set in the two processes; nothing clears it. -/
  | setSkip (send recv : Bool)

namespace World

variable {Node : Type} [DecidableEq Node] (x : Exchange Node) (w : World Node)

/-- A step of `process_send` on the sending end. -/
def processSend (st : SendState) (choice : Choice) : Option (World Node) := do
  let (_, st, sock, proc) ← Transfer.processSend x.sha256 st ⟨[], w.backward⟩
    ⟨w.caches x.sendNode, w.sendSkip⟩ choice
  some { w with
    caches := Function.update w.caches x.sendNode proc.globalFingerprintCache
    sendSkip := proc.toSkipInsertCache
    sending := some st
    forward := w.forward ++ sock.sent
    backward := sock.inbound
    forwardSent := w.forwardSent ++ sock.sent }

/-- A step of `process_recv` on the receiving end. -/
def processRecv (r : Receiving) (choice : Choice) : Option (World Node) := do
  let (_, st, sock, proc) ← Transfer.processRecv r.st ⟨[], w.forward⟩
    ⟨w.caches x.recvNode, w.recvSkip⟩ choice
  some { w with
    caches := Function.update w.caches x.recvNode proc.globalFingerprintCache
    recvSkip := proc.toSkipInsertCache
    receiving := some { r with st := st }
    forward := sock.inbound
    backward := w.backward ++ sock.sent
    backwardSent := w.backwardSent ++ sock.sent }

/-- One event; `none` is an access outside an array, a buffer or a heap block. A
call that does not apply leaves everything as it is: `isend` and `irecv` on a
busy comm return no request, `test` finds its request not completed. -/
def next : Event Node → Option (World Node)
  | .isend =>
      match w.sending with
      | none => some { w with sending := some ⟨isendRequest (x.messages w.sent), none⟩ }
      | some _ => some w
  | .irecv size buffer =>
      match w.receiving with
      | none => some { w with
          receiving := some ⟨buffer, w.caches x.recvNode,
            ⟨irecvRequest size buffer, none, none⟩⟩ }
      | some _ => some w
  | .processSend choice =>
      match w.sending with
      | none => some w
      | some st => w.processSend x st choice
  | .processRecv choice =>
      match w.receiving with
      | none => some w
      | some r => w.processRecv x r choice
  | .sendDone =>
      match w.sending with
      | none => some w
      | some st =>
          if st.req.stage = .sendComplete then
            some { w with sending := none, sent := w.sent + 1 }
          else some w
  | .recvDone =>
      match w.receiving with
      | none => some w
      | some r =>
          if r.st.req.stage = .recvComplete then
            some { w with receiving := none, receipts := w.receipts ++ [r.receipt] }
          else some w
  | .insert node fp content retEntry => do
      let (_, cache, _) ← insertFingerprint (w.caches node) fp content retEntry
      some { w with caches := Function.update w.caches node cache }
  | .setSkip send recv =>
      some { w with sendSkip := w.sendSkip || send, recvSkip := w.recvSkip || recv }

end World

end NetDedup.Delivery

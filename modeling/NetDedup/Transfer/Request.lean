import NetDedup.Fingerprint.Chunking
import NetDedup.Transfer.Socket

/-!
# Requests

The send and receive requests of `net_dedup.h`. The part from the general
header up to the end of `packaged_fingerprints`, laid out alike in both, is
kept as bytes: headers and fingerprints cross the wire as they lie in memory,
and a resumed header transfer addresses bytes behind its header. Field
positions count from the general header.
-/

namespace NetDedup.Transfer

open Chunking Memory

/-- A header inside a request and the `int` that counts its moved bytes. -/
structure HeaderField where
  pos : Nat
  size : Nat
  offsetPos : Nat

/-- `header` with `send_header_offset` or `recv_header_offset`. -/
def generalHeader : HeaderField := ⟨0, 16, 16⟩

/-- `fingerprint_header` with its offset. -/
def fingerprintHeader : HeaderField := ⟨24, 8, 32⟩

/-- Position of `packaged_fingerprints`. -/
def packagedPos : Nat := 40

/-- `sizeof(Fingerprint)`: a 64-bit size and a digest. -/
def sizeofFingerprint : Nat := 8 + fingerprintNumBytes

/-- `sizeof(uint64_t)`, also that of `Missing_Fingerprint_Header`. -/
def sizeofU64 : Nat := 8

/-- Bytes from the general header to the end of `packaged_fingerprints`. -/
def headSize : Nat := packagedPos + maxFingerprintsPerReq * sizeofFingerprint

/-- Bytes of `missing_fingerprint_inds`. -/
def indsSize : Nat := maxFingerprintsPerReq * sizeofU64

def loadU64 (m : Mem) (pos : Nat) : Nat := leNat (read m pos sizeofU64)

def storeU64 (m : Mem) (pos v : Nat) : Mem := write m pos (leBytes sizeofU64 v)

/-- An `int` field, sign-extended to 64 bits. -/
def loadInt (m : Mem) (pos : Nat) : Nat :=
  let v := leNat (read m pos 4)
  if v < 2 ^ 31 then v else v + (2 ^ 64 - 2 ^ 32)

def storeInt (m : Mem) (pos v : Nat) : Mem := write m pos (leBytes 4 v)

/-- `header.is_fingerprint` as a condition. -/
def isFingerprint (head : Mem) : Bool := head generalHeader.pos != 0

/-- `header.content_size`. -/
def headerContentSize (head : Mem) : Nat := loadU64 head (generalHeader.pos + 8)

/-- `fingerprint_header.num_fingerprints`. -/
def numFingerprints (head : Mem) : Nat := loadU64 head fingerprintHeader.pos

/-- The bytes of a `Fingerprint`. -/
def encodeFingerprint (fp : Fingerprint) : List UInt8 :=
  leBytes sizeofU64 fp.contentSize ++ fp.fingerprint.toList

/-- The `Fingerprint` at some position. -/
def loadFingerprint (m : Mem) (pos : Nat) : Fingerprint where
  contentSize := loadU64 m pos
  fingerprint := Vector.ofFn fun i => m (pos + sizeofU64 + i)

/-- `packaged_fingerprints[i]`. -/
def packagedFingerprint (head : Mem) (i : Nat) : Option Fingerprint :=
  if i < maxFingerprintsPerReq then
    some (loadFingerprint head (packagedPos + i * sizeofFingerprint))
  else none

/-- `packaged_fingerprints[i] = fp`. -/
def setPackagedFingerprint (head : Mem) (i : Nat) (fp : Fingerprint) : Option Mem :=
  if i < maxFingerprintsPerReq then
    some (write head (packagedPos + i * sizeofFingerprint) (encodeFingerprint fp))
  else none

/-- `missing_fingerprint_inds[i]`. -/
def missingInd (inds : Mem) (i : Nat) : Option Nat :=
  if i < maxFingerprintsPerReq then some (loadU64 inds (i * sizeofU64)) else none

/-- `missing_fingerprint_inds[i] = v`. -/
def setMissingInd (inds : Mem) (i v : Nat) : Option Mem :=
  if i < maxFingerprintsPerReq then some (storeU64 inds (i * sizeofU64) v) else none

/-- An entry of an array of `MAX_FINGERPRINTS_PER_REQ` words. -/
def getSlot (slots : Nat → Nat) (i : Nat) : Option Nat :=
  if i < maxFingerprintsPerReq then some (slots i) else none

def setSlot (slots : Nat → Nat) (i v : Nat) : Option (Nat → Nat) :=
  if i < maxFingerprintsPerReq then some (Function.update slots i v) else none

/-- `SendReqStage`. -/
inductive SendReqStage where
  | sendHeader
  | sendRegData
  | computeFingerprints
  | insertOutboundFingerprints
  | sendFingerprintHeader
  | sendPackagedFingerprints
  | recvMissingFingerprintHeader
  | recvMissingFingerprints
  | sendMissingContent
  | sendComplete
  deriving DecidableEq

/-- `RecvReqStage`. -/
inductive RecvReqStage where
  | recvHeader
  | recvRegData
  | recvFingerprintHeader
  | recvPackagedFingerprints
  | populateFromNetCache
  | sendMissingFingerprintHeader
  | sendMissingFingerprints
  | recvMissingContent
  | insertInboundFingerprints
  | recvComplete
  deriving DecidableEq

/-- `Dedup_Send_Req` with its `Fingerprint_Send_State`. `missing_fingerprint_header`
is received bytewise. -/
structure DedupSendReq where
  stage : SendReqStage
  head : Mem
  fingerprintOffsets : Nat → Nat
  packagedFingerprintsSizeBytes : Nat
  sendFingerprintOffset : Nat
  missingFingerprintHeader : Mem
  missingFingerprintHeaderOffset : Nat
  missingFingerprintInds : Mem
  recvMissingFingerprintIndsOffset : Nat
  curReplyContentFingerprintInd : Nat
  curReplyContentFingerprintOffset : Nat
  size : Nat
  data : List UInt8
  offset : Nat

/-- `Dedup_Recv_Req` with its `Fingerprint_Recv_State`. Slots count from `app_buffer`,
which has `size` bytes. -/
structure DedupRecvReq where
  stage : RecvReqStage
  head : Mem
  packagedFingerprintsSizeBytes : Nat
  recvFingerprintOffset : Nat
  missingFingerprintInds : Mem
  missingFingerprintSlots : Nat → Nat
  numMissingFingerprints : Nat
  missingFingerprintHeaderOffset : Nat
  sendMissingFingerprintIndsOffset : Nat
  curRecvContentInd : Nat
  curRecvContentOffset : Nat
  size : Nat
  appBuffer : Mem
  appOffset : Nat
  appFilledSize : Nat

/-- `send` of a header: the resume address scales the bytes moved so far by
the size of the header. -/
def sendHeaderField (f : HeaderField) (head : Mem) (sock : Socket) (o : Outcome) :
    Option (Int × Mem × Socket) := do
  let prevSent := loadInt head f.offsetPos
  let curHeader := (f.pos + prevSent * f.size) % 2 ^ 64
  let remainSize := u64Sub f.size prevSent
  let (sentBytes, sock) ← send sock o head headSize curHeader remainSize
  match sentBytes with
  | none => some (failureReturn o.errno, head, sock)
  | some sentBytes =>
      if sentBytes < remainSize then
        some (0, storeInt head f.offsetPos (loadInt head f.offsetPos + sentBytes), sock)
      else some (1, head, sock)

/-- `recv` of a header, likewise. The bytes received may overwrite the offset. -/
def recvHeaderField (f : HeaderField) (head : Mem) (sock : Socket) (o : Outcome) :
    Option (Int × Mem × Socket) := do
  let prevRecv := loadInt head f.offsetPos
  let curHeader := (f.pos + prevRecv * f.size) % 2 ^ 64
  let remainSize := u64Sub f.size prevRecv
  let (recvBytes, sock, head) ← recv sock o head headSize curHeader remainSize
  match recvBytes with
  | none => some (failureReturn o.errno, head, sock)
  | some recvBytes =>
      if recvBytes < remainSize then
        some (0, storeInt head f.offsetPos (loadInt head f.offsetPos + recvBytes), sock)
      else some (1, head, sock)

/-- `send` of the rest of a block of `total` bytes at `base`, of which `prevSent` went out. -/
def sendBlock (region : Mem) (limit base total prevSent : Nat) (sock : Socket) (o : Outcome) :
    Option (Int × Nat × Socket) := do
  let remainSize := u64Sub total prevSent
  let (sentBytes, sock) ← send sock o region limit (base + prevSent) remainSize
  match sentBytes with
  | none => some (failureReturn o.errno, prevSent, sock)
  | some sentBytes =>
      if sentBytes < remainSize then some (0, prevSent + sentBytes, sock)
      else some (1, prevSent, sock)

/-- `recv` of the rest of a block of `total` bytes at `base`, of which `prevRecv` came in. -/
def recvBlock (region : Mem) (limit base total prevRecv : Nat) (sock : Socket) (o : Outcome) :
    Option (Int × Nat × Mem × Socket) := do
  let remainSize := u64Sub total prevRecv
  let (recvBytes, sock, region) ← recv sock o region limit (base + prevRecv) remainSize
  match recvBytes with
  | none => some (failureReturn o.errno, prevRecv, region, sock)
  | some recvBytes =>
      if recvBytes < remainSize then some (0, prevRecv + recvBytes, region, sock)
      else some (1, prevRecv, region, sock)

end NetDedup.Transfer

import NetDedup.Store.FingerprintCache
import NetDedup.Transfer.Request

/-!
# The sending party

`netDedup_isend` and the stages of `process_send`, one step for each socket
call and each cache operation. A step takes the outcomes of its calls; `none`
is an access outside an array, a buffer or a heap block.
-/

namespace NetDedup.Transfer

open Chunking Memory Store

/-- What a process shares with its other requests. -/
structure Process where
  globalFingerprintCache : FingerprintCache
  toSkipInsertCache : Bool

/-- Outcomes of the calls of one step. -/
structure Choice where
  socket : Outcome
  /-- `pthread_mutex_trylock` takes the cache lock. -/
  trylock : Bool
  /-- What an uninitialised `Fingerprint_Entry` on the stack holds. -/
  uninit : FingerprintEntry
  deriving DecidableEq

/-- How a step leaves the `while` loop of `process_send` or `process_recv`. -/
inductive Flow where
  | loop
  | ret (r : Int)
  deriving DecidableEq

/-- A send request, with `i` and `cur_buffer` of the insert loop while it runs. -/
structure SendState where
  req : DedupSendReq
  inserting : Option (Nat × Nat)

/-- The request that `netDedup_isend` starts for `data`. -/
def isendRequest (data : List UInt8) : DedupSendReq where
  stage := .sendHeader
  head :=
    let head : Mem := fun _ => 0
    let head := write head generalHeader.pos
      [if fingerprintMsgSizeThreshold < data.length then 1 else 0]
    storeU64 head (generalHeader.pos + 8) data.length
  fingerprintOffsets := fun _ => 0
  packagedFingerprintsSizeBytes := 0
  sendFingerprintOffset := 0
  missingFingerprintHeader := fun _ => 0
  missingFingerprintHeaderOffset := 0
  missingFingerprintInds := fun _ => 0
  recvMissingFingerprintIndsOffset := 0
  curReplyContentFingerprintInd := 0
  curReplyContentFingerprintOffset := 0
  size := data.length
  data := data
  offset := 0

/-- `process_send_header`. -/
def processSendHeader (req : DedupSendReq) (sock : Socket) (o : Outcome) :
    Option (Int × DedupSendReq × Socket) := do
  let (r, head, sock) ← sendHeaderField generalHeader req.head sock o
  some (r, { req with head := head }, sock)

/-- `process_send_reg_data`. -/
def processSendRegData (req : DedupSendReq) (sock : Socket) (o : Outcome) :
    Option (Int × DedupSendReq × Socket) := do
  let remainBytes := u64Sub req.size req.offset
  if remainBytes = 0 then some (1, req, sock)
  else
    let (sentBytes, sock) ← send sock o (fun i => req.data.getD i 0) req.data.length req.offset
      remainBytes
    match sentBytes with
    | none => some (failureReturn o.errno, req, sock)
    | some sentBytes =>
        let req := { req with offset := (req.offset + sentBytes) % 2 ^ 64 }
        if req.offset < req.size then some (0, req, sock) else some (1, req, sock)

/-- The copy loop of `dedup_fingerprinting`, from fingerprint `i` on. -/
def packFingerprints (head : Mem) : Nat → List Fingerprint → Option Mem
  | _, [] => some head
  | i, fp :: fps => do
      let head ← setPackagedFingerprint head i fp
      packFingerprints head (i + 1) fps

/-- `dedup_fingerprinting`. The heap blocks hold `n / min_chunk_size_bytes + 1`
fingerprints; the division faults on a size of zero. -/
def dedupFingerprinting (sha256 : List UInt8 → Digest) (settings : FingerprintingSettings)
    (data : List UInt8) (head : Mem) : Option (Nat × Mem) := do
  if settings.minSize = 0 then none
  else
    let maxFingerprints := data.length / settings.minSize + 1
    let fps ← doFingerprinting sha256 settings data
    if maxFingerprints < fps.length then none
    else
      let head ← packFingerprints head 0 fps
      some (fps.length, head)

/-- The loop of `process_compute_fingerprints`, from fingerprint `i` on. -/
def computeOffsets (head : Mem) : Nat → Nat → Nat → (Nat → Nat) → Option (Nat → Nat)
  | 0, _, _, fingerprintOffsets => some fingerprintOffsets
  | n + 1, i, curOffset, fingerprintOffsets => do
      let fingerprintOffsets ← setSlot fingerprintOffsets i curOffset
      let fp ← packagedFingerprint head i
      computeOffsets head n (i + 1) ((curOffset + fp.contentSize) % 2 ^ 64) fingerprintOffsets

/-- `process_compute_fingerprints`. -/
def processComputeFingerprints (sha256 : List UInt8 → Digest) (settings : FingerprintingSettings)
    (req : DedupSendReq) : Option (Int × DedupSendReq) := do
  let (num, head) ← dedupFingerprinting sha256 settings req.data req.head
  let head := storeU64 head fingerprintHeader.pos num
  let fingerprintOffsets ← computeOffsets head num 0 0 req.fingerprintOffsets
  some (1, { req with
    head := head
    fingerprintOffsets := fingerprintOffsets
    sendFingerprintOffset := 0
    packagedFingerprintsSizeBytes := num * sizeofFingerprint % 2 ^ 64
    missingFingerprintHeader := storeU64 req.missingFingerprintHeader 0 0
    missingFingerprintHeaderOffset := 0
    recvMissingFingerprintIndsOffset := 0
    curReplyContentFingerprintInd := 0
    curReplyContentFingerprintOffset := 0 })

/-- `process_insert_outbound_fingerprints` up to its loop: the locals of the
loop, or what the stage returns. -/
def processInsertOutboundFingerprints (proc : Process) (trylock : Bool) : (Nat × Nat) ⊕ Int :=
  if proc.toSkipInsertCache then .inr 1
  else if trylock then .inl (0, 0)
  else .inr 0

/-- One iteration of the loop of `process_insert_outbound_fingerprints`. -/
def insertOutbound (proc : Process) (req : DedupSendReq) (newEntry : FingerprintEntry)
    (i curBuffer : Nat) : Option (((Nat × Nat) ⊕ Int) × Process) := do
  if i < numFingerprints req.head then
    let fp ← packagedFingerprint req.head i
    let (ret, cache, _) ← insertFingerprint proc.globalFingerprintCache fp
      (req.data.drop curBuffer) (some newEntry)
    if ret ≠ 0 then some (.inr 1, ⟨cache, true⟩)
    else some (.inl (i + 1, (curBuffer + fp.contentSize) % 2 ^ 64), { proc with
      globalFingerprintCache := cache })
  else some (.inr 1, proc)

/-- `process_send_fingerprint_header`. -/
def processSendFingerprintHeader (req : DedupSendReq) (sock : Socket) (o : Outcome) :
    Option (Int × DedupSendReq × Socket) := do
  let (r, head, sock) ← sendHeaderField fingerprintHeader req.head sock o
  some (r, { req with head := head }, sock)

/-- `process_send_packaged_fingerprints`. -/
def processSendPackagedFingerprints (req : DedupSendReq) (sock : Socket) (o : Outcome) :
    Option (Int × DedupSendReq × Socket) := do
  let (r, offset, sock) ← sendBlock req.head headSize packagedPos
    req.packagedFingerprintsSizeBytes req.sendFingerprintOffset sock o
  some (r, { req with sendFingerprintOffset := offset }, sock)

/-- `num_missing_fingerprints` of the reply. -/
def DedupSendReq.numMissing (req : DedupSendReq) : Nat := loadU64 req.missingFingerprintHeader 0

/-- `process_recv_missing_fingerprint_header`. -/
def processRecvMissingFingerprintHeader (req : DedupSendReq) (sock : Socket) (o : Outcome) :
    Option (Int × DedupSendReq × Socket) := do
  let (r, offset, header, sock) ← recvBlock req.missingFingerprintHeader sizeofU64 0 sizeofU64
    req.missingFingerprintHeaderOffset sock o
  some (r, { req with
    missingFingerprintHeader := header, missingFingerprintHeaderOffset := offset }, sock)

/-- `process_recv_missing_fingerprints`. -/
def processRecvMissingFingerprints (req : DedupSendReq) (sock : Socket) (o : Outcome) :
    Option (Int × DedupSendReq × Socket) := do
  let (r, offset, inds, sock) ← recvBlock req.missingFingerprintInds indsSize 0
    (req.numMissing * sizeofU64 % 2 ^ 64) req.recvMissingFingerprintIndsOffset sock o
  some (r, { req with
    missingFingerprintInds := inds, recvMissingFingerprintIndsOffset := offset }, sock)

/-- One iteration of `process_send_missing_content`; none when its loop goes on.
The request holds the locals of the loop. -/
def processSendMissingContent (req : DedupSendReq) (sock : Socket) (o : Outcome) :
    Option (Option Int × DedupSendReq × Socket) := do
  let i := req.curReplyContentFingerprintInd
  if i < req.numMissing then
    let replyInd ← missingInd req.missingFingerprintInds i
    let fingerprintOffset ← getSlot req.fingerprintOffsets replyInd
    let fp ← packagedFingerprint req.head replyInd
    let curFingerprintOffset := req.curReplyContentFingerprintOffset
    let remainBytes := u64Sub fp.contentSize curFingerprintOffset
    let (sentBytes, sock) ← send sock o (fun i => req.data.getD i 0) req.data.length
      ((fingerprintOffset + curFingerprintOffset) % 2 ^ 64) remainBytes
    match sentBytes with
    | none => some (some (failureReturn o.errno), req, sock)
    | some sentBytes =>
        if sentBytes < remainBytes then
          some (some 0, { req with
            curReplyContentFingerprintInd := i
            curReplyContentFingerprintOffset := curFingerprintOffset + sentBytes }, sock)
        else
          some (none, { req with
            curReplyContentFingerprintInd := i + 1
            curReplyContentFingerprintOffset := 0 }, sock)
  else some (some 1, req, sock)

namespace SendState

/-- A stage returned `r`; 1 moves on to `next`. -/
def advance (st : SendState) (r : Int) (req : DedupSendReq) (next : SendReqStage) :
    Flow × SendState :=
  if r = 1 then (.loop, { st with req := { req with stage := next } })
  else (.ret r, { st with req := req })

/-- A stage that only does socket input and output. -/
def socketStage (st : SendState) (proc : Process)
    (stage : Option (Int × DedupSendReq × Socket)) (next : DedupSendReq → SendReqStage) :
    Option (Flow × SendState × Socket × Process) := do
  let (r, req, sock) ← stage
  let (flow, st) := st.advance r req (next req)
  some (flow, st, sock, proc)

/-- The insert stage goes on with its loop, or returns. -/
def afterInsert (st : SendState) : (Nat × Nat) ⊕ Int → Flow × SendState
  | .inl locals => (.loop, { st with inserting := some locals })
  | .inr r => { st with inserting := none }.advance r st.req .sendFingerprintHeader

end SendState

/-- The case of the `switch` in `process_send` for one stage. -/
def processSendStage (sha256 : List UInt8 → Digest) (stage : SendReqStage) (st : SendState)
    (sock : Socket) (proc : Process) (choice : Choice) :
    Option (Flow × SendState × Socket × Process) :=
  let req := st.req
  let o := choice.socket
  match stage with
  | .sendHeader =>
      st.socketStage proc (processSendHeader req sock o) fun req =>
        if isFingerprint req.head then .computeFingerprints else .sendRegData
  | .sendRegData =>
      st.socketStage proc (processSendRegData req sock o) fun _ => .sendComplete
  | .computeFingerprints => do
      let (r, req) ← processComputeFingerprints sha256
        proc.globalFingerprintCache.fingerprintingSettings req
      let (flow, st) := st.advance r req .insertOutboundFingerprints
      some (flow, st, sock, proc)
  | .insertOutboundFingerprints =>
      match st.inserting with
      | none =>
          let (flow, st) := st.afterInsert (processInsertOutboundFingerprints proc choice.trylock)
          some (flow, st, sock, proc)
      | some (i, curBuffer) => do
          let (next, proc) ← insertOutbound proc req choice.uninit i curBuffer
          let (flow, st) := st.afterInsert next
          some (flow, st, sock, proc)
  | .sendFingerprintHeader =>
      st.socketStage proc (processSendFingerprintHeader req sock o) fun _ =>
        .sendPackagedFingerprints
  | .sendPackagedFingerprints =>
      st.socketStage proc (processSendPackagedFingerprints req sock o) fun _ =>
        .recvMissingFingerprintHeader
  | .recvMissingFingerprintHeader =>
      st.socketStage proc (processRecvMissingFingerprintHeader req sock o) fun req =>
        if req.numMissing = 0 then .sendComplete else .recvMissingFingerprints
  | .recvMissingFingerprints =>
      st.socketStage proc (processRecvMissingFingerprints req sock o) fun _ => .sendMissingContent
  | .sendMissingContent => do
      let (r, req, sock) ← processSendMissingContent req sock o
      match r with
      | none => some (.loop, { st with req := req }, sock, proc)
      | some r =>
          let (flow, st) := st.advance r req .sendComplete
          some (flow, st, sock, proc)
  | .sendComplete => some (.ret 1, st, sock, proc)

/-- One step of `process_send`. -/
def processSend (sha256 : List UInt8 → Digest) (st : SendState) (sock : Socket) (proc : Process)
    (choice : Choice) : Option (Flow × SendState × Socket × Process) :=
  processSendStage sha256 st.req.stage st sock proc choice

end NetDedup.Transfer

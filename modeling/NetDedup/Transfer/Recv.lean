import NetDedup.Transfer.Send

/-!
# The receiving party

`netDedup_irecv` and the stages of `process_recv`, one step for each socket
call and each cache operation. Pointers into `app_buffer` are 64-bit distances
from its start.
-/

namespace NetDedup.Transfer

open Chunking Memory Store

/-- The locals of `process_populate_from_net_cache`. `found` is the entry of a
lookup whose content is copied next. -/
structure PopulateLocals where
  i : Nat
  curAppBuffer : Nat
  totalMissingBytes : Nat
  totalBytes : Nat
  numMissingFingerprints : Nat
  found : Option FingerprintEntry

/-- The locals of the populate loop at its start. -/
def populateStart : PopulateLocals := ⟨0, 0, 0, 0, 0, none⟩

/-- A receive request, with the locals of its populate loop and the index of
its insert loop while they run. -/
structure RecvState where
  req : DedupRecvReq
  populating : Option PopulateLocals
  inserting : Option Nat

/-- The request that `netDedup_irecv` starts for a buffer of `size` bytes. -/
def irecvRequest (size : Nat) (data : Mem) : DedupRecvReq where
  stage := .recvHeader
  head := fun _ => 0
  packagedFingerprintsSizeBytes := 0
  recvFingerprintOffset := 0
  missingFingerprintInds := fun _ => 0
  missingFingerprintSlots := fun _ => 0
  numMissingFingerprints := 0
  missingFingerprintHeaderOffset := 0
  sendMissingFingerprintIndsOffset := 0
  curRecvContentInd := 0
  curRecvContentOffset := 0
  size := size
  appBuffer := data
  appOffset := 0
  appFilledSize := 0

/-- `process_recv_header`. -/
def processRecvHeader (req : DedupRecvReq) (sock : Socket) (o : Outcome) :
    Option (Int × DedupRecvReq × Socket) := do
  let (r, head, sock) ← recvHeaderField generalHeader req.head sock o
  some (r, { req with head := head }, sock)

/-- `process_recv_reg_data`. -/
def processRecvRegData (req : DedupRecvReq) (sock : Socket) (o : Outcome) :
    Option (Int × DedupRecvReq × Socket) := do
  let contentSize := headerContentSize req.head
  let remainBytes := u64Sub contentSize req.appOffset
  if remainBytes = 0 then some (1, req, sock)
  else
    let (recvBytes, sock, appBuffer) ← recv sock o req.appBuffer req.size req.appOffset remainBytes
    match recvBytes with
    | none => some (failureReturn o.errno, req, sock)
    | some recvBytes =>
        let req := { req with
          appBuffer := appBuffer, appOffset := (req.appOffset + recvBytes) % 2 ^ 64 }
        if req.appOffset < contentSize then some (0, req, sock) else some (1, req, sock)

/-- `process_recv_fingerprint_header`. -/
def processRecvFingerprintHeader (req : DedupRecvReq) (sock : Socket) (o : Outcome) :
    Option (Int × DedupRecvReq × Socket) := do
  let (r, head, sock) ← recvHeaderField fingerprintHeader req.head sock o
  if r = 1 then
    some (1, { req with
      head := head
      packagedFingerprintsSizeBytes := numFingerprints head * sizeofFingerprint % 2 ^ 64
      recvFingerprintOffset := 0
      missingFingerprintHeaderOffset := 0
      sendMissingFingerprintIndsOffset := 0
      curRecvContentInd := 0
      curRecvContentOffset := 0 }, sock)
  else some (r, { req with head := head }, sock)

/-- `process_recv_packaged_fingerprints`. -/
def processRecvPackagedFingerprints (req : DedupRecvReq) (sock : Socket) (o : Outcome) :
    Option (Int × DedupRecvReq × Socket) := do
  let (r, offset, head, sock) ← recvBlock req.head headSize packagedPos
    req.packagedFingerprintsSizeBytes req.recvFingerprintOffset sock o
  some (r, { req with head := head, recvFingerprintOffset := offset }, sock)

/-- The lookup of one iteration of `process_populate_from_net_cache`. -/
def lookupChunk (cache : FingerprintCache) (req : DedupRecvReq) (entry : FingerprintEntry)
    (locals : PopulateLocals) : Option (PopulateLocals × DedupRecvReq) := do
  let fp ← packagedFingerprint req.head locals.i
  let locals := { locals with totalBytes := (locals.totalBytes + fp.contentSize) % 2 ^ 64 }
  let (ret, entry) := lookupFingerprint cache fp.fingerprint entry
  if ret = 0 then
    let inds ← setMissingInd req.missingFingerprintInds locals.numMissingFingerprints locals.i
    let slots ← setSlot req.missingFingerprintSlots locals.numMissingFingerprints
      locals.curAppBuffer
    some ({ locals with
        i := locals.i + 1
        curAppBuffer := (locals.curAppBuffer + fp.contentSize) % 2 ^ 64
        totalMissingBytes := (locals.totalMissingBytes + fp.contentSize) % 2 ^ 64
        numMissingFingerprints := locals.numMissingFingerprints + 1 },
      { req with missingFingerprintInds := inds, missingFingerprintSlots := slots })
  else some ({ locals with found := some entry }, req)

/-- The copy of one iteration of `process_populate_from_net_cache`. -/
def copyChunk (cache : FingerprintCache) (req : DedupRecvReq) (locals : PopulateLocals)
    (entry : FingerprintEntry) : Option (PopulateLocals × DedupRecvReq) := do
  let fp ← packagedFingerprint req.head locals.i
  let content ← copyFingerprintContent cache entry
  if InBounds req.size locals.curAppBuffer content.length then
    some ({ locals with
        i := locals.i + 1
        curAppBuffer := (locals.curAppBuffer + fp.contentSize) % 2 ^ 64
        found := none },
      { req with
        appBuffer := write req.appBuffer locals.curAppBuffer content
        appFilledSize := (req.appFilledSize + fp.contentSize) % 2 ^ 64 })
  else none

/-- The end of `process_populate_from_net_cache`, with the statistics of the cache. -/
def finishPopulate (cache : FingerprintCache) (req : DedupRecvReq) (locals : PopulateLocals) :
    FingerprintCache × DedupRecvReq :=
  let stats := cache.stats
  let num := numFingerprints req.head
  ({ cache with stats := {
      totalRecvBytes := (stats.totalRecvBytes + locals.totalBytes) % 2 ^ 64
      populatedFromCacheBytes := (stats.populatedFromCacheBytes +
        u64Sub locals.totalBytes locals.totalMissingBytes) % 2 ^ 64
      totalFingerprints := (stats.totalFingerprints + num) % 2 ^ 64
      totalFoundFingerprints := (stats.totalFoundFingerprints +
        u64Sub num locals.numMissingFingerprints) % 2 ^ 64 } },
    { req with numMissingFingerprints := locals.numMissingFingerprints })

/-- One step of `process_populate_from_net_cache`: the locals of its loop, or
what it returns. -/
def processPopulateFromNetCache (cache : FingerprintCache) (req : DedupRecvReq)
    (entry : FingerprintEntry) (locals : PopulateLocals) :
    Option ((PopulateLocals ⊕ Int) × FingerprintCache × DedupRecvReq) :=
  match locals.found with
  | some found => do
      let (locals, req) ← copyChunk cache req locals found
      some (.inl locals, cache, req)
  | none =>
      if locals.i < numFingerprints req.head then do
        let (locals, req) ← lookupChunk cache req entry locals
        some (.inl locals, cache, req)
      else
        let (cache, req) := finishPopulate cache req locals
        some (.inr 1, cache, req)

/-- The bytes of `missing_fingerprint_header`. -/
def missingHeaderBytes (req : DedupRecvReq) : Mem :=
  storeU64 (fun _ => 0) 0 req.numMissingFingerprints

/-- `process_send_missing_fingerprint_header`. -/
def processSendMissingFingerprintHeader (req : DedupRecvReq) (sock : Socket) (o : Outcome) :
    Option (Int × DedupRecvReq × Socket) := do
  let (r, offset, sock) ← sendBlock (missingHeaderBytes req) sizeofU64 0 sizeofU64
    req.missingFingerprintHeaderOffset sock o
  some (r, { req with missingFingerprintHeaderOffset := offset }, sock)

/-- `process_send_missing_fingerprints`. -/
def processSendMissingFingerprints (req : DedupRecvReq) (sock : Socket) (o : Outcome) :
    Option (Int × DedupRecvReq × Socket) := do
  let (r, offset, sock) ← sendBlock req.missingFingerprintInds indsSize 0
    (req.numMissingFingerprints * sizeofU64 % 2 ^ 64) req.sendMissingFingerprintIndsOffset sock o
  some (r, { req with sendMissingFingerprintIndsOffset := offset }, sock)

/-- One iteration of `process_recv_missing_content`; none when its loop goes on.
The request holds the locals of the loop. -/
def processRecvMissingContent (req : DedupRecvReq) (sock : Socket) (o : Outcome) :
    Option (Option Int × DedupRecvReq × Socket) := do
  let i := req.curRecvContentInd
  if i < req.numMissingFingerprints then
    let slot ← getSlot req.missingFingerprintSlots i
    let ind ← missingInd req.missingFingerprintInds i
    let fp ← packagedFingerprint req.head ind
    let curRecvContentOffset := req.curRecvContentOffset
    let remainSize := u64Sub fp.contentSize curRecvContentOffset
    let (recvBytes, sock, appBuffer) ← recv sock o req.appBuffer req.size
      ((slot + curRecvContentOffset) % 2 ^ 64) remainSize
    match recvBytes with
    | none => some (some (failureReturn o.errno), req, sock)
    | some recvBytes =>
        let req := { req with
          appBuffer := appBuffer
          appFilledSize := (req.appFilledSize + recvBytes) % 2 ^ 64 }
        if recvBytes < remainSize then
          some (some 0, { req with
            curRecvContentInd := i
            curRecvContentOffset := curRecvContentOffset + recvBytes }, sock)
        else
          some (none, { req with curRecvContentInd := i + 1, curRecvContentOffset := 0 }, sock)
  else some (some 1, req, sock)

/-- `processs_insert_inbound_fingerprints` up to its loop. -/
def processsInsertInboundFingerprints (proc : Process) (trylock : Bool) : Nat ⊕ Int :=
  if proc.toSkipInsertCache then .inr 1
  else if trylock then .inl 0
  else .inr 0

/-- One iteration of the loop of `processs_insert_inbound_fingerprints`. -/
def insertInbound (proc : Process) (req : DedupRecvReq) (newEntry : FingerprintEntry) (i : Nat) :
    Option ((Nat ⊕ Int) × Process) := do
  if i < req.numMissingFingerprints then
    let ind ← missingInd req.missingFingerprintInds i
    let fp ← packagedFingerprint req.head ind
    let slot ← getSlot req.missingFingerprintSlots i
    let (ret, cache, _) ← insertFingerprint proc.globalFingerprintCache fp
      (read req.appBuffer slot (req.size - slot)) (some newEntry)
    if ret ≠ 0 then some (.inr 1, ⟨cache, true⟩)
    else some (.inl (i + 1), { proc with globalFingerprintCache := cache })
  else some (.inr 1, proc)

namespace RecvState

/-- A stage returned `r`; 1 moves on to `next`. -/
def advance (st : RecvState) (r : Int) (req : DedupRecvReq) (next : RecvReqStage) :
    Flow × RecvState :=
  if r = 1 then (.loop, { st with req := { req with stage := next } })
  else (.ret r, { st with req := req })

/-- A stage that only does socket input and output. -/
def socketStage (st : RecvState) (proc : Process)
    (stage : Option (Int × DedupRecvReq × Socket)) (next : DedupRecvReq → RecvReqStage) :
    Option (Flow × RecvState × Socket × Process) := do
  let (r, req, sock) ← stage
  let (flow, st) := st.advance r req (next req)
  some (flow, st, sock, proc)

/-- The populate stage goes on with its loop, or returns. -/
def afterPopulate (st : RecvState) (req : DedupRecvReq) : PopulateLocals ⊕ Int → Flow × RecvState
  | .inl locals => (.loop, { st with req := req, populating := some locals })
  | .inr r => { st with populating := none }.advance r req .sendMissingFingerprintHeader

/-- The insert stage goes on with its loop, or returns. -/
def afterInsert (st : RecvState) : Nat ⊕ Int → Flow × RecvState
  | .inl i => (.loop, { st with inserting := some i })
  | .inr r => { st with inserting := none }.advance r st.req .recvComplete

end RecvState

/-- The case of the `switch` in `process_recv` for one stage. -/
def processRecvStage (stage : RecvReqStage) (st : RecvState) (sock : Socket) (proc : Process)
    (choice : Choice) : Option (Flow × RecvState × Socket × Process) :=
  let req := st.req
  let o := choice.socket
  match stage with
  | .recvHeader =>
      st.socketStage proc (processRecvHeader req sock o) fun req =>
        if isFingerprint req.head then .recvFingerprintHeader else .recvRegData
  | .recvRegData =>
      st.socketStage proc (processRecvRegData req sock o) fun _ => .recvComplete
  | .recvFingerprintHeader =>
      st.socketStage proc (processRecvFingerprintHeader req sock o) fun _ =>
        .recvPackagedFingerprints
  | .recvPackagedFingerprints =>
      st.socketStage proc (processRecvPackagedFingerprints req sock o) fun _ =>
        .populateFromNetCache
  | .populateFromNetCache => do
      let locals := st.populating.getD populateStart
      let (next, cache, req) ← processPopulateFromNetCache proc.globalFingerprintCache req
        choice.uninit locals
      let (flow, st) := st.afterPopulate req next
      some (flow, st, sock, { proc with globalFingerprintCache := cache })
  | .sendMissingFingerprintHeader =>
      st.socketStage proc (processSendMissingFingerprintHeader req sock o) fun req =>
        if req.numMissingFingerprints = 0 then .recvComplete else .sendMissingFingerprints
  | .sendMissingFingerprints =>
      st.socketStage proc (processSendMissingFingerprints req sock o) fun _ => .recvMissingContent
  | .recvMissingContent => do
      let (r, req, sock) ← processRecvMissingContent req sock o
      match r with
      | none => some (.loop, { st with req := req }, sock, proc)
      | some r =>
          let (flow, st) := st.advance r req .insertInboundFingerprints
          some (flow, st, sock, proc)
  | .insertInboundFingerprints =>
      match st.inserting with
      | none =>
          let (flow, st) := st.afterInsert (processsInsertInboundFingerprints proc choice.trylock)
          some (flow, st, sock, proc)
      | some i => do
          let (next, proc) ← insertInbound proc req choice.uninit i
          let (flow, st) := st.afterInsert next
          some (flow, st, sock, proc)
  | .recvComplete => some (.ret 1, st, sock, proc)

/-- One step of `process_recv`. -/
def processRecv (st : RecvState) (sock : Socket) (proc : Process) (choice : Choice) :
    Option (Flow × RecvState × Socket × Process) :=
  processRecvStage st.req.stage st sock proc choice

end NetDedup.Transfer

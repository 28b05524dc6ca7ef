import NetDedup.Transfer.Fingerprints
import NetDedup.Transfer.HeaderTransfer
import NetDedup.Transfer.Stages

/-!
# The steps of the receiving party

One lemma for each stage of `process_recv`: under the bounds that the stage
relies on, what a step does to the request, the socket and the cache.
-/

namespace NetDedup.Transfer

open Chunking Memory Store

namespace RecvState

variable {st : RecvState} {proc : Process} {stage : Option (Int × DedupRecvReq × Socket)}
  {next : DedupRecvReq → RecvReqStage} {req : DedupRecvReq} {sock : Socket}

/-- The request moves on to another stage. -/
def goto (st : RecvState) (stage : RecvReqStage) : RecvState :=
  { st with req := { st.req with stage := stage } }

theorem socketStage_ret (h : stage = some (0, req, sock)) :
    st.socketStage proc stage next = some (.ret 0, { st with req := req }, sock, proc) := by
  rw [h]
  rfl

theorem socketStage_done (h : stage = some (1, req, sock)) :
    st.socketStage proc stage next =
      some (.loop, { st with req := { req with stage := next req } }, sock, proc) := by
  rw [h]
  rfl

end RecvState

variable {st : RecvState} {sock : Socket} {proc : Process} {choice : Choice}

theorem processRecv_at {stage : RecvReqStage} (h : st.req.stage = stage) :
    processRecv st sock proc choice = processRecvStage stage st sock proc choice := by
  rw [processRecv, h]

/-- The stage `recv_header`. -/
theorem processRecv_header (hstage : st.req.stage = .recvHeader)
    (hoffset : loadInt st.req.head generalHeader.offsetPos = 0)
    (hwhole : choice.socket.Whole generalHeader.size sock.inbound.length) :
    processRecv st sock proc choice = some (.ret 0, st, sock, proc) ∨
    (generalHeader.size ≤ sock.inbound.length ∧ ∃ req, req = { st.req with
        head := write st.req.head generalHeader.pos (sock.inbound.take generalHeader.size) } ∧
      processRecv st sock proc choice = some (.loop, { st with req := { req with
        stage := if isFingerprint req.head then .recvFingerprintHeader else .recvRegData } },
        sock.pull generalHeader.size, proc)) := by
  have hstep : processRecv st sock proc choice =
      st.socketStage proc (processRecvHeader st.req sock choice.socket) fun req =>
        if isFingerprint req.head then .recvFingerprintHeader else .recvRegData :=
    processRecv_at hstage
  rw [hstep]
  rcases recvHeaderField_whole generalHeader_ok hoffset hwhole with h | ⟨havail, h⟩
  · have hret : processRecvHeader st.req sock choice.socket = some (0, st.req, sock) := by
      unfold processRecvHeader
      rw [h, Option.bind_eq_bind, Option.bind_some]
    exact Or.inl (RecvState.socketStage_ret hret)
  · have hdone : processRecvHeader st.req sock choice.socket = some (1, { st.req with
        head := write st.req.head generalHeader.pos (sock.inbound.take generalHeader.size) },
        sock.pull generalHeader.size) := by
      unfold processRecvHeader
      rw [h, Option.bind_eq_bind, Option.bind_some, Socket.pull]
    exact Or.inr ⟨havail, _, rfl, RecvState.socketStage_done hdone⟩

/-- The stage `recv_fingerprint_header`. -/
theorem processRecv_fingerprintHeader (hstage : st.req.stage = .recvFingerprintHeader)
    (hoffset : loadInt st.req.head fingerprintHeader.offsetPos = 0)
    (hwhole : choice.socket.Whole fingerprintHeader.size sock.inbound.length) :
    processRecv st sock proc choice = some (.ret 0, st, sock, proc) ∨
    (fingerprintHeader.size ≤ sock.inbound.length ∧ ∃ req, req = initFingerprintRecv { st.req with
        head := write st.req.head fingerprintHeader.pos
          (sock.inbound.take fingerprintHeader.size) } ∧
      processRecv st sock proc choice = some (.loop, { st with req := { req with
        stage := .recvPackagedFingerprints } }, sock.pull fingerprintHeader.size, proc)) := by
  have hstep : processRecv st sock proc choice =
      st.socketStage proc (processRecvFingerprintHeader st.req sock choice.socket) fun _ =>
        .recvPackagedFingerprints :=
    processRecv_at hstage
  rw [hstep]
  rcases recvHeaderField_whole fingerprintHeader_ok hoffset hwhole with h | ⟨havail, h⟩
  · have hret : processRecvFingerprintHeader st.req sock choice.socket =
        some (0, st.req, sock) := by
      rw [processRecvFingerprintHeader_eq, h, Option.map_some]
      simp only [if_neg (show ¬ (0 : Int) = 1 by decide)]
    exact Or.inl (RecvState.socketStage_ret hret)
  · have hdone : processRecvFingerprintHeader st.req sock choice.socket = some (1,
        initFingerprintRecv { st.req with
          head := write st.req.head fingerprintHeader.pos
            (sock.inbound.take fingerprintHeader.size) }, sock.pull fingerprintHeader.size) := by
      rw [processRecvFingerprintHeader_eq, h, Option.map_some, Socket.pull]
      simp only [if_true]
    exact Or.inr ⟨havail, _, rfl, RecvState.socketStage_done hdone⟩

/-- `process_recv_reg_data` takes a part of the rest, or the rest. -/
theorem processRecvRegData_cases {req : DedupRecvReq} {o : Outcome} {size : Nat}
    (hsize : headerContentSize req.head = size) (hoffset : req.appOffset ≤ size)
    (hfit : size ≤ req.size) (hlt : req.size < 2 ^ 64) :
    (∃ n, req.appOffset + n ≤ size ∧ n ≤ sock.inbound.length ∧
      processRecvRegData req sock o = some (0, { req with
        appBuffer := write req.appBuffer req.appOffset (sock.inbound.take n)
        appOffset := req.appOffset + n }, sock.pull n)) ∨
    (size - req.appOffset ≤ sock.inbound.length ∧
      processRecvRegData req sock o = some (1, { req with
        appBuffer := write req.appBuffer req.appOffset
          (sock.inbound.take (size - req.appOffset))
        appOffset := size }, sock.pull (size - req.appOffset))) := by
  have hsub : u64Sub size req.appOffset = size - req.appOffset := u64Sub_of_le hoffset (by omega)
  have hin : ∀ n ≤ size - req.appOffset, InBounds req.size req.appOffset n :=
    fun n hn => Or.inr (by omega)
  unfold processRecvRegData
  rw [hsize]
  simp only [hsub]
  split
  · next hdone =>
    have heq : req.appOffset = size := by omega
    refine Or.inr ⟨by omega, ?_⟩
    rw [hdone, List.take_zero, write_nil, Socket.pull_zero, ← heq]
  · next hmore =>
    rcases @recv_cases sock o req.appBuffer _ _ _ hin with
      h | ⟨n, hn, havail, h⟩
    · refine Or.inl ⟨0, by omega, Nat.zero_le _, ?_⟩
      simp only [h, Option.bind_eq_bind, Option.bind_some, failureReturn_eq, List.take_zero,
        write_nil, Socket.pull_zero, Nat.add_zero]
    · have hmod : (req.appOffset + n) % 2 ^ 64 = req.appOffset + n := Nat.mod_eq_of_lt (by omega)
      simp only [h, Option.bind_eq_bind, Option.bind_some, hmod]
      split
      · exact Or.inl ⟨n, by omega, havail, rfl⟩
      · next hend =>
        obtain rfl : n = size - req.appOffset := by omega
        refine Or.inr ⟨havail, ?_⟩
        rw [Nat.add_sub_cancel' hoffset, Socket.pull]

/-- The stage `recv_reg_data`. -/
theorem processRecv_regData (hstage : st.req.stage = .recvRegData) {size : Nat}
    (hsize : headerContentSize st.req.head = size) (hoffset : st.req.appOffset ≤ size)
    (hfit : size ≤ st.req.size) (hlt : st.req.size < 2 ^ 64) :
    (∃ n, st.req.appOffset + n ≤ size ∧ n ≤ sock.inbound.length ∧
      processRecv st sock proc choice = some (.ret 0, { st with req := { st.req with
        appBuffer := write st.req.appBuffer st.req.appOffset (sock.inbound.take n)
        appOffset := st.req.appOffset + n } }, sock.pull n, proc)) ∨
    (size - st.req.appOffset ≤ sock.inbound.length ∧
      processRecv st sock proc choice = some (.loop, { st with req := { st.req with
        appBuffer := write st.req.appBuffer st.req.appOffset
          (sock.inbound.take (size - st.req.appOffset))
        appOffset := size
        stage := .recvComplete } }, sock.pull (size - st.req.appOffset), proc)) := by
  have hstep : processRecv st sock proc choice =
      st.socketStage proc (processRecvRegData st.req sock choice.socket) fun _ => .recvComplete :=
    processRecv_at hstage
  rw [hstep]
  rcases @processRecvRegData_cases sock _ choice.socket _ hsize hoffset hfit hlt with
    ⟨n, hn, havail, h⟩ | ⟨havail, h⟩
  · exact Or.inl ⟨n, hn, havail, RecvState.socketStage_ret h⟩
  · exact Or.inr ⟨havail, RecvState.socketStage_done h⟩

/-- The stage `recv_packaged_fingerprints`. -/
theorem processRecv_packaged (hstage : st.req.stage = .recvPackagedFingerprints)
    (hoffset : st.req.recvFingerprintOffset ≤ st.req.packagedFingerprintsSizeBytes)
    (hbytes : st.req.packagedFingerprintsSizeBytes ≤ maxFingerprintsPerReq * sizeofFingerprint) :
    (∃ n, st.req.recvFingerprintOffset + n ≤ st.req.packagedFingerprintsSizeBytes ∧
      n ≤ sock.inbound.length ∧
      processRecv st sock proc choice = some (.ret 0, { st with req := { st.req with
        head := write st.req.head (packagedPos + st.req.recvFingerprintOffset)
          (sock.inbound.take n)
        recvFingerprintOffset := st.req.recvFingerprintOffset + n } }, sock.pull n, proc)) ∨
    (st.req.packagedFingerprintsSizeBytes - st.req.recvFingerprintOffset ≤ sock.inbound.length ∧
      processRecv st sock proc choice = some (.loop, { st with req := { st.req with
        head := write st.req.head (packagedPos + st.req.recvFingerprintOffset)
          (sock.inbound.take
            (st.req.packagedFingerprintsSizeBytes - st.req.recvFingerprintOffset))
        stage := .populateFromNetCache } },
        sock.pull (st.req.packagedFingerprintsSizeBytes - st.req.recvFingerprintOffset),
        proc)) := by
  have hstep : processRecv st sock proc choice =
      st.socketStage proc (processRecvPackagedFingerprints st.req sock choice.socket) fun _ =>
        .populateFromNetCache :=
    processRecv_at hstage
  rw [hstep]
  rcases @recvBlock_cases st.req.head headSize _ _ _ sock choice.socket hoffset
      (Nat.lt_of_le_of_lt hbytes (by decide)) (Nat.add_le_add_left hbytes packagedPos) with
      ⟨n, hn, havail, h⟩ | ⟨havail, h⟩
  · have hret : processRecvPackagedFingerprints st.req sock choice.socket = some (0,
        { st.req with
          head := write st.req.head (packagedPos + st.req.recvFingerprintOffset)
            (sock.inbound.take n)
          recvFingerprintOffset := st.req.recvFingerprintOffset + n }, sock.pull n) := by
      simp only [processRecvPackagedFingerprints, h, Option.bind_eq_bind, Option.bind_some]
    exact Or.inl ⟨n, hn, havail, RecvState.socketStage_ret hret⟩
  · have hdone : processRecvPackagedFingerprints st.req sock choice.socket = some (1,
        { st.req with
          head := write st.req.head (packagedPos + st.req.recvFingerprintOffset)
            (sock.inbound.take
              (st.req.packagedFingerprintsSizeBytes - st.req.recvFingerprintOffset)) },
        sock.pull (st.req.packagedFingerprintsSizeBytes - st.req.recvFingerprintOffset)) := by
      simp only [processRecvPackagedFingerprints, h, Option.bind_eq_bind, Option.bind_some]
    exact Or.inr ⟨havail, RecvState.socketStage_done hdone⟩

section Populate

variable {locals : PopulateLocals} {fp : Fingerprint}

/-- A turn of the populate loop that finds nothing. -/
theorem processRecv_populateMiss (hstage : st.req.stage = .populateFromNetCache)
    (hlocals : st.populating.getD populateStart = locals) (hfound : locals.found = none)
    (hi : locals.i < numFingerprints st.req.head)
    (hfp : packagedFingerprint st.req.head locals.i = some fp)
    (hlookup : lookupFingerprint proc.globalFingerprintCache fp.fingerprint choice.uninit =
      (0, choice.uninit))
    (hfit : locals.numMissingFingerprints < maxFingerprintsPerReq) :
    processRecv st sock proc choice = some (.loop, { st with
      req := st.req.noteMissing locals.numMissingFingerprints locals.i locals.curAppBuffer
      populating := some (locals.miss fp) }, sock, proc) := by
  rw [processRecv_at hstage]
  unfold processRecvStage
  rw [hlocals]
  simp only [processPopulateFromNetCache, hfound, if_pos hi,
    lookupChunk_miss hfp hlookup hfit, Option.bind_eq_bind, Option.bind_some]
  rfl

/-- The lookup of a turn of the populate loop that finds an entry. -/
theorem processRecv_populateHit (hstage : st.req.stage = .populateFromNetCache)
    (hlocals : st.populating.getD populateStart = locals) (hfound : locals.found = none)
    (hi : locals.i < numFingerprints st.req.head)
    (hfp : packagedFingerprint st.req.head locals.i = some fp) {entry : FingerprintEntry}
    (hlookup : lookupFingerprint proc.globalFingerprintCache fp.fingerprint choice.uninit =
      (1, entry)) :
    processRecv st sock proc choice =
      some (.loop, { st with populating := some (locals.hit fp entry) }, sock, proc) := by
  rw [processRecv_at hstage]
  unfold processRecvStage
  rw [hlocals]
  simp only [processPopulateFromNetCache, hfound, if_pos hi, lookupChunk_hit hfp hlookup,
    Option.bind_eq_bind, Option.bind_some]
  rfl

/-- The copy of a turn of the populate loop. -/
theorem processRecv_populateCopy (hstage : st.req.stage = .populateFromNetCache)
    (hlocals : st.populating.getD populateStart = locals) {entry : FingerprintEntry}
    (hfound : locals.found = some entry)
    (hfp : packagedFingerprint st.req.head locals.i = some fp) {content : List UInt8}
    (hcontent : copyFingerprintContent proc.globalFingerprintCache entry = some content)
    (hbounds : InBounds st.req.size locals.curAppBuffer content.length) :
    processRecv st sock proc choice = some (.loop, { st with
      req := st.req.copied locals.curAppBuffer content fp
      populating := some (locals.copied fp) }, sock, proc) := by
  rw [processRecv_at hstage]
  unfold processRecvStage
  rw [hlocals]
  simp only [processPopulateFromNetCache, hfound, copyChunk_fits hfp hcontent hbounds,
    Option.bind_eq_bind, Option.bind_some]
  rfl

/-- The end of the populate loop. -/
theorem processRecv_populateEnd (hstage : st.req.stage = .populateFromNetCache)
    (hlocals : st.populating.getD populateStart = locals) (hfound : locals.found = none)
    (hi : numFingerprints st.req.head ≤ locals.i) :
    processRecv st sock proc choice = some (.loop,
      { st with
        req := { st.req with
          numMissingFingerprints := locals.numMissingFingerprints
          stage := .sendMissingFingerprintHeader }
        populating := none }, sock,
      { proc with globalFingerprintCache :=
        (finishPopulate proc.globalFingerprintCache st.req locals).1 }) := by
  rw [processRecv_at hstage]
  unfold processRecvStage
  rw [hlocals]
  simp only [processPopulateFromNetCache, hfound, if_neg (Nat.not_lt.mpr hi),
    Option.bind_eq_bind, Option.bind_some]
  rfl

end Populate

/-- Bytes of a stored number. -/
theorem read_storeU64_part {m : Mem} (v : Nat) {off n : Nat} (h : off + n ≤ sizeofU64) :
    read (storeU64 m 0 v) off n = ((leBytes sizeofU64 v).drop off).take n := by
  rw [← @read_storeU64 m 0 v, drop_read _ (by omega), take_read _ (by omega),
    Nat.zero_add]

/-- The stage `send_missing_fingerprint_header`. -/
theorem processRecv_missingHeader (hstage : st.req.stage = .sendMissingFingerprintHeader)
    (hoffset : st.req.missingFingerprintHeaderOffset ≤ sizeofU64) :
    (∃ n, st.req.missingFingerprintHeaderOffset + n ≤ sizeofU64 ∧
      processRecv st sock proc choice = some (.ret 0, { st with req := { st.req with
        missingFingerprintHeaderOffset := st.req.missingFingerprintHeaderOffset + n } },
        sock.push (((leBytes sizeofU64 st.req.numMissingFingerprints).drop
          st.req.missingFingerprintHeaderOffset).take n), proc)) ∨
    processRecv st sock proc choice = some (.loop, st.goto
      (if st.req.numMissingFingerprints = 0 then .recvComplete else .sendMissingFingerprints),
      sock.push (((leBytes sizeofU64 st.req.numMissingFingerprints).drop
        st.req.missingFingerprintHeaderOffset).take
          (sizeofU64 - st.req.missingFingerprintHeaderOffset)), proc) := by
  have hstep : processRecv st sock proc choice =
      st.socketStage proc (processSendMissingFingerprintHeader st.req sock choice.socket) fun req =>
        if req.numMissingFingerprints = 0 then .recvComplete else .sendMissingFingerprints :=
    processRecv_at hstage
  rw [hstep]
  rcases @sendBlock_cases (missingHeaderBytes st.req) sizeofU64 0 _ _ sock choice.socket hoffset
      (by decide) (by decide) with ⟨n, hn, h⟩ | h
  · rw [Nat.zero_add, missingHeaderBytes, read_storeU64_part _ hn] at h
    have hret : processSendMissingFingerprintHeader st.req sock choice.socket = some (0,
        { st.req with
          missingFingerprintHeaderOffset := st.req.missingFingerprintHeaderOffset + n },
        sock.push (((leBytes sizeofU64 st.req.numMissingFingerprints).drop
          st.req.missingFingerprintHeaderOffset).take n)) := by
      simp only [processSendMissingFingerprintHeader, missingHeaderBytes, h, Option.bind_eq_bind,
        Option.bind_some]
    exact Or.inl ⟨n, hn, RecvState.socketStage_ret hret⟩
  · rw [Nat.zero_add, missingHeaderBytes, read_storeU64_part _ (by omega)] at h
    have hdone : processSendMissingFingerprintHeader st.req sock choice.socket = some (1, st.req,
        sock.push (((leBytes sizeofU64 st.req.numMissingFingerprints).drop
          st.req.missingFingerprintHeaderOffset).take
            (sizeofU64 - st.req.missingFingerprintHeaderOffset))) := by
      simp only [processSendMissingFingerprintHeader, missingHeaderBytes, h, Option.bind_eq_bind,
        Option.bind_some]
    exact Or.inr (RecvState.socketStage_done hdone)

/-- The stage `send_missing_fingerprints`. -/
theorem processRecv_missing (hstage : st.req.stage = .sendMissingFingerprints)
    (hnum : st.req.numMissingFingerprints ≤ maxFingerprintsPerReq)
    (hoffset : st.req.sendMissingFingerprintIndsOffset ≤
      st.req.numMissingFingerprints * sizeofU64) :
    (∃ n, st.req.sendMissingFingerprintIndsOffset + n ≤ st.req.numMissingFingerprints * sizeofU64 ∧
      processRecv st sock proc choice = some (.ret 0, { st with req := { st.req with
        sendMissingFingerprintIndsOffset := st.req.sendMissingFingerprintIndsOffset + n } },
        sock.push (read st.req.missingFingerprintInds st.req.sendMissingFingerprintIndsOffset n),
        proc)) ∨
    processRecv st sock proc choice = some (.loop, st.goto .recvMissingContent,
      sock.push (read st.req.missingFingerprintInds st.req.sendMissingFingerprintIndsOffset
        (st.req.numMissingFingerprints * sizeofU64 - st.req.sendMissingFingerprintIndsOffset)),
      proc) := by
  have hbytes : st.req.numMissingFingerprints * sizeofU64 ≤ indsSize := Nat.mul_le_mul_right _ hnum
  have hlt : st.req.numMissingFingerprints * sizeofU64 < 2 ^ 64 :=
    Nat.lt_of_le_of_lt hbytes (by decide)
  have hstep : processRecv st sock proc choice =
      st.socketStage proc (processSendMissingFingerprints st.req sock choice.socket) fun _ =>
        .recvMissingContent :=
    processRecv_at hstage
  rw [hstep]
  rcases @sendBlock_cases st.req.missingFingerprintInds indsSize 0 _ _ sock choice.socket hoffset
      hlt (by rw [Nat.zero_add]; exact hbytes) with
    ⟨n, hn, h⟩ | h
  · have hret : processSendMissingFingerprints st.req sock choice.socket = some (0,
        { st.req with
          sendMissingFingerprintIndsOffset := st.req.sendMissingFingerprintIndsOffset + n },
        sock.push (read st.req.missingFingerprintInds
          st.req.sendMissingFingerprintIndsOffset n)) := by
      unfold processSendMissingFingerprints
      rw [Nat.mod_eq_of_lt hlt, h]
      simp only [Option.bind_eq_bind, Option.bind_some, Nat.zero_add]
    exact Or.inl ⟨n, hn, RecvState.socketStage_ret hret⟩
  · have hdone : processSendMissingFingerprints st.req sock choice.socket = some (1, st.req,
        sock.push (read st.req.missingFingerprintInds st.req.sendMissingFingerprintIndsOffset
          (st.req.numMissingFingerprints * sizeofU64 -
            st.req.sendMissingFingerprintIndsOffset))) := by
      unfold processSendMissingFingerprints
      rw [Nat.mod_eq_of_lt hlt, h]
      simp only [Option.bind_eq_bind, Option.bind_some, Nat.zero_add]
    exact Or.inr (RecvState.socketStage_done hdone)

/-- The end of the content loop. -/
theorem processRecv_contentEnd (hstage : st.req.stage = .recvMissingContent)
    (hi : st.req.numMissingFingerprints ≤ st.req.curRecvContentInd) :
    processRecv st sock proc choice =
      some (.loop, st.goto .insertInboundFingerprints, sock, proc) := by
  rw [processRecv_at hstage]
  simp only [processRecvStage, processRecvMissingContent, if_neg (Nat.not_lt.mpr hi),
    Option.bind_eq_bind, Option.bind_some]
  rfl

/-- A turn of the content loop, on the chunk of `fp` that belongs at `slot`. -/
theorem processRecv_content (hstage : st.req.stage = .recvMissingContent)
    (hi : st.req.curRecvContentInd < st.req.numMissingFingerprints) {ind slot : Nat}
    {fp : Fingerprint}
    (hslot : getSlot st.req.missingFingerprintSlots st.req.curRecvContentInd = some slot)
    (hind : missingInd st.req.missingFingerprintInds st.req.curRecvContentInd = some ind)
    (hfp : packagedFingerprint st.req.head ind = some fp)
    (hoffset : st.req.curRecvContentOffset ≤ fp.contentSize)
    (hfit : slot + fp.contentSize ≤ st.req.size) (hlt : st.req.size < 2 ^ 64) :
    (∃ n filled, st.req.curRecvContentOffset + n ≤ fp.contentSize ∧ n ≤ sock.inbound.length ∧
      processRecv st sock proc choice = some (.ret 0, { st with req := { st.req with
        appBuffer := write st.req.appBuffer (slot + st.req.curRecvContentOffset)
          (sock.inbound.take n)
        appFilledSize := filled
        curRecvContentOffset := st.req.curRecvContentOffset + n } }, sock.pull n, proc)) ∨
    (∃ filled, fp.contentSize - st.req.curRecvContentOffset ≤ sock.inbound.length ∧
      processRecv st sock proc choice = some (.loop, { st with req := { st.req with
        appBuffer := write st.req.appBuffer (slot + st.req.curRecvContentOffset)
          (sock.inbound.take (fp.contentSize - st.req.curRecvContentOffset))
        appFilledSize := filled
        curRecvContentInd := st.req.curRecvContentInd + 1
        curRecvContentOffset := 0 } },
        sock.pull (fp.contentSize - st.req.curRecvContentOffset), proc)) := by
  have hsub : u64Sub fp.contentSize st.req.curRecvContentOffset =
      fp.contentSize - st.req.curRecvContentOffset := u64Sub_of_le hoffset (by omega)
  have hpos : (slot + st.req.curRecvContentOffset) % 2 ^ 64 =
      slot + st.req.curRecvContentOffset := Nat.mod_eq_of_lt (by omega)
  have hin : ∀ n ≤ fp.contentSize - st.req.curRecvContentOffset,
      InBounds st.req.size (slot + st.req.curRecvContentOffset) n :=
    fun n hn => Or.inr (by omega)
  rw [processRecv_at hstage]
  simp only [processRecvStage, processRecvMissingContent, if_pos hi, hslot, hind, hfp, hsub, hpos,
    Option.bind_eq_bind, Option.bind_some]
  rcases @recv_cases sock choice.socket st.req.appBuffer _ _ _ hin with
    h | ⟨n, hn, havail, h⟩
  · refine Or.inl ⟨0, st.req.appFilledSize, hoffset, Nat.zero_le _, ?_⟩
    simp only [h, Option.bind_some, failureReturn_eq, List.take_zero, write_nil, Socket.pull_zero,
      Nat.add_zero]
    rfl
  · simp only [h, Option.bind_some]
    split
    · next hpart => exact Or.inl ⟨n, _, by omega, havail, rfl⟩
    · next hend =>
      obtain rfl : n = fp.contentSize - st.req.curRecvContentOffset := by omega
      exact Or.inr ⟨_, havail, rfl⟩

/-- The stage `insert_inbound_fingerprints` before its loop. -/
theorem processRecv_insertStart (hstage : st.req.stage = .insertInboundFingerprints)
    (hloop : st.inserting = none) :
    processRecv st sock proc choice = some (.ret 0, st, sock, proc) ∨
    processRecv st sock proc choice = some (.loop, st.goto .recvComplete, sock, proc) ∨
    processRecv st sock proc choice =
      some (.loop, { st with inserting := some 0 }, sock, proc) := by
  obtain ⟨req, populating, inserting⟩ := st
  simp only at hloop hstage
  subst hloop
  rw [processRecv_at hstage]
  simp only [processRecvStage, processsInsertInboundFingerprints]
  by_cases hskip : proc.toSkipInsertCache = true
  · rw [if_pos hskip]
    exact Or.inr (Or.inl rfl)
  · rw [if_neg hskip]
    by_cases hlock : choice.trylock = true
    · rw [if_pos hlock]
      exact Or.inr (Or.inr rfl)
    · rw [if_neg hlock]
      exact Or.inl rfl

/-- The end of the insert loop. -/
theorem processRecv_insertEnd (hstage : st.req.stage = .insertInboundFingerprints) {i : Nat}
    (hloop : st.inserting = some i) (hi : st.req.numMissingFingerprints ≤ i) :
    processRecv st sock proc choice =
      some (.loop, { st.goto .recvComplete with inserting := none }, sock, proc) := by
  rw [processRecv_at hstage]
  simp only [processRecvStage, hloop, insertInbound, if_neg (Nat.not_lt.mpr hi),
    Option.bind_eq_bind, Option.bind_some]
  rfl

/-- A turn of the insert loop. -/
theorem processRecv_insert (hstage : st.req.stage = .insertInboundFingerprints) {i : Nat}
    (hloop : st.inserting = some i) (hi : i < st.req.numMissingFingerprints) {ind slot : Nat}
    {fp : Fingerprint} (hind : missingInd st.req.missingFingerprintInds i = some ind)
    (hfp : packagedFingerprint st.req.head ind = some fp)
    (hslot : getSlot st.req.missingFingerprintSlots i = some slot) {r : Int}
    {cache : FingerprintCache} {entry : FingerprintEntry}
    (hins : insertFingerprint proc.globalFingerprintCache fp
      (read st.req.appBuffer slot (st.req.size - slot)) (some choice.uninit) =
        some (r, cache, entry)) :
    (r ≠ 0 ∧ processRecv st sock proc choice = some (.loop,
      { st.goto .recvComplete with inserting := none }, sock, ⟨cache, true⟩)) ∨
    (r = 0 ∧ processRecv st sock proc choice = some (.loop,
      { st with inserting := some (i + 1) }, sock,
      { proc with globalFingerprintCache := cache })) := by
  rw [processRecv_at hstage]
  simp only [processRecvStage, hloop, insertInbound, if_pos hi, hind, hfp, hslot, hins,
    Option.bind_eq_bind, Option.bind_some]
  by_cases hr : r = 0
  · refine Or.inr ⟨hr, ?_⟩
    rw [if_neg (not_not.mpr hr)]
    rfl
  · refine Or.inl ⟨hr, ?_⟩
    rw [if_pos hr]
    rfl

/-- A completed request stays as it is. -/
theorem processRecv_complete (hstage : st.req.stage = .recvComplete) :
    processRecv st sock proc choice = some (.ret 1, st, sock, proc) := by
  rw [processRecv_at hstage, processRecvStage]

end NetDedup.Transfer

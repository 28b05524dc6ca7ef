import NetDedup.Transfer.Fingerprints
import NetDedup.Transfer.HeaderTransfer
import NetDedup.Transfer.Stages

/-!
# The steps of the sending party

One lemma for each stage of `process_send`: under the bounds that the stage
relies on, what a step does to the request, the socket and the cache.
-/

namespace NetDedup.Transfer

open Chunking Memory Store

namespace SendState

variable {st : SendState} {proc : Process} {stage : Option (Int × DedupSendReq × Socket)}
  {next : DedupSendReq → SendReqStage} {req : DedupSendReq} {sock : Socket}

/-- The request moves on to another stage. -/
def goto (st : SendState) (stage : SendReqStage) : SendState :=
  { st with req := { st.req with stage := stage } }

theorem socketStage_ret (h : stage = some (0, req, sock)) :
    st.socketStage proc stage next = some (.ret 0, { st with req := req }, sock, proc) := by
  rw [h]
  rfl

theorem socketStage_done (h : stage = some (1, req, sock)) :
    st.socketStage proc stage next =
      some (.loop, { st with req := { req with stage := next req } }, sock, proc) := by
  rw [h]
  rfl

end SendState

variable {sha256 : List UInt8 → Digest} {st : SendState} {sock : Socket} {proc : Process}
  {choice : Choice}

theorem processSend_at {stage : SendReqStage} (h : st.req.stage = stage) :
    processSend sha256 st sock proc choice = processSendStage sha256 stage st sock proc choice := by
  rw [processSend, h]

/-- The stage `send_header`. -/
theorem processSend_header (hstage : st.req.stage = .sendHeader)
    (hoffset : loadInt st.req.head generalHeader.offsetPos = 0)
    (hwhole : choice.socket.Whole generalHeader.size generalHeader.size) :
    processSend sha256 st sock proc choice = some (.ret 0, st, sock, proc) ∨
    processSend sha256 st sock proc choice = some (.loop, st.goto
      (if isFingerprint st.req.head then .computeFingerprints else .sendRegData),
      sock.push (read st.req.head generalHeader.pos generalHeader.size), proc) := by
  have hstep : processSend sha256 st sock proc choice =
      st.socketStage proc (processSendHeader st.req sock choice.socket) fun req =>
        if isFingerprint req.head then .computeFingerprints else .sendRegData :=
    processSend_at hstage
  rw [hstep]
  rcases @sendHeaderField_whole _ generalHeader_ok _ sock _ hoffset _ hwhole with h | h
  · have hret : processSendHeader st.req sock choice.socket = some (0, st.req, sock) := by
      rw [processSendHeader_eq, h, Option.map_some]
    exact Or.inl (SendState.socketStage_ret hret)
  · have hdone : processSendHeader st.req sock choice.socket = some (1, st.req,
        sock.push (read st.req.head generalHeader.pos generalHeader.size)) := by
      rw [processSendHeader_eq, h, Option.map_some, Socket.push]
    exact Or.inr (SendState.socketStage_done hdone)

/-- The stage `send_fingerprint_header`. -/
theorem processSend_fingerprintHeader (hstage : st.req.stage = .sendFingerprintHeader)
    (hoffset : loadInt st.req.head fingerprintHeader.offsetPos = 0)
    (hwhole : choice.socket.Whole fingerprintHeader.size fingerprintHeader.size) :
    processSend sha256 st sock proc choice = some (.ret 0, st, sock, proc) ∨
    processSend sha256 st sock proc choice = some (.loop, st.goto .sendPackagedFingerprints,
      sock.push (read st.req.head fingerprintHeader.pos fingerprintHeader.size), proc) := by
  have hstep : processSend sha256 st sock proc choice =
      st.socketStage proc (processSendFingerprintHeader st.req sock choice.socket) fun _ =>
        .sendPackagedFingerprints :=
    processSend_at hstage
  rw [hstep]
  rcases @sendHeaderField_whole _ fingerprintHeader_ok _ sock _ hoffset _ hwhole with h | h
  · have hret :
        processSendFingerprintHeader st.req sock choice.socket = some (0, st.req, sock) := by
      rw [processSendFingerprintHeader_eq, h, Option.map_some]
    exact Or.inl (SendState.socketStage_ret hret)
  · have hdone : processSendFingerprintHeader st.req sock choice.socket = some (1, st.req,
        sock.push (read st.req.head fingerprintHeader.pos fingerprintHeader.size)) := by
      rw [processSendFingerprintHeader_eq, h, Option.map_some, Socket.push]
    exact Or.inr (SendState.socketStage_done hdone)

/-- Bytes of the message as the socket reads them. -/
theorem read_data (data : List UInt8) {pos n : Nat} (h : pos + n ≤ data.length) :
    read (fun i => data.getD i 0) pos n = (data.drop pos).take n := by
  refine List.ext_getElem (by simp; omega) fun i hi _ => ?_
  have hn : i < n := by simpa using hi
  simp only [Memory.read, List.getElem_map, List.getElem_range, List.getElem_take,
    List.getElem_drop, List.getD_eq_getElem?_getD,
    List.getElem?_eq_getElem (show pos + i < data.length by omega), Option.getD_some]

/-- `process_send_reg_data` sends a part of the rest, or the rest. -/
theorem processSendRegData_cases {req : DedupSendReq} {o : Outcome}
    (hoffset : req.offset ≤ req.size) (hsize : req.size = req.data.length)
    (hlt : req.data.length < 2 ^ 64) :
    (∃ n, req.offset + n ≤ req.data.length ∧ processSendRegData req sock o =
      some (0, { req with offset := req.offset + n },
        sock.push ((req.data.drop req.offset).take n))) ∨
    processSendRegData req sock o =
      some (1, { req with offset := req.data.length }, sock.push (req.data.drop req.offset)) := by
  have hsub : u64Sub req.size req.offset = req.data.length - req.offset := by
    rw [hsize]
    exact u64Sub_of_le (by omega) hlt
  have hin : ∀ n ≤ req.data.length - req.offset, InBounds req.data.length req.offset n :=
    fun n hn => Or.inr (by omega)
  unfold processSendRegData
  rw [hsub]
  simp only
  split
  · next hdone =>
    have heq : req.offset = req.data.length := by omega
    rw [List.drop_eq_nil_of_le (Nat.le_of_eq heq.symm), Socket.push_nil, ← heq]
    exact Or.inr rfl
  · next hmore =>
    rcases @send_cases sock o (fun i => req.data.getD i 0) _ _ _ hin with
      h | ⟨n, hn, h⟩
    · refine Or.inl ⟨0, by omega, ?_⟩
      simp only [h, Option.bind_eq_bind, Option.bind_some, failureReturn_eq, List.take_zero,
        Socket.push_nil, Nat.add_zero]
    · have hmod : (req.offset + n) % 2 ^ 64 = req.offset + n := Nat.mod_eq_of_lt (by omega)
      rw [read_data _ (by omega)] at h
      simp only [h, Option.bind_eq_bind, Option.bind_some, hmod]
      split
      · exact Or.inl ⟨n, by omega, rfl⟩
      · next hend =>
        have heq : req.offset + n = req.data.length := by omega
        rw [← heq, List.take_of_length_le (by rw [List.length_drop]; omega)]
        exact Or.inr rfl

/-- The stage `send_reg_data`. -/
theorem processSend_regData (hstage : st.req.stage = .sendRegData)
    (hoffset : st.req.offset ≤ st.req.size) (hsize : st.req.size = st.req.data.length)
    (hlt : st.req.data.length < 2 ^ 64) :
    (∃ n, st.req.offset + n ≤ st.req.data.length ∧
      processSend sha256 st sock proc choice = some (.ret 0,
        { st with req := { st.req with offset := st.req.offset + n } },
        sock.push ((st.req.data.drop st.req.offset).take n), proc)) ∨
    processSend sha256 st sock proc choice = some (.loop,
      { st with req := { st.req with offset := st.req.data.length, stage := .sendComplete } },
      sock.push (st.req.data.drop st.req.offset), proc) := by
  have hstep : processSend sha256 st sock proc choice =
      st.socketStage proc (processSendRegData st.req sock choice.socket) fun _ => .sendComplete :=
    processSend_at hstage
  rw [hstep]
  rcases @processSendRegData_cases sock _ choice.socket hoffset hsize hlt with
    ⟨n, hn, h⟩ | h
  · exact Or.inl ⟨n, hn, SendState.socketStage_ret h⟩
  · exact Or.inr (SendState.socketStage_done h)

/-- The stage `compute_fingerprints`. -/
theorem processSend_compute (hstage : st.req.stage = .computeFingerprints) {req : DedupSendReq}
    (h : processComputeFingerprints sha256 proc.globalFingerprintCache.fingerprintingSettings
        st.req =
      some (1, req)) :
    processSend sha256 st sock proc choice =
      some (.loop, { st with req := { req with stage := .insertOutboundFingerprints } }, sock,
        proc) := by
  rw [processSend_at hstage]
  simp only [processSendStage, h, Option.bind_eq_bind, Option.bind_some, SendState.advance, if_true]

/-- The stage `insert_outbound_fingerprints` before its loop. -/
theorem processSend_insertStart (hstage : st.req.stage = .insertOutboundFingerprints)
    (hloop : st.inserting = none) :
    processSend sha256 st sock proc choice = some (.ret 0, st, sock, proc) ∨
    processSend sha256 st sock proc choice = some
        (.loop, st.goto .sendFingerprintHeader, sock, proc) ∨
    processSend sha256 st sock proc choice =
      some (.loop, { st with inserting := some (0, 0) }, sock, proc) := by
  obtain ⟨req, inserting⟩ := st
  simp only at hloop hstage
  subst hloop
  rw [processSend_at hstage]
  simp only [processSendStage, processInsertOutboundFingerprints]
  by_cases hskip : proc.toSkipInsertCache = true
  · rw [if_pos hskip]
    exact Or.inr (Or.inl rfl)
  · rw [if_neg hskip]
    by_cases hlock : choice.trylock = true
    · rw [if_pos hlock]
      exact Or.inr (Or.inr rfl)
    · rw [if_neg hlock]
      exact Or.inl rfl

/-- The end of the insert loop. -/
theorem processSend_insertEnd (hstage : st.req.stage = .insertOutboundFingerprints) {i cur : Nat}
    (hloop : st.inserting = some (i, cur)) (hi : numFingerprints st.req.head ≤ i) :
    processSend sha256 st sock proc choice =
      some (.loop, { st.goto .sendFingerprintHeader with inserting := none }, sock, proc) := by
  rw [processSend_at hstage]
  simp only
      [processSendStage, hloop, insertOutbound, if_neg (Nat.not_lt.mpr hi), Option.bind_eq_bind,
    Option.bind_some]
  rfl

/-- A turn of the insert loop. -/
theorem processSend_insert (hstage : st.req.stage = .insertOutboundFingerprints) {i cur : Nat}
    (hloop : st.inserting = some (i, cur)) (hi : i < numFingerprints st.req.head) {fp : Fingerprint}
    (hfp : packagedFingerprint st.req.head i = some fp) {r : Int} {cache : FingerprintCache}
    {entry : FingerprintEntry}
    (hins : insertFingerprint proc.globalFingerprintCache fp (st.req.data.drop cur)
      (some choice.uninit) = some (r, cache, entry)) :
    (r ≠ 0 ∧ processSend sha256 st sock proc choice = some (.loop,
      { st.goto .sendFingerprintHeader with inserting := none }, sock, ⟨cache, true⟩)) ∨
    (r = 0 ∧ processSend sha256 st sock proc choice = some (.loop,
      { st with inserting := some (i + 1, (cur + fp.contentSize) % 2 ^ 64) }, sock,
      { proc with globalFingerprintCache := cache })) := by
  rw [processSend_at hstage]
  simp only [processSendStage, hloop, insertOutbound, if_pos hi, hfp, hins, Option.bind_eq_bind,
    Option.bind_some]
  by_cases hr : r = 0
  · refine Or.inr ⟨hr, ?_⟩
    rw [if_neg (not_not.mpr hr)]
    rfl
  · refine Or.inl ⟨hr, ?_⟩
    rw [if_pos hr]
    rfl

/-- The stage `send_packaged_fingerprints`. -/
theorem processSend_packaged (hstage : st.req.stage = .sendPackagedFingerprints)
    (hoffset : st.req.sendFingerprintOffset ≤ st.req.packagedFingerprintsSizeBytes)
    (hbytes : st.req.packagedFingerprintsSizeBytes ≤ maxFingerprintsPerReq * sizeofFingerprint) :
    (∃ n, st.req.sendFingerprintOffset + n ≤ st.req.packagedFingerprintsSizeBytes ∧
      processSend sha256 st sock proc choice = some (.ret 0,
        { st with req := { st.req with sendFingerprintOffset := st.req.sendFingerprintOffset + n }
            },
        sock.push (read st.req.head (packagedPos + st.req.sendFingerprintOffset) n), proc)) ∨
    processSend sha256 st sock proc choice = some (.loop, st.goto .recvMissingFingerprintHeader,
      sock.push (read st.req.head (packagedPos + st.req.sendFingerprintOffset)
        (st.req.packagedFingerprintsSizeBytes - st.req.sendFingerprintOffset)), proc) := by
  have hstep : processSend sha256 st sock proc choice =
      st.socketStage proc (processSendPackagedFingerprints st.req sock choice.socket) fun _ =>
        .recvMissingFingerprintHeader :=
    processSend_at hstage
  rw [hstep]
  rcases @sendBlock_cases st.req.head headSize _ _ _ sock choice.socket hoffset
      (Nat.lt_of_le_of_lt hbytes (by decide)) (Nat.add_le_add_left hbytes packagedPos) with
      ⟨n, hn, h⟩ | h
  · have hret : processSendPackagedFingerprints st.req sock choice.socket = some (0,
        { st.req with sendFingerprintOffset := st.req.sendFingerprintOffset + n },
        sock.push (read st.req.head (packagedPos + st.req.sendFingerprintOffset) n)) := by
      simp only [processSendPackagedFingerprints, h, Option.bind_eq_bind, Option.bind_some]
    exact Or.inl ⟨n, hn, SendState.socketStage_ret hret⟩
  · have hdone : processSendPackagedFingerprints st.req sock choice.socket = some (1, st.req,
        sock.push (read st.req.head (packagedPos + st.req.sendFingerprintOffset)
          (st.req.packagedFingerprintsSizeBytes - st.req.sendFingerprintOffset))) := by
      simp only [processSendPackagedFingerprints, h, Option.bind_eq_bind, Option.bind_some]
    exact Or.inr (SendState.socketStage_done hdone)

/-- The stage `recv_missing_fingerprint_header`. -/
theorem processSend_missingHeader (hstage : st.req.stage = .recvMissingFingerprintHeader)
    (hoffset : st.req.missingFingerprintHeaderOffset ≤ sizeofU64) :
    (∃ n, st.req.missingFingerprintHeaderOffset + n ≤ sizeofU64 ∧ n ≤ sock.inbound.length ∧
      processSend sha256 st sock proc choice = some (.ret 0, { st with req := { st.req with
        missingFingerprintHeader := write st.req.missingFingerprintHeader
          st.req.missingFingerprintHeaderOffset (sock.inbound.take n)
        missingFingerprintHeaderOffset := st.req.missingFingerprintHeaderOffset + n } },
        sock.pull n, proc)) ∨
    (sizeofU64 - st.req.missingFingerprintHeaderOffset ≤ sock.inbound.length ∧
      ∃ req, req = { st.req with
          missingFingerprintHeader := write st.req.missingFingerprintHeader
            st.req.missingFingerprintHeaderOffset
            (sock.inbound.take (sizeofU64 - st.req.missingFingerprintHeaderOffset)) } ∧
        processSend sha256 st sock proc choice = some (.loop, { st with req := { req with
          stage := if req.numMissing = 0 then .sendComplete else .recvMissingFingerprints } },
          sock.pull (sizeofU64 - st.req.missingFingerprintHeaderOffset), proc)) := by
  have hstep : processSend sha256 st sock proc choice =
      st.socketStage proc (processRecvMissingFingerprintHeader st.req sock choice.socket) fun req =>
        if req.numMissing = 0 then .sendComplete else .recvMissingFingerprints :=
    processSend_at hstage
  rw [hstep]
  rcases @recvBlock_cases st.req.missingFingerprintHeader sizeofU64 0 _ _ sock choice.socket hoffset
      (by decide) (by decide) with
    ⟨n, hn, havail, h⟩ | ⟨havail, h⟩
  · have hret : processRecvMissingFingerprintHeader st.req sock choice.socket = some (0,
        { st.req with
          missingFingerprintHeader := write st.req.missingFingerprintHeader
            st.req.missingFingerprintHeaderOffset (sock.inbound.take n)
          missingFingerprintHeaderOffset := st.req.missingFingerprintHeaderOffset + n },
        sock.pull n) := by
      simp only [processRecvMissingFingerprintHeader, h, Option.bind_eq_bind, Option.bind_some,
        Nat.zero_add]
    exact Or.inl ⟨n, hn, havail, SendState.socketStage_ret hret⟩
  · have hdone : processRecvMissingFingerprintHeader st.req sock choice.socket = some (1,
        { st.req with
          missingFingerprintHeader := write st.req.missingFingerprintHeader
            st.req.missingFingerprintHeaderOffset (sock.inbound.take
              (sizeofU64 - st.req.missingFingerprintHeaderOffset)) },
        sock.pull (sizeofU64 - st.req.missingFingerprintHeaderOffset)) := by
      simp only [processRecvMissingFingerprintHeader, h, Option.bind_eq_bind, Option.bind_some,
        Nat.zero_add]
    exact Or.inr ⟨havail, _, rfl, SendState.socketStage_done hdone⟩

/-- The stage `recv_missing_fingerprints`. -/
theorem processSend_missing (hstage : st.req.stage = .recvMissingFingerprints)
    (hnum : st.req.numMissing ≤ maxFingerprintsPerReq)
    (hoffset : st.req.recvMissingFingerprintIndsOffset ≤ st.req.numMissing * sizeofU64) :
    (∃ n, st.req.recvMissingFingerprintIndsOffset + n ≤ st.req.numMissing * sizeofU64 ∧
      n ≤ sock.inbound.length ∧
      processSend sha256 st sock proc choice = some (.ret 0, { st with req := { st.req with
        missingFingerprintInds := write st.req.missingFingerprintInds
          st.req.recvMissingFingerprintIndsOffset (sock.inbound.take n)
        recvMissingFingerprintIndsOffset := st.req.recvMissingFingerprintIndsOffset + n } },
        sock.pull n, proc)) ∨
    (st.req.numMissing * sizeofU64 - st.req.recvMissingFingerprintIndsOffset ≤ sock.inbound.length ∧
      processSend sha256 st sock proc choice = some (.loop, { st with req := { st.req with
        missingFingerprintInds := write st.req.missingFingerprintInds
          st.req.recvMissingFingerprintIndsOffset (sock.inbound.take
            (st.req.numMissing * sizeofU64 - st.req.recvMissingFingerprintIndsOffset))
        stage := .sendMissingContent } },
        sock.pull (st.req.numMissing * sizeofU64 - st.req.recvMissingFingerprintIndsOffset),
        proc)) := by
  have hbytes : st.req.numMissing * sizeofU64 ≤ indsSize := Nat.mul_le_mul_right _ hnum
  have hlt : st.req.numMissing * sizeofU64 < 2 ^ 64 := Nat.lt_of_le_of_lt hbytes (by decide)
  have hstep : processSend sha256 st sock proc choice =
      st.socketStage proc (processRecvMissingFingerprints st.req sock choice.socket) fun _ =>
        .sendMissingContent :=
    processSend_at hstage
  rw [hstep]
  rcases @recvBlock_cases st.req.missingFingerprintInds indsSize 0 _ _ sock choice.socket hoffset
      hlt (by rw [Nat.zero_add]; exact hbytes) with
    ⟨n, hn, havail, h⟩ | ⟨havail, h⟩
  · have hret : processRecvMissingFingerprints st.req sock choice.socket = some (0,
        { st.req with
          missingFingerprintInds := write st.req.missingFingerprintInds
            st.req.recvMissingFingerprintIndsOffset (sock.inbound.take n)
          recvMissingFingerprintIndsOffset := st.req.recvMissingFingerprintIndsOffset + n },
        sock.pull n) := by
      unfold processRecvMissingFingerprints
      rw [Nat.mod_eq_of_lt hlt, h]
      simp only [Option.bind_eq_bind, Option.bind_some, Nat.zero_add]
    exact Or.inl ⟨n, hn, havail, SendState.socketStage_ret hret⟩
  · have hdone : processRecvMissingFingerprints st.req sock choice.socket = some (1,
        { st.req with
          missingFingerprintInds := write st.req.missingFingerprintInds
            st.req.recvMissingFingerprintIndsOffset (sock.inbound.take
              (st.req.numMissing * sizeofU64 - st.req.recvMissingFingerprintIndsOffset)) },
        sock.pull (st.req.numMissing * sizeofU64 - st.req.recvMissingFingerprintIndsOffset)) := by
      unfold processRecvMissingFingerprints
      rw [Nat.mod_eq_of_lt hlt, h]
      simp only [Option.bind_eq_bind, Option.bind_some, Nat.zero_add]
    exact Or.inr ⟨havail, SendState.socketStage_done hdone⟩

/-- The end of the reply loop. -/
theorem processSend_contentEnd (hstage : st.req.stage = .sendMissingContent)
    (hi : st.req.numMissing ≤ st.req.curReplyContentFingerprintInd) :
    processSend sha256 st sock proc choice =
      some (.loop, st.goto .sendComplete, sock, proc) := by
  rw [processSend_at hstage]
  simp only
      [processSendStage, processSendMissingContent, if_neg (Nat.not_lt.mpr hi), Option.bind_eq_bind,
    Option.bind_some]
  rfl

/-- A turn of the reply loop, on the chunk of `fp` that starts at `start`. -/
theorem processSend_content (hstage : st.req.stage = .sendMissingContent)
    (hi : st.req.curReplyContentFingerprintInd < st.req.numMissing) {ind start : Nat}
    {fp : Fingerprint}
    (hind : missingInd st.req.missingFingerprintInds st.req.curReplyContentFingerprintInd = some
        ind)
    (hstart : getSlot st.req.fingerprintOffsets ind = some start)
    (hfp : packagedFingerprint st.req.head ind = some fp)
    (hoffset : st.req.curReplyContentFingerprintOffset ≤ fp.contentSize)
    (hfit : start + fp.contentSize ≤ st.req.data.length) (hlt : st.req.data.length < 2 ^ 64) :
    (∃ n, st.req.curReplyContentFingerprintOffset + n ≤ fp.contentSize ∧
      processSend sha256 st sock proc choice = some (.ret 0, { st with req := { st.req with
        curReplyContentFingerprintOffset := st.req.curReplyContentFingerprintOffset + n } },
        sock.push ((st.req.data.drop (start + st.req.curReplyContentFingerprintOffset)).take n),
        proc)) ∨
    processSend sha256 st sock proc choice = some (.loop, { st with req := { st.req with
      curReplyContentFingerprintInd := st.req.curReplyContentFingerprintInd + 1
      curReplyContentFingerprintOffset := 0 } },
      sock.push ((st.req.data.drop (start + st.req.curReplyContentFingerprintOffset)).take
        (fp.contentSize - st.req.curReplyContentFingerprintOffset)), proc) := by
  have hsub : u64Sub fp.contentSize st.req.curReplyContentFingerprintOffset =
      fp.contentSize - st.req.curReplyContentFingerprintOffset := u64Sub_of_le hoffset (by omega)
  have hpos : (start + st.req.curReplyContentFingerprintOffset) % 2 ^ 64 =
      start + st.req.curReplyContentFingerprintOffset := Nat.mod_eq_of_lt (by omega)
  have hin : ∀ n ≤ fp.contentSize - st.req.curReplyContentFingerprintOffset,
      InBounds st.req.data.length (start + st.req.curReplyContentFingerprintOffset) n :=
    fun n hn => Or.inr (by omega)
  rw [processSend_at hstage]
  simp only [processSendStage, processSendMissingContent, if_pos hi, hind, hstart, hfp, hsub, hpos,
    Option.bind_eq_bind, Option.bind_some]
  rcases @send_cases sock choice.socket (fun i => st.req.data.getD i 0) _ _ _ hin with h |
      ⟨n, hn, h⟩
  · refine Or.inl ⟨0, hoffset, ?_⟩
    simp only [h, Option.bind_some, failureReturn_eq, List.take_zero, Socket.push_nil,
      Nat.add_zero]
    rfl
  · rw [read_data _ (by omega)] at h
    simp only [h, Option.bind_some]
    split
    · next hpart =>
      exact Or.inl ⟨n, by omega, rfl⟩
    · next hend =>
      obtain rfl : n = fp.contentSize - st.req.curReplyContentFingerprintOffset := by omega
      exact Or.inr rfl

/-- A completed request stays as it is. -/
theorem processSend_complete (hstage : st.req.stage = .sendComplete) :
    processSend sha256 st sock proc choice = some (.ret 1, st, sock, proc) := by
  rw [processSend_at hstage, processSendStage]

end NetDedup.Transfer

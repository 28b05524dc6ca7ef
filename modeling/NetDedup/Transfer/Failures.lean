import NetDedup.Store.CacheRuns
import NetDedup.Transfer.SocketCalls

/-!
# Failing socket calls

Every stage tests a failure with `(errno = EAGAIN) || ..`, which assigns, and
takes an end of file for a short count. So no failure of a connection is ever
reported, and a call that would block leaves the request as it was.
-/

namespace NetDedup.Transfer

open Chunking Memory Store

/-- The socket call that the next step of `process_send` makes. -/
def DedupSendReq.call (req : DedupSendReq) : Option StageCall :=
  match req.stage with
  | .sendHeader => some (.ofHeader false generalHeader req.head)
  | .sendRegData =>
      if u64Sub req.size req.offset = 0 then none
      else some (.ofBlock false (fun i => req.data.getD i 0) req.data.length 0 req.size req.offset)
  | .computeFingerprints => none
  | .insertOutboundFingerprints => none
  | .sendFingerprintHeader => some (.ofHeader false fingerprintHeader req.head)
  | .sendPackagedFingerprints =>
      some (.ofBlock false req.head headSize packagedPos req.packagedFingerprintsSizeBytes
        req.sendFingerprintOffset)
  | .recvMissingFingerprintHeader =>
      some (.ofBlock true req.missingFingerprintHeader sizeofU64 0 sizeofU64
        req.missingFingerprintHeaderOffset)
  | .recvMissingFingerprints =>
      some (.ofBlock true req.missingFingerprintInds indsSize 0
        (req.numMissing * sizeofU64 % 2 ^ 64) req.recvMissingFingerprintIndsOffset)
  | .sendMissingContent => do
      let i := req.curReplyContentFingerprintInd
      if i < req.numMissing then
        let replyInd ← missingInd req.missingFingerprintInds i
        let fingerprintOffset ← getSlot req.fingerprintOffsets replyInd
        let fp ← packagedFingerprint req.head replyInd
        some (.ofBlock false (fun i => req.data.getD i 0) req.data.length fingerprintOffset
          fp.contentSize req.curReplyContentFingerprintOffset)
      else none
  | .sendComplete => none

/-- The socket call that the next step of `process_recv` makes. -/
def DedupRecvReq.call (req : DedupRecvReq) : Option StageCall :=
  match req.stage with
  | .recvHeader => some (.ofHeader true generalHeader req.head)
  | .recvRegData =>
      if u64Sub (headerContentSize req.head) req.appOffset = 0 then none
      else some (.ofBlock true req.appBuffer req.size 0 (headerContentSize req.head) req.appOffset)
  | .recvFingerprintHeader => some (.ofHeader true fingerprintHeader req.head)
  | .recvPackagedFingerprints =>
      some (.ofBlock true req.head headSize packagedPos req.packagedFingerprintsSizeBytes
        req.recvFingerprintOffset)
  | .populateFromNetCache => none
  | .sendMissingFingerprintHeader =>
      some (.ofBlock false (missingHeaderBytes req) sizeofU64 0 sizeofU64
        req.missingFingerprintHeaderOffset)
  | .sendMissingFingerprints =>
      some (.ofBlock false req.missingFingerprintInds indsSize 0
        (req.numMissingFingerprints * sizeofU64 % 2 ^ 64) req.sendMissingFingerprintIndsOffset)
  | .recvMissingContent => do
      let i := req.curRecvContentInd
      if i < req.numMissingFingerprints then
        let slot ← getSlot req.missingFingerprintSlots i
        let ind ← missingInd req.missingFingerprintInds i
        let fp ← packagedFingerprint req.head ind
        some (.ofBlock true req.appBuffer req.size slot fp.contentSize req.curRecvContentOffset)
      else none
  | .insertInboundFingerprints => none
  | .recvComplete => none

section Makes

variable {S : Type} (process : S → Socket → Process → Choice →
  Option (Flow × S × Socket × Process)) (call : S → Option StageCall)

/-- A step makes its call and treats the result as every stage does: `saved n
bs` is what comes of `n` bytes moved, those of `bs` when they were received. -/
structure MakesCall (st : S) (c : StageCall) (saved : Nat → List UInt8 → Flow × S) : Prop where
  step : ∀ sock proc choice, process st sock proc choice =
    some ((c.result choice.socket sock).elim
      (.ret (failureReturn choice.socket.errno), st, sock, proc) fun n =>
        ((saved n (sock.inbound.take n)).1, (saved n (sock.inbound.take n)).2, c.after sock n,
          proc))
  short : ∀ n bs, n < c.len → (saved n bs).1 = .ret 0
  progress : ∀ n bs, n < c.len → (c.isRecv = true → bs.length = n) → c.Resumes →
    ∃ c', call (saved n bs).2 = some c' ∧ c.Progressed c' n

end Makes

section Send

variable {sha256 : List UInt8 → Digest} {st : SendState} {c : StageCall}

/-- The call of a stage that only does socket input and output. -/
theorem SendState.makesCall (next : DedupSendReq → SendReqStage)
    (stage : Socket → Outcome → Option (Int × DedupSendReq × Socket))
    (saved : Nat → List UInt8 → DedupSendReq)
    (hprocess : ∀ sock proc choice, processSend sha256 st sock proc choice =
      st.socketStage proc (stage sock choice.socket) next)
    (hstage : ∀ sock o, stage sock o =
      some ((c.result o sock).elim (failureReturn o.errno, st.req, sock) fun n =>
        (if n < c.len then 0 else 1, saved n (sock.inbound.take n), c.after sock n)))
    (hprogress : ∀ n bs, n < c.len → (c.isRecv = true → bs.length = n) → c.Resumes →
      ∃ c', (saved n bs).call = some c' ∧ c.Progressed c' n) :
    ∃ saved, MakesCall (processSend sha256) (·.req.call) st c saved := by
  refine ⟨fun n bs => st.advance (if n < c.len then 0 else 1) (saved n bs) (next (saved n bs)),
    fun sock proc choice => ?_, fun n bs hn => ?_, fun n bs hn hbs hresumes => ?_⟩
  · rw [hprocess, SendState.socketStage, hstage]
    cases c.result choice.socket sock <;> rfl
  · rw [if_pos hn]
    rfl
  · rw [if_pos hn]
    exact hprogress n bs hn hbs hresumes

/-- `process_send_reg_data` with bytes left to send. -/
theorem processSendRegData_eq {req : DedupSendReq}
    (hc : c = .ofBlock false (fun i => req.data.getD i 0) req.data.length 0 req.size req.offset)
    (hv : c.Valid) (hrest : u64Sub req.size req.offset ≠ 0) (sock : Socket) (o : Outcome) :
    processSendRegData req sock o =
      some ((c.result o sock).elim (failureReturn o.errno, req, sock) fun n =>
        (if n < c.len then 0 else 1, { req with offset := req.offset + n }, c.after sock n)) := by
  subst hc
  have hsend := StageCall.send_eq sock o (StageCall.ofBlock_inRange hv) rfl
  change send sock o (fun i => req.data.getD i 0) req.data.length (0 + req.offset)
    (u64Sub req.size req.offset) = _ at hsend
  rw [Nat.zero_add] at hsend
  obtain ⟨-, hlen⟩ := StageCall.ofBlock_resumes hv
  have hle := hv.block_le
  have hlt := hv.limit_lt
  have hprogress := hv.progress
  change u64Sub req.size req.offset = req.size - req.offset at hlen
  simp only [StageCall.ofBlock, Nat.zero_add] at hle hlt hprogress
  unfold processSendRegData
  simp only [if_neg hrest, hsend, Option.bind_eq_bind, Option.bind_some]
  cases hresult : (StageCall.ofBlock false (fun i => req.data.getD i 0) req.data.length 0 req.size
      req.offset).result o sock with
  | none => rfl
  | some n =>
      have hn : n ≤ u64Sub req.size req.offset := StageCall.result_le hresult
      have hmod : (req.offset + n) % 2 ^ 64 = req.offset + n := Nat.mod_eq_of_lt (by omega)
      have hiff : req.offset + n < req.size ↔ n < u64Sub req.size req.offset := by omega
      simp only [Option.elim_some, hmod, hiff]
      change _ = some (if n < u64Sub req.size req.offset then _ else _, _, _)
      by_cases hshort : n < u64Sub req.size req.offset
      · simp only [if_pos hshort]
      · simp only [if_neg hshort]

/-- A turn of `process_send_missing_content` with a chunk left to send. -/
theorem processSendMissingContent_eq {req : DedupSendReq} {replyInd offset : Nat} {fp : Fingerprint}
    (hi : req.curReplyContentFingerprintInd < req.numMissing)
    (hreply : missingInd req.missingFingerprintInds req.curReplyContentFingerprintInd =
      some replyInd)
    (hoffset : getSlot req.fingerprintOffsets replyInd = some offset)
    (hfp : packagedFingerprint req.head replyInd = some fp)
    (hc : c = .ofBlock false (fun i => req.data.getD i 0) req.data.length offset fp.contentSize
      req.curReplyContentFingerprintOffset)
    (hv : c.Valid) (sock : Socket) (o : Outcome) :
    processSendMissingContent req sock o =
      some ((c.result o sock).elim (some (failureReturn o.errno), req, sock) fun n =>
        (if n < c.len then some 0 else none,
          { req with
            curReplyContentFingerprintInd :=
              if n < c.len then req.curReplyContentFingerprintInd
              else req.curReplyContentFingerprintInd + 1
            curReplyContentFingerprintOffset := if n < c.len then c.savedOffset n else 0 },
          c.after sock n)) := by
  subst hc
  have hsend := StageCall.send_eq sock o (StageCall.ofBlock_inRange hv) rfl
  change send sock o (fun i => req.data.getD i 0) req.data.length
    (offset + req.curReplyContentFingerprintOffset)
    (u64Sub fp.contentSize req.curReplyContentFingerprintOffset) = _ at hsend
  have hle := hv.block_le
  have hlt := hv.limit_lt
  have hprogress := hv.progress
  simp only [StageCall.ofBlock] at hle hlt hprogress
  have hmod : (offset + req.curReplyContentFingerprintOffset) % 2 ^ 64 =
      offset + req.curReplyContentFingerprintOffset := Nat.mod_eq_of_lt (by omega)
  unfold processSendMissingContent
  simp only [if_pos hi, hreply, hoffset, hfp, hmod, hsend, Option.bind_eq_bind, Option.bind_some]
  cases StageCall.result _ o sock with
  | none => rfl
  | some n =>
      simp only [Option.elim_some, StageCall.savedOffset, StageCall.ofBlock]
      by_cases hn : n < u64Sub fp.contentSize req.curReplyContentFingerprintOffset
      · simp only [hn, if_true]
      · simp only [hn, if_false]

theorem processSend_makesCall_header (hstage : st.req.stage = .sendHeader)
    (hc : c = .ofHeader false generalHeader st.req.head)
    (hv : c.Valid) : ∃ saved, MakesCall (processSend sha256) (·.req.call) st c saved := by
  refine SendState.makesCall
    (fun req => if isFingerprint req.head then .computeFingerprints else .sendRegData)
    (processSendHeader st.req)
    (fun n _ => { st.req with head := savedHead generalHeader st.req.head n c.len })
    (fun sock proc choice => processSend_at hstage) (fun sock o => ?_) (fun n bs hn _ _ => ?_)
  · rw [processSendHeader_eq, sendHeaderField_eq generalHeader_ok hc hv]
    cases c.result o sock <;> rfl
  · refine ⟨_, ?_, savedHead_sends generalHeader_ok hc hv hn⟩
    simp only [DedupSendReq.call, hstage]

theorem processSend_makesCall_regData (hstage : st.req.stage = .sendRegData)
    (hrest : u64Sub st.req.size st.req.offset ≠ 0)
    (hc : c = .ofBlock false (fun i => st.req.data.getD i 0) st.req.data.length 0 st.req.size
      st.req.offset)
    (hv : c.Valid) : ∃ saved, MakesCall (processSend sha256) (·.req.call) st c saved := by
  refine SendState.makesCall (fun _ => .sendComplete) (processSendRegData st.req)
    (fun n _ => { st.req with offset := st.req.offset + n })
    (fun sock proc choice => processSend_at hstage) (processSendRegData_eq hc hv hrest)
    (fun n bs hn _ _ => ?_)
  have hnext : ({ st.req with offset := st.req.offset + n } : DedupSendReq).call =
      some (.ofBlock false (fun i => st.req.data.getD i 0) st.req.data.length 0 st.req.size
        (st.req.offset + n)) := by
    rw [hc] at hv hn
    simp only [DedupSendReq.call, hstage, if_neg (StageCall.ofBlock_left hv hn)]
  refine StageCall.next_of_short hc hn ?_ hnext
  rw [StageCall.savedOffset, if_pos hn, hc]
  rfl

theorem processSend_makesCall_fingerprintHeader (hstage : st.req.stage = .sendFingerprintHeader)
    (hc : c = .ofHeader false fingerprintHeader st.req.head)
    (hv : c.Valid) : ∃ saved, MakesCall (processSend sha256) (·.req.call) st c saved := by
  refine SendState.makesCall (fun _ => .sendPackagedFingerprints)
    (processSendFingerprintHeader st.req)
    (fun n _ => { st.req with head := savedHead fingerprintHeader st.req.head n c.len })
    (fun sock proc choice => processSend_at hstage) (fun sock o => ?_) (fun n bs hn _ _ => ?_)
  · rw [processSendFingerprintHeader_eq, sendHeaderField_eq fingerprintHeader_ok hc hv]
    cases c.result o sock <;> rfl
  · refine ⟨_, ?_, savedHead_sends fingerprintHeader_ok hc hv hn⟩
    simp only [DedupSendReq.call, hstage]

theorem processSend_makesCall_packaged (hstage : st.req.stage = .sendPackagedFingerprints)
    (hc : c = .ofBlock false st.req.head headSize packagedPos
      st.req.packagedFingerprintsSizeBytes st.req.sendFingerprintOffset)
    (hv : c.Valid) : ∃ saved, MakesCall (processSend sha256) (·.req.call) st c saved := by
  refine SendState.makesCall (fun _ => .recvMissingFingerprintHeader)
    (processSendPackagedFingerprints st.req)
    (fun n _ => { st.req with sendFingerprintOffset := c.savedOffset n })
    (fun sock proc choice => processSend_at hstage) (fun sock o => ?_) (fun n bs hn _ _ => ?_)
  · unfold processSendPackagedFingerprints
    rw [sendBlock_eq hc hv]
    cases c.result o sock <;> rfl
  · have hnext : ({ st.req with sendFingerprintOffset := c.savedOffset n } : DedupSendReq).call =
        some (.ofBlock false st.req.head headSize packagedPos st.req.packagedFingerprintsSizeBytes
          (c.savedOffset n)) := by
      simp only [DedupSendReq.call, hstage]
    exact StageCall.next_of_short hc hn rfl hnext

theorem processSend_makesCall_missingHeader (hstage : st.req.stage = .recvMissingFingerprintHeader)
    (hc : c = .ofBlock true st.req.missingFingerprintHeader sizeofU64 0 sizeofU64
      st.req.missingFingerprintHeaderOffset)
    (hv : c.Valid) : ∃ saved, MakesCall (processSend sha256) (·.req.call) st c saved := by
  refine SendState.makesCall
    (fun req => if req.numMissing = 0 then .sendComplete else .recvMissingFingerprints)
    (processRecvMissingFingerprintHeader st.req)
    (fun n bs => { st.req with
      missingFingerprintHeader := c.filled bs
      missingFingerprintHeaderOffset := c.savedOffset n })
    (fun sock proc choice => processSend_at hstage) (fun sock o => ?_) (fun n bs hn _ _ => ?_)
  · unfold processRecvMissingFingerprintHeader
    rw [recvBlock_eq hc hv]
    cases c.result o sock <;> rfl
  · have hnext : ({ st.req with
        missingFingerprintHeader := c.filled bs
        missingFingerprintHeaderOffset := c.savedOffset n } : DedupSendReq).call =
          some (.ofBlock true (c.filled bs) sizeofU64 0 sizeofU64 (c.savedOffset n)) := by
      simp only [DedupSendReq.call, hstage]
    exact StageCall.next_of_short hc hn rfl hnext

theorem processSend_makesCall_missing (hstage : st.req.stage = .recvMissingFingerprints)
    (hc : c = .ofBlock true st.req.missingFingerprintInds indsSize 0
      (st.req.numMissing * sizeofU64 % 2 ^ 64) st.req.recvMissingFingerprintIndsOffset)
    (hv : c.Valid) : ∃ saved, MakesCall (processSend sha256) (·.req.call) st c saved := by
  refine SendState.makesCall (fun _ => .sendMissingContent)
    (processRecvMissingFingerprints st.req)
    (fun n bs => { st.req with
      missingFingerprintInds := c.filled bs
      recvMissingFingerprintIndsOffset := c.savedOffset n })
    (fun sock proc choice => processSend_at hstage) (fun sock o => ?_) (fun n bs hn _ _ => ?_)
  · unfold processRecvMissingFingerprints
    rw [recvBlock_eq hc hv]
    cases c.result o sock <;> rfl
  · have hnext : ({ st.req with
        missingFingerprintInds := c.filled bs
        recvMissingFingerprintIndsOffset := c.savedOffset n } : DedupSendReq).call =
          some (.ofBlock true (c.filled bs) indsSize 0 (st.req.numMissing * sizeofU64 % 2 ^ 64)
            (c.savedOffset n)) := by
      simp only [DedupSendReq.call, hstage, DedupSendReq.numMissing]
    exact StageCall.next_of_short hc hn rfl hnext

theorem processSend_makesCall_content (hstage : st.req.stage = .sendMissingContent)
    {replyInd offset : Nat} {fp : Fingerprint}
    (hi : st.req.curReplyContentFingerprintInd < st.req.numMissing)
    (hreply : missingInd st.req.missingFingerprintInds st.req.curReplyContentFingerprintInd =
      some replyInd)
    (hoffset : getSlot st.req.fingerprintOffsets replyInd = some offset)
    (hfp : packagedFingerprint st.req.head replyInd = some fp)
    (hc : c = .ofBlock false (fun i => st.req.data.getD i 0) st.req.data.length offset
      fp.contentSize st.req.curReplyContentFingerprintOffset)
    (hv : c.Valid) : ∃ saved, MakesCall (processSend sha256) (·.req.call) st c saved := by
  have hstep := processSendMissingContent_eq hi hreply hoffset hfp hc hv
  refine ⟨fun n _ => (if n < c.len then .ret 0 else .loop, { st with req := { st.req with
      curReplyContentFingerprintInd :=
        if n < c.len then st.req.curReplyContentFingerprintInd
        else st.req.curReplyContentFingerprintInd + 1
      curReplyContentFingerprintOffset := if n < c.len then c.savedOffset n else 0 } }),
    fun sock proc choice => ?_, fun n bs hn => if_pos hn, fun n bs hn _ _ => ?_⟩
  · rw [processSend_at hstage]
    simp only [processSendStage, hstep, Option.bind_eq_bind, Option.bind_some]
    cases c.result choice.socket sock with
    | none => rfl
    | some n =>
        simp only [Option.elim_some]
        by_cases hn : n < c.len
        · simp only [if_pos hn]
          rfl
        · simp only [if_neg hn]
  · simp only [if_pos hn]
    have hnext : ({ st.req with curReplyContentFingerprintOffset := c.savedOffset n } :
        DedupSendReq).call =
          some (.ofBlock false (fun i => st.req.data.getD i 0) st.req.data.length offset
            fp.contentSize (c.savedOffset n)) := by
      simp only [DedupSendReq.call, hstage, DedupSendReq.numMissing] at hi ⊢
      simp only [if_pos hi, hreply, hoffset, hfp, Option.bind_eq_bind, Option.bind_some]
    exact StageCall.next_of_short hc hn rfl hnext

/-- Every socket call of `process_send` is made and treated alike. -/
theorem processSend_makesCall (hcall : st.req.call = some c) (hv : c.Valid) :
    ∃ saved, MakesCall (processSend sha256) (·.req.call) st c saved := by
  unfold DedupSendReq.call at hcall
  split at hcall
  · next hstage =>
    exact processSend_makesCall_header hstage (Option.some_inj.mp hcall).symm hv
  · next hstage =>
    split_ifs at hcall with hrest
    exact processSend_makesCall_regData hstage hrest (Option.some_inj.mp hcall).symm hv
  · exact absurd hcall (by simp)
  · exact absurd hcall (by simp)
  · next hstage =>
    exact processSend_makesCall_fingerprintHeader hstage (Option.some_inj.mp hcall).symm hv
  · next hstage =>
    exact processSend_makesCall_packaged hstage (Option.some_inj.mp hcall).symm hv
  · next hstage =>
    exact processSend_makesCall_missingHeader hstage (Option.some_inj.mp hcall).symm hv
  · next hstage =>
    exact processSend_makesCall_missing hstage (Option.some_inj.mp hcall).symm hv
  · next hstage =>
    simp only [Option.bind_eq_bind] at hcall
    split_ifs at hcall with hi
    obtain ⟨replyInd, hreply, hcall⟩ := Option.bind_eq_some_iff.mp hcall
    obtain ⟨offset, hoffset, hcall⟩ := Option.bind_eq_some_iff.mp hcall
    obtain ⟨fp, hfp, hcall⟩ := Option.bind_eq_some_iff.mp hcall
    have hc := (Option.some_inj.mp hcall).symm
    exact processSend_makesCall_content hstage hi hreply hoffset hfp hc hv
  · exact absurd hcall (by simp)

end Send

section Recv

variable {st : RecvState} {c : StageCall}

/-- The call of a stage that only does socket input and output. -/
theorem RecvState.makesCall (next : DedupRecvReq → RecvReqStage)
    (stage : Socket → Outcome → Option (Int × DedupRecvReq × Socket))
    (saved : Nat → List UInt8 → DedupRecvReq)
    (hprocess : ∀ sock proc choice, processRecv st sock proc choice =
      st.socketStage proc (stage sock choice.socket) next)
    (hstage : ∀ sock o, stage sock o =
      some ((c.result o sock).elim (failureReturn o.errno, st.req, sock) fun n =>
        (if n < c.len then 0 else 1, saved n (sock.inbound.take n), c.after sock n)))
    (hprogress : ∀ n bs, n < c.len → (c.isRecv = true → bs.length = n) → c.Resumes →
      ∃ c', (saved n bs).call = some c' ∧ c.Progressed c' n) :
    ∃ saved, MakesCall processRecv (·.req.call) st c saved := by
  refine ⟨fun n bs => st.advance (if n < c.len then 0 else 1) (saved n bs) (next (saved n bs)),
    fun sock proc choice => ?_, fun n bs hn => ?_, fun n bs hn hbs hresumes => ?_⟩
  · rw [hprocess, RecvState.socketStage, hstage]
    cases c.result choice.socket sock <;> rfl
  · rw [if_pos hn]
    rfl
  · rw [if_pos hn]
    exact hprogress n bs hn hbs hresumes

/-- `process_recv_reg_data` with bytes left to receive. -/
theorem processRecvRegData_eq {req : DedupRecvReq}
    (hc : c = .ofBlock true req.appBuffer req.size 0 (headerContentSize req.head) req.appOffset)
    (hv : c.Valid) (hrest : u64Sub (headerContentSize req.head) req.appOffset ≠ 0) (sock : Socket)
    (o : Outcome) :
    processRecvRegData req sock o =
      some ((c.result o sock).elim (failureReturn o.errno, req, sock) fun n =>
        (if n < c.len then 0 else 1,
          { req with
            appBuffer := c.filled (sock.inbound.take n)
            appOffset := req.appOffset + n }, c.after sock n)) := by
  subst hc
  have hrecv := StageCall.recv_eq sock o (StageCall.ofBlock_inRange hv) rfl
  change recv sock o req.appBuffer req.size (0 + req.appOffset)
    (u64Sub (headerContentSize req.head) req.appOffset) = _ at hrecv
  rw [Nat.zero_add] at hrecv
  obtain ⟨-, hlen⟩ := StageCall.ofBlock_resumes hv
  have hle := hv.block_le
  have hlt := hv.limit_lt
  have hprogress := hv.progress
  change u64Sub (headerContentSize req.head) req.appOffset =
    headerContentSize req.head - req.appOffset at hlen
  simp only [StageCall.ofBlock, Nat.zero_add] at hle hlt hprogress
  unfold processRecvRegData
  simp only [if_neg hrest, hrecv, Option.bind_eq_bind, Option.bind_some]
  cases hresult : (StageCall.ofBlock true req.appBuffer req.size 0 (headerContentSize req.head)
      req.appOffset).result o sock with
  | none => rfl
  | some n =>
      have hn : n ≤ u64Sub (headerContentSize req.head) req.appOffset :=
        StageCall.result_le hresult
      have hmod : (req.appOffset + n) % 2 ^ 64 = req.appOffset + n := Nat.mod_eq_of_lt (by omega)
      have hiff : req.appOffset + n < headerContentSize req.head ↔
          n < u64Sub (headerContentSize req.head) req.appOffset := by omega
      simp only [Option.elim_some, hmod, hiff]
      change _ = some (if n < u64Sub (headerContentSize req.head) req.appOffset then _ else _, _, _)
      by_cases hshort : n < u64Sub (headerContentSize req.head) req.appOffset
      · simp only [if_pos hshort]
      · simp only [if_neg hshort]

/-- A turn of `process_recv_missing_content` with a chunk left to receive. -/
theorem processRecvMissingContent_eq {req : DedupRecvReq} {ind slot : Nat} {fp : Fingerprint}
    (hi : req.curRecvContentInd < req.numMissingFingerprints)
    (hslot : getSlot req.missingFingerprintSlots req.curRecvContentInd = some slot)
    (hind : missingInd req.missingFingerprintInds req.curRecvContentInd = some ind)
    (hfp : packagedFingerprint req.head ind = some fp)
    (hc : c = .ofBlock true req.appBuffer req.size slot fp.contentSize req.curRecvContentOffset)
    (hv : c.Valid) (sock : Socket) (o : Outcome) :
    processRecvMissingContent req sock o =
      some ((c.result o sock).elim (some (failureReturn o.errno), req, sock) fun n =>
        (if n < c.len then some 0 else none,
          { req with
            appBuffer := c.filled (sock.inbound.take n)
            appFilledSize := (req.appFilledSize + n) % 2 ^ 64
            curRecvContentInd :=
              if n < c.len then req.curRecvContentInd else req.curRecvContentInd + 1
            curRecvContentOffset := if n < c.len then c.savedOffset n else 0 },
          c.after sock n)) := by
  subst hc
  have hrecv := StageCall.recv_eq sock o (StageCall.ofBlock_inRange hv) rfl
  change recv sock o req.appBuffer req.size (slot + req.curRecvContentOffset)
    (u64Sub fp.contentSize req.curRecvContentOffset) = _ at hrecv
  have hle := hv.block_le
  have hlt := hv.limit_lt
  have hprogress := hv.progress
  simp only [StageCall.ofBlock] at hle hlt hprogress
  have hmod : (slot + req.curRecvContentOffset) % 2 ^ 64 = slot + req.curRecvContentOffset :=
    Nat.mod_eq_of_lt (by omega)
  unfold processRecvMissingContent
  simp only [if_pos hi, hslot, hind, hfp, hmod, hrecv, Option.bind_eq_bind, Option.bind_some]
  cases StageCall.result _ o sock with
  | none => rfl
  | some n =>
      simp only [Option.elim_some, StageCall.savedOffset, StageCall.ofBlock]
      by_cases hn : n < u64Sub fp.contentSize req.curRecvContentOffset
      · simp only [hn, if_true]
      · simp only [hn, if_false]

theorem processRecv_makesCall_header (hstage : st.req.stage = .recvHeader)
    (hc : c = .ofHeader true generalHeader st.req.head)
    (hv : c.Valid) : ∃ saved, MakesCall processRecv (·.req.call) st c saved := by
  refine RecvState.makesCall
    (fun req => if isFingerprint req.head then .recvFingerprintHeader else .recvRegData)
    (processRecvHeader st.req)
    (fun n bs => { st.req with head := savedHead generalHeader (c.filled bs) n c.len })
    (fun sock proc choice => processRecv_at hstage) (fun sock o => ?_)
    (fun n bs hn hbs hresumes => ?_)
  · unfold processRecvHeader
    rw [recvHeaderField_eq generalHeader_ok hc hv]
    cases c.result o sock <;> rfl
  · have hrecv : c.isRecv = true := by rw [hc]; rfl
    refine ⟨_, ?_, savedHead_receives generalHeader_ok hc hv hresumes hn (hbs hrecv)⟩
    simp only [DedupRecvReq.call, hstage]

theorem processRecv_makesCall_regData (hstage : st.req.stage = .recvRegData)
    (hrest : u64Sub (headerContentSize st.req.head) st.req.appOffset ≠ 0)
    (hc : c = .ofBlock true st.req.appBuffer st.req.size 0 (headerContentSize st.req.head)
      st.req.appOffset)
    (hv : c.Valid) : ∃ saved, MakesCall processRecv (·.req.call) st c saved := by
  refine RecvState.makesCall (fun _ => .recvComplete) (processRecvRegData st.req)
    (fun n bs => { st.req with
      appBuffer := c.filled bs
      appOffset := st.req.appOffset + n })
    (fun sock proc choice => processRecv_at hstage) (processRecvRegData_eq hc hv hrest)
    (fun n bs hn _ _ => ?_)
  have hnext : ({ st.req with
      appBuffer := c.filled bs
      appOffset := st.req.appOffset + n } : DedupRecvReq).call =
        some (.ofBlock true (c.filled bs) st.req.size 0 (headerContentSize st.req.head)
          (st.req.appOffset + n)) := by
    rw [hc] at hv hn
    simp only [DedupRecvReq.call, hstage, if_neg (StageCall.ofBlock_left hv hn)]
  refine StageCall.next_of_short hc hn ?_ hnext
  rw [StageCall.savedOffset, if_pos hn, hc]
  rfl

theorem processRecv_makesCall_fingerprintHeader (hstage : st.req.stage = .recvFingerprintHeader)
    (hc : c = .ofHeader true fingerprintHeader st.req.head)
    (hv : c.Valid) : ∃ saved, MakesCall processRecv (·.req.call) st c saved := by
  refine RecvState.makesCall (fun _ => .recvPackagedFingerprints)
    (processRecvFingerprintHeader st.req)
    (fun n bs =>
      if n < c.len then
        { st.req with head := savedHead fingerprintHeader (c.filled bs) n c.len }
      else initFingerprintRecv
        { st.req with head := savedHead fingerprintHeader (c.filled bs) n c.len })
    (fun sock proc choice => processRecv_at hstage) (fun sock o => ?_)
    (fun n bs hn hbs hresumes => ?_)
  · rw [processRecvFingerprintHeader_eq, recvHeaderField_eq fingerprintHeader_ok hc hv]
    cases c.result o sock with
    | none => rfl
    | some n =>
        simp only [Option.elim_some, Option.map_some]
        by_cases hn : n < c.len
        · simp only [hn, if_true]
          rfl
        · simp only [hn, if_false, if_true]
  · have hrecv : c.isRecv = true := by rw [hc]; rfl
    refine ⟨_, ?_, savedHead_receives fingerprintHeader_ok hc hv hresumes hn (hbs hrecv)⟩
    simp only [hn, if_true, DedupRecvReq.call, hstage]

theorem processRecv_makesCall_packaged (hstage : st.req.stage = .recvPackagedFingerprints)
    (hc : c = .ofBlock true st.req.head headSize packagedPos
      st.req.packagedFingerprintsSizeBytes st.req.recvFingerprintOffset)
    (hv : c.Valid) : ∃ saved, MakesCall processRecv (·.req.call) st c saved := by
  refine RecvState.makesCall (fun _ => .populateFromNetCache)
    (processRecvPackagedFingerprints st.req)
    (fun n bs => { st.req with
      head := c.filled bs
      recvFingerprintOffset := c.savedOffset n })
    (fun sock proc choice => processRecv_at hstage) (fun sock o => ?_) (fun n bs hn _ _ => ?_)
  · unfold processRecvPackagedFingerprints
    rw [recvBlock_eq hc hv]
    cases c.result o sock <;> rfl
  · have hnext : ({ st.req with
        head := c.filled bs
        recvFingerprintOffset := c.savedOffset n } : DedupRecvReq).call =
          some (.ofBlock true (c.filled bs) headSize packagedPos
            st.req.packagedFingerprintsSizeBytes (c.savedOffset n)) := by
      simp only [DedupRecvReq.call, hstage]
    exact StageCall.next_of_short hc hn rfl hnext

theorem processRecv_makesCall_missingHeader (hstage : st.req.stage = .sendMissingFingerprintHeader)
    (hc : c = .ofBlock false (missingHeaderBytes st.req) sizeofU64 0 sizeofU64
      st.req.missingFingerprintHeaderOffset)
    (hv : c.Valid) : ∃ saved, MakesCall processRecv (·.req.call) st c saved := by
  refine RecvState.makesCall
    (fun req => if req.numMissingFingerprints = 0 then .recvComplete
      else .sendMissingFingerprints)
    (processSendMissingFingerprintHeader st.req)
    (fun n _ => { st.req with missingFingerprintHeaderOffset := c.savedOffset n })
    (fun sock proc choice => processRecv_at hstage) (fun sock o => ?_) (fun n bs hn _ _ => ?_)
  · unfold processSendMissingFingerprintHeader
    rw [sendBlock_eq hc hv]
    cases c.result o sock <;> rfl
  · have hnext : ({ st.req with missingFingerprintHeaderOffset := c.savedOffset n } :
        DedupRecvReq).call =
          some (.ofBlock false (missingHeaderBytes st.req) sizeofU64 0 sizeofU64
            (c.savedOffset n)) := by
      simp only [DedupRecvReq.call, hstage, missingHeaderBytes]
    exact StageCall.next_of_short hc hn rfl hnext

theorem processRecv_makesCall_missing (hstage : st.req.stage = .sendMissingFingerprints)
    (hc : c = .ofBlock false st.req.missingFingerprintInds indsSize 0
      (st.req.numMissingFingerprints * sizeofU64 % 2 ^ 64) st.req.sendMissingFingerprintIndsOffset)
    (hv : c.Valid) : ∃ saved, MakesCall processRecv (·.req.call) st c saved := by
  refine RecvState.makesCall (fun _ => .recvMissingContent)
    (processSendMissingFingerprints st.req)
    (fun n _ => { st.req with sendMissingFingerprintIndsOffset := c.savedOffset n })
    (fun sock proc choice => processRecv_at hstage) (fun sock o => ?_) (fun n bs hn _ _ => ?_)
  · unfold processSendMissingFingerprints
    rw [sendBlock_eq hc hv]
    cases c.result o sock <;> rfl
  · have hnext : ({ st.req with sendMissingFingerprintIndsOffset := c.savedOffset n } :
        DedupRecvReq).call =
          some (.ofBlock false st.req.missingFingerprintInds indsSize 0
            (st.req.numMissingFingerprints * sizeofU64 % 2 ^ 64) (c.savedOffset n)) := by
      simp only [DedupRecvReq.call, hstage]
    exact StageCall.next_of_short hc hn rfl hnext

theorem processRecv_makesCall_content (hstage : st.req.stage = .recvMissingContent)
    {ind slot : Nat} {fp : Fingerprint}
    (hi : st.req.curRecvContentInd < st.req.numMissingFingerprints)
    (hslot : getSlot st.req.missingFingerprintSlots st.req.curRecvContentInd = some slot)
    (hind : missingInd st.req.missingFingerprintInds st.req.curRecvContentInd = some ind)
    (hfp : packagedFingerprint st.req.head ind = some fp)
    (hc : c = .ofBlock true st.req.appBuffer st.req.size slot fp.contentSize
      st.req.curRecvContentOffset)
    (hv : c.Valid) : ∃ saved, MakesCall processRecv (·.req.call) st c saved := by
  have hstep := processRecvMissingContent_eq hi hslot hind hfp hc hv
  refine ⟨fun n bs => (if n < c.len then .ret 0 else .loop, { st with req := { st.req with
      appBuffer := c.filled bs
      appFilledSize := (st.req.appFilledSize + n) % 2 ^ 64
      curRecvContentInd :=
        if n < c.len then st.req.curRecvContentInd else st.req.curRecvContentInd + 1
      curRecvContentOffset := if n < c.len then c.savedOffset n else 0 } }),
    fun sock proc choice => ?_, fun n bs hn => if_pos hn, fun n bs hn _ _ => ?_⟩
  · rw [processRecv_at hstage]
    simp only [processRecvStage, hstep, Option.bind_eq_bind, Option.bind_some]
    cases c.result choice.socket sock with
    | none => rfl
    | some n =>
        simp only [Option.elim_some]
        by_cases hn : n < c.len
        · simp only [hn, if_true]
          rfl
        · simp only [hn, if_false]
  · simp only [hn, if_true]
    have hnext : ({ st.req with
        appBuffer := c.filled bs
        appFilledSize := (st.req.appFilledSize + n) % 2 ^ 64
        curRecvContentOffset := c.savedOffset n } : DedupRecvReq).call =
          some (.ofBlock true (c.filled bs) st.req.size slot fp.contentSize
            (c.savedOffset n)) := by
      simp only [DedupRecvReq.call, hstage, if_pos hi, hslot, hind, hfp, Option.bind_eq_bind,
        Option.bind_some]
    exact StageCall.next_of_short hc hn rfl hnext

/-- Every socket call of `process_recv` is made and treated alike. -/
theorem processRecv_makesCall (hcall : st.req.call = some c) (hv : c.Valid) :
    ∃ saved, MakesCall processRecv (·.req.call) st c saved := by
  unfold DedupRecvReq.call at hcall
  split at hcall
  · next hstage =>
    exact processRecv_makesCall_header hstage (Option.some_inj.mp hcall).symm hv
  · next hstage =>
    split_ifs at hcall with hrest
    exact processRecv_makesCall_regData hstage hrest (Option.some_inj.mp hcall).symm hv
  · next hstage =>
    exact processRecv_makesCall_fingerprintHeader hstage (Option.some_inj.mp hcall).symm hv
  · next hstage =>
    exact processRecv_makesCall_packaged hstage (Option.some_inj.mp hcall).symm hv
  · exact absurd hcall (by simp)
  · next hstage =>
    exact processRecv_makesCall_missingHeader hstage (Option.some_inj.mp hcall).symm hv
  · next hstage =>
    exact processRecv_makesCall_missing hstage (Option.some_inj.mp hcall).symm hv
  · next hstage =>
    simp only [Option.bind_eq_bind] at hcall
    split_ifs at hcall with hi
    obtain ⟨slot, hslot, hcall⟩ := Option.bind_eq_some_iff.mp hcall
    obtain ⟨ind, hind, hcall⟩ := Option.bind_eq_some_iff.mp hcall
    obtain ⟨fp, hfp, hcall⟩ := Option.bind_eq_some_iff.mp hcall
    exact processRecv_makesCall_content hstage hi hslot hind hfp (Option.some_inj.mp hcall).symm hv
  · exact absurd hcall (by simp)
  · exact absurd hcall (by simp)

end Recv

namespace StageCall

variable (c : StageCall) (o : Outcome) (sock : Socket)

/-- The call reports a dead connection: an error that is no reason to try again,
or an end of file while bytes are due. -/
def Fatal : Prop :=
  (c.result o sock = none ∧ o.errno ≠ eagain ∧ o.errno ≠ ewouldblock) ∨
    (c.isRecv = true ∧ c.result o sock = some 0 ∧ 0 < c.len)

/-- The call would block. -/
def Blocked : Prop := c.result o sock = none ∧ (o.errno = eagain ∨ o.errno = ewouldblock)

end StageCall

section Report

variable {S : Type} (process : S → Socket → Process → Choice →
  Option (Flow × S × Socket × Process)) (call : S → Option StageCall)

/-- What a step owes its caller: a dead connection gives -1, and a call that
would block gives 0, with the request as it was and at the right place. -/
structure ReportsFailures (st : S) (sock : Socket) (proc : Process) (choice : Choice)
    (c : StageCall) : Prop where
  fatal : c.Fatal choice.socket sock →
    ∃ st' sock' proc', process st sock proc choice = some (.ret (-1), st', sock', proc')
  blocked : c.Blocked choice.socket sock →
    process st sock proc choice = some (.ret 0, st, sock, proc) ∧ c.Resumes

/-- A short count returns 0 and is added to the saved progress. -/
def SavesProgress (st : S) (sock : Socket) (proc : Process) (choice : Choice) (c : StageCall) :
    Prop :=
  c.Resumes → ∀ n, c.result choice.socket sock = some n → n < c.len →
    ∃ st' c', process st sock proc choice = some (.ret 0, st', c.after sock n, proc) ∧
      call st' = some c' ∧ c.Progressed c' n

variable {process call} {st : S} {c : StageCall} {saved : Nat → List UInt8 → Flow × S}

/-- Every stage returns 0 for a dead connection. -/
theorem MakesCall.fatal_ret (h : MakesCall process call st c saved) {sock : Socket}
    (proc : Process) {choice : Choice} (hfatal : c.Fatal choice.socket sock) :
    ∃ st' sock' proc', process st sock proc choice = some (.ret 0, st', sock', proc') := by
  rcases hfatal with ⟨hnone, -, -⟩ | ⟨-, hzero, hlen⟩
  · refine ⟨st, sock, proc, ?_⟩
    rw [h.step, hnone]
    rfl
  · refine ⟨(saved 0 (sock.inbound.take 0)).2, c.after sock 0, proc, ?_⟩
    rw [h.step, hzero, Option.elim_some, h.short 0 _ hlen]

/-- A dead connection is never reported. -/
theorem MakesCall.not_reports (h : MakesCall process call st c saved) {sock : Socket}
    {proc : Process} {choice : Choice} (hfatal : c.Fatal choice.socket sock) :
    ¬ ReportsFailures process st sock proc choice c := by
  intro hreports
  obtain ⟨st₁, sock₁, proc₁, hret⟩ := hreports.fatal hfatal
  obtain ⟨st₂, sock₂, proc₂, hzero⟩ := h.fatal_ret proc hfatal
  rw [hret] at hzero
  injection hzero with hzero
  injection hzero with hflow
  exact absurd hflow (by decide)

theorem MakesCall.reports_iff (h : MakesCall process call st c saved) {header : Prop}
    (hresumes : c.Resumes ↔ (header → c.moved = 0)) (sock : Socket) (proc : Process)
    (choice : Choice) :
    ReportsFailures process st sock proc choice c ↔
      ¬ c.Fatal choice.socket sock ∧ (c.Blocked choice.socket sock → header → c.moved = 0) := by
  constructor
  · intro hreports
    constructor
    · intro hfatal
      exact h.not_reports hfatal hreports
    · intro hblocked
      exact hresumes.mp (hreports.blocked hblocked).2
  · rintro ⟨hfatal, hheader⟩
    constructor
    · intro hcontra
      exact absurd hcontra hfatal
    · intro hblocked
      refine ⟨?_, hresumes.mpr (hheader hblocked)⟩
      rw [h.step, hblocked.1]
      rfl

theorem MakesCall.savesProgress (h : MakesCall process call st c saved) (sock : Socket)
    (proc : Process) (choice : Choice) : SavesProgress process call st sock proc choice c := by
  intro hresumes n hn hshort
  have hbs : c.isRecv = true → (sock.inbound.take n).length = n := by
    intro hrecv
    unfold StageCall.result at hn
    rw [if_pos hrecv] at hn
    rw [List.length_take, Nat.min_eq_left (Outcome.received_le hn).2]
  obtain ⟨c', hcall, hprogressed⟩ := h.progress n _ hshort hbs hresumes
  refine ⟨_, c', ?_, hcall, hprogressed⟩
  rw [h.step, hn, Option.elim_some, h.short n _ hshort]

end Report

/-- The stages that move a header. -/
def SendReqStage.isHeader : SendReqStage → Bool
  | .sendHeader => true
  | .sendFingerprintHeader => true
  | _ => false

/-- The stages that move a header. -/
def RecvReqStage.isHeader : RecvReqStage → Bool
  | .recvHeader => true
  | .recvFingerprintHeader => true
  | _ => false

/-- A call is that of a header or of a block. -/
inductive StageCall.Shape (c : StageCall) : Bool → Prop
  | header {isRecv : Bool} {f : HeaderField} {head : Mem} (hf : f.Ok)
      (hc : .ofHeader isRecv f head = c) : Shape c true
  | block {isRecv : Bool} {region : Mem} {limit base total prev : Nat}
      (hc : .ofBlock isRecv region limit base total prev = c) : Shape c false

/-- Only a header that has begun resumes at a wrong place. -/
theorem StageCall.Shape.resumes_iff {c : StageCall} {header : Bool} (h : c.Shape header)
    (hv : c.Valid) : c.Resumes ↔ (header = true → c.moved = 0) := by
  cases h with
  | header hf hc =>
      subst hc
      rw [StageCall.ofHeader_resumes_iff hf hv]
      exact ⟨fun h _ => h, fun h => h rfl⟩
  | block hc =>
      subst hc
      exact ⟨fun _ h => absurd h (by decide), fun _ => StageCall.ofBlock_resumes hv⟩

theorem DedupSendReq.call_shape {req : DedupSendReq} {c : StageCall} (hcall : req.call = some c) :
    c.Shape req.stage.isHeader := by
  unfold DedupSendReq.call at hcall
  split at hcall
  · next hstage => exact hstage ▸ .header generalHeader_ok (Option.some_inj.mp hcall)
  · next hstage =>
    split_ifs at hcall
    exact hstage ▸ .block (Option.some_inj.mp hcall)
  · exact absurd hcall (by simp)
  · exact absurd hcall (by simp)
  · next hstage => exact hstage ▸ .header fingerprintHeader_ok (Option.some_inj.mp hcall)
  · next hstage => exact hstage ▸ .block (Option.some_inj.mp hcall)
  · next hstage => exact hstage ▸ .block (Option.some_inj.mp hcall)
  · next hstage => exact hstage ▸ .block (Option.some_inj.mp hcall)
  · next hstage =>
    simp only [Option.bind_eq_bind] at hcall
    split_ifs at hcall
    obtain ⟨replyInd, -, hcall⟩ := Option.bind_eq_some_iff.mp hcall
    obtain ⟨offset, -, hcall⟩ := Option.bind_eq_some_iff.mp hcall
    obtain ⟨fp, -, hcall⟩ := Option.bind_eq_some_iff.mp hcall
    exact hstage ▸ .block (Option.some_inj.mp hcall)
  · exact absurd hcall (by simp)

theorem DedupRecvReq.call_shape {req : DedupRecvReq} {c : StageCall} (hcall : req.call = some c) :
    c.Shape req.stage.isHeader := by
  unfold DedupRecvReq.call at hcall
  split at hcall
  · next hstage => exact hstage ▸ .header generalHeader_ok (Option.some_inj.mp hcall)
  · next hstage =>
    split_ifs at hcall
    exact hstage ▸ .block (Option.some_inj.mp hcall)
  · next hstage => exact hstage ▸ .header fingerprintHeader_ok (Option.some_inj.mp hcall)
  · next hstage => exact hstage ▸ .block (Option.some_inj.mp hcall)
  · exact absurd hcall (by simp)
  · next hstage => exact hstage ▸ .block (Option.some_inj.mp hcall)
  · next hstage => exact hstage ▸ .block (Option.some_inj.mp hcall)
  · next hstage =>
    simp only [Option.bind_eq_bind] at hcall
    split_ifs at hcall
    obtain ⟨slot, -, hcall⟩ := Option.bind_eq_some_iff.mp hcall
    obtain ⟨ind, -, hcall⟩ := Option.bind_eq_some_iff.mp hcall
    obtain ⟨fp, -, hcall⟩ := Option.bind_eq_some_iff.mp hcall
    exact hstage ▸ .block (Option.some_inj.mp hcall)
  · exact absurd hcall (by simp)
  · exact absurd hcall (by simp)

/-- A socket call of either party is reported as it should be exactly when it does
not find a dead connection and does not block in the middle of a header. What
calls move is always saved. -/
theorem reportsFailures_iff (sha256 : List UInt8 → Digest) :
    (∀ (st : SendState) (c : StageCall), st.req.call = some c → c.Valid →
      ∀ (sock : Socket) (proc : Process) (choice : Choice),
        (ReportsFailures (processSend sha256) st sock proc choice c ↔
          ¬ c.Fatal choice.socket sock ∧
            (c.Blocked choice.socket sock → st.req.stage.isHeader = true → c.moved = 0)) ∧
        SavesProgress (processSend sha256) (·.req.call) st sock proc choice c) ∧
    ∀ (st : RecvState) (c : StageCall), st.req.call = some c → c.Valid →
      ∀ (sock : Socket) (proc : Process) (choice : Choice),
        (ReportsFailures processRecv st sock proc choice c ↔
          ¬ c.Fatal choice.socket sock ∧
            (c.Blocked choice.socket sock → st.req.stage.isHeader = true → c.moved = 0)) ∧
        SavesProgress processRecv (·.req.call) st sock proc choice c := by
  constructor
  · intro st c hcall hv sock proc choice
    obtain ⟨saved, h⟩ := @processSend_makesCall sha256 st c hcall hv
    have hresumes := (DedupSendReq.call_shape hcall).resumes_iff hv
    exact ⟨h.reports_iff hresumes sock proc choice, h.savesProgress sock proc choice⟩
  · intro st c hcall hv sock proc choice
    obtain ⟨saved, h⟩ := processRecv_makesCall hcall hv
    have hresumes := (DedupRecvReq.call_shape hcall).resumes_iff hv
    exact ⟨h.reports_iff hresumes sock proc choice, h.savesProgress sock proc choice⟩

/-- A send of three bytes of which one has been sent. -/
def sentOne : SendState :=
  ⟨{ isendRequest [1, 2, 3] with stage := .sendRegData, offset := 1 }, none⟩

/-- A receive before its first step. -/
def unreceived : RecvState := ⟨irecvRequest 3 fun _ => 0, none, none⟩

/-- The socket has no room, or no bytes. -/
def blockedSocket : Choice := ⟨.wouldBlock, false, zeroEntry⟩

/-- The peer has closed the connection. -/
def closedByPeer : Choice := ⟨.closed, false, zeroEntry⟩

/-- A send in the middle of its bytes that would block, and a receive whose header
has not arrived, or never will. -/
theorem reportsFailures_iff_sentOne :
    (∃ c, sentOne.req.call = some c ∧ c.moved = 1 ∧ c.len = 2 ∧ ∀ proc : Process,
      c.Blocked blockedSocket.socket ⟨[], []⟩ ∧
      ReportsFailures (processSend fun _ => zeroDigest) sentOne ⟨[], []⟩ proc blockedSocket c ∧
      SavesProgress (processSend fun _ => zeroDigest) (·.req.call) sentOne ⟨[], []⟩ proc
        ⟨.ready 0, false, zeroEntry⟩ c) ∧
    ∃ c, unreceived.req.call = some c ∧ c.len = 16 ∧ ∀ proc : Process,
      ReportsFailures processRecv unreceived ⟨[], []⟩ proc blockedSocket c ∧
      ¬ ReportsFailures processRecv unreceived ⟨[], []⟩ proc closedByPeer c := by
  obtain ⟨hsends, hreceives⟩ := reportsFailures_iff fun _ => zeroDigest
  constructor
  · have hcall : sentOne.req.call =
        some (.ofBlock false (fun i => [1, 2, 3].getD i 0) 3 0 3 1) := by
      simp [DedupSendReq.call, sentOne, isendRequest, u64Sub]
    have hvalid : (StageCall.ofBlock false (fun i => [1, 2, 3].getD i 0) 3 0 3 1).Valid :=
      ⟨Or.inl (by decide), by decide, by decide⟩
    refine ⟨_, hcall, rfl, rfl, fun proc => ⟨⟨rfl, Or.inl rfl⟩, ?_, ?_⟩⟩
    · apply (hsends sentOne _ hcall hvalid ⟨[], []⟩ proc blockedSocket).1.mpr
      refine ⟨?_, fun _ hheader => absurd hheader (by decide)⟩
      rintro (⟨-, herr, -⟩ | ⟨hrecv, -⟩)
      · exact herr rfl
      · exact absurd hrecv (by decide)
    · exact (hsends sentOne _ hcall hvalid ⟨[], []⟩ proc _).2
  · have hvalid : (StageCall.ofHeader true generalHeader unreceived.req.head).Valid :=
      ⟨Or.inr (by decide), by decide, by decide⟩
    refine ⟨_, rfl, rfl, fun proc => ⟨?_, ?_⟩⟩
    · apply (hreceives unreceived _ rfl hvalid ⟨[], []⟩ proc blockedSocket).1.mpr
      refine ⟨?_, fun _ _ => rfl⟩
      rintro (⟨-, herr, -⟩ | ⟨-, hzero, -⟩)
      · exact herr rfl
      · have hnone : (none : Option Nat) = some 0 := hzero
        exact absurd hnone (by decide)
    · intro hreports
      have hfatal := (hreceives unreceived _ rfl hvalid ⟨[], []⟩ proc closedByPeer).1.mp hreports
      exact hfatal.1 (Or.inr ⟨rfl, rfl, by decide⟩)

/-- The peer has reset the connection. -/
def resetByPeer : Choice := ⟨.failed 104, false, zeroEntry⟩

/-- A reset connection is no failure to the first stage of a send, nor is a closed one to
the first stage of a receive. -/
theorem reportsFailures_fails :
    (∃ c, (SendState.mk (isendRequest []) none).req.call = some c ∧ c.Valid ∧
      ∀ (sha256 : List UInt8 → Digest) (proc : Process),
        ¬ ReportsFailures (processSend sha256) ⟨isendRequest [], none⟩ ⟨[], []⟩ proc
          resetByPeer c) ∧
    ∃ c, (RecvState.mk (irecvRequest 0 fun _ => 0) none none).req.call = some c ∧ c.Valid ∧
      ∀ proc : Process,
        ¬ ReportsFailures processRecv ⟨irecvRequest 0 fun _ => 0, none, none⟩ ⟨[], []⟩ proc
          closedByPeer c := by
  have hsend : (StageCall.ofHeader false generalHeader (isendRequest []).head).Valid := by
    refine ⟨Or.inr ?_, by decide, by decide⟩
    decide
  have hrecv : (StageCall.ofHeader true generalHeader (irecvRequest 0 fun _ => 0).head).Valid := by
    refine ⟨Or.inr ?_, by decide, by decide⟩
    decide
  constructor
  · refine ⟨_, rfl, hsend, fun sha256 proc => ?_⟩
    obtain ⟨saved, h⟩ := @processSend_makesCall sha256 ⟨isendRequest [], none⟩ _ rfl hsend
    apply h.not_reports
    exact Or.inl ⟨rfl, by decide, by decide⟩
  · refine ⟨_, rfl, hrecv, fun proc => ?_⟩
    obtain ⟨saved, h⟩ := @processRecv_makesCall ⟨irecvRequest 0 fun _ => 0, none, none⟩ _ rfl hrecv
    apply h.not_reports
    exact Or.inr ⟨rfl, rfl, by decide⟩

end NetDedup.Transfer

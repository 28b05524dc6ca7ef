import NetDedup.Transfer.Party
import NetDedup.Transfer.SendSteps

/-!
# A send request against an arbitrary peer

The bounds of every stage of `process_send` when the replies of the peer name
chunks of the message, and no more of them than the arrays hold.
-/

namespace NetDedup.Transfer

open Chunking Memory Store

variable {sha256 : List UInt8 → Digest}

/-- The condition on a step of the sending party: headers move whole, the
message has no more chunks than the arrays hold, and the reply names no more
missing chunks than that, each of them a chunk of the message. -/
def RepliesFit (sha256 : List UInt8 → Digest) (p : Party SendState) : PartyEvent → Prop
  | .arrive _ => True
  | .other proc => proc.Sound
  | .step choice =>
      match p.st.req.stage with
      | .sendHeader => choice.socket.Whole generalHeader.size generalHeader.size
      | .computeFingerprints => ∀ fps, doFingerprinting sha256 shippedSettings p.st.req.data =
          some fps → fps.length ≤ maxFingerprintsPerReq
      | .sendFingerprintHeader => choice.socket.Whole fingerprintHeader.size fingerprintHeader.size
      | .recvMissingFingerprints => p.st.req.numMissing ≤ maxFingerprintsPerReq
      | .sendMissingContent => ∀ i < p.st.req.numMissing, ∀ ind,
          missingInd p.st.req.missingFingerprintInds i = some ind →
          ind < numFingerprints p.st.req.head
      | _ => True

/-- The reply loop has not begun. -/
def AwaitsContent (req : DedupSendReq) : Prop :=
  req.curReplyContentFingerprintInd = 0 ∧ req.curReplyContentFingerprintOffset = 0

/-- No missing index has been received. -/
def AwaitsInds (req : DedupSendReq) : Prop :=
  req.recvMissingFingerprintIndsOffset = 0 ∧ AwaitsContent req

/-- Nothing of the reply has been received. -/
def AwaitsReply (req : DedupSendReq) : Prop :=
  req.missingFingerprintHeaderOffset = 0 ∧ AwaitsInds req

/-- Where a send request can be. -/
inductive SendAt (sha256 : List UInt8 → Digest) (st : SendState) : Prop
  | header (hstage : st.req.stage = .sendHeader) (hloop : st.inserting = none)
      (hpath : isFingerprint st.req.head = decide
          (fingerprintMsgSizeThreshold < st.req.data.length))
      (hstart : st.req.offset = 0)
      (hgeneral : loadInt st.req.head generalHeader.offsetPos = 0)
      (hfingerprint : loadInt st.req.head fingerprintHeader.offsetPos = 0)
  | regData (hstage : st.req.stage = .sendRegData) (hoffset : st.req.offset ≤ st.req.size)
  | compute (hstage : st.req.stage = .computeFingerprints) (hloop : st.inserting = none)
      (hne : st.req.data ≠ [])
      (hfingerprint : loadInt st.req.head fingerprintHeader.offsetPos = 0)
  | insert (fps : List Fingerprint) (hstage : st.req.stage = .insertOutboundFingerprints)
      (hfps : Fingerprinted sha256 fps st.req) (hne : st.req.data ≠ [])
      (hloop : ∀ i cur, st.inserting = some (i, cur) → i ≤ fps.length ∧ cur = boundary fps i)
      (hfingerprint : loadInt st.req.head fingerprintHeader.offsetPos = 0)
      (hsend : st.req.sendFingerprintOffset = 0) (hreply : AwaitsReply st.req)
  | fingerprintHeader (fps : List Fingerprint) (hstage : st.req.stage = .sendFingerprintHeader)
      (hfps : Fingerprinted sha256 fps st.req)
      (hfingerprint : loadInt st.req.head fingerprintHeader.offsetPos = 0)
      (hsend : st.req.sendFingerprintOffset = 0) (hreply : AwaitsReply st.req)
  | packaged (fps : List Fingerprint) (hstage : st.req.stage = .sendPackagedFingerprints)
      (hfps : Fingerprinted sha256 fps st.req)
      (hoffset : st.req.sendFingerprintOffset ≤ st.req.packagedFingerprintsSizeBytes)
      (hreply : AwaitsReply st.req)
  | missingHeader (fps : List Fingerprint) (hstage : st.req.stage = .recvMissingFingerprintHeader)
      (hfps : Fingerprinted sha256 fps st.req)
      (hoffset : st.req.missingFingerprintHeaderOffset ≤ sizeofU64) (hinds : AwaitsInds st.req)
  | missing (fps : List Fingerprint) (hstage : st.req.stage = .recvMissingFingerprints)
      (hfps : Fingerprinted sha256 fps st.req)
      (hoffset : st.req.recvMissingFingerprintIndsOffset ≤ st.req.numMissing * sizeofU64)
      (hcontent : AwaitsContent st.req)
  | content (fps : List Fingerprint) (hstage : st.req.stage = .sendMissingContent)
      (hfps : Fingerprinted sha256 fps st.req) (hnum : st.req.numMissing ≤ maxFingerprintsPerReq)
      (hoffset : ∀ ind (hind : ind < fps.length), missingInd st.req.missingFingerprintInds
        st.req.curReplyContentFingerprintInd = some ind →
        st.req.curReplyContentFingerprintOffset ≤ fps[ind].contentSize)
  | complete (hstage : st.req.stage = .sendComplete)

/-- The invariant of a send request. -/
structure SendBounded (sha256 : List UInt8 → Digest) (st : SendState) : Prop where
  size_eq : st.req.size = st.req.data.length
  lt : st.req.data.length < 2 ^ 31
  at_stage : SendAt sha256 st

theorem isendRequest_bounded {data : List UInt8} (h : data.length < 2 ^ 31) :
    SendBounded sha256 ⟨isendRequest data, none⟩ where
  size_eq := rfl
  lt := h
  at_stage := .header rfl rfl (isFingerprint_isendRequest data) rfl
    (isendRequest_offset data (Or.inl rfl)) (isendRequest_offset data (Or.inr rfl))

/-- A step that stays in bounds and keeps the invariant. -/
def SendStepOk (sha256 : List UInt8 → Digest) (st : SendState) (sock : Socket) (proc : Process)
    (choice : Choice) : Prop :=
  ∃ flow st' sock' proc', processSend sha256 st sock proc choice = some (flow, st', sock', proc') ∧
    SendBounded sha256 st' ∧ proc'.Sound

variable {st : SendState} {sock : Socket} {proc : Process} {choice : Choice}

theorem SendBounded.compute (h : SendBounded sha256 st) (hproc : proc.Sound)
    (hstage : st.req.stage = .computeFingerprints) (hloop : st.inserting = none)
    (hne : st.req.data ≠ []) (hoffset : loadInt st.req.head fingerprintHeader.offsetPos = 0)
    (hfit : ∀ fps, doFingerprinting sha256 shippedSettings st.req.data = some fps →
      fps.length ≤ maxFingerprintsPerReq) :
    SendStepOk sha256 st sock proc choice := by
  obtain ⟨fps, hrun, -⟩ := @doFingerprinting_isPartition sha256 _ shipped_ordered st.req.data
  have hcount := hfit fps hrun
  obtain ⟨offsets, hcompute, hoffsets⟩ := processComputeFingerprints_fits shipped_ordered hrun
    (Nat.lt_trans h.lt (by decide)) hcount
  rw [← hproc.settings] at hcompute
  refine ⟨_, _, _, _, processSend_compute hstage hcompute, ⟨h.size_eq, h.lt, ?_⟩, hproc⟩
  refine .insert fps rfl ⟨hrun, hcount, fingerprintedHead_packed _ _,
    numFingerprints_fingerprintedHead _ _ (Nat.lt_of_le_of_lt hcount (by decide)), hoffsets, rfl⟩
    hne (fun i cur hi => absurd (hloop.symm.trans hi) (by simp)) ?_ rfl ⟨rfl, rfl, rfl, rfl⟩
  refine (loadInt_congr fun a ha ha' => ?_).trans hoffset
  exact fingerprintedHead_of_ne _ _
      (Or.inr ⟨Nat.le_trans (by decide) ha, Nat.lt_of_lt_of_le ha' (by decide)⟩)

theorem SendBounded.insert (h : SendBounded sha256 st) (hproc : proc.Sound) {fps : List Fingerprint}
    (hstage : st.req.stage = .insertOutboundFingerprints) (hfps : Fingerprinted sha256 fps st.req)
    (hne : st.req.data ≠ [])
    (hloop : ∀ i cur, st.inserting = some (i, cur) → i ≤ fps.length ∧ cur = boundary fps i)
    (hoffset : loadInt st.req.head fingerprintHeader.offsetPos = 0)
    (hsend : st.req.sendFingerprintOffset = 0) (hreply : AwaitsReply st.req) :
    SendStepOk sha256 st sock proc choice := by
  have hlt : st.req.data.length < 2 ^ 64 := Nat.lt_trans h.lt (by decide)
  have hnext (inserting : Option (Nat × Nat)) : SendBounded sha256
      { st.goto .sendFingerprintHeader with inserting := inserting } :=
    ⟨h.size_eq, h.lt, .fingerprintHeader fps rfl ⟨hfps.run, hfps.fit, hfps.packed, hfps.num,
      hfps.offsets, hfps.bytes⟩ hoffset hsend hreply⟩
  have hturn {i cur : Nat} (hi : i ≤ fps.length) (hcur : cur = boundary fps i) :
      SendBounded sha256 { st with inserting := some (i, cur) } := by
    refine ⟨h.size_eq, h.lt, .insert fps hstage hfps hne (fun i' cur' heq => ?_) hoffset hsend
      hreply⟩
    obtain ⟨rfl, rfl⟩ := Prod.mk.inj (Option.some_inj.mp heq)
    exact ⟨hi, hcur⟩
  cases hins : st.inserting with
  | none =>
      rcases processSend_insertStart hstage hins with hstep | hstep | hstep
      · exact ⟨_, _, _, _, hstep, h, hproc⟩
      · exact ⟨_, _, _, _, hstep, hnext st.inserting, hproc⟩
      · exact ⟨_, _, _, _, hstep, hturn (Nat.zero_le _) (boundary_zero fps).symm, hproc⟩
  | some locals =>
      obtain ⟨i, cur⟩ := locals
      obtain ⟨hi, rfl⟩ := hloop i cur hins
      rcases Nat.lt_or_eq_of_le hi with hi | hi
      · have hcall := chunk_insertable hfps.run hne hi
        obtain ⟨r, cache, entry, hrun, hinserted⟩ :=
          hproc.ok.insertFingerprint_cases hcall (some choice.uninit)
        have hend := chunk_end_le hfps.run hi
        have hcur : (boundary fps i + fps[i].contentSize) % 2 ^ 64 = boundary fps (i + 1) := by
          rw [boundary_succ hi]
          exact Nat.mod_eq_of_lt (by omega)
        rcases processSend_insert hstage hins (by rw [hfps.num]; exact hi) (hfps.get hlt hi) hrun
            with
          ⟨-, hstep⟩ | ⟨-, hstep⟩
        · exact ⟨_, _, _, _, hstep, hnext none, hproc.inserted hinserted true⟩
        · exact ⟨_, _, _, _, hstep, hturn hi hcur, hproc.inserted hinserted proc.toSkipInsertCache⟩
      · have hstep := @processSend_insertEnd sha256 _ sock proc choice hstage _ _ hins
            (by rw [hfps.num]; omega)
        exact ⟨_, _, _, _, hstep, hnext none, hproc⟩

theorem SendBounded.content (h : SendBounded sha256 st) (hproc : proc.Sound)
    {fps : List Fingerprint}
    (hstage : st.req.stage = .sendMissingContent) (hfps : Fingerprinted sha256 fps st.req)
    (hnum : st.req.numMissing ≤ maxFingerprintsPerReq)
    (hoffset : ∀ ind (hind : ind < fps.length), missingInd st.req.missingFingerprintInds
      st.req.curReplyContentFingerprintInd = some ind →
      st.req.curReplyContentFingerprintOffset ≤ fps[ind].contentSize)
    (hinds : ∀ i < st.req.numMissing, ∀ ind, missingInd st.req.missingFingerprintInds i = some ind →
      ind < numFingerprints st.req.head) : SendStepOk sha256 st sock proc choice := by
  have hlt : st.req.data.length < 2 ^ 64 := Nat.lt_trans h.lt (by decide)
  rcases Nat.lt_or_ge st.req.curReplyContentFingerprintInd st.req.numMissing with hi | hi
  · have hind : missingInd st.req.missingFingerprintInds st.req.curReplyContentFingerprintInd =
        some (loadU64 st.req.missingFingerprintInds
          (st.req.curReplyContentFingerprintInd * sizeofU64)) :=
      if_pos (Nat.lt_of_lt_of_le hi hnum)
    generalize loadU64 st.req.missingFingerprintInds
      (st.req.curReplyContentFingerprintInd * sizeofU64) = ind at hind
    have hchunk : ind < fps.length := by
      rw [← hfps.num]
      exact hinds _ hi ind hind
    rcases processSend_content hstage hi hind (hfps.offset hchunk) (hfps.get hlt hchunk)
      (hoffset ind hchunk hind) (chunk_end_le hfps.run hchunk) hlt with ⟨n, hn, hstep⟩ | hstep
    · refine ⟨_, _, _, _, hstep, ⟨h.size_eq, h.lt, ?_⟩, hproc⟩
      refine .content fps hstage ⟨hfps.run, hfps.fit, hfps.packed, hfps.num, hfps.offsets,
        hfps.bytes⟩ hnum fun ind' hchunk' hind' => ?_
      obtain rfl : ind = ind' := Option.some_inj.mp (hind.symm.trans hind')
      exact hn
    · refine ⟨_, _, _, _, hstep, ⟨h.size_eq, h.lt, ?_⟩, hproc⟩
      exact .content fps hstage ⟨hfps.run, hfps.fit, hfps.packed, hfps.num, hfps.offsets,
        hfps.bytes⟩ hnum fun _ _ _ => Nat.zero_le _
  · exact ⟨_, _, _, _, processSend_contentEnd hstage hi, ⟨h.size_eq, h.lt, .complete rfl⟩, hproc⟩

/-- A step of the sending party that meets the condition stays in bounds. -/
theorem SendBounded.next (h : SendBounded sha256 st) (hproc : proc.Sound)
    (hfit : RepliesFit sha256 ⟨st, sock, proc⟩ (.step choice)) :
    SendStepOk sha256 st sock proc choice := by
  have hlt : st.req.data.length < 2 ^ 64 := Nat.lt_trans h.lt (by decide)
  have hkeep {fps : List Fingerprint} (hfps : Fingerprinted sha256 fps st.req) (offset : Nat)
      (stage : SendReqStage) : Fingerprinted sha256 fps { st.req with
        sendFingerprintOffset := offset, stage := stage } :=
    ⟨hfps.run, hfps.fit, hfps.packed, hfps.num, hfps.offsets, hfps.bytes⟩
  cases h.at_stage with
  | header hstage hloop hpath hstart hgeneral hfingerprint =>
      simp only [RepliesFit, hstage] at hfit
      rcases @processSend_header _ _ sock proc _ hstage hgeneral hfit with hstep | hstep
      · exact ⟨_, _, _, _, hstep, h, hproc⟩
      · refine ⟨_, _, _, _, hstep, ⟨h.size_eq, h.lt, ?_⟩, hproc⟩
        by_cases hlong : fingerprintMsgSizeThreshold < st.req.data.length
        · rw [hpath, decide_eq_true hlong, if_pos rfl]
          exact .compute rfl hloop (List.length_pos_iff.mp (Nat.zero_lt_of_lt hlong)) hfingerprint
        · rw [hpath, decide_eq_false hlong, if_neg (by decide)]
          exact .regData rfl (Nat.le_trans (Nat.le_of_eq hstart) (Nat.zero_le _))
  | regData hstage hoffset =>
      rcases processSend_regData hstage hoffset h.size_eq hlt with ⟨n, hn, hstep⟩ | hstep
      · refine ⟨_, _, _, _, hstep, ⟨h.size_eq, h.lt, .regData hstage ?_⟩, hproc⟩
        exact Nat.le_trans hn (Nat.le_of_eq h.size_eq.symm)
      · exact ⟨_, _, _, _, hstep, ⟨h.size_eq, h.lt, .complete rfl⟩, hproc⟩
  | compute hstage hloop hne hfingerprint =>
      simp only [RepliesFit, hstage] at hfit
      exact h.compute hproc hstage hloop hne hfingerprint hfit
  | insert fps hstage hfps hne hloop hfingerprint hsend hreply =>
      exact h.insert hproc hstage hfps hne hloop hfingerprint hsend hreply
  | fingerprintHeader fps hstage hfps hfingerprint hsend hreply =>
      simp only [RepliesFit, hstage] at hfit
      rcases @processSend_fingerprintHeader _ _ sock proc _ hstage hfingerprint hfit with
        hstep | hstep
      · exact ⟨_, _, _, _, hstep, h, hproc⟩
      · refine ⟨_, _, _, _, hstep, ⟨h.size_eq, h.lt, ?_⟩, hproc⟩
        exact .packaged fps rfl (hkeep hfps _ _) (Nat.le_trans (Nat.le_of_eq hsend) (Nat.zero_le _))
          hreply
  | packaged fps hstage hfps hoffset hreply =>
      rcases processSend_packaged hstage hoffset hfps.bytes_le with ⟨n, hn, hstep⟩ | hstep
      · exact
            ⟨_, _, _, _, hstep, ⟨h.size_eq, h.lt, .packaged fps hstage (hkeep hfps _ _) hn hreply⟩,
          hproc⟩
      · refine ⟨_, _, _, _, hstep, ⟨h.size_eq, h.lt, ?_⟩, hproc⟩
        exact .missingHeader fps rfl (hkeep hfps _ _)
          (Nat.le_trans (Nat.le_of_eq hreply.1) (Nat.zero_le _)) hreply.2
  | missingHeader fps hstage hfps hoffset hinds =>
      rcases processSend_missingHeader hstage hoffset with
        ⟨n, hn, -, hstep⟩ | ⟨-, req, rfl, hstep⟩
      · refine ⟨_, _, _, _, hstep, ⟨h.size_eq, h.lt, .missingHeader fps hstage ?_ hn hinds⟩, hproc⟩
        exact ⟨hfps.run, hfps.fit, hfps.packed, hfps.num, hfps.offsets, hfps.bytes⟩
      · refine ⟨_, _, _, _, hstep, ⟨h.size_eq, h.lt, ?_⟩, hproc⟩
        split
        · exact .complete rfl
        · exact .missing fps rfl ⟨hfps.run, hfps.fit, hfps.packed, hfps.num, hfps.offsets,
            hfps.bytes⟩ (Nat.le_trans (Nat.le_of_eq hinds.1) (Nat.zero_le _)) hinds.2
  | missing fps hstage hfps hoffset hcontent =>
      simp only [RepliesFit, hstage] at hfit
      rcases processSend_missing hstage hfit hoffset with ⟨n, hn, -, hstep⟩ | ⟨-, hstep⟩
      · refine ⟨_, _, _, _, hstep, ⟨h.size_eq, h.lt, .missing fps hstage ?_ hn hcontent⟩, hproc⟩
        exact ⟨hfps.run, hfps.fit, hfps.packed, hfps.num, hfps.offsets, hfps.bytes⟩
      · refine ⟨_, _, _, _, hstep, ⟨h.size_eq, h.lt, .content fps rfl ?_ hfit ?_⟩, hproc⟩
        · exact ⟨hfps.run, hfps.fit, hfps.packed, hfps.num, hfps.offsets, hfps.bytes⟩
        · exact fun _ _ _ => Nat.le_trans (Nat.le_of_eq hcontent.2) (Nat.zero_le _)
  | content fps hstage hfps hnum hoffset =>
      simp only [RepliesFit, hstage] at hfit
      exact h.content hproc hstage hfps hnum hoffset hfit
  | complete hstage => exact ⟨_, _, _, _, processSend_complete hstage, h, hproc⟩

/-- A run of the sending party whose steps meet the condition stays in bounds. -/
theorem send_run_inBounds {data : List UInt8} (hlen : data.length < 2 ^ 31) (hproc : proc.Sound)
    {events : List PartyEvent}
    (hfit : Run.Guarded (Party.next (processSend sha256)) (RepliesFit sha256)
      ⟨⟨isendRequest data, none⟩, sock, proc⟩ events) :
    Run.run (Party.next (processSend sha256)) ⟨⟨isendRequest data, none⟩, sock, proc⟩ events ≠
      none := by
  obtain ⟨p, hrun, -⟩ := Run.run_total
    (I := fun p : Party SendState => SendBounded sha256 p.st ∧ p.proc.Sound)
    (fun p event hp hguard => by
      cases event with
      | arrive bs => exact ⟨_, rfl, hp⟩
      | other proc => exact ⟨_, rfl, hp.1, hguard⟩
      | step choice =>
          obtain ⟨flow, st', sock', proc', hstep, hst, hproc'⟩ := hp.1.next hp.2 hguard
          exact ⟨⟨st', sock', proc'⟩, by rw [Party.next, hstep, Option.map_some], hst, hproc'⟩)
    ⟨isendRequest_bounded hlen, hproc⟩ hfit
  exact fun hnone => Option.some_ne_none _ (hrun.symm.trans hnone)

end NetDedup.Transfer

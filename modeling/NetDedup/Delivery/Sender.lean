import NetDedup.Delivery.Contents
import NetDedup.Delivery.World
import NetDedup.Transfer.SendBounds

/-!
# The sending end

Where a send request stands in the two frames of its message, and what a step
of `process_send` does to that. The replies are the part of the backward frame
that has arrived.
-/

namespace NetDedup.Delivery

open Chunking Memory Store Transfer

/-- Where a send request can be, `p` bytes into the forward frame and `p'` bytes
into the backward frame. -/
inductive SenderAt (sha256 : List UInt8 → Digest) (missing : List Nat) (data : List UInt8)
    (st : SendState) (p p' : Nat) : Prop
  | header (hst : st = ⟨isendRequest data, none⟩) (hp : p = 0) (hp' : p' = 0)
  | regData (hstage : st.req.stage = .sendRegData) (hshort : ¬ Long data)
      (hoffset : st.req.offset ≤ data.length) (hp : p = generalHeader.size + st.req.offset)
      (hp' : p' = 0)
  | compute (hst : st = SendState.goto ⟨isendRequest data, none⟩ .computeFingerprints)
      (hlong : Long data) (hp : p = generalHeader.size) (hp' : p' = 0)
  | insert (hstage : st.req.stage = .insertOutboundFingerprints) (hlong : Long data)
      (hfps : Fingerprinted sha256 (fingerprints sha256 data) st.req)
      (hloop : ∀ i cur, st.inserting = some (i, cur) →
        i ≤ (fingerprints sha256 data).length ∧ cur = boundary (fingerprints sha256 data) i)
      (hheader : loadInt st.req.head fingerprintHeader.offsetPos = 0)
      (hsend : st.req.sendFingerprintOffset = 0) (hreply : AwaitsReply st.req)
      (hp : p = generalHeader.size) (hp' : p' = 0)
  | fingerprintHeader (hstage : st.req.stage = .sendFingerprintHeader) (hlong : Long data)
      (hfps : Fingerprinted sha256 (fingerprints sha256 data) st.req)
      (hheader : loadInt st.req.head fingerprintHeader.offsetPos = 0)
      (hsend : st.req.sendFingerprintOffset = 0) (hreply : AwaitsReply st.req)
      (hp : p = generalHeader.size) (hp' : p' = 0)
  | packaged (hstage : st.req.stage = .sendPackagedFingerprints) (hlong : Long data)
      (hfps : Fingerprinted sha256 (fingerprints sha256 data) st.req)
      (hoffset : st.req.sendFingerprintOffset ≤ st.req.packagedFingerprintsSizeBytes)
      (hreply : AwaitsReply st.req) (hp : p = fingerprintsPos + st.req.sendFingerprintOffset)
      (hp' : p' = 0)
  | missingHeader (hstage : st.req.stage = .recvMissingFingerprintHeader) (hlong : Long data)
      (hfps : Fingerprinted sha256 (fingerprints sha256 data) st.req)
      (hoffset : st.req.missingFingerprintHeaderOffset ≤ sizeofU64)
      (hread : read st.req.missingFingerprintHeader 0 st.req.missingFingerprintHeaderOffset =
        (leBytes sizeofU64 missing.length).take st.req.missingFingerprintHeaderOffset)
      (hinds : AwaitsInds st.req) (hp : p = contentPos (fingerprints sha256 data))
      (hp' : p' = st.req.missingFingerprintHeaderOffset)
  | missing (hstage : st.req.stage = .recvMissingFingerprints) (hlong : Long data)
      (hfps : Fingerprinted sha256 (fingerprints sha256 data) st.req)
      (hnum : st.req.numMissing = missing.length)
      (hoffset : st.req.recvMissingFingerprintIndsOffset ≤ missing.length * sizeofU64)
      (hread : read st.req.missingFingerprintInds 0 st.req.recvMissingFingerprintIndsOffset =
        (missing.flatMap (leBytes sizeofU64)).take st.req.recvMissingFingerprintIndsOffset)
      (hcontent : AwaitsContent st.req) (hp : p = contentPos (fingerprints sha256 data))
      (hp' : p' = sizeofU64 + st.req.recvMissingFingerprintIndsOffset)
  | content (hstage : st.req.stage = .sendMissingContent) (hlong : Long data)
      (hfps : Fingerprinted sha256 (fingerprints sha256 data) st.req)
      (hnum : st.req.numMissing = missing.length)
      (hinds : ∀ (t : Nat) (ht : t < missing.length),
        missingInd st.req.missingFingerprintInds t = some missing[t])
      (hle : st.req.curReplyContentFingerprintInd ≤ missing.length)
      (hoffset : ∀ i (hi : i < (fingerprints sha256 data).length),
        missing[st.req.curReplyContentFingerprintInd]? = some i →
        st.req.curReplyContentFingerprintOffset ≤ (fingerprints sha256 data)[i].contentSize)
      (hend : st.req.curReplyContentFingerprintInd = missing.length →
        st.req.curReplyContentFingerprintOffset = 0)
      (hp : p = missingPos sha256 missing data st.req.curReplyContentFingerprintInd +
        st.req.curReplyContentFingerprintOffset)
      (hp' : p' = (backwardFrame data missing).length)
  | complete (hstage : st.req.stage = .sendComplete)
      (hp : p = (forwardFrame sha256 data missing).length)
      (hp' : p' = (backwardFrame data missing).length)

/-- A send request for `data`. -/
structure Sender (sha256 : List UInt8 → Digest) (missing : List Nat) (data : List UInt8)
    (st : SendState) (p p' : Nat) : Prop where
  data_eq : st.req.data = data
  size_eq : st.req.size = data.length
  at_stage : SenderAt sha256 missing data st p p'

theorem isendRequest_sender (sha256 : List UInt8 → Digest) (missing : List Nat)
    (data : List UInt8) : Sender sha256 missing data ⟨isendRequest data, none⟩ 0 0 :=
  ⟨rfl, rfl, .header rfl rfl rfl⟩

/-- Before any reply has arrived the missing chunks do not matter. -/
theorem Sender.undecided {sha256 : List UInt8 → Digest} {missing : List Nat} {data : List UInt8}
    {st : SendState} {p : Nat} (hlong : Long data) (h : Sender sha256 missing data st p 0) :
    p ≤ contentPos (fingerprints sha256 data) ∧
      ∀ missing', Sender sha256 missing' data st p 0 := by
  have hnil : 0 ≠ (backwardFrame data missing).length :=
    (Nat.ne_of_lt (List.length_pos_iff.mpr (backwardFrame_ne_nil hlong)))
  have hpos : generalHeader.size ≤ contentPos (fingerprints sha256 data) :=
    Nat.le_trans (Nat.le_add_right _ _) (Nat.le_add_right _ _)
  obtain ⟨hdata, hsize, hat⟩ := h
  cases hat with
  | header hst hp hp' =>
      exact ⟨by omega, fun _ => ⟨hdata, hsize, .header hst hp hp'⟩⟩
  | regData _ hshort => exact absurd hlong hshort
  | compute hst hlong hp hp' =>
      exact ⟨by omega, fun _ => ⟨hdata, hsize, .compute hst hlong hp hp'⟩⟩
  | insert hstage hlong hfps hloop hheader hsend hreply hp hp' =>
      exact ⟨by omega, fun _ =>
        ⟨hdata, hsize, .insert hstage hlong hfps hloop hheader hsend hreply hp hp'⟩⟩
  | fingerprintHeader hstage hlong hfps hheader hsend hreply hp hp' =>
      exact ⟨by omega, fun _ =>
        ⟨hdata, hsize, .fingerprintHeader hstage hlong hfps hheader hsend hreply hp hp'⟩⟩
  | packaged hstage hlong hfps hoffset hreply hp hp' =>
      refine ⟨?_, fun _ => ⟨hdata, hsize, .packaged hstage hlong hfps hoffset hreply hp hp'⟩⟩
      rw [hp, contentPos, ← hfps.bytes]
      exact Nat.add_le_add_left hoffset _
  | missingHeader hstage hlong hfps hoffset _ hinds hp hp' =>
      refine ⟨Nat.le_of_eq hp, fun _ => ⟨hdata, hsize, ?_⟩⟩
      refine .missingHeader hstage hlong hfps hoffset ?_ hinds hp hp'
      rw [← hp', read_zero, List.take_zero]
  | missing _ _ _ _ _ _ _ _ hp' => exact absurd hp' (by rw [sizeofU64]; omega)
  | content _ _ _ _ _ _ _ _ _ hp' => exact absurd hp' hnil
  | complete _ _ hp' => exact absurd hp' hnil

section Words

variable {m : Mem} {base off n : Nat} {xs bs : List UInt8}

/-- A block that arrives in parts. -/
theorem read_write_take (h : read m base off = xs.take off) (hbs : bs = (xs.drop off).take n)
    (hn : off + n ≤ xs.length) :
    read (write m (base + off) bs) base (off + n) = xs.take (off + n) := by
  have hlen : bs.length = n := by
    rw [hbs, List.length_take, List.length_drop]
    omega
  rw [← hlen, read_write_append, h, hlen, hbs, ← List.take_add]

/-- A word of an array of words. -/
theorem loadU64_of_words {words : List Nat} (hread : read m 0 (words.length * sizeofU64) =
    words.flatMap (leBytes sizeofU64)) {t : Nat} (ht : t < words.length)
    (hlt : words[t] < 2 ^ 64) : loadU64 m (t * sizeofU64) = words[t] := by
  have hle : t * sizeofU64 + sizeofU64 ≤ words.length * sizeofU64 := by
    rw [← Nat.succ_mul]
    exact Nat.mul_le_mul_right _ ht
  refine loadU64_of_read hlt ?_
  have hwindow := flatMap_window (leBytes sizeofU64) (length_leBytes sizeofU64) words ht
  rw [← hread, Nat.mul_comm, drop_read _ (by omega), take_read _ (by omega),
    Nat.zero_add] at hwindow
  exact hwindow

end Words

/-- What a step of the sending end does: it sends the next `m` bytes of its frame
and takes the next `r` bytes of the reply. -/
structure SenderMoves (sha256 : List UInt8 → Digest) (C : Set (List UInt8)) (missing : List Nat)
    (data : List UInt8) (c : FingerprintCache) (backward : List UInt8) (p p' : Nat)
    (st' : SendState) (sock' : Socket) (c' : FingerprintCache) (m r : Nat) : Prop where
  sender : Sender sha256 missing data st' (p + m) (p' + r)
  sent : sock'.sent = ((forwardFrame sha256 data missing).drop p).take m
  rest : sock'.inbound = backward.drop r
  took : backward.take r = ((backwardFrame data missing).drop p').take r
  sound : SoundCache sha256 C c'
  grows : Grows c c'

/-- A step of the sending end that does not fault. -/
def SenderSteps (sha256 : List UInt8 → Digest) (C : Set (List UInt8)) (missing : List Nat)
    (data : List UInt8) (st : SendState) (backward : List UInt8) (proc : Process)
    (choice : Choice) (p p' : Nat) : Prop :=
  ∃ flow st' sock' proc' m r,
    processSend sha256 st ⟨[], backward⟩ proc choice = some (flow, st', sock', proc') ∧
    SenderMoves sha256 C missing data proc.globalFingerprintCache backward p p' st' sock'
      proc'.globalFingerprintCache m r

section Step

variable {sha256 : List UInt8 → Digest} {C : Set (List UInt8)} {known : Set Digest}
  {missing : List Nat} {data backward : List UInt8} {st st' : SendState}
  {proc proc' : Process} {choice : Choice} {flow : Flow} {p p' : Nat}

theorem SenderSteps.stay (hstep : processSend sha256 st ⟨[], backward⟩ proc choice =
      some (flow, st', ⟨[], backward⟩, proc'))
    (hsound : SoundCache sha256 C proc'.globalFingerprintCache)
    (hgrows : Grows proc.globalFingerprintCache proc'.globalFingerprintCache)
    (h : Sender sha256 missing data st' p p') :
    SenderSteps sha256 C missing data st backward proc choice p p' :=
  ⟨_, _, _, _, 0, 0, hstep, h, by rw [List.take_zero], rfl, by rw [List.take_zero, List.take_zero],
    hsound, hgrows⟩

theorem SenderSteps.push {bs : List UInt8} (m : Nat)
    (hstep : processSend sha256 st ⟨[], backward⟩ proc choice =
      some (flow, st', Socket.push ⟨[], backward⟩ bs, proc))
    (hsound : SoundCache sha256 C proc.globalFingerprintCache)
    (hbs : bs = ((forwardFrame sha256 data missing).drop p).take m)
    (h : Sender sha256 missing data st' (p + m) p') :
    SenderSteps sha256 C missing data st backward proc choice p p' :=
  ⟨_, _, _, _, m, 0, hstep, h, hbs, rfl, by rw [List.take_zero, List.take_zero], hsound,
    Grows.refl _⟩

theorem SenderSteps.pull {r : Nat} (hstep : processSend sha256 st ⟨[], backward⟩ proc choice =
      some (flow, st', Socket.pull ⟨[], backward⟩ r, proc))
    (hsound : SoundCache sha256 C proc.globalFingerprintCache)
    (htook : backward.take r = ((backwardFrame data missing).drop p').take r)
    (h : Sender sha256 missing data st' p (p' + r)) :
    SenderSteps sha256 C missing data st backward proc choice p p' :=
  ⟨_, _, _, _, 0, r, hstep, h, by rw [List.take_zero]; rfl, rfl, htook, hsound, Grows.refl _⟩

variable (hsound : SoundCache sha256 C proc.globalFingerprintCache)

include hsound

theorem sender_header (hst : st = ⟨isendRequest data, none⟩)
    (hwhole : choice.socket.Whole generalHeader.size generalHeader.size) :
    SenderSteps sha256 C missing data st backward proc choice 0 0 := by
  subst hst
  have hoffset : loadInt (isendRequest data).head generalHeader.offsetPos = 0 :=
    isendRequest_offset data (Or.inl rfl)
  rcases @processSend_header sha256 ⟨isendRequest data, none⟩ ⟨[], backward⟩ proc choice rfl hoffset
    hwhole with hstep | hstep
  · exact .stay hstep hsound (Grows.refl _) (isendRequest_sender sha256 missing data)
  · refine .push generalHeader.size hstep hsound ?_ ⟨rfl, rfl, ?_⟩
    · rw [List.drop_zero, forwardFrame_header, header]
    · rw [isFingerprint_isendRequest]
      by_cases hlong : Long data
      · rw [decide_eq_true hlong, if_pos rfl]
        exact .compute rfl hlong (Nat.zero_add _) rfl
      · rw [decide_eq_false hlong, if_neg (by decide)]
        exact .regData rfl hlong (Nat.zero_le _) (Nat.zero_add _) rfl

theorem sender_regData (hdata : st.req.data = data) (hsize : st.req.size = data.length)
    (hlt : data.length < 2 ^ 31) (hstage : st.req.stage = .sendRegData) (hshort : ¬ Long data)
    (hoffset : st.req.offset ≤ data.length) : SenderSteps sha256 C missing data st backward proc
      choice (generalHeader.size + st.req.offset) 0 := by
  subst hdata
  rcases @processSend_regData sha256 st ⟨[], backward⟩ proc choice hstage
    (Nat.le_trans hoffset (Nat.le_of_eq hsize.symm)) hsize (Nat.lt_trans hlt (by decide)) with
    ⟨n, hn, hstep⟩ | hstep
  · refine .push n hstep hsound ?_ ⟨rfl, hsize, ?_⟩
    · rw [forwardFrame_data sha256 missing hshort]
    · exact .regData hstage hshort hn (Nat.add_assoc ..) rfl
  · refine .push (st.req.data.length - st.req.offset) hstep hsound ?_ ⟨rfl, hsize, ?_⟩
    · rw [forwardFrame_data sha256 missing hshort, List.take_of_length_le]
      rw [List.length_drop]
    · refine .complete rfl ?_ ?_
      · rw [length_forwardFrame_short hshort]
        omega
      · rw [backwardFrame_short hshort, List.length_nil]

theorem sender_compute (hsendable : Sendable sha256 C data)
    (hst : st = SendState.goto ⟨isendRequest data, none⟩ .computeFingerprints)
    (hlong : Long data) :
    SenderSteps sha256 C missing data st backward proc choice generalHeader.size 0 := by
  subst hst
  have hcount := hsendable.fit hlong
  obtain ⟨offsets, hcompute, hoffsets⟩ := @processComputeFingerprints_fits sha256 _
    (SendState.goto ⟨isendRequest data, none⟩ .computeFingerprints).req _ shipped_ordered
    fingerprints_run (Nat.lt_trans hsendable.lt (by decide)) hcount
  rw [← hsound.settings] at hcompute
  refine .stay (processSend_compute rfl hcompute) hsound (Grows.refl _) ⟨rfl, rfl, ?_⟩
  refine .insert rfl hlong ⟨fingerprints_run, hcount, fingerprintedHead_packed _ _,
    numFingerprints_fingerprintedHead _ _ (Nat.lt_of_le_of_lt hcount (by decide)), hoffsets, rfl⟩
    (fun i cur hi => absurd hi (by simp [SendState.goto])) ?_ rfl ⟨rfl, rfl, rfl, rfl⟩ rfl rfl
  refine (loadInt_congr fun a ha ha' => ?_).trans (isendRequest_offset data (Or.inr rfl))
  exact fingerprintedHead_of_ne _ _
    (Or.inr ⟨Nat.le_trans (by decide) ha, Nat.lt_of_lt_of_le ha' (by decide)⟩)

theorem sender_insert (hsendable : Sendable sha256 C data) (hdata : st.req.data = data)
    (hsize : st.req.size = data.length)
    (hstage : st.req.stage = .insertOutboundFingerprints) (hlong : Long data)
    (hfps : Fingerprinted sha256 (fingerprints sha256 data) st.req)
    (hloop : ∀ i cur, st.inserting = some (i, cur) →
      i ≤ (fingerprints sha256 data).length ∧ cur = boundary (fingerprints sha256 data) i)
    (hheader : loadInt st.req.head fingerprintHeader.offsetPos = 0)
    (hsend : st.req.sendFingerprintOffset = 0) (hreply : AwaitsReply st.req) :
    SenderSteps sha256 C missing data st backward proc choice generalHeader.size 0 := by
  subst hdata
  have hlt : st.req.data.length < 2 ^ 64 := Nat.lt_trans hsendable.lt (by decide)
  have hnext (inserting : Option (Nat × Nat)) : Sender sha256 missing st.req.data
      { st.goto .sendFingerprintHeader with inserting := inserting } generalHeader.size 0 :=
    ⟨rfl, hsize, .fingerprintHeader rfl hlong ⟨hfps.run, hfps.fit, hfps.packed, hfps.num,
      hfps.offsets, hfps.bytes⟩ hheader hsend hreply rfl rfl⟩
  have hturn {i cur : Nat} (hi : i ≤ (fingerprints sha256 st.req.data).length)
      (hcur : cur = boundary (fingerprints sha256 st.req.data) i) : Sender sha256 missing st.req.data
        { st with inserting := some (i, cur) } generalHeader.size 0 := by
    refine ⟨rfl, hsize, .insert hstage hlong hfps (fun i' cur' heq => ?_) hheader hsend hreply
      rfl rfl⟩
    obtain ⟨rfl, rfl⟩ := Prod.mk.inj (Option.some_inj.mp heq)
    exact ⟨hi, hcur⟩
  cases hins : st.inserting with
  | none =>
      rcases processSend_insertStart hstage hins with hstep | hstep | hstep
      · exact .stay hstep hsound (Grows.refl _)
          ⟨rfl, hsize, .insert hstage hlong hfps hloop hheader hsend hreply rfl rfl⟩
      · exact .stay hstep hsound (Grows.refl _) (hnext st.inserting)
      · exact .stay hstep hsound (Grows.refl _) (hturn (Nat.zero_le _) (boundary_zero _).symm)
  | some locals =>
      obtain ⟨i, cur⟩ := locals
      obtain ⟨hi, rfl⟩ := hloop i cur hins
      rcases Nat.lt_or_eq_of_le hi with hi | hi
      · obtain ⟨r, cache, entry, hrun, hsound', hgrows⟩ := hsound.insert
          (hsendable.insert hi hlong (chunk_eq hi).symm) (some choice.uninit)
        have hend := chunk_end_le fingerprints_run hi
        have hcur : (boundary (fingerprints sha256 st.req.data) i +
            (fingerprints sha256 st.req.data)[i].contentSize) % 2 ^ 64 =
              boundary (fingerprints sha256 st.req.data) (i + 1) := by
          rw [boundary_succ hi]
          exact Nat.mod_eq_of_lt (Nat.lt_of_le_of_lt hend hlt)
        rcases processSend_insert hstage hins (by rw [hfps.num]; exact hi) (hfps.get hlt hi)
          hrun with ⟨-, hstep⟩ | ⟨-, hstep⟩
        · exact .stay hstep hsound' hgrows (hnext none)
        · exact .stay hstep hsound' hgrows (hturn hi hcur)
      · have hstep := @processSend_insertEnd sha256 _ ⟨[], backward⟩ proc choice hstage _ _ hins
          (by rw [hfps.num]; omega)
        exact .stay hstep hsound (Grows.refl _) (hnext none)

theorem sender_fingerprintHeader (hdata : st.req.data = data) (hsize : st.req.size = data.length)
    (hstage : st.req.stage = .sendFingerprintHeader) (hlong : Long data)
    (hfps : Fingerprinted sha256 (fingerprints sha256 data) st.req)
    (hheader : loadInt st.req.head fingerprintHeader.offsetPos = 0)
    (hsend : st.req.sendFingerprintOffset = 0) (hreply : AwaitsReply st.req)
    (hwhole : choice.socket.Whole fingerprintHeader.size fingerprintHeader.size) :
    SenderSteps sha256 C missing data st backward proc choice generalHeader.size 0 := by
  have hcount : read st.req.head fingerprintHeader.pos fingerprintHeader.size =
      leBytes sizeofU64 (fingerprints sha256 data).length := by
    have hbytes := leBytes_leNat (read st.req.head fingerprintHeader.pos sizeofU64)
    rw [length_read] at hbytes
    rw [← hfps.num, numFingerprints, loadU64, hbytes]
    rfl
  rcases @processSend_fingerprintHeader sha256 st ⟨[], backward⟩ proc choice hstage hheader hwhole
    with hstep | hstep
  · exact .stay hstep hsound (Grows.refl _)
      ⟨hdata, hsize, .fingerprintHeader hstage hlong hfps hheader hsend hreply rfl rfl⟩
  · refine .push sizeofU64 hstep hsound ?_ ⟨hdata, hsize, ?_⟩
    · rw [forwardFrame_count sha256 missing hlong, hcount]
    · refine .packaged rfl hlong ⟨hfps.run, hfps.fit, hfps.packed, hfps.num, hfps.offsets,
        hfps.bytes⟩ (Nat.le_trans (Nat.le_of_eq hsend) (Nat.zero_le _)) hreply ?_ rfl
      change generalHeader.size + sizeofU64 = fingerprintsPos + st.req.sendFingerprintOffset
      rw [hsend]
      rfl

theorem sender_packaged (hdata : st.req.data = data) (hsize : st.req.size = data.length)
    (hstage : st.req.stage = .sendPackagedFingerprints) (hlong : Long data)
    (hfps : Fingerprinted sha256 (fingerprints sha256 data) st.req)
    (hoffset : st.req.sendFingerprintOffset ≤ st.req.packagedFingerprintsSizeBytes)
    (hreply : AwaitsReply st.req) : SenderSteps sha256 C missing data st backward proc choice
      (fingerprintsPos + st.req.sendFingerprintOffset) 0 := by
  have hbytes := hfps.bytes
  have hpart {n : Nat} (hn : st.req.sendFingerprintOffset + n ≤
      st.req.packagedFingerprintsSizeBytes) :
      read st.req.head (packagedPos + st.req.sendFingerprintOffset) n =
        ((forwardFrame sha256 data missing).drop
          (fingerprintsPos + st.req.sendFingerprintOffset)).take n := by
    rw [hbytes] at hn
    rw [forwardFrame_fingerprints sha256 missing hlong hn, ← hfps.packed, drop_read _ (by omega),
      take_read _ (by omega)]
  have hkeep (offset : Nat) (stage : SendReqStage) : Fingerprinted sha256
      (fingerprints sha256 data)
      { st.req with sendFingerprintOffset := offset, stage := stage } :=
    ⟨hfps.run, hfps.fit, hfps.packed, hfps.num, hfps.offsets, hfps.bytes⟩
  rcases @processSend_packaged sha256 st ⟨[], backward⟩ proc choice hstage hoffset hfps.bytes_le with
    ⟨n, hn, hstep⟩ | hstep
  · exact .push n hstep hsound (hpart hn) ⟨hdata, hsize, .packaged hstage hlong
      (hkeep _ _) hn hreply (Nat.add_assoc ..) rfl⟩
  · refine .push _ hstep hsound (hpart (Nat.le_of_eq (Nat.add_sub_cancel' hoffset)))
      ⟨hdata, hsize, ?_⟩
    refine .missingHeader rfl hlong (hkeep _ _)
      (Nat.le_trans (Nat.le_of_eq hreply.1) (Nat.zero_le _)) ?_ hreply.2 ?_ hreply.1.symm
    · simp only [SendState.goto, hreply.1, read_zero, List.take_zero]
    · rw [contentPos, ← hbytes]
      omega

section Replies

variable (hin : ∀ r ≤ backward.length, p' + r ≤ (backwardFrame data missing).length →
  backward.take r = ((backwardFrame data missing).drop p').take r)

include hin

theorem sender_missingHeader (hreplied : Replied sha256 known data missing)
    (hdata : st.req.data = data) (hsize : st.req.size = data.length)
    (hstage : st.req.stage = .recvMissingFingerprintHeader) (hlong : Long data)
    (hfps : Fingerprinted sha256 (fingerprints sha256 data) st.req)
    (hoffset : st.req.missingFingerprintHeaderOffset ≤ sizeofU64)
    (hread : read st.req.missingFingerprintHeader 0 st.req.missingFingerprintHeaderOffset =
      (leBytes sizeofU64 missing.length).take st.req.missingFingerprintHeaderOffset)
    (hinds : AwaitsInds st.req) (hp' : p' = st.req.missingFingerprintHeaderOffset) :
    SenderSteps sha256 C missing data st backward proc choice
      (contentPos (fingerprints sha256 data)) p' := by
  have hlen := @length_backwardFrame_long data missing hlong
  have htook {n : Nat} (hn : st.req.missingFingerprintHeaderOffset + n ≤ sizeofU64)
      (havail : n ≤ backward.length) :
      backward.take n = ((backwardFrame data missing).drop p').take n :=
    hin n havail (by omega)
  have hgrown {n : Nat} (hn : st.req.missingFingerprintHeaderOffset + n ≤ sizeofU64)
      (havail : n ≤ backward.length) :
      read (write st.req.missingFingerprintHeader st.req.missingFingerprintHeaderOffset
        (backward.take n)) 0 (st.req.missingFingerprintHeaderOffset + n) =
        (leBytes sizeofU64 missing.length).take (st.req.missingFingerprintHeaderOffset + n) := by
    have hbs := htook hn havail
    rw [hp', backwardFrame_count hlong hn] at hbs
    have h := read_write_take hread hbs (by rw [length_leBytes]; exact hn)
    rwa [Nat.zero_add] at h
  rcases @processSend_missingHeader sha256 st ⟨[], backward⟩ proc choice hstage hoffset with
    ⟨n, hn, havail, hstep⟩ | ⟨havail, req, rfl, hstep⟩
  · refine .pull hstep hsound (htook hn havail) ⟨hdata, hsize, ?_⟩
    refine .missingHeader hstage hlong ⟨hfps.run, hfps.fit, hfps.packed, hfps.num, hfps.offsets,
      hfps.bytes⟩ hn (hgrown hn havail) hinds rfl ?_
    rw [hp']
  · have hall := Nat.le_of_eq (Nat.add_sub_cancel' hoffset)
    have hheader := hgrown hall havail
    rw [Nat.add_sub_cancel' hoffset, List.take_of_length_le (Nat.le_of_eq (length_leBytes _ _))]
      at hheader
    have hnum := loadU64_of_read
      (Nat.lt_of_le_of_lt hreplied.fit (show maxFingerprintsPerReq < 2 ^ 64 by decide)) hheader
    refine .pull hstep hsound (htook hall havail) ⟨hdata, hsize, ?_⟩
    rw [DedupSendReq.numMissing, hnum]
    by_cases hnone : missing.length = 0
    · rw [if_pos hnone]
      rw [hnone] at hlen
      refine .complete rfl ?_ (by omega)
      rw [length_forwardFrame_long hlong, List.length_eq_zero_iff.mp hnone]
      rfl
    · rw [if_neg hnone]
      refine .missing rfl hlong ⟨hfps.run, hfps.fit, hfps.packed, hfps.num, hfps.offsets,
        hfps.bytes⟩ hnum (Nat.le_trans (Nat.le_of_eq hinds.1) (Nat.zero_le _)) ?_ hinds.2 rfl ?_
      · simp only [hinds.1, read_zero, List.take_zero]
      · simp only [hinds.1]
        omega

theorem sender_missing (hreplied : Replied sha256 known data missing)
    (hdata : st.req.data = data) (hsize : st.req.size = data.length)
    (hstage : st.req.stage = .recvMissingFingerprints) (hlong : Long data)
    (hfps : Fingerprinted sha256 (fingerprints sha256 data) st.req)
    (hnum : st.req.numMissing = missing.length)
    (hoffset : st.req.recvMissingFingerprintIndsOffset ≤ missing.length * sizeofU64)
    (hread : read st.req.missingFingerprintInds 0 st.req.recvMissingFingerprintIndsOffset =
      (missing.flatMap (leBytes sizeofU64)).take st.req.recvMissingFingerprintIndsOffset)
    (hcontent : AwaitsContent st.req)
    (hp' : p' = sizeofU64 + st.req.recvMissingFingerprintIndsOffset) :
    SenderSteps sha256 C missing data st backward proc choice
      (contentPos (fingerprints sha256 data)) p' := by
  have hlen := @length_backwardFrame_long data missing hlong
  have htook {n : Nat} (hn : st.req.recvMissingFingerprintIndsOffset + n ≤
      missing.length * sizeofU64) (havail : n ≤ backward.length) :
      backward.take n = ((backwardFrame data missing).drop p').take n :=
    hin n havail (by omega)
  have hgrown {n : Nat} (hn : st.req.recvMissingFingerprintIndsOffset + n ≤
      missing.length * sizeofU64) (havail : n ≤ backward.length) :
      read (write st.req.missingFingerprintInds st.req.recvMissingFingerprintIndsOffset
        (backward.take n)) 0 (st.req.recvMissingFingerprintIndsOffset + n) =
        (missing.flatMap (leBytes sizeofU64)).take
          (st.req.recvMissingFingerprintIndsOffset + n) := by
    have hbs := htook hn havail
    rw [hp', backwardFrame_words hlong] at hbs
    have h := read_write_take hread hbs (by rw [length_words]; exact hn)
    rwa [Nat.zero_add] at h
  rcases @processSend_missing sha256 st ⟨[], backward⟩ proc choice hstage
    (by rw [hnum]; exact hreplied.fit) (by rw [hnum]; exact hoffset) with
    ⟨n, hn, havail, hstep⟩ | ⟨havail, hstep⟩
  · rw [hnum] at hn
    refine .pull hstep hsound (htook hn havail) ⟨hdata, hsize, ?_⟩
    refine .missing hstage hlong ⟨hfps.run, hfps.fit, hfps.packed, hfps.num, hfps.offsets,
      hfps.bytes⟩ hnum hn (hgrown hn havail) hcontent rfl ?_
    rw [hp', Nat.add_assoc]
  · have hall : st.req.recvMissingFingerprintIndsOffset + (st.req.numMissing * sizeofU64 -
        st.req.recvMissingFingerprintIndsOffset) = missing.length * sizeofU64 := by
      rw [hnum]
      omega
    have hwords := hgrown (Nat.le_of_eq hall) havail
    rw [hall, List.take_of_length_le (Nat.le_of_eq length_words)] at hwords
    refine .pull hstep hsound (htook (Nat.le_of_eq hall) havail) ⟨hdata, hsize, ?_⟩
    refine .content rfl hlong ⟨hfps.run, hfps.fit, hfps.packed, hfps.num, hfps.offsets,
      hfps.bytes⟩ hnum (fun t ht => ?_) ?_ ?_ (fun _ => hcontent.2) ?_ ?_
    · have hchunk := hreplied.lt _ (List.getElem_mem ht)
      have hcount := Nat.lt_of_lt_of_le hchunk hfps.fit
      rw [missingInd, if_pos (Nat.lt_of_lt_of_le ht hreplied.fit), loadU64_of_words hwords ht
        (Nat.lt_trans hcount (by decide))]
    · exact Nat.le_trans (Nat.le_of_eq hcontent.1) (Nat.zero_le _)
    · exact fun _ _ _ => Nat.le_trans (Nat.le_of_eq hcontent.2) (Nat.zero_le _)
    · simp only [hcontent.1, hcontent.2]
      exact (@missingPos_zero sha256 data missing).symm
    · omega

end Replies

theorem sender_content (hreplied : Replied sha256 known data missing) (hlt : data.length < 2 ^ 31)
    (hdata : st.req.data = data) (hsize : st.req.size = data.length)
    (hstage : st.req.stage = .sendMissingContent) (hlong : Long data)
    (hfps : Fingerprinted sha256 (fingerprints sha256 data) st.req)
    (hnum : st.req.numMissing = missing.length)
    (hinds : ∀ (t : Nat) (ht : t < missing.length),
      missingInd st.req.missingFingerprintInds t = some missing[t])
    (hle : st.req.curReplyContentFingerprintInd ≤ missing.length)
    (hoffset : ∀ i (hi : i < (fingerprints sha256 data).length),
      missing[st.req.curReplyContentFingerprintInd]? = some i →
      st.req.curReplyContentFingerprintOffset ≤ (fingerprints sha256 data)[i].contentSize)
    (hend : st.req.curReplyContentFingerprintInd = missing.length →
      st.req.curReplyContentFingerprintOffset = 0) :
    SenderSteps sha256 C missing data st backward proc choice
      (missingPos sha256 missing data st.req.curReplyContentFingerprintInd +
        st.req.curReplyContentFingerprintOffset) (backwardFrame data missing).length := by
  subst hdata
  have hlt64 : st.req.data.length < 2 ^ 64 := Nat.lt_trans hlt (by decide)
  rcases Nat.lt_or_eq_of_le hle with ht | ht
  · have hi := hreplied.lt _ (List.getElem_mem ht)
    have hget := List.getElem?_eq_getElem ht
    have hlen := length_chunk hi
    have hpart {n : Nat} (hn : st.req.curReplyContentFingerprintOffset + n ≤
        (fingerprints sha256 st.req.data)[missing[st.req.curReplyContentFingerprintInd]].contentSize) :
        (st.req.data.drop (boundary (fingerprints sha256 st.req.data)
          missing[st.req.curReplyContentFingerprintInd] +
            st.req.curReplyContentFingerprintOffset)).take n =
          ((forwardFrame sha256 st.req.data missing).drop
            (missingPos sha256 missing st.req.data st.req.curReplyContentFingerprintInd +
              st.req.curReplyContentFingerprintOffset)).take n := by
      rw [forwardFrame_chunk sha256 hlong ht (by rw [hlen]; exact hn), chunk_part hi hn]
    have hle' := hoffset _ hi hget
    rcases @processSend_content sha256 st ⟨[], backward⟩ proc choice hstage (by rw [hnum]; exact ht)
      _ _ _ (hinds _ ht) (hfps.offset hi) (hfps.get hlt64 hi) hle'
      (chunk_end_le fingerprints_run hi) hlt64 with ⟨n, hn, hstep⟩ | hstep
    · refine .push n hstep hsound (hpart hn) ⟨rfl, hsize, ?_⟩
      refine .content hstage hlong ⟨hfps.run, hfps.fit, hfps.packed, hfps.num, hfps.offsets,
        hfps.bytes⟩ hnum hinds hle (fun i hi' hi'' => ?_) (fun h => absurd h (Nat.ne_of_lt ht))
        (Nat.add_assoc ..) rfl
      obtain rfl := Option.some_inj.mp (hget.symm.trans hi'')
      exact hn
    · refine .push _ hstep hsound (hpart (Nat.le_of_eq (Nat.add_sub_cancel' hle'))) ⟨rfl, hsize, ?_⟩
      refine .content hstage hlong ⟨hfps.run, hfps.fit, hfps.packed, hfps.num, hfps.offsets,
        hfps.bytes⟩ hnum hinds ht (fun _ _ _ => Nat.zero_le _) (fun _ => rfl) ?_ rfl
      rw [Nat.add_assoc, Nat.add_sub_cancel' hle', ← hlen]
      exact (missingPos_succ sha256 ht).symm
  · have hzero := hend ht
    refine .stay (processSend_contentEnd hstage (by rw [hnum]; omega)) hsound (Grows.refl _)
      ⟨rfl, hsize, .complete rfl ?_ rfl⟩
    rw [ht, hzero, Nat.add_zero, missingPos_length sha256 hlong]

/-- A step of the sending end goes on in its two frames. -/
theorem Sender.step (h : Sender sha256 missing data st p p')
    (hsendable : Sendable sha256 C data) (hreplied : Replied sha256 known data missing)
    (hin : ∀ r ≤ backward.length, p' + r ≤ (backwardFrame data missing).length →
      backward.take r = ((backwardFrame data missing).drop p').take r)
    (hwhole : SendsWhole st choice) :
    SenderSteps sha256 C missing data st backward proc choice p p' := by
  obtain ⟨hdata, hsize, hat⟩ := h
  cases hat with
  | header hst hp hp' =>
      subst hp hp'
      exact sender_header hsound hst (hwhole.1 (by rw [hst]; rfl))
  | regData hstage hshort hoffset hp hp' =>
      subst hp hp'
      exact sender_regData hsound hdata hsize hsendable.lt hstage hshort hoffset
  | compute hst hlong hp hp' =>
      subst hp hp'
      exact sender_compute hsound hsendable hst hlong
  | insert hstage hlong hfps hloop hheader hsend hreply hp hp' =>
      subst hp hp'
      exact sender_insert hsound hsendable hdata hsize hstage hlong hfps hloop hheader hsend
        hreply
  | fingerprintHeader hstage hlong hfps hheader hsend hreply hp hp' =>
      subst hp hp'
      exact sender_fingerprintHeader hsound hdata hsize hstage hlong hfps hheader hsend hreply
        (hwhole.2 hstage)
  | packaged hstage hlong hfps hoffset hreply hp hp' =>
      subst hp hp'
      exact sender_packaged hsound hdata hsize hstage hlong hfps hoffset hreply
  | missingHeader hstage hlong hfps hoffset hread hinds hp hp' =>
      subst hp
      exact sender_missingHeader hsound hin hreplied hdata hsize hstage hlong hfps hoffset hread
        hinds hp'
  | missing hstage hlong hfps hnum hoffset hread hcontent hp hp' =>
      subst hp
      exact sender_missing hsound hin hreplied hdata hsize hstage hlong hfps hnum hoffset hread
        hcontent hp'
  | content hstage hlong hfps hnum hinds hle hoffset hend hp hp' =>
      subst hp hp'
      exact sender_content hsound hreplied hsendable.lt hdata hsize hstage hlong hfps hnum hinds hle
        hoffset hend
  | complete hstage hp hp' =>
      exact .stay (processSend_complete hstage) hsound (Grows.refl _)
        ⟨hdata, hsize, .complete hstage hp hp'⟩

end Step

end NetDedup.Delivery

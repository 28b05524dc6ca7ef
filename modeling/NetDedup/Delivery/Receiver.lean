import NetDedup.Delivery.Buffer
import NetDedup.Delivery.Contents
import NetDedup.Delivery.Sender
import NetDedup.Lib.Filling

/-!
# The receiving end

Where a receive request stands in the two frames of its message, what its
buffer holds by then, and what a step of `process_recv` does to that. The
receiver decides which chunks are missing when its populate loop ends.
-/

namespace NetDedup.Delivery

open Chunking Memory Store Transfer

/-- Where a receive request can be, `q` bytes into the forward frame and `q'` bytes
into the backward frame. -/
inductive ReceiverAt (sha256 : List UInt8 → Digest) (known : Set Digest) (missing : List Nat)
    (data : List UInt8) (posted : Mem) (proc : Process) (st : RecvState) (q q' : Nat) : Prop
  | header (hst : st = ⟨irecvRequest st.req.size posted, none, none⟩) (hq : q = 0) (hq' : q' = 0)
  | regData (hstage : st.req.stage = .recvRegData) (hshort : ¬ Long data)
      (hoffset : st.req.appOffset ≤ data.length)
      (hfilled : Filled data posted st.req.appBuffer (Set.Iio st.req.appOffset))
      (hq : q = generalHeader.size + st.req.appOffset) (hq' : q' = 0)
  | fingerprintHeader (hstage : st.req.stage = .recvFingerprintHeader) (hlong : Long data)
      (hpop : st.populating = none) (hloop : st.inserting = none)
      (hheader : loadInt st.req.head fingerprintHeader.offsetPos = 0)
      (hbuffer : st.req.appBuffer = posted) (hq : q = generalHeader.size) (hq' : q' = 0)
  | packaged (hstage : st.req.stage = .recvPackagedFingerprints) (hlong : Long data)
      (hpop : st.populating = none) (hloop : st.inserting = none) (hawaits : AwaitsMissing st.req)
      (hnum : numFingerprints st.req.head = (fingerprints sha256 data).length)
      (hbytes : st.req.packagedFingerprintsSizeBytes =
        (fingerprints sha256 data).length * sizeofFingerprint)
      (hoffset : st.req.recvFingerprintOffset ≤ st.req.packagedFingerprintsSizeBytes)
      (hread : read st.req.head packagedPos st.req.recvFingerprintOffset =
        ((fingerprints sha256 data).flatMap encodeFingerprint).take st.req.recvFingerprintOffset)
      (hbuffer : st.req.appBuffer = posted) (hq : q = fingerprintsPos + st.req.recvFingerprintOffset)
      (hq' : q' = 0)
  | populate (noted : List Nat) (locals : PopulateLocals)
      (hstage : st.req.stage = .populateFromNetCache) (hlong : Long data)
      (hloop : st.inserting = none) (hawaits : AwaitsMissing st.req)
      (hfps : Announces st.req.head (fingerprints sha256 data))
      (hlocals : st.populating.getD populateStart = locals)
      (hpop : Populating (fingerprints sha256 data) noted locals st.req)
      (hfilled : Filled data posted st.req.appBuffer
        (cached (fingerprints sha256 data) noted locals.i))
      (hmissed : Missed sha256 known data locals.i noted)
      (hheld : Held (fingerprints sha256 data) noted locals.i proc.globalFingerprintCache)
      (hfound : ∀ e, locals.found = some e →
        ∃ hi : locals.i < (fingerprints sha256 data).length,
          proc.globalFingerprintCache.table.Stores
            (fingerprints sha256 data)[locals.i].fingerprint e ∧
          copyFingerprintContent proc.globalFingerprintCache e =
            some (chunk data (fingerprints sha256 data) locals.i))
      (hq : q = contentPos (fingerprints sha256 data)) (hq' : q' = 0)
  | missingHeader (hstage : st.req.stage = .sendMissingFingerprintHeader) (hlong : Long data)
      (hloop : st.inserting = none)
      (hpop : Populated (fingerprints sha256 data) missing st.req)
      (hfilled : Filled data posted st.req.appBuffer
        (arrived (fingerprints sha256 data) missing 0 0))
      (hheld : Held (fingerprints sha256 data) missing (fingerprints sha256 data).length
        proc.globalFingerprintCache)
      (hoffset : st.req.missingFingerprintHeaderOffset ≤ sizeofU64)
      (hinds : st.req.sendMissingFingerprintIndsOffset = 0)
      (hawaits : AwaitsMissingContent st.req)
      (hq : q = contentPos (fingerprints sha256 data))
      (hq' : q' = st.req.missingFingerprintHeaderOffset)
  | missing (hstage : st.req.stage = .sendMissingFingerprints) (hlong : Long data)
      (hloop : st.inserting = none)
      (hpop : Populated (fingerprints sha256 data) missing st.req)
      (hfilled : Filled data posted st.req.appBuffer
        (arrived (fingerprints sha256 data) missing 0 0))
      (hheld : Held (fingerprints sha256 data) missing (fingerprints sha256 data).length
        proc.globalFingerprintCache)
      (hoffset : st.req.sendMissingFingerprintIndsOffset ≤ missing.length * sizeofU64)
      (hawaits : AwaitsMissingContent st.req)
      (hq : q = contentPos (fingerprints sha256 data))
      (hq' : q' = sizeofU64 + st.req.sendMissingFingerprintIndsOffset)
  | content (hstage : st.req.stage = .recvMissingContent) (hlong : Long data)
      (hloop : st.inserting = none)
      (hpop : Populated (fingerprints sha256 data) missing st.req)
      (hfilled : Filled data posted st.req.appBuffer (arrived (fingerprints sha256 data) missing
        st.req.curRecvContentInd st.req.curRecvContentOffset))
      (hheld : Held (fingerprints sha256 data) missing (fingerprints sha256 data).length
        proc.globalFingerprintCache)
      (hle : st.req.curRecvContentInd ≤ missing.length)
      (hoffset : ∀ i (hi : i < (fingerprints sha256 data).length),
        missing[st.req.curRecvContentInd]? = some i →
        st.req.curRecvContentOffset ≤ (fingerprints sha256 data)[i].contentSize)
      (hend : st.req.curRecvContentInd = missing.length → st.req.curRecvContentOffset = 0)
      (hq : q = missingPos sha256 missing data st.req.curRecvContentInd +
        st.req.curRecvContentOffset)
      (hq' : q' = (backwardFrame data missing).length)
  | insert (hstage : st.req.stage = .insertInboundFingerprints) (hlong : Long data)
      (hpop : Populated (fingerprints sha256 data) missing st.req)
      (hfilled : Filled data posted st.req.appBuffer (Set.Iio data.length))
      (hheld : Held (fingerprints sha256 data) (missing.drop (st.inserting.getD 0))
        (fingerprints sha256 data).length proc.globalFingerprintCache)
      (hq : q = (forwardFrame sha256 data missing).length)
      (hq' : q' = (backwardFrame data missing).length)
  | complete (hstage : st.req.stage = .recvComplete)
      (hfilled : Filled data posted st.req.appBuffer (Set.Iio data.length))
      (hheld : proc.toSkipInsertCache = false → Long data →
        ∀ fp ∈ fingerprints sha256 data, fp.fingerprint ∈ digests proc.globalFingerprintCache)
      (hq : q = (forwardFrame sha256 data missing).length)
      (hq' : q' = (backwardFrame data missing).length)

/-- A receive request for `data`, posted with a buffer that is large enough. -/
structure Receiver (sha256 : List UInt8 → Digest) (known : Set Digest) (missing : List Nat)
    (data : List UInt8) (posted : Mem) (proc : Process) (st : RecvState) (q q' : Nat) : Prop where
  size_le : data.length ≤ st.req.size
  lt : st.req.size < 2 ^ 31
  head : st.req.stage ≠ .recvHeader →
    read st.req.head generalHeader.pos generalHeader.size = header data
  at_stage : ReceiverAt sha256 known missing data posted proc st q q'

theorem irecvRequest_receiver (sha256 : List UInt8 → Digest) (known : Set Digest)
    (missing : List Nat) {data : List UInt8} (posted : Mem) (proc : Process) {size : Nat}
    (hsize : data.length ≤ size) (hlt : size < 2 ^ 31) :
    Receiver sha256 known missing data posted proc ⟨irecvRequest size posted, none, none⟩ 0 0 :=
  ⟨hsize, hlt, fun h => absurd rfl h, .header rfl rfl rfl⟩

/-- A cache that has grown still holds what the receive counts on. -/
theorem Receiver.grows {sha256 : List UInt8 → Digest} {known : Set Digest} {missing : List Nat}
    {data : List UInt8} {posted : Mem} {proc proc' : Process} {st : RecvState} {q q' : Nat}
    (hgrows : Grows proc.globalFingerprintCache proc'.globalFingerprintCache)
    (hdigests : digests proc.globalFingerprintCache ⊆ digests proc'.globalFingerprintCache)
    (hskip : proc.toSkipInsertCache = true → proc'.toSkipInsertCache = true)
    (h : Receiver sha256 known missing data posted proc st q q') :
    Receiver sha256 known missing data posted proc' st q q' := by
  obtain ⟨hsize, hlt, hhead, hat⟩ := h
  refine ⟨hsize, hlt, hhead, ?_⟩
  cases hat with
  | header hst hq hq' => exact .header hst hq hq'
  | regData hstage hshort hoffset hfilled hq hq' =>
      exact .regData hstage hshort hoffset hfilled hq hq'
  | fingerprintHeader hstage hlong hpop hloop hheader hbuffer hq hq' =>
      exact .fingerprintHeader hstage hlong hpop hloop hheader hbuffer hq hq'
  | packaged hstage hlong hpop hloop hawaits hnum hbytes hoffset hread hbuffer hq hq' =>
      exact .packaged hstage hlong hpop hloop hawaits hnum hbytes hoffset hread hbuffer hq hq'
  | populate noted locals hstage hlong hloop hawaits hfps hlocals hpop hfilled hmissed hheld
      hfound hq hq' =>
      refine .populate noted locals hstage hlong hloop hawaits hfps hlocals hpop hfilled
        hmissed (hheld.mono hdigests) (fun e he => ?_) hq hq'
      obtain ⟨hi, hstores, hcopy⟩ := hfound e he
      exact ⟨hi, hgrows _ e _ hstores hcopy⟩
  | missingHeader hstage hlong hloop hpop hfilled hheld hoffset hinds hawaits hq hq' =>
      exact .missingHeader hstage hlong hloop hpop hfilled (hheld.mono hdigests) hoffset hinds
        hawaits hq hq'
  | missing hstage hlong hloop hpop hfilled hheld hoffset hawaits hq hq' =>
      exact .missing hstage hlong hloop hpop hfilled (hheld.mono hdigests) hoffset hawaits hq hq'
  | content hstage hlong hloop hpop hfilled hheld hle hoffset hend hq hq' =>
      exact .content hstage hlong hloop hpop hfilled (hheld.mono hdigests) hle hoffset hend hq hq'
  | insert hstage hlong hpop hfilled hheld hq hq' =>
      exact .insert hstage hlong hpop hfilled (hheld.mono hdigests) hq hq'
  | complete hstage hfilled hheld hq hq' =>
      refine .complete hstage hfilled (fun hclear hlong fp hfp => ?_) hq hq'
      refine hdigests (hheld ?_ hlong fp hfp)
      exact Bool.eq_false_iff.mpr fun hset => absurd (hskip hset) (Bool.eq_false_iff.mp hclear)

section Header

variable {data : List UInt8} {head : Mem}

/-- What a received header says. -/
theorem headerContentSize_of_read (hlt : data.length < 2 ^ 64)
    (h : read head generalHeader.pos generalHeader.size = header data) :
    headerContentSize head = data.length := by
  have hsub := read_sub h (show 8 + sizeofU64 ≤ generalHeader.size by decide)
  rw [headerContentSize, loadU64, hsub, ← loadU64]
  exact headerContentSize_isendRequest data hlt

theorem isFingerprint_of_read (h : read head generalHeader.pos generalHeader.size = header data) :
    isFingerprint head = decide (Long data) := by
  have hsub := read_sub h (show 0 + 1 ≤ generalHeader.size by decide)
  have hbyte : head generalHeader.pos = (isendRequest data).head generalHeader.pos := by
    simpa [Memory.read] using hsub
  rw [← isFingerprint_isendRequest, isFingerprint, isFingerprint, hbyte]

end Header

/-- What a step of the receiving end does: it takes the next `m` bytes of its frame
and sends the next `r` bytes of the reply, which it may have just decided on. -/
structure ReceiverMoves (sha256 : List UInt8 → Digest) (C : Set (List UInt8))
    (known : Set Digest) (missing missing' : List Nat) (data : List UInt8) (posted : Mem)
    (proc : Process) (forward : List UInt8) (q q' : Nat) (st' : RecvState) (sock' : Socket)
    (proc' : Process) (m r : Nat) : Prop where
  receiver : Receiver sha256 known missing' data posted proc' st' (q + m) (q' + r)
  sent : sock'.sent = ((backwardFrame data missing').drop q').take r
  rest : sock'.inbound = forward.drop m
  took : forward.take m = ((forwardFrame sha256 data missing).drop q).take m
  decided : missing' = missing ∨ Long data ∧ q + m = contentPos (fingerprints sha256 data) ∧
    q' + r = 0 ∧ Replied sha256 known data missing'
  sound : SoundCache sha256 C proc'.globalFingerprintCache
  grows : Grows proc.globalFingerprintCache proc'.globalFingerprintCache
  raised : proc.toSkipInsertCache = true → proc'.toSkipInsertCache = true

/-- A step of the receiving end that does not fault. -/
def ReceiverSteps (sha256 : List UInt8 → Digest) (C : Set (List UInt8)) (known : Set Digest)
    (missing : List Nat)
    (data : List UInt8) (posted : Mem) (st : RecvState) (forward : List UInt8) (proc : Process)
    (choice : Choice) (q q' : Nat) : Prop :=
  ∃ flow st' sock' proc' missing' m r,
    processRecv st ⟨[], forward⟩ proc choice = some (flow, st', sock', proc') ∧
    ReceiverMoves sha256 C known missing missing' data posted proc forward q q' st' sock' proc' m r

section Step

variable {sha256 : List UInt8 → Digest} {C : Set (List UInt8)} {known : Set Digest}
  {missing : List Nat} {data forward : List UInt8} {posted : Mem} {st st' : RecvState}
  {proc proc' : Process} {choice : Choice} {flow : Flow} {q q' : Nat}

theorem ReceiverSteps.stay (hstep : processRecv st ⟨[], forward⟩ proc choice =
      some (flow, st', ⟨[], forward⟩, proc'))
    (hsound : SoundCache sha256 C proc'.globalFingerprintCache)
    (hgrows : Grows proc.globalFingerprintCache proc'.globalFingerprintCache)
    (hraised : proc.toSkipInsertCache = true → proc'.toSkipInsertCache = true)
    (h : Receiver sha256 known missing data posted proc' st' q q') :
    ReceiverSteps sha256 C known missing data posted st forward proc choice q q' :=
  ⟨_, _, _, _, missing, 0, 0, hstep, h, by rw [List.take_zero], rfl,
    by rw [List.take_zero, List.take_zero], Or.inl rfl, hsound, hgrows, hraised⟩

theorem ReceiverSteps.push {bs : List UInt8} (r : Nat)
    (hstep : processRecv st ⟨[], forward⟩ proc choice =
      some (flow, st', Socket.push ⟨[], forward⟩ bs, proc))
    (hsound : SoundCache sha256 C proc.globalFingerprintCache)
    (hbs : bs = ((backwardFrame data missing).drop q').take r)
    (h : Receiver sha256 known missing data posted proc st' q (q' + r)) :
    ReceiverSteps sha256 C known missing data posted st forward proc choice q q' :=
  ⟨_, _, _, _, missing, 0, r, hstep, h, hbs, rfl, by rw [List.take_zero, List.take_zero],
    Or.inl rfl, hsound, Grows.refl _, id⟩

theorem ReceiverSteps.pull {m : Nat} (hstep : processRecv st ⟨[], forward⟩ proc choice =
      some (flow, st', Socket.pull ⟨[], forward⟩ m, proc))
    (hsound : SoundCache sha256 C proc.globalFingerprintCache)
    (htook : forward.take m = ((forwardFrame sha256 data missing).drop q).take m)
    (h : Receiver sha256 known missing data posted proc st' (q + m) q') :
    ReceiverSteps sha256 C known missing data posted st forward proc choice q q' :=
  ⟨_, _, _, _, missing, m, 0, hstep, h, by rw [List.take_zero]; rfl, rfl, htook, Or.inl rfl,
    hsound, Grows.refl _, id⟩

variable (hsound : SoundCache sha256 C proc.globalFingerprintCache)

include hsound

section Announcements

variable (hin : ∀ m ≤ forward.length, q + m ≤ (forwardFrame sha256 data missing).length →
  forward.take m = ((forwardFrame sha256 data missing).drop q).take m)

include hin

theorem receiver_header (hsize : data.length ≤ st.req.size) (hlt : st.req.size < 2 ^ 31)
    (hst : st = ⟨irecvRequest st.req.size posted, none, none⟩) (hq : q = 0)
    (hwhole : choice.socket.Whole generalHeader.size forward.length) :
    ReceiverSteps sha256 C known missing data posted st forward proc choice q 0 := by
  have hstage : st.req.stage = .recvHeader := by rw [hst]; rfl
  have hoffset : loadInt st.req.head generalHeader.offsetPos = 0 := by
    rw [hst]
    exact loadInt_zero _
  rcases @processRecv_header st ⟨[], forward⟩ proc choice hstage hoffset hwhole with
    hstep | ⟨havail, req, rfl, hstep⟩
  · refine .stay hstep hsound (Grows.refl _) id ⟨hsize, hlt, fun h => absurd hstage h, ?_⟩
    exact .header hst hq rfl
  · subst hq
    have hlen := List.length_take_of_le havail
    have hframe : generalHeader.size ≤ (forwardFrame sha256 data missing).length := by
      rw [forwardFrame, List.length_append, length_header]
      exact Nat.le_add_right _ _
    have htook := hin generalHeader.size havail (by rw [Nat.zero_add]; exact hframe)
    have hbytes : forward.take generalHeader.size = header data := by
      rw [htook, List.drop_zero, forwardFrame_header]
    have hhead : read (write st.req.head generalHeader.pos (header data)) generalHeader.pos
        generalHeader.size = header data := by
      have h := read_write_self (m := st.req.head) generalHeader.pos (header data)
      rwa [length_header] at h
    have hnext : loadInt (write st.req.head generalHeader.pos (header data))
        fingerprintHeader.offsetPos = 0 := by
      rw [loadInt_write_above (by rw [length_header]; decide), hst]
      exact loadInt_zero _
    have hempty : st.req.appBuffer = posted ∧ st.req.appOffset = 0 ∧ st.populating = none ∧
        st.inserting = none := by
      rw [hst]
      exact ⟨rfl, rfl, rfl, rfl⟩
    obtain ⟨hbuffer, happ, hpop, hloop⟩ := hempty
    rw [hbytes] at hstep
    refine .pull hstep hsound htook ⟨hsize, hlt, fun _ => hhead, ?_⟩
    rw [isFingerprint_of_read hhead]
    by_cases hlong : Long data
    · rw [decide_eq_true hlong, if_pos rfl]
      exact .fingerprintHeader rfl hlong hpop hloop hnext hbuffer (Nat.zero_add _) rfl
    · rw [decide_eq_false hlong, if_neg (by decide)]
      refine .regData rfl hlong (Nat.le_trans (Nat.le_of_eq happ) (Nat.zero_le _)) ?_ ?_ rfl
      · simp only [hbuffer, happ]
        exact (Filled.start data posted).mono fun a ha => absurd ha (Nat.not_lt_zero a)
      · rw [Nat.zero_add]
        simp only [happ, Nat.add_zero]

theorem receiver_regData (hsize : data.length ≤ st.req.size) (hlt : st.req.size < 2 ^ 31)
    (hhead : read st.req.head generalHeader.pos generalHeader.size = header data)
    (hstage : st.req.stage = .recvRegData) (hshort : ¬ Long data)
    (hoffset : st.req.appOffset ≤ data.length)
    (hfilled : Filled data posted st.req.appBuffer (Set.Iio st.req.appOffset))
    (hq : q = generalHeader.size + st.req.appOffset) :
    ReceiverSteps sha256 C known missing data posted st forward proc choice q 0 := by
  have hlt64 : st.req.size < 2 ^ 64 := Nat.lt_trans hlt (by decide)
  have hlen := @length_forwardFrame_short sha256 data missing hshort
  have htook {n : Nat} (hn : st.req.appOffset + n ≤ data.length) (havail : n ≤ forward.length) :
      forward.take n = ((forwardFrame sha256 data missing).drop q).take n :=
    hin n havail (by omega)
  have hgrown {n : Nat} (hn : st.req.appOffset + n ≤ data.length) (havail : n ≤ forward.length) :
      Filled data posted (write st.req.appBuffer st.req.appOffset (forward.take n))
        (Set.Iio (st.req.appOffset + n)) := by
    have hbs := htook hn havail
    have hbytes := List.length_take_of_le havail
    rw [hq, forwardFrame_data sha256 missing hshort] at hbs
    have h := @Filled.write _ _ _ _ hfilled st.req.appOffset _ (hbs.trans (by rw [hbytes]))
      (by rw [hbytes]; exact hn)
    refine h.mono fun a ha => ?_
    rcases Nat.lt_or_ge a st.req.appOffset with hlow | hhigh
    · exact Or.inl hlow
    · exact Or.inr ⟨hhigh, by rw [hbytes]; exact ha⟩
  rcases @processRecv_regData st ⟨[], forward⟩ proc choice hstage _
    (headerContentSize_of_read (Nat.lt_of_le_of_lt hsize hlt64) hhead) hoffset hsize hlt64 with
    ⟨n, hn, havail, hstep⟩ | ⟨havail, hstep⟩
  · refine .pull hstep hsound (htook hn havail) ⟨hsize, hlt, fun _ => hhead, ?_⟩
    refine .regData hstage hshort hn (hgrown hn havail) ?_ rfl
    rw [hq, Nat.add_assoc]
  · have hall := Nat.add_sub_cancel' hoffset
    have hfull := hgrown (Nat.le_of_eq hall) havail
    rw [hall] at hfull
    refine .pull hstep hsound (htook (Nat.le_of_eq hall) havail)
      ⟨hsize, hlt, fun _ => hhead, .complete rfl hfull (fun _ hlong => absurd hlong hshort) ?_ ?_⟩
    · rw [hlen]
      omega
    · rw [backwardFrame_short hshort, List.length_nil]

theorem receiver_fingerprintHeader (hsendable : Sendable sha256 C data)
    (hsize : data.length ≤ st.req.size) (hlt : st.req.size < 2 ^ 31)
    (hhead : read st.req.head generalHeader.pos generalHeader.size = header data)
    (hstage : st.req.stage = .recvFingerprintHeader) (hlong : Long data)
    (hpop : st.populating = none) (hloop : st.inserting = none)
    (hheader : loadInt st.req.head fingerprintHeader.offsetPos = 0)
    (hbuffer : st.req.appBuffer = posted) (hq : q = generalHeader.size)
    (hwhole : choice.socket.Whole fingerprintHeader.size forward.length) :
    ReceiverSteps sha256 C known missing data posted st forward proc choice q 0 := by
  rcases @processRecv_fingerprintHeader st ⟨[], forward⟩ proc choice hstage hheader hwhole with
    hstep | ⟨havail, req, rfl, hstep⟩
  · exact .stay hstep hsound (Grows.refl _) id ⟨hsize, hlt, fun _ => hhead,
      .fingerprintHeader hstage hlong hpop hloop hheader hbuffer hq rfl⟩
  · subst hq
    have hcount := hsendable.fit hlong
    have hframe : generalHeader.size + fingerprintHeader.size ≤
        (forwardFrame sha256 data missing).length := by
      rw [length_forwardFrame_long hlong, contentPos, fingerprintsPos, Nat.add_assoc]
      exact Nat.le_add_right _ _
    have htook := hin fingerprintHeader.size havail hframe
    have hbytes : forward.take fingerprintHeader.size =
        leBytes sizeofU64 (fingerprints sha256 data).length :=
      htook.trans (forwardFrame_count sha256 missing hlong)
    have hnum : numFingerprints (write st.req.head fingerprintHeader.pos
        (leBytes sizeofU64 (fingerprints sha256 data).length)) =
          (fingerprints sha256 data).length :=
      loadU64_storeU64 (Nat.lt_of_le_of_lt hcount (by decide))
    have hkept : read (write st.req.head fingerprintHeader.pos
        (leBytes sizeofU64 (fingerprints sha256 data).length)) generalHeader.pos
          generalHeader.size = header data := by
      rw [read_write_disjoint (Or.inl (by decide)), hhead]
    have hfits : (fingerprints sha256 data).length * sizeofFingerprint % 2 ^ 64 =
        (fingerprints sha256 data).length * sizeofFingerprint :=
      Nat.mod_eq_of_lt (Nat.lt_of_le_of_lt (Nat.mul_le_mul_right _ hcount) (by decide))
    rw [hbytes] at hstep
    refine .pull hstep hsound htook ⟨hsize, hlt, fun _ => hkept, ?_⟩
    refine .packaged rfl hlong hpop hloop ⟨rfl, rfl, rfl, rfl⟩ hnum ?_ (Nat.zero_le _) ?_ hbuffer
      rfl rfl
    · simp only [initFingerprintRecv, hnum, hfits]
    · simp only [initFingerprintRecv, read_zero, List.take_zero]

theorem receiver_packaged (hsendable : Sendable sha256 C data)
    (hsize : data.length ≤ st.req.size) (hlt : st.req.size < 2 ^ 31)
    (hhead : read st.req.head generalHeader.pos generalHeader.size = header data)
    (hstage : st.req.stage = .recvPackagedFingerprints) (hlong : Long data)
    (hpop : st.populating = none) (hloop : st.inserting = none) (hawaits : AwaitsMissing st.req)
    (hnum : numFingerprints st.req.head = (fingerprints sha256 data).length)
    (hbytes : st.req.packagedFingerprintsSizeBytes =
      (fingerprints sha256 data).length * sizeofFingerprint)
    (hoffset : st.req.recvFingerprintOffset ≤ st.req.packagedFingerprintsSizeBytes)
    (hread : read st.req.head packagedPos st.req.recvFingerprintOffset =
      ((fingerprints sha256 data).flatMap encodeFingerprint).take st.req.recvFingerprintOffset)
    (hbuffer : st.req.appBuffer = posted)
    (hq : q = fingerprintsPos + st.req.recvFingerprintOffset) :
    ReceiverSteps sha256 C known missing data posted st forward proc choice q 0 := by
  have hcount := hsendable.fit hlong
  have hlen := @length_forwardFrame_long sha256 data missing hlong
  rw [contentPos] at hlen
  have htook {n : Nat} (hn : st.req.recvFingerprintOffset + n ≤
      st.req.packagedFingerprintsSizeBytes) (havail : n ≤ forward.length) :
      forward.take n = ((forwardFrame sha256 data missing).drop q).take n :=
    hin n havail (by omega)
  have hgrown {n : Nat} (hn : st.req.recvFingerprintOffset + n ≤
      st.req.packagedFingerprintsSizeBytes) (havail : n ≤ forward.length) :
      read (write st.req.head (packagedPos + st.req.recvFingerprintOffset) (forward.take n))
        packagedPos (st.req.recvFingerprintOffset + n) =
        ((fingerprints sha256 data).flatMap encodeFingerprint).take
          (st.req.recvFingerprintOffset + n) := by
    have hbs := htook hn havail
    rw [hbytes] at hn
    rw [hq, forwardFrame_fingerprints sha256 missing hlong hn] at hbs
    exact read_write_take hread hbs (by rw [length_encodeFingerprints]; exact hn)
  -- what arrives lies behind both headers
  have hbehind : fingerprintHeader.pos + sizeofU64 ≤
      packagedPos + st.req.recvFingerprintOffset :=
    Nat.le_trans (by decide) (Nat.le_add_right _ _)
  have hnum' (bs : List UInt8) : numFingerprints (write st.req.head
      (packagedPos + st.req.recvFingerprintOffset) bs) = (fingerprints sha256 data).length := by
    rw [← hnum]
    exact loadU64_congr fun a _ ha => write_below _ (Nat.lt_of_lt_of_le ha hbehind)
  have hkept (bs : List UInt8) : read (write st.req.head
      (packagedPos + st.req.recvFingerprintOffset) bs) generalHeader.pos generalHeader.size =
        header data := by
    rw [read_write_disjoint (Or.inl (Nat.le_trans (by decide) hbehind)), hhead]
  rcases @processRecv_packaged st ⟨[], forward⟩ proc choice hstage hoffset
    (by rw [hbytes]; exact Nat.mul_le_mul_right _ hcount) with
    ⟨n, hn, havail, hstep⟩ | ⟨havail, hstep⟩
  · refine .pull hstep hsound (htook hn havail) ⟨hsize, hlt, fun _ => hkept _, ?_⟩
    refine .packaged hstage hlong hpop hloop hawaits (hnum' _) hbytes hn (hgrown hn havail)
      hbuffer ?_ rfl
    rw [hq, Nat.add_assoc]
  · have hall := Nat.add_sub_cancel' hoffset
    have hpacked := hgrown (Nat.le_of_eq hall) havail
    have hfull : ((fingerprints sha256 data).flatMap encodeFingerprint).length ≤
        st.req.packagedFingerprintsSizeBytes := by
      rw [length_encodeFingerprints, hbytes]
    rw [hall, List.take_of_length_le hfull] at hpacked
    have hfps : Announces (write st.req.head (packagedPos + st.req.recvFingerprintOffset)
        (forward.take (st.req.packagedFingerprintsSizeBytes - st.req.recvFingerprintOffset)))
          (fingerprints sha256 data) := by
      refine Packed.announces ?_ (hnum' _) hcount fun fp hfp => ?_
      · rw [Packed, ← hbytes]
        exact hpacked
      · exact Nat.lt_of_le_of_lt ((partition_of_run fingerprints_run).size_le hfp)
          (Nat.lt_trans hsendable.lt (by decide))
    refine .pull hstep hsound (htook (Nat.le_of_eq hall) havail)
      ⟨hsize, hlt, fun _ => hkept _, ?_⟩
    refine .populate [] populateStart rfl hlong hloop hawaits hfps ?_ (Populating.start _ _) ?_
      .start (.start _ _) (fun e he => absurd he (by simp [populateStart])) ?_ rfl
    · simp only [hpop, Option.getD_none]
    · simp only [hbuffer]
      exact (Filled.start data posted).mono cached_zero
    · rw [hq, contentPos, ← hbytes]
      omega

end Announcements

theorem receiver_copy (hsendable : Sendable sha256 C data) (hsize : data.length ≤ st.req.size)
    (hlt : st.req.size < 2 ^ 31)
    (hhead : read st.req.head generalHeader.pos generalHeader.size = header data)
    {noted : List Nat} {locals : PopulateLocals} (hstage : st.req.stage = .populateFromNetCache)
    (hlong : Long data) (hloop : st.inserting = none) (hawaits : AwaitsMissing st.req)
    (hfps : Announces st.req.head (fingerprints sha256 data))
    (hlocals : st.populating.getD populateStart = locals)
    (hpop : Populating (fingerprints sha256 data) noted locals st.req)
    (hfilled : Filled data posted st.req.appBuffer
      (cached (fingerprints sha256 data) noted locals.i))
    (hmissed : Missed sha256 known data locals.i noted)
    (hheld : Held (fingerprints sha256 data) noted locals.i proc.globalFingerprintCache)
    {e : FingerprintEntry} (hfound : locals.found = some e)
    (hi : locals.i < (fingerprints sha256 data).length)
    (hstores : proc.globalFingerprintCache.table.Stores
      (fingerprints sha256 data)[locals.i].fingerprint e)
    (hcopy : copyFingerprintContent proc.globalFingerprintCache e =
      some (chunk data (fingerprints sha256 data) locals.i))
    (hq : q = contentPos (fingerprints sha256 data)) :
    ReceiverSteps sha256 C known missing data posted st forward proc choice q 0 := by
  have hlen := length_chunk hi
  have hend := chunk_end_le fingerprints_run hi
  have hsum : ((fingerprints sha256 data).map (·.contentSize)).sum < 2 ^ 64 := by
    rw [(partition_of_run fingerprints_run).sum_sizes]
    exact Nat.lt_trans hsendable.lt (by decide)
  have hbounds : InBounds st.req.size locals.curAppBuffer
      (chunk data (fingerprints sha256 data) locals.i).length := by
    rw [hlen, hpop.cur]
    exact Or.inr (Nat.le_trans hend hsize)
  have hwritten := @Filled.write _ _ _ _ hfilled (boundary (fingerprints sha256 data) locals.i)
    (chunk data (fingerprints sha256 data) locals.i) (by rw [hlen, ← chunk_eq hi])
    (by rw [hlen]; exact hend)
  have hstep := @processRecv_populateCopy st ⟨[], forward⟩ proc choice locals _ hstage hlocals e
    hfound (hfps.get _ hi) _ hcopy hbounds
  refine .stay hstep hsound (Grows.refl _) id ⟨hsize, hlt, fun _ => hhead, ?_⟩
  refine .populate noted (locals.copied (fingerprints sha256 data)[locals.i]) hstage hlong hloop
    hawaits hfps rfl (hpop.copied hi hsum) ?_ hmissed.next (hheld.next ⟨e, hstores⟩)
    (fun e he => absurd he (by simp [PopulateLocals.copied])) hq rfl
  simp only [DedupRecvReq.copied, hpop.cur]
  refine hwritten.mono ((cached_copy locals.i).trans ?_)
  rw [Part, boundary_succ hi, hlen]

theorem receiver_lookup (hC : Distinct sha256 C) (hsendable : Sendable sha256 C data)
    (hsize : data.length ≤ st.req.size) (hlt : st.req.size < 2 ^ 31)
    (hhead : read st.req.head generalHeader.pos generalHeader.size = header data)
    {noted : List Nat} {locals : PopulateLocals} (hstage : st.req.stage = .populateFromNetCache)
    (hlong : Long data) (hloop : st.inserting = none) (hawaits : AwaitsMissing st.req)
    (hfps : Announces st.req.head (fingerprints sha256 data))
    (hlocals : st.populating.getD populateStart = locals)
    (hpop : Populating (fingerprints sha256 data) noted locals st.req)
    (hfilled : Filled data posted st.req.appBuffer
      (cached (fingerprints sha256 data) noted locals.i))
    (hmissed : Missed sha256 known data locals.i noted)
    (hheld : Held (fingerprints sha256 data) noted locals.i proc.globalFingerprintCache)
    (hknown : ∀ d ∈ known, ∃ e, proc.globalFingerprintCache.table.Stores d e)
    (hfound : locals.found = none) (hi : locals.i < (fingerprints sha256 data).length)
    (hq : q = contentPos (fingerprints sha256 data)) :
    ReceiverSteps sha256 C known missing data posted st forward proc choice q 0 := by
  have hmem := hsendable.chunk_mem hlong _ hi
  have hsum : ((fingerprints sha256 data).map (·.contentSize)).sum < 2 ^ 64 := by
    rw [(partition_of_run fingerprints_run).sum_sizes]
    exact Nat.lt_trans hsendable.lt (by decide)
  by_cases hstores : ∃ e, proc.globalFingerprintCache.table.Stores
      (fingerprints sha256 data)[locals.i].fingerprint e
  · obtain ⟨e, he⟩ := hstores
    have hcontent := he
    rw [digest_chunk hi] at hcontent
    obtain ⟨hcopy, hplaced, hesize⟩ := hsound.copy_of_stores hC hmem hcontent
    rw [length_chunk hi] at hesize
    have hstep := @processRecv_populateHit st ⟨[], forward⟩ proc choice locals _ hstage hlocals
      hfound (by rw [hfps.num]; exact hi) (hfps.get _ hi) e (hsound.ok.lookup_stored he choice.uninit)
    refine .stay hstep hsound (Grows.refl _) id ⟨hsize, hlt, fun _ => hhead, ?_⟩
    refine .populate noted (locals.hit (fingerprints sha256 data)[locals.i] e) hstage hlong hloop
      hawaits hfps rfl (hpop.hit hi hplaced (Nat.le_of_eq hesize)) hfilled hmissed hheld
      (fun e' he' => ?_) hq rfl
    obtain rfl : e = e' := Option.some_inj.mp he'
    exact ⟨hi, he, hcopy⟩
  · have hroom : locals.numMissingFingerprints < maxFingerprintsPerReq := by
      rw [hpop.num]
      exact Nat.lt_of_le_of_lt hpop.missing_le (Nat.lt_of_lt_of_le hi hfps.fit)
    have hstep := @processRecv_populateMiss st ⟨[], forward⟩ proc choice locals _ hstage hlocals
      hfound (by rw [hfps.num]; exact hi) (hfps.get _ hi)
      (hsound.ok.lookup_absent (not_exists.mp hstores) choice.uninit) hroom
    refine .stay hstep hsound (Grows.refl _) id ⟨hsize, hlt, fun _ => hhead, ?_⟩
    exact .populate (noted ++ [locals.i]) (locals.miss (fingerprints sha256 data)[locals.i]) hstage
      hlong hloop hawaits hfps rfl (hpop.miss hi hfound hfps.fit hsum)
      (hfilled.mono (cached_miss locals.i)) (hmissed.miss hi (mt (hknown _) hstores)) hheld.miss
      (fun e he => absurd (hfound.symm.trans he) (by simp)) hq rfl

/-- The end of the populate loop decides which chunks are missing. -/
theorem receiver_decide (hsize : data.length ≤ st.req.size) (hlt : st.req.size < 2 ^ 31)
    (hhead : read st.req.head generalHeader.pos generalHeader.size = header data)
    {noted : List Nat} {locals : PopulateLocals} (hstage : st.req.stage = .populateFromNetCache)
    (hlong : Long data) (hloop : st.inserting = none) (hawaits : AwaitsMissing st.req)
    (hfps : Announces st.req.head (fingerprints sha256 data))
    (hlocals : st.populating.getD populateStart = locals)
    (hpop : Populating (fingerprints sha256 data) noted locals st.req)
    (hfilled : Filled data posted st.req.appBuffer
      (cached (fingerprints sha256 data) noted locals.i))
    (hmissed : Missed sha256 known data locals.i noted)
    (hheld : Held (fingerprints sha256 data) noted locals.i proc.globalFingerprintCache)
    (hfound : locals.found = none) (hi : locals.i = (fingerprints sha256 data).length)
    (hq : q = contentPos (fingerprints sha256 data)) :
    ReceiverSteps sha256 C known missing data posted st forward proc choice q 0 := by
  have hstep := @processRecv_populateEnd st ⟨[], forward⟩ proc choice locals hstage hlocals hfound
    (by rw [hfps.num]; omega)
  rw [hi] at hfilled hmissed hheld
  refine ⟨_, _, _, _, noted, 0, 0, hstep, ⟨hsize, hlt, fun _ => hhead, ?_⟩, ?_, rfl, ?_,
    Or.inr ⟨hlong, hq, rfl, hmissed, hpop.noted.fit⟩, hsound.populated _ _,
    SoundCache.grows_populated _ _ _, id⟩
  · exact .missingHeader rfl hlong hloop
      ⟨hfps, chunksFit hlong hsize, hpop.noted.congr rfl rfl, hpop.num⟩
      (hfilled.mono arrived_start)
      (hheld.mono (hsound.digests_subset (SoundCache.grows_populated _ _ _)))
      (Nat.le_trans (Nat.le_of_eq hawaits.1) (Nat.zero_le _))
      hawaits.2.1 hawaits.2.2 hq hawaits.1.symm
  · rw [List.take_zero]
  · rw [List.take_zero, List.take_zero]

omit hsound in
/-- The chunks end where the message does. -/
theorem boundary_fingerprints : boundary (fingerprints sha256 data)
    (fingerprints sha256 data).length = data.length := by
  rw [boundary_length, (partition_of_run fingerprints_run).sum_sizes]

theorem receiver_missingHeader (hsize : data.length ≤ st.req.size) (hlt : st.req.size < 2 ^ 31)
    (hhead : read st.req.head generalHeader.pos generalHeader.size = header data)
    (hstage : st.req.stage = .sendMissingFingerprintHeader) (hlong : Long data)
    (hloop : st.inserting = none) (hpop : Populated (fingerprints sha256 data) missing st.req)
    (hfilled : Filled data posted st.req.appBuffer
      (arrived (fingerprints sha256 data) missing 0 0))
    (hheld : Held (fingerprints sha256 data) missing (fingerprints sha256 data).length
      proc.globalFingerprintCache)
    (hoffset : st.req.missingFingerprintHeaderOffset ≤ sizeofU64)
    (hinds : st.req.sendMissingFingerprintIndsOffset = 0)
    (hawaits : AwaitsMissingContent st.req) (hq : q = contentPos (fingerprints sha256 data))
    (hq' : q' = st.req.missingFingerprintHeaderOffset) :
    ReceiverSteps sha256 C known missing data posted st forward proc choice q q' := by
  have hpart {n : Nat} (hn : st.req.missingFingerprintHeaderOffset + n ≤ sizeofU64) :
      ((leBytes sizeofU64 st.req.numMissingFingerprints).drop
        st.req.missingFingerprintHeaderOffset).take n =
          ((backwardFrame data missing).drop q').take n := by
    rw [hq', backwardFrame_count hlong hn, hpop.num]
  have hkeep (offset : Nat) (stage : RecvReqStage) : Populated (fingerprints sha256 data) missing
      { st.req with missingFingerprintHeaderOffset := offset, stage := stage } :=
    ⟨hpop.announces, hpop.chunks, hpop.noted.congr rfl rfl, hpop.num⟩
  rcases @processRecv_missingHeader st ⟨[], forward⟩ proc choice hstage hoffset with
    ⟨n, hn, hstep⟩ | hstep
  · refine .push n hstep hsound (hpart hn) ⟨hsize, hlt, fun _ => hhead, ?_⟩
    refine .missingHeader hstage hlong hloop (hkeep _ _) hfilled hheld hn hinds hawaits hq ?_
    rw [hq']
  · have hall := Nat.add_sub_cancel' hoffset
    refine .push _ hstep hsound (hpart (Nat.le_of_eq hall)) ⟨hsize, hlt, fun _ => hhead, ?_⟩
    have hlen := @length_backwardFrame_long data missing hlong
    by_cases hnone : missing.length = 0
    · obtain rfl := List.length_eq_zero_iff.mp hnone
      rw [hpop.num, if_pos hnone]
      refine .complete rfl (hfilled.mono ?_) (fun _ _ => hheld.all) ?_ ?_
      · rw [← @boundary_fingerprints sha256 data]
        exact arrived_all
      · rw [hq, length_forwardFrame_long hlong]
        rfl
      · rw [hlen, hnone, hq']
        omega
    · rw [hpop.num, if_neg hnone]
      refine .missing rfl hlong hloop (hkeep _ _) hfilled hheld
        (Nat.le_trans (Nat.le_of_eq hinds) (Nat.zero_le _)) hawaits hq ?_
      change q' + (sizeofU64 - st.req.missingFingerprintHeaderOffset) =
        sizeofU64 + st.req.sendMissingFingerprintIndsOffset
      omega

theorem receiver_missing (hsize : data.length ≤ st.req.size) (hlt : st.req.size < 2 ^ 31)
    (hhead : read st.req.head generalHeader.pos generalHeader.size = header data)
    (hstage : st.req.stage = .sendMissingFingerprints) (hlong : Long data)
    (hloop : st.inserting = none) (hpop : Populated (fingerprints sha256 data) missing st.req)
    (hfilled : Filled data posted st.req.appBuffer
      (arrived (fingerprints sha256 data) missing 0 0))
    (hheld : Held (fingerprints sha256 data) missing (fingerprints sha256 data).length
      proc.globalFingerprintCache)
    (hoffset : st.req.sendMissingFingerprintIndsOffset ≤ missing.length * sizeofU64)
    (hawaits : AwaitsMissingContent st.req) (hq : q = contentPos (fingerprints sha256 data))
    (hq' : q' = sizeofU64 + st.req.sendMissingFingerprintIndsOffset) :
    ReceiverSteps sha256 C known missing data posted st forward proc choice q q' := by
  have hpart {n : Nat} (hn : st.req.sendMissingFingerprintIndsOffset + n ≤
      missing.length * sizeofU64) :
      read st.req.missingFingerprintInds st.req.sendMissingFingerprintIndsOffset n =
        ((backwardFrame data missing).drop q').take n := by
    rw [hq', backwardFrame_words hlong, ← hpop.noted.read_inds, drop_read _ (by omega),
      take_read _ (by omega), Nat.zero_add]
  have hkeep (offset : Nat) (stage : RecvReqStage) : Populated (fingerprints sha256 data) missing
      { st.req with sendMissingFingerprintIndsOffset := offset, stage := stage } :=
    ⟨hpop.announces, hpop.chunks, hpop.noted.congr rfl rfl, hpop.num⟩
  have hnum := hpop.num
  rcases @processRecv_missing st ⟨[], forward⟩ proc choice hstage hpop.num_le
    (by rw [hnum]; exact hoffset) with ⟨n, hn, hstep⟩ | hstep
  · rw [hnum] at hn
    refine .push n hstep hsound (hpart hn) ⟨hsize, hlt, fun _ => hhead, ?_⟩
    refine .missing hstage hlong hloop (hkeep _ _) hfilled hheld hn hawaits hq ?_
    rw [hq', Nat.add_assoc]
  · rw [hnum] at hstep
    have hall := Nat.add_sub_cancel' hoffset
    refine .push _ hstep hsound (hpart (Nat.le_of_eq hall)) ⟨hsize, hlt, fun _ => hhead, ?_⟩
    refine .content rfl hlong hloop (hkeep _ _) ?_ hheld
      (Nat.le_trans (Nat.le_of_eq hawaits.1) (Nat.zero_le _))
      (fun _ _ _ => Nat.le_trans (Nat.le_of_eq hawaits.2) (Nat.zero_le _))
      (fun _ => hawaits.2) ?_ ?_
    · simp only [RecvState.goto, hawaits.1, hawaits.2]
      exact hfilled
    · simp only [RecvState.goto, hawaits.1, hawaits.2, Nat.add_zero]
      rw [missingPos_zero, hq]
    · rw [length_backwardFrame_long hlong]
      omega

theorem receiver_content (hin : ∀ m ≤ forward.length,
      q + m ≤ (forwardFrame sha256 data missing).length →
        forward.take m = ((forwardFrame sha256 data missing).drop q).take m)
    (hsize : data.length ≤ st.req.size) (hlt : st.req.size < 2 ^ 31)
    (hhead : read st.req.head generalHeader.pos generalHeader.size = header data)
    (hstage : st.req.stage = .recvMissingContent) (hlong : Long data)
    (hloop : st.inserting = none) (hpop : Populated (fingerprints sha256 data) missing st.req)
    (hfilled : Filled data posted st.req.appBuffer (arrived (fingerprints sha256 data) missing
      st.req.curRecvContentInd st.req.curRecvContentOffset))
    (hheld : Held (fingerprints sha256 data) missing (fingerprints sha256 data).length
      proc.globalFingerprintCache)
    (hle : st.req.curRecvContentInd ≤ missing.length)
    (hoffset : ∀ i (hi : i < (fingerprints sha256 data).length),
      missing[st.req.curRecvContentInd]? = some i →
      st.req.curRecvContentOffset ≤ (fingerprints sha256 data)[i].contentSize)
    (hend : st.req.curRecvContentInd = missing.length → st.req.curRecvContentOffset = 0)
    (hq : q = missingPos sha256 missing data st.req.curRecvContentInd +
      st.req.curRecvContentOffset) (hq' : q' = (backwardFrame data missing).length) :
    ReceiverSteps sha256 C known missing data posted st forward proc choice q q' := by
  rcases Nat.lt_or_eq_of_le hle with ht | ht
  · obtain ⟨i, hi, hget, hind, hslot, hfp⟩ := hpop.get (by rw [hpop.num]; exact ht)
    obtain ⟨_, rfl⟩ := List.getElem?_eq_some_iff.mp hget
    have hlen := length_chunk hi
    have hchunk := chunk_end_le fingerprints_run hi
    have hle' := hoffset _ hi hget
    have hnext := @missingPos_succ sha256 data missing _ ht
    have hframe := @missingPos_le sha256 data missing hlong (st.req.curRecvContentInd + 1)
    have htook {n : Nat} (hn : st.req.curRecvContentOffset + n ≤ (fingerprints sha256 data)[
        missing[st.req.curRecvContentInd]].contentSize) (havail : n ≤ forward.length) :
        forward.take n = ((forwardFrame sha256 data missing).drop q).take n :=
      hin n havail (by omega)
    have hgrown {n : Nat} (hn : st.req.curRecvContentOffset + n ≤ (fingerprints sha256 data)[
        missing[st.req.curRecvContentInd]].contentSize) (havail : n ≤ forward.length) :
        Filled data posted (write st.req.appBuffer (boundary (fingerprints sha256 data)
          missing[st.req.curRecvContentInd] + st.req.curRecvContentOffset) (forward.take n))
          (arrived (fingerprints sha256 data) missing st.req.curRecvContentInd
            st.req.curRecvContentOffset ∪ Set.Ico
              (boundary (fingerprints sha256 data) missing[st.req.curRecvContentInd] +
                st.req.curRecvContentOffset)
              (boundary (fingerprints sha256 data) missing[st.req.curRecvContentInd] +
                st.req.curRecvContentOffset + n)) := by
      have hbs := htook hn havail
      have hbytes := List.length_take_of_le havail
      rw [hq, forwardFrame_chunk sha256 hlong ht (by rw [hlen]; exact hn), chunk_part hi hn] at hbs
      have h := @Filled.write _ _ _ _ hfilled (boundary (fingerprints sha256 data)
        missing[st.req.curRecvContentInd] + st.req.curRecvContentOffset) _
        (hbs.trans (by rw [hbytes])) (by rw [hbytes]; omega)
      rwa [hbytes] at h
    have hkeep {req : DedupRecvReq} (hhead : req.head = st.req.head)
        (hsize : req.size = st.req.size)
        (hinds : req.missingFingerprintInds = st.req.missingFingerprintInds)
        (hslots : req.missingFingerprintSlots = st.req.missingFingerprintSlots)
        (hnum : req.numMissingFingerprints = st.req.numMissingFingerprints) :
        Populated (fingerprints sha256 data) missing req :=
      ⟨hhead ▸ hpop.announces, hsize ▸ hpop.chunks, hpop.noted.congr hinds hslots,
        hnum.trans hpop.num⟩
    rcases @processRecv_content st ⟨[], forward⟩ proc choice hstage (by rw [hpop.num]; exact ht)
      _ _ _ hslot hind hfp hle' (Nat.le_trans hchunk hsize) (Nat.lt_trans hlt (by decide)) with
      ⟨n, filled, hn, havail, hstep⟩ | ⟨filled, havail, hstep⟩
    · refine .pull hstep hsound (htook hn havail) ⟨hsize, hlt, fun _ => hhead, ?_⟩
      refine .content hstage hlong hloop (hkeep rfl rfl rfl rfl rfl)
        ((hgrown hn havail).mono (arrived_part hget n)) hheld hle (fun i hi' hget' => ?_)
        (fun h => absurd h (Nat.ne_of_lt ht)) ?_ hq'
      · obtain rfl := Option.some_inj.mp (hget.symm.trans hget')
        exact hn
      · rw [hq, Nat.add_assoc]
    · have hall := Nat.add_sub_cancel' hle'
      refine .pull hstep hsound (htook (Nat.le_of_eq hall) havail)
        ⟨hsize, hlt, fun _ => hhead, ?_⟩
      refine .content hstage hlong hloop (hkeep rfl rfl rfl rfl rfl)
        ((hgrown (Nat.le_of_eq hall) havail).mono ?_) hheld ht (fun _ _ _ => Nat.zero_le _)
        (fun _ => rfl) ?_ hq'
      · rw [Nat.add_assoc, hall, ← boundary_succ hi]
        exact arrived_next hget
      · change q + _ = missingPos sha256 missing data (st.req.curRecvContentInd + 1) + 0
        omega
  · have hzero := hend ht
    refine .stay (processRecv_contentEnd hstage (by rw [hpop.num]; omega)) hsound (Grows.refl _) id
      ⟨hsize, hlt, fun _ => hhead, .insert rfl hlong
        ⟨hpop.announces, hpop.chunks, hpop.noted.congr rfl rfl, hpop.num⟩
        (hfilled.mono ?_) ?_ ?_ hq'⟩
    · rw [ht, ← @boundary_fingerprints sha256 data]
      exact arrived_all
    · simp only [RecvState.goto, hloop, Option.getD_none, List.drop_zero]
      exact hheld
    · rw [hq, ht, hzero, Nat.add_zero, missingPos_length sha256 hlong]

omit hsound in
/-- The insert loop is passed over only when `to_skip_insert_cache` is set. -/
theorem toSkip_of_passed (hstage : st.req.stage = .insertInboundFingerprints)
    (hloop : st.inserting = none) {sock sock' : Socket}
    (h : processRecv st sock proc choice = some (.loop, st.goto .recvComplete, sock', proc')) :
    proc.toSkipInsertCache = true := by
  by_contra hskip
  rw [processRecv, hstage, processRecvStage, hloop] at h
  simp only [processsInsertInboundFingerprints, if_neg hskip] at h
  split_ifs at h with hlock
  · have hst := congrArg (fun st : RecvState => st.req.stage)
      (Prod.mk.inj (Prod.mk.inj (Option.some_inj.mp h)).2).1
    exact absurd (hstage.symm.trans hst) (by simp [RecvState.goto])
  · exact absurd (Prod.mk.inj (Option.some_inj.mp h)).1
      (by simp [RecvState.afterInsert, RecvState.advance])

theorem receiver_insert (hsendable : Sendable sha256 C data) (hsize : data.length ≤ st.req.size)
    (hlt : st.req.size < 2 ^ 31)
    (hhead : read st.req.head generalHeader.pos generalHeader.size = header data)
    (hstage : st.req.stage = .insertInboundFingerprints) (hlong : Long data)
    (hpop : Populated (fingerprints sha256 data) missing st.req)
    (hfilled : Filled data posted st.req.appBuffer (Set.Iio data.length))
    (hheld : Held (fingerprints sha256 data) (missing.drop (st.inserting.getD 0))
      (fingerprints sha256 data).length proc.globalFingerprintCache)
    (hq : q = (forwardFrame sha256 data missing).length)
    (hq' : q' = (backwardFrame data missing).length) :
    ReceiverSteps sha256 C known missing data posted st forward proc choice q q' := by
  have hcomplete (inserting : Option Nat) (proc' : Process)
      (hall : proc'.toSkipInsertCache = false →
        ∀ fp ∈ fingerprints sha256 data, fp.fingerprint ∈ digests proc'.globalFingerprintCache) :
      Receiver sha256 known missing data posted proc'
        { st.goto .recvComplete with inserting := inserting } q q' :=
    ⟨hsize, hlt, fun _ => hhead, .complete rfl hfilled (fun hclear _ => hall hclear) hq hq'⟩
  have hturn (t : Nat) (proc' : Process)
      (hheld : Held (fingerprints sha256 data) (missing.drop t) (fingerprints sha256 data).length
        proc'.globalFingerprintCache) :
      Receiver sha256 known missing data posted proc' { st with inserting := some t } q q' :=
    ⟨hsize, hlt, fun _ => hhead, .insert hstage hlong hpop hfilled hheld hq hq'⟩
  cases hins : st.inserting with
  | none =>
      have hnone := hheld
      rw [hins, Option.getD_none] at hnone
      rcases @processRecv_insertStart st ⟨[], forward⟩ proc choice hstage hins with
        hstep | hstep | hstep
      · exact .stay hstep hsound (Grows.refl _) id
          ⟨hsize, hlt, fun _ => hhead, .insert hstage hlong hpop hfilled hheld hq hq'⟩
      · have hskip := toSkip_of_passed hstage hins hstep
        exact .stay hstep hsound (Grows.refl _) id (hcomplete st.inserting _ fun hclear =>
          absurd (hskip.symm.trans hclear) (by decide))
      · exact .stay hstep hsound (Grows.refl _) id (hturn 0 _ hnone)
  | some t =>
      rw [hins, Option.getD_some] at hheld
      rcases Nat.lt_or_ge t st.req.numMissingFingerprints with ht | ht
      · obtain ⟨i, hi, hget, hind, hslot, hfp⟩ := hpop.get ht
        have hend := chunk_end_le fingerprints_run hi
        have hcontent : (read st.req.appBuffer (boundary (fingerprints sha256 data) i)
            (st.req.size - boundary (fingerprints sha256 data) i)).take
              (fingerprints sha256 data)[i].contentSize =
                chunk data (fingerprints sha256 data) i := by
          rw [take_read _ (by omega), hfilled.read_eq fun a ha => Nat.lt_of_lt_of_le ha.2 hend,
            chunk_eq hi]
        have hcall := hsendable.insert hi hlong hcontent
        obtain ⟨r, cache, entry, hrun, hsound', hgrows⟩ := hsound.insert hcall (some choice.uninit)
        rcases processRecv_insert hstage hins ht hind hfp hslot hrun with ⟨-, hstep⟩ | ⟨rfl, hstep⟩
        · exact .stay hstep hsound' hgrows (fun _ => rfl) (hcomplete none _ fun hclear =>
            absurd hclear (by simp))
        · have hstored := hsound.mem_of_insert hcall hrun
          obtain ⟨hlt, rfl⟩ := List.getElem?_eq_some_iff.mp hget
          exact .stay hstep hsound' hgrows id (hturn (t + 1) _
            (hheld.insert hlt (hsound.digests_subset hgrows) fun _ => hstored))
      · rw [hpop.num] at ht
        rw [List.drop_eq_nil_of_le ht] at hheld
        exact .stay (processRecv_insertEnd hstage hins (hpop.num ▸ ht)) hsound (Grows.refl _) id
          (hcomplete none _ fun _ => hheld.all)

/-- A step of the receiving end goes on in its two frames. -/
theorem Receiver.step
    (h : Receiver sha256 known missing data posted proc st q q')
    (hC : Distinct sha256 C) (hsendable : Sendable sha256 C data)
    (hknown : ∀ d ∈ known, ∃ e, proc.globalFingerprintCache.table.Stores d e)
    (hin : ∀ m ≤ forward.length, q + m ≤ (forwardFrame sha256 data missing).length →
      forward.take m = ((forwardFrame sha256 data missing).drop q).take m)
    (hwhole : ReceivesWhole st forward.length choice) :
    ReceiverSteps sha256 C known missing data posted st forward proc choice q q' := by
  obtain ⟨hsize, hlt, hread, hat⟩ := h
  have hhead {stage : RecvReqStage} (hstage : st.req.stage = stage)
      (hne : stage ≠ .recvHeader) :
      read st.req.head generalHeader.pos generalHeader.size = header data :=
    hread (hstage ▸ hne)
  cases hat with
  | header hst hq hq' =>
      subst hq'
      exact receiver_header hsound hin hsize hlt hst hq (hwhole.1 (by rw [hst]; rfl))
  | regData hstage hshort hoffset hfilled hq hq' =>
      subst hq'
      exact receiver_regData hsound hin hsize hlt (hhead hstage (by simp)) hstage hshort hoffset
        hfilled hq
  | fingerprintHeader hstage hlong hpop hloop hheader hbuffer hq hq' =>
      subst hq'
      exact receiver_fingerprintHeader hsound hin hsendable hsize hlt (hhead hstage (by simp))
        hstage hlong hpop hloop hheader hbuffer hq (hwhole.2 hstage)
  | packaged hstage hlong hpop hloop hawaits hnum hbytes hoffset hread hbuffer hq hq' =>
      subst hq'
      exact receiver_packaged hsound hin hsendable hsize hlt (hhead hstage (by simp)) hstage hlong
        hpop hloop hawaits hnum hbytes hoffset hread hbuffer hq
  | populate noted locals hstage hlong hloop hawaits hfps hlocals hpop hfilled hmissed hheld
      hfound hq hq' =>
      subst hq'
      have hhead := hhead hstage (by simp)
      cases hnext : locals.found with
      | some e =>
          obtain ⟨hi, hstores, hcopy⟩ := hfound e hnext
          exact receiver_copy hsound hsendable hsize hlt hhead hstage hlong hloop hawaits hfps
            hlocals hpop hfilled hmissed hheld hnext hi hstores hcopy hq
      | none =>
          rcases Nat.lt_or_eq_of_le hpop.i_le with hi | hi
          · exact receiver_lookup hsound hC hsendable hsize hlt hhead hstage hlong hloop hawaits
              hfps hlocals hpop hfilled hmissed hheld hknown hnext hi hq
          · exact receiver_decide hsound hsize hlt hhead hstage hlong hloop hawaits
              hfps hlocals hpop hfilled hmissed hheld hnext hi hq
  | missingHeader hstage hlong hloop hpop hfilled hheld hoffset hinds hawaits hq hq' =>
      exact receiver_missingHeader hsound hsize hlt (hhead hstage (by simp)) hstage hlong hloop
        hpop hfilled hheld hoffset hinds hawaits hq hq'
  | missing hstage hlong hloop hpop hfilled hheld hoffset hawaits hq hq' =>
      exact receiver_missing hsound hsize hlt (hhead hstage (by simp)) hstage hlong hloop hpop
        hfilled hheld hoffset hawaits hq hq'
  | content hstage hlong hloop hpop hfilled hheld hle hoffset hend hq hq' =>
      exact receiver_content hsound hin hsize hlt (hhead hstage (by simp)) hstage hlong hloop hpop
        hfilled hheld hle hoffset hend hq hq'
  | insert hstage hlong hpop hfilled hheld hq hq' =>
      exact receiver_insert hsound hsendable hsize hlt (hhead hstage (by simp)) hstage hlong
        hpop hfilled hheld hq hq'
  | complete hstage hfilled hheld hq hq' =>
      exact .stay (processRecv_complete hstage) hsound (Grows.refl _) id
        ⟨hsize, hlt, fun _ => hhead hstage (by simp), .complete hstage hfilled hheld hq hq'⟩

end Step

end NetDedup.Delivery

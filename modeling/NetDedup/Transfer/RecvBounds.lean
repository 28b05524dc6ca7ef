import NetDedup.Transfer.Announced
import NetDedup.Transfer.Party
import NetDedup.Transfer.RecvSteps

/-!
# A receive request against an arbitrary peer

The bounds of every stage of `process_recv` when what the peer announces fits
the posted buffer and the arrays.
-/

namespace NetDedup.Transfer

open Chunking Memory Store

/-- Chunks that fit a buffer of `size` bytes one after the other and can be inserted. -/
structure ChunksFit (fps : List Fingerprint) (size : Nat) : Prop where
  sum_le : (fps.map (·.contentSize)).sum ≤ size
  pos : ∀ fp ∈ fps, 1 ≤ fp.contentSize

/-- The condition on a step of the receiving party: headers move whole, the
announced size fits the buffer, the announced chunks fit the arrays and the
buffer, and a chunk the cache has is stored there with no more bytes. -/
def AnnouncementsFit (p : Party RecvState) : PartyEvent → Prop
  | .arrive _ => True
  | .other proc => proc.Sound
  | .step choice =>
      match p.st.req.stage with
      | .recvHeader => choice.socket.Whole generalHeader.size p.sock.inbound.length
      | .recvRegData => headerContentSize p.st.req.head ≤ p.st.req.size
      | .recvFingerprintHeader =>
          choice.socket.Whole fingerprintHeader.size p.sock.inbound.length
      | .recvPackagedFingerprints => numFingerprints p.st.req.head ≤ maxFingerprintsPerReq
      | .populateFromNetCache =>
          ChunksFit (announcedFingerprints p.st.req.head) p.st.req.size ∧
          ∀ fp ∈ announcedFingerprints p.st.req.head, ∀ e,
            p.proc.globalFingerprintCache.table.Stores fp.fingerprint e →
            e.contentSize ≤ fp.contentSize
      | _ => True

/-- No missing content has been received. -/
def AwaitsMissingContent (req : DedupRecvReq) : Prop :=
  req.curRecvContentInd = 0 ∧ req.curRecvContentOffset = 0

/-- Nothing of the reply has been sent. -/
def AwaitsMissing (req : DedupRecvReq) : Prop :=
  req.missingFingerprintHeaderOffset = 0 ∧ req.sendMissingFingerprintIndsOffset = 0 ∧
    AwaitsMissingContent req

/-- A request after its populate loop. -/
structure Populated (fps : List Fingerprint) (missing : List Nat) (req : DedupRecvReq) : Prop where
  announces : Announces req.head fps
  chunks : ChunksFit fps req.size
  noted : Noted fps missing req
  num : req.numMissingFingerprints = missing.length

/-- Where a receive request can be. -/
inductive RecvAt (st : RecvState) : Prop
  | header (hstage : st.req.stage = .recvHeader) (hpop : st.populating = none)
      (hloop : st.inserting = none) (hstart : st.req.appOffset = 0)
      (hgeneral : loadInt st.req.head generalHeader.offsetPos = 0)
      (hfingerprint : loadInt st.req.head fingerprintHeader.offsetPos = 0)
  | regData (hstage : st.req.stage = .recvRegData)
      (hoffset : st.req.appOffset ≤ headerContentSize st.req.head)
  | fingerprintHeader (hstage : st.req.stage = .recvFingerprintHeader) (hpop : st.populating = none)
      (hloop : st.inserting = none)
      (hfingerprint : loadInt st.req.head fingerprintHeader.offsetPos = 0)
  | packaged (hstage : st.req.stage = .recvPackagedFingerprints) (hpop : st.populating = none)
      (hloop : st.inserting = none) (hawaits : AwaitsMissing st.req)
      (hbytes : st.req.packagedFingerprintsSizeBytes =
        numFingerprints st.req.head * sizeofFingerprint % 2 ^ 64)
      (hoffset : st.req.recvFingerprintOffset ≤ st.req.packagedFingerprintsSizeBytes)
  | populate (fps : List Fingerprint) (missing : List Nat) (locals : PopulateLocals)
      (hstage : st.req.stage = .populateFromNetCache) (hloop : st.inserting = none)
      (hawaits : AwaitsMissing st.req) (hfps : Announces st.req.head fps)
      (hlocals : st.populating.getD populateStart = locals)
      (hpop : Populating fps missing locals st.req)
  | missingHeader (fps : List Fingerprint) (missing : List Nat)
      (hstage : st.req.stage = .sendMissingFingerprintHeader) (hloop : st.inserting = none)
      (hpop : Populated fps missing st.req)
      (hoffset : st.req.missingFingerprintHeaderOffset ≤ sizeofU64)
      (hinds : st.req.sendMissingFingerprintIndsOffset = 0)
      (hawaits : AwaitsMissingContent st.req)
  | missing (fps : List Fingerprint) (missing : List Nat)
      (hstage : st.req.stage = .sendMissingFingerprints) (hloop : st.inserting = none)
      (hpop : Populated fps missing st.req)
      (hoffset : st.req.sendMissingFingerprintIndsOffset ≤
        st.req.numMissingFingerprints * sizeofU64)
      (hawaits : AwaitsMissingContent st.req)
  | content (fps : List Fingerprint) (missing : List Nat)
      (hstage : st.req.stage = .recvMissingContent) (hloop : st.inserting = none)
      (hpop : Populated fps missing st.req)
      (hoffset : ∀ i (hi : i < fps.length), missing[st.req.curRecvContentInd]? = some i →
        st.req.curRecvContentOffset ≤ fps[i].contentSize)
  | insert (fps : List Fingerprint) (missing : List Nat)
      (hstage : st.req.stage = .insertInboundFingerprints) (hpop : Populated fps missing st.req)
  | complete (hstage : st.req.stage = .recvComplete)

/-- The invariant of a receive request. -/
structure RecvBounded (st : RecvState) : Prop where
  lt : st.req.size < 2 ^ 31
  at_stage : RecvAt st

theorem loadInt_zero (pos : Nat) : loadInt (fun _ => 0) pos = 0 := by
  rw [loadInt, read_eq_replicate (b := 0) fun _ _ => rfl]
  rfl

theorem irecvRequest_bounded {size : Nat} (h : size < 2 ^ 31) (buffer : Mem) :
    RecvBounded ⟨irecvRequest size buffer, none, none⟩ where
  lt := h
  at_stage := .header rfl rfl rfl rfl (loadInt_zero _) (loadInt_zero _)

/-- A step that stays in bounds and keeps the invariant. -/
def RecvStepOk (st : RecvState) (sock : Socket) (proc : Process) (choice : Choice) : Prop :=
  ∃ flow st' sock' proc', processRecv st sock proc choice = some (flow, st', sock', proc') ∧
    RecvBounded st' ∧ proc'.Sound

variable {st : RecvState} {sock : Socket} {proc : Process} {choice : Choice}
  {fps : List Fingerprint} {missing : List Nat}

/-- The bytes behind a received header keep the offsets of the other headers. -/
theorem loadInt_write_above {head : Mem} {pos pos' : Nat} {bs : List UInt8}
    (h : pos + bs.length ≤ pos') : loadInt (write head pos bs) pos' = loadInt head pos' :=
  loadInt_congr fun _ ha _ => write_above (Nat.le_trans h ha)

theorem RecvBounded.populate (h : RecvBounded st) (hproc : proc.Sound) {locals : PopulateLocals}
    (hstage : st.req.stage = .populateFromNetCache) (hloop : st.inserting = none)
    (hawaits : AwaitsMissing st.req) (hfps : Announces st.req.head fps)
    (hlocals : st.populating.getD populateStart = locals)
    (hpop : Populating fps missing locals st.req) (hchunks : ChunksFit fps st.req.size)
    (hstored : ∀ fp ∈ fps, ∀ e, proc.globalFingerprintCache.table.Stores fp.fingerprint e →
      e.contentSize ≤ fp.contentSize) : RecvStepOk st sock proc choice := by
  have hlt := h.lt
  have hsum : (fps.map (·.contentSize)).sum < 2 ^ 64 := by
    have := hchunks.sum_le
    omega
  cases hfound : locals.found with
  | some e =>
      obtain ⟨hi, hplaced, hsize⟩ := hpop.found e hfound
      have hbounds : InBounds st.req.size locals.curAppBuffer
          (read proc.globalFingerprintCache.cache (e.base * fingerprintCachePageSize)
            e.contentSize).length := by
        have := Nat.le_trans (boundary_add_le hi) hchunks.sum_le
        rw [length_read, hpop.cur]
        exact Or.inr (by omega)
      have hstep := @processRecv_populateCopy _ sock _ choice _ _ hstage hlocals _ hfound
          (hfps.get _ hi) _ hplaced.copy hbounds
      exact ⟨_, _, _, _, hstep, ⟨hlt, .populate fps missing (locals.copied fps[locals.i]) hstage
        hloop hawaits hfps rfl (hpop.copied hi hsum)⟩, hproc⟩
  | none =>
      rcases Nat.lt_or_eq_of_le hpop.i_le with hi | hi
      · have hmem := List.getElem_mem hi
        by_cases hstores : ∃ e, proc.globalFingerprintCache.table.Stores
            fps[locals.i].fingerprint e
        · obtain ⟨e, he⟩ := hstores
          have hstep := @processRecv_populateHit _ sock _ _ _ _ hstage hlocals hfound
              (by rw [hfps.num]; exact hi) (hfps.get _ hi) _
              (hproc.ok.lookup_stored he choice.uninit)
          exact ⟨_, _, _, _, hstep, ⟨hlt, .populate fps missing (locals.hit fps[locals.i] e)
            hstage hloop hawaits hfps rfl
            (hpop.hit hi (hproc.ok.placed_all he) (hstored _ hmem e he))⟩, hproc⟩
        · have hroom : missing.length < maxFingerprintsPerReq :=
            Nat.lt_of_le_of_lt hpop.missing_le (Nat.lt_of_lt_of_le hi hfps.fit)
          have hstep := @processRecv_populateMiss _ sock _ _ _ _ hstage hlocals hfound
              (by rw [hfps.num]; exact hi) (hfps.get _ hi)
              (hproc.ok.lookup_absent (not_exists.mp hstores) choice.uninit)
              (by rw [hpop.num]; exact hroom)
          exact ⟨_, _, _, _, hstep, ⟨hlt, .populate fps (missing ++ [locals.i])
            (locals.miss fps[locals.i]) hstage hloop hawaits hfps rfl
            (hpop.miss hi hfound hfps.fit hsum)⟩, hproc⟩
      · have hstep := @processRecv_populateEnd _ sock proc choice _ hstage hlocals hfound
            (by rw [hfps.num]; omega)
        exact ⟨_, _, _, _, hstep, ⟨hlt, .missingHeader fps missing rfl hloop
          ⟨hfps, hchunks, hpop.noted.congr rfl rfl, hpop.num⟩
          (Nat.le_trans (Nat.le_of_eq hawaits.1) (Nat.zero_le _)) hawaits.2.1 hawaits.2.2⟩,
          hproc.populated _ _⟩

namespace Populated

variable {req : DedupRecvReq}

theorem chunk_end_le (h : Populated fps missing req) {i : Nat} (hi : i < fps.length) :
    boundary fps i + fps[i].contentSize ≤ req.size :=
  Nat.le_trans (boundary_add_le hi) h.chunks.sum_le

/-- What the arrays say about missing chunk `t`. -/
theorem get (h : Populated fps missing req) {t : Nat} (ht : t < req.numMissingFingerprints) :
    ∃ i, ∃ hi : i < fps.length, missing[t]? = some i ∧
      missingInd req.missingFingerprintInds t = some i ∧
      getSlot req.missingFingerprintSlots t = some (boundary fps i) ∧
      packagedFingerprint req.head i = some fps[i] := by
  rw [h.num] at ht
  have hi := h.noted.lt _ (List.getElem_mem ht)
  exact ⟨missing[t], hi, List.getElem?_eq_getElem ht, h.noted.get_ind ht, h.noted.get_slot ht,
    h.announces.get _ hi⟩

theorem num_le (h : Populated fps missing req) :
    req.numMissingFingerprints ≤ maxFingerprintsPerReq := by
  rw [h.num]
  exact h.noted.fit

end Populated

theorem RecvBounded.content (h : RecvBounded st) (hproc : proc.Sound)
    (hstage : st.req.stage = .recvMissingContent) (hloop : st.inserting = none)
    (hpop : Populated fps missing st.req)
    (hoffset : ∀ i (hi : i < fps.length), missing[st.req.curRecvContentInd]? = some i →
      st.req.curRecvContentOffset ≤ fps[i].contentSize) : RecvStepOk st sock proc choice := by
  have hlt : st.req.size < 2 ^ 64 := Nat.lt_trans h.lt (by decide)
  rcases Nat.lt_or_ge st.req.curRecvContentInd st.req.numMissingFingerprints with ht | ht
  · obtain ⟨i, hi, hget, hind, hslot, hfp⟩ := hpop.get ht
    rcases processRecv_content hstage ht hslot hind hfp (hoffset i hi hget) (hpop.chunk_end_le hi)
      hlt with ⟨n, filled, hn, -, hstep⟩ | ⟨filled, -, hstep⟩
    · refine ⟨_, _, _, _, hstep, ⟨h.lt, .content fps missing hstage hloop
        ⟨hpop.announces, hpop.chunks, hpop.noted.congr rfl rfl, hpop.num⟩ fun i' hi' hget' => ?_⟩,
        hproc⟩
      obtain rfl : i = i' := Option.some_inj.mp (hget.symm.trans hget')
      exact hn
    · exact ⟨_, _, _, _, hstep, ⟨h.lt, .content fps missing hstage hloop
        ⟨hpop.announces, hpop.chunks, hpop.noted.congr rfl rfl, hpop.num⟩
        fun _ _ _ => Nat.zero_le _⟩, hproc⟩
  · exact ⟨_, _, _, _, processRecv_contentEnd hstage ht, ⟨h.lt, .insert fps missing rfl
      ⟨hpop.announces, hpop.chunks, hpop.noted.congr rfl rfl, hpop.num⟩⟩, hproc⟩

theorem RecvBounded.insert (h : RecvBounded st) (hproc : proc.Sound)
    (hstage : st.req.stage = .insertInboundFingerprints) (hpop : Populated fps missing st.req) :
    RecvStepOk st sock proc choice := by
  have hcomplete (inserting : Option Nat) :
      RecvBounded { st.goto .recvComplete with inserting := inserting } := ⟨h.lt, .complete rfl⟩
  have hturn (inserting : Option Nat) : RecvBounded { st with inserting := inserting } :=
    ⟨h.lt, .insert fps missing hstage hpop⟩
  cases hins : st.inserting with
  | none =>
      rcases processRecv_insertStart hstage hins with hstep | hstep | hstep
      · exact ⟨_, _, _, _, hstep, h, hproc⟩
      · exact ⟨_, _, _, _, hstep, hcomplete st.inserting, hproc⟩
      · exact ⟨_, _, _, _, hstep, hturn (some 0), hproc⟩
  | some t =>
      rcases Nat.lt_or_ge t st.req.numMissingFingerprints with ht | ht
      · obtain ⟨i, hi, -, hind, hslot, hfp⟩ := hpop.get ht
        have hmem := List.getElem_mem hi
        have hend := hpop.chunk_end_le hi
        have hreadable : fps[i].contentSize ≤ (read st.req.appBuffer (boundary fps i)
            (st.req.size - boundary fps i)).length := by
          rw [length_read]
          omega
        have hrun : ∃ r cache entry, insertFingerprint proc.globalFingerprintCache fps[i]
            (read st.req.appBuffer (boundary fps i) (st.req.size - boundary fps i))
              (some choice.uninit) = some (r, cache, entry) ∧
                ∀ skip, Process.Sound ⟨cache, skip⟩ := by
          rcases Nat.lt_or_ge maxContentSize fps[i].contentSize with hbig | hsmall
          · have hlt : fps[i].contentSize < 2 ^ 32 := by
              have := h.lt
              omega
            obtain ⟨e, he⟩ := @FingerprintCache.insertFingerprint_oversize
                proc.globalFingerprintCache _ (read st.req.appBuffer (boundary fps i)
                (st.req.size - boundary fps i)) hbig hlt (some choice.uninit)
            exact ⟨_, _, e, he, fun _ => ⟨hproc.ok, hproc.settings⟩⟩
          · obtain ⟨r, cache, entry, hr, hinserted⟩ := hproc.ok.insertFingerprint_cases
              ⟨⟨hpop.chunks.pos _ hmem, hsmall⟩, hreadable⟩ (some choice.uninit)
            exact ⟨r, cache, entry, hr, hproc.inserted hinserted⟩
        obtain ⟨r, cache, entry, hr, hsound⟩ := hrun
        rcases processRecv_insert hstage hins ht hind hfp hslot hr with ⟨-, hstep⟩ | ⟨-, hstep⟩
        · exact ⟨_, _, _, _, hstep, hcomplete none, hsound true⟩
        · exact ⟨_, _, _, _, hstep, hturn (some (t + 1)), hsound proc.toSkipInsertCache⟩
      · exact ⟨_, _, _, _, processRecv_insertEnd hstage hins ht, hcomplete none, hproc⟩

/-- A step of the receiving party that meets the condition stays in bounds. -/
theorem RecvBounded.next (h : RecvBounded st) (hproc : proc.Sound)
    (hfit : AnnouncementsFit ⟨st, sock, proc⟩ (.step choice)) : RecvStepOk st sock proc choice := by
  have hlt : st.req.size < 2 ^ 64 := Nat.lt_trans h.lt (by decide)
  cases h.at_stage with
  | header hstage hpop hloop hstart hgeneral hfingerprint =>
      simp only [AnnouncementsFit, hstage] at hfit
      rcases @processRecv_header _ _ proc _ hstage hgeneral hfit with
        hstep | ⟨havail, req, rfl, hstep⟩
      · exact ⟨_, _, _, _, hstep, h, hproc⟩
      · have hoffset : loadInt (write st.req.head generalHeader.pos
            (sock.inbound.take generalHeader.size)) fingerprintHeader.offsetPos = 0 := by
          rw [loadInt_write_above, hfingerprint]
          rw [List.length_take_of_le havail]
          decide
        refine ⟨_, _, _, _, hstep, ⟨h.lt, ?_⟩, hproc⟩
        split
        · exact .fingerprintHeader rfl hpop hloop hoffset
        · exact .regData rfl (Nat.le_trans (Nat.le_of_eq hstart) (Nat.zero_le _))
  | regData hstage hoffset =>
      simp only [AnnouncementsFit, hstage] at hfit
      rcases processRecv_regData hstage rfl hoffset hfit hlt with ⟨n, hn, -, hstep⟩ | ⟨-, hstep⟩
      · exact ⟨_, _, _, _, hstep, ⟨h.lt, .regData hstage hn⟩, hproc⟩
      · exact ⟨_, _, _, _, hstep, ⟨h.lt, .complete rfl⟩, hproc⟩
  | fingerprintHeader hstage hpop hloop hfingerprint =>
      simp only [AnnouncementsFit, hstage] at hfit
      rcases @processRecv_fingerprintHeader _ _ proc _ hstage hfingerprint hfit with
        hstep | ⟨-, req, rfl, hstep⟩
      · exact ⟨_, _, _, _, hstep, h, hproc⟩
      · exact ⟨_, _, _, _, hstep, ⟨h.lt, .packaged rfl hpop hloop ⟨rfl, rfl, rfl, rfl⟩ rfl
          (Nat.zero_le _)⟩, hproc⟩
  | packaged hstage hpop hloop hawaits hbytes hoffset =>
      simp only [AnnouncementsFit, hstage] at hfit
      have hle : numFingerprints st.req.head * sizeofFingerprint ≤
          maxFingerprintsPerReq * sizeofFingerprint := Nat.mul_le_mul_right _ hfit
      have hmod : numFingerprints st.req.head * sizeofFingerprint % 2 ^ 64 =
          numFingerprints st.req.head * sizeofFingerprint :=
        Nat.mod_eq_of_lt (Nat.lt_of_le_of_lt hle (by decide))
      have hnum (bs : List UInt8) : numFingerprints (write st.req.head
          (packagedPos + st.req.recvFingerprintOffset) bs) = numFingerprints st.req.head :=
        loadU64_congr fun a _ ha => write_below _ (Nat.lt_of_lt_of_le ha (by
          exact Nat.le_trans (by decide) (Nat.le_add_right _ _)))
      rcases processRecv_packaged hstage hoffset (by rw [hbytes, hmod]; exact hle) with
        ⟨n, hn, -, hstep⟩ | ⟨-, hstep⟩
      · exact ⟨_, _, _, _, hstep, ⟨h.lt, .packaged hstage hpop hloop hawaits
          (hbytes.trans (by rw [hnum])) hn⟩, hproc⟩
      · refine ⟨_, _, _, _, hstep, ⟨h.lt, .populate _ [] populateStart rfl hloop hawaits
          (announces_announcedFingerprints (by rw [hnum]; exact hfit)) ?_
          (Populating.start _ _)⟩, hproc⟩
        simp only [hpop, Option.getD_none]
  | populate fps missing locals hstage hloop hawaits hfps hlocals hpop =>
      simp only [AnnouncementsFit, hstage, hfps.eq_announced] at hfit
      exact h.populate hproc hstage hloop hawaits hfps hlocals hpop hfit.1 hfit.2
  | missingHeader fps missing hstage hloop hpop hoffset hinds hawaits =>
      rcases processRecv_missingHeader hstage hoffset with ⟨n, hn, hstep⟩ | hstep
      · exact ⟨_, _, _, _, hstep, ⟨h.lt, .missingHeader fps missing hstage hloop
          ⟨hpop.announces, hpop.chunks, hpop.noted.congr rfl rfl, hpop.num⟩ hn hinds hawaits⟩,
              hproc⟩
      · refine ⟨_, _, _, _, hstep, ⟨h.lt, ?_⟩, hproc⟩
        by_cases hzero : st.req.numMissingFingerprints = 0
        · rw [if_pos hzero]
          exact .complete rfl
        · rw [if_neg hzero]
          exact .missing fps missing rfl hloop
            ⟨hpop.announces, hpop.chunks, hpop.noted.congr rfl rfl, hpop.num⟩
            (Nat.le_trans (Nat.le_of_eq hinds) (Nat.zero_le _)) hawaits
  | missing fps missing hstage hloop hpop hoffset hawaits =>
      rcases processRecv_missing hstage hpop.num_le hoffset with ⟨n, hn, hstep⟩ | hstep
      · exact ⟨_, _, _, _, hstep, ⟨h.lt, .missing fps missing hstage hloop
          ⟨hpop.announces, hpop.chunks, hpop.noted.congr rfl rfl, hpop.num⟩ hn hawaits⟩, hproc⟩
      · exact ⟨_, _, _, _, hstep, ⟨h.lt, .content fps missing rfl hloop
          ⟨hpop.announces, hpop.chunks, hpop.noted.congr rfl rfl, hpop.num⟩
          fun _ _ _ => Nat.le_trans (Nat.le_of_eq hawaits.2) (Nat.zero_le _)⟩, hproc⟩
  | content fps missing hstage hloop hpop hoffset => exact h.content hproc hstage hloop hpop hoffset
  | insert fps missing hstage hpop => exact h.insert hproc hstage hpop
  | complete hstage => exact ⟨_, _, _, _, processRecv_complete hstage, h, hproc⟩

/-- A receiving party whose request is within its bounds, on a sound cache. -/
def Party.RecvBounded (p : Party RecvState) : Prop := Transfer.RecvBounded p.st ∧ p.proc.Sound

theorem Party.RecvBounded.next {p : Party RecvState} (h : p.RecvBounded) {event : PartyEvent}
    (hfit : AnnouncementsFit p event) :
    ∃ p', Party.next processRecv p event = some p' ∧ p'.RecvBounded := by
  cases event with
  | arrive bs => exact ⟨_, rfl, h⟩
  | other proc => exact ⟨_, rfl, h.1, hfit⟩
  | step choice =>
      obtain ⟨flow, st', sock', proc', hstep, hst, hproc'⟩ := Transfer.RecvBounded.next h.1 h.2 hfit
      exact ⟨⟨st', sock', proc'⟩, by rw [Party.next, hstep, Option.map_some], hst, hproc'⟩

/-- A run of the receiving party whose steps meet the condition stays in bounds. -/
theorem recv_run_inBounds {size : Nat} {buffer : Mem} (hsize : size < 2 ^ 31) (hproc : proc.Sound)
    {events : List PartyEvent}
    (hfit : Run.Guarded (Party.next processRecv) AnnouncementsFit
      ⟨⟨irecvRequest size buffer, none, none⟩, sock, proc⟩ events) :
    Run.run (Party.next processRecv) ⟨⟨irecvRequest size buffer, none, none⟩, sock, proc⟩ events ≠
      none := by
  obtain ⟨p, hrun, -⟩ := Run.run_total (fun _ _ h => Party.RecvBounded.next h)
    (⟨irecvRequest_bounded hsize buffer, hproc⟩ : Party.RecvBounded _) hfit
  exact fun hnone => Option.some_ne_none _ (hrun.symm.trans hnone)

end NetDedup.Transfer

import NetDedup.Lib.Run
import NetDedup.Transfer.RecvSteps

/-!
# The fingerprint arrays of a request

The arrays hold `MAX_FINGERPRINTS_PER_REQ` entries, and no code compares the
number of chunks with it. Chunks are at least minimal, which bounds their
number by the size of the message; a message of zeros reaches that bound.
-/

namespace NetDedup.Transfer

open Chunking Memory Store

section Zeros

/-- Every window of zeros is a hit. -/
theorem start_zeros_hit (n slot : Nat) :
    (Roll.start shippedSettings (List.replicate n 0) slot).hit shippedSettings = true := by
  simp only [Roll.hit, Roll.start, List.drop_replicate, List.take_replicate, initRabin_zeros]
  decide

theorem first_zeros_hit (n : Nat) :
    (Roll.first shippedSettings (List.replicate n 0)).hit shippedSettings = true := by
  simp only [Roll.hit, Roll.first, Roll.start, List.drop_replicate, List.take_replicate,
    initRabin_zeros]
  decide

theorem firstCut_of_hit {s : FingerprintingSettings} {r : Roll} (hit : r.hit s = true)
    (d : List UInt8) : firstCut s d r = (s.minSize, r) := by
  unfold firstCut
  cases d.drop s.minSize with
  | nil => rfl
  | cons b rest => rw [scan, hit, Bool.true_or, if_pos rfl]

/-- Zeros are cut into minimal chunks. -/
theorem Cuts.length_of_zeros {d : List UInt8} {r : Roll} {ks : List Nat}
    (h : Cuts shippedSettings d r ks) :
    ∀ {n : Nat}, d = List.replicate n 0 → r.hit shippedSettings = true → n = 0 ∨ 2048 ≤ n →
      ks.length = n / 2048 := by
  induction h with
  | done =>
      intro n hd _ _
      obtain rfl : n = 0 := by simpa using congrArg List.length hd.symm
      rfl
  | @chunk d r ks hne tail ih =>
      intro n hd hit hn
      subst hd
      rw [firstCut_of_hit hit, List.length_replicate, shipped_minSize, List.drop_replicate] at ih
      simp only at ih
      have hpos : n ≠ 0 := fun h => hne (by rw [h, List.replicate_zero])
      have hlen := ih rfl (start_zeros_hit _ _)
      rw [List.length_cons]
      rcases cutSize_eq_or (s := shippedSettings) (show 2048 ≤ n by omega) with
        ⟨hk, hlt, hmin⟩ | ⟨hk, hlt⟩ | ⟨hk, heq⟩
      · rw [shipped_minSize] at hmin
        rw [hlen (by omega)]
        omega
      · rw [shipped_minSize] at hlt
        rw [hlen (by omega)]
        omega
      · rw [hlen (by omega)]
        omega

theorem doFingerprinting_zeros_length (sha256 : List UInt8 → Digest) {n : Nat} (hn : 2048 < n) :
    ∃ fps, doFingerprinting sha256 shippedSettings (List.replicate n 0) = some fps ∧
      fps.length = n / 2048 := by
  obtain ⟨ks, hcuts, hrun⟩ := @doFingerprinting_eq sha256 _ _ shipped_ordered
      (show shippedSettings.minSize < (List.replicate n (0 : UInt8)).length by
      rw [List.length_replicate, shipped_minSize]
      exact hn)
  refine ⟨_, hrun, ?_⟩
  rw [fingerprintsOf_length]
  exact Cuts.length_of_zeros hcuts rfl (first_zeros_hit n) (Or.inr (Nat.le_of_lt hn))

end Zeros

section Receiver

/-- One step of the populate loop; the cache and the stack may be anything. -/
def populateStep (st : PopulateLocals × DedupRecvReq) (call : FingerprintCache × FingerprintEntry) :
    Option (PopulateLocals × DedupRecvReq) :=
  match processPopulateFromNetCache call.1 st.2 call.2 st.1 with
  | some (.inl locals, _, req) => some (locals, req)
  | _ => none

/-- With `k` announced fingerprints the receiver indexes only entries that its
arrays have: while it receives them, and at every lookup of the populate loop. -/
structure ReceiverInBounds (k : Nat) : Prop where
  packaged : ∀ (head : Mem) (sock : Socket) (o : Outcome) (prevRecv : Nat),
    prevRecv ≤ k * sizeofFingerprint →
    recvBlock head headSize packagedPos (k * sizeofFingerprint) prevRecv sock o ≠ none
  missing : ∀ (req req' : DedupRecvReq) (locals : PopulateLocals)
    (calls : List (FingerprintCache × FingerprintEntry)) (cache : FingerprintCache)
    (entry : FingerprintEntry), numFingerprints req.head = k →
    Run.run populateStep (populateStart, req) calls = some (locals, req') →
    locals.found = none → locals.i < k → lookupChunk cache req' entry locals ≠ none

theorem lookupChunk_fits {cache : FingerprintCache} {req : DedupRecvReq} {entry : FingerprintEntry}
    {locals : PopulateLocals} (hi : locals.i < maxFingerprintsPerReq)
    (hmissing : locals.numMissingFingerprints ≤ locals.i) :
    ∃ r, lookupChunk cache req entry locals = some r ∧
      r.1.numMissingFingerprints ≤ r.1.i := by
  have hslot : locals.numMissingFingerprints < maxFingerprintsPerReq := by omega
  unfold lookupChunk
  rw [packagedFingerprint, if_pos hi]
  simp only [Option.bind_eq_bind, Option.bind_some]
  split
  · rw [setMissingInd, setSlot, if_pos hslot, if_pos hslot]
    exact ⟨_, rfl, Nat.succ_le_succ hmissing⟩
  · exact ⟨_, rfl, hmissing⟩

/-- The missing fingerprints are some of those looked up. -/
theorem populateStep_missing_le {st st' : PopulateLocals × DedupRecvReq}
    {call : FingerprintCache × FingerprintEntry} (h : st.1.numMissingFingerprints ≤ st.1.i)
    (hstep : populateStep st call = some st') : st'.1.numMissingFingerprints ≤ st'.1.i := by
  obtain ⟨locals, req⟩ := st
  obtain ⟨locals', req'⟩ := st'
  unfold populateStep at hstep
  split at hstep
  · next locals₁ cache₁ req₁ hpopulate =>
    obtain ⟨rfl, rfl⟩ := Prod.mk.inj (Option.some_inj.mp hstep)
    rcases processPopulateFromNetCache_some hpopulate with
      ⟨found, locals₂, -, hnext, -, hcopy⟩ | ⟨locals₂, -, -, hnext, -, hlookup⟩ | ⟨-, -, hnext, -⟩
    · obtain rfl := Sum.inl_injective hnext
      obtain ⟨fp, content, -, -, -, rfl, -⟩ := copyChunk_some hcopy
      exact Nat.le_succ_of_le h
    · obtain rfl := Sum.inl_injective hnext
      obtain ⟨fp, -, ⟨rfl, -⟩ | ⟨found, rfl, -⟩⟩ := lookupChunk_some hlookup
      · exact Nat.succ_le_succ h
      · exact h
    · exact absurd hnext (by simp)
  · exact absurd hstep (by simp)

theorem receiverInBounds_of_le {k : Nat} (hk : k ≤ maxFingerprintsPerReq) : ReceiverInBounds k where
  packaged := by
    intro head sock o prevRecv hprev
    have htotal : k * sizeofFingerprint ≤ maxFingerprintsPerReq * sizeofFingerprint :=
      Nat.mul_le_mul_right _ hk
    have hlt : k * sizeofFingerprint < 2 ^ 64 := Nat.lt_of_le_of_lt htotal (by decide)
    rcases @recvBlock_cases head _ _ _ _ sock o hprev hlt (Nat.add_le_add_left htotal packagedPos)
        with ⟨n, -, -, h⟩ | ⟨-, h⟩
    · exact fun hnone => Option.some_ne_none _ (h.symm.trans hnone)
    · exact fun hnone => Option.some_ne_none _ (h.symm.trans hnone)
  missing := by
    intro req req' locals calls cache entry _ hrun _ hi
    have hmissing : locals.numMissingFingerprints ≤ locals.i :=
      Run.run_invariant_all (I := fun st => st.1.numMissingFingerprints ≤ st.1.i)
        (fun st call st' h hstep => populateStep_missing_le h hstep) (Nat.le_refl 0) hrun
    obtain ⟨r, hr, -⟩ := @lookupChunk_fits cache req' entry _ (Nat.lt_of_lt_of_le hi hk) hmissing
    exact fun hnone => Option.some_ne_none _ (hr.symm.trans hnone)

/-- One byte that has arrived and the array has no room for. -/
theorem recv_behind_packaged {len : Nat} (h : 0 < len) :
    recv ⟨[], [0]⟩ (.ready 0) (fun _ => 0) headSize
      (packagedPos + maxFingerprintsPerReq * sizeofFingerprint) len = none := by
  have hreceived : (Outcome.ready 0).received len 1 = some 1 := by
    rw [Outcome.received, if_neg (by omega), if_neg (by decide), Nat.min_eq_left (by omega)]
  have hout : ¬ InBounds headSize (packagedPos + maxFingerprintsPerReq * sizeofFingerprint) 1 := by
    decide
  unfold recv
  rw [show [(0 : UInt8)].length = 1 from rfl, hreceived]
  exact if_neg hout

theorem not_receiverInBounds {k : Nat} (hk : maxFingerprintsPerReq < k) (hlt : k < 2 ^ 32) :
    ¬ ReceiverInBounds k := by
  intro h
  have hroom : maxFingerprintsPerReq * sizeofFingerprint < k * sizeofFingerprint :=
    Nat.mul_lt_mul_of_pos_right hk (by decide)
  have htotal : k * sizeofFingerprint < 2 ^ 64 := by
    unfold sizeofFingerprint fingerprintNumBytes
    omega
  have hsub := u64Sub_of_le (Nat.le_of_lt hroom) htotal
  refine h.packaged (fun _ => 0) ⟨[], [0]⟩ (.ready 0) _ (Nat.le_of_lt hroom) (recvBlock_fault ?_)
  rw [hsub]
  exact recv_behind_packaged (Nat.sub_pos_of_lt hroom)

end Receiver

section Message

variable {sha256 : List UInt8 → Digest} {data : List UInt8}

/-- Both parties index only entries that their arrays have when this message
is sent: the chunks are not more than those entries. -/
def ArraysInBounds (sha256 : List UInt8 → Digest) (data : List UInt8) : Prop :=
  ∃ fps, doFingerprinting sha256 shippedSettings data = some fps ∧
    fps.length ≤ maxFingerprintsPerReq ∧
    processComputeFingerprints sha256 shippedSettings (isendRequest data) ≠ none ∧
    ReceiverInBounds fps.length

/-- Each of the two parties stays in bounds exactly when the chunks fit. -/
theorem chunks_fit_iff {fps : List Fingerprint} (hlen : data.length < 2 ^ 31)
    (hrun : doFingerprinting sha256 shippedSettings data = some fps) :
    (fps.length ≤ maxFingerprintsPerReq ↔
      processComputeFingerprints sha256 shippedSettings (isendRequest data) ≠ none) ∧
    (fps.length ≤ maxFingerprintsPerReq ↔ ReceiverInBounds fps.length) := by
  have hslots := doFingerprinting_length_le_slots shipped_ordered hrun
  rw [shipped_minSize] at hslots
  refine ⟨⟨fun hfit => ?_, fun hsome => ?_⟩, receiverInBounds_of_le, fun hin => ?_⟩
  · obtain ⟨offsets, heq, -⟩ := @processComputeFingerprints_fits _ _ (isendRequest data) _
        shipped_ordered hrun (Nat.lt_trans hlen (by decide)) hfit
    exact fun hnone => Option.some_ne_none _ (heq.symm.trans hnone)
  · refine Nat.le_of_not_lt fun hover => hsome ?_
    exact @processComputeFingerprints_overflow _ _ (isendRequest data) _ shipped_ordered hrun hover
  · refine Nat.le_of_not_lt fun hover => not_receiverInBounds hover ?_ hin
    omega

theorem arraysInBounds_of_length_lt (h : data.length < 8390656) (hmin : 2048 < data.length) :
    ArraysInBounds sha256 data := by
  obtain ⟨fps, hrun, -⟩ := @doFingerprinting_isPartition sha256 _ shipped_ordered data
  have hcount := doFingerprinting_length_le shipped_ordered hmin hrun
  rw [shipped_minSize] at hcount
  have hfit : fps.length ≤ maxFingerprintsPerReq := by
    unfold maxFingerprintsPerReq
    omega
  obtain ⟨hsender, hreceiver⟩ := chunks_fit_iff (Nat.lt_trans h (by decide)) hrun
  exact ⟨fps, hrun, hfit, hsender.mp hfit, hreceiver.mp hfit⟩

/-- A message of zeros is cut into more chunks than the arrays hold as soon as
it has `MAX_FINGERPRINTS_PER_REQ + 1` minimal chunks. -/
theorem not_arraysInBounds_zeros (sha256 : List UInt8 → Digest) {n : Nat} (h : 8390656 ≤ n) :
    ¬ ArraysInBounds sha256 (List.replicate n 0) := by
  rintro ⟨fps, hrun, hfit, -⟩
  obtain ⟨fps', hrun', hlen⟩ := doFingerprinting_zeros_length sha256 (n := n) (by omega)
  obtain rfl : fps = fps' := Option.some_inj.mp (hrun.symm.trans hrun')
  unfold maxFingerprintsPerReq at hfit
  omega

end Message

/-- The fingerprint arrays hold the chunks of every message of some size on
the fingerprint path exactly when the size is below 4097 minimal chunks. -/
theorem arraysInBounds_iff (sha256 : List UInt8 → Digest) (n : Nat)
    (hpath : fingerprintMsgSizeThreshold < n) (hint : n ≤ 2 ^ 31 - 1) :
    (∀ data : List UInt8, data.length = n → ArraysInBounds sha256 data) ↔ n < 8390656 := by
  constructor
  · intro hall
    refine Nat.lt_of_not_le fun hge => not_arraysInBounds_zeros sha256 hge ?_
    exact hall _ List.length_replicate
  · rintro hlt data rfl
    refine arraysInBounds_of_length_lt hlt ?_
    rw [fingerprintMsgSizeThreshold, minChunkSizeBytes] at hpath
    omega

/-- The shortest message on the fingerprint path. -/
theorem arraysInBounds_iff_shortest :
    (∀ data : List UInt8, data.length = 10241 → ArraysInBounds (fun _ => zeroDigest) data) ↔
      10241 < 8390656 :=
  arraysInBounds_iff _ 10241 (by decide) (by decide)

/-- Eight megabytes of zeros and one minimal chunk more. -/
theorem arraysInBounds_fails :
    fingerprintMsgSizeThreshold < 8390656 ∧ 8390656 ≤ 2 ^ 31 - 1 ∧
    ∀ sha256 : List UInt8 → Digest, ¬ ArraysInBounds sha256 (List.replicate 8390656 0) :=
  ⟨by decide, by decide, fun sha256 => not_arraysInBounds_zeros sha256 (Nat.le_refl _)⟩

end NetDedup.Transfer

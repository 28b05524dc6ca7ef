import NetDedup.Fingerprint.RingMarker
import NetDedup.Transfer.ArrayBounds

/-!
# Chunking as an exact bounded partition

`do_fingerprinting` partitions every buffer into chunks that keep the bounds
of its settings. The start offsets that `process_compute_fingerprints` stores
for them are exact on the buffers whose chunks fit the arrays of a request,
and on no other.
-/

namespace NetDedup.Transfer

open Chunking

/-- A partition of the buffer whose chunks keep the bounds of the settings. -/
structure IsBoundedPartition (sha256 : List UInt8 → Digest) (s : FingerprintingSettings)
    (data : List UInt8) (fps : List Fingerprint) : Prop extends IsPartition sha256 data fps where
  pos : ∀ fp ∈ fps, 1 ≤ fp.contentSize
  length_eq_one : data.length ≤ s.minSize → fps.length = 1
  length_le : s.minSize < data.length → fps.length ≤ data.length / s.minSize
  length_le_slots : fps.length ≤ data.length / s.minSize + 1
  min_le : s.minSize < data.length → ∀ fp ∈ fps, s.minSize ≤ fp.contentSize
  le_max : s.minSize < data.length → ∀ fp ∈ fps.dropLast, fp.contentSize ≤ s.maxSize
  last_lt : s.minSize < data.length → ∀ fp ∈ fps, fp.contentSize < s.maxSize + s.minSize

/-- Every chunk fits the pages of a cache entry. -/
def FitsPages (fps : List Fingerprint) : Prop :=
  ∀ fp ∈ fps, myCeil fp.contentSize fingerprintCachePageSize ≤ fingerprintContentMaxPages

/-- `process_compute_fingerprints` leaves the fingerprints behind, with the
start offsets of their slices. -/
def StoresOffsets (fps : List Fingerprint) : Option (Int × DedupSendReq) → Prop
  | some (r, req) => r = 1 ∧ numFingerprints req.head = fps.length ∧
      ∀ (i : Nat) (hi : i < fps.length), packagedFingerprint req.head i = some fps[i] ∧
        getSlot req.fingerprintOffsets i = some (boundary fps i)
  | none => False

/-- So it does for every request to send this buffer. -/
def OffsetsExact (sha256 : List UInt8 → Digest) (s : FingerprintingSettings) (data : List UInt8)
    (fps : List Fingerprint) : Prop :=
  ∀ req : DedupSendReq, req.data = data →
    StoresOffsets fps (processComputeFingerprints sha256 s req)

/-- `do_fingerprinting` returns a bounded partition of the buffer and, under
the shipped settings, its chunks fit the cache and their offsets are exact. -/
def IsExact (sha256 : List UInt8 → Digest) (s : FingerprintingSettings) (data : List UInt8) :
    Prop :=
  ∃ fps, doFingerprinting sha256 s data = some fps ∧ IsBoundedPartition sha256 s data fps ∧
    (s = shippedSettings → FitsPages fps ∧ OffsetsExact sha256 s data fps)

section Exact

variable {sha256 : List UInt8 → Digest} {s : FingerprintingSettings} {data : List UInt8}
  {fps : List Fingerprint}

theorem isBoundedPartition_of_run (hs : s.Ordered) (hdata : data ≠ [])
    (hrun : doFingerprinting sha256 s data = some fps) : IsBoundedPartition sha256 s data fps := by
  obtain ⟨fps', hrun', hpart⟩ := @doFingerprinting_isPartition sha256 _ hs data
  obtain rfl : fps = fps' := Option.some_inj.mp (hrun.symm.trans hrun')
  refine ⟨hpart, doFingerprinting_pos hs hdata hrun, fun h => ?_,
    fun h => doFingerprinting_length_le hs h hrun, doFingerprinting_length_le_slots hs hrun,
    fun h => (doFingerprinting_bounds hs h hrun).1,
    fun h => (doFingerprinting_bounds hs h hrun).2.1,
    fun h => (doFingerprinting_bounds hs h hrun).2.2⟩
  rw [doFingerprinting_short h, Option.some_inj] at hrun
  rw [← hrun, List.length_singleton]

theorem processComputeFingerprints_storesOffsets (hs : s.Ordered) {req : DedupSendReq}
    (hrun : doFingerprinting sha256 s req.data = some fps) (hlen : req.data.length < 2 ^ 64)
    (hfit : fps.length ≤ maxFingerprintsPerReq) :
    StoresOffsets fps (processComputeFingerprints sha256 s req) := by
  obtain ⟨fps', hrun', hpart⟩ := @doFingerprinting_isPartition sha256 _ hs req.data
  obtain rfl : fps = fps' := Option.some_inj.mp (hrun.symm.trans hrun')
  obtain ⟨offsets, heq, hoffsets⟩ := processComputeFingerprints_fits hs hrun hlen hfit
  have hnum : fps.length < 2 ^ 64 := Nat.lt_of_le_of_lt hfit (by decide)
  rw [heq]
  refine ⟨rfl, numFingerprints_fingerprintedHead _ _ hnum, fun i hi => ⟨?_, ?_⟩⟩
  · exact (fingerprintedHead_packed req.head fps).get hfit
      (fun fp hfp => Nat.lt_of_le_of_lt (hpart.size_le hfp) hlen) hi
  · rw [getSlot, if_pos (Nat.lt_of_lt_of_le hi hfit)]
    simp only [hoffsets i hi]

/-- The offsets of a buffer are exact when its chunks fit the arrays, and only then. -/
theorem offsetsExact_iff (hs : s.Ordered) (hrun : doFingerprinting sha256 s data = some fps)
    (hlen : data.length < 2 ^ 64) :
    OffsetsExact sha256 s data fps ↔ fps.length ≤ maxFingerprintsPerReq := by
  constructor
  · intro hexact
    refine Nat.le_of_not_lt fun hover => ?_
    have hstores := hexact (isendRequest data) rfl
    rwa [@processComputeFingerprints_overflow _ _ (isendRequest data) _ hs hrun hover] at hstores
  · rintro hfit req rfl
    exact processComputeFingerprints_storesOffsets hs hrun hlen hfit

theorem OffsetsExact.stores (h : OffsetsExact sha256 s data fps) :
    ∃ req, processComputeFingerprints sha256 s (isendRequest data) = some (1, req) ∧
      numFingerprints req.head = fps.length ∧
      ∀ i < fps.length, getSlot req.fingerprintOffsets i = some (boundary fps i) := by
  have hstores := h (isendRequest data) rfl
  cases hreq : processComputeFingerprints sha256 s (isendRequest data) with
  | none =>
      rw [hreq] at hstores
      exact absurd hstores id
  | some result =>
      obtain ⟨r, req⟩ := result
      rw [hreq] at hstores
      obtain ⟨rfl, hnum, hget⟩ := hstores
      exact ⟨req, rfl, hnum, fun i hi => (hget i hi).2⟩

theorem isExact_of_length_lt (hne : data ≠ []) (h : data.length < 8390656) :
    IsExact sha256 shippedSettings data := by
  obtain ⟨fps, hrun, -⟩ := @doFingerprinting_isPartition sha256 _ shipped_ordered data
  have hbounded := isBoundedPartition_of_run shipped_ordered hne hrun
  have hslots := hbounded.length_le
  have hone := hbounded.length_eq_one
  rw [shipped_minSize] at hslots hone
  have hfit : fps.length ≤ maxFingerprintsPerReq := by
    unfold maxFingerprintsPerReq
    omega
  exact ⟨fps, hrun, hbounded, fun _ => ⟨shipped_pages_le hrun,
    (offsetsExact_iff shipped_ordered hrun (Nat.lt_trans h (by decide))).mpr hfit⟩⟩

theorem not_isExact_zeros (sha256 : List UInt8 → Digest) {n : Nat} (h : 8390656 ≤ n)
    (hlt : n < 2 ^ 64) : ¬ IsExact sha256 shippedSettings (List.replicate n 0) := by
  rintro ⟨fps, hrun, -, hexact⟩
  obtain ⟨fps', hrun', hlen⟩ := doFingerprinting_zeros_length sha256 (n := n) (by omega)
  obtain rfl : fps = fps' := Option.some_inj.mp (hrun.symm.trans hrun')
  have hfit := (offsetsExact_iff shipped_ordered hrun
    (by rwa [List.length_replicate])).mp (hexact rfl).2
  unfold maxFingerprintsPerReq at hfit
  omega

end Exact

/-- `do_fingerprinting` returns on every buffer, with a bounded partition of
it whose chunks fit the pages of a cache entry under the shipped settings. The
offsets are exact when the chunks fit the arrays and only then, which the
buffers of a size all do exactly when it is below 4097 minimal chunks. -/
theorem doFingerprinting_exact (sha256 : List UInt8 → Digest) :
    (∀ (s : FingerprintingSettings), s.Ordered → ∀ data : List UInt8, 1 ≤ data.length →
      ∃ fps, doFingerprinting sha256 s data = some fps ∧ IsBoundedPartition sha256 s data fps ∧
        (s = shippedSettings → FitsPages fps) ∧
        (data.length < 2 ^ 64 →
          (OffsetsExact sha256 s data fps ↔ fps.length ≤ maxFingerprintsPerReq))) ∧
    ∀ n : Nat, 1 ≤ n → n < 2 ^ 64 →
      ((∀ data : List UInt8, data.length = n → IsExact sha256 shippedSettings data) ↔
        n < 8390656) := by
  refine ⟨fun s hs data hdata => ?_, fun n hpos hlt => ⟨fun hall => ?_, ?_⟩⟩
  · obtain ⟨fps, hrun, -⟩ := @doFingerprinting_isPartition sha256 _ hs data
    refine ⟨fps, hrun, isBoundedPartition_of_run hs (List.length_pos_iff.mp hdata) hrun, ?_,
      offsetsExact_iff hs hrun⟩
    rintro rfl
    exact shipped_pages_le hrun
  · refine Nat.lt_of_not_le fun hge => not_isExact_zeros sha256 hge hlt ?_
    exact hall _ List.length_replicate
  · rintro hsmall data rfl
    exact isExact_of_length_lt (List.length_pos_iff.mp hpos) hsmall

/-- The marker is cut into several chunks, and the second is stored to start at 2049. -/
theorem doFingerprinting_exact_ringMarker :
    ∃ fps, doFingerprinting (fun _ => zeroDigest) shippedSettings ringMarker = some fps ∧
      2 ≤ fps.length ∧ FitsPages fps ∧
      ∃ req, processComputeFingerprints (fun _ => zeroDigest) shippedSettings
          (isendRequest ringMarker) = some (1, req) ∧
        numFingerprints req.head = fps.length ∧ getSlot req.fingerprintOffsets 1 = some 2049 := by
  have hne : 1 ≤ ringMarker.length := by
    rw [ringMarker_length]
    decide
  have hlt : ringMarker.length < 2 ^ 64 := by
    rw [ringMarker_length]
    decide
  obtain ⟨hall, hsize⟩ := doFingerprinting_exact fun _ => zeroDigest
  obtain ⟨fps, hrun, hbounded, hpages, -⟩ := hall _ shipped_ordered ringMarker hne
  obtain ⟨fps', hrun', -, hexact⟩ := (hsize _ hne hlt).mpr
    (by rw [ringMarker_length]; decide) ringMarker rfl
  obtain rfl : fps = fps' := Option.some_inj.mp (hrun.symm.trans hrun')
  -- its first chunk has 2049 of its 6080 bytes
  obtain ⟨fps₁, hrun₁, hk⟩ := ringMarker_run fun _ => zeroDigest
  rw [List.take_append_drop] at hrun₁
  obtain rfl : fps = fps₁ := Option.some_inj.mp (hrun.symm.trans hrun₁)
  rw [ringMarker_take_length] at hk
  have htwo : 2 ≤ fps.length := by
    by_contra hone
    have hsum := hbounded.sum_sizes
    rw [boundary, List.take_of_length_le (by omega), hsum, ringMarker_length] at hk
    omega
  obtain ⟨req, hreq, hnum, hget⟩ := (hexact rfl).2.stores
  exact ⟨fps, hrun, htwo, hpages rfl, req, hreq, hnum, by rw [hget 1 htwo, hk]⟩

/-- Eight megabytes of zeros and one minimal chunk more are 4097 chunks, and
the offset of the last has no entry to be stored in. -/
theorem doFingerprinting_exact_fails :
    shippedSettings.Ordered ∧ ∀ sha256 : List UInt8 → Digest,
      ¬ IsExact sha256 shippedSettings (List.replicate 8390656 0) :=
  ⟨shipped_ordered, fun sha256 => not_isExact_zeros sha256 (Nat.le_refl _) (by decide)⟩

end NetDedup.Transfer

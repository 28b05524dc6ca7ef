import NetDedup.Fingerprint.Partition
import NetDedup.Store.CacheInvariant
import NetDedup.Transfer.Recv

/-!
# Fingerprints inside a request

What the fields of a request hold after a store, and what
`process_compute_fingerprints` leaves in a send request: the fingerprints of
the message one after the other, and the start offsets of its chunks.
-/

namespace NetDedup.Transfer

open Chunking Memory

section Fields

variable {m : Mem} {pos : Nat}

theorem loadU64_of_read {v : Nat} (hv : v < 2 ^ 64)
    (h : read m pos sizeofU64 = leBytes sizeofU64 v) :
    loadU64 m pos = v := by
  rw [loadU64, h, leNat_leBytes]
  exact Nat.mod_eq_of_lt hv

theorem read_storeU64 (v : Nat) : read (storeU64 m pos v) pos sizeofU64 = leBytes sizeofU64 v := by
  have h := read_write_self (m := m) pos (leBytes sizeofU64 v)
  rwa [length_leBytes] at h

theorem loadU64_storeU64 {v : Nat} (hv : v < 2 ^ 64) : loadU64 (storeU64 m pos v) pos = v :=
  loadU64_of_read hv (read_storeU64 v)

theorem loadU64_congr {m' : Mem} (h : ∀ a, pos ≤ a → a < pos + sizeofU64 → m a = m' a) :
    loadU64 m pos = loadU64 m' pos := by
  rw [loadU64, loadU64, read_congr h]

theorem storeU64_of_ne {v a : Nat} (h : a < pos ∨ pos + sizeofU64 ≤ a) :
    storeU64 m pos v a = m a := by
  rcases h with h | h
  · exact write_below _ h
  · exact write_above (by rw [length_leBytes]; exact h)

@[simp] theorem length_encodeFingerprint (fp : Fingerprint) :
    (encodeFingerprint fp).length = sizeofFingerprint := by
  rw [encodeFingerprint, List.length_append, length_leBytes, Vector.length_toList]
  rfl

theorem length_encodeFingerprints (fps : List Fingerprint) :
    (fps.flatMap encodeFingerprint).length = fps.length * sizeofFingerprint := by
  rw [length_flatMap_window encodeFingerprint length_encodeFingerprint, Nat.mul_comm]

/-- A stored fingerprint loads as itself. -/
theorem loadFingerprint_of_read {fp : Fingerprint} (hsize : fp.contentSize < 2 ^ 64)
    (h : read m pos sizeofFingerprint = encodeFingerprint fp) : loadFingerprint m pos = fp := by
  have hcontent : loadU64 m pos = fp.contentSize := by
    refine loadU64_of_read hsize ?_
    have htake := congrArg (List.take sizeofU64) h
    rw [take_read m (show sizeofU64 ≤ sizeofFingerprint by decide), encodeFingerprint,
      List.take_left' (length_leBytes _ _)] at htake
    exact htake
  have hdigest : Vector.ofFn (fun i : Fin fingerprintNumBytes => m (pos + sizeofU64 + i)) =
      fp.fingerprint := by
    refine Vector.ext fun i hi => ?_
    have hget := congrArg (fun bs => bs[sizeofU64 + i]?) h
    simp only [getElem?_read, encodeFingerprint] at hget
    rw [if_pos (show sizeofU64 + i < sizeofFingerprint by
      rw [sizeofFingerprint, sizeofU64]; omega),
      List.getElem?_append_right (by rw [length_leBytes]; omega), length_leBytes,
      Nat.add_sub_cancel_left, ← Nat.add_assoc] at hget
    rw [Vector.getElem_ofFn]
    have hlist : fp.fingerprint.toList[i]? = some fp.fingerprint[i] := by
      rw [Vector.getElem?_toList]
      simp [hi]
    exact Option.some_inj.mp (hget.trans hlist)
  rw [loadFingerprint, hcontent, hdigest]

end Fields

section Isend

variable (data : List UInt8)

/-- `netDedup_isend` chooses the path by the size of the message. -/
theorem isFingerprint_isendRequest :
    isFingerprint (isendRequest data).head =
      decide (fingerprintMsgSizeThreshold < data.length) := by
  have hflag (v : UInt8) : storeU64 (write (fun _ => 0) generalHeader.pos [v])
      (generalHeader.pos + 8) data.length generalHeader.pos = v := by
    rw [storeU64_of_ne (Or.inl (by simp [generalHeader]))]
    exact @write_inside _ _ 0 ([v]) Nat.zero_lt_one
  simp only [isFingerprint, isendRequest, hflag]
  split
  · next h => simp [h]
  · next h => simp [h]

theorem headerContentSize_isendRequest (h : data.length < 2 ^ 64) :
    headerContentSize (isendRequest data).head = data.length :=
  loadU64_storeU64 h

end Isend

/-- The array `packaged_fingerprints` starts with these fingerprints. -/
def Packed (head : Mem) (fps : List Fingerprint) : Prop :=
  read head packagedPos (fps.length * sizeofFingerprint) = fps.flatMap encodeFingerprint

/-- A fingerprint of the array is the one that was packed there. -/
theorem Packed.get {head : Mem} {fps : List Fingerprint} (h : Packed head fps)
    (hfit : fps.length ≤ maxFingerprintsPerReq) (hsize : ∀ fp ∈ fps, fp.contentSize < 2 ^ 64)
    {i : Nat} (hi : i < fps.length) : packagedFingerprint head i = some fps[i] := by
  have hle : i * sizeofFingerprint + sizeofFingerprint ≤ fps.length * sizeofFingerprint := by
    rw [← Nat.succ_mul]
    exact Nat.mul_le_mul_right _ hi
  have hread : read head (packagedPos + i * sizeofFingerprint) sizeofFingerprint =
      encodeFingerprint fps[i] := by
    have hwindow := flatMap_window encodeFingerprint length_encodeFingerprint fps hi
    rw [← show _ = fps.flatMap encodeFingerprint from h, Nat.mul_comm sizeofFingerprint i,
      drop_read _ (by omega), take_read _ (by omega)] at hwindow
    exact hwindow
  rw [packagedFingerprint, if_pos (Nat.lt_of_lt_of_le hi hfit),
    loadFingerprint_of_read (hsize _ (List.getElem_mem hi)) hread]

section Pack

variable {head : Mem}

/-- The copy loop writes the fingerprints one behind the other. -/
theorem packFingerprints_fits {fps : List Fingerprint} :
    ∀ {head : Mem} {i : Nat}, i + fps.length ≤ maxFingerprintsPerReq →
      packFingerprints head i fps = some (write head (packagedPos + i * sizeofFingerprint)
        (fps.flatMap encodeFingerprint)) := by
  induction fps with
  | nil =>
      intro head i _
      rw [packFingerprints, List.flatMap_nil, write_nil]
  | cons fp fps ih =>
      intro head i hfit
      rw [List.length_cons] at hfit
      have hnext : packagedPos + (i + 1) * sizeofFingerprint =
          packagedPos + i * sizeofFingerprint + (encodeFingerprint fp).length := by
        rw [length_encodeFingerprint, Nat.succ_mul, Nat.add_assoc]
      rw [packFingerprints, setPackagedFingerprint, if_pos (by omega), Option.bind_eq_bind,
        Option.bind_some, ih (by omega), hnext, write_append, List.flatMap_cons]

/-- Fingerprints that do not fit the array are written outside it. -/
theorem packFingerprints_overflow {fps : List Fingerprint} :
    ∀ {head : Mem} {i : Nat}, i ≤ maxFingerprintsPerReq →
      maxFingerprintsPerReq < i + fps.length → packFingerprints head i fps = none := by
  induction fps with
  | nil => exact fun hi h => absurd h (by rw [List.length_nil]; omega)
  | cons fp fps ih =>
      intro head i hi h
      rw [List.length_cons] at h
      rw [packFingerprints, setPackagedFingerprint]
      split
      · exact ih (by omega) (by omega)
      · rfl

end Pack

/-- The loop of `process_compute_fingerprints` stores prefix sums. -/
theorem computeOffsets_fits {head : Mem} {fps : List Fingerprint} :
    ∀ {i cur : Nat} (offsets : Nat → Nat), i + fps.length ≤ maxFingerprintsPerReq →
      (∀ (j : Nat) (hj : j < fps.length), packagedFingerprint head (i + j) = some fps[j]) →
      cur + (fps.map (·.contentSize)).sum < 2 ^ 64 →
      ∃ offsets', computeOffsets head fps.length i cur offsets = some offsets' ∧
        (∀ j < fps.length, offsets' (i + j) = cur + boundary fps j) ∧
        ∀ a < i, offsets' a = offsets a := by
  induction fps with
  | nil =>
      intro i cur offsets _ _ _
      refine ⟨offsets, rfl, fun j hj => absurd hj (Nat.not_lt_zero j), fun a _ => rfl⟩
  | cons fp fps ih =>
      intro i cur offsets hfit hget hsum
      rw [List.length_cons] at hfit
      rw [List.map_cons, List.sum_cons] at hsum
      have hfp : packagedFingerprint head i = some fp := hget 0 (Nat.succ_pos _)
      obtain ⟨offsets', hrun, hnew, hold⟩ := @ih (i + 1) (cur + fp.contentSize)
        (Function.update offsets i cur) (by omega)
        (fun j hj => by
          have h := hget (j + 1) (Nat.succ_lt_succ hj)
          rwa [show i + (j + 1) = i + 1 + j by omega] at h)
        (by omega)
      refine ⟨offsets', ?_, fun j hj => ?_, fun a ha => ?_⟩
      · rw [List.length_cons, computeOffsets, setSlot, if_pos (show i < maxFingerprintsPerReq by
          omega), hfp]
        simp only [Option.bind_eq_bind, Option.bind_some]
        rw [Nat.mod_eq_of_lt (show cur + fp.contentSize < 2 ^ 64 by omega)]
        exact hrun
      · cases j with
        | zero =>
            rw [Nat.add_zero, hold i (Nat.lt_succ_self i), Function.update_self, boundary_zero,
              Nat.add_zero]
        | succ j =>
            have h := hnew j (Nat.lt_of_succ_lt_succ hj)
            rw [show i + (j + 1) = i + 1 + j by omega, h, boundary_cons, Nat.add_assoc]
      · rw [hold a (by omega), Function.update_of_ne (by omega)]

/-- The part of a request from its header on, once the fingerprints are packed and counted. -/
def fingerprintedHead (head : Mem) (fps : List Fingerprint) : Mem :=
  storeU64 (write head packagedPos (fps.flatMap encodeFingerprint)) fingerprintHeader.pos fps.length

section FingerprintedHead

variable (head : Mem) (fps : List Fingerprint)

theorem fingerprintedHead_packed : Packed (fingerprintedHead head fps) fps := by
  have h := read_write_self (m := head) packagedPos (fps.flatMap encodeFingerprint)
  rw [length_encodeFingerprints] at h
  rw [Packed, ← h]
  exact read_congr fun a ha _ => storeU64_of_ne (Or.inr (Nat.le_trans (by decide) ha))

theorem numFingerprints_fingerprintedHead (h : fps.length < 2 ^ 64) :
    numFingerprints (fingerprintedHead head fps) = fps.length :=
  loadU64_storeU64 h

/-- Nothing before the fingerprint header changes, nor its offset field. -/
theorem fingerprintedHead_of_ne {a : Nat}
    (h : a < fingerprintHeader.pos ∨ fingerprintHeader.pos + sizeofU64 ≤ a ∧ a < packagedPos) :
    fingerprintedHead head fps a = head a := by
  rcases h with h | ⟨h, h'⟩
  · rw [fingerprintedHead, storeU64_of_ne (Or.inl h)]
    exact write_below _ (Nat.lt_trans h (by decide))
  · rw [fingerprintedHead, storeU64_of_ne (Or.inr h)]
    exact write_below _ h'

end FingerprintedHead

section Compute

variable {sha256 : List UInt8 → Digest} {s : FingerprintingSettings} {req : DedupSendReq}
  {fps : List Fingerprint}

theorem dedupFingerprinting_eq (hs : s.Ordered)
    (hrun : doFingerprinting sha256 s req.data = some fps) :
    dedupFingerprinting sha256 s req.data req.head =
      (packFingerprints req.head 0 fps).map fun head => (fps.length, head) := by
  have hmin : s.minSize ≠ 0 := by
    have := hs.window_lt_min
    omega
  have hslots : ¬ req.data.length / s.minSize + 1 < fps.length := by
    have := doFingerprinting_length_le_slots hs hrun
    omega
  rw [dedupFingerprinting, if_neg hmin, hrun]
  simp only [Option.bind_eq_bind, Option.bind_some, if_neg hslots]
  cases packFingerprints req.head 0 fps <;> rfl

/-- `process_compute_fingerprints` on a message whose chunks fit the arrays. -/
theorem processComputeFingerprints_fits (hs : s.Ordered)
    (hrun : doFingerprinting sha256 s req.data = some fps) (hlen : req.data.length < 2 ^ 64)
    (hfit : fps.length ≤ maxFingerprintsPerReq) :
    ∃ offsets, processComputeFingerprints sha256 s req = some (1, { req with
        head := fingerprintedHead req.head fps
        fingerprintOffsets := offsets
        sendFingerprintOffset := 0
        packagedFingerprintsSizeBytes := fps.length * sizeofFingerprint
        missingFingerprintHeader := storeU64 req.missingFingerprintHeader 0 0
        missingFingerprintHeaderOffset := 0
        recvMissingFingerprintIndsOffset := 0
        curReplyContentFingerprintInd := 0
        curReplyContentFingerprintOffset := 0 }) ∧
      ∀ i < fps.length, offsets i = boundary fps i := by
  obtain ⟨fps', hrun', hpart⟩ := @doFingerprinting_isPartition sha256 _ hs req.data
  obtain rfl : fps = fps' := Option.some_inj.mp (hrun.symm.trans hrun')
  have hsize : ∀ fp ∈ fps, fp.contentSize < 2 ^ 64 := fun fp hfp =>
    Nat.lt_of_le_of_lt (hpart.size_le hfp) hlen
  have hpack := @packFingerprints_fits _ req.head _ (show 0 + fps.length ≤ _ by omega)
  rw [Nat.zero_mul, Nat.add_zero] at hpack
  obtain ⟨offsets, hoffsets, hnew, -⟩ := @computeOffsets_fits _ fps 0 0 req.fingerprintOffsets
      (by omega) (fun j hj => by
      rw [Nat.zero_add]
      exact (fingerprintedHead_packed req.head fps).get hfit hsize hj)
          (by rw [hpart.sum_sizes]; omega)
  have hbytes : fps.length * sizeofFingerprint % 2 ^ 64 = fps.length * sizeofFingerprint := by
    refine Nat.mod_eq_of_lt (Nat.lt_of_le_of_lt (Nat.mul_le_mul_right _ hfit) (by decide))
  refine ⟨offsets, ?_, fun i hi => ?_⟩
  · unfold processComputeFingerprints
    rw [dedupFingerprinting_eq hs hrun, hpack]
    simp only [Option.map_some, Option.bind_eq_bind, Option.bind_some]
    rw [← fingerprintedHead, hoffsets, Option.bind_some, hbytes]
  · have h := hnew i hi
    rwa [Nat.zero_add, Nat.zero_add] at h

/-- On any other message it writes outside `packaged_fingerprints`. -/
theorem processComputeFingerprints_overflow (hs : s.Ordered)
    (hrun : doFingerprinting sha256 s req.data = some fps)
    (hover : maxFingerprintsPerReq < fps.length) :
    processComputeFingerprints sha256 s req = none := by
  unfold processComputeFingerprints
  rw [dedupFingerprinting_eq hs hrun, packFingerprints_overflow (Nat.zero_le _) (by omega)]
  rfl

end Compute

/-- A request whose fingerprints have been computed and packed. -/
structure Fingerprinted (sha256 : List UInt8 → Digest) (fps : List Fingerprint)
    (req : DedupSendReq) : Prop where
  run : doFingerprinting sha256 shippedSettings req.data = some fps
  fit : fps.length ≤ maxFingerprintsPerReq
  packed : Packed req.head fps
  num : numFingerprints req.head = fps.length
  offsets : ∀ i < fps.length, req.fingerprintOffsets i = boundary fps i
  bytes : req.packagedFingerprintsSizeBytes = fps.length * sizeofFingerprint

section Fingerprinted

variable {sha256 : List UInt8 → Digest} {fps : List Fingerprint} {data : List UInt8}

theorem partition_of_run (h : doFingerprinting sha256 shippedSettings data = some fps) :
    IsPartition sha256 data fps := by
  obtain ⟨fps', hrun, hpart⟩ := @doFingerprinting_isPartition sha256 _ shipped_ordered data
  obtain rfl : fps = fps' := Option.some_inj.mp (h.symm.trans hrun)
  exact hpart

/-- Chunk `i` ends inside the message. -/
theorem chunk_end_le (h : doFingerprinting sha256 shippedSettings data = some fps) {i : Nat}
    (hi : i < fps.length) : boundary fps i + fps[i].contentSize ≤ data.length := by
  rw [← (partition_of_run h).sum_sizes]
  exact boundary_add_le hi

/-- The chunks of a message are contents that the cache takes. -/
theorem chunk_storable (h : doFingerprinting sha256 shippedSettings data = some fps)
    (hne : data ≠ []) {fp : Fingerprint} (hfp : fp ∈ fps) : Store.Storable fp.contentSize := by
  have hpages := shipped_pages_le h fp hfp
  rw [fingerprintContentMaxPages_eq, myCeil, fingerprintCachePageSize] at hpages
  refine ⟨doFingerprinting_pos shipped_ordered hne h fp hfp, ?_⟩
  rw [Store.maxContentSize, fingerprintContentMaxPages_eq, fingerprintCachePageSize]
  omega

/-- A chunk can be inserted at the place where it starts. -/
theorem chunk_insertable (h : doFingerprinting sha256 shippedSettings data = some fps)
    (hne : data ≠ []) {i : Nat} (hi : i < fps.length) :
    Store.FingerprintCache.Insertable fps[i] (data.drop (boundary fps i)) where
  size := chunk_storable h hne (List.getElem_mem hi)
  readable := by
    have := chunk_end_le h hi
    rw [List.length_drop]
    omega

/-- Content `i` is the slice of the message that the digest was computed of. -/
theorem chunk_digest (h : doFingerprinting sha256 shippedSettings data = some fps) {i : Nat}
    (hi : i < fps.length) : fps[i].fingerprint =
      sha256 ((data.drop (boundary fps i)).take fps[i].contentSize) := by
  have hdigest := (partition_of_run h).digest i hi
  rwa [← List.map_take, ← boundary] at hdigest

namespace Fingerprinted

variable {req : DedupSendReq}

theorem get (h : Fingerprinted sha256 fps req) (hlt : req.data.length < 2 ^ 64) {i : Nat}
    (hi : i < fps.length) : packagedFingerprint req.head i = some fps[i] :=
  h.packed.get h.fit (fun _ hfp =>
    Nat.lt_of_le_of_lt ((partition_of_run h.run).size_le hfp) hlt) hi

theorem offset (h : Fingerprinted sha256 fps req) {i : Nat} (hi : i < fps.length) :
    getSlot req.fingerprintOffsets i = some (boundary fps i) := by
  rw [getSlot, if_pos (Nat.lt_of_lt_of_le hi h.fit), h.offsets i hi]

theorem bytes_le (h : Fingerprinted sha256 fps req) :
    req.packagedFingerprintsSizeBytes ≤ maxFingerprintsPerReq * sizeofFingerprint := by
  rw [h.bytes]
  exact Nat.mul_le_mul_right _ h.fit

end Fingerprinted

end Fingerprinted

end NetDedup.Transfer

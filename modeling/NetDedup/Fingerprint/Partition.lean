import NetDedup.Fingerprint.Cuts
import Mathlib.Algebra.Order.BigOperators.Group.List

/-!
# The chunks of a buffer partition it

Sizes, bounds and digests of the fingerprints `do_fingerprinting` emits. The
bounds come from the cuts; a chunk that is not the last is exactly as long as
the candidate size it was cut at.
-/

namespace NetDedup.Chunking

variable {sha256 : List UInt8 → Digest} {s : FingerprintingSettings} {data : List UInt8}

theorem firstCut_bounds {d : List UInt8} (hd : s.minSize ≤ d.length) (r : Roll) :
    s.minSize ≤ (firstCut s d r).1 ∧ (firstCut s d r).1 ≤ d.length := by
  have h := @scan_bounds s (d.drop s.minSize) s.minSize r
  rw [List.length_drop] at h
  unfold firstCut
  omega

theorem firstCut_le_max (hs : s.Ordered) (d : List UInt8) (r : Roll) :
    (firstCut s d r).1 ≤ s.maxSize :=
  scan_le_max hs.min_le_max

/-- What is left behind a cut is empty or holds a minimal chunk. -/
theorem rest_empty_or_min {n c : Nat} (h : c ≤ n) :
    n - cutSize s n c = 0 ∨ s.minSize ≤ n - cutSize s n c := by
  rcases cutSize_eq_or (s := s) h with ⟨hk, -, hmin⟩ | ⟨hk, -⟩ | ⟨hk, -⟩ <;> omega

theorem length_empty_or_min {d : List UInt8} {k : Nat}
    (h : d.length - k = 0 ∨ s.minSize ≤ d.length - k) :
    d.drop k = [] ∨ s.minSize ≤ (d.drop k).length := by
  rcases h with h | h
  · exact Or.inl (List.drop_eq_nil_of_le (by omega))
  · exact Or.inr (by rw [List.length_drop]; omega)

/-- The sizes add up to the length of the buffer. -/
theorem Cuts.sum_eq {d : List UInt8} {r : Roll} {ks : List Nat} (h : Cuts s d r ks)
    (hd : d = [] ∨ s.minSize ≤ d.length) : ks.sum = d.length := by
  induction h with
  | done => rfl
  | @chunk d r ks hne tail ih =>
      have hmin := hd.resolve_left hne
      have hb := firstCut_bounds hmin r
      have hk := cutSize_le (s := s) hb.2
      rw [List.sum_cons, ih (length_empty_or_min (rest_empty_or_min hb.2)), List.length_drop]
      omega

/-- Every chunk holds a minimal chunk. -/
theorem Cuts.min_le {d : List UInt8} {r : Roll} {ks : List Nat} (h : Cuts s d r ks)
    (hd : d = [] ∨ s.minSize ≤ d.length) : ∀ k ∈ ks, s.minSize ≤ k := by
  induction h with
  | done => simp
  | @chunk d r ks hne tail ih =>
      have hb := firstCut_bounds (hd.resolve_left hne) r
      have hck := le_cutSize (s := s) hb.2
      rintro k (_ | ⟨_, hk⟩)
      · omega
      · exact ih (length_empty_or_min (rest_empty_or_min hb.2)) k hk

theorem Cuts.nil_of_empty {d : List UInt8} {r : Roll} {ks : List Nat} (h : Cuts s d r ks)
    (hd : d = []) : ks = [] := by
  cases h with
  | done => rfl
  | chunk hne _ => exact absurd hd hne

/-- The cuts of a non-empty buffer are its first cut and those of the rest. -/
theorem Cuts.uncons {d : List UInt8} {r : Roll} {ks : List Nat} (h : Cuts s d r ks)
    (hd : d ≠ []) : ∃ ks', ks = cutSize s d.length (firstCut s d r).1 :: ks' ∧
      Cuts s (d.drop (cutSize s d.length (firstCut s d r).1))
        (Roll.start s (d.drop (cutSize s d.length (firstCut s d r).1)) (firstCut s d r).2.slot)
        ks' := by
  cases h with
  | done => exact absurd rfl hd
  | chunk _ tail => exact ⟨_, rfl, tail⟩

/-- A chunk with another chunk after it is at most maximal. -/
theorem Cuts.le_max {d : List UInt8} {r : Roll} {ks : List Nat} (hs : s.Ordered)
    (h : Cuts s d r ks) (hd : d = [] ∨ s.minSize ≤ d.length) :
    ∀ k ∈ ks.dropLast, k ≤ s.maxSize := by
  induction h with
  | done => simp
  | @chunk d r ks hne tail ih =>
      have hb := firstCut_bounds (hd.resolve_left hne) r
      have hmax := firstCut_le_max hs d r
      intro k hk
      cases ks with
      | nil => simp at hk
      | cons k' ks' =>
          rw [List.dropLast_cons_of_ne_nil (by simp)] at hk
          rcases List.mem_cons.mp hk with rfl | hk
          · rcases Nat.lt_or_ge (cutSize s d.length (firstCut s d r).1) d.length with hlt | hge
            · rw [(cutSize_lt hlt).1]
              exact hmax
            · have := tail.nil_of_empty (List.drop_eq_nil_of_le hge)
              simp at this
          · exact ih (length_empty_or_min (rest_empty_or_min hb.2)) k hk

/-- Every chunk, the merged last one included, is shorter than a maximal and
a minimal chunk together. -/
theorem Cuts.lt_max_add_min {d : List UInt8} {r : Roll} {ks : List Nat} (hs : s.Ordered)
    (h : Cuts s d r ks) (hd : d = [] ∨ s.minSize ≤ d.length) :
    ∀ k ∈ ks, k < s.maxSize + s.minSize := by
  have hpos : 0 < s.minSize := by
    have := hs.window_lt_min
    omega
  induction h with
  | done => simp
  | @chunk d r ks hne tail ih =>
      have hb := firstCut_bounds (hd.resolve_left hne) r
      have hmax := firstCut_le_max hs d r
      rintro k (_ | ⟨_, hk⟩)
      · rcases cutSize_eq_or (s := s) hb.2 with ⟨hk, -⟩ | ⟨hk, hlt⟩ | ⟨hk, heq⟩ <;> omega
      · exact ih (length_empty_or_min (rest_empty_or_min hb.2)) k hk

/-- Slice `i` starts where the sizes before it end. -/
theorem slices_getElem? (d : List UInt8) (ks : List Nat) (i : Nat) (hi : i < ks.length) :
    (slices d ks)[i]? = some ((d.drop (ks.take i).sum).take ks[i]) := by
  induction ks generalizing d i with
  | nil => simp at hi
  | cons k ks ih =>
      cases i with
      | zero => simp [slices]
      | succ i =>
          have h := ih (d.drop k) i (by simpa using hi)
          simpa [slices, List.drop_drop] using h

theorem fingerprintsOf_getElem? (d : List UInt8) (ks : List Nat) (i : Nat) (hi : i < ks.length) :
    (fingerprintsOf sha256 d ks)[i]? =
      some ⟨ks[i], sha256 ((d.drop (ks.take i).sum).take ks[i])⟩ := by
  have hzip : (ks.zip (slices d ks))[i]? =
      some (ks[i], (d.drop (ks.take i).sum).take ks[i]) :=
    List.getElem?_zip_eq_some.mpr ⟨List.getElem?_eq_getElem hi, slices_getElem? _ _ _ hi⟩
  rw [fingerprintsOf, List.getElem?_map, hzip, Option.map_some]

/-- The length of the first `k` chunks. -/
def boundary (fps : List Fingerprint) (k : Nat) : Nat := ((fps.take k).map (·.contentSize)).sum

@[simp] theorem boundary_zero (fps : List Fingerprint) : boundary fps 0 = 0 := rfl

theorem boundary_cons (fp : Fingerprint) (fps : List Fingerprint) (k : Nat) :
    boundary (fp :: fps) (k + 1) = fp.contentSize + boundary fps k := by
  rw [boundary, boundary, List.take_succ_cons, List.map_cons, List.sum_cons]

theorem boundary_succ {fps : List Fingerprint} {k : Nat} (hk : k < fps.length) :
    boundary fps (k + 1) = boundary fps k + fps[k].contentSize := by
  rw [boundary, List.take_succ_eq_append_getElem hk, List.map_append, List.sum_append, boundary]
  simp

theorem boundary_length (fps : List Fingerprint) :
    boundary fps fps.length = (fps.map (·.contentSize)).sum := by
  rw [boundary, List.take_length]

theorem boundary_mono (fps : List Fingerprint) {j k : Nat} (h : j ≤ k) :
    boundary fps j ≤ boundary fps k := by
  obtain ⟨r, rfl⟩ := Nat.exists_eq_add_of_le h
  rw [boundary, boundary, List.take_add, List.map_append, List.sum_append]
  exact Nat.le_add_right _ _

/-- A chunk ends inside the buffer. -/
theorem boundary_add_le {fps : List Fingerprint} {k : Nat} (hk : k < fps.length) :
    boundary fps k + fps[k].contentSize ≤ (fps.map (·.contentSize)).sum := by
  rw [← boundary_succ hk, ← boundary_length]
  exact boundary_mono fps hk

theorem boundary_fingerprintsOf (d : List UInt8) (ks : List Nat) (k : Nat) :
    boundary (fingerprintsOf sha256 d ks) k = (ks.take k).sum := by
  rw [boundary, List.map_take, fingerprintsOf_sizes]

/-- `fingerprints` describes the consecutive slices of a buffer: the sizes
add up and each digest is that of its own slice. -/
structure IsPartition (sha256 : List UInt8 → Digest) (data : List UInt8)
    (fingerprints : List Fingerprint) : Prop where
  sum_sizes : (fingerprints.map (·.contentSize)).sum = data.length
  digest : ∀ (i : Nat) (hi : i < fingerprints.length), fingerprints[i].fingerprint =
    sha256 ((data.drop ((fingerprints.map (·.contentSize)).take i).sum).take
      fingerprints[i].contentSize)

theorem IsPartition.size_le {fps : List Fingerprint} (h : IsPartition sha256 data fps)
    {fp : Fingerprint} (hfp : fp ∈ fps) : fp.contentSize ≤ data.length := by
  rw [← h.sum_sizes]
  exact List.le_sum_of_mem (List.mem_map_of_mem hfp)

theorem isPartition_fingerprintsOf {ks : List Nat} (h : ks.sum = data.length) :
    IsPartition sha256 data (fingerprintsOf sha256 data ks) where
  sum_sizes := by rw [fingerprintsOf_sizes, h]
  digest := by
    intro i hi
    have hget := @fingerprintsOf_getElem? sha256 data ks i
      (by rwa [fingerprintsOf_length] at hi)
    rw [List.getElem?_eq_getElem hi, Option.some_inj] at hget
    rw [fingerprintsOf_sizes, hget]

theorem isPartition_single (data : List UInt8) :
    IsPartition sha256 data [⟨data.length, sha256 data⟩] where
  sum_sizes := by simp
  digest := by
    intro i hi
    have hi : i = 0 := by simpa using hi
    subst i
    simp

/-- The fingerprints `do_fingerprinting` returns on a buffer, as a function
of the buffer: it returns on each one. -/
theorem doFingerprinting_isPartition (hs : s.Ordered) (data : List UInt8) :
    ∃ fps, doFingerprinting sha256 s data = some fps ∧ IsPartition sha256 data fps := by
  rcases Nat.lt_or_ge s.minSize data.length with h | h
  · obtain ⟨ks, hcuts, hrun⟩ := @doFingerprinting_eq sha256 _ _ hs h
    exact ⟨_, hrun, isPartition_fingerprintsOf (hcuts.sum_eq (Or.inr (Nat.le_of_lt h)))⟩
  · exact ⟨_, doFingerprinting_short h, isPartition_single data⟩

/-- The bounds on the sizes of a buffer longer than a minimal chunk. -/
theorem doFingerprinting_bounds (hs : s.Ordered) (h : s.minSize < data.length)
    {fps : List Fingerprint} (hrun : doFingerprinting sha256 s data = some fps) :
    (∀ fp ∈ fps, s.minSize ≤ fp.contentSize) ∧
      (∀ fp ∈ fps.dropLast, fp.contentSize ≤ s.maxSize) ∧
      (∀ fp ∈ fps, fp.contentSize < s.maxSize + s.minSize) := by
  obtain ⟨ks, hcuts, hrun'⟩ := @doFingerprinting_eq sha256 _ _ hs h
  have hd : data = [] ∨ s.minSize ≤ data.length := Or.inr (Nat.le_of_lt h)
  rw [hrun, Option.some_inj] at hrun'
  have hsizes : fps.map (·.contentSize) = ks := by rw [hrun', fingerprintsOf_sizes]
  refine ⟨fun fp hfp => hcuts.min_le hd _ ?_, fun fp hfp => hcuts.le_max hs hd _ ?_,
    fun fp hfp => hcuts.lt_max_add_min hs hd _ ?_⟩
  · exact hsizes ▸ List.mem_map_of_mem hfp
  · rw [← hsizes, ← List.map_dropLast]
    exact List.mem_map_of_mem hfp
  · exact hsizes ▸ List.mem_map_of_mem hfp

/-- Chunks of at least `m` bytes are at most `n / m` many. -/
theorem length_le_div {m : Nat} (hm : 0 < m) {ks : List Nat} (h : ∀ k ∈ ks, m ≤ k) :
    ks.length ≤ ks.sum / m := by
  rw [Nat.le_div_iff_mul_le hm]
  induction ks with
  | nil => simp
  | cons k ks ih =>
      have hk := h k (by simp)
      have := ih fun x hx => h x (by simp [hx])
      rw [List.length_cons, List.sum_cons, Nat.succ_mul]
      omega

/-- When as many of them as that make up `n`, each has `m` bytes. -/
theorem eq_of_sum_le {m : Nat} (hm : 0 < m) {ks : List Nat} (h : ∀ k ∈ ks, m ≤ k)
    (hsum : ks.sum ≤ ks.length * m) {i : Nat} (hi : i < ks.length) : ks[i] = m := by
  refine Nat.le_antisymm ?_ (h _ (List.getElem_mem hi))
  have hbefore := (Nat.le_div_iff_mul_le hm).mp
    (length_le_div hm fun k hk => h k (List.mem_of_mem_take (i := i) hk))
  have hafter := (Nat.le_div_iff_mul_le hm).mp
    (length_le_div hm fun k hk => h k (List.mem_of_mem_drop (i := i + 1) hk))
  have hsplit : ks.sum = (ks.take i).sum + (ks[i] + (ks.drop (i + 1)).sum) := by
    rw [← List.sum_cons, ← List.drop_eq_getElem_cons hi, List.sum_take_add_sum_drop]
  have hlength : ks.length * m = i * m + (m + (ks.length - (i + 1)) * m) := by
    rw [← Nat.add_assoc, ← Nat.succ_mul, ← Nat.add_mul]
    congr 1
    omega
  rw [List.length_take_of_le (Nat.le_of_lt hi)] at hbefore
  rw [List.length_drop] at hafter
  omega

theorem doFingerprinting_length_le (hs : s.Ordered) (h : s.minSize < data.length)
    {fps : List Fingerprint} (hrun : doFingerprinting sha256 s data = some fps) :
    fps.length ≤ data.length / s.minSize := by
  obtain ⟨fps', hrun', hpart⟩ := @doFingerprinting_isPartition sha256 _ hs data
  obtain rfl : fps = fps' := Option.some_inj.mp (hrun.symm.trans hrun')
  have hmin := (doFingerprinting_bounds hs h hrun).1
  have hpos : 0 < s.minSize := by
    have := hs.window_lt_min
    omega
  have := @length_le_div _ hpos (fps.map (·.contentSize)) (by
    intro k hk
    obtain ⟨fp, hfp, rfl⟩ := List.mem_map.mp hk
    exact hmin fp hfp)
  rwa [List.length_map, hpart.sum_sizes] at this

/-- The slots that `dedup_fingerprinting` allocates are enough for any buffer. -/
theorem doFingerprinting_length_le_slots (hs : s.Ordered) {fps : List Fingerprint}
    (hrun : doFingerprinting sha256 s data = some fps) :
    fps.length ≤ data.length / s.minSize + 1 := by
  rcases Nat.lt_or_ge s.minSize data.length with h | h
  · exact Nat.le_succ_of_le (doFingerprinting_length_le hs h hrun)
  · rw [doFingerprinting_short h, Option.some_inj] at hrun
    rw [← hrun, List.length_singleton]
    exact Nat.le_add_left _ _

section Shipped

@[simp] theorem shipped_window : shippedSettings.window = 64 := rfl
@[simp] theorem shipped_minSize : shippedSettings.minSize = 2048 := rfl
@[simp] theorem shipped_maxSize : shippedSettings.maxSize = 65536 := rfl

theorem shipped_ordered : shippedSettings.Ordered where
  window_pos := by simp
  window_lt_min := by simp
  min_le_max := by simp

theorem shipped_lowerBits_le : shippedSettings.lowerBits ≤ shippedSettings.rabinMBits := by
  decide

theorem shipped_rabinMBits_lt : shippedSettings.rabinMBits < 64 := by
  decide

/-- A chunk that the shipped settings cut, the merged last one included, has
at least one byte unless the buffer is empty, and fits the pages of an entry. -/
theorem shipped_pages_le {fps : List Fingerprint}
    (hrun : doFingerprinting sha256 shippedSettings data = some fps) :
    ∀ fp ∈ fps, myCeil fp.contentSize fingerprintCachePageSize ≤ fingerprintContentMaxPages := by
  intro fp hfp
  have hlt : fp.contentSize < 65536 + 2048 := by
    rcases Nat.lt_or_ge shippedSettings.minSize data.length with h | h
    · exact (doFingerprinting_bounds shipped_ordered h hrun).2.2 fp hfp
    · rw [doFingerprinting_short h, Option.some_inj] at hrun
      subst hrun
      rw [List.mem_singleton] at hfp
      subst hfp
      rw [shipped_minSize] at h
      simp only
      omega
  rw [fingerprintContentMaxPages_eq]
  unfold myCeil fingerprintCachePageSize
  omega

theorem doFingerprinting_pos (hs : s.Ordered) (hdata : data ≠ []) {fps : List Fingerprint}
    (hrun : doFingerprinting sha256 s data = some fps) : ∀ fp ∈ fps, 1 ≤ fp.contentSize := by
  intro fp hfp
  rcases Nat.lt_or_ge s.minSize data.length with h | h
  · have hb := (doFingerprinting_bounds hs h hrun).1 fp hfp
    have := hs.window_lt_min
    omega
  · rw [doFingerprinting_short h, Option.some_inj] at hrun
    subst hrun
    rw [List.mem_singleton] at hfp
    subst hfp
    exact List.length_pos_iff.mpr hdata

end Shipped

end NetDedup.Chunking

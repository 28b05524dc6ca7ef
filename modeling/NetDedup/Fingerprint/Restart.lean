import NetDedup.Fingerprint.Prefix
import NetDedup.Fingerprint.Agreement
import Mathlib.Data.List.GetD

/-!
# Restarting the chunking at a cut

At a cut the hash, the window and the candidate size start afresh, but the
ring index `window_slot` keeps its value. The chunks after a cut are those of
the remaining bytes alone exactly when the hashes that start with the kept
index and with zero match alike in those bytes. The chunks before it stay
when other bytes follow.
-/

namespace NetDedup.Chunking

variable {sha256 : List UInt8 → Digest} {s : FingerprintingSettings} {data : List UInt8}

namespace Roll

/-- Equal rings and hashes that agree on the bits of the Rabin mask. -/
structure Same (s : FingerprintingSettings) (r r' : Roll) : Prop where
  rabin : Word.Congr s.rabinMBits.toNat r.rabin r'.rabin
  window : r.window = r'.window
  slot : r.slot = r'.slot

/-- Rolling masks the hash, which removes the only difference. -/
theorem Same.next_eq (hm : s.rabinMBits < 64) {r r' : Roll} (h : Same s r r') (b : UInt8) :
    r.next s b = r'.next s b := by
  have hm' : s.rabinMBits.toNat ≤ 64 := by
    have : s.rabinMBits.toNat < 64 := by simpa [UInt8.lt_iff_toNat_lt] using hm
    omega
  have hrabin := ((h.rabin.sub_right hm' (s.rabinTable (r'.window.getD r'.slot 0))).mul hm'
    (Word.Congr.refl _ s.rabinP)).add hm' (Word.Congr.refl _ b.toUInt64)
  unfold Roll.next FingerprintingSettings.rabinMask
  rw [h.window, h.slot, (Word.and_lowMask_eq_iff hm).mpr hrabin]

theorem Same.hit_eq (hl : s.lowerBits ≤ s.rabinMBits) (hm : s.rabinMBits < 64) {r r' : Roll}
    (h : Same s r r') : r.hit s = r'.hit s := by
  have hle : s.lowerBits.toNat ≤ s.rabinMBits.toNat := UInt8.le_iff_toNat_le.mp hl
  have hlt : s.lowerBits < 64 := by
    simp only [UInt8.lt_iff_toNat_lt] at hm ⊢
    omega
  unfold Roll.hit FingerprintingSettings.magicMask
  rw [(Word.and_lowMask_eq_iff hlt).mpr (h.rabin.mono hle)]

theorem first_same (hm : s.rabinMBits < 64) (d : List UInt8) :
    Same s (first s d) (start s d 0) where
  rabin := Word.Congr.and_lowMask hm _
  window := rfl
  slot := rfl

end Roll

theorem scan_same (hl : s.lowerBits ≤ s.rabinMBits) (hm : s.rabinMBits < 64)
    (rest : List UInt8) (c : Nat) {r r' : Roll} (h : r.Same s r') :
    (scan s rest c r).1 = (scan s rest c r').1 ∧
      (scan s rest c r).2.slot = (scan s rest c r').2.slot := by
  cases rest with
  | nil => exact ⟨rfl, h.slot⟩
  | cons b rest =>
      simp only [scan, h.hit_eq hl hm, h.next_eq hm b]
      split
      · exact ⟨rfl, h.slot⟩
      · exact ⟨rfl, rfl⟩

theorem Cuts.of_same (hl : s.lowerBits ≤ s.rabinMBits) (hm : s.rabinMBits < 64)
    {d : List UInt8} {r r' : Roll} (hr : r.Same s r') {ks : List Nat} (h : Cuts s d r ks) :
    Cuts s d r' ks := by
  cases h with
  | done => exact Cuts.done
  | chunk hd tail =>
      obtain ⟨hc, hslot⟩ := scan_same hl hm (d.drop s.minSize) s.minSize hr
      simp only [firstCut, hc, hslot] at tail ⊢
      exact Cuts.chunk hd tail

/-- The hash a chunk starts with determines all cuts from it on. -/
theorem Cuts.unique {d : List UInt8} {r : Roll} {ks ks' : List Nat} (h : Cuts s d r ks)
    (h' : Cuts s d r ks') : ks = ks' := by
  induction h generalizing ks' with
  | done => exact (h'.nil_of_empty rfl).symm
  | chunk hd tail ih =>
      cases h' with
      | done => exact absurd rfl hd
      | chunk _ tail' => rw [ih tail']

/-- After `k` chunks, with bytes left, the hash has restarted on the rest and
the ring index has moved once for each byte past the minimal sizes. -/
theorem Cuts.drop {ks : List Nat} (hs : s.Ordered) (k : Nat) :
    ∀ {d : List UInt8} {r : Roll}, Cuts s d r ks → s.minSize ≤ d.length → r.slot < s.window →
      0 < k → (ks.take k).sum < d.length →
      k * s.minSize ≤ (ks.take k).sum ∧ s.minSize ≤ (d.drop (ks.take k).sum).length ∧
      Cuts s (d.drop (ks.take k).sum) (Roll.start s (d.drop (ks.take k).sum)
        ((r.slot + ((ks.take k).sum - k * s.minSize)) % s.window)) (ks.drop k) := by
  induction k generalizing ks with
  | zero => intro d r _ _ _ hk _; omega
  | succ k ih =>
      intro d r h hmin hslot _ hsum
      cases h with
      | done => simp at hmin; have := hs.window_lt_min; omega
      | @chunk _ _ ks hd tail =>
          have hb := firstCut_bounds hmin r
          have hlt : cutSize s d.length (firstCut s d r).1 < d.length := by
            rw [List.take_succ_cons, List.sum_cons] at hsum
            omega
          obtain ⟨hcut, hleft⟩ := cutSize_lt hlt
          have hslot' : (firstCut s d r).2.slot =
              (r.slot + ((firstCut s d r).1 - s.minSize)) % s.window :=
            scan_slot hs.window_pos hslot
          have hmin' : s.minSize ≤ (d.drop (cutSize s d.length (firstCut s d r).1)).length := by
            rw [List.length_drop]
            omega
          rcases Nat.eq_zero_or_pos k with rfl | hk
          · simp only [List.take_succ_cons, List.take_zero, List.sum_cons, List.sum_nil,
              Nat.add_zero, List.drop_succ_cons, List.drop_zero, Nat.zero_add, Nat.one_mul]
            refine ⟨by omega, hmin', ?_⟩
            rw [hslot', hcut] at tail
            rw [hcut]
            exact tail
          · rw [List.take_succ_cons, List.sum_cons] at hsum ⊢
            obtain ⟨hle, hrest, htail⟩ := ih tail hmin'
              (by simp only [Roll.start, hslot']; exact Nat.mod_lt _ hs.window_pos) hk
              (by rw [List.length_drop]; omega)
            rw [List.drop_drop] at hrest htail
            refine ⟨by rw [Nat.succ_mul]; omega, hrest, ?_⟩
            rw [List.drop_succ_cons]
            convert htail using 2
            simp only [Roll.start, hslot', Nat.mod_add_mod, Nat.succ_mul]
            congr 1
            omega

/-- A boundary inside a buffer that is no longer than a minimal chunk is its start. -/
theorem boundary_short {fps : List Fingerprint} {k : Nat} (h : data.length ≤ s.minSize)
    (hrun : doFingerprinting sha256 s data = some fps) (hk : boundary fps k < data.length) :
    k = 0 := by
  rw [doFingerprinting_short h, Option.some_inj] at hrun
  subst hrun
  cases k with
  | zero => rfl
  | succ k => simp [boundary] at hk

/-- A buffer that is no longer than a minimal chunk is one chunk. -/
theorem Cuts.of_short (r : Roll) {d : List UInt8} (hd : d ≠ []) (h : d.length ≤ s.minSize) :
    Cuts s d r [d.length] := by
  have hall : cutSize s d.length (firstCut s d r).1 = d.length := by
    have hnil : d.drop s.minSize = [] := List.drop_eq_nil_of_le h
    rw [firstCut, hnil, scan, cutSize, if_pos (Or.inl h)]
  have hcuts := @Cuts.chunk s d r ([]) hd
  rw [hall, List.drop_length] at hcuts
  exact hcuts Cuts.done

theorem RingAgrees.refl (hs : s.Ordered) (d : List UInt8) (i : Nat) : RingAgrees s d i i := by
  rcases Nat.lt_or_ge d.length s.minSize with hlt | hge
  · exact RingAgrees.of_short (by omega) i i
  · obtain ⟨ks, h⟩ := Cuts.exists hs _ d (Roll.start s d i) rfl (Or.inr hge)
    exact (h.eq_iff h).mp rfl

/-- A boundary at the end of `pre` is kept by every other continuation that
holds a minimal chunk, with the same fingerprints before it. -/
theorem boundary_extend (hs : s.Ordered) {pre x x' : List UInt8} {fps : List Fingerprint} {k : Nat}
    (hrun : doFingerprinting sha256 s (pre ++ x) = some fps) (hk : boundary fps k = pre.length)
    (hpre : pre ≠ []) (hx : x ≠ []) (hx' : s.minSize ≤ x'.length) :
    ∃ ks', Cuts s (pre ++ x') (Roll.first s (pre ++ x'))
      ((fps.take k).map (·.contentSize) ++ ks') := by
  have hxlen := List.length_pos_iff.mpr hx
  have hprelen := List.length_pos_iff.mpr hpre
  rcases Nat.lt_or_ge s.minSize (pre ++ x).length with hlt | hge
  · obtain ⟨ks, hcuts, hrun'⟩ := @doFingerprinting_eq sha256 _ _ hs hlt
    obtain rfl := Option.some_inj.mp (hrun.symm.trans hrun')
    rw [boundary_fingerprintsOf] at hk
    have hkpos : 0 < k := by
      rcases Nat.eq_zero_or_pos k with rfl | h
      · simp at hk
        omega
      · exact h
    -- the first chunk lies in `pre`, and with it the window of the first hash
    have hmin : s.minSize ≤ pre.length := by
      have hle := hcuts.drop hs k (Nat.le_of_lt hlt) hs.window_pos hkpos
        (by rw [hk, List.length_append]; omega)
      have := Nat.mul_le_mul_right s.minSize hkpos
      omega
    have hfirst : Roll.first s (pre ++ x) = Roll.first s (pre ++ x') := by
      unfold Roll.first
      rw [Roll.start_append hs hmin x x']
    rw [hfirst] at hcuts
    obtain ⟨ks', h⟩ := hcuts.extend hs hx hx' k (Nat.le_of_lt hlt) hk
    refine ⟨ks', ?_⟩
    rwa [List.map_take, fingerprintsOf_sizes]
  · have := boundary_short hge hrun (by rw [hk, List.length_append]; omega)
    subst this
    simp at hk
    omega

theorem fingerprintsOf_take (d : List UInt8) (ks : List Nat) (k : Nat) :
    (fingerprintsOf sha256 d ks).take k = fingerprintsOf sha256 d (ks.take k) := by
  induction ks generalizing d k with
  | nil => simp
  | cons x ks ih =>
      cases k with
      | zero => simp
      | succ k => simp [fingerprintsOf_cons, ih]

/-- The fingerprints of slices depend on the bytes of the slices only. -/
theorem fingerprintsOf_congr {ks : List Nat} : ∀ {d d' : List UInt8},
    d.take ks.sum = d'.take ks.sum →
      fingerprintsOf sha256 d ks = fingerprintsOf sha256 d' ks := by
  induction ks with
  | nil => exact fun _ => rfl
  | cons k ks ih =>
      intro d d' hsame
      rw [List.sum_cons] at hsame
      have hhead : d.take k = d'.take k := by
        have h := congrArg (List.take k) hsame
        simpa [List.take_take] using h
      have htail : (d.drop k).take ks.sum = (d'.drop k).take ks.sum := by
        have h := congrArg (List.drop k) hsame
        simpa [List.drop_take] using h
      rw [fingerprintsOf_cons, fingerprintsOf_cons, hhead, ih htail]

/-- A boundary at the start of a buffer comes before every chunk. -/
theorem boundary_eq_zero (hs : s.Ordered) {data : List UInt8} (hdata : data ≠ [])
    {fps : List Fingerprint} {k : Nat} (hrun : doFingerprinting sha256 s data = some fps)
    (hk : boundary fps k = 0) : k = 0 := by
  obtain ⟨fps', hrun', hpart⟩ := @doFingerprinting_isPartition sha256 _ hs data
  obtain rfl := Option.some_inj.mp (hrun.symm.trans hrun')
  cases k with
  | zero => rfl
  | succ k =>
      cases fps with
      | nil =>
          have hlen : 0 = data.length := hpart.sum_sizes
          exact absurd (List.length_eq_zero_iff.mp hlen.symm) hdata
      | cons fp fps =>
          have hpos := doFingerprinting_pos hs hdata hrun fp (by simp)
          rw [boundary_cons] at hk
          omega

/-- Equal bytes up to a boundary give equal chunks up to it. -/
theorem doFingerprinting_continued (hs : s.Ordered) {pre x x' : List UInt8}
    {fps : List Fingerprint} {k : Nat}
    (hrun : doFingerprinting sha256 s (pre ++ x) = some fps)
    (hk : boundary fps k = pre.length) (hx : x ≠ []) (hx' : s.minSize ≤ x'.length) :
    ∃ fps', doFingerprinting sha256 s (pre ++ x') = some fps' ∧
      boundary fps' k = pre.length ∧ fps'.take k = fps.take k := by
  by_cases hpre : pre = []
  · subst hpre
    obtain rfl := boundary_eq_zero hs (by simpa using hx) hrun hk
    obtain ⟨fps', hrun', -⟩ := @doFingerprinting_isPartition sha256 _ hs ([] ++ x')
    exact ⟨fps', hrun', rfl, by simp⟩
  · have hprelen := List.length_pos_iff.mpr hpre
    have hxlen := List.length_pos_iff.mpr hx
    have hshort : ¬ (pre ++ x).length ≤ s.minSize := by
      intro hge
      have hzero := boundary_short hge hrun (by rw [hk, List.length_append]; omega)
      rw [hzero, boundary_zero] at hk
      omega
    obtain ⟨ks, -, hrun₁⟩ := @doFingerprinting_eq sha256 _ (pre ++ x) hs (by omega)
    obtain rfl := Option.some_inj.mp (hrun.symm.trans hrun₁)
    obtain ⟨tail, hcuts⟩ := boundary_extend hs hrun hk hpre hx hx'
    obtain ⟨ks', hcuts', hrun'⟩ := @doFingerprinting_eq sha256 _ (pre ++ x') hs
      (by rw [List.length_append]; omega)
    obtain rfl := hcuts'.unique hcuts
    rw [List.map_take, fingerprintsOf_sizes] at hrun'
    rw [boundary_fingerprintsOf] at hk
    have hkle : k ≤ ks.length := by
      by_contra hlt
      obtain ⟨fps₁, hrun₁, hpart⟩ := @doFingerprinting_isPartition sha256 _ hs (pre ++ x)
      obtain rfl := Option.some_inj.mp (hrun.symm.trans hrun₁)
      have hsum := hpart.sum_sizes
      rw [fingerprintsOf_sizes, List.length_append] at hsum
      rw [List.take_of_length_le (by omega)] at hk
      omega
    have htake : (ks.take k ++ tail).take k = ks.take k := by
      rw [List.take_left' (by rw [List.length_take]; omega)]
    refine ⟨_, hrun', ?_, ?_⟩
    · rw [boundary_fingerprintsOf, htake, hk]
    · rw [fingerprintsOf_take, fingerprintsOf_take, htake]
      apply fingerprintsOf_congr
      rw [hk, List.take_left' rfl, List.take_left' rfl]

end NetDedup.Chunking

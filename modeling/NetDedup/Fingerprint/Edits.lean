import NetDedup.Fingerprint.RingMarker

/-!
# Edits and earlier chunks

Two buffers that agree up to a boundary of one of them have the same chunks
up to it, when each leaves room for a minimal chunk after it. A later edit
therefore reaches back to the last boundary before it at most.
-/

namespace NetDedup.Chunking

variable {sha256 : List UInt8 → Digest} {s : FingerprintingSettings}

/-- Every boundary but the last leaves a minimal chunk behind it. -/
theorem boundary_room (hs : s.Ordered) {data : List UInt8} {fps : List Fingerprint} {k : Nat}
    (hrun : doFingerprinting sha256 s data = some fps) (hpos : 0 < k) (hk : k < fps.length) :
    boundary fps k + s.minSize ≤ data.length := by
  obtain ⟨fps', hrun', hpart⟩ := @doFingerprinting_isPartition sha256 _ hs data
  obtain rfl := Option.some_inj.mp (hrun.symm.trans hrun')
  rcases Nat.lt_or_ge s.minSize data.length with hlt | hge
  · have hmin := (doFingerprinting_bounds hs hlt hrun).1 _ (List.getElem_mem hk)
    calc
      boundary fps k + s.minSize ≤ boundary fps k + fps[k].contentSize :=
        Nat.add_le_add_left hmin _
      _ ≤ (fps.map (·.contentSize)).sum := boundary_add_le hk
      _ = data.length := hpart.sum_sizes
  · rw [doFingerprinting_short hge, Option.some_inj] at hrun
    rw [← hrun, List.length_singleton] at hk
    omega

/-- A buffer and an edited one. Boundaries before the edit stay, with the chunks
before them, and appending keeps every chunk but the last. -/
theorem doFingerprinting_edit (sha256 : List UInt8 → Digest) (s : FingerprintingSettings)
    (hs : s.Ordered) :
    (∀ (a b : List UInt8) (limit : Nat) (fps : List Fingerprint) (k : Nat),
      a.take limit = b.take limit → doFingerprinting sha256 s a = some fps →
      boundary fps k ≤ limit → boundary fps k + s.minSize ≤ a.length →
      boundary fps k + s.minSize ≤ b.length →
      ∃ fps', doFingerprinting sha256 s b = some fps' ∧ boundary fps' k = boundary fps k ∧
        fps'.take k = fps.take k) ∧
    ∀ (a x : List UInt8) (fps : List Fingerprint), doFingerprinting sha256 s a = some fps →
      ∃ fps', doFingerprinting sha256 s (a ++ x) = some fps' ∧ fps.dropLast <+: fps' := by
  have hwin := hs.window_lt_min
  have hedit (a b : List UInt8) (limit : Nat) (fps : List Fingerprint) (k : Nat)
      (hsame : a.take limit = b.take limit) (hrun : doFingerprinting sha256 s a = some fps)
      (hlimit : boundary fps k ≤ limit) (ha : boundary fps k + s.minSize ≤ a.length)
      (hb : boundary fps k + s.minSize ≤ b.length) :
      ∃ fps', doFingerprinting sha256 s b = some fps' ∧ boundary fps' k = boundary fps k ∧
        fps'.take k = fps.take k := by
    have hpre : a.take (boundary fps k) = b.take (boundary fps k) := by
      have h := congrArg (List.take (boundary fps k)) hsame
      simpa only [List.take_take, Nat.min_eq_left hlimit] using h
    have hlen : (b.take (boundary fps k)).length = boundary fps k := by
      rw [List.length_take]
      omega
    rw [← List.take_append_drop (boundary fps k) a, hpre] at hrun
    have h := @doFingerprinting_continued sha256 s hs (b.take (boundary fps k))
      (a.drop (boundary fps k)) (b.drop (boundary fps k)) fps k hrun hlen.symm
      (List.ne_nil_of_length_pos (by rw [List.length_drop]; omega))
      (by rw [List.length_drop]; omega)
    rwa [List.take_append_drop, hlen] at h
  refine ⟨hedit, fun a x fps hrun => ?_⟩
  rcases Nat.lt_or_ge 1 fps.length with hmany | hone
  · have hroom := @boundary_room sha256 s hs a fps (fps.length - 1) hrun (by omega) (by omega)
    obtain ⟨fps', hrun', -, htake⟩ := hedit a (a ++ x) a.length fps (fps.length - 1)
      (by rw [List.take_length, List.take_left' rfl]) hrun (by omega) hroom
      (by rw [List.length_append]; omega)
    refine ⟨fps', hrun', ?_⟩
    rw [List.dropLast_eq_take, ← htake]
    exact List.take_prefix _ _
  · obtain ⟨fps', hrun', -⟩ := @doFingerprinting_isPartition sha256 _ hs (a ++ x)
    refine ⟨fps', hrun', ?_⟩
    rw [List.dropLast_eq_take, Nat.sub_eq_zero_of_le hone, List.take_zero]
    exact List.nil_prefix

/-- The marker keeps its first chunk when the bytes after it are replaced. -/
theorem doFingerprinting_edit_ringMarker :
    ∃ fps fps', doFingerprinting (fun _ => zeroDigest) shippedSettings ringMarker = some fps ∧
      boundary fps 1 = 2049 ∧
      doFingerprinting (fun _ => zeroDigest) shippedSettings
        (ringMarker.take 2049 ++ ringMarker) = some fps' ∧
      boundary fps' 1 = 2049 ∧ fps'.take 1 = fps.take 1 := by
  have hlen : (ringMarker.take 2049).length = 2049 := by
    rw [List.length_take, ringMarker_length]
    rfl
  obtain ⟨ks, hcuts, hrun⟩ := @doFingerprinting_eq (fun _ => zeroDigest) _ ringMarker
    shipped_ordered (by rw [ringMarker_length, shipped_minSize]; omega)
  have hk : boundary (fingerprintsOf (fun _ => zeroDigest) ringMarker ks) 1 = 2049 := by
    rw [boundary_fingerprintsOf, ringMarker_cuts_first hcuts]
    rfl
  obtain ⟨fps', hrun', hk', htake⟩ :=
    (doFingerprinting_edit (fun _ => zeroDigest) shippedSettings shipped_ordered).1 ringMarker
      (ringMarker.take 2049 ++ ringMarker) 2049 _ 1 (by rw [List.take_left' hlen]) hrun
      (Nat.le_of_eq hk) (by rw [hk, ringMarker_length, shipped_minSize]; omega)
      (by rw [hk, List.length_append, hlen, ringMarker_length, shipped_minSize]; omega)
  exact ⟨_, fps', hrun, hk, hrun', hk'.trans hk, htake⟩

end NetDedup.Chunking

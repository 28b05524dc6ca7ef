import NetDedup.Fingerprint.Restart

/-!
# Cuts that do not restart cleanly

Under the shipped settings no cut with another ring index than zero restarts
cleanly for every continuation. A window of one set byte separates the two
runs: the byte leaves the ring at once when the index is zero, and later
otherwise.
-/

namespace NetDedup.Chunking

variable {sha256 : List UInt8 → Digest}

section RingMarker

/-- One set byte at the start of the first window, and zeros around it. -/
def ringMarker : List UInt8 := List.replicate 1983 0 ++ 1 :: List.replicate 4096 0

theorem ringMarker_length : ringMarker.length = 6080 := by
  simp only [ringMarker, List.length_append, List.length_cons, List.length_replicate]

theorem ringMarker_start (slot : Nat) : Roll.start shippedSettings ringMarker slot =
    ⟨initRabin rabinP shippedSettings.rabinMask (1 :: List.replicate 63 0),
      1 :: List.replicate 63 0, slot⟩ := by
  have hwindow : (ringMarker.drop 1983).take 64 = 1 :: List.replicate 63 0 := by
    simp only [ringMarker]
    rw [List.drop_left' List.length_replicate, List.take_succ_cons, List.take_replicate]
    rfl
  simp only [Roll.start, shipped_minSize, shipped_window, hwindow]
  rfl

theorem ringMarker_rest : ringMarker.drop 2048 = List.replicate 4032 0 := by
  have h : ringMarker.drop 1983 = 1 :: List.replicate 4096 0 := by
    simp only [ringMarker]
    rw [List.drop_left' List.length_replicate]
  rw [show 2048 = 1983 + 65 from rfl, ← List.drop_drop, h, List.drop_succ_cons,
    List.drop_replicate]

/-- The hash of the marker's first candidate, the same for every ring index. -/
def markerHash : UInt64 := initRabin rabinP shippedSettings.rabinMask (1 :: List.replicate 63 0)

/-- The marker is cut right after its first byte leaves a ring that starts at zero. -/
theorem ringMarker_firstCut_zero :
    (firstCut shippedSettings ringMarker (Roll.start shippedSettings ringMarker 0)).1 = 2049 := by
  have hmiss : (Roll.mk markerHash (1 :: List.replicate 63 0) 0).hit shippedSettings = false := by
    decide +kernel
  have hhit : ((Roll.mk markerHash (1 :: List.replicate 63 0) 0).next shippedSettings 0).hit
      shippedSettings = true := by
    decide +kernel
  rw [firstCut, shipped_minSize, ringMarker_rest, ringMarker_start]
  change (scan shippedSettings (0 :: 0 :: List.replicate 4030 0) 2048
    ⟨markerHash, 1 :: List.replicate 63 0, 0⟩).1 = 2049
  rw [scan, hmiss, shipped_maxSize, if_neg (by decide), scan, hhit]
  rfl

/-- The marker alone starts with a chunk of 2049 bytes. -/
theorem ringMarker_cuts_first {ks : List Nat}
    (h : Cuts shippedSettings ringMarker (Roll.first shippedSettings ringMarker) ks) :
    ks.take 1 = [2049] := by
  have h' := h.of_same shipped_lowerBits_le shipped_rabinMBits_lt
    (Roll.first_same shipped_rabinMBits_lt ringMarker)
  obtain ⟨ks', rfl, -⟩ := h'.uncons (List.ne_nil_of_length_pos (by simp [ringMarker_length]))
  rw [ringMarker_firstCut_zero, ringMarker_length]
  rfl

end RingMarker

theorem ringMarker_take_length : (ringMarker.take 2049).length = 2049 := by
  rw [List.length_take, ringMarker_length]
  rfl

/-- The first chunk of the marker is cut where its first 2049 bytes end. -/
theorem ringMarker_run (sha256 : List UInt8 → Digest) : ∃ fps,
    doFingerprinting sha256 shippedSettings (ringMarker.take 2049 ++ ringMarker.drop 2049) =
      some fps ∧ boundary fps 1 = (ringMarker.take 2049).length := by
  obtain ⟨ks, hcuts, hrun⟩ := @doFingerprinting_eq sha256 _ ringMarker shipped_ordered
      (by rw [ringMarker_length, shipped_minSize]; omega)
  refine ⟨_, by rw [List.take_append_drop]; exact hrun, ?_⟩
  rw [boundary_fingerprintsOf, ringMarker_cuts_first hcuts, ringMarker_take_length]
  rfl

end NetDedup.Chunking

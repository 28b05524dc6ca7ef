import NetDedup.Transfer.Fingerprints
import NetDedup.Transfer.Stages

/-!
# Announced and missing fingerprints

What a receive request knows of the fingerprints its peer announced, and the
list of the missing ones that the populate loop notes in its two arrays.
-/

namespace NetDedup.Transfer

open Chunking Memory Store

/-- The request holds these fingerprints, which its arrays have room for. -/
structure Announces (head : Mem) (fps : List Fingerprint) : Prop where
  num : numFingerprints head = fps.length
  fit : fps.length ≤ maxFingerprintsPerReq
  get : ∀ (i : Nat) (hi : i < fps.length), packagedFingerprint head i = some fps[i]

/-- The fingerprints that a request holds, whatever they are. -/
def announcedFingerprints (head : Mem) : List Fingerprint :=
  (List.range (numFingerprints head)).map fun i =>
    loadFingerprint head (packagedPos + i * sizeofFingerprint)

@[simp] theorem length_announcedFingerprints (head : Mem) :
    (announcedFingerprints head).length = numFingerprints head := by
  rw [announcedFingerprints, List.length_map, List.length_range]

theorem announces_announcedFingerprints {head : Mem}
    (h : numFingerprints head ≤ maxFingerprintsPerReq) :
    Announces head (announcedFingerprints head) where
  num := (length_announcedFingerprints head).symm
  fit := by rw [length_announcedFingerprints]; exact h
  get := by
    intro i hi
    rw [length_announcedFingerprints] at hi
    rw [packagedFingerprint, if_pos (Nat.lt_of_lt_of_le hi h)]
    simp only [announcedFingerprints, List.getElem_map, List.getElem_range]

/-- A request holds one list of fingerprints. -/
theorem Announces.eq_announced {head : Mem} {fps : List Fingerprint} (h : Announces head fps) :
    announcedFingerprints head = fps := by
  refine List.ext_getElem (by rw [length_announcedFingerprints, h.num]) fun i hi hi' => ?_
  rw [length_announcedFingerprints] at hi
  have hget := h.get i hi'
  rw [packagedFingerprint, if_pos (Nat.lt_of_lt_of_le hi' h.fit)] at hget
  simp only [announcedFingerprints, List.getElem_map, List.getElem_range]
  exact Option.some_inj.mp hget

theorem Packed.announces {head : Mem} {fps : List Fingerprint} (h : Packed head fps)
    (hnum : numFingerprints head = fps.length) (hfit : fps.length ≤ maxFingerprintsPerReq)
    (hsize : ∀ fp ∈ fps, fp.contentSize < 2 ^ 64) : Announces head fps :=
  ⟨hnum, hfit, fun _ hi => h.get hfit hsize hi⟩

/-- The two arrays of a request start with these missing fingerprints and the
places of their contents. -/
structure Noted (fps : List Fingerprint) (missing : List Nat) (req : DedupRecvReq) : Prop where
  fit : missing.length ≤ maxFingerprintsPerReq
  lt : ∀ i ∈ missing, i < fps.length
  ind : ∀ (t : Nat) (ht : t < missing.length),
    loadU64 req.missingFingerprintInds (t * sizeofU64) = missing[t]
  slot : ∀ (t : Nat) (ht : t < missing.length),
    req.missingFingerprintSlots t = boundary fps missing[t]

namespace Noted

variable {fps : List Fingerprint} {missing : List Nat} {req : DedupRecvReq}

theorem nil (fps : List Fingerprint) (req : DedupRecvReq) : Noted fps [] req where
  fit := Nat.zero_le _
  lt := fun _ h => absurd h List.not_mem_nil
  ind := fun t ht => absurd ht (Nat.not_lt_zero t)
  slot := fun t ht => absurd ht (Nat.not_lt_zero t)

theorem get_ind (h : Noted fps missing req) {t : Nat} (ht : t < missing.length) :
    missingInd req.missingFingerprintInds t = some missing[t] := by
  rw [missingInd, if_pos (Nat.lt_of_lt_of_le ht h.fit), h.ind t ht]

theorem get_slot (h : Noted fps missing req) {t : Nat} (ht : t < missing.length) :
    getSlot req.missingFingerprintSlots t = some (boundary fps missing[t]) := by
  rw [getSlot, if_pos (Nat.lt_of_lt_of_le ht h.fit), h.slot t ht]

/-- Noting one more missing fingerprint. -/
theorem snoc (h : Noted fps missing req) {i : Nat} (hi : i < fps.length)
    (hfps : fps.length ≤ maxFingerprintsPerReq) (hroom : missing.length < maxFingerprintsPerReq) :
    Noted fps (missing ++ [i]) (req.noteMissing missing.length i (boundary fps i)) where
  fit := by
    rw [List.length_append, List.length_singleton]
    exact hroom
  lt := by
    intro j hj
    rcases List.mem_append.mp hj with hj | hj
    · exact h.lt j hj
    · rw [List.mem_singleton.mp hj]
      exact hi
  ind := by
    intro t ht
    rw [List.length_append, List.length_singleton] at ht
    rcases Nat.lt_or_eq_of_le (Nat.lt_succ_iff.mp ht) with hlt | rfl
    · have hbelow : (t + 1) * sizeofU64 ≤ missing.length * sizeofU64 := Nat.mul_le_mul_right _ hlt
      rw [Nat.succ_mul] at hbelow
      rw [List.getElem_append_left hlt, ← h.ind t hlt]
      exact loadU64_congr fun a _ ha => storeU64_of_ne (Or.inl (by omega))
    · rw [List.getElem_concat_length rfl]
      refine loadU64_storeU64 (Nat.lt_of_lt_of_le hi (Nat.le_trans hfps ?_))
      decide
  slot := by
    intro t ht
    rw [List.length_append, List.length_singleton] at ht
    rcases Nat.lt_or_eq_of_le (Nat.lt_succ_iff.mp ht) with hlt | rfl
    · rw [List.getElem_append_left hlt, ← h.slot t hlt]
      exact Function.update_of_ne (Nat.ne_of_lt hlt) _ _
    · rw [List.getElem_concat_length rfl]
      exact Function.update_self _ _ _

theorem congr (h : Noted fps missing req) {req' : DedupRecvReq}
    (hinds : req'.missingFingerprintInds = req.missingFingerprintInds)
    (hslots : req'.missingFingerprintSlots = req.missingFingerprintSlots) :
    Noted fps missing req' where
  fit := h.fit
  lt := h.lt
  ind := by rw [hinds]; exact h.ind
  slot := by rw [hslots]; exact h.slot

/-- The first array as bytes. -/
theorem read_inds (h : Noted fps missing req) :
    read req.missingFingerprintInds 0 (missing.length * sizeofU64) =
      missing.flatMap (leBytes sizeofU64) := by
  have hread : ∀ n ≤ missing.length, read req.missingFingerprintInds 0 (n * sizeofU64) =
      (missing.take n).flatMap (leBytes sizeofU64) := by
    intro n
    induction n with
    | zero => intro _; rw [Nat.zero_mul, read_zero, List.take_zero, List.flatMap_nil]
    | succ n ih =>
        intro hn
        have hword := leBytes_leNat (read req.missingFingerprintInds (n * sizeofU64) sizeofU64)
        rw [length_read, ← loadU64, h.ind n hn] at hword
        rw [Nat.succ_mul, read_add, ih (Nat.le_of_succ_le hn), Nat.zero_add, ← hword,
          List.take_succ_eq_append_getElem hn, List.flatMap_append, List.flatMap_singleton]
  have hall := hread missing.length (Nat.le_refl _)
  rwa [List.take_length] at hall

end Noted

/-- The populate loop is about to look at chunk `locals.i`, or to copy it. -/
structure Populating (fps : List Fingerprint) (missing : List Nat) (locals : PopulateLocals)
    (req : DedupRecvReq) : Prop where
  noted : Noted fps missing req
  num : locals.numMissingFingerprints = missing.length
  missing_le : missing.length ≤ locals.i
  i_le : locals.i ≤ fps.length
  cur : locals.curAppBuffer = boundary fps locals.i
  found : ∀ e, locals.found = some e → ∃ hi : locals.i < fps.length,
    e.Placed fingerprintCacheNumPages ∧ e.contentSize ≤ fps[locals.i].contentSize

namespace Populating

variable {fps : List Fingerprint} {missing : List Nat} {locals : PopulateLocals}
  {req : DedupRecvReq}

theorem start (fps : List Fingerprint) (req : DedupRecvReq) :
    Populating fps [] populateStart req where
  noted := Noted.nil fps req
  num := rfl
  missing_le := Nat.le_refl 0
  i_le := Nat.zero_le _
  cur := (boundary_zero fps).symm
  found := fun _ h => absurd h (by simp [populateStart])

/-- Without a wrap the next chunk starts where this one ends. -/
theorem cur_next (h : Populating fps missing locals req) (hi : locals.i < fps.length)
    (hsum : (fps.map (·.contentSize)).sum < 2 ^ 64) :
    (locals.curAppBuffer + fps[locals.i].contentSize) % 2 ^ 64 = boundary fps (locals.i + 1) := by
  have hend := boundary_add_le hi
  rw [h.cur, boundary_succ hi]
  exact Nat.mod_eq_of_lt (Nat.lt_of_le_of_lt hend hsum)

theorem hit (h : Populating fps missing locals req) (hi : locals.i < fps.length)
    {e : FingerprintEntry} (hplaced : e.Placed fingerprintCacheNumPages)
    (hsize : e.contentSize ≤ fps[locals.i].contentSize) :
    Populating fps missing (locals.hit fps[locals.i] e) req where
  noted := h.noted
  num := h.num
  missing_le := h.missing_le
  i_le := h.i_le
  cur := h.cur
  found := by
    intro e' he'
    obtain rfl : e = e' := Option.some_inj.mp he'
    exact ⟨hi, hplaced, hsize⟩

theorem copied (h : Populating fps missing locals req) (hi : locals.i < fps.length)
    (hsum : (fps.map (·.contentSize)).sum < 2 ^ 64) {slot : Nat} {content : List UInt8} :
    Populating fps missing (locals.copied fps[locals.i])
      (req.copied slot content fps[locals.i]) where
  noted := h.noted.congr rfl rfl
  num := h.num
  missing_le := Nat.le_succ_of_le h.missing_le
  i_le := hi
  cur := h.cur_next hi hsum
  found := fun _ he => absurd he (by simp [PopulateLocals.copied])

theorem miss (h : Populating fps missing locals req) (hi : locals.i < fps.length)
    (hfound : locals.found = none) (hfit : fps.length ≤ maxFingerprintsPerReq)
    (hsum : (fps.map (·.contentSize)).sum < 2 ^ 64) :
    Populating fps (missing ++ [locals.i]) (locals.miss fps[locals.i])
      (req.noteMissing locals.numMissingFingerprints locals.i locals.curAppBuffer) where
  noted := by
    rw [h.num, h.cur]
    exact h.noted.snoc hi hfit (Nat.lt_of_le_of_lt h.missing_le (Nat.lt_of_lt_of_le hi hfit))
  num := by
    rw [List.length_append, List.length_singleton, ← h.num]
    rfl
  missing_le := by
    rw [List.length_append, List.length_singleton]
    exact Nat.succ_le_succ h.missing_le
  i_le := hi
  cur := h.cur_next hi hsum
  found := fun _ he => absurd (hfound.symm.trans he) (by simp)

end Populating

end NetDedup.Transfer

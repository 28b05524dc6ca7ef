import NetDedup.Fingerprint.Chunking
import Mathlib.Tactic.Common

/-!
# Chunk sizes without the loop

A chunk is found by scanning its bytes from the minimum size on, and the
sizes of a buffer are found chunk by chunk on what is left of it. `Cuts` is
this description; `doFingerprinting_eq` shows that the loop of
`do_fingerprinting` computes it, with every read inside its bounds.
-/

namespace NetDedup.Chunking

theorem initRabin_zeros (p mask : UInt64) (n : Nat) :
    initRabin p mask (List.replicate n 0) = 0 := by
  unfold initRabin
  induction n with
  | zero => rfl
  | succ n ih =>
      rw [List.replicate_succ, List.foldr_cons]
      simp only [ih]
      simp

/-- The rolling hash with its ring of window bytes. -/
structure Roll where
  rabin : UInt64
  window : List UInt8
  slot : Nat

namespace Roll

variable (s : FingerprintingSettings)

/-- The hash restarted on the bytes `d` of a new chunk, ring index kept. -/
def start (d : List UInt8) (slot : Nat) : Roll :=
  let window := (d.drop (s.minSize - 1 - s.window)).take s.window
  ⟨initRabin s.rabinP s.rabinMask window, window, slot⟩

/-- The hash of the first chunk, which is masked before its first use. -/
def first (d : List UInt8) : Roll :=
  { start s d 0 with rabin := (start s d 0).rabin &&& s.rabinMask }

/-- The hash after one more byte. -/
def next (r : Roll) (b : UInt8) : Roll where
  rabin := ((r.rabin - s.rabinTable (r.window.getD r.slot 0)) * s.rabinP + b.toUInt64)
    &&& s.rabinMask
  window := r.window.set r.slot b
  slot := (r.slot + 1) % s.window

/-- `magic_check == magic_val`. -/
def hit (r : Roll) : Bool := r.rabin &&& s.magicMask == s.magicVal.toUInt64

/-- The ring has one slot for each window byte and the index is in it. -/
structure Ok (r : Roll) : Prop where
  window_length : r.window.length = s.window
  slot_lt : r.slot < s.window

variable {s}

theorem Ok.next {r : Roll} (h : r.Ok s) (hw : 1 ≤ s.window) (b : UInt8) : (r.next s b).Ok s where
  window_length := by simp [Roll.next, h.window_length]
  slot_lt := Nat.mod_lt _ hw

theorem start_ok (hs : s.Ordered) {d : List UInt8} (hd : s.minSize ≤ d.length) {slot : Nat}
    (hslot : slot < s.window) : (start s d slot).Ok s where
  window_length := by
    have hlt := hs.window_lt_min
    simp [start]
    omega
  slot_lt := hslot

theorem first_ok (hs : s.Ordered) {d : List UInt8} (hd : s.minSize ≤ d.length) :
    (first s d).Ok s where
  window_length := (start_ok hs hd hs.window_pos).window_length
  slot_lt := hs.window_pos

end Roll

section Scan

variable (s : FingerprintingSettings)

/-- Walk over the bytes after the candidate size `c` until the hash hits,
the maximum is reached or the bytes end. -/
def scan : List UInt8 → Nat → Roll → Nat × Roll
  | [], c, r => (c, r)
  | b :: rest, c, r => if r.hit s || decide (s.maxSize ≤ c) then (c, r)
      else scan rest (c + 1) (r.next s b)

/-- The candidate size at which the first chunk of `d` is cut. -/
def firstCut (d : List UInt8) (r : Roll) : Nat × Roll := scan s (d.drop s.minSize) s.minSize r

/-- The chunk sizes of a buffer whose first chunk starts with the hash `r`.
Each later chunk restarts the hash but inherits the ring index. -/
inductive Cuts : List UInt8 → Roll → List Nat → Prop
  | done {r} : Cuts [] r []
  | chunk {d r ks} (hd : d ≠ [])
      (tail : Cuts (d.drop (cutSize s d.length (firstCut s d r).1))
        (Roll.start s (d.drop (cutSize s d.length (firstCut s d r).1)) (firstCut s d r).2.slot)
        ks) :
      Cuts d r (cutSize s d.length (firstCut s d r).1 :: ks)

variable {s}

theorem scan_bounds {rest : List UInt8} {c : Nat} {r : Roll} :
    c ≤ (scan s rest c r).1 ∧ (scan s rest c r).1 ≤ c + rest.length := by
  induction rest generalizing c r with
  | nil => simp [scan]
  | cons b rest ih =>
      simp only [scan, List.length_cons]
      split
      · simp
      · have := ih (c := c + 1) (r := r.next s b)
        omega

theorem scan_le_max {rest : List UInt8} {c : Nat} {r : Roll} (hc : c ≤ s.maxSize) :
    (scan s rest c r).1 ≤ s.maxSize := by
  induction rest generalizing c r with
  | nil => simpa [scan] using hc
  | cons b rest ih =>
      simp only [scan]
      split
      · exact hc
      · next h =>
        simp only [Bool.or_eq_true, decide_eq_true_eq, not_or] at h
        exact ih (by omega)

theorem scan_ok (hw : 1 ≤ s.window) {rest : List UInt8} {c : Nat} {r : Roll} (h : r.Ok s) :
    (scan s rest c r).2.Ok s := by
  induction rest generalizing c r with
  | nil => simpa [scan] using h
  | cons b rest ih =>
      simp only [scan]
      split
      · exact h
      · exact ih (h.next hw b)

/-- Each byte walked over moves the ring index by one. -/
theorem scan_slot (hw : 1 ≤ s.window) {rest : List UInt8} {c : Nat} {r : Roll}
    (h : r.slot < s.window) :
    (scan s rest c r).2.slot = (r.slot + ((scan s rest c r).1 - c)) % s.window := by
  induction rest generalizing c r with
  | nil => simp [scan, Nat.mod_eq_of_lt h]
  | cons b rest ih =>
      simp only [scan]
      split
      · simp [Nat.mod_eq_of_lt h]
      · have hb := @scan_bounds s rest (c + 1) (r.next s b)
        have hslot : (r.next s b).slot = (r.slot + 1) % s.window := rfl
        rw [ih (Nat.mod_lt _ hw), hslot, Nat.mod_add_mod]
        congr 1
        omega

end Scan

section CutSize

variable {s : FingerprintingSettings} {n c : Nat}

theorem cutSize_le (h : c ≤ n) : cutSize s n c ≤ n := by
  unfold cutSize
  split <;> omega

theorem le_cutSize (h : c ≤ n) : c ≤ cutSize s n c := by
  unfold cutSize
  split <;> omega

/-- A chunk that is not the last leaves at least a minimal chunk behind it. -/
theorem cutSize_lt (h : cutSize s n c < n) : cutSize s n c = c ∧ s.minSize ≤ n - c := by
  unfold cutSize at h ⊢
  split at h
  · omega
  · next hc =>
    rw [if_neg hc]
    omega

theorem cutSize_eq_or (h : c ≤ n) :
    (cutSize s n c = c ∧ c < n ∧ s.minSize ≤ n - c) ∨
      (cutSize s n c = n ∧ n < c + s.minSize) ∨ (cutSize s n c = n ∧ n = c) := by
  unfold cutSize
  split <;> omega

end CutSize

/-- The consecutive slices of a buffer with the given sizes. -/
def slices : List UInt8 → List Nat → List (List UInt8)
  | _, [] => []
  | d, k :: ks => d.take k :: slices (d.drop k) ks

/-- The fingerprints of consecutive slices. -/
def fingerprintsOf (sha256 : List UInt8 → Digest) (d : List UInt8) (ks : List Nat) :
    List Fingerprint :=
  (ks.zip (slices d ks)).map fun p => ⟨p.1, sha256 p.2⟩

@[simp] theorem slices_length (d : List UInt8) (ks : List Nat) :
    (slices d ks).length = ks.length := by
  induction ks generalizing d with
  | nil => rfl
  | cons k ks ih => simp [slices, ih]

@[simp] theorem fingerprintsOf_nil (sha256 : List UInt8 → Digest) (d : List UInt8) :
    fingerprintsOf sha256 d [] = [] := rfl

theorem fingerprintsOf_cons (sha256 : List UInt8 → Digest) (d : List UInt8) (k : Nat)
    (ks : List Nat) :
    fingerprintsOf sha256 d (k :: ks) =
      ⟨k, sha256 (d.take k)⟩ :: fingerprintsOf sha256 (d.drop k) ks := rfl

@[simp] theorem fingerprintsOf_sizes (sha256 : List UInt8 → Digest) (d : List UInt8)
    (ks : List Nat) : (fingerprintsOf sha256 d ks).map (·.contentSize) = ks := by
  induction ks generalizing d with
  | nil => rfl
  | cons k ks ih => simp [fingerprintsOf_cons, ih]

@[simp] theorem fingerprintsOf_length (sha256 : List UInt8 → Digest) (d : List UInt8)
    (ks : List Nat) : (fingerprintsOf sha256 d ks).length = ks.length := by
  simp [fingerprintsOf]

section Refinement

variable {sha256 : List UInt8 → Digest} {s : FingerprintingSettings} {data : List UInt8}

namespace ChunkState

/-- The hash variables of the loop. -/
def hash (st : ChunkState) : Roll := ⟨st.curRabin, st.window, st.windowSlot⟩

/-- The loop state at another candidate size of the same chunk. -/
def atSize (st : ChunkState) (c : Nat) (r : Roll) : ChunkState :=
  { st with curSize := c, curRabin := r.rabin, window := r.window, windowSlot := r.slot }

@[simp] theorem atSize_hash (st : ChunkState) (c : Nat) (r : Roll) :
    (st.atSize c r).hash = r := rfl

@[simp] theorem atSize_atSize (st : ChunkState) (c c' : Nat) (r r' : Roll) :
    (st.atSize c r).atSize c' r' = st.atSize c' r' := rfl

@[simp] theorem atSize_self (st : ChunkState) : st.atSize st.curSize st.hash = st := rfl

/-- The loop state after a chunk of `k` bytes that is not the last. -/
def restart (sha256 : List UInt8 → Digest) (s : FingerprintingSettings) (data : List UInt8)
    (st : ChunkState) (k : Nat) : ChunkState where
  curStartInd := st.curStartInd + k
  remainBytes := st.remainBytes - k
  curSize := s.minSize
  windowSlot := st.windowSlot
  window := (Roll.start s (data.drop (st.curStartInd + k)) st.windowSlot).window
  curRabin := (Roll.start s (data.drop (st.curStartInd + k)) st.windowSlot).rabin
  fingerprints := st.fingerprints ++ [⟨k, sha256 ((data.drop st.curStartInd).take k)⟩]

@[simp] theorem restart_hash (st : ChunkState) (k : Nat) :
    (st.restart sha256 s data k).hash =
      Roll.start s (data.drop (st.curStartInd + k)) st.windowSlot := rfl

end ChunkState

/-- Inside a chunk the roll branch reads the next byte and the ring slot. -/
theorem roll_eq {st : ChunkState} {b : UInt8} {rest : List UInt8}
    (hrest : data.drop (st.curStartInd + st.curSize) = b :: rest) (hok : st.hash.Ok s) :
    roll s data st = some (st.atSize (st.curSize + 1) (st.hash.next s b)) := by
  have hb : data[st.curStartInd + st.curSize]? = some b := by
    have h := congrArg (·[0]?) hrest
    simpa using h
  have hlt : st.windowSlot < st.window.length := by
    rw [show st.window.length = s.window from hok.window_length]
    exact hok.slot_lt
  simp [roll, hb, List.getElem?_eq_getElem hlt, ChunkState.atSize, ChunkState.hash, Roll.next,
    List.getD_eq_getElem?_getD]

theorem atCut_eq (st : ChunkState) :
    atCut s st = (st.hash.hit s || decide (s.maxSize ≤ st.curSize) ||
      decide (st.remainBytes ≤ st.curSize)) := rfl

/-- The iterations of one chunk end in its cut, at the size the scan finds. -/
theorem chunkLoop_scan (hw : 1 ≤ s.window) (rest : List UInt8) :
    ∀ (st : ChunkState) (fuel : Nat), data.drop (st.curStartInd + st.curSize) = rest →
      st.remainBytes = st.curSize + rest.length → 0 < st.remainBytes → st.hash.Ok s →
      chunkLoop sha256 s data
          (fuel + 1 + ((scan s rest st.curSize st.hash).1 - st.curSize)) st =
        (cut sha256 s data (st.atSize (scan s rest st.curSize st.hash).1
          (scan s rest st.curSize st.hash).2)).bind (chunkLoop sha256 s data fuel) := by
  induction rest with
  | nil =>
      intro st fuel _ hrem hpos _
      have hcut : atCut s st = true := by simp [atCut_eq, hrem]
      simp [scan, chunkLoop, Nat.ne_of_gt hpos, hcut]
  | cons b rest ih =>
      intro st fuel hrest hrem hpos hok
      by_cases hc : st.hash.hit s || decide (s.maxSize ≤ st.curSize)
      · have hcut : atCut s st = true := by simp [atCut_eq, hc]
        simp [scan, hc, chunkLoop, Nat.ne_of_gt hpos, hcut]
      · have hcut : atCut s st = false := by
          have hlt : ¬ st.remainBytes ≤ st.curSize := by simp [hrem]
          rw [atCut_eq]
          simp only [Bool.not_eq_true] at hc
          simp [hc, hlt]
        have hroll := roll_eq hrest hok
        have hscan : scan s (b :: rest) st.curSize st.hash =
            scan s rest (st.curSize + 1) (st.hash.next s b) := by
          simp only [scan, if_neg hc]
        have hb := @scan_bounds s rest (st.curSize + 1) (st.hash.next s b)
        have hfuel : fuel + 1 + ((scan s rest (st.curSize + 1) (st.hash.next s b)).1 - st.curSize) =
            fuel + 1 + ((scan s rest (st.curSize + 1) (st.hash.next s b)).1 -
              (st.curSize + 1)) + 1 := by
          omega
        rw [hscan, hfuel, chunkLoop, if_neg (Nat.ne_of_gt hpos), hcut]
        simp only [Bool.false_eq_true, if_false, hroll, Option.bind_some]
        have hdrop : data.drop (st.curStartInd + (st.curSize + 1)) = rest := by
          rw [← Nat.add_assoc, ← List.drop_drop, hrest]
          rfl
        exact ih (st.atSize (st.curSize + 1) (st.hash.next s b)) fuel hdrop
          (by simp [ChunkState.atSize, hrem]; omega) hpos (hok.next hw b)

theorem handleSha_eq {startInd size : Nat} (h : startInd + size ≤ data.length) :
    handleSha sha256 data startInd size = some (sha256 ((data.drop startInd).take size)) :=
  if_pos h

/-- A cut before the end writes its fingerprint and restarts on the rest. -/
theorem cut_more (hs : s.Ordered) {st : ChunkState}
    (hsplit : st.curStartInd + st.remainBytes = data.length)
    (hmore : cutSize s st.remainBytes st.curSize < st.remainBytes) :
    cut sha256 s data st =
      some (st.restart sha256 s data (cutSize s st.remainBytes st.curSize)) := by
  have hlt := cutSize_lt hmore
  have hwin := hs.window_lt_min
  have hinit : initWindowBytes s data (st.curStartInd + cutSize s st.remainBytes st.curSize) =
      some (Roll.start s (data.drop (st.curStartInd + cutSize s st.remainBytes st.curSize))
        st.windowSlot).window := by
    rw [initWindowBytes, if_pos (by omega)]
    simp only [Roll.start, List.drop_drop]
    congr 3
    omega
  have hpos : 0 < st.remainBytes - cutSize s st.remainBytes st.curSize := by omega
  simp only [cut, @handleSha_eq sha256 _ _ _ (show st.curStartInd +
    cutSize s st.remainBytes st.curSize ≤ data.length by omega), Option.bind_eq_bind,
    Option.bind_some, if_pos hpos, hinit]
  rfl

/-- The cut that takes all that is left ends the loop. -/
theorem cut_last {st : ChunkState} (hsplit : st.curStartInd + st.remainBytes = data.length)
    (hlast : cutSize s st.remainBytes st.curSize = st.remainBytes) :
    cut sha256 s data st = some { st with
      curStartInd := data.length
      remainBytes := 0
      curSize := st.remainBytes
      fingerprints := st.fingerprints ++
        [⟨st.remainBytes, sha256 ((data.drop st.curStartInd).take st.remainBytes)⟩] } := by
  have hsha := @handleSha_eq sha256 _ _ _ (Nat.le_of_eq hsplit)
  simp [cut, hlast, hsha, hsplit]

/-- From the start of a chunk the loop appends the fingerprints of the cuts
of what is left, with one iteration for each byte at most. -/
theorem chunkLoop_cuts (hs : s.Ordered) (m : Nat) :
    ∀ (st : ChunkState) (fuel : Nat), st.remainBytes = m →
      st.curStartInd + st.remainBytes = data.length → st.curSize = s.minSize →
      s.minSize ≤ st.remainBytes → st.hash.Ok s → st.remainBytes + 1 ≤ fuel →
      ∃ ks final, Cuts s (data.drop st.curStartInd) st.hash ks ∧
        chunkLoop sha256 s data fuel st = some final ∧
        final.fingerprints = st.fingerprints ++
          fingerprintsOf sha256 (data.drop st.curStartInd) ks := by
  induction m using Nat.strong_induction_on with
  | _ m ih =>
    intro st fuel hm hsplit hsize hmin hok hfuel
    have hpos : 0 < st.remainBytes := by
      have := hs.window_lt_min
      omega
    have hlen : (data.drop st.curStartInd).length = st.remainBytes := by
      rw [List.length_drop]
      omega
    have hd : data.drop st.curStartInd ≠ [] := by
      intro h
      rw [h] at hlen
      simp at hlen
      omega
    obtain ⟨c, r, hcr⟩ : ∃ c r, firstCut s (data.drop st.curStartInd) st.hash = (c, r) :=
      ⟨_, _, rfl⟩
    have hscan : scan s (data.drop (st.curStartInd + st.curSize)) st.curSize st.hash = (c, r) := by
      rw [← hcr, firstCut, List.drop_drop, hsize]
    have hb := @scan_bounds s (data.drop (st.curStartInd + st.curSize)) st.curSize st.hash
    rw [hscan, List.length_drop] at hb
    have hr : r.Ok s := by
      have := @scan_ok _ hs.window_pos (data.drop (st.curStartInd + st.curSize)) st.curSize
        _ hok
      rwa [hscan] at this
    have hminpos := hs.window_lt_min
    have hcmin : s.minSize ≤ c := hsize ▸ hb.1
    have hcle : c ≤ st.remainBytes := by
      have := hb.2
      simp only at this
      omega
    have hk := cutSize_le (s := s) hcle
    have hck := le_cutSize (s := s) hcle
    obtain ⟨fuel', hfuel'⟩ : ∃ fuel', fuel = fuel' + 1 + (c - st.curSize) :=
      ⟨fuel - 1 - (c - st.curSize), by omega⟩
    have hloop := @chunkLoop_scan sha256 _ data hs.window_pos _ st fuel' rfl
        (by rw [List.length_drop]; omega) hpos hok
    rw [hscan] at hloop
    rw [hfuel', hloop]
    rcases Nat.lt_or_ge (cutSize s st.remainBytes c) st.remainBytes with hmore | hlast
    · have hlt := cutSize_lt hmore
      rw [@cut_more _ _ _ hs (st.atSize c r) hsplit hmore, Option.bind_some]
      obtain ⟨ks, final, hcuts, hfin, hfp⟩ := ih (st.remainBytes - cutSize s st.remainBytes c)
        (by omega) ((st.atSize c r).restart sha256 s data (cutSize s st.remainBytes c)) fuel' rfl
        (by simp only [ChunkState.restart, ChunkState.atSize]; omega) rfl
        (by simp only [ChunkState.restart, ChunkState.atSize]; omega)
        (Roll.start_ok hs (by rw [List.length_drop]; simp only [ChunkState.atSize]; omega)
          hr.slot_lt)
        (by simp only [ChunkState.restart, ChunkState.atSize]; omega)
      refine ⟨cutSize s st.remainBytes c :: ks, final, ?_, hfin, ?_⟩
      · have := @Cuts.chunk s (data.drop st.curStartInd) st.hash ks hd
        rw [hcr, hlen, List.drop_drop] at this
        exact this hcuts
      · rw [hfp, fingerprintsOf_cons, List.drop_drop]
        simp [ChunkState.restart, ChunkState.atSize]
    · have hlast : cutSize s st.remainBytes c = st.remainBytes := by omega
      obtain ⟨fuel'', rfl⟩ : ∃ fuel'', fuel' = fuel'' + 1 := ⟨fuel' - 1, by omega⟩
      have hnil : (data.drop st.curStartInd).drop st.remainBytes = [] :=
        List.drop_eq_nil_of_le (Nat.le_of_eq hlen)
      rw [@cut_last _ _ _ (st.atSize c r) hsplit hlast, Option.bind_some]
      refine ⟨[st.remainBytes], _, ?_, by rw [chunkLoop, if_pos rfl], ?_⟩
      · have := @Cuts.chunk s (data.drop st.curStartInd) st.hash ([]) hd
        rw [hcr, hlen, hlast, hnil] at this
        exact this Cuts.done
      · rw [fingerprintsOf_cons, fingerprintsOf_nil]
        rfl

/-- `do_fingerprinting` returns on every buffer: one chunk when the buffer
is no longer than a minimal chunk, and the fingerprints of its cuts otherwise. -/
theorem doFingerprinting_short (h : data.length ≤ s.minSize) :
    doFingerprinting sha256 s data = some [⟨data.length, sha256 data⟩] := by
  simp [doFingerprinting, h, handleSha]

theorem doFingerprinting_eq (hs : s.Ordered) (h : s.minSize < data.length) :
    ∃ ks, Cuts s data (Roll.first s data) ks ∧
      doFingerprinting sha256 s data = some (fingerprintsOf sha256 data ks) := by
  have hwin := hs.window_lt_min
  have hinit : initWindowBytes s data 0 = some (Roll.start s data 0).window := by
    rw [initWindowBytes, if_pos (by omega)]
    simp [Roll.start]
  obtain ⟨ks, final, hcuts, hfin, hfp⟩ := @chunkLoop_cuts sha256 _ data hs data.length
    { curStartInd := 0
      remainBytes := data.length
      curSize := s.minSize
      windowSlot := 0
      window := (Roll.start s data 0).window
      curRabin := (Roll.start s data 0).rabin &&& s.rabinMask
      fingerprints := [] }
    (2 * data.length + 2) rfl (by simp) rfl (by simp only; omega)
    (Roll.first_ok hs (Nat.le_of_lt h)) (by simp only; omega)
  refine ⟨ks, hcuts, ?_⟩
  rw [doFingerprinting, if_neg (by omega), hinit]
  simp only [Option.bind_eq_bind, Option.bind_some]
  simp only [Roll.start] at hfin ⊢
  rw [hfin]
  simpa using hfp

end Refinement

end NetDedup.Chunking

import NetDedup.Fingerprint.Restart
import NetDedup.Lib.PolyHash

/-!
# The rolling hash against the plain one

At a candidate cut the loop of `do_fingerprinting` should hold the hash of the
`window_bytes` bytes that end there. Its first window of a chunk ends one byte
before the candidate, and after a cut the ring is read from an index that is
not its oldest byte. The hash is the plain one in exactly the runs where
neither makes a difference to it.
-/

namespace NetDedup.Chunking

open PolyHash

section Loop

variable (sha256 : List UInt8 → Digest) (s : FingerprintingSettings) (data : List UInt8)

/-- One turn of the loop of `do_fingerprinting`. -/
def loopBody (st : ChunkState) : Option ChunkState :=
  if atCut s st then cut sha256 s data st else roll s data st

/-- The loop variables before the first turn. -/
def firstState (window : List UInt8) : ChunkState where
  curStartInd := 0
  remainBytes := data.length
  curSize := s.minSize
  windowSlot := 0
  window := window
  curRabin := initRabin s.rabinP s.rabinMask window &&& s.rabinMask
  fingerprints := []

/-- The loop states in which `magic_check` is evaluated. -/
inductive Evaluated : ChunkState → Prop
  | first {window : List UInt8} (hlen : s.minSize < data.length)
      (hwindow : initWindowBytes s data 0 = some window) : Evaluated (firstState s data window)
  | next {st st' : ChunkState} (h : Evaluated st) (hbody : loopBody sha256 s data st = some st')
      (hmore : 0 < st'.remainBytes) : Evaluated st'

/-- A byte of the buffer as a number. -/
def byteAt (i : Nat) : Nat := (data.getD i 0).toNat

/-- The hash from scratch over the `window_bytes` bytes that end at `q`. -/
def plainHash (q : Nat) : Nat := hash s.rabinP.toNat s.window (byteAt data) (q - s.window)

/-- `cur_rabin` is the plain hash at the candidate cut, modulo `2 ^ rabin_m_bits`. -/
def HashesWindow (st : ChunkState) : Prop :=
  st.curRabin.toNat % 2 ^ s.rabinMBits.toNat =
    plainHash s data (st.curStartInd + st.curSize) % 2 ^ s.rabinMBits.toNat

/-- Neither slip shows in this turn. At the start of a chunk the window that
ends one byte early has the hash of the right one, and the byte in the ring
slot that is given up contributes as much as the byte that leaves the window. -/
structure InStep (st : ChunkState) : Prop where
  start : st.curSize = s.minSize →
    plainHash s data (st.curStartInd + st.curSize - 1) ≡
      plainHash s data (st.curStartInd + st.curSize) [MOD 2 ^ s.rabinMBits.toNat]
  roll : atCut s st = false → ∀ evicted, st.window[st.windowSlot]? = some evicted →
    Word.Congr s.rabinMBits.toNat (s.rabinTable evicted * s.rabinP)
      (s.rabinTable (data.getD (st.curStartInd + st.curSize - s.window) 0) * s.rabinP)

end Loop

variable {sha256 : List UInt8 → Digest} {s : FingerprintingSettings} {data : List UInt8}

/-- The plain hash from position `i` on, modulo `2 ^ rabin_m_bits`. -/
def lowHash (s : FingerprintingSettings) (data : List UInt8) (i : Nat) :
    ZMod (2 ^ s.rabinMBits.toNat) :=
  hash (low _ s.rabinP) s.window (fun j => (byteAt data j : ZMod (2 ^ s.rabinMBits.toNat))) i

theorem plainHash_cast (q : Nat) :
    ((plainHash s data q : Nat) : ZMod (2 ^ s.rabinMBits.toNat)) =
      lowHash s data (q - s.window) :=
  cast_hash _ _ _ _ _

theorem hashesWindow_iff {st : ChunkState} : HashesWindow s data st ↔
    low s.rabinMBits.toNat st.curRabin =
      lowHash s data (st.curStartInd + st.curSize - s.window) := by
  rw [← plainHash_cast]
  exact (ZMod.natCast_eq_natCast_iff' _ _ _).symm

theorem rabinMBits_le (hm : s.rabinMBits < 64) : s.rabinMBits.toNat ≤ 64 := by
  rw [UInt8.lt_iff_toNat_lt] at hm
  exact Nat.le_of_lt hm

/-- `init_rabin` computes the plain hash of its window. -/
theorem low_initRabin (hm : s.rabinMBits < 64) (window : List UInt8) :
    low s.rabinMBits.toNat (initRabin s.rabinP s.rabinMask window) =
      hash (low _ s.rabinP) window.length
        (fun j => (byteAt window j : ZMod (2 ^ s.rabinMBits.toNat))) 0 := by
  have hle := rabinMBits_le hm
  suffices h : low s.rabinMBits.toNat (initRabin s.rabinP s.rabinMask window) = _ ∧
      low s.rabinMBits.toNat (window.foldr (fun b (acc : UInt64 × UInt64) =>
        (acc.1 + ((b.toUInt64 * acc.2) &&& s.rabinMask), acc.2 * s.rabinP)) (0, 1)).2 =
          low _ s.rabinP ^ window.length from h.1
  induction window with
  | nil => exact ⟨by simp [initRabin, low], by simp [low_one]⟩
  | cons b window ih =>
      obtain ⟨hsum, hpow⟩ := ih
      unfold initRabin at hsum ⊢
      rw [List.foldr_cons, List.length_cons]
      constructor
      · rw [low_add hle, FingerprintingSettings.rabinMask, low_and_lowMask hm, low_mul hle]
        rw [FingerprintingSettings.rabinMask] at hsum hpow
        rw [hsum, hpow, hash_succ, add_comm]
        congr 1
        apply hash_congr
        intro j _
        rw [Nat.zero_add, Nat.zero_add, Nat.add_comm 1 j]
        rfl
      · rw [low_mul hle, hpow, pow_succ]

/-- The window at the start of a chunk ends one byte before the candidate cut. -/
theorem low_initRabin_window (hm : s.rabinMBits < 64) {start : Nat} {window : List UInt8}
    (h : initWindowBytes s data start = some window) :
    low s.rabinMBits.toNat (initRabin s.rabinP s.rabinMask window) =
      lowHash s data (start + s.minSize - 1 - s.window) := by
  unfold initWindowBytes at h
  split_ifs at h with hbounds
  obtain rfl := Option.some_inj.mp h
  have hlen : ((data.drop (start + s.minSize - 1 - s.window)).take s.window).length =
      s.window := by
    rw [List.length_take, List.length_drop]
    omega
  rw [low_initRabin hm, hlen]
  apply hash_congr
  intro j hj
  rw [Nat.zero_add, byteAt, byteAt, List.getD_eq_getElem?_getD, List.getD_eq_getElem?_getD,
    List.getElem?_take_of_lt hj, List.getElem?_drop]

/-- What holds in every state in which `magic_check` is evaluated. -/
structure Positioned (s : FingerprintingSettings) (data : List UInt8) (st : ChunkState) :
    Prop where
  split : st.curStartInd + st.remainBytes = data.length
  min_le : s.minSize ≤ st.curSize
  size_le : st.curSize ≤ st.remainBytes
  fresh : st.curSize = s.minSize → low s.rabinMBits.toNat st.curRabin =
    lowHash s data (st.curStartInd + s.minSize - 1 - s.window)

theorem Positioned.cut (hm : s.rabinMBits < 64) {st st' : ChunkState}
    (hpos : Positioned s data st) (hcut : cut sha256 s data st = some st')
    (hmore : 0 < st'.remainBytes) : Positioned s data st' := by
  have hsplit := hpos.split
  unfold Chunking.cut at hcut
  obtain ⟨digest, -, hcut⟩ := Option.bind_eq_some_iff.mp hcut
  simp only at hcut
  split_ifs at hcut with hleft
  · obtain ⟨window, hwindow, hcut⟩ := Option.bind_eq_some_iff.mp hcut
    obtain rfl := Option.some_inj.mp hcut
    obtain ⟨-, hmin⟩ := cutSize_lt (s := s) (n := st.remainBytes) (c := st.curSize) (by omega)
    have hsize := cutSize_lt (s := s) (n := st.remainBytes) (c := st.curSize) (by omega)
    refine ⟨?_, Nat.le_refl _, ?_, fun _ => low_initRabin_window hm hwindow⟩
    · simp only
      omega
    · simp only
      omega
  · obtain rfl := Option.some_inj.mp hcut
    exact absurd hmore hleft

/-- What the roll branch does to the hash. -/
theorem roll_hash {st st' : ChunkState} (hroll : roll s data st = some st') :
    ∃ b evicted, data[st.curStartInd + st.curSize]? = some b ∧
      st.window[st.windowSlot]? = some evicted ∧
      st' = { st with
        curRabin := ((st.curRabin - s.rabinTable evicted) * s.rabinP + b.toUInt64) &&& s.rabinMask
        window := st.window.set st.windowSlot b
        windowSlot := (st.windowSlot + 1) % s.window
        curSize := st.curSize + 1 } := by
  obtain ⟨b, hb, hroll⟩ := Option.bind_eq_some_iff.mp hroll
  obtain ⟨evicted, hevicted, hroll⟩ := Option.bind_eq_some_iff.mp hroll
  exact ⟨b, evicted, hb, hevicted, (Option.some_inj.mp hroll).symm⟩

theorem Positioned.roll {st st' : ChunkState} (hpos : Positioned s data st)
    (hcut : atCut s st = false) (hroll : roll s data st = some st') : Positioned s data st' := by
  obtain ⟨b, evicted, -, -, rfl⟩ := roll_hash hroll
  have hmin := hpos.min_le
  have hlt : st.curSize < st.remainBytes := by
    simp only [atCut, Bool.or_eq_false_iff, decide_eq_false_iff_not] at hcut
    omega
  constructor
  · exact hpos.split
  · exact Nat.le_succ_of_le hmin
  · exact hlt
  · intro hsize
    simp only at hsize
    omega

theorem Evaluated.positioned (hm : s.rabinMBits < 64) {st : ChunkState}
    (h : Evaluated sha256 s data st) : Positioned s data st := by
  induction h with
  | first hlen hwindow =>
      refine ⟨Nat.zero_add _, Nat.le_refl _, Nat.le_of_lt hlen, fun _ => ?_⟩
      exact (low_and_lowMask hm _).trans (low_initRabin_window hm hwindow)
  | @next st st' _ hbody hmore ih =>
      unfold loopBody at hbody
      split_ifs at hbody with hcut
      · exact ih.cut hm hbody hmore
      · exact ih.roll (by simpa using hcut) hbody

/-- What a byte contributes when it leaves the window. -/
theorem low_rabinTable (hs : s.Ordered) (hm : s.rabinMBits < 64)
    (htable : s.rabinTable = genRabinTable s.rabinP s.window) (b : UInt8) :
    low s.rabinMBits.toNat (s.rabinTable b * s.rabinP) =
      (b.toNat : ZMod (2 ^ s.rabinMBits.toNat)) * low _ s.rabinP ^ s.window := by
  have hle := rabinMBits_le hm
  have hpow (n : Nat) : low s.rabinMBits.toNat (Nat.repeat (· * s.rabinP) n 1) =
      low _ s.rabinP ^ n := by
    induction n with
    | zero => exact low_one.trans (pow_zero _).symm
    | succ n ih => rw [Nat.repeat, low_mul hle, ih, pow_succ]
  have hw := hs.window_pos
  rw [htable, genRabinTable, pWindowBytes, low_mul hle, low_mul hle, hpow, mul_assoc, ← pow_succ,
    Nat.sub_add_cancel hw]
  rfl

/-- At the start of a chunk the hash is the plain one when the early window
has the hash of the right one. -/
theorem hashesWindow_start {st : ChunkState} (hpos : Positioned s data st)
    (hsize : st.curSize = s.minSize) : HashesWindow s data st ↔
      plainHash s data (st.curStartInd + st.curSize - 1) ≡
        plainHash s data (st.curStartInd + st.curSize) [MOD 2 ^ s.rabinMBits.toNat] := by
  rw [hashesWindow_iff, hpos.fresh hsize, ← ZMod.natCast_eq_natCast_iff, plainHash_cast,
    plainHash_cast, hsize]

/-- Rolling keeps the plain hash when the bytes given up contribute equally. -/
theorem hashesWindow_roll (hs : s.Ordered) (hm : s.rabinMBits < 64)
    (htable : s.rabinTable = genRabinTable s.rabinP s.window) {st st' : ChunkState}
    (hpos : Positioned s data st) (hroll : roll s data st = some st')
    (hst : HashesWindow s data st) : HashesWindow s data st' ↔
      ∀ evicted, st.window[st.windowSlot]? = some evicted →
        Word.Congr s.rabinMBits.toNat (s.rabinTable evicted * s.rabinP)
          (s.rabinTable (data.getD (st.curStartInd + st.curSize - s.window) 0) * s.rabinP) := by
  have hle := rabinMBits_le hm
  obtain ⟨b, evicted, hb, hevicted, rfl⟩ := roll_hash hroll
  have hwin := hs.window_lt_min
  have hmin := hpos.min_le
  obtain ⟨i, hi⟩ : ∃ i, st.curStartInd + st.curSize = i + s.window :=
    ⟨st.curStartInd + st.curSize - s.window, by omega⟩
  have hbyte : byteAt data (i + s.window) = b.toNat := by
    rw [byteAt, List.getD_eq_getElem?_getD, ← hi, hb]
    rfl
  have hnext := roll_eq_iff (low s.rabinMBits.toNat s.rabinP) s.window
    (fun j => (byteAt data j : ZMod (2 ^ s.rabinMBits.toNat))) i
    (low _ (s.rabinTable evicted * s.rabinP))
  rw [hbyte] at hnext
  have hrabin : low s.rabinMBits.toNat
      (((st.curRabin - s.rabinTable evicted) * s.rabinP + b.toUInt64) &&& s.rabinMask) =
        low _ st.curRabin * low _ s.rabinP - low _ (s.rabinTable evicted * s.rabinP) +
          (b.toNat : ZMod (2 ^ s.rabinMBits.toNat)) := by
    rw [FingerprintingSettings.rabinMask, low_and_lowMask hm, low_add hle, low_mul hle,
      low_sub hle, sub_mul, low_mul hle (s.rabinTable evicted)]
    rfl
  rw [hashesWindow_iff, hi, Nat.add_sub_cancel] at hst
  rw [hashesWindow_iff, hi, Nat.add_sub_cancel]
  simp only [hevicted, Option.some_inj, forall_eq']
  rw [← low_eq_iff, low_rabinTable hs hm htable (data.getD i 0)]
  change low _ (_ &&& s.rabinMask) = _ ↔ _
  have hq : st.curStartInd + (st.curSize + 1) - s.window = i + 1 := by omega
  rw [hq, hrabin, hst]
  exact hnext

/-- In every evaluated state the rolling hash is the plain one exactly when
neither slip shows in any turn. -/
theorem rollingHash_iff (sha256 : List UInt8 → Digest) (s : FingerprintingSettings)
    (data : List UInt8) (hs : s.Ordered) (hm : s.rabinMBits < 64)
    (htable : s.rabinTable = genRabinTable s.rabinP s.window) :
    (∀ st, Evaluated sha256 s data st → HashesWindow s data st) ↔
      ∀ st, Evaluated sha256 s data st → InStep s data st := by
  constructor
  · intro hall st hst
    have hpos := hst.positioned hm
    constructor
    · intro hsize
      exact (hashesWindow_start hpos hsize).mp (hall st hst)
    · intro hcut evicted hevicted
      have hlt : st.curSize < st.remainBytes := by
        simp only [atCut, Bool.or_eq_false_iff, decide_eq_false_iff_not] at hcut
        omega
      have hsplit := hpos.split
      have hb : data[st.curStartInd + st.curSize]? =
          some (data.get ⟨st.curStartInd + st.curSize, by omega⟩) :=
        List.getElem?_eq_getElem _
      have hroll : ∃ st', roll s data st = some st' ∧ st'.remainBytes = st.remainBytes := by
        simp only [roll, hb, hevicted, Option.bind_eq_bind, Option.bind_some]
        exact ⟨_, rfl, rfl⟩
      obtain ⟨st', hroll, hremain⟩ := hroll
      have hbody : loopBody sha256 s data st = some st' := by
        rw [loopBody, hcut]
        exact hroll
      have hst' := hall st' (hst.next hbody (by omega))
      exact (hashesWindow_roll hs hm htable hpos hroll (hall st hst)).mp hst' evicted hevicted
  · intro hstep st hst
    induction hst with
    | first hlen hwindow =>
        have hfirst : Evaluated sha256 s data _ := Evaluated.first hlen hwindow
        exact (hashesWindow_start (hfirst.positioned hm) rfl).mpr ((hstep _ hfirst).start rfl)
    | @next st st' h hbody hmore ih =>
        have hpos := h.positioned hm
        have hst' := h.next hbody hmore
        unfold loopBody at hbody
        split_ifs at hbody with hcut
        · have hsize : st'.curSize = s.minSize := by
            unfold cut at hbody
            obtain ⟨digest, -, hbody⟩ := Option.bind_eq_some_iff.mp hbody
            simp only at hbody
            split_ifs at hbody with hleft
            · obtain ⟨window, -, hbody⟩ := Option.bind_eq_some_iff.mp hbody
              obtain rfl := Option.some_inj.mp hbody
              rfl
            · obtain rfl := Option.some_inj.mp hbody
              exact absurd hmore hleft
          exact (hashesWindow_start (hst'.positioned hm) hsize).mpr ((hstep _ hst').start hsize)
        · exact (hashesWindow_roll hs hm htable hpos hbody ih).mpr
            ((hstep _ h).roll (by simpa using hcut))

section Shipped

theorem shipped_table : shippedSettings.rabinTable =
    genRabinTable shippedSettings.rabinP shippedSettings.window := rfl

theorem initWindowBytes_first (hlen : shippedSettings.minSize < data.length) :
    initWindowBytes shippedSettings data 0 = some ((data.drop 1983).take 64) := by
  rw [shipped_minSize] at hlen
  rw [initWindowBytes, if_pos (by rw [shipped_minSize, shipped_window]; omega)]
  rfl

/-- Zeros that reach the first candidate cut, where a set byte ends the window. -/
def lateByte : List UInt8 := List.replicate 2047 0 ++ [1, 0]

theorem lateByte_length : lateByte.length = 2049 := by
  simp only [lateByte, List.length_append, List.length_replicate, List.length_cons,
    List.length_nil]

theorem byteAt_lateByte {i : Nat} (hi : i < 2047) : byteAt lateByte i = 0 := by
  rw [byteAt, lateByte, List.getD_append _ _ _ _ (by rwa [List.length_replicate]),
    List.getD_replicate _ hi]
  rfl

theorem byteAt_lateByte_last : byteAt lateByte 2047 = 1 := by
  rw [byteAt, lateByte, List.getD_append_right _ _ _ _ (by rw [List.length_replicate]),
    List.length_replicate]
  rfl

/-- The hash of the first candidate cut misses the byte right before it. -/
theorem rollingHash_fails :
    shippedSettings.Ordered ∧ shippedSettings.rabinMBits < 64 ∧
    shippedSettings.rabinTable = genRabinTable shippedSettings.rabinP shippedSettings.window ∧
    shippedSettings.minSize < lateByte.length ∧
    ∀ sha256 : List UInt8 → Digest, ∃ st, Evaluated sha256 shippedSettings lateByte st ∧
      ¬ HashesWindow shippedSettings lateByte st := by
  have hlen : shippedSettings.minSize < lateByte.length := by
    rw [shipped_minSize, lateByte_length]
    omega
  refine ⟨shipped_ordered, shipped_rabinMBits_lt, shipped_table, hlen, fun sha256 => ?_⟩
  have hfirst : Evaluated sha256 shippedSettings lateByte _ :=
    Evaluated.first hlen (initWindowBytes_first hlen)
  refine ⟨_, hfirst, fun hhash => ?_⟩
  have hsame := (hashesWindow_start (hfirst.positioned shipped_rabinMBits_lt) rfl).mp hhash
  have hearly : plainHash shippedSettings lateByte 2047 = 0 := by
    apply hash_of_zeros
    intro j hj
    rw [shipped_window] at hj ⊢
    exact byteAt_lateByte (by omega)
  have hright : plainHash shippedSettings lateByte 2048 = 1 := by
    change hash shippedSettings.rabinP.toNat (63 + 1) (byteAt lateByte) 1984 = 1
    rw [hash_snoc, byteAt_lateByte_last, hash_of_zeros, Nat.zero_mul, Nat.zero_add]
    intro j hj
    exact byteAt_lateByte (by omega)
  change plainHash shippedSettings lateByte 2047 ≡ plainHash shippedSettings lateByte 2048
    [MOD 2 ^ 60] at hsame
  rw [hearly, hright] at hsame
  exact absurd hsame (by decide)

/-- Sevens that fill the first window and the byte after it, and then `tail`. -/
def sevens (tail : List UInt8) : List UInt8 :=
  List.replicate 1983 0 ++ (List.replicate 65 7 ++ tail)

theorem sevens_length (tail : List UInt8) : (sevens tail).length = 2048 + tail.length := by
  simp only [sevens, List.length_append, List.length_replicate]
  omega

theorem sevens_getD (tail : List UInt8) {i : Nat} (h : 1983 ≤ i) (hi : i < 2048) :
    (sevens tail).getD i 0 = 7 := by
  rw [sevens, List.getD_append_right _ _ _ _ (by rwa [List.length_replicate]),
    List.length_replicate, List.getD_append _ _ _ _ (by rw [List.length_replicate]; omega),
    List.getD_replicate _ (by omega)]

theorem sevens_window (tail : List UInt8) :
    ((sevens tail).drop 1983).take 64 = List.replicate 64 7 := by
  rw [sevens, List.drop_left' List.length_replicate,
    List.take_append_of_le_length (by rw [List.length_replicate]; omega), List.take_replicate]
  rfl

/-- As long as the tail is shorter than the window, the ring gives up sevens. -/
structure GivesSevens (tail : List UInt8) (st : ChunkState) : Prop where
  start : st.curStartInd = 0
  remain : st.remainBytes = 2048 + tail.length
  size : 2048 ≤ st.curSize
  slot : st.windowSlot = (st.curSize - 2048) % 64
  window : ∀ i, st.curSize - 2048 ≤ i → i < 64 → st.window[i]? = some 7

theorem Evaluated.givesSevens {tail : List UInt8} (htail : tail.length < 64) {st : ChunkState}
    (h : Evaluated sha256 shippedSettings (sevens tail) st) : GivesSevens tail st := by
  induction h with
  | first hlen hwindow =>
      rw [initWindowBytes_first hlen, sevens_window, Option.some_inj] at hwindow
      subst hwindow
      refine ⟨rfl, sevens_length tail, Nat.le_refl _, ?_, fun i _ hi => ?_⟩
      · simp only [firstState, shipped_minSize]
      · rw [firstState, List.getElem?_replicate, if_pos hi]
  | @next st st' h hbody hmore ih =>
      have hpos := h.positioned shipped_rabinMBits_lt
      obtain ⟨hstart, hremain, hsize, hslot, hwindow⟩ := ih
      unfold loopBody at hbody
      split_ifs at hbody with hcut
      · -- every cut takes all that is left
        have hall : cutSize shippedSettings st.remainBytes st.curSize = st.remainBytes :=
          cutSize_merged (c := st.curSize) (by rw [shipped_minSize]; omega) (Nat.le_refl _)
        rw [cut_last (by rw [hstart, hremain, sevens_length, Nat.zero_add]) hall,
          Option.some_inj] at hbody
        subst hbody
        exact absurd hmore (Nat.lt_irrefl 0)
      · obtain ⟨b, evicted, -, -, rfl⟩ := roll_hash hbody
        have hle := (hpos.roll (by simpa using hcut) hbody).size_le
        simp only at hle
        refine ⟨hstart, hremain, Nat.le_succ_of_le hsize, ?_, fun i hi hlt => ?_⟩
        · simp only [hslot, shipped_window]
          omega
        · have hne : st.windowSlot ≠ i := by
            simp only at hi
            omega
          rw [List.getElem?_set_ne hne]
          exact hwindow i (Nat.le_trans (Nat.sub_le_sub_right (Nat.le_succ _) _) hi) hlt

/-- A window of sevens that moves on over sevens keeps its hash, and what
leaves it is a seven, so the bytes after it are hashed as the plain hash has it. -/
theorem rollingHash_iff_sevens :
    ∃ st, Evaluated (fun _ => zeroDigest) shippedSettings (sevens [3, 1, 4, 1, 5]) st ∧
      HashesWindow shippedSettings (sevens [3, 1, 4, 1, 5]) st := by
  have hlen : shippedSettings.minSize < (sevens [3, 1, 4, 1, 5]).length := by
    rw [shipped_minSize, sevens_length]
    exact Nat.lt_add_of_pos_right (Nat.zero_lt_succ 4)
  refine ⟨_, Evaluated.first hlen (initWindowBytes_first hlen), ?_⟩
  refine (rollingHash_iff (fun _ => zeroDigest) shippedSettings (sevens [3, 1, 4, 1, 5])
    shipped_ordered shipped_rabinMBits_lt shipped_table).mpr (fun st h => ?_) _
    (Evaluated.first hlen (initWindowBytes_first hlen))
  obtain ⟨hstart, hremain, hsize, hslot, hwindow⟩ := h.givesSevens (by decide)
  refine ⟨fun hmin => ?_, fun hcut evicted hevicted => ?_⟩
  · rw [hstart, hmin, shipped_minSize]
    suffices h : plainHash shippedSettings (sevens [3, 1, 4, 1, 5]) (0 + 2048 - 1) =
        plainHash shippedSettings (sevens [3, 1, 4, 1, 5]) (0 + 2048) by
      rw [h]
    apply hash_congr
    intro j hj
    rw [shipped_window] at hj ⊢
    rw [byteAt, byteAt, sevens_getD _ (by omega) (by omega),
      sevens_getD _ (by omega) (by omega)]
  · have hlt : st.curSize < 2053 := by
      simp only [atCut, Bool.or_eq_false_iff, decide_eq_false_iff_not] at hcut
      simp only [List.length_cons, List.length_nil] at hremain
      omega
    rw [hwindow _ (by omega) (by omega), Option.some_inj] at hevicted
    rw [← hevicted, shipped_window, hstart, sevens_getD _ (by omega) (by omega)]
    exact Word.Congr.refl _ _

end Shipped

end NetDedup.Chunking

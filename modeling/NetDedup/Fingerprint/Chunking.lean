import NetDedup.Config
import NetDedup.Lib.Word

/-!
# Content-defined chunking

`gen_rabin_table`, `init_rabin` and `do_fingerprinting` of `fingerprint.c`.
The hash runs in wrapping 64-bit words. Offsets and sizes never exceed the
length of the buffer, so they are natural numbers. Every read of the buffer
and of the window is checked: `none` is a read outside them, or a loop that
has not ended within its iteration budget.
-/

namespace NetDedup.Chunking

/-- `Fingerprinting_Settings`. -/
structure FingerprintingSettings where
  fingerprintNumBytes : UInt8
  rabinP : UInt64
  rabinMBits : UInt8
  windowBytes : UInt8
  lowerBits : UInt8
  minChunkSizeBytes : UInt32
  maxChunkSizeBytes : UInt32
  magicVal : UInt8
  rabinTable : UInt8 → UInt64

/-- `Fingerprint`: the digest of one chunk and the size of the chunk. -/
structure Fingerprint where
  contentSize : Nat
  fingerprint : Digest
  deriving DecidableEq

/-- `p_window_bytes`: the loop multiplies by `rabin_p` once for each window
position after the first. -/
def pWindowBytes (rabinP : UInt64) (windowBytes : Nat) : UInt64 :=
  Nat.repeat (· * rabinP) (windowBytes - 1) 1

/-- `gen_rabin_table`: what a byte contributes when it leaves the window. -/
def genRabinTable (rabinP : UInt64) (windowBytes : Nat) : UInt8 → UInt64 :=
  fun i => i.toUInt64 * pWindowBytes rabinP windowBytes

/-- `save_fingerprinting_settings`. -/
def saveFingerprintingSettings (fingerprintNumBytes : UInt8) (rabinP : UInt64)
    (rabinMBits windowBytes lowerBits : UInt8)
    (minChunkSizeBytes maxChunkSizeBytes : UInt32) (magicVal : UInt8) :
    FingerprintingSettings where
  fingerprintNumBytes := fingerprintNumBytes
  rabinP := rabinP
  rabinMBits := rabinMBits
  windowBytes := windowBytes
  lowerBits := lowerBits
  minChunkSizeBytes := minChunkSizeBytes
  maxChunkSizeBytes := maxChunkSizeBytes
  magicVal := magicVal
  rabinTable := genRabinTable rabinP windowBytes.toNat

/-- The settings that `init_fingerprint_cache` saves. -/
def shippedSettings : FingerprintingSettings :=
  saveFingerprintingSettings (UInt8.ofNat fingerprintNumBytes) rabinP rabinMBits windowBytes
    lowerBits (UInt32.ofNat NetDedup.minChunkSizeBytes) (UInt32.ofNat NetDedup.maxChunkSizeBytes)
    magicVal

namespace FingerprintingSettings

variable (s : FingerprintingSettings)

def window : Nat := s.windowBytes.toNat
def minSize : Nat := s.minChunkSizeBytes.toNat
def maxSize : Nat := s.maxChunkSizeBytes.toNat

/-- `rabin_mask`. A shift by 64 or more takes its count modulo 64. -/
def rabinMask : UInt64 := Word.lowMask s.rabinMBits

/-- `magic_mask`. -/
def magicMask : UInt64 := Word.lowMask s.lowerBits

/-- The sizes a caller may combine: a non-empty window that fits before the
first candidate cut, and an ordered pair of chunk bounds. -/
structure Ordered : Prop where
  window_pos : 1 ≤ s.window
  window_lt_min : s.window < s.minSize
  min_le_max : s.minSize ≤ s.maxSize

end FingerprintingSettings

/-- `init_rabin`: one pass from the last window byte to the first, with the
power of `rabin_p` carried along. -/
def initRabin (rabinP rabinMask : UInt64) (window : List UInt8) : UInt64 :=
  (window.foldr (fun b (acc : UInt64 × UInt64) =>
    (acc.1 + ((b.toUInt64 * acc.2) &&& rabinMask), acc.2 * rabinP)) (0, 1)).1

/-- The local variables of the loop of `do_fingerprinting`. `fingerprints`
is the part of the two output arrays written so far. -/
structure ChunkState where
  curStartInd : Nat
  remainBytes : Nat
  curSize : Nat
  windowSlot : Nat
  window : List UInt8
  curRabin : UInt64
  fingerprints : List Fingerprint

section Loop

variable (sha256 : List UInt8 → Digest) (s : FingerprintingSettings) (data : List UInt8)

/-- `handle_sha` on `size` bytes from `startInd`. -/
def handleSha (startInd size : Nat) : Option Digest :=
  if startInd + size ≤ data.length then some (sha256 ((data.drop startInd).take size)) else none

/-- The `window_bytes` bytes from `data + startInd + min_chunk_size_bytes - 1
- window_bytes`, which `init_rabin` reads into the window. -/
def initWindowBytes (startInd : Nat) : Option (List UInt8) :=
  if s.window + 1 ≤ startInd + s.minSize ∧ startInd + s.minSize - 1 ≤ data.length then
    some ((data.drop (startInd + s.minSize - 1 - s.window)).take s.window)
  else none

/-- The condition of the cut branch. -/
def atCut (st : ChunkState) : Bool :=
  st.curRabin &&& s.magicMask == s.magicVal.toUInt64 ||
    decide (s.maxSize ≤ st.curSize) || decide (st.remainBytes ≤ st.curSize)

/-- The size of the chunk that ends at this cut: a remainder shorter than
the minimum is merged into it. -/
def cutSize (remainBytes curSize : Nat) : Nat :=
  if remainBytes ≤ curSize ∨ remainBytes - curSize < s.minSize then remainBytes else curSize

/-- The cut branch. The window and the hash restart on the next chunk;
`window_slot` is not touched, and the new hash is not masked. -/
def cut (st : ChunkState) : Option ChunkState := do
  let size := cutSize s st.remainBytes st.curSize
  let digest ← handleSha sha256 data st.curStartInd size
  let st := { st with
    fingerprints := st.fingerprints ++ [⟨size, digest⟩]
    curSize := size
    remainBytes := st.remainBytes - size
    curStartInd := st.curStartInd + size }
  if 0 < st.remainBytes then
    let window ← initWindowBytes s data st.curStartInd
    return { st with
      window := window
      curRabin := initRabin s.rabinP s.rabinMask window
      curSize := s.minSize }
  else
    return st

/-- The rest of the loop body: the window moves on by one byte. -/
def roll (st : ChunkState) : Option ChunkState := do
  let curDataByte ← data[st.curStartInd + st.curSize]?
  let evicted ← st.window[st.windowSlot]?
  let rabinDiff := st.curRabin - s.rabinTable evicted
  return { st with
    curRabin := (rabinDiff * s.rabinP + curDataByte.toUInt64) &&& s.rabinMask
    window := st.window.set st.windowSlot curDataByte
    windowSlot := (st.windowSlot + 1) % s.window
    curSize := st.curSize + 1 }

/-- `while (remain_bytes > 0)` with at most `fuel` tests of its condition. -/
def chunkLoop : Nat → ChunkState → Option ChunkState
  | 0, _ => none
  | fuel + 1, st =>
      if st.remainBytes = 0 then some st
      else (if atCut s st then cut sha256 s data st else roll s data st).bind (chunkLoop fuel)

/-- `do_fingerprinting`: the digests and sizes it writes, in order. Every
iteration consumes a byte or closes a chunk, which the budget allows for. -/
def doFingerprinting : Option (List Fingerprint) :=
  if data.length ≤ s.minSize then
    (handleSha sha256 data 0 data.length).map fun digest => [⟨data.length, digest⟩]
  else do
    let window ← initWindowBytes s data 0
    let final ← chunkLoop sha256 s data (2 * data.length + 2)
      { curStartInd := 0
        remainBytes := data.length
        curSize := s.minSize
        windowSlot := 0
        window := window
        curRabin := initRabin s.rabinP s.rabinMask window &&& s.rabinMask
        fingerprints := [] }
    return final.fingerprints

end Loop

end NetDedup.Chunking

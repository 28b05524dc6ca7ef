import Mathlib.Data.Vector.Defs
import Mathlib.Tactic.NormNum

/-!
# Build-time constants

The values of `config.h` that the modelled functions read. Sizes are natural
numbers; the fields that hold them keep the widths of the C structures.
-/

namespace NetDedup

/-- `MAX_FINGERPRINTS_PER_REQ`: entries of every per-request fingerprint array. -/
def maxFingerprintsPerReq : Nat := 2 ^ 12

/-- `FINGERPRINT_CACHE_NUM_BYTES`: thirty gigabytes of page contents. -/
def fingerprintCacheNumBytes : Nat := 30 * 2 ^ 30

/-- `FINGERPRINT_CACHE_PAGE_SIZE`. -/
def fingerprintCachePageSize : Nat := 2 ^ 12

/-- `FINGERPRINT_CACHE_NUM_PAGES`. -/
def fingerprintCacheNumPages : Nat := fingerprintCacheNumBytes / fingerprintCachePageSize

/-- `FINGERPRINT_TABLE_SIZE`: slots of the open-addressing table. -/
def fingerprintTableSize : Nat := 2 ^ 30

/-- `FINGERPRINT_NUM_BYTES`: a SHA-256 digest. -/
def fingerprintNumBytes : Nat := 32

def rabinP : UInt64 := 1048583
def rabinMBits : UInt8 := 60
def windowBytes : UInt8 := 64
def lowerBits : UInt8 := 13
def magicVal : UInt8 := 0

/-- `MIN_CHUNK_SIZE_BYTES`. -/
def minChunkSizeBytes : Nat := 2 ^ 11

/-- `MAX_CHUNK_SIZE_BYTES`. -/
def maxChunkSizeBytes : Nat := 2 ^ 16

/-- `FINGERPRINT_CONTENT_MAX_PAGES`: full pages of a maximal chunk plus the
two pages of slack for the tail merge. -/
def fingerprintContentMaxPages : Nat := maxChunkSizeBytes / fingerprintCachePageSize + 2

/-- `FINGERPRINT_MSG_SIZE_THRESHOLD`: longer messages take the fingerprint path. -/
def fingerprintMsgSizeThreshold : Nat := 5 * minChunkSizeBytes

/-- `MY_CEIL(a, b)`. -/
def myCeil (a b : Nat) : Nat := (a + b - 1) / b

/-- The 32 key bytes of a table item, and the output of `SHA256_Final`. -/
abbrev Digest := Vector UInt8 fingerprintNumBytes

/-- The key of a zeroed table item. -/
def zeroDigest : Digest := Vector.replicate fingerprintNumBytes 0

@[simp] theorem fingerprintCachePageSize_pos : 0 < fingerprintCachePageSize := by
  decide

@[simp] theorem fingerprintCacheNumPages_pos : 0 < fingerprintCacheNumPages := by
  decide

@[simp] theorem fingerprintTableSize_pos : 0 < fingerprintTableSize := by
  decide

theorem fingerprintContentMaxPages_eq : fingerprintContentMaxPages = 18 := by
  decide

theorem numPages_lt_tableSize : fingerprintCacheNumPages < fingerprintTableSize := by
  decide

end NetDedup

import NetDedup.Fingerprint.Chunking
import NetDedup.Lib.Memory
import NetDedup.Store.FingerprintTable

/-!
# The fingerprint cache

`fingerprint_cache.c`: contents live in fixed-size pages handed out from a
ring of free pages, and the table maps a digest to the pages of its content.
`none` is an access outside `content_page_nums`, the page memory or the
readable content. The shared lock belongs to the callers.
-/

namespace NetDedup.Store

open Chunking Memory

/-- `Fingerprint_Cache_Stats`, 64-bit counters. -/
structure FingerprintCacheStats where
  totalRecvBytes : Nat
  populatedFromCacheBytes : Nat
  totalFingerprints : Nat
  totalFoundFingerprints : Nat
  deriving DecidableEq

/-- `Fingerprint_Cache`. -/
structure FingerprintCache where
  fingerprintingSettings : FingerprintingSettings
  stats : FingerprintCacheStats
  table : FingerprintTable
  capacityBytes : Nat
  cache : Mem
  numFreePages : Nat
  freePages : Nat → Nat
  freePagesReadInd : Nat
  freePagesWriteInd : Nat

/-- `init_fingerprint_cache`. -/
def initFingerprintCache (initCache : FingerprintCache) : FingerprintCache where
  fingerprintingSettings := shippedSettings
  stats := ⟨0, 0, 0, 0⟩
  table := initFingerprintTable initCache.table
  capacityBytes := fingerprintCacheNumBytes
  cache := initCache.cache
  numFreePages := fingerprintCacheNumPages
  freePages := fun i => if i < fingerprintCacheNumPages then i else initCache.freePages i
  freePagesReadInd := 0
  freePagesWriteInd := 0

/-- The loop of `get_free_cache_pages` from page `i` on. -/
def takePages (freePages : Nat → Nat) : Nat → Nat → Nat →
    Vector Nat fingerprintContentMaxPages → Vector Nat fingerprintContentMaxPages × Nat
  | 0, _, curFreePageInd, retPages => (retPages, curFreePageInd)
  | n + 1, i, curFreePageInd, retPages =>
      takePages freePages n (i + 1) ((curFreePageInd + 1) % fingerprintCacheNumPages)
        (retPages.setIfInBounds i (freePages curFreePageInd))

/-- `get_free_cache_pages`. A negative `num_pages` compares as a large unsigned
number, so the 32 low bits of the page count say it all. -/
def getFreeCachePages (cache : FingerprintCache) (numPages : Nat)
    (retPages : Vector Nat fingerprintContentMaxPages) :
    Int × FingerprintCache × Vector Nat fingerprintContentMaxPages :=
  if fingerprintContentMaxPages < numPages ∨ cache.numFreePages < numPages then
    (-1, cache, retPages)
  else
    let (retPages, curFreePageInd) :=
      takePages cache.freePages numPages 0 cache.freePagesReadInd retPages
    (0, { cache with
      numFreePages := cache.numFreePages - numPages
      freePagesReadInd := curFreePageInd }, retPages)

/-- `MY_CEIL(content_size, FINGERPRINT_CACHE_PAGE_SIZE)` in 64 bits. -/
def contentNumPages (contentSize : Nat) : Nat :=
  (contentSize + fingerprintCachePageSize - 1) % 2 ^ 64 / fingerprintCachePageSize

/-- `content_num_pages - 1` in 64 bits, the number of full-page copies. -/
def contentFullPages (contentSize : Nat) : Nat :=
  (contentNumPages contentSize + (2 ^ 64 - 1)) % 2 ^ 64

/-- Bytes of the last page of a content. -/
def lastPageBytes (contentSize : Nat) : Nat :=
  if contentSize % fingerprintCachePageSize = 0 then fingerprintCachePageSize
  else contentSize % fingerprintCachePageSize

/-- The address of a page of the cache memory, none when it is no page of it. -/
def cachePageLoc (pageNums : Vector Nat fingerprintContentMaxPages) (i : Nat) : Option Nat := do
  let cachePageNum ← pageNums[i]?
  if cachePageNum < fingerprintCacheNumPages then
    some (cachePageNum * fingerprintCachePageSize)
  else none

/-- `memcpy` of `n` bytes of `content` from `offset` on to `loc`. -/
def copyIn (cache : Mem) (loc : Nat) (content : List UInt8) (offset n : Nat) : Option Mem :=
  if offset + n ≤ content.length then some (write cache loc ((content.drop offset).take n))
  else none

/-- The loop of `insert_fingerprint_cache` over the full pages, from page `i` on. -/
def copyPagesIn (pageNums : Vector Nat fingerprintContentMaxPages) (content : List UInt8) :
    Nat → Nat → Mem → Option Mem
  | 0, _, cache => some cache
  | n + 1, i, cache => do
      let loc ← cachePageLoc pageNums i
      let cache ← copyIn cache loc content (i * fingerprintCachePageSize) fingerprintCachePageSize
      copyPagesIn pageNums content n (i + 1) cache

/-- `insert_fingerprint_cache`. -/
def insertFingerprintCache (cache : FingerprintCache) (newFingerprint : Fingerprint)
    (content : List UInt8) (retEntry : FingerprintEntry) :
    Option (Int × FingerprintCache × FingerprintEntry) :=
  let contentSize := newFingerprint.contentSize
  let numPages := contentNumPages contentSize
  match getFreeCachePages cache (numPages % 2 ^ 32) retEntry.contentPageNums with
  | (0, cache, pageNums) => do
      let fullPages := contentFullPages contentSize
      let pages ← copyPagesIn pageNums content fullPages 0 cache.cache
      let loc ← cachePageLoc pageNums fullPages
      let pages ← copyIn pages loc content (fullPages * fingerprintCachePageSize)
        (lastPageBytes contentSize)
      some (0, { cache with cache := pages }, ⟨contentSize, pageNums⟩)
  | (_, cache, pageNums) => some (-1, cache, { retEntry with contentPageNums := pageNums })

/-- `insert_fingerprint`. A null `ret_entry` stands for a zeroed local entry. -/
def insertFingerprint (cache : FingerprintCache) (newFingerprint : Fingerprint)
    (content : List UInt8) (retEntry : Option FingerprintEntry) :
    Option (Int × FingerprintCache × FingerprintEntry) :=
  let entryRef := retEntry.getD zeroEntry
  match insertFingerprintCache cache newFingerprint content entryRef with
  | none => none
  | some (0, cache, entryRef) =>
      let (result, entryRef) :=
        findFingerprintTable cache.table newFingerprint.fingerprint entryRef
      if result = fingerprintTableSize then
        let (ret, table) := insertFingerprintTable cache.table newFingerprint.fingerprint entryRef
        if ret = 0 then some (0, { cache with table := table }, entryRef)
        else some (-1, { cache with table := table }, entryRef)
      else some (0, cache, entryRef)
  | some (_, cache, entryRef) => some (-1, cache, entryRef)

/-- `lookup_fingerprint`. -/
def lookupFingerprint (cache : FingerprintCache) (fingerprint : Digest)
    (retEntry : FingerprintEntry) : Int × FingerprintEntry :=
  let (ret, retEntry) := findFingerprintTable cache.table fingerprint retEntry
  (if ret < fingerprintTableSize then 1 else 0, retEntry)

/-- The loop of `copy_fingerprint_content` over the full pages, from page `i` on. -/
def copyPagesOut (pageNums : Vector Nat fingerprintContentMaxPages) (cache : Mem) :
    Nat → Nat → Option (List UInt8)
  | 0, _ => some []
  | n + 1, i => do
      let loc ← cachePageLoc pageNums i
      let rest ← copyPagesOut pageNums cache n (i + 1)
      some (read cache loc fingerprintCachePageSize ++ rest)

/-- `copy_fingerprint_content`: the bytes written from `dest_buffer` on. -/
def copyFingerprintContent (cache : FingerprintCache) (entry : FingerprintEntry) :
    Option (List UInt8) := do
  let fullPages := contentFullPages entry.contentSize
  let full ← copyPagesOut entry.contentPageNums cache.cache fullPages 0
  let loc ← cachePageLoc entry.contentPageNums fullPages
  some (full ++ read cache.cache loc (lastPageBytes entry.contentSize))

end NetDedup.Store

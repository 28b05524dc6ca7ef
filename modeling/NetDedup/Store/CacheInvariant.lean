import NetDedup.Store.FingerprintCache

/-!
# The invariant of the fingerprint cache

Pages are handed out in increasing order and never handed back, so a stored
content is one contiguous block of the page memory. The invariant places the
block of every entry below the pages still free, and apart from the others.
-/

namespace NetDedup.Store

open Chunking Memory

/-- The largest content the cache takes. -/
def maxContentSize : Nat := fingerprintContentMaxPages * fingerprintCachePageSize

/-- Pages of a content. -/
def pagesOf (contentSize : Nat) : Nat := myCeil contentSize fingerprintCachePageSize

section Sizes

variable {n : Nat}

/-- A size from one byte to the largest content. -/
def Storable (contentSize : Nat) : Prop := 1 ≤ contentSize ∧ contentSize ≤ maxContentSize

instance (contentSize : Nat) : Decidable (Storable contentSize) :=
  inferInstanceAs (Decidable (_ ∧ _))

theorem Storable.pos_pages (h : Storable n) : 1 ≤ pagesOf n := by
  obtain ⟨hpos, -⟩ := h
  unfold pagesOf myCeil fingerprintCachePageSize
  omega

theorem Storable.pages_le (h : Storable n) : pagesOf n ≤ fingerprintContentMaxPages := by
  obtain ⟨-, hle⟩ := h
  rw [maxContentSize, fingerprintContentMaxPages_eq, fingerprintCachePageSize] at hle
  rw [pagesOf, myCeil, fingerprintContentMaxPages_eq, fingerprintCachePageSize]
  omega

theorem Storable.contentNumPages_eq (h : Storable n) : contentNumPages n = pagesOf n := by
  obtain ⟨-, hle⟩ := h
  rw [maxContentSize, fingerprintContentMaxPages_eq, fingerprintCachePageSize] at hle
  rw [contentNumPages, pagesOf, myCeil, fingerprintCachePageSize]
  omega

theorem Storable.contentFullPages_eq (h : Storable n) : contentFullPages n = pagesOf n - 1 := by
  have hpos := h.pos_pages
  have hle := h.pages_le
  rw [fingerprintContentMaxPages_eq] at hle
  rw [contentFullPages, h.contentNumPages_eq]
  omega

/-- The full pages and the last one make up the content. -/
theorem Storable.full_add_last (h : Storable n) :
    (pagesOf n - 1) * fingerprintCachePageSize + lastPageBytes n = n := by
  obtain ⟨hpos, -⟩ := h
  unfold pagesOf myCeil lastPageBytes fingerprintCachePageSize
  split <;> omega

end Sizes

section Pages

variable {pageNums : Vector Nat fingerprintContentMaxPages} {base n : Nat}

/-- The first `n` page numbers are consecutive from `base` on. -/
def Spans (pageNums : Vector Nat fingerprintContentMaxPages) (base n : Nat) : Prop :=
  ∀ i < n, pageNums[i]? = some (base + i)

theorem Spans.mono (h : Spans pageNums base n) {k : Nat} (hk : k ≤ n) : Spans pageNums base k :=
  fun i hi => h i (by omega)

theorem Spans.loc (h : Spans pageNums base n) (hroom : base + n ≤ fingerprintCacheNumPages)
    {i : Nat}
    (hi : i < n) : cachePageLoc pageNums i = some ((base + i) * fingerprintCachePageSize) := by
  rw [cachePageLoc, h i hi]
  exact if_pos (by omega)

/-- The page loop of `get_free_cache_pages` on a ring that was never refilled. -/
theorem takePages_spec {freePages : Nat → Nat}
    (hfree : ∀ i < fingerprintCacheNumPages, freePages i = i)
    (n : Nat) : ∀ (i : Nat) (retPages : Vector Nat fingerprintContentMaxPages),
      base + i + n ≤ fingerprintCacheNumPages → i + n ≤ fingerprintContentMaxPages →
      Spans retPages base i →
      ∃ pages, takePages freePages n i ((base + i) % fingerprintCacheNumPages) retPages =
          (pages, (base + i + n) % fingerprintCacheNumPages) ∧ Spans pages base (i + n) := by
  induction n with
  | zero => exact fun i retPages _ _ h => ⟨retPages, rfl, h⟩
  | succ n ih =>
      intro i retPages hroom hmax h
      have hcur : (base + i) % fingerprintCacheNumPages = base + i := Nat.mod_eq_of_lt (by omega)
      have hspans : Spans (retPages.setIfInBounds i (base + i)) base (i + 1) := by
        intro j hj
        rcases Nat.lt_or_eq_of_le (Nat.lt_succ_iff.mp hj) with hlt | rfl
        · rw [Vector.getElem?_setIfInBounds_ne (by omega)]
          exact h j hlt
        · exact Vector.getElem?_setIfInBounds_self_of_lt (by omega)
      obtain ⟨pages, heq, hpages⟩ := ih (i + 1) _ (by omega) (by omega) hspans
      refine ⟨pages, ?_, hpages.mono (by omega)⟩
      rw [takePages, hcur, hfree _ (by omega), Nat.add_assoc base i 1, heq,
        show base + (i + 1) + n = base + i + (n + 1) by omega]

/-- Copying full pages to a span writes one block. -/
theorem copyPagesIn_spec {content : List UInt8} (n : Nat) : ∀ (i : Nat) (cache : Mem),
    Spans pageNums base (i + n) → base + (i + n) ≤ fingerprintCacheNumPages →
    (i + n) * fingerprintCachePageSize ≤ content.length →
    copyPagesIn pageNums content n i cache =
      some (write cache ((base + i) * fingerprintCachePageSize)
        ((content.drop (i * fingerprintCachePageSize)).take (n * fingerprintCachePageSize))) := by
  induction n with
  | zero => intro i cache _ _ _; simp [copyPagesIn]
  | succ n ih =>
      intro i cache hspans hroom hlen
      have hstep : (i + 1) * fingerprintCachePageSize =
          i * fingerprintCachePageSize + fingerprintCachePageSize := Nat.succ_mul _ _
      have hmono : (i + 1) * fingerprintCachePageSize ≤ (i + (n + 1)) * fingerprintCachePageSize :=
        Nat.mul_le_mul_right _ (by omega)
      have hfirst : ((content.drop (i * fingerprintCachePageSize)).take
          fingerprintCachePageSize).length = fingerprintCachePageSize := by
        rw [List.length_take, List.length_drop]
        omega
      have hnext : (base + (i + 1)) * fingerprintCachePageSize =
          (base + i) * fingerprintCachePageSize +
              ((content.drop (i * fingerprintCachePageSize)).take
            fingerprintCachePageSize).length := by
        rw [hfirst, ← Nat.add_assoc, Nat.succ_mul]
      have hcopy (loc : Nat) : copyIn cache loc content (i * fingerprintCachePageSize)
          fingerprintCachePageSize = some (write cache loc
            ((content.drop (i * fingerprintCachePageSize)).take fingerprintCachePageSize)) :=
        if_pos (by omega)
      have hshift : i + 1 + n = i + (n + 1) := by omega
      have hrest := ih (i + 1) (write cache ((base + i) * fingerprintCachePageSize)
        ((content.drop (i * fingerprintCachePageSize)).take fingerprintCachePageSize))
        (hshift ▸ hspans) (hshift ▸ hroom) (hshift ▸ hlen)
      rw [hnext, write_append, hstep, ← List.drop_drop, ← List.take_add, Nat.add_comm _ (n * _),
        ← Nat.succ_mul] at hrest
      simp only [copyPagesIn, hspans.loc hroom (show i < i + (n + 1) by omega), hcopy,
        Option.bind_eq_bind, Option.bind_some]
      exact hrest

/-- Copying full pages from a span reads one block. -/
theorem copyPagesOut_spec (cache : Mem) (n : Nat) : ∀ i : Nat, Spans pageNums base (i + n) →
    base + (i + n) ≤ fingerprintCacheNumPages →
    copyPagesOut pageNums cache n i =
      some (read cache ((base + i) * fingerprintCachePageSize) (n * fingerprintCachePageSize)) := by
  induction n with
  | zero => intro i _ _; simp [copyPagesOut]
  | succ n ih =>
      intro i hspans hroom
      simp only [copyPagesOut, hspans.loc hroom (show i < i + (n + 1) by omega),
        Option.bind_eq_bind, Option.bind_some]
      have hshift : i + 1 + n = i + (n + 1) := by omega
      rw [ih (i + 1) (hshift ▸ hspans) (hshift ▸ hroom), Option.bind_some, Nat.succ_mul n,
        Nat.add_comm (n * _), read_add, ← Nat.add_assoc base i 1, Nat.succ_mul (base + i)]

end Pages

namespace FingerprintEntry

variable (e : FingerprintEntry)

/-- The first page of a stored content. -/
def base : Nat := (e.contentPageNums[0]?).getD 0

/-- Pages the entry takes. -/
def numPages : Nat := pagesOf e.contentSize

/-- The entry describes a contiguous block of pages below `limit`. -/
structure Placed (limit : Nat) : Prop where
  storable : Storable e.contentSize
  spans : Spans e.contentPageNums e.base e.numPages
  below : e.base + e.numPages ≤ limit

variable {e}

theorem base_eq {b n : Nat} (h : Spans e.contentPageNums b n) (hn : 1 ≤ n) : e.base = b := by
  rw [base, h 0 hn]
  rfl

theorem Placed.mono {limit limit' : Nat} (h : e.Placed limit) (hle : limit ≤ limit') :
    e.Placed limit' :=
  ⟨h.storable, h.spans, Nat.le_trans h.below hle⟩

/-- The block of a content ends before the pages above it. -/
theorem Placed.end_le {limit : Nat} (h : e.Placed limit) :
    e.base * fingerprintCachePageSize + e.contentSize ≤ limit * fingerprintCachePageSize := by
  have hlast : lastPageBytes e.contentSize ≤ fingerprintCachePageSize := by
    unfold lastPageBytes
    split
    · exact Nat.le_refl _
    · exact Nat.le_of_lt (Nat.mod_lt _ fingerprintCachePageSize_pos)
  have hsize := h.storable.full_add_last
  have hpos : 1 ≤ e.numPages := h.storable.pos_pages
  have hbelow := Nat.mul_le_mul_right fingerprintCachePageSize h.below
  have hpages : e.numPages * fingerprintCachePageSize =
      (e.numPages - 1) * fingerprintCachePageSize + fingerprintCachePageSize := by
    rw [← Nat.succ_mul, Nat.succ_eq_add_one, Nat.sub_add_cancel hpos]
  rw [Nat.add_mul, hpages] at hbelow
  unfold numPages at hbelow
  omega

/-- Copying a placed content reads its block. -/
theorem Placed.copy {cache : FingerprintCache} (h : e.Placed fingerprintCacheNumPages) :
    copyFingerprintContent cache e =
      some (read cache.cache (e.base * fingerprintCachePageSize) e.contentSize) := by
  have hpos := h.storable.pos_pages
  have hbelow := h.below
  unfold numPages at hbelow
  have hfull := copyPagesOut_spec cache.cache (pagesOf e.contentSize - 1) 0
    (h.spans.mono (show 0 + (pagesOf e.contentSize - 1) ≤ e.numPages by unfold numPages; omega))
    (by omega)
  have hloc := h.spans.loc (by unfold numPages; omega)
    (show pagesOf e.contentSize - 1 < e.numPages by unfold numPages; omega)
  have hread := read_add cache.cache (e.base * fingerprintCachePageSize)
    ((pagesOf e.contentSize - 1) * fingerprintCachePageSize) (lastPageBytes e.contentSize)
  rw [h.storable.full_add_last, ← Nat.add_mul] at hread
  simp only [copyFingerprintContent, h.storable.contentFullPages_eq, hfull, hloc,
    Option.bind_eq_bind, Option.bind_some, Nat.add_zero, hread]

end FingerprintEntry

namespace FingerprintCache

/-- Pages handed out so far. -/
def usedPages (c : FingerprintCache) : Nat := fingerprintCacheNumPages - c.numFreePages

/-- Two entries share no page. -/
def Apart (e e' : FingerprintEntry) : Prop :=
  e.base + e.numPages ≤ e'.base ∨ e'.base + e'.numPages ≤ e.base

/-- The invariant of the cache. -/
structure Ok (c : FingerprintCache) : Prop where
  table : c.table.Ok
  free_eq : ∀ i < fingerprintCacheNumPages, c.freePages i = i
  free_le : c.numFreePages ≤ fingerprintCacheNumPages
  read_eq : c.freePagesReadInd = c.usedPages % fingerprintCacheNumPages
  room : c.table.cnt + c.numFreePages ≤ fingerprintCacheNumPages
  placed : ∀ f e, c.table.Stores f e → e.Placed c.usedPages
  apart : ∀ f e f' e', c.table.Stores f e → c.table.Stores f' e' → f ≠ f' → Apart e e'

/-- The free pages are the last ones, in order. -/
structure Stocked (c : FingerprintCache) : Prop where
  free_eq : ∀ i < fingerprintCacheNumPages, c.freePages i = i
  free_le : c.numFreePages ≤ fingerprintCacheNumPages
  read_eq : c.freePagesReadInd = c.usedPages % fingerprintCacheNumPages

/-- The content stored under a digest. -/
def Yields (c : FingerprintCache) (f : Digest) (bs : List UInt8) : Prop :=
  ∃ e, c.table.Stores f e ∧ copyFingerprintContent c e = some bs

/-- The cache after `numPages` pages have been taken and `bs` written to them. -/
def take (c : FingerprintCache) (numPages : Nat) (bs : List UInt8) : FingerprintCache :=
  { c with
    numFreePages := c.numFreePages - numPages
    freePagesReadInd := (c.usedPages + numPages) % fingerprintCacheNumPages
    cache := write c.cache (c.usedPages * fingerprintCachePageSize) bs }

/-- The cache after a new content has been written and named in slot `p`. -/
def put (c : FingerprintCache) (p : Nat) (f : Digest) (e : FingerprintEntry) (bs : List UInt8) :
    FingerprintCache :=
  { c.take (pagesOf e.contentSize) bs with table := c.table.fill p f e }

theorem copy_put (c : FingerprintCache) (p : Nat) (f : Digest) (e : FingerprintEntry)
    (bs : List UInt8) (e' : FingerprintEntry) :
    copyFingerprintContent (c.put p f e bs) e' =
      copyFingerprintContent (c.take (pagesOf e.contentSize) bs) e' := rfl

namespace Stocked

variable {c : FingerprintCache}

theorem used_add_free (hfree : c.Stocked) :
    c.usedPages + c.numFreePages = fingerprintCacheNumPages :=
  Nat.sub_add_cancel hfree.free_le

/-- Taking the pages of a new content, whose block lies above all others. -/
theorem insertFingerprintCache_eq (hfree : c.Stocked) {fp : Fingerprint}
    (hsize : Storable fp.contentSize) {content : List UInt8} (hlen : fp.contentSize ≤ content.length)
    (hroom : pagesOf fp.contentSize ≤ c.numFreePages) (retEntry : FingerprintEntry) :
    ∃ entry : FingerprintEntry, entry.contentSize = fp.contentSize ∧ entry.base = c.usedPages ∧
      entry.Placed (c.usedPages + pagesOf fp.contentSize) ∧
      insertFingerprintCache c fp content retEntry =
        some (0, c.take (pagesOf fp.contentSize) (content.take fp.contentSize), entry) := by
  have hpos := hsize.pos_pages
  have hmax := hsize.pages_le
  have hused := hfree.used_add_free
  have hmod : pagesOf fp.contentSize % 2 ^ 32 = pagesOf fp.contentSize := by
    rw [fingerprintContentMaxPages_eq] at hmax
    omega
  obtain ⟨pages, htake, hspans⟩ := @takePages_spec c.usedPages _ hfree.free_eq
      (pagesOf fp.contentSize) 0 retEntry.contentPageNums (by omega) (by omega)
      (fun i hi => absurd hi (Nat.not_lt_zero i))
  rw [Nat.zero_add] at hspans
  rw [Nat.add_zero, ← hfree.read_eq] at htake
  have hbase : FingerprintEntry.base ⟨fp.contentSize, pages⟩ = c.usedPages :=
    FingerprintEntry.base_eq (e := ⟨fp.contentSize, pages⟩) hspans hpos
  have hfull := hsize.full_add_last
  have hin := @copyPagesIn_spec _ _ content (pagesOf fp.contentSize - 1) 0 c.cache
      (hspans.mono (by omega)) (by omega) (by rw [Nat.zero_add]; omega)
  have hloc := hspans.loc (by omega) (show pagesOf fp.contentSize - 1 < pagesOf fp.contentSize by
    omega)
  have hlast (m : Mem) (loc : Nat) : copyIn m loc content
      ((pagesOf fp.contentSize - 1) * fingerprintCachePageSize) (lastPageBytes fp.contentSize) =
        some (write m loc ((content.drop ((pagesOf fp.contentSize - 1) *
          fingerprintCachePageSize)).take (lastPageBytes fp.contentSize))) :=
    if_pos (by omega)
  refine ⟨⟨fp.contentSize, pages⟩, rfl, hbase, ⟨hsize, hbase ▸ hspans, ?_⟩, ?_⟩
  · exact Nat.le_of_eq (congrArg (· + _) hbase)
  · have hget : getFreeCachePages c (pagesOf fp.contentSize) retEntry.contentPageNums =
        (0, { c with
          numFreePages := c.numFreePages - pagesOf fp.contentSize
          freePagesReadInd := (c.usedPages + pagesOf fp.contentSize) % fingerprintCacheNumPages },
          pages) := by
      rw [getFreeCachePages, if_neg (by omega), htake]
    have hjoin := write_append (m := c.cache) (c.usedPages * fingerprintCachePageSize)
      (content.take ((pagesOf fp.contentSize - 1) * fingerprintCachePageSize))
      ((content.drop ((pagesOf fp.contentSize - 1) * fingerprintCachePageSize)).take
        (lastPageBytes fp.contentSize))
    rw [List.length_take_of_le (by omega), ← Nat.add_mul, ← List.take_add, hfull] at hjoin
    rw [Nat.add_zero, Nat.zero_mul, List.drop_zero] at hin
    simp only [insertFingerprintCache, hsize.contentNumPages_eq, hmod, hget,
      hsize.contentFullPages_eq, hin, hloc, hlast, hjoin, Option.bind_eq_bind, Option.bind_some]
    rfl

/-- Without enough free pages nothing is taken. -/
theorem insertFingerprintCache_full {fp : Fingerprint} (hsize : Storable fp.contentSize)
    (content : List UInt8) (hroom : c.numFreePages < pagesOf fp.contentSize)
    (retEntry : FingerprintEntry) :
    insertFingerprintCache c fp content retEntry = some (-1, c, retEntry) := by
  have hmax := hsize.pages_le
  have hmod : pagesOf fp.contentSize % 2 ^ 32 = pagesOf fp.contentSize := by
    rw [fingerprintContentMaxPages_eq] at hmax
    omega
  have hget : getFreeCachePages c (pagesOf fp.contentSize) retEntry.contentPageNums =
      (-1, c, retEntry.contentPageNums) := by
    rw [getFreeCachePages, if_pos (Or.inr hroom)]
  simp only [insertFingerprintCache, hsize.contentNumPages_eq, hmod, hget]

/-- Taking pages leaves the others in order. -/
theorem take (hfree : c.Stocked) {n : Nat} (hn : n ≤ c.numFreePages) (bs : List UInt8) :
    (c.take n bs).Stocked ∧ (c.take n bs).usedPages = c.usedPages + n := by
  have hused : (c.take n bs).usedPages = c.usedPages + n := by
    have h := hfree.used_add_free
    change fingerprintCacheNumPages - (c.numFreePages - n) = _
    omega
  refine ⟨⟨hfree.free_eq, Nat.le_trans (Nat.sub_le _ _) hfree.free_le, ?_⟩, hused⟩
  rw [hused]
  rfl

end Stocked

namespace Ok

variable {c : FingerprintCache}

theorem stocked (hok : c.Ok) : c.Stocked := ⟨hok.free_eq, hok.free_le, hok.read_eq⟩

theorem cnt_lt (hok : c.Ok) : c.table.cnt < fingerprintTableSize :=
  Nat.lt_of_le_of_lt (Nat.le_trans (Nat.le_add_right _ _) hok.room) numPages_lt_tableSize

theorem used_le : c.usedPages ≤ fingerprintCacheNumPages := Nat.sub_le _ _

theorem used_add_free (hok : c.Ok) : c.usedPages + c.numFreePages = fingerprintCacheNumPages :=
  hok.stocked.used_add_free

theorem placed_all (hok : c.Ok) {f : Digest} {e : FingerprintEntry} (h : c.table.Stores f e) :
    e.Placed fingerprintCacheNumPages :=
  (hok.placed f e h).mono used_le

/-- A pending block does not reach the blocks that are stored. -/
theorem copy_take (hok : c.Ok) {f : Digest} {e : FingerprintEntry} (h : c.table.Stores f e)
    (n : Nat)
    (bs : List UInt8) : copyFingerprintContent (c.take n bs) e = copyFingerprintContent c e := by
  rw [(hok.placed_all h).copy, (hok.placed_all h).copy]
  exact congrArg some (read_write_disjoint (Or.inl (hok.placed f e h).end_le))

/-- Taking pages keeps the invariant, whether an entry follows or not. -/
theorem take (hok : c.Ok) {n : Nat} (hn : n ≤ c.numFreePages) (bs : List UInt8) :
    (c.take n bs).Ok ∧ (c.take n bs).usedPages = c.usedPages + n := by
  obtain ⟨hfree, hused⟩ := hok.stocked.take hn bs
  have hroom := hok.room
  refine ⟨⟨hok.table, hfree.free_eq, hfree.free_le, hfree.read_eq, ?_, fun f e h => ?_,
    hok.apart⟩, hused⟩
  · change c.table.cnt + (c.numFreePages - n) ≤ _
    omega
  · rw [hused]
    exact (hok.placed f e h).mono (Nat.le_add_right _ _)

/-- The entries are too few for the search of an all-zero digest to reach the
end of the table. -/
theorem searchable (hok : c.Ok) (f : Digest) : c.table.Searchable f := by
  by_cases hf : f = zeroDigest
  · subst hf
    have hroom := hok.room
    have hind : hashInd zeroDigest + fingerprintCacheNumPages < fingerprintTableSize := by
      decide +kernel
    exact Or.inr (by omega)
  · exact Or.inl hf

/-- `lookup_fingerprint` on a stored digest. -/
theorem lookup_stored (hok : c.Ok) {f : Digest} {e : FingerprintEntry} (h : c.table.Stores f e)
    (retEntry : FingerprintEntry) : lookupFingerprint c f retEntry = (1, e) := by
  obtain ⟨i, hi, hfind⟩ := hok.table.find_stored hok.cnt_lt (hok.searchable f) h retEntry
  rw [lookupFingerprint, hfind]
  simp only [hi, if_true]

/-- `lookup_fingerprint` on any other digest. -/
theorem lookup_absent (hok : c.Ok) {f : Digest} (h : ∀ e, ¬ c.table.Stores f e)
    (retEntry : FingerprintEntry) : lookupFingerprint c f retEntry = (0, retEntry) := by
  rw [lookupFingerprint, hok.table.find_absent hok.cnt_lt (hok.searchable f) h retEntry]
  simp only [Nat.lt_irrefl, if_false]

end Ok

/-- What one `insert_fingerprint` call does. -/
inductive Inserted (c : FingerprintCache) (fp : Fingerprint) (content : List UInt8)
    (retEntry : Option FingerprintEntry) : Int → FingerprintCache → FingerprintEntry → Prop
  /-- Too few free pages: nothing happens. -/
  | full : c.numFreePages < pagesOf fp.contentSize →
      Inserted c fp content retEntry (-1) c (retEntry.getD zeroEntry)
  /-- The digest is stored: the pages are taken and written, but no entry names them. -/
  | duplicate (e : FingerprintEntry) : pagesOf fp.contentSize ≤ c.numFreePages →
      c.table.Stores fp.fingerprint e →
      Inserted c fp content retEntry 0
        (c.take (pagesOf fp.contentSize) (content.take fp.contentSize)) e
  /-- The digest is new: a free slot names the block above all others. -/
  | fresh (p : Nat) (e : FingerprintEntry) : pagesOf fp.contentSize ≤ c.numFreePages →
      (∀ e', ¬ c.table.Stores fp.fingerprint e') → p < fingerprintTableSize → ¬ c.table.Holds p →
      e.contentSize = fp.contentSize → e.base = c.usedPages →
      e.Placed (c.usedPages + pagesOf fp.contentSize) →
      (c.table.fill p fp.fingerprint e).Ok →
      Inserted c fp content retEntry 0 (c.put p fp.fingerprint e (content.take fp.contentSize)) e

/-- A call of `insert_fingerprint` that the callers can make. -/
structure Insertable (fp : Fingerprint) (content : List UInt8) : Prop where
  size : Storable fp.contentSize
  readable : fp.contentSize ≤ content.length

variable {c : FingerprintCache} {fp : Fingerprint} {content : List UInt8}

/-- `insert_fingerprint` never leaves its arrays and does one of three things. -/
theorem Ok.insertFingerprint_cases (hok : c.Ok) (hcall : Insertable fp content)
    (retEntry : Option FingerprintEntry) :
    ∃ r c' e, insertFingerprint c fp content retEntry = some (r, c', e) ∧
      Inserted c fp content retEntry r c' e := by
  rcases Nat.lt_or_ge c.numFreePages (pagesOf fp.contentSize) with hlt | hroom
  · refine ⟨_, _, _, ?_, .full hlt⟩
    rw [insertFingerprint, Stocked.insertFingerprintCache_full hcall.size content hlt]
    rfl
  · obtain ⟨entry, hesize, hbase, hplaced, hins⟩ := hok.stocked.insertFingerprintCache_eq hcall.size
      hcall.readable hroom (retEntry.getD zeroEntry)
    by_cases hstored : ∃ e, c.table.Stores fp.fingerprint e
    · obtain ⟨e, he⟩ := hstored
      obtain ⟨i, hi, hfind⟩ := hok.table.find_stored hok.cnt_lt (hok.searchable _) he entry
      refine ⟨_, _, _, ?_, .duplicate e hroom he⟩
      simp only [insertFingerprint, hins, FingerprintCache.take, hfind]
      rw [if_neg (Nat.ne_of_lt hi)]
    · have habsent := not_exists.mp hstored
      have hfind := hok.table.find_absent hok.cnt_lt (hok.searchable _) habsent entry
      obtain ⟨p, hp, hfree, hput, htable⟩ := hok.table.insert hok.cnt_lt habsent entry
      refine ⟨_, _, _, ?_, .fresh p entry hroom habsent hp hfree hesize hbase hplaced htable⟩
      rw [insertFingerprint, hins]
      simp only [FingerprintCache.take, hfind, if_true, hput, FingerprintCache.put, hesize]

/-- A content of too many pages is turned away. -/
theorem insertFingerprint_oversize (hsize : maxContentSize < fp.contentSize)
    (hlt : fp.contentSize < 2 ^ 32) (retEntry : Option FingerprintEntry) :
    ∃ e, insertFingerprint c fp content retEntry = some (-1, c, e) := by
  rw [maxContentSize, fingerprintContentMaxPages_eq, fingerprintCachePageSize] at hsize
  have hpages : fingerprintContentMaxPages < contentNumPages fp.contentSize % 2 ^ 32 := by
    rw [fingerprintContentMaxPages_eq, contentNumPages, fingerprintCachePageSize]
    omega
  have hget (pages : Vector Nat fingerprintContentMaxPages) :
      getFreeCachePages c (contentNumPages fp.contentSize % 2 ^ 32) pages = (-1, c, pages) := by
    rw [getFreeCachePages, if_pos (Or.inl hpages)]
  simp only [insertFingerprint, insertFingerprintCache, hget]
  exact ⟨_, rfl⟩

/-- A stored entry stays where it is, with its content. -/
theorem Inserted.keeps (hok : c.Ok) {retEntry : Option FingerprintEntry} {r : Int}
    {c' : FingerprintCache} {e : FingerprintEntry} (h : Inserted c fp content retEntry r c' e)
    {f : Digest} {e' : FingerprintEntry} (hstores : c.table.Stores f e') :
    c'.table.Stores f e' ∧ copyFingerprintContent c' e' = copyFingerprintContent c e' := by
  cases h with
  | full => exact ⟨hstores, rfl⟩
  | duplicate e hroom _ => exact ⟨hstores, hok.copy_take hstores _ _⟩
  | fresh p e hroom habsent hp hfree hesize hbase hplaced htable =>
      refine ⟨(FingerprintTable.stores_fill hp hfree f e').mpr (Or.inl hstores), ?_⟩
      exact (copy_put ..).trans (hok.copy_take hstores _ _)

theorem Inserted.settings_eq {retEntry : Option FingerprintEntry} {r : Int} {c' : FingerprintCache}
    {e : FingerprintEntry} (h : Inserted c fp content retEntry r c' e) :
    c'.fingerprintingSettings = c.fingerprintingSettings := by
  cases h <;> rfl

/-- One call keeps the invariant. -/
theorem Inserted.ok (hok : c.Ok) {retEntry : Option FingerprintEntry} {r : Int}
    {c' : FingerprintCache} {e : FingerprintEntry} (h : Inserted c fp content retEntry r c' e) :
    c'.Ok := by
  cases h with
  | full => exact hok
  | duplicate e hroom _ => exact (hok.take hroom _).1
  | fresh p e hroom habsent hp hfree hesize hbase hplaced htable =>
      rw [← hesize] at hroom hplaced
      obtain ⟨hok', hused⟩ := hok.take hroom (content.take fp.contentSize)
      have hstores := @FingerprintTable.stores_fill c.table p fp.fingerprint e hp hfree
      have hpages := hplaced.storable.pos_pages
      have hroom' := hok.room
      refine ⟨htable, hok'.free_eq, hok'.free_le, hok'.read_eq, ?_, fun f e' h => ?_,
        fun f e₁ f' e₂ h₁ h₂ hne => ?_⟩
      · change c.table.cnt + 1 + (c.numFreePages - pagesOf e.contentSize) ≤ _
        omega
      · change e'.Placed (c.take (pagesOf e.contentSize) (content.take fp.contentSize)).usedPages
        rw [hused]
        rcases (hstores f e').mp h with h | ⟨-, rfl⟩
        · exact (hok.placed f e' h).mono (Nat.le_add_right _ _)
        · exact hplaced
      · rcases (hstores f e₁).mp h₁ with old₁ | ⟨rfl, rfl⟩ <;>
          rcases (hstores f' e₂).mp h₂ with old₂ | ⟨rfl, rfl⟩
        · exact hok.apart f e₁ f' e₂ old₁ old₂ hne
        · exact Or.inl (hbase ▸ (hok.placed f e₁ old₁).below)
        · exact Or.inr (hbase ▸ (hok.placed f' e₂ old₂).below)
        · exact absurd rfl hne

/-- One call stores at most the content it was given, under a digest that had none. -/
theorem Inserted.yields (hok : c.Ok) (hcall : Insertable fp content)
    {retEntry : Option FingerprintEntry} {r : Int} {c' : FingerprintCache} {e : FingerprintEntry}
    (h : Inserted c fp content retEntry r c' e) (f : Digest) (bs : List UInt8) :
    c'.Yields f bs ↔ c.Yields f bs ∨
      (r = 0 ∧ f = fp.fingerprint ∧ bs = content.take fp.contentSize ∧
        ∀ bs', ¬ c.Yields fp.fingerprint bs') := by
  have hyields {f : Digest} {e : FingerprintEntry} (h : c.table.Stores f e) :
      c.Yields f (read c.cache (e.base * fingerprintCachePageSize) e.contentSize) :=
    ⟨e, h, (hok.placed_all h).copy⟩
  cases h with
  | full =>
      refine ⟨Or.inl, fun h => h.resolve_right fun h => ?_⟩
      exact absurd h.1 (by decide)
  | duplicate e hroom hstored =>
      constructor
      · rintro ⟨e', he', hcopy⟩
        exact Or.inl ⟨e', he', by rw [← hok.copy_take he', hcopy]⟩
      · rintro (⟨e', he', hcopy⟩ | ⟨-, -, -, hnone⟩)
        · exact ⟨e', he', by rw [hok.copy_take he', hcopy]⟩
        · exact absurd (hyields hstored) (hnone _)
  | fresh p e hroom habsent hp hfree hesize hbase hplaced htable =>
      have hstores := @FingerprintTable.stores_fill c.table p fp.fingerprint e hp hfree
      have hused := hok.used_add_free
      have hnew :
          copyFingerprintContent (c.put p fp.fingerprint e (content.take fp.contentSize)) e =
          some (content.take fp.contentSize) := by
        rw [(hplaced.mono (by omega)).copy, hbase, hesize]
        have hblock := read_write_self (m := c.cache) (c.usedPages * fingerprintCachePageSize)
          (content.take fp.contentSize)
        rw [List.length_take_of_le hcall.readable] at hblock
        exact congrArg some hblock
      have hold {f : Digest} {e' : FingerprintEntry} (h : c.table.Stores f e') :
          copyFingerprintContent (c.put p fp.fingerprint e (content.take fp.contentSize)) e' =
            copyFingerprintContent c e' :=
        (copy_put ..).trans (hok.copy_take h _ _)
      constructor
      · rintro ⟨e', he', hcopy⟩
        rcases (hstores f e').mp he' with h | ⟨rfl, rfl⟩
        · exact Or.inl ⟨e', h, (hold h).symm.trans hcopy⟩
        · refine Or.inr ⟨rfl, rfl, Option.some_inj.mp (hcopy.symm.trans hnew), ?_⟩
          rintro bs' ⟨e', he', -⟩
          exact habsent e' he'
      · rintro (⟨e', he', hcopy⟩ | ⟨-, rfl, rfl, -⟩)
        · exact ⟨e', (hstores f e').mpr (Or.inl he'), (hold he').trans hcopy⟩
        · exact ⟨e, (hstores _ e).mpr (Or.inr ⟨rfl, rfl⟩), hnew⟩

end FingerprintCache

end NetDedup.Store

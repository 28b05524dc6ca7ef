import Mathlib.Data.List.Range
import NetDedup.Store.FingerprintTable

/-!
# The empty-slot search

`get_next_ind_fingerprint_table` over an array of words, where a read outside
the array is an error, against the scan of the table slot by slot.
-/

namespace NetDedup.Store

open BitScan

/-- The loop of `get_next_ind_fingerprint_table` over an array; the outer
`none` is a read outside it. -/
def scanArray (words : Array UInt64) (w : Nat) : Nat → Nat → UInt64 → Option (Option Nat)
  | 0, _, _ => some none
  | fuel + 1, cur, search =>
      if search = 0 then
        (words[(cur + 1) % w]?).bind fun next => scanArray words w fuel (cur + 1) next
      else some (some (64 * (cur % w) + ctz search))

/-- `get_next_ind_fingerprint_table` over an array. -/
def getNextIndOfArray (words : Array UInt64) (tableSize startInd : Nat) : Option Nat :=
  if tableSize ≤ startInd then some tableSize
  else
    (words[startInd >>> 6]?).bind fun first =>
      (scanArray words bitVectorEls (bitVectorEls + 1) (startInd >>> 6)
        (maskFrom first (startInd &&& (0xFF >>> 2)))).map fun found => found.getD tableSize

/-- The words of an array as a function of the index. -/
def wordAt (words : Array UInt64) (i : Nat) : UInt64 := words.getD i 0

/-- Slot `i` is empty. -/
def isEmptySlot (words : Array UInt64) (i : Nat) : Bool := bit (wordAt words (i / 64)) (i % 64)

/-- The first empty slot of `n` in the order of a turn from `start`; `n` when none is empty. -/
def cyclicScan (words : Array UInt64) (n start : Nat) : Nat :=
  match (List.range n).find? fun t => isEmptySlot words ((start + t) % n) with
  | some t => (start + t) % n
  | none => n

variable {words : Array UInt64}

theorem getElem?_wordAt {i : Nat} (hi : i < words.size) : words[i]? = some (wordAt words i) := by
  rw [wordAt, Array.getD_eq_getD_getElem?, Array.getElem?_eq_getElem hi, Option.getD_some]

/-- The loop stays inside an array of `w` words. -/
theorem scanArray_eq {w : Nat} (hw : 0 < w) (hsize : words.size = w) (fuel : Nat) :
    ∀ cur search, scanArray words w fuel cur search =
      some (scanWords (wordAt words) w fuel cur search) := by
  induction fuel with
  | zero => exact fun _ _ => rfl
  | succ fuel ih =>
      intro cur search
      rw [scanArray, scanWords]
      split
      · rw [getElem?_wordAt (by rw [hsize]; exact Nat.mod_lt _ hw), Option.bind_some, ih]
      · rfl

/-- The search stays inside the vector. -/
theorem getNextIndOfArray_eq (hsize : words.size = bitVectorEls) {start : Nat}
    (hstart : start < fingerprintTableSize) :
    getNextIndOfArray words fingerprintTableSize start =
      some (getNextIndFingerprintTable (wordAt words) fingerprintTableSize start) := by
  have hword : start >>> 6 < words.size := by
    rw [Nat.shiftRight_eq_div_pow, hsize]
    rw [tableSize_eq_words] at hstart
    omega
  rw [getNextIndOfArray, getNextIndFingerprintTable, if_neg (by omega), if_neg (by omega),
    getElem?_wordAt hword, Option.bind_some, scanArray_eq bitVectorEls_pos hsize, Option.map_some]

theorem isEmptySlot_eq_false {i : Nat} : isEmptySlot words i = false ↔ Taken (wordAt words) i :=
  Iff.rfl

theorem cyclicScan_of_firstFree {n start t : Nat}
    (hfree : Probing.FirstFree n (Taken (wordAt words)) start t) :
    cyclicScan words n start = (start + t) % n := by
  have hempty := mt isEmptySlot_eq_false.mp hfree.free
  have hfind : (List.range n).find? (fun t => isEmptySlot words ((start + t) % n)) = some t := by
    rw [List.find?_range_eq_some]
    refine ⟨Bool.eq_true_of_not_eq_false hempty, List.mem_range.mpr hfree.lt, fun j hj => ?_⟩
    rw [isEmptySlot_eq_false.mpr (hfree.before j hj)]
    rfl
  rw [cyclicScan, hfind]

theorem cyclicScan_of_full {n : Nat} (hn : 0 < n) (hall : ∀ i < n, Taken (wordAt words) i)
    (start : Nat) : cyclicScan words n start = n := by
  have hfind : (List.range n).find? (fun t => isEmptySlot words ((start + t) % n)) = none := by
    rw [List.find?_eq_none]
    intro t _
    rw [isEmptySlot_eq_false.mpr (hall _ (Nat.mod_lt _ hn))]
    exact Bool.false_ne_true
  rw [cyclicScan, hfind]

/-- The word-level search finds what the scan finds. -/
theorem getNextInd_eq_cyclicScan {start : Nat} (hstart : start < fingerprintTableSize) :
    getNextIndFingerprintTable (wordAt words) fingerprintTableSize start =
      cyclicScan words fingerprintTableSize start := by
  rcases @getNextInd_spec (wordAt words) _ hstart with ⟨t, hfree, hnext⟩ | ⟨hall, hnext⟩
  · rw [hnext, cyclicScan_of_firstFree hfree]
  · rw [hnext, cyclicScan_of_full fingerprintTableSize_pos hall]

theorem getNextInd_eq_size_iff {start : Nat} (hstart : start < fingerprintTableSize) :
    getNextIndFingerprintTable (wordAt words) fingerprintTableSize start = fingerprintTableSize ↔
      ∀ i < fingerprintTableSize, isEmptySlot words i = false := by
  rcases @getNextInd_spec (wordAt words) _ hstart with ⟨t, hfree, hnext⟩ | ⟨hall, hnext⟩
  · have hlt := Nat.mod_lt (start + t) fingerprintTableSize_pos
    constructor
    · intro hsize
      exact absurd (hnext.symm.trans hsize) (Nat.ne_of_lt hlt)
    · intro hnone
      exact absurd (hnone _ hlt) hfree.free
  · exact ⟨fun _ => hall, fun _ => hnext⟩

/-- `get_next_ind_fingerprint_table` reads inside the vector, returns the first
empty slot of a turn from the start, and the table size when no slot is empty. -/
theorem getNextInd_exact (hsize : words.size = bitVectorEls) {start : Nat}
    (hstart : start < fingerprintTableSize) :
    getNextIndOfArray words fingerprintTableSize start =
        some (cyclicScan words fingerprintTableSize start) ∧
      (getNextIndOfArray words fingerprintTableSize start = some fingerprintTableSize ↔
        ∀ i < fingerprintTableSize, isEmptySlot words i = false) := by
  rw [getNextIndOfArray_eq hsize hstart, Option.some_inj, Option.some_inj]
  exact ⟨getNextInd_eq_cyclicScan hstart, getNextInd_eq_size_iff hstart⟩

/-- A full table, searched from its second slot. -/
theorem getNextInd_exact_full :
    getNextIndOfArray (Array.replicate bitVectorEls 0) fingerprintTableSize 1 =
        some (cyclicScan (Array.replicate bitVectorEls 0) fingerprintTableSize 1) ∧
      (getNextIndOfArray (Array.replicate bitVectorEls 0) fingerprintTableSize 1 =
          some fingerprintTableSize ↔
        ∀ i < fingerprintTableSize, isEmptySlot (Array.replicate bitVectorEls 0) i = false) :=
  getNextInd_exact Array.size_replicate (by decide)

end NetDedup.Store

import Mathlib.Data.List.Nodup
import NetDedup.Lib.Memory
import NetDedup.Store.FingerprintTable

/-!
# Lookups up to a full table

Inserts of pairwise distinct keys into an initialised table, up to the one
that fills the last slot. In a full table no slot is empty; the search then
stops at the end of the table instead of going on at its beginning.
-/

namespace NetDedup.Store

namespace FingerprintTable

/-- No item lies before the hash index of its key. -/
def Unwrapped (table : FingerprintTable) : Prop :=
  ∀ i ∈ table.slots, hashInd (table.items i).key ≤ i

variable {table : FingerprintTable}

namespace Ok

/-- With as many items as slots, no slot is free. -/
theorem holds_of_full (hok : table.Ok) (hfull : table.cnt = fingerprintTableSize) (i : Nat)
    (hi : i < fingerprintTableSize) : table.Holds i := by
  have hslots : table.slots = Finset.range fingerprintTableSize := by
    apply Finset.eq_of_subset_of_card_le (Finset.filter_subset _ _)
    rw [Finset.card_range]
    exact Nat.le_of_eq (hfull.symm.trans hok.cnt_eq)
  have hmem : i ∈ table.slots := hslots ▸ Finset.mem_range.mpr hi
  exact (mem_slots.mp hmem).2

/-- The search of a full table compares the slots from the hash index to the end. -/
theorem find_full (hok : table.Ok) (hfull : table.cnt = fingerprintTableSize)
    (fingerprint : Digest) (retEntry : FingerprintEntry) :
    findFingerprintTable table fingerprint retEntry =
      (Probing.search (fun i => (table.items i).key) fingerprintTableSize fingerprint
        (fingerprintTableSize - hashInd fingerprint) (hashInd fingerprint)).elim
        (fingerprintTableSize, retEntry) fun curInd => (curInd, (table.items curInd).value) := by
  have hlt := hashInd_lt fingerprint
  have hnext : getNextIndFingerprintTable table.isEmptyBitVector table.size
      (hashInd fingerprint) = fingerprintTableSize := by
    rw [hok.size_eq]
    rcases @getNextInd_spec table.isEmptyBitVector _ hlt with ⟨t, hfree, -⟩ | ⟨-, hnext⟩
    · exact absurd (hok.holds_of_full hfull _ (Nat.mod_lt _ fingerprintTableSize_pos)) hfree.free
    · exact hnext
  unfold findFingerprintTable
  simp only [hnext]
  rw [if_pos (Nat.le_of_lt hlt), hok.size_eq]
  cases Probing.search (fun i => (table.items i).key) fingerprintTableSize fingerprint
      (fingerprintTableSize - hashInd fingerprint) (hashInd fingerprint) with
  | none => rfl
  | some curInd => rfl

/-- A full table finds the keys that did not wrap round. -/
theorem find_full_unwrapped (hok : table.Ok) (hfull : table.cnt = fingerprintTableSize) {i : Nat}
    (hi : i < fingerprintTableSize) (hle : hashInd (table.items i).key ≤ i)
    (retEntry : FingerprintEntry) :
    findFingerprintTable table (table.items i).key retEntry = (i, (table.items i).value) := by
  have hheld := hok.holds_of_full hfull
  rw [hok.find_full hfull]
  cases hsearch : Probing.search (fun i => (table.items i).key) fingerprintTableSize
      (table.items i).key (fingerprintTableSize - hashInd (table.items i).key)
      (hashInd (table.items i).key) with
  | none =>
      have hne := Probing.search_none _ (hashInd_lt _) hsearch
        (i - hashInd (table.items i).key) (by omega)
      rw [show hashInd (table.items i).key + (i - hashInd (table.items i).key) = i by omega,
        Nat.mod_eq_of_lt hi] at hne
      exact absurd rfl hne
  | some i' =>
      obtain ⟨hkey, j, -, hi'⟩ := Probing.search_some _ (hashInd_lt _) hsearch
      have hlt' : i' < fingerprintTableSize := hi' ▸ Nat.mod_lt _ fingerprintTableSize_pos
      obtain rfl := hok.wellFormed.unique i' hlt' i hi (hheld i' hlt') (hheld i hi) hkey
      rfl

/-- A full table does not find a key that wrapped round. -/
theorem find_full_wrapped (hok : table.Ok) (hfull : table.cnt = fingerprintTableSize) {i : Nat}
    (hi : i < fingerprintTableSize) (hlt : i < hashInd (table.items i).key)
    (retEntry : FingerprintEntry) :
    findFingerprintTable table (table.items i).key retEntry =
      (fingerprintTableSize, retEntry) := by
  have hheld := hok.holds_of_full hfull
  rw [hok.find_full hfull, Probing.search_absent (hashInd_lt _), Option.elim_none]
  intro j hj hkey
  have hsame := hok.wellFormed.unique _ (Nat.mod_lt _ fingerprintTableSize_pos) i hi
    (hheld _ (Nat.mod_lt _ fingerprintTableSize_pos)) (hheld i hi) hkey
  rw [Nat.mod_eq_of_lt (by omega)] at hsame
  omega

/-- A full table does not find an absent key either. -/
theorem find_full_absent (hok : table.Ok) (hfull : table.cnt = fingerprintTableSize)
    {fingerprint : Digest} (habsent : ∀ entry, ¬ table.Stores fingerprint entry)
    (retEntry : FingerprintEntry) :
    findFingerprintTable table fingerprint retEntry = (fingerprintTableSize, retEntry) := by
  rw [hok.find_full hfull, Probing.search_absent (hashInd_lt _), Option.elim_none]
  intro j _ hkey
  have hlt := Nat.mod_lt (hashInd fingerprint + j) fingerprintTableSize_pos
  exact habsent _ ⟨_, mem_slots.mpr ⟨hlt, hok.holds_of_full hfull _ hlt⟩,
    congrArg (TableItem.mk · _) hkey⟩

end Ok

end FingerprintTable

/-- The table after some inserts, and what they returned. -/
def insertItems : FingerprintTable → List TableItem → FingerprintTable × List Int
  | table, [] => (table, [])
  | table, item :: items =>
      let (ret, table) := insertFingerprintTable table item.key item.value
      let (table, rets) := insertItems table items
      (table, ret :: rets)

/-- What a table of some items is for: every insert went through, every key is
found with its own entry, and no other key is found. -/
structure Findable (items : List TableItem) (table : FingerprintTable) (rets : List Int) :
    Prop where
  accepted : ∀ ret ∈ rets, ret = 0
  stored : ∀ item ∈ items, ∀ retEntry, ∃ i < fingerprintTableSize,
    findFingerprintTable table item.key retEntry = (i, item.value)
  absent : ∀ key, key ≠ zeroDigest → (∀ item ∈ items, item.key ≠ key) → ∀ retEntry,
    findFingerprintTable table key retEntry = (fingerprintTableSize, retEntry)

/-- The table holds just these items. -/
structure Filled (table : FingerprintTable) (items : List TableItem) : Prop where
  ok : table.Ok
  cnt_eq : table.cnt = items.length
  stores_iff : ∀ key entry, table.Stores key entry ↔ (⟨key, entry⟩ : TableItem) ∈ items
  nonzero : ∀ item ∈ items, item.key ≠ zeroDigest

theorem initFingerprintTable_filled : Filled (initFingerprintTable zeroTable) [] where
  ok := initFingerprintTable_ok
  cnt_eq := rfl
  stores_iff key entry := by
    simp [initFingerprintTable_stores key entry]
  nonzero _ h := absurd h List.not_mem_nil

namespace Filled

variable {table : FingerprintTable} {items : List TableItem}

theorem absent_iff (hfilled : Filled table items) (key : Digest) :
    (∀ entry, ¬ table.Stores key entry) ↔ ∀ item ∈ items, item.key ≠ key := by
  constructor
  · rintro habsent item hitem rfl
    exact habsent item.value ((hfilled.stores_iff _ _).mpr hitem)
  · intro habsent entry hstores
    exact habsent _ ((hfilled.stores_iff _ _).mp hstores) rfl

/-- One insert of a new key. -/
theorem insert (hfilled : Filled table items) {item : TableItem}
    (hroom : items.length < fingerprintTableSize) (hne : item.key ≠ zeroDigest)
    (hnew : ∀ other ∈ items, other.key ≠ item.key) :
    (insertFingerprintTable table item.key item.value).1 = 0 ∧
      Filled (insertFingerprintTable table item.key item.value).2 (items ++ [item]) := by
  obtain ⟨p, hp, hfree, hput, hok⟩ := hfilled.ok.insert (hfilled.cnt_eq ▸ hroom)
    ((hfilled.absent_iff item.key).mpr hnew) item.value
  rw [hput]
  refine ⟨rfl, hok, ?_, fun key entry => ?_, fun other hother => ?_⟩
  · rw [List.length_append, ← hfilled.cnt_eq]
    rfl
  · rw [FingerprintTable.stores_fill hp hfree, hfilled.stores_iff, List.mem_append,
      List.mem_singleton, ← TableItem.mk.injEq]
  · rcases List.mem_append.mp hother with hold | hnew
    · exact hfilled.nonzero other hold
    · rwa [List.mem_singleton.mp hnew]

/-- A run of inserts of new and pairwise distinct keys. -/
theorem insertItems {more : List TableItem} (hfilled : Filled table items)
    (hne : ∀ item ∈ more, item.key ≠ zeroDigest)
    (hdistinct : ((items ++ more).map (·.key)).Nodup)
    (hlen : items.length + more.length ≤ fingerprintTableSize) :
    (∀ ret ∈ (insertItems table more).2, ret = 0) ∧
      Filled (Store.insertItems table more).1 (items ++ more) := by
  induction more generalizing table items with
  | nil =>
      rw [List.append_nil]
      exact ⟨fun _ h => absurd h List.not_mem_nil, hfilled⟩
  | cons item more ih =>
      have hnew : ∀ other ∈ items, other.key ≠ item.key := by
        rw [List.map_append, List.nodup_append] at hdistinct
        intro other hother
        exact hdistinct.2.2 _ (List.mem_map_of_mem hother) _
          (List.mem_map_of_mem List.mem_cons_self)
      rw [List.length_cons] at hlen
      obtain ⟨hret, hnext⟩ := hfilled.insert (by omega) (hne item List.mem_cons_self) hnew
      have hsplit : items ++ item :: more = items ++ [item] ++ more := by
        rw [List.append_assoc, List.singleton_append]
      obtain ⟨hrets, hlast⟩ := ih hnext (fun other h => hne other (List.mem_cons_of_mem _ h))
        (hsplit ▸ hdistinct) (by rw [List.length_append, List.length_singleton]; omega)
      constructor
      · intro ret hmem
        rcases List.mem_cons.mp hmem with rfl | hmem
        · exact hret
        · exact hrets ret hmem
      · rw [hsplit]
        exact hlast

/-- Lookups are right exactly if a slot is free or no key wrapped round. -/
theorem findable_iff (hfilled : Filled table items)
    (hlen : items.length ≤ fingerprintTableSize) {rets : List Int} (hrets : ∀ ret ∈ rets, ret = 0) :
    Findable items table rets ↔ items.length < fingerprintTableSize ∨ table.Unwrapped := by
  have hok := hfilled.ok
  rcases Nat.lt_or_eq_of_le hlen with hroom | hfull
  · refine iff_of_true ⟨hrets, fun item hitem retEntry => ?_, fun key hne habsent retEntry => ?_⟩
      (Or.inl hroom)
    · have hstores := (hfilled.stores_iff item.key item.value).mpr hitem
      exact hok.find_stored (hfilled.cnt_eq ▸ hroom) (Or.inl (hfilled.nonzero item hitem)) hstores
        retEntry
    · exact hok.find_absent (hfilled.cnt_eq ▸ hroom) (Or.inl hne)
        ((hfilled.absent_iff key).mpr habsent) retEntry
  · have hcnt : table.cnt = fingerprintTableSize := hfilled.cnt_eq.trans hfull
    constructor
    · intro hfind
      refine Or.inr fun i hi => Nat.le_of_not_lt fun hwrapped => ?_
      obtain ⟨hlt, hheld⟩ := FingerprintTable.mem_slots.mp hi
      have hitem := (hfilled.stores_iff _ _).mp ⟨i, hi, rfl⟩
      obtain ⟨j, hj, hfound⟩ := hfind.stored _ hitem zeroEntry
      rw [hok.find_full_wrapped hcnt hlt hwrapped] at hfound
      exact absurd (Prod.mk.inj hfound).1 (Nat.ne_of_gt hj)
    · intro hcond
      have hunwrapped := hcond.resolve_left (by omega)
      refine ⟨hrets, fun item hitem retEntry => ?_, fun key _ habsent retEntry => ?_⟩
      · obtain ⟨i, hi, heq⟩ := (hfilled.stores_iff item.key item.value).mpr hitem
        have hkey : (table.items i).key = item.key := congrArg TableItem.key heq
        have hvalue : (table.items i).value = item.value := congrArg TableItem.value heq
        have hlt := (FingerprintTable.mem_slots.mp hi).1
        refine ⟨i, hlt, ?_⟩
        rw [← hkey, ← hvalue]
        exact hok.find_full_unwrapped hcnt hlt (hunwrapped i hi) retEntry
      · exact hok.find_full_absent hcnt ((hfilled.absent_iff key).mpr habsent) retEntry

end Filled

/-- Inserts of distinct keys into an initialised table, up to a full one: all
lookups are right exactly if the table has a free slot left or no key wrapped
round the end of the table. -/
theorem insertItems_findable_iff {items : List TableItem}
    (hne : ∀ item ∈ items, item.key ≠ zeroDigest) (hdistinct : (items.map (·.key)).Nodup)
    (hlen : items.length ≤ fingerprintTableSize) :
    Findable items (insertItems (initFingerprintTable zeroTable) items).1
        (insertItems (initFingerprintTable zeroTable) items).2 ↔
      items.length < fingerprintTableSize ∨
        (insertItems (initFingerprintTable zeroTable) items).1.Unwrapped := by
  obtain ⟨hrets, hfilled⟩ := initFingerprintTable_filled.insertItems hne hdistinct
    (by rwa [List.length_nil, Nat.zero_add])
  exact hfilled.findable_iff hlen hrets

section Numbered

open Memory

/-- A digest that counts in its first bytes; the bytes that are hashed are zero. -/
def numberedKey (n : Nat) : Digest where
  toArray := (leBytes 24 n ++ List.replicate 8 0).toArray
  size_toArray := by
    rw [List.size_toArray, List.length_append, length_leBytes, List.length_replicate]
    rfl

/-- Items with the keys 1 to `n`. -/
def numberedItems (n : Nat) : List TableItem :=
  (List.range n).map fun i => ⟨numberedKey (i + 1), zeroEntry⟩

theorem numberedKey_toList (n : Nat) :
    (numberedKey n).toList = leBytes 24 n ++ List.replicate 8 0 := rfl

theorem hashInd_numberedKey (n : Nat) : hashInd (numberedKey n) = fingerprintHashFunc64 0 := by
  have hdrop : (numberedKey n).toList.drop (fingerprintNumBytes - 8) = List.replicate 8 0 := by
    rw [numberedKey_toList]
    exact List.drop_left' (length_leBytes 24 n)
  rw [hashInd, inlineFingerprintToLeastSig64, hdrop]
  rfl

theorem numberedKey_inj {m n : Nat} (hm : m < 2 ^ 32) (hn : n < 2 ^ 32)
    (h : numberedKey m = numberedKey n) : m = n := by
  have hlists : leBytes 24 m ++ List.replicate 8 0 = leBytes 24 n ++ List.replicate 8 (0 : UInt8) :=
    congrArg Vector.toList h
  have hbytes := congrArg leNat (List.append_cancel_right hlists)
  rwa [leNat_leBytes, leNat_leBytes, Nat.mod_eq_of_lt (Nat.lt_trans hm (by decide)),
    Nat.mod_eq_of_lt (Nat.lt_trans hn (by decide))] at hbytes

theorem numberedItems_nonzero {n : Nat} (hn : n < 2 ^ 32) :
    ∀ item ∈ numberedItems n, item.key ≠ zeroDigest := by
  intro item hitem hzero
  obtain ⟨i, hi, rfl⟩ := List.mem_map.mp hitem
  have hlt := List.mem_range.mp hi
  exact absurd (numberedKey_inj (by omega) (by decide) (show numberedKey (i + 1) = numberedKey 0
    from hzero.trans (by decide))) (Nat.succ_ne_zero i)

theorem numberedItems_distinct {n : Nat} (hn : n < 2 ^ 32) :
    ((numberedItems n).map (·.key)).Nodup := by
  rw [numberedItems, List.map_map]
  apply List.Nodup.map_on _ List.nodup_range
  intro i hi j hj h
  have hilt := List.mem_range.mp hi
  have hjlt := List.mem_range.mp hj
  exact Nat.succ_injective (numberedKey_inj (by omega) (by omega) h)

theorem numberedItems_length (n : Nat) : (numberedItems n).length = n := by
  rw [numberedItems, List.length_map, List.length_range]

/-- A thousand keys with one hash index are all found. -/
theorem insertItems_findable_thousand :
    (∀ item ∈ numberedItems 1000, hashInd item.key = fingerprintHashFunc64 0) ∧
      Findable (numberedItems 1000)
        (insertItems (initFingerprintTable zeroTable) (numberedItems 1000)).1
        (insertItems (initFingerprintTable zeroTable) (numberedItems 1000)).2 := by
  have hroom : (numberedItems 1000).length < fingerprintTableSize := by
    rw [numberedItems_length]
    decide
  refine ⟨fun item hitem => ?_, (insertItems_findable_iff (numberedItems_nonzero (by decide))
    (numberedItems_distinct (by decide)) (Nat.le_of_lt hroom)).mpr (Or.inl hroom)⟩
  obtain ⟨i, -, rfl⟩ := List.mem_map.mp hitem
  exact hashInd_numberedKey (i + 1)

/-- All keys have one hash index, which is not 0: in the full table some of them wrapped round. -/
theorem not_unwrapped_numberedItems {table : FingerprintTable} {n : Nat}
    (hfilled : Filled table (numberedItems n)) (hfull : n = fingerprintTableSize) :
    ¬ table.Unwrapped := by
  intro hunwrapped
  have hcnt : table.cnt = fingerprintTableSize := by
    rw [hfilled.cnt_eq, numberedItems_length, hfull]
  have hmem : 0 ∈ table.slots := FingerprintTable.mem_slots.mpr
    ⟨fingerprintTableSize_pos, hfilled.ok.holds_of_full hcnt 0 fingerprintTableSize_pos⟩
  have hitem := (hfilled.stores_iff _ _).mp ⟨0, hmem, rfl⟩
  obtain ⟨i, -, hi⟩ := List.mem_map.mp hitem
  have hkey : numberedKey (i + 1) = (table.items 0).key := congrArg TableItem.key hi
  have hle := hunwrapped 0 hmem
  rw [← hkey, hashInd_numberedKey] at hle
  exact absurd hle (by decide)

theorem numberedItems_findable_fails {n : Nat} (hfull : n = fingerprintTableSize) :
    (∀ item ∈ numberedItems n, item.key ≠ zeroDigest) ∧
      ((numberedItems n).map (·.key)).Nodup ∧ (numberedItems n).length ≤ fingerprintTableSize ∧
      ¬ Findable (numberedItems n) (insertItems (initFingerprintTable zeroTable) (numberedItems n)).1
        (insertItems (initFingerprintTable zeroTable) (numberedItems n)).2 := by
  have hlt : n < 2 ^ 32 := hfull ▸ (by decide)
  have hlen : (numberedItems n).length ≤ fingerprintTableSize := by
    rw [numberedItems_length, hfull]
  have hne := numberedItems_nonzero hlt
  have hdistinct := numberedItems_distinct hlt
  refine ⟨hne, hdistinct, hlen, fun hfind => ?_⟩
  obtain ⟨hrets, hfilled⟩ := initFingerprintTable_filled.insertItems hne hdistinct
    (by rwa [List.length_nil, Nat.zero_add])
  rcases (hfilled.findable_iff hlen hrets).mp hfind with hroom | hunwrapped
  · rw [List.nil_append, numberedItems_length, hfull] at hroom
    exact absurd hroom (Nat.lt_irrefl _)
  · exact not_unwrapped_numberedItems hfilled hfull hunwrapped

/-- The keys 1 to `FINGERPRINT_TABLE_SIZE` fill the table, which then loses some of them. -/
theorem insertItems_findable_fails :
    (∀ item ∈ numberedItems fingerprintTableSize, item.key ≠ zeroDigest) ∧
      ((numberedItems fingerprintTableSize).map (·.key)).Nodup ∧
      (numberedItems fingerprintTableSize).length ≤ fingerprintTableSize ∧
      ¬ Findable (numberedItems fingerprintTableSize)
        (insertItems (initFingerprintTable zeroTable) (numberedItems fingerprintTableSize)).1
        (insertItems (initFingerprintTable zeroTable) (numberedItems fingerprintTableSize)).2 :=
  numberedItems_findable_fails rfl

end Numbered

end NetDedup.Store

import NetDedup.Config
import NetDedup.Lib.BitScan
import NetDedup.Lib.Probing
import Mathlib.Data.Finset.Card
import Mathlib.Data.Finset.Range

/-!
# The fingerprint table

`fingerprint_table.c`: an open-addressing table from digests to cache entries,
with a bit vector of the empty slots. Arrays are functions of the index; the
bytes of a zeroed item are the zero key and the zero entry.
-/

namespace NetDedup.Store

open BitScan

/-- `Fingerprint_Entry`: the size of a stored content and its pages in order. -/
structure FingerprintEntry where
  contentSize : Nat
  contentPageNums : Vector Nat fingerprintContentMaxPages
  deriving DecidableEq

/-- The key and the value of one slot, which lie next to each other in `items`. -/
structure TableItem where
  key : Digest
  value : FingerprintEntry
  deriving DecidableEq

/-- `Fingerprint_Table`. -/
structure FingerprintTable where
  cnt : Nat
  size : Nat
  isEmptyBitVector : Nat → UInt64
  items : Nat → TableItem

def zeroEntry : FingerprintEntry := ⟨0, Vector.replicate fingerprintContentMaxPages 0⟩

def zeroItem : TableItem := ⟨zeroDigest, zeroEntry⟩

/-- A table in zeroed memory. -/
def zeroTable : FingerprintTable := ⟨0, 0, fun _ => 0, fun _ => zeroItem⟩

/-- `fingerprint_hash_func_64`. -/
def fingerprintHashFunc64 (key : UInt64) : Nat :=
  let key := (key <<< 21) - key - 1
  let key := key ^^^ (key >>> 24)
  let key := (key + (key <<< 3)) + (key <<< 8)
  let key := key ^^^ (key >>> 14)
  let key := (key + (key <<< 2)) + (key <<< 4)
  let key := key ^^^ (key >>> 28)
  let key := key + (key <<< 31)
  key.toNat % fingerprintTableSize

/-- `inline_fingerprint_to_least_sig64`: the last eight bytes, first byte highest. -/
def inlineFingerprintToLeastSig64 (fingerprint : Digest) : UInt64 :=
  (fingerprint.toList.drop (fingerprintNumBytes - 8)).foldl
    (fun result b => (result <<< 8) ||| b.toUInt64) 0

/-- `hash_ind`. -/
def hashInd (fingerprint : Digest) : Nat :=
  fingerprintHashFunc64 (inlineFingerprintToLeastSig64 fingerprint)

/-- Words of the bit vector. -/
def bitVectorEls : Nat := myCeil fingerprintTableSize 64

/-- `init_fingerprint_table`. It does not write `items`. -/
def initFingerprintTable (table : FingerprintTable) : FingerprintTable where
  cnt := 0
  size := fingerprintTableSize
  isEmptyBitVector := fun i =>
    if i < bitVectorEls - 1 then 0xFFFFFFFFFFFFFFFF
    else if i = bitVectorEls - 1 then
      if fingerprintTableSize &&& 0x3F = 0 then 0xFFFFFFFFFFFFFFFF
      else (1 <<< UInt64.ofNat (fingerprintTableSize &&& 0x3F)) - 1
    else table.isEmptyBitVector i
  items := table.items

/-- `get_next_ind_fingerprint_table`. The loop looks at the start word twice,
masked first and whole at the end of the turn. -/
def getNextIndFingerprintTable (isEmptyBitVector : Nat → UInt64) (tableSize startInd : Nat) : Nat :=
  if tableSize ≤ startInd then tableSize
  else
    let startVecInd := startInd >>> 6
    let startBitInd := startInd &&& (0xFF >>> 2)
    let searchVector := maskFrom (isEmptyBitVector startVecInd) startBitInd
    (scanWords isEmptyBitVector bitVectorEls (bitVectorEls + 1) startVecInd searchVector).getD
      tableSize

/-- `insert_fingerprint_table`. -/
def insertFingerprintTable (table : FingerprintTable) (fingerprint : Digest)
    (entry : FingerprintEntry) : Int × FingerprintTable :=
  if table.cnt = table.size then (-1, table)
  else
    let insertInd := getNextIndFingerprintTable table.isEmptyBitVector table.size
      (hashInd fingerprint)
    (0, { table with
      cnt := table.cnt + 1
      isEmptyBitVector := Function.update table.isEmptyBitVector (insertInd >>> 6)
        (clearBit (table.isEmptyBitVector (insertInd >>> 6)) (insertInd &&& (0xFF >>> 2)))
      items := Function.update table.items insertInd ⟨fingerprint, entry⟩ })

/-- `find_fingerprint_table`. When the next empty slot lies before the hash
index the loop also compares the empty slot itself. -/
def findFingerprintTable (table : FingerprintTable) (fingerprint : Digest)
    (retEntry : FingerprintEntry) : Nat × FingerprintEntry :=
  let hashInd := hashInd fingerprint
  let nextEmpty := getNextIndFingerprintTable table.isEmptyBitVector table.size hashInd
  let itemsToCheck :=
    if hashInd ≤ nextEmpty then nextEmpty - hashInd else (table.size - hashInd) + nextEmpty + 1
  match Probing.search (fun i => (table.items i).key) table.size fingerprint itemsToCheck
      hashInd with
  | some curInd => (curInd, (table.items curInd).value)
  | none => (fingerprintTableSize, retEntry)

theorem tableSize_eq_words : fingerprintTableSize = 64 * bitVectorEls := by
  decide

theorem bitVectorEls_pos : 0 < bitVectorEls := by
  decide

theorem hashInd_lt (fingerprint : Digest) : hashInd fingerprint < fingerprintTableSize :=
  Nat.mod_lt _ fingerprintTableSize_pos

section NextInd

variable (vec : Nat → UInt64)

/-- A slot is taken when its bit of the vector is clear. -/
def Taken (i : Nat) : Prop := bit (vec (i / 64)) (i % 64) = false

instance (i : Nat) : Decidable (Taken vec i) := inferInstanceAs (Decidable (_ = false))

variable {vec}

theorem cyclicBit_eq_bit {p : Nat} (hp : p < fingerprintTableSize) :
    cyclicBit vec bitVectorEls p = bit (vec (p / 64)) (p % 64) := by
  rw [tableSize_eq_words] at hp
  rw [cyclicBit, Nat.mod_eq_of_lt (show p / 64 < bitVectorEls by omega)]

theorem taken_mod_iff (p : Nat) :
    Taken vec (p % fingerprintTableSize) ↔ cyclicBit vec bitVectorEls p = false := by
  rw [Taken, ← cyclicBit_eq_bit (Nat.mod_lt _ fingerprintTableSize_pos), tableSize_eq_words,
    cyclicBit_mod]

/-- The search returns the first slot of the cyclic walk from `start` that is
not taken, and the table size when all are. -/
theorem getNextInd_spec {start : Nat} (hstart : start < fingerprintTableSize) :
    (∃ t, Probing.FirstFree fingerprintTableSize (Taken vec) start t ∧
      getNextIndFingerprintTable vec fingerprintTableSize start =
        (start + t) % fingerprintTableSize) ∨
    ((∀ i < fingerprintTableSize, Taken vec i) ∧
      getNextIndFingerprintTable vec fingerprintTableSize start = fingerprintTableSize) := by
  have hvec : start >>> 6 = start / 64 := by
    rw [Nat.shiftRight_eq_div_pow]
  have hbit : start &&& (0xFF >>> 2) = start % 64 :=
    Nat.and_two_pow_sub_one_eq_mod start 6
  have hword : start / 64 < bitVectorEls := by
    rw [tableSize_eq_words] at hstart
    omega
  have hsearch : SearchFrom vec bitVectorEls start (start / 64)
      (maskFrom (vec (start / 64)) (start % 64)) := by
    intro i _
    rw [bit_maskFrom _ (Nat.mod_lt _ (by omega)), Nat.mod_eq_of_lt hword]
    congr 2
    exact propext (by omega)
  have hspec := scanWords_spec start (bitVectorEls + 1) (start / 64) _ hsearch (by omega)
    (fun q hge hlt => by omega)
  unfold getNextIndFingerprintTable
  rw [if_neg (by omega), hvec, hbit]
  simp only
  cases hscan : scanWords vec bitVectorEls (bitVectorEls + 1) (start / 64)
      (maskFrom (vec (start / 64)) (start % 64)) with
  | some r =>
      rw [hscan] at hspec
      obtain ⟨p, hp, rfl⟩ := hspec
      have hturn := hp.lt_turn.resolve_right (Nat.ne_of_gt bitVectorEls_pos)
      have hle := hp.le
      rw [← tableSize_eq_words] at hturn ⊢
      refine Or.inl ⟨p - start, ⟨by omega, ?_, fun j hj => ?_⟩, ?_⟩
      · rw [taken_mod_iff, show start + (p - start) = p by omega, hp.set]
        simp
      · rw [taken_mod_iff]
        exact hp.clear _ (by omega) (by omega)
      · rw [show start + (p - start) = p by omega]
        rfl
  | none =>
      rw [hscan] at hspec
      refine Or.inr ⟨fun i hi => ?_, rfl⟩
      rw [← Nat.mod_eq_of_lt hi, taken_mod_iff]
      rcases Nat.lt_or_ge i start with hlt | hge
      · rw [← cyclicBit_add]
        refine hspec _ ?_ ?_ <;> rw [tableSize_eq_words] at * <;> omega
      · refine hspec _ hge ?_
        rw [tableSize_eq_words] at hi
        omega

end NextInd

namespace FingerprintTable

/-- Slot `i` holds an item. -/
def Holds (table : FingerprintTable) (i : Nat) : Prop := Taken table.isEmptyBitVector i

instance (table : FingerprintTable) (i : Nat) : Decidable (table.Holds i) :=
  inferInstanceAs (Decidable (Taken _ _))

/-- The slots that hold an item. -/
def slots (table : FingerprintTable) : Finset Nat :=
  (Finset.range fingerprintTableSize).filter table.Holds

theorem mem_slots {table : FingerprintTable} {i : Nat} :
    i ∈ table.slots ↔ i < fingerprintTableSize ∧ table.Holds i := by
  rw [slots, Finset.mem_filter, Finset.mem_range]

/-- The invariant of the table. -/
structure Ok (table : FingerprintTable) : Prop where
  size_eq : table.size = fingerprintTableSize
  cnt_eq : table.cnt = table.slots.card
  wellFormed : Probing.WellFormed fingerprintTableSize table.Holds
    (fun i => (table.items i).key) hashInd
  free_zero : ∀ i < fingerprintTableSize, ¬ table.Holds i → (table.items i).key = zeroDigest

/-- The table maps `fingerprint` to `entry`. -/
def Stores (table : FingerprintTable) (fingerprint : Digest) (entry : FingerprintEntry) : Prop :=
  ∃ i, i ∈ table.slots ∧ table.items i = ⟨fingerprint, entry⟩

/-- The search for a key compares it with no empty slot: the key is not all zero,
or the items are so few that the search ends before the end of the table. -/
def Searchable (table : FingerprintTable) (fingerprint : Digest) : Prop :=
  fingerprint ≠ zeroDigest ∨ hashInd fingerprint + table.cnt < fingerprintTableSize

namespace Ok

variable {table : FingerprintTable}

/-- A table with fewer items than slots has a free slot on every walk. -/
theorem exists_firstFree (hok : table.Ok) (hroom : table.cnt < fingerprintTableSize)
    (fingerprint : Digest) :
    ∃ t, Probing.FirstFree fingerprintTableSize table.Holds (hashInd fingerprint) t ∧
      getNextIndFingerprintTable table.isEmptyBitVector table.size (hashInd fingerprint) =
        (hashInd fingerprint + t) % fingerprintTableSize := by
  rw [hok.size_eq]
  rcases @getNextInd_spec table.isEmptyBitVector _ (hashInd_lt fingerprint) with
    hfree | ⟨hall, -⟩
  · exact hfree
  · have hslots : table.slots = Finset.range fingerprintTableSize :=
      Finset.filter_true_of_mem fun i hi => hall i (Finset.mem_range.mp hi)
    rw [hok.cnt_eq, hslots, Finset.card_range] at hroom
    exact absurd hroom (Nat.lt_irrefl _)

/-- The slots before the first free one of a walk all hold items. -/
theorem firstFree_le (hok : table.Ok) {h t : Nat} (hh : h < fingerprintTableSize)
    (hfree : Probing.FirstFree fingerprintTableSize table.Holds h t) : t ≤ table.cnt := by
  have hlt := hfree.lt
  rw [hok.cnt_eq, ← Finset.card_range t]
  apply Finset.card_le_card_of_injOn fun j => (h + j) % fingerprintTableSize
  · intro j hj
    have hjt := Finset.mem_range.mp hj
    exact mem_slots.mpr ⟨Nat.mod_lt _ fingerprintTableSize_pos, hfree.before j hjt⟩
  · intro i hi j hj hij
    have hit := Finset.mem_range.mp hi
    have hjt := Finset.mem_range.mp hj
    calc
      i = Probing.dist fingerprintTableSize h ((h + i) % fingerprintTableSize) :=
        (Probing.dist_walk hh (by omega)).symm
      _ = Probing.dist fingerprintTableSize h ((h + j) % fingerprintTableSize) :=
        congrArg (Probing.dist fingerprintTableSize h) hij
      _ = j := Probing.dist_walk hh (by omega)

/-- A search compares the slots up to the first free slot, and this one as well
when the walk to it goes over the end of the table. -/
theorem itemsToCheck {t : Nat} {h : Nat} (hh : h < fingerprintTableSize)
    (ht : t < fingerprintTableSize) :
    (if h ≤ (h + t) % fingerprintTableSize then (h + t) % fingerprintTableSize - h
      else fingerprintTableSize - h + (h + t) % fingerprintTableSize + 1) =
        if h + t < fingerprintTableSize then t else t + 1 := by
  rcases Nat.lt_or_ge (h + t) fingerprintTableSize with hlt | hge
  · rw [if_pos hlt, Nat.mod_eq_of_lt hlt, if_pos (by omega)]
    omega
  · have hmod : (h + t) % fingerprintTableSize = h + t - fingerprintTableSize := by
      rw [Nat.mod_eq_sub_mod hge, Nat.mod_eq_of_lt (by omega)]
    rw [if_neg (by omega), hmod, if_neg (by omega)]
    omega

theorem key_eq {i : Nat} {fingerprint : Digest} {entry : FingerprintEntry}
    (h : table.items i = ⟨fingerprint, entry⟩) : (table.items i).key = fingerprint := by
  rw [h]

/-- Past the first free slot a search meets only that slot, whose key is another. -/
theorem past_free (hok : table.Ok) {fingerprint : Digest} (hsearch : table.Searchable fingerprint)
    {t : Nat}
    (hfree : Probing.FirstFree fingerprintTableSize table.Holds (hashInd fingerprint) t) (j : Nat)
    (hge : t ≤ j)
    (hlt : j < if hashInd fingerprint + t < fingerprintTableSize then t else t + 1) :
    (table.items ((hashInd fingerprint + j) % fingerprintTableSize)).key ≠ fingerprint := by
  have hwrap : ¬ hashInd fingerprint + t < fingerprintTableSize := by
    intro h
    rw [if_pos h] at hlt
    omega
  rw [if_neg hwrap] at hlt
  obtain rfl : j = t := by omega
  have hcnt := hok.firstFree_le (hashInd_lt fingerprint) hfree
  have hne := hsearch.resolve_right (by omega)
  rw [hok.free_zero _ (Nat.mod_lt _ fingerprintTableSize_pos) hfree.free]
  exact hne.symm

/-- `find_fingerprint_table` on the key of a slot finds that slot. -/
theorem find_slot (hok : table.Ok) (hroom : table.cnt < fingerprintTableSize) {i : Nat}
    (hi : i ∈ table.slots) (hsearch : table.Searchable (table.items i).key)
    (retEntry : FingerprintEntry) :
    findFingerprintTable table (table.items i).key retEntry = (i, (table.items i).value) := by
  obtain ⟨hlt, htaken⟩ := mem_slots.mp hi
  obtain ⟨t, hfree, hnext⟩ := hok.exists_firstFree hroom (table.items i).key
  unfold findFingerprintTable
  simp only [hnext]
  rw [hok.size_eq, itemsToCheck (hashInd_lt (table.items i).key) hfree.lt,
    hok.wellFormed.search_stored hlt htaken hfree (by split <;> omega)
      (hok.past_free hsearch hfree)]

/-- `find_fingerprint_table` on a stored key copies its entry. -/
theorem find_stored (hok : table.Ok) (hroom : table.cnt < fingerprintTableSize)
    {fingerprint : Digest} {entry : FingerprintEntry} (hsearch : table.Searchable fingerprint)
    (hstores : table.Stores fingerprint entry) (retEntry : FingerprintEntry) :
    ∃ i < fingerprintTableSize,
      findFingerprintTable table fingerprint retEntry = (i, entry) := by
  obtain ⟨i, hi, hitem⟩ := hstores
  have hfind := hok.find_slot hroom hi (by rwa [key_eq hitem]) retEntry
  rw [hitem] at hfind
  exact ⟨i, (mem_slots.mp hi).1, hfind⟩

/-- `find_fingerprint_table` on an absent key leaves `ret_entry` alone. -/
theorem find_absent (hok : table.Ok) (hroom : table.cnt < fingerprintTableSize)
    {fingerprint : Digest} (hsearch : table.Searchable fingerprint)
    (habsent : ∀ entry, ¬ table.Stores fingerprint entry) (retEntry : FingerprintEntry) :
    findFingerprintTable table fingerprint retEntry = (fingerprintTableSize, retEntry) := by
  obtain ⟨t, hfree, hnext⟩ := hok.exists_firstFree hroom fingerprint
  unfold findFingerprintTable
  simp only [hnext]
  rw [hok.size_eq, itemsToCheck (hashInd_lt fingerprint) hfree.lt,
    Probing.search_absent (hashInd_lt _) _ fun j hj => ?_]
  rcases Nat.lt_or_ge j t with hlt | hge
  · exact fun hkey => habsent _ ⟨_, mem_slots.mpr ⟨Nat.mod_lt _ fingerprintTableSize_pos,
      hfree.before j hlt⟩, congrArg (TableItem.mk · _) hkey⟩
  · exact hok.past_free hsearch hfree j hge hj

end Ok

section Fill

variable {table : FingerprintTable} {p : Nat} {fingerprint : Digest} {entry : FingerprintEntry}

/-- The table with an item put into slot `p`. -/
def fill (table : FingerprintTable) (p : Nat) (fingerprint : Digest) (entry : FingerprintEntry) :
    FingerprintTable :=
  { table with
    cnt := table.cnt + 1
    isEmptyBitVector := Function.update table.isEmptyBitVector (p >>> 6)
      (clearBit (table.isEmptyBitVector (p >>> 6)) (p &&& (0xFF >>> 2)))
    items := Function.update table.items p ⟨fingerprint, entry⟩ }

theorem holds_fill (i : Nat) :
    (table.fill p fingerprint entry).Holds i ↔ table.Holds i ∨ i = p := by
  have hword : p >>> 6 = p / 64 := Nat.shiftRight_eq_div_pow p 6
  have hbit : p &&& (0xFF >>> 2) = p % 64 := Nat.and_two_pow_sub_one_eq_mod p 6
  unfold Holds Taken fill
  simp only [hword, hbit]
  by_cases hi : i / 64 = p / 64
  · rw [hi, Function.update_self, bit_clearBit _ (Nat.mod_lt _ (by omega)), Bool.and_eq_false_iff,
      decide_eq_false_iff_not, not_not]
    exact or_congr Iff.rfl ⟨fun h => by omega, fun h => by omega⟩
  · rw [Function.update_of_ne hi]
    exact ⟨Or.inl, fun h => h.resolve_right fun he => hi (by rw [he])⟩

@[simp] theorem items_fill_self : (table.fill p fingerprint entry).items p = ⟨fingerprint, entry⟩ :=
  Function.update_self p _ _

theorem items_fill_of_ne {i : Nat} (hi : i ≠ p) :
    (table.fill p fingerprint entry).items i = table.items i :=
  Function.update_of_ne hi _ _

theorem slots_fill (hp : p < fingerprintTableSize) (hfree : ¬ table.Holds p) :
    (table.fill p fingerprint entry).slots =
      Finset.cons p table.slots fun h => hfree (mem_slots.mp h).2 := by
  ext i
  rw [mem_slots, holds_fill, Finset.mem_cons, mem_slots]
  constructor
  · rintro ⟨hi, h | h⟩
    · exact Or.inr ⟨hi, h⟩
    · exact Or.inl h
  · rintro (rfl | ⟨hi, h⟩)
    · exact ⟨hp, Or.inr rfl⟩
    · exact ⟨hi, Or.inl h⟩

theorem stores_fill (hp : p < fingerprintTableSize) (hfree : ¬ table.Holds p) (f : Digest)
    (e : FingerprintEntry) :
    (table.fill p fingerprint entry).Stores f e ↔
      table.Stores f e ∨ (f = fingerprint ∧ e = entry) := by
  unfold Stores
  simp only [slots_fill hp hfree, Finset.mem_cons]
  constructor
  · rintro ⟨i, hi, hitem⟩
    by_cases hip : i = p
    · rw [hip, items_fill_self] at hitem
      exact Or.inr ⟨(TableItem.mk.inj hitem).1.symm, (TableItem.mk.inj hitem).2.symm⟩
    · rw [items_fill_of_ne hip] at hitem
      exact Or.inl ⟨i, hi.resolve_left hip, hitem⟩
  · rintro (⟨i, hi, hitem⟩ | ⟨rfl, rfl⟩)
    · have hip : i ≠ p := fun he => hfree (he ▸ (mem_slots.mp hi).2)
      exact ⟨i, Or.inr hi, by rw [items_fill_of_ne hip, hitem]⟩
    · exact ⟨p, Or.inl rfl, items_fill_self⟩

/-- Filling the first free slot of an absent key's walk keeps the invariant. -/
theorem Ok.fill (hok : table.Ok) {t : Nat}
    (hfree : Probing.FirstFree fingerprintTableSize table.Holds (hashInd fingerprint) t)
    (habsent : ∀ e, ¬ table.Stores fingerprint e) (entry : FingerprintEntry) :
    (table.fill ((hashInd fingerprint + t) % fingerprintTableSize) fingerprint entry).Ok := by
  have hp : (hashInd fingerprint + t) % fingerprintTableSize < fingerprintTableSize :=
    Nat.mod_lt _ fingerprintTableSize_pos
  refine ⟨hok.size_eq, ?_, ?_, ?_⟩
  · rw [slots_fill hp hfree.free, Finset.card_cons, ← hok.cnt_eq]
    rfl
  · have hwf := hok.wellFormed.insert (k := fingerprint) hfree fun i hi hocc hkey =>
      habsent _ ⟨i, mem_slots.mpr ⟨hi, hocc⟩, congrArg (TableItem.mk · _) hkey⟩
    have hocc := funext fun i => propext
      (@holds_fill table ((hashInd fingerprint + t) % fingerprintTableSize) fingerprint entry i)
    have hkey : (fun i => ((table.fill ((hashInd fingerprint + t) % fingerprintTableSize)
          fingerprint entry).items i).key) =
        Function.update (fun i => (table.items i).key)
          ((hashInd fingerprint + t) % fingerprintTableSize) fingerprint := by
      funext i
      by_cases hi : i = (hashInd fingerprint + t) % fingerprintTableSize
      · rw [hi, items_fill_self, Function.update_self]
      · rw [items_fill_of_ne hi, Function.update_of_ne hi]
    rw [hocc, hkey]
    exact hwf
  · intro i hi hfree'
    have hni := not_or.mp (mt (holds_fill i).mpr hfree')
    rw [items_fill_of_ne hni.2]
    exact hok.free_zero i hi hni.1

/-- What `insert_fingerprint_table` does with an absent key while a slot is free. -/
theorem Ok.insert (hok : table.Ok) (hroom : table.cnt < fingerprintTableSize)
    (habsent : ∀ e, ¬ table.Stores fingerprint e) (entry : FingerprintEntry) :
    ∃ p < fingerprintTableSize, ¬ table.Holds p ∧
      insertFingerprintTable table fingerprint entry = (0, table.fill p fingerprint entry) ∧
      (table.fill p fingerprint entry).Ok := by
  obtain ⟨t, hfree, hnext⟩ := hok.exists_firstFree hroom fingerprint
  refine ⟨_, Nat.mod_lt _ fingerprintTableSize_pos, hfree.free, ?_,
    hok.fill hfree habsent entry⟩
  unfold insertFingerprintTable
  rw [if_neg (by rw [hok.size_eq]; omega), hnext]
  rfl

end Fill

end FingerprintTable

/-- Every slot of an initialised table is free. -/
theorem initFingerprintTable_free (table : FingerprintTable) {i : Nat}
    (hi : i < fingerprintTableSize) : ¬ (initFingerprintTable table).Holds i := by
  have hword : i / 64 < bitVectorEls := by
    rw [tableSize_eq_words] at hi
    omega
  have hones : (initFingerprintTable table).isEmptyBitVector (i / 64) = 0xFFFFFFFFFFFFFFFF := by
    change (if i / 64 < bitVectorEls - 1 then _ else if i / 64 = bitVectorEls - 1 then _ else _) = _
    split
    · rfl
    · rw [if_pos (by omega), if_pos (by decide)]
  rw [FingerprintTable.Holds, Taken, hones, bit,
    show (0xFFFFFFFFFFFFFFFF : UInt64).toBitVec = BitVec.allOnes 64 from rfl,
    BitVec.getLsbD_allOnes, decide_eq_true (Nat.mod_lt i (by omega))]
  exact Bool.noConfusion

/-- `init_fingerprint_table` on zeroed items. -/
theorem initFingerprintTable_ok : (initFingerprintTable zeroTable).Ok := by
  have hfree := fun i => initFingerprintTable_free zeroTable (i := i)
  refine ⟨rfl, ?_, ⟨hashInd_lt, ?_, ?_⟩, fun i _ _ => rfl⟩
  · rw [FingerprintTable.slots, Finset.filter_false_of_mem, Finset.card_empty]
    · rfl
    · exact fun i hi => hfree i (Finset.mem_range.mp hi)
  · exact fun i hi h => absurd h (hfree i hi)
  · exact fun i hi j hj h => absurd h (hfree i hi)

theorem initFingerprintTable_stores (fingerprint : Digest) (entry : FingerprintEntry) :
    ¬ (initFingerprintTable zeroTable).Stores fingerprint entry := by
  rintro ⟨i, hi, -⟩
  obtain ⟨hlt, h⟩ := FingerprintTable.mem_slots.mp hi
  exact initFingerprintTable_free zeroTable hlt h

end NetDedup.Store

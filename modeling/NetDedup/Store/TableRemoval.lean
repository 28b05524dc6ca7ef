import NetDedup.Lib.BackwardShift
import NetDedup.Store.FingerprintTable

/-!
# Removal from the fingerprint table

`remvove_fingerprint_table`: the keys behind a removed one that could not be
found any more move back, and the slot that is free in the end is zeroed.
-/

namespace NetDedup.Store

open BitScan

/-- The test of the loop: the item at `curInd` could not be found over the hole at `emptyInd`. -/
def mustMove (emptyInd curInd hashInd : Nat) : Bool :=
  (decide (emptyInd < curInd) && (decide (hashInd ≤ emptyInd) || decide (curInd < hashInd))) ||
    (decide (curInd < emptyInd) && (decide (hashInd ≤ emptyInd) && decide (curInd < hashInd)))

/-- The loop of `remvove_fingerprint_table`: the slot that is empty in the end, and the items. -/
def shiftItems (size : Nat) : Nat → Nat → Nat → (Nat → TableItem) → Nat × (Nat → TableItem)
  | 0, _, emptyInd, items => (emptyInd, items)
  | itemsToCheck + 1, curInd, emptyInd, items =>
      if mustMove emptyInd curInd (hashInd (items curInd).key) then
        shiftItems size itemsToCheck ((curInd + 1) % size) curInd
          (Function.update items emptyInd (items curInd))
      else shiftItems size itemsToCheck ((curInd + 1) % size) emptyInd items

/-- The table with slot `p` zeroed and marked empty. -/
def FingerprintTable.vacate (table : FingerprintTable) (p : Nat) (items : Nat → TableItem) :
    FingerprintTable :=
  { table with
    cnt := table.cnt - 1
    isEmptyBitVector := Function.update table.isEmptyBitVector (p >>> 6)
      (setBit (table.isEmptyBitVector (p >>> 6)) (p &&& (0xFF >>> 2)))
    items := Function.update items p zeroItem }

/-- `remvove_fingerprint_table`. -/
def removeFingerprintTable (table : FingerprintTable) (fingerprint : Digest)
    (retEntry : FingerprintEntry) : Int × FingerprintTable × FingerprintEntry :=
  let (emptyInd, retEntry) := findFingerprintTable table fingerprint retEntry
  if emptyInd = fingerprintTableSize then (-1, table, retEntry)
  else
    let nextEmpty := getNextIndFingerprintTable table.isEmptyBitVector table.size emptyInd
    let itemsToCheck :=
      if emptyInd < nextEmpty then nextEmpty - emptyInd - 1
      else (table.size - emptyInd - 1) + nextEmpty
    let (emptyInd, items) := shiftItems table.size itemsToCheck ((emptyInd + 1) % table.size)
      emptyInd table.items
    (0, table.vacate emptyInd items, retEntry)

section Shift

variable {occ : Nat → Prop} {items : Nat → TableItem} {e cur : Nat}

/-- The keys of some items. -/
def keysOf (items : Nat → TableItem) (i : Nat) : Digest := (items i).key

theorem keysOf_update (items : Nat → TableItem) (e : Nat) (item : TableItem) :
    keysOf (Function.update items e item) = Function.update (keysOf items) e item.key := by
  funext i
  by_cases hi : i = e
  · rw [hi, keysOf, Function.update_self, Function.update_self]
  · rw [keysOf, Function.update_of_ne hi, Function.update_of_ne hi]
    rfl

/-- Some occupied slot other than the hole `e` has this item. -/
def Keeps (occ : Nat → Prop) (items : Nat → TableItem) (e : Nat) (item : TableItem) : Prop :=
  ∃ i < fingerprintTableSize, occ i ∧ i ≠ e ∧ items i = item

/-- A move puts the item into the old hole and leaves the others alone. -/
theorem keeps_move (he : e < fingerprintTableSize) (hcur : cur < fingerprintTableSize)
    (hocc : occ e) (hocc' : occ cur) (hne : cur ≠ e) (item : TableItem) :
    Keeps occ (Function.update items e (items cur)) cur item ↔ Keeps occ items e item := by
  constructor
  · rintro ⟨i, hi, hocci, hicur, hitem⟩
    by_cases hie : i = e
    · rw [hie, Function.update_self] at hitem
      exact ⟨cur, hcur, hocc', hne, hitem⟩
    · rw [Function.update_of_ne hie] at hitem
      exact ⟨i, hi, hocci, hie, hitem⟩
  · rintro ⟨i, hi, hocci, hie, hitem⟩
    by_cases hicur : i = cur
    · refine ⟨e, he, hocc, hne.symm, ?_⟩
      rw [Function.update_self, ← hicur, hitem]
    · refine ⟨i, hi, hocci, hicur, ?_⟩
      rw [Function.update_of_ne hie, hitem]

/-- What the loop has achieved when it ends at the slot `cur`. -/
structure Shifted (occ : Nat → Prop) (items : Nat → TableItem) (e cur : Nat)
    (result : Nat × (Nat → TableItem)) : Prop where
  hollow : Probing.Hollow fingerprintTableSize occ (keysOf result.2) hashInd result.1 cur
  hole : occ result.1
  keeps : ∀ item, Keeps occ result.2 result.1 item ↔ Keeps occ items e item
  rest : ∀ i, ¬ occ i → result.2 i = items i

/-- The loop over `n` occupied slots. -/
theorem shiftItems_spec (n : Nat) :
    ∀ {cur e : Nat} {items : Nat → TableItem},
      Probing.Hollow fingerprintTableSize occ (keysOf items) hashInd e cur →
      occ e → cur < fingerprintTableSize → cur ≠ e →
      Probing.dist fingerprintTableSize e cur + n < fingerprintTableSize →
      (∀ j < n, occ ((cur + j) % fingerprintTableSize)) →
      Shifted occ items e ((cur + n) % fingerprintTableSize)
        (shiftItems fingerprintTableSize n cur e items) := by
  induction n with
  | zero =>
      intro cur e items hhollow hhole hcur _ _ _
      rw [Nat.add_zero, Nat.mod_eq_of_lt hcur]
      exact ⟨hhollow, hhole, fun _ => Iff.rfl, fun _ _ => rfl⟩
  | succ n ih =>
      intro cur e items hhollow hhole hcur hne hspan hrun
      have hocc : occ cur := by
        have h := hrun 0 (Nat.succ_pos n)
        rwa [Nat.add_zero, Nat.mod_eq_of_lt hcur] at h
      have hpos := Probing.dist_pos hhollow.hole_lt hcur hne
      have hnext : (cur + 1) % fingerprintTableSize < fingerprintTableSize :=
        Nat.mod_lt _ fingerprintTableSize_pos
      have hrun' : ∀ j < n, occ (((cur + 1) % fingerprintTableSize + j) % fingerprintTableSize) := by
        intro j hj
        rw [Nat.mod_add_mod, Nat.add_right_comm, Nat.add_assoc]
        exact hrun (j + 1) (Nat.succ_lt_succ hj)
      have hend : ((cur + 1) % fingerprintTableSize + n) % fingerprintTableSize =
          (cur + (n + 1)) % fingerprintTableSize := by
        rw [Nat.mod_add_mod, Nat.add_right_comm, Nat.add_assoc]
      have hmoves : Probing.dist fingerprintTableSize e cur ≤
          Probing.dist fingerprintTableSize (hashInd (items cur).key) cur ↔
          mustMove e cur (hashInd (items cur).key) = true := by
        rw [Probing.le_dist_iff hhollow.hole_lt hcur (hashInd_lt _) hne]
        simp [mustMove]
      rw [shiftItems, ← hend]
      by_cases hmove : mustMove e cur (hashInd (items cur).key) = true
      · rw [if_pos hmove]
        have hstep := hhollow.move hcur hocc hne (hmoves.mpr hmove)
        have hone := Probing.dist_next hcur
        have hcurnext : (cur + 1) % fingerprintTableSize ≠ cur := by
          intro heq
          have hself := @Probing.dist_walk fingerprintTableSize cur 1 hcur (by omega)
          rw [heq, Probing.dist_self] at hself
          omega
        have hrest := ih (by rw [keysOf_update]; exact hstep) hocc hnext hcurnext (by omega) hrun'
        refine ⟨hrest.hollow, hrest.hole, fun item => ?_, fun i hi => ?_⟩
        · rw [hrest.keeps, keeps_move hhollow.hole_lt hcur hhole hocc hne]
        · rw [hrest.rest i hi, Function.update_of_ne]
          rintro rfl
          exact hi hhole
      · rw [if_neg hmove]
        have hstep := hhollow.skip hcur (by omega) (Nat.lt_of_not_le (mt hmoves.mp hmove))
        have hdist := Probing.dist_succ hhollow.hole_lt hcur (by omega)
        have hnextne : (cur + 1) % fingerprintTableSize ≠ e := by
          intro heq
          rw [heq, Probing.dist_self] at hdist
          omega
        exact ih hstep hhole hnext hnextne (by omega) hrun'

end Shift

namespace FingerprintTable

variable {table : FingerprintTable} {p : Nat} {items : Nat → TableItem}

theorem holds_vacate (i : Nat) : (table.vacate p items).Holds i ↔ table.Holds i ∧ i ≠ p := by
  have hword : p >>> 6 = p / 64 := Nat.shiftRight_eq_div_pow p 6
  have hbit : p &&& (0xFF >>> 2) = p % 64 := Nat.and_two_pow_sub_one_eq_mod p 6
  unfold Holds Taken vacate
  simp only [hword, hbit]
  by_cases hi : i / 64 = p / 64
  · rw [hi, Function.update_self, bit_setBit _ (Nat.mod_lt _ (by omega)) (Nat.mod_lt _ (by omega)),
      Bool.or_eq_false_iff, decide_eq_false_iff_not]
    exact and_congr Iff.rfl ⟨fun h he => h (by rw [he]), fun h he => h (by omega)⟩
  · rw [Function.update_of_ne hi]
    exact ⟨fun h => ⟨h, fun he => hi (by rw [he])⟩, And.left⟩

theorem slots_vacate : (table.vacate p items).slots = table.slots.erase p := by
  ext i
  rw [mem_slots, holds_vacate, Finset.mem_erase, mem_slots]
  constructor
  · rintro ⟨hi, hheld, hne⟩
    exact ⟨hne, hi, hheld⟩
  · rintro ⟨hne, hi, hheld⟩
    exact ⟨hi, hheld, hne⟩

theorem items_vacate_of_ne {i : Nat} (hi : i ≠ p) : (table.vacate p items).items i = items i :=
  Function.update_of_ne hi _ _

/-- The stored items of the new table are those the loop kept. -/
theorem stores_vacate (key : Digest) (entry : FingerprintEntry) :
    (table.vacate p items).Stores key entry ↔ Keeps table.Holds items p ⟨key, entry⟩ := by
  constructor
  · rintro ⟨i, hi, hitem⟩
    obtain ⟨hlt, hheld⟩ := mem_slots.mp hi
    obtain ⟨hheld, hne⟩ := (holds_vacate i).mp hheld
    rw [items_vacate_of_ne hne] at hitem
    exact ⟨i, hlt, hheld, hne, hitem⟩
  · rintro ⟨i, hlt, hheld, hne, hitem⟩
    refine ⟨i, mem_slots.mpr ⟨hlt, (holds_vacate i).mpr ⟨hheld, hne⟩⟩, ?_⟩
    rw [items_vacate_of_ne hne, hitem]

namespace Ok

/-- Freeing the hole that the loop leaves before a free slot keeps the invariant. -/
theorem vacate (hok : table.Ok) {e cur : Nat} {result : Nat × (Nat → TableItem)}
    (hshifted : Shifted table.Holds table.items e cur result)
    (hcur : cur < fingerprintTableSize) (hfree : ¬ table.Holds cur) :
    (table.vacate result.1 result.2).Ok := by
  have hholds := fun i => @holds_vacate table result.1 result.2 i
  refine ⟨hok.size_eq, ?_, ?_, ?_⟩
  · have hmem : result.1 ∈ table.slots :=
      mem_slots.mpr ⟨hshifted.hollow.hole_lt, hshifted.hole⟩
    rw [slots_vacate, Finset.card_erase_of_mem hmem, ← hok.cnt_eq]
    rfl
  · have hclosed := hshifted.hollow.close hcur hfree
    rw [show (table.vacate result.1 result.2).Holds = fun i => table.Holds i ∧ i ≠ result.1 from
      funext fun i => propext (hholds i)]
    apply hclosed.congr
    intro i hi
    rw [items_vacate_of_ne hi.2]
    rfl
  · intro i hi hempty
    by_cases hip : i = result.1
    · rw [hip]
      exact congrArg TableItem.key (Function.update_self result.1 zeroItem result.2)
    · have hfree' : ¬ table.Holds i := fun hheld => hempty ((hholds i).mpr ⟨hheld, hip⟩)
      rw [items_vacate_of_ne hip, hshifted.rest i hfree']
      exact hok.free_zero i hi hfree'

/-- The loop that `remvove_fingerprint_table` runs from slot `e` ends before a free slot. -/
theorem shiftItems (hok : table.Ok) (hroom : table.cnt < fingerprintTableSize) {e : Nat}
    (he : e ∈ table.slots) :
    ∃ cur < fingerprintTableSize, ¬ table.Holds cur ∧
      Shifted table.Holds table.items e cur (Store.shiftItems table.size
        (if e < getNextIndFingerprintTable table.isEmptyBitVector table.size e then
          getNextIndFingerprintTable table.isEmptyBitVector table.size e - e - 1
        else (table.size - e - 1) + getNextIndFingerprintTable table.isEmptyBitVector table.size e)
        ((e + 1) % table.size) e table.items) := by
  obtain ⟨hlt, hheld⟩ := mem_slots.mp he
  rw [hok.size_eq]
  rcases @getNextInd_spec table.isEmptyBitVector e hlt with ⟨t, hfree, hnext⟩ | ⟨hall, -⟩
  · have hpos : 0 < t := by
      apply Nat.pos_of_ne_zero
      rintro rfl
      apply hfree.free
      rwa [Nat.add_zero, Nat.mod_eq_of_lt hlt]
    have htlt := hfree.lt
    have hcount : (if e < (e + t) % fingerprintTableSize then
        (e + t) % fingerprintTableSize - e - 1
        else (fingerprintTableSize - e - 1) + (e + t) % fingerprintTableSize) = t - 1 := by
      rcases Nat.lt_or_ge (e + t) fingerprintTableSize with hlast | hwrap
      · rw [Nat.mod_eq_of_lt hlast, if_pos (by omega)]
        omega
      · rw [Nat.mod_eq_sub_mod hwrap, Nat.mod_eq_of_lt (by omega), if_neg (by omega)]
        omega
    have hone := @Probing.dist_walk fingerprintTableSize e 1 hlt (by omega)
    have hne : (e + 1) % fingerprintTableSize ≠ e := by
      intro heq
      rw [heq, Probing.dist_self] at hone
      exact absurd hone Nat.zero_ne_one
    have hend : ((e + 1) % fingerprintTableSize + (t - 1)) % fingerprintTableSize =
        (e + t) % fingerprintTableSize := by
      rw [Nat.mod_add_mod, show e + 1 + (t - 1) = e + t by omega]
    refine ⟨(e + t) % fingerprintTableSize, Nat.mod_lt _ fingerprintTableSize_pos, hfree.free, ?_⟩
    rw [hnext, hcount, ← hend]
    apply shiftItems_spec (t - 1) (hok.wellFormed.hollow hlt) hheld
      (Nat.mod_lt _ fingerprintTableSize_pos) hne (by omega)
    intro j hj
    rw [Nat.mod_add_mod, Nat.add_assoc]
    exact hfree.before (1 + j) (by omega)
  · have hslots : table.slots = Finset.range fingerprintTableSize :=
      Finset.filter_true_of_mem fun i hi => hall i (Finset.mem_range.mp hi)
    rw [hok.cnt_eq, hslots, Finset.card_range] at hroom
    exact absurd hroom (Nat.lt_irrefl _)

/-- `remvove_fingerprint_table` on a stored key. -/
theorem remove_stored (hok : table.Ok) (hroom : table.cnt < fingerprintTableSize)
    {fingerprint : Digest} {entry : FingerprintEntry} (hsearch : table.Searchable fingerprint)
    (hstores : table.Stores fingerprint entry) (retEntry : FingerprintEntry) :
    ∃ table', removeFingerprintTable table fingerprint retEntry = (0, table', entry) ∧
      table'.Ok ∧ table'.cnt + 1 = table.cnt ∧
      ∀ key value, table'.Stores key value ↔ table.Stores key value ∧ key ≠ fingerprint := by
  obtain ⟨e, he, hitem⟩ := hstores
  have hlt := (mem_slots.mp he).1
  have hfind := hok.find_slot hroom he (by rwa [key_eq hitem]) retEntry
  rw [hitem] at hfind
  obtain ⟨cur, hcur, hfree, hshifted⟩ := hok.shiftItems hroom he
  refine ⟨_, ?_, hok.vacate hshifted hcur hfree, ?_, fun key value => ?_⟩
  · unfold removeFingerprintTable
    simp only [hfind]
    rw [if_neg (Nat.ne_of_lt hlt)]
  · have hpos : 0 < table.cnt := by
      rw [hok.cnt_eq]
      exact Finset.card_pos.mpr ⟨e, he⟩
    exact Nat.sub_add_cancel hpos
  · rw [stores_vacate, hshifted.keeps]
    constructor
    · rintro ⟨i, hi, hheld, hne, hkept⟩
      refine ⟨⟨i, mem_slots.mpr ⟨hi, hheld⟩, hkept⟩, fun hkey => hne ?_⟩
      apply hok.wellFormed.unique i hi e hlt hheld (mem_slots.mp he).2
      rw [hkept, hitem, hkey]
    · rintro ⟨⟨i, hi, hkept⟩, hkey⟩
      refine ⟨i, (mem_slots.mp hi).1, (mem_slots.mp hi).2, ?_, hkept⟩
      rintro rfl
      exact hkey (congrArg TableItem.key (hkept.symm.trans hitem))

/-- `remvove_fingerprint_table` on an absent key. -/
theorem remove_absent (hok : table.Ok) (hroom : table.cnt < fingerprintTableSize)
    {fingerprint : Digest} (hsearch : table.Searchable fingerprint)
    (habsent : ∀ entry, ¬ table.Stores fingerprint entry) (retEntry : FingerprintEntry) :
    removeFingerprintTable table fingerprint retEntry = (-1, table, retEntry) := by
  unfold removeFingerprintTable
  simp only [hok.find_absent hroom hsearch habsent]
  rw [if_pos trivial]

end Ok

end FingerprintTable

end NetDedup.Store

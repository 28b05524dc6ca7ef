import NetDedup.Lib.Run
import NetDedup.Store.FullTable
import NetDedup.Store.TableRemoval

/-!
# The table as a map

Runs of inserts and removals against a partial map from keys to entries. A
slot stays free at all times, and new keys are absent and not all zero. The
all-zero key is the key of an empty slot: its removal can find one.
-/

namespace NetDedup.Store

/-- A call on the table. -/
inductive TableOp where
  | insert (key : Digest) (entry : FingerprintEntry)
  | remove (key : Digest)

/-- The table with the map it stands for. -/
structure TableState where
  table : FingerprintTable
  map : Digest → Option FingerprintEntry

/-- `init_fingerprint_table` on zeroed items. -/
def TableState.initial : TableState := ⟨initFingerprintTable zeroTable, fun _ => none⟩

/-- One call; what the caller's `ret_entry` holds does not matter to the table. -/
def TableState.step (st : TableState) : TableOp → Option TableState
  | .insert key entry => some {
      table := (insertFingerprintTable st.table key entry).2
      map := Function.update st.map key (some entry) }
  | .remove key => some {
      table := (removeFingerprintTable st.table key zeroEntry).2.1
      map := Function.update st.map key none }

/-- Inserts are of absent keys that are not all zero, and leave a slot free. -/
def TableOp.InsertsNew (st : TableState) : TableOp → Prop
  | .insert key _ => key ≠ zeroDigest ∧ st.map key = none ∧
      st.table.cnt + 1 < fingerprintTableSize
  | .remove _ => True

/-- And no removal is of the all-zero key. -/
def TableOp.Allowed (st : TableState) (op : TableOp) : Prop :=
  op.InsertsNew st ∧ op ≠ .remove zeroDigest

/-- `find_fingerprint_table` answers as the map does. -/
structure FindsMap (table : FingerprintTable) (map : Digest → Option FingerprintEntry) : Prop where
  found : ∀ key entry, map key = some entry → ∀ retEntry, ∃ i < fingerprintTableSize,
    findFingerprintTable table key retEntry = (i, entry)
  notFound : ∀ key, key ≠ zeroDigest → map key = none → ∀ retEntry,
    findFingerprintTable table key retEntry = (fingerprintTableSize, retEntry)

/-- The bookkeeping of the table. -/
structure Consistent (table : FingerprintTable) : Prop where
  /-- `cnt` is the number of cleared bits below the size. -/
  cnt_eq : table.cnt = ((Finset.range fingerprintTableSize).filter fun i =>
    BitScan.bit (table.isEmptyBitVector (i / 64)) (i % 64) = false).card
  empty_zero : ∀ i < fingerprintTableSize,
    BitScan.bit (table.isEmptyBitVector (i / 64)) (i % 64) = true →
    (table.items i).key = zeroDigest
  /-- No slot on the way from a key's hash index to its slot is empty. -/
  reachable : ∀ i < fingerprintTableSize,
    BitScan.bit (table.isEmptyBitVector (i / 64)) (i % 64) = false →
    ∀ j < Probing.dist fingerprintTableSize (hashInd (table.items i).key) i,
      BitScan.bit (table.isEmptyBitVector
        ((hashInd (table.items i).key + j) % fingerprintTableSize / 64))
        ((hashInd (table.items i).key + j) % fingerprintTableSize % 64) = false

/-- The table finds the keys of the map with their entries and keeps its
books, and removals answer as the map does and leave such a table behind. -/
structure CorrectMap (st : TableState) : Prop where
  finds : FindsMap st.table st.map
  consistent : Consistent st.table
  /-- Removing a stored key yields its entry and takes this key alone out. -/
  removes : ∀ key entry, st.map key = some entry → ∀ retEntry, ∃ table',
    removeFingerprintTable st.table key retEntry = (0, table', entry) ∧
      table'.cnt + 1 = st.table.cnt ∧ FindsMap table' (Function.update st.map key none) ∧
      Consistent table'
  /-- Removing an absent key changes nothing. -/
  keeps : ∀ key, key ≠ zeroDigest → st.map key = none → ∀ retEntry,
    removeFingerprintTable st.table key retEntry = (-1, st.table, retEntry)

/-- The table holds what the map says, with a slot to spare. -/
structure TableState.Ok (st : TableState) : Prop where
  ok : st.table.Ok
  room : st.table.cnt < fingerprintTableSize
  stores_iff : ∀ key entry, st.table.Stores key entry ↔ st.map key = some entry
  nonzero : ∀ key entry, st.map key = some entry → key ≠ zeroDigest

theorem FingerprintTable.Ok.consistent {table : FingerprintTable} (hok : table.Ok) :
    Consistent table where
  cnt_eq := by
    rw [hok.cnt_eq]
    apply congrArg Finset.card
    ext i
    rw [FingerprintTable.mem_slots, Finset.mem_filter, Finset.mem_range]
    rfl
  empty_zero i hi hempty := by
    apply hok.free_zero i hi
    intro hheld
    exact Bool.false_ne_true (hheld.symm.trans hempty)
  reachable i hi hheld j hj := hok.wellFormed.path i hi hheld j hj

namespace TableState

variable {st : TableState}

theorem initial_ok : initial.Ok where
  ok := initFingerprintTable_ok
  room := fingerprintTableSize_pos
  stores_iff _ _ :=
    iff_of_false (initFingerprintTable_stores _ _) (Option.some_ne_none _).symm
  nonzero _ _ h := absurd h.symm (Option.some_ne_none _)

namespace Ok

theorem absent (hst : st.Ok) {key : Digest} (hnone : st.map key = none)
    (entry : FingerprintEntry) : ¬ st.table.Stores key entry := by
  intro hstores
  rw [hst.stores_iff, hnone] at hstores
  exact Option.some_ne_none entry hstores.symm

theorem findsMap (hst : st.Ok) : FindsMap st.table st.map where
  found key entry hsome retEntry :=
    hst.ok.find_stored hst.room (Or.inl (hst.nonzero key entry hsome))
      ((hst.stores_iff key entry).mpr hsome) retEntry
  notFound _ hne hnone retEntry :=
    hst.ok.find_absent hst.room (Or.inl hne) (hst.absent hnone) retEntry

/-- An insert of an absent key that leaves a slot free. -/
theorem insert (hst : st.Ok) {key : Digest} (hne : key ≠ zeroDigest) (hnone : st.map key = none)
    (hroom : st.table.cnt + 1 < fingerprintTableSize) (entry : FingerprintEntry) :
    Ok ⟨(insertFingerprintTable st.table key entry).2,
      Function.update st.map key (some entry)⟩ := by
  obtain ⟨p, hp, hfree, hput, hok⟩ := hst.ok.insert hst.room (hst.absent hnone) entry
  rw [hput]
  refine ⟨hok, hroom, fun f e => ?_, fun f e hsome => ?_⟩
  rotate_left
  · change Function.update st.map key (some entry) f = some e at hsome
    by_cases hf : f = key
    · rwa [hf]
    · rw [Function.update_of_ne hf] at hsome
      exact hst.nonzero f e hsome
  change _ ↔ Function.update st.map key (some entry) f = some e
  rw [FingerprintTable.stores_fill hp hfree, hst.stores_iff]
  by_cases hf : f = key
  · rw [hf, Function.update_self, hnone, Option.some_inj]
    constructor
    · rintro (h | ⟨-, rfl⟩)
      · exact absurd h.symm (Option.some_ne_none e)
      · rfl
    · rintro rfl
      exact Or.inr ⟨rfl, rfl⟩
  · rw [Function.update_of_ne hf]
    exact or_iff_left fun h => hf h.1

/-- A removal of a stored key. -/
theorem remove (hst : st.Ok) {key : Digest} {entry : FingerprintEntry}
    (hsome : st.map key = some entry) (retEntry : FingerprintEntry) :
    ∃ table', removeFingerprintTable st.table key retEntry = (0, table', entry) ∧
      table'.cnt + 1 = st.table.cnt ∧ Ok ⟨table', Function.update st.map key none⟩ := by
  obtain ⟨table', hremove, hok, hcnt, hstores⟩ :=
    hst.ok.remove_stored hst.room (Or.inl (hst.nonzero key entry hsome))
      ((hst.stores_iff key entry).mpr hsome) retEntry
  have hroom := hst.room
  refine ⟨table', hremove, hcnt, hok, by show table'.cnt < _; omega, fun f e => ?_,
    fun f e hsome' => ?_⟩
  rotate_left
  · change Function.update st.map key none f = some e at hsome'
    by_cases hf : f = key
    · rw [hf, Function.update_self] at hsome'
      exact absurd hsome'.symm (Option.some_ne_none e)
    · rw [Function.update_of_ne hf] at hsome'
      exact hst.nonzero f e hsome'
  change _ ↔ Function.update st.map key none f = some e
  rw [hstores, hst.stores_iff]
  by_cases hf : f = key
  · rw [hf, Function.update_self]
    exact iff_of_false (fun h => h.2 rfl) (Option.some_ne_none e).symm
  · rw [Function.update_of_ne hf]
    exact and_iff_left hf

theorem correctMap (hst : st.Ok) : CorrectMap st where
  finds := hst.findsMap
  consistent := hst.ok.consistent
  removes key entry hsome retEntry := by
    obtain ⟨table', hremove, hcnt, hok⟩ := hst.remove hsome retEntry
    exact ⟨table', hremove, hcnt, hok.findsMap, hok.ok.consistent⟩
  keeps key hne hnone retEntry :=
    hst.ok.remove_absent hst.room (Or.inl hne) (hst.absent hnone) retEntry

/-- One allowed call. -/
theorem step (hst : st.Ok) {op : TableOp} (hop : op.Allowed st) {st' : TableState}
    (hstep : st.step op = some st') : st'.Ok := by
  cases op with
  | insert key entry =>
      obtain ⟨hne, hnone, hroom⟩ := hop.1
      obtain rfl := Option.some_inj.mp hstep
      exact hst.insert hne hnone hroom entry
  | remove key =>
      have hne : key ≠ zeroDigest := fun h => hop.2 (congrArg TableOp.remove h)
      obtain rfl := Option.some_inj.mp hstep
      cases hmap : st.map key with
      | none =>
          have hupdate : Function.update st.map key none = st.map := by
            rw [← hmap, Function.update_eq_self]
          rw [hst.ok.remove_absent hst.room (Or.inl hne) (hst.absent hmap), hupdate]
          exact hst
      | some entry =>
          obtain ⟨table', hremove, -, hok⟩ := hst.remove hmap zeroEntry
          rw [hremove]
          exact hok

end Ok

end TableState

/-- In every state of a run of inserts and removals the table is a correct map. -/
theorem tableRun_correctMap {ops : List TableOp} {st : TableState}
    (hops : Run.Guarded TableState.step TableOp.Allowed .initial ops)
    (hrun : Run.run TableState.step .initial ops = some st) : CorrectMap st :=
  (Run.run_invariant (fun _ _ _ hst hop hstep => hst.step hop hstep)
    TableState.initial_ok hops hrun).correctMap

section Inserts

/-- The call that inserts an item. -/
def insertOp (item : TableItem) : TableOp := .insert item.key item.value

/-- Inserts of new and pairwise distinct keys that leave a slot free are allowed. -/
theorem inserts_allowed {more : List TableItem} {st : TableState} {items : List TableItem}
    (hfilled : Filled st.table items)
    (hnone : ∀ key, (∀ item ∈ items, item.key ≠ key) → st.map key = none)
    (hne : ∀ item ∈ more, item.key ≠ zeroDigest)
    (hdistinct : ((items ++ more).map (·.key)).Nodup)
    (hlen : items.length + more.length < fingerprintTableSize) :
    Run.Guarded TableState.step TableOp.Allowed st (more.map insertOp) ∧
      ∃ st', Run.run TableState.step st (more.map insertOp) = some st' ∧
        Filled st'.table (items ++ more) := by
  induction more generalizing st items with
  | nil => exact ⟨trivial, st, rfl, by rwa [List.append_nil]⟩
  | cons item more ih =>
      have hnew : ∀ other ∈ items, other.key ≠ item.key := by
        rw [List.map_append, List.nodup_append] at hdistinct
        intro other hother
        exact hdistinct.2.2 _ (List.mem_map_of_mem hother) _
          (List.mem_map_of_mem List.mem_cons_self)
      have hsplit : items ++ item :: more = items ++ [item] ++ more := by
        rw [List.append_assoc, List.singleton_append]
      rw [List.length_cons] at hlen
      obtain ⟨-, hnext⟩ := hfilled.insert (by omega) (hne item List.mem_cons_self) hnew
      obtain ⟨hrest, st', hrun, hlast⟩ := @ih ⟨(insertFingerprintTable st.table item.key
          item.value).2, Function.update st.map item.key (some item.value)⟩ (items ++ [item]) hnext
        (fun key habsent => by
          have hkey := habsent item (List.mem_append_right _ List.mem_cons_self)
          change Function.update st.map item.key (some item.value) key = none
          rw [Function.update_of_ne hkey.symm]
          exact hnone key fun other hother => habsent other (List.mem_append_left _ hother))
        (fun other h => hne other (List.mem_cons_of_mem _ h)) (hsplit ▸ hdistinct)
        (by rw [List.length_append, List.length_singleton]; omega)
      refine ⟨Run.guarded_cons.mpr ⟨⟨⟨hne item List.mem_cons_self, hnone _ hnew, ?_⟩, ?_⟩, ?_⟩,
        st', hrun, hsplit ▸ hlast⟩
      · rw [hfilled.cnt_eq]
        omega
      · exact TableOp.noConfusion
      · intro st₁ hst₁
        obtain rfl := Option.some_inj.mp hst₁
        exact hrest

/-- So are inserts of numbered keys into a fresh table. -/
theorem numbered_allowed {n : Nat} (hn : n < fingerprintTableSize) :
    Run.Guarded TableState.step TableOp.Allowed .initial ((numberedItems n).map insertOp) ∧
      ∃ st, Run.run TableState.step .initial ((numberedItems n).map insertOp) = some st ∧
        Filled st.table (numberedItems n) := by
  have hlt : n < 2 ^ 32 := Nat.lt_trans hn (by decide)
  exact @inserts_allowed _ .initial _ initFingerprintTable_filled (fun _ _ => rfl)
    (numberedItems_nonzero hlt) (numberedItems_distinct hlt)
    (by rwa [List.length_nil, Nat.zero_add, numberedItems_length])

end Inserts

/-- Three keys with one hash index are inserted, and the first is removed again. -/
theorem tableRun_correctMap_removeFirst :
    ∃ st, Run.run TableState.step .initial
        ((numberedItems 3).map insertOp ++ [.remove (numberedKey 1)]) = some st ∧
      CorrectMap st := by
  obtain ⟨hinserts, st, hrun, -⟩ := @numbered_allowed 3 (by decide)
  have hkey : numberedKey 1 ≠ zeroDigest :=
    numberedItems_nonzero (n := 3) (by decide) ⟨numberedKey 1, zeroEntry⟩ List.mem_cons_self
  obtain ⟨st', hst'⟩ : ∃ st', st.step (.remove (numberedKey 1)) = some st' := ⟨_, rfl⟩
  have hrun' : Run.run TableState.step .initial
      ((numberedItems 3).map insertOp ++ [.remove (numberedKey 1)]) = some st' := by
    rw [Run.run_append, hrun, Option.bind_some, Run.run, hst']
    rfl
  have hremove (s : TableState) : Run.Guarded TableState.step TableOp.Allowed s
      [.remove (numberedKey 1)] :=
    Run.guarded_cons.mpr ⟨⟨trivial, fun h => hkey (TableOp.remove.inj h)⟩, fun _ _ => trivial⟩
  exact ⟨st', hrun', tableRun_correctMap
    (Run.guarded_append.mpr ⟨hinserts, fun s _ => hremove s⟩) hrun'⟩

section ZeroKey

variable {table : FingerprintTable}

/-- When no key moves, the hole stays where it is. -/
theorem shiftItems_stays {size e : Nat} {items : Nat → TableItem} (n : Nat) :
    ∀ {cur : Nat}, cur < size →
      (∀ i < size, mustMove e i (hashInd (items i).key) = false) →
      shiftItems size n cur e items = (e, items) := by
  induction n with
  | zero => exact fun _ _ => rfl
  | succ n ih =>
      intro cur hcur hstay
      rw [shiftItems, hstay cur hcur]
      exact ih (Nat.mod_lt _ (Nat.zero_lt_of_lt hcur)) hstay

/-- No key moves into the slot before the hash index of all of them. -/
theorem mustMove_before {e cur : Nat} : mustMove e cur (e + 1) = false := by
  have hbehind : ¬ e + 1 ≤ e := by omega
  rw [mustMove, decide_eq_false hbehind, Bool.false_and, Bool.and_false, Bool.or_false,
    Bool.false_or, ← Bool.decide_and, decide_eq_false_iff_not]
  omega

namespace FingerprintTable.Ok

/-- A walk that ends at its only free slot finds the zeroed key there. -/
theorem find_zero (hok : table.Ok) (hroom : table.cnt < fingerprintTableSize)
    (hne : ∀ i ∈ table.slots, (table.items i).key ≠ zeroDigest) {t : Nat}
    (hfree : Probing.FirstFree fingerprintTableSize table.Holds (hashInd zeroDigest) t)
    (hwrap : fingerprintTableSize ≤ hashInd zeroDigest + t) (retEntry : FingerprintEntry) :
    findFingerprintTable table zeroDigest retEntry =
      ((hashInd zeroDigest + t) % fingerprintTableSize,
        (table.items ((hashInd zeroDigest + t) % fingerprintTableSize)).value) := by
  have hslot := Nat.mod_lt (hashInd zeroDigest + t) fingerprintTableSize_pos
  have hzero := hok.free_zero _ hslot hfree.free
  obtain ⟨t', hfree', hnext⟩ := hok.exists_firstFree hroom zeroDigest
  obtain rfl : t = t' := hfree.unique hfree'
  have hsearch : Probing.search (fun i => (table.items i).key) fingerprintTableSize zeroDigest
      (t + 1) (hashInd zeroDigest) = some ((hashInd zeroDigest + t) % fingerprintTableSize) := by
    cases hs : Probing.search (fun i => (table.items i).key) fingerprintTableSize zeroDigest
        (t + 1) (hashInd zeroDigest) with
    | none => exact absurd hzero (Probing.search_none _ (hashInd_lt _) hs t (Nat.lt_succ_self t))
    | some i =>
        obtain ⟨hkey, j, hj, rfl⟩ := Probing.search_some _ (hashInd_lt _) hs
        rcases Nat.lt_or_eq_of_le (Nat.le_of_lt_succ hj) with hlt | rfl
        · exact absurd hkey (hne _ (mem_slots.mpr
            ⟨Nat.mod_lt _ fingerprintTableSize_pos, hfree.before j hlt⟩))
        · rfl
  unfold findFingerprintTable
  simp only [hnext]
  rw [hok.size_eq, itemsToCheck (hashInd_lt zeroDigest) hfree.lt, if_neg (by omega), hsearch]

/-- From a free slot the next free slot is the slot itself. -/
theorem next_of_free {e : Nat} (he : e < fingerprintTableSize) (hfree : ¬ table.Holds e) :
    getNextIndFingerprintTable table.isEmptyBitVector fingerprintTableSize e = e := by
  rcases @getNextInd_spec table.isEmptyBitVector e he with ⟨t, ht, hnext⟩ | ⟨hall, -⟩
  · have hzero : t = 0 := by
      by_contra hpos
      have hheld := ht.before 0 (Nat.pos_of_ne_zero hpos)
      rw [Nat.add_zero, Nat.mod_eq_of_lt he] at hheld
      exact hfree hheld
    rw [hnext, hzero, Nat.add_zero, Nat.mod_eq_of_lt he]
  · exact absurd (hall e he) hfree

/-- Removing the all-zero key then succeeds: `cnt` goes down, and no slot is freed. -/
theorem remove_zero (hok : table.Ok) (hroom : table.cnt < fingerprintTableSize)
    (hne : ∀ i ∈ table.slots, (table.items i).key ≠ zeroDigest) {t : Nat}
    (hfree : Probing.FirstFree fingerprintTableSize table.Holds (hashInd zeroDigest) t)
    (hwrap : fingerprintTableSize ≤ hashInd zeroDigest + t)
    (hkeys : ∀ i < fingerprintTableSize, hashInd (table.items i).key =
      (hashInd zeroDigest + t) % fingerprintTableSize + 1) (retEntry : FingerprintEntry) :
    (removeFingerprintTable table zeroDigest retEntry).1 = 0 ∧
      (removeFingerprintTable table zeroDigest retEntry).2.1.cnt = table.cnt - 1 ∧
      (removeFingerprintTable table zeroDigest retEntry).2.1.slots = table.slots := by
  have hslot := Nat.mod_lt (hashInd zeroDigest + t) fingerprintTableSize_pos
  have hremove : ∃ entry, removeFingerprintTable table zeroDigest retEntry =
      (0, table.vacate ((hashInd zeroDigest + t) % fingerprintTableSize) table.items, entry) := by
    unfold removeFingerprintTable
    simp only [hok.find_zero hroom hne hfree hwrap]
    rw [if_neg (Nat.ne_of_lt hslot), hok.size_eq, next_of_free hslot hfree.free,
      shiftItems_stays _ (Nat.mod_lt _ fingerprintTableSize_pos)
        fun i hi => by rw [hkeys i hi]; exact mustMove_before]
    exact ⟨_, rfl⟩
  obtain ⟨entry, hremove⟩ := hremove
  rw [hremove]
  refine ⟨rfl, rfl, ?_⟩
  rw [slots_vacate, Finset.erase_eq_of_notMem fun hmem => hfree.free (mem_slots.mp hmem).2]

/-- Keys with one hash index lie behind it without a gap. -/
theorem firstFree_eq (hok : table.Ok) {h t : Nat} (hh : h < fingerprintTableSize)
    (hkeys : ∀ i ∈ table.slots, hashInd (table.items i).key = h)
    (hfree : Probing.FirstFree fingerprintTableSize table.Holds h t) : t = table.cnt := by
  refine Nat.le_antisymm (hok.firstFree_le hh hfree) ?_
  rw [hok.cnt_eq, ← Finset.card_range t]
  apply Finset.card_le_card_of_injOn (Probing.dist fingerprintTableSize h)
  · intro i hi
    obtain ⟨hlt, hheld⟩ := mem_slots.mp hi
    have hkey := hkeys i hi
    have hdist := hok.wellFormed.dist_lt_free hlt hheld (by rwa [hkey])
    rw [hkey] at hdist
    exact Finset.mem_coe.mpr (Finset.mem_range.mpr hdist)
  · intro i hi j hj hij
    have hilt := (mem_slots.mp hi).1
    have hjlt := (mem_slots.mp hj).1
    rw [← Probing.walk_dist hh hilt, ← Probing.walk_dist hh hjlt, hij]

end FingerprintTable.Ok

/-- The numbered keys share the hash index of the all-zero key. -/
theorem Filled.hashInd_eq {n : Nat} (hfilled : Filled table (numberedItems n)) (i : Nat)
    (hi : i < fingerprintTableSize) : hashInd (table.items i).key = hashInd zeroDigest := by
  have hzero : hashInd zeroDigest = fingerprintHashFunc64 0 := by
    decide
  by_cases hheld : table.Holds i
  · have hmem := (hfilled.stores_iff _ _).mp ⟨i, FingerprintTable.mem_slots.mpr ⟨hi, hheld⟩, rfl⟩
    obtain ⟨j, -, hj⟩ := List.mem_map.mp hmem
    have hkey : numberedKey (j + 1) = (table.items i).key := congrArg TableItem.key hj
    rw [← hkey, hashInd_numberedKey, hzero]
  · rw [hfilled.ok.free_zero i hi hheld]

theorem Consistent.cnt_eq_card (h : Consistent table) : table.cnt = table.slots.card := by
  rw [h.cnt_eq]
  apply congrArg Finset.card
  ext i
  rw [FingerprintTable.mem_slots, Finset.mem_filter, Finset.mem_range]
  rfl

end ZeroKey

/-- All but one slot are taken by keys with one hash index. The search for the
all-zero key, which is absent, goes round the table and finds the empty slot. -/
theorem not_correctMap_of_zero {n : Nat} (hn : n + 1 = fingerprintTableSize) :
    Run.Guarded TableState.step TableOp.InsertsNew .initial
        ((numberedItems n).map insertOp ++ [.remove zeroDigest]) ∧
      ∃ st, Run.run TableState.step .initial
        ((numberedItems n).map insertOp ++ [.remove zeroDigest]) = some st ∧ ¬ CorrectMap st := by
  obtain ⟨hinserts, st, hrun, hfilled⟩ := @numbered_allowed n (by omega)
  obtain ⟨st', hst'⟩ : ∃ st', st.step (.remove zeroDigest) = some st' := ⟨_, rfl⟩
  have hrun' : Run.run TableState.step .initial
      ((numberedItems n).map insertOp ++ [.remove zeroDigest]) = some st' := by
    rw [Run.run_append, hrun, Option.bind_some, Run.run, hst']
    rfl
  have hremove (s : TableState) : Run.Guarded TableState.step TableOp.InsertsNew s
      [.remove zeroDigest] :=
    Run.guarded_cons.mpr ⟨trivial, fun _ _ => trivial⟩
  refine ⟨Run.guarded_append.mpr ⟨hinserts.mono fun _ _ h => h.1, fun s _ => hremove s⟩, st',
    hrun', fun hcorrect => ?_⟩
  have hcnt : st.table.cnt = n := by
    rw [hfilled.cnt_eq, numberedItems_length]
  have hkeys := hfilled.hashInd_eq
  have hroom : st.table.cnt < fingerprintTableSize := by omega
  obtain ⟨t, hfree, -⟩ := hfilled.ok.exists_firstFree hroom zeroDigest
  have ht : t = n := by
    rw [hfilled.ok.firstFree_eq (hashInd_lt _)
      (fun i hi => hkeys i (FingerprintTable.mem_slots.mp hi).1) hfree, hcnt]
  have hpos : 1 ≤ hashInd zeroDigest := by decide
  have hlt := hashInd_lt zeroDigest
  -- the empty slot is right before the hash index
  have hhole : hashInd zeroDigest = (hashInd zeroDigest + t) % fingerprintTableSize + 1 := by
    rw [Nat.mod_eq_sub_mod (by omega), Nat.mod_eq_of_lt (by omega)]
    omega
  have hnonzero : ∀ i ∈ st.table.slots, (st.table.items i).key ≠ zeroDigest := fun i hi =>
    hfilled.nonzero _ ((hfilled.stores_iff _ _).mp ⟨i, hi, rfl⟩)
  obtain ⟨-, hcnt', hslots⟩ := hfilled.ok.remove_zero hroom hnonzero hfree (by omega)
    (fun i hi => (hkeys i hi).trans hhole) zeroEntry
  have hbooks := hcorrect.consistent.cnt_eq_card
  obtain rfl := Option.some_inj.mp hst'
  simp only at hbooks
  rw [hcnt', hslots, ← hfilled.ok.cnt_eq, hcnt] at hbooks
  have hmany : 1 < fingerprintTableSize := by decide
  omega

theorem tableRun_correctMap_fails :
    Run.Guarded TableState.step TableOp.InsertsNew .initial
        ((numberedItems (fingerprintTableSize - 1)).map insertOp ++ [.remove zeroDigest]) ∧
      ∃ st, Run.run TableState.step .initial
        ((numberedItems (fingerprintTableSize - 1)).map insertOp ++ [.remove zeroDigest]) =
          some st ∧ ¬ CorrectMap st :=
  not_correctMap_of_zero (Nat.sub_add_cancel fingerprintTableSize_pos)

end NetDedup.Store

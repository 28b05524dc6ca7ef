import Mathlib.Algebra.BigOperators.Group.Finset.Basic
import NetDedup.Lib.WriteOnce
import NetDedup.Store.CacheInvariant

/-!
# Runs of cache inserts

What a fingerprint cache holds after any sequence of `insert_fingerprint`
calls on an initialised cache: a write-once map from digests to contents, on
pages that different entries never share. Inserting a stored digest again
keeps the map but loses the pages it took, so page accounting holds exactly in
the runs without such a call.
-/

namespace NetDedup.Store

open Chunking Memory FingerprintCache

/-- A cache in zeroed memory. -/
def zeroCache : FingerprintCache where
  fingerprintingSettings := ⟨0, 0, 0, 0, 0, 0, 0, 0, fun _ => 0⟩
  stats := ⟨0, 0, 0, 0⟩
  table := zeroTable
  capacityBytes := 0
  cache := fun _ => 0
  numFreePages := 0
  freePages := fun _ => 0
  freePagesReadInd := 0
  freePagesWriteInd := 0

/-- The arguments of one `insert_fingerprint` call. -/
structure InsertCall where
  newFingerprint : Fingerprint
  content : List UInt8
  retEntry : Option FingerprintEntry

namespace InsertCall

variable (call : InsertCall)

def key : Digest := call.newFingerprint.fingerprint

/-- The bytes that are to be stored. -/
def bytes : List UInt8 := call.content.take call.newFingerprint.contentSize

/-- A size the pages of an entry can hold, and a content that is there. -/
def Ok : Prop := Insertable call.newFingerprint call.content

end InsertCall

/-- The calls one after another, with what each returns. -/
def insertAll (c : FingerprintCache) : List InsertCall → Option (List Int × FingerprintCache)
  | [] => some ([], c)
  | call :: calls => do
      let (r, c, _) ← insertFingerprint c call.newFingerprint call.content call.retEntry
      let (results, c) ← insertAll c calls
      some (r :: results, c)

/-- The calls and their return values as attempts on a write-once map. -/
def attempts (calls : List InsertCall) (results : List Int) :
    List (WriteOnce.Attempt Digest (List UInt8)) :=
  List.zipWith (fun call r => ⟨call.key, call.bytes, decide (r = 0)⟩) calls results

theorem initFingerprintCache_ok : (initFingerprintCache zeroCache).Ok where
  table := initFingerprintTable_ok
  free_eq := fun _ hi => if_pos hi
  free_le := Nat.le_refl _
  read_eq := by
    change 0 = (fingerprintCacheNumPages - fingerprintCacheNumPages) % _
    rw [Nat.sub_self, Nat.zero_mod]
  room := Nat.le_of_eq (Nat.zero_add _)
  placed := fun f e h => absurd h (initFingerprintTable_stores f e)
  apart := fun f e _ _ h => absurd h (initFingerprintTable_stores f e)

section ContentStore

variable {c : FingerprintCache} {m : Digest → Option (List UInt8)}

/-- The cache yields what the map holds. -/
def Represents (c : FingerprintCache) (m : Digest → Option (List UInt8)) : Prop :=
  ∀ f bs, c.Yields f bs ↔ m f = some bs

theorem initFingerprintCache_represents :
    Represents (initFingerprintCache zeroCache) (fun _ => none) := by
  intro f bs
  refine ⟨?_, fun h => absurd h (by simp)⟩
  rintro ⟨e, h, -⟩
  exact absurd h (initFingerprintTable_stores f e)

/-- One call of `insert_fingerprint` is one attempt on the map. -/
theorem Represents.insert (hrep : Represents c m) (hok : c.Ok) {call : InsertCall} (hcall : call.Ok)
    {retEntry : Option FingerprintEntry} {r : Int} {c' : FingerprintCache} {e : FingerprintEntry}
    (h : Inserted c call.newFingerprint call.content retEntry r c' e) :
    Represents c' (WriteOnce.attempt m ⟨call.key, call.bytes, decide (r = 0)⟩) := by
  intro f bs
  rw [h.yields hok hcall, hrep f bs]
  unfold WriteOnce.attempt
  by_cases hr : r = 0
  · simp only [hr, decide_true, if_true, true_and, WriteOnce.put]
    by_cases hf : f = call.key
    · subst hf
      rw [Function.update_self]
      cases hm : m call.key with
      | none =>
          have hnone (bs' : List UInt8) : ¬ c.Yields call.newFingerprint.fingerprint bs' := by
            rw [hrep]
            exact fun h => absurd (hm.symm.trans h) (by simp)
          simp only [Option.getD_none, Option.some_inj, false_or, reduceCtorEq]
          exact ⟨fun h => h.2.1.symm, fun h => ⟨rfl, h.symm, hnone⟩⟩
      | some v =>
          have hsome : c.Yields call.newFingerprint.fingerprint v := (hrep _ v).mpr hm
          simp only [Option.getD_some, Option.some_inj]
          exact ⟨fun h => h.resolve_right fun h => h.2.2 v hsome, Or.inl⟩
    · rw [Function.update_of_ne hf]
      exact ⟨fun h => h.resolve_right fun h => hf h.1, Or.inl⟩
  · simp [hr]

/-- A run of calls is a run of attempts on the map. -/
theorem insertAll_represents (calls : List InsertCall) :
    ∀ {c : FingerprintCache} {m : Digest → Option (List UInt8)}, c.Ok → Represents c m →
      (∀ call ∈ calls, call.Ok) →
      ∃ results c', insertAll c calls = some (results, c') ∧ c'.Ok ∧
        results.length = calls.length ∧
        Represents c' (WriteOnce.run m (attempts calls results)) := by
  induction calls with
  | nil => exact fun hok hrep _ => ⟨[], _, rfl, hok, rfl, hrep⟩
  | cons call calls ih =>
      intro c m hok hrep hcalls
      obtain ⟨hcall, hrest⟩ := List.forall_mem_cons.mp hcalls
      obtain ⟨r, c₁, e, heq, hins⟩ := hok.insertFingerprint_cases hcall call.retEntry
      obtain ⟨results, c₂, hrun, hok₂, hlen, hrep₂⟩ :=
        ih (hins.ok hok) (hrep.insert hok hcall hins) hrest
      refine ⟨r :: results, c₂, ?_, hok₂, congrArg Nat.succ hlen, hrep₂⟩
      simp only [insertAll, heq, hrun, Option.bind_eq_bind, Option.bind_some]

/-- What a lookup and a copy see of the map. -/
theorem Represents.lookup (hrep : Represents c m) (hok : c.Ok) (f : Digest)
    (retEntry : FingerprintEntry) :
    ((lookupFingerprint c f retEntry).1 = 1 ↔ (m f).isSome) ∧
    ∀ bs, m f = some bs →
      copyFingerprintContent c (lookupFingerprint c f retEntry).2 = some bs := by
  by_cases hstored : ∃ e, c.table.Stores f e
  · obtain ⟨e, he⟩ := hstored
    have hm := (hrep f _).mp ⟨e, he, (hok.placed_all he).copy⟩
    rw [hok.lookup_stored he, hm]
    refine ⟨by simp, fun bs hbs => ?_⟩
    rw [(hok.placed_all he).copy, hbs]
  · have hm : m f = none := by
      cases hm : m f with
      | none => rfl
      | some bs =>
          obtain ⟨e, he, -⟩ := (hrep f bs).mpr hm
          exact absurd ⟨e, he⟩ hstored
    rw [hok.lookup_absent (not_exists.mp hstored), hm]
    exact ⟨by simp, fun bs h => absurd h (by simp)⟩

end ContentStore

/-- The page numbers of a stored content. -/
def FingerprintEntry.pages (e : FingerprintEntry) : List Nat :=
  e.contentPageNums.toList.take e.numPages

theorem FingerprintEntry.Placed.mem_pages {e : FingerprintEntry} {limit : Nat} (h : e.Placed limit)
    {p : Nat} (hp : p ∈ e.pages) : e.base ≤ p ∧ p < e.base + e.numPages := by
  obtain ⟨i, hi, rfl⟩ := List.mem_iff_getElem.mp hp
  have hlt : i < e.numPages :=
    Nat.lt_of_lt_of_le hi (by rw [pages, List.length_take]; exact Nat.min_le_left _ _)
  have hspan := h.spans i hlt
  rw [← Vector.getElem?_toList] at hspan
  obtain ⟨hbound, heq⟩ := List.getElem?_eq_some_iff.mp hspan
  simp only [pages, List.getElem_take, heq]
  omega

theorem FingerprintCache.Ok.stores_of_mem {c : FingerprintCache} {i : Nat}
    (hi : i ∈ c.table.slots) : c.table.Stores (c.table.items i).key (c.table.items i).value :=
  ⟨i, hi, rfl⟩

/-- The pages of a stored entry are pages of the cache, and no other entry has them. -/
theorem FingerprintCache.Ok.pages_disjoint {c : FingerprintCache} (hok : c.Ok) :
    (∀ i ∈ c.table.slots, ∀ p ∈ (c.table.items i).value.pages, p < fingerprintCacheNumPages) ∧
    ∀ i ∈ c.table.slots, ∀ j ∈ c.table.slots, i ≠ j →
      ∀ p ∈ (c.table.items i).value.pages, p ∉ (c.table.items j).value.pages := by
  refine ⟨fun i hi p hp => ?_, fun i hi j hj hij p hp hp' => ?_⟩
  · have hplaced := hok.placed_all (Ok.stores_of_mem hi)
    exact Nat.lt_of_lt_of_le (hplaced.mem_pages hp).2 hplaced.below
  · have hkeys : (c.table.items i).key ≠ (c.table.items j).key := fun h =>
      hij (hok.table.wellFormed.unique i (FingerprintTable.mem_slots.mp hi).1 j
        (FingerprintTable.mem_slots.mp hj).1 (FingerprintTable.mem_slots.mp hi).2
        (FingerprintTable.mem_slots.mp hj).2 h)
    have hin := (hok.placed_all (Ok.stores_of_mem hi)).mem_pages hp
    have hin' := (hok.placed_all (Ok.stores_of_mem hj)).mem_pages hp'
    have hapart := hok.apart _ _ _ _ (Ok.stores_of_mem hi) (Ok.stores_of_mem hj) hkeys
    unfold Apart at hapart
    omega

/-- The cache after a run of calls is a content store for it. -/
structure IsContentStore (calls : List InsertCall) (results : List Int) (c : FingerprintCache) :
    Prop where
  length_eq : results.length = calls.length
  /-- A lookup succeeds exactly for the digests that some call stored. -/
  found : ∀ f retEntry, (lookupFingerprint c f retEntry).1 = 1 ↔
    ∃ a ∈ attempts calls results, a.accepted ∧ a.key = f
  /-- The copy is the content of the first call that stored the digest. -/
  first : ∀ f retEntry a,
    (attempts calls results).find? (fun a => a.accepted && decide (a.key = f)) = some a →
      copyFingerprintContent c (lookupFingerprint c f retEntry).2 = some a.value
  /-- Later calls, stored or not, change nothing that is found. -/
  stable : ∀ later, (∀ call ∈ later, InsertCall.Ok call) →
    ∃ results' c', insertAll c later = some (results', c') ∧
      ∀ f retEntry, (lookupFingerprint c f retEntry).1 = 1 →
        (lookupFingerprint c' f retEntry).1 = 1 ∧
        copyFingerprintContent c' (lookupFingerprint c' f retEntry).2 =
          copyFingerprintContent c (lookupFingerprint c f retEntry).2
  pages_lt : ∀ i ∈ c.table.slots, ∀ p ∈ (c.table.items i).value.pages, p < fingerprintCacheNumPages
  pages_disjoint : ∀ i ∈ c.table.slots, ∀ j ∈ c.table.slots, i ≠ j →
    ∀ p ∈ (c.table.items i).value.pages, p ∉ (c.table.items j).value.pages

/-- After every run of calls the cache is a content store for the run. -/
theorem insertAll_isContentStore (calls : List InsertCall) (hcalls : ∀ call ∈ calls, call.Ok) :
    ∃ results c, insertAll (initFingerprintCache zeroCache) calls = some (results, c) ∧
      IsContentStore calls results c := by
  obtain ⟨results, c, hrun, hok, hlen, hrep⟩ :=
    insertAll_represents calls initFingerprintCache_ok initFingerprintCache_represents hcalls
  have hfirst (f : Digest) := WriteOnce.run_of_none (m := fun _ => none) (k := f) rfl
    (attempts calls results)
  refine ⟨results, c, hrun, hlen, fun f retEntry => ?_, fun f retEntry a ha => ?_,
    fun later hlater => ?_, hok.pages_disjoint.1, hok.pages_disjoint.2⟩
  · rw [(hrep.lookup hok f retEntry).1, hfirst, Option.isSome_map, List.find?_isSome]
    simp only [Bool.and_eq_true, decide_eq_true_eq]
  · exact (hrep.lookup hok f retEntry).2 _ (by rw [hfirst, ha, Option.map_some])
  · obtain ⟨results', c', hrun', hok', -, hrep'⟩ := insertAll_represents later hok hrep hlater
    refine ⟨results', c', hrun', fun f retEntry hfound => ?_⟩
    obtain ⟨hlookup, hcopy⟩ := hrep.lookup hok f retEntry
    obtain ⟨hlookup', hcopy'⟩ := hrep'.lookup hok' f retEntry
    obtain ⟨bs, hbs⟩ := Option.isSome_iff_exists.mp (hlookup.mp hfound)
    have hbs' := WriteOnce.run_stable hbs (attempts later results')
    exact ⟨hlookup'.mpr (by rw [hbs']; rfl), by rw [hcopy' _ hbs', hcopy _ hbs]⟩

/-- A digest inserted with one content and then with another. -/
def twoContents : List InsertCall :=
  [⟨⟨1, Vector.replicate fingerprintNumBytes 1⟩, [7], none⟩,
    ⟨⟨2, Vector.replicate fingerprintNumBytes 1⟩, [8, 9], none⟩]

theorem insertAll_isContentStore_twoContents :
    ∃ results c, insertAll (initFingerprintCache zeroCache) twoContents = some (results, c) ∧
      IsContentStore twoContents results c :=
  insertAll_isContentStore twoContents (by
    intro call hcall
    rcases List.mem_cons.mp hcall with rfl | hcall
    · exact ⟨by decide, by decide⟩
    · obtain rfl := List.mem_singleton.mp hcall
      exact ⟨by decide, by decide⟩)

section Accounting

variable {c : FingerprintCache}

/-- The free pages and the pages of the entries are all the pages. -/
def Accounted (c : FingerprintCache) : Prop :=
  c.numFreePages + ∑ i ∈ c.table.slots, (c.table.items i).value.numPages = fingerprintCacheNumPages

/-- Inserting a stored digest returns its entry and changes nothing. -/
def Idempotent (c : FingerprintCache) (call : InsertCall) : Prop :=
  ∀ e, c.table.Stores call.key e →
    insertFingerprint c call.newFingerprint call.content call.retEntry = some (0, c, e)

theorem initFingerprintCache_accounted : Accounted (initFingerprintCache zeroCache) := by
  have hslots : (initFingerprintCache zeroCache).table.slots = ∅ :=
    Finset.eq_empty_of_forall_notMem fun i hi =>
      initFingerprintTable_stores _ _ (Ok.stores_of_mem (c := initFingerprintCache zeroCache) hi)
  have hfree : (initFingerprintCache zeroCache).numFreePages = fingerprintCacheNumPages := rfl
  rw [Accounted, hslots, Finset.sum_empty, hfree, Nat.add_zero]

theorem sum_fill {table : FingerprintTable} {p : Nat} {f : Digest} {e : FingerprintEntry}
    (hp : p < fingerprintTableSize) (hfree : ¬ table.Holds p) :
    ∑ i ∈ (table.fill p f e).slots, ((table.fill p f e).items i).value.numPages =
      e.numPages + ∑ i ∈ table.slots, (table.items i).value.numPages := by
  rw [FingerprintTable.slots_fill hp hfree, Finset.sum_cons, FingerprintTable.items_fill_self]
  refine congrArg (e.numPages + ·) (Finset.sum_congr rfl fun i hi => ?_)
  have hip : i ≠ p := fun h => hfree (h ▸ (FingerprintTable.mem_slots.mp hi).2)
  rw [FingerprintTable.items_fill_of_ne hip]

/-- A call with a new digest accounts for the pages it takes. -/
theorem Accounted.insert (hacc : Accounted c) {call : InsertCall}
    (hnew : ∀ e, ¬ c.table.Stores call.key e) {r : Int} {c' : FingerprintCache}
    {e : FingerprintEntry}
    (h : Inserted c call.newFingerprint call.content call.retEntry r c' e) : Accounted c' := by
  cases h with
  | full => exact hacc
  | duplicate e _ hstored => exact absurd hstored (hnew e)
  | fresh p e hroom _ hp hfree hesize _ _ _ =>
      have hsum := sum_fill (f := call.newFingerprint.fingerprint) (e := e) hp hfree
      unfold Accounted at hacc ⊢
      change c.numFreePages - pagesOf e.contentSize + ∑ i ∈ (c.table.fill p _ e).slots,
        ((c.table.fill p _ e).items i).value.numPages = _
      rw [hsum, ← hacc, FingerprintEntry.numPages, hesize]
      omega

/-- A call with a stored digest returns an error or loses the pages it took. -/
theorem not_idempotent (hok : c.Ok) {call : InsertCall} (hcall : call.Ok) {e : FingerprintEntry}
    (hstored : c.table.Stores call.key e) : ¬ Idempotent c call := by
  intro hidem
  obtain ⟨r, c', e', heq, hins⟩ := hok.insertFingerprint_cases hcall call.retEntry
  obtain ⟨hr, hc, -⟩ : r = 0 ∧ c' = c ∧ e' = e := by
    simpa using heq.symm.trans (hidem e hstored)
  cases hins with
  | full => exact absurd hr (by decide)
  | duplicate _ hroom _ =>
      have hfree : c.numFreePages - pagesOf call.newFingerprint.contentSize = c.numFreePages :=
        congrArg numFreePages hc
      have hpos := hcall.size.pos_pages
      omega
  | fresh _ _ _ habsent => exact habsent e hstored

/-- A call that finds its pages leaves its digest stored. -/
theorem FingerprintCache.Inserted.stores {call : InsertCall} {r : Int} {c' : FingerprintCache}
    {e : FingerprintEntry}
    (h : Inserted c call.newFingerprint call.content call.retEntry r c' e)
    (hroom : pagesOf call.newFingerprint.contentSize ≤ c.numFreePages) :
    c'.table.Stores call.key e := by
  cases h with
  | full hlt => exact absurd hroom (Nat.not_le.mpr hlt)
  | duplicate e _ hstored => exact hstored
  | fresh p e _ _ hp hfree =>
      exact (FingerprintTable.stores_fill hp hfree _ _).mpr (Or.inr ⟨rfl, rfl⟩)

/-- What page accounting asks of a run: it holds at every point, and the next
call is idempotent. -/
def KeepsAccounts (calls : List InsertCall) : Prop :=
  ∀ earlier rest, earlier ++ rest = calls →
    ∃ results c, insertAll (initFingerprintCache zeroCache) earlier = some (results, c) ∧
      Accounted c ∧ ∀ call ∈ rest.head?, Idempotent c call

/-- No call of the run inserts a digest that is stored by then. -/
def InsertsOnce (calls : List InsertCall) : Prop :=
  ∀ earlier call rest, earlier ++ call :: rest = calls →
    ∀ results c, insertAll (initFingerprintCache zeroCache) earlier = some (results, c) →
      ∀ e, ¬ c.table.Stores call.key e

/-- A run is a run of its first calls and then one more. -/
theorem insertAll_append (earlier later : List InsertCall) :
    ∀ c, insertAll c (earlier ++ later) = (do
      let (results, c) ← insertAll c earlier
      let (results', c) ← insertAll c later
      some (results ++ results', c)) := by
  induction earlier with
  | nil => intro c; cases h : insertAll c later <;> simp [insertAll, h]
  | cons call earlier ih =>
      intro c
      rw [List.cons_append, insertAll, insertAll]
      cases insertFingerprint c call.newFingerprint call.content call.retEntry with
      | none => rfl
      | some r =>
          obtain ⟨r, c, e⟩ := r
          simp only [Option.bind_eq_bind, Option.bind_some, ih]
          cases insertAll c earlier with
          | none => rfl
          | some p =>
              obtain ⟨results, c⟩ := p
              simp only [Option.bind_some]
              cases insertAll c later <;> rfl

theorem insertAll_ok {calls : List InsertCall} (hcalls : ∀ call ∈ calls, call.Ok)
    {results : List Int}
    {c : FingerprintCache}
    (hrun : insertAll (initFingerprintCache zeroCache) calls = some (results, c)) : c.Ok := by
  obtain ⟨results', c', hrun', hok, -⟩ :=
    insertAll_represents calls initFingerprintCache_ok initFingerprintCache_represents hcalls
  obtain ⟨-, rfl⟩ : results' = results ∧ c' = c := by simpa using hrun'.symm.trans hrun
  exact hok

/-- Page accounting and idempotent inserts hold in exactly the runs that never
insert a stored digest. -/
theorem keepsAccounts_iff (calls : List InsertCall) (hcalls : ∀ call ∈ calls, call.Ok) :
    KeepsAccounts calls ↔ InsertsOnce calls := by
  constructor
  · rintro hkeeps earlier call rest rfl results c hrun e hstored
    have hok := insertAll_ok (fun call h => hcalls call (List.mem_append_left _ h)) hrun
    obtain ⟨results', c', hrun', -, hidem⟩ := hkeeps earlier (call :: rest) rfl
    obtain ⟨-, rfl⟩ : results' = results ∧ c' = c := by simpa using hrun'.symm.trans hrun
    exact not_idempotent hok (hcalls call (by simp)) hstored (hidem call rfl)
  · intro honce earlier
    induction earlier using List.reverseRecOn with
    | nil =>
        intro rest _
        refine ⟨[], _, rfl, initFingerprintCache_accounted, fun call _ e h => ?_⟩
        exact absurd h (initFingerprintTable_stores _ e)
    | append_singleton earlier call ih =>
        intro rest hsplit
        have hsplit' : earlier ++ call :: rest = calls := by rw [← hsplit, List.append_assoc]; rfl
        obtain ⟨results, c, hrun, hacc, -⟩ := ih _ hsplit'
        have hmem : ∀ call' ∈ earlier ++ call :: rest, call'.Ok := hsplit' ▸ hcalls
        have hok := insertAll_ok (fun call' h => hmem call' (List.mem_append_left _ h)) hrun
        obtain ⟨r, c', e, heq, hins⟩ :=
          hok.insertFingerprint_cases (hmem call (by simp)) call.retEntry
        have hrun' : insertAll (initFingerprintCache zeroCache) (earlier ++ [call]) =
            some (results ++ [r], c') := by
          simp only [insertAll_append, hrun, insertAll, heq, Option.bind_eq_bind, Option.bind_some]
        refine ⟨_, c', hrun', hacc.insert (honce earlier call rest hsplit' _ _ hrun) hins, ?_⟩
        intro next hnext e' hstored
        obtain ⟨tail, rfl⟩ : ∃ tail, rest = next :: tail := by
          cases rest with
          | nil => simp at hnext
          | cons x tail => exact ⟨tail, by simpa using hnext⟩
        exact absurd hstored (honce (earlier ++ [call]) next tail hsplit _ _ hrun' e')

theorem attempts_key_mem {calls : List InsertCall} {results : List Int}
    {a : WriteOnce.Attempt Digest (List UInt8)} (h : a ∈ attempts calls results) :
    a.key ∈ calls.map InsertCall.key := by
  induction calls generalizing results with
  | nil => exact absurd h (by simp [attempts])
  | cons call calls ih =>
      cases results with
      | nil => exact absurd h (by simp [attempts])
      | cons r results =>
          rw [List.map_cons, List.mem_cons]
          rcases List.mem_cons.mp h with rfl | h
          · exact Or.inl rfl
          · exact Or.inr (ih h)

/-- A run of calls with distinct digests inserts each of them once. -/
theorem insertsOnce_of_nodup {calls : List InsertCall} (hcalls : ∀ call ∈ calls, call.Ok)
    (hnodup : (calls.map InsertCall.key).Nodup) : InsertsOnce calls := by
  rintro earlier call rest rfl results c hrun e hstored
  have hearlier : ∀ call ∈ earlier, call.Ok := fun call h => hcalls call (List.mem_append_left _ h)
  obtain ⟨results', c', hrun', hok, -, hrep⟩ :=
    insertAll_represents earlier initFingerprintCache_ok initFingerprintCache_represents hearlier
  obtain ⟨rfl, rfl⟩ : results' = results ∧ c' = c := by simpa using hrun'.symm.trans hrun
  have hmap := (hrep _ _).mp ⟨e, hstored, (hok.placed_all hstored).copy⟩
  rw [WriteOnce.run_of_none rfl, Option.map_eq_some_iff] at hmap
  obtain ⟨a, hfind, -⟩ := hmap
  have hkey : a.key = call.key := by
    have h := List.find?_some hfind
    simp only [Bool.and_eq_true, decide_eq_true_eq] at h
    exact h.2
  rw [List.map_append, List.nodup_append, List.map_cons] at hnodup
  exact hnodup.2.2 _ (attempts_key_mem (List.mem_of_find?_eq_some hfind)) _ List.mem_cons_self hkey

/-- A one-byte content. -/
def oneByte : InsertCall := ⟨⟨1, Vector.replicate fingerprintNumBytes 1⟩, [7], none⟩

theorem oneByte_ok : oneByte.Ok := ⟨by decide, by decide⟩

/-- Contents with different digests, an all-zero one among them. -/
def threeContents : List InsertCall :=
  [oneByte, ⟨⟨2, zeroDigest⟩, [8, 9], none⟩,
    ⟨⟨3, Vector.replicate fingerprintNumBytes 2⟩, [1, 2, 3], none⟩]

theorem threeContents_ok : ∀ call ∈ threeContents, call.Ok := by
  intro call hcall
  simp only [threeContents, List.mem_cons, List.not_mem_nil, or_false] at hcall
  rcases hcall with rfl | rfl | rfl
  · exact oneByte_ok
  · exact ⟨by decide, by decide⟩
  · exact ⟨by decide, by decide⟩

theorem keepsAccounts_threeContents : KeepsAccounts threeContents :=
  (keepsAccounts_iff threeContents threeContents_ok).mpr
    (insertsOnce_of_nodup threeContents_ok (by decide))

/-- The same content inserted twice. -/
def insertedTwice : List InsertCall := [oneByte, oneByte]

theorem insertedTwice_ok : ∀ call ∈ insertedTwice, call.Ok := by
  intro call hcall
  obtain rfl : call = oneByte := by simpa [insertedTwice] using hcall
  exact oneByte_ok

/-- The second insert of a content returns success and loses a page. -/
theorem keepsAccounts_fails :
    (∀ call ∈ insertedTwice, call.Ok) ∧ ¬ KeepsAccounts insertedTwice := by
  refine ⟨insertedTwice_ok, fun hkeeps => ?_⟩
  obtain ⟨hcall, -⟩ := List.forall_mem_cons.mp insertedTwice_ok
  obtain ⟨results, c, hrun, -, hidem⟩ := hkeeps (insertedTwice.take 1) (insertedTwice.drop 1) rfl
  obtain ⟨r, c', e, heq, hins⟩ :=
    initFingerprintCache_ok.insertFingerprint_cases hcall oneByte.retEntry
  obtain ⟨-, rfl⟩ : [r] = results ∧ c' = c := by
    simpa [insertedTwice, insertAll, heq] using hrun
  exact not_idempotent (hins.ok initFingerprintCache_ok) hcall
    (hins.stores (show pagesOf 1 ≤ fingerprintCacheNumPages by decide)) (hidem _ rfl)

end Accounting

end NetDedup.Store

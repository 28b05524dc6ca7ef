import NetDedup.Store.CacheRuns

/-!
# Failing cache inserts

`insert_fingerprint` can fail before it takes pages and after it has written
them. Every page that is taken makes room for at most one more entry, so in a
run from an initialised cache the table is never full, only the first exit is
left, and it changes nothing. Digests are arbitrary here: an all-zero one may be
found in an empty slot, which neither exit depends on.
-/

namespace NetDedup.Store

open FingerprintCache

/-- The entry the caller passes, or the zeroed local one in its place. -/
def InsertCall.entryRef (call : InsertCall) : FingerprintEntry := call.retEntry.getD zeroEntry

/-- A call that returns an error leaves the cache and the caller's entry as
they were, and it does so for want of free pages only. -/
structure Atomic (c : FingerprintCache) (call : InsertCall) : Prop where
  unchanged : ∀ c' e,
    insertFingerprint c call.newFingerprint call.content call.retEntry = some (-1, c', e) →
      c' = c ∧ e = call.entryRef
  pages : ∀ c' e,
    insertFingerprint c call.newFingerprint call.content call.retEntry = some (-1, c', e) →
      c.numFreePages < contentNumPages call.newFingerprint.contentSize

/-- Entries and free pages together are no more than the pages. -/
structure Limited (c : FingerprintCache) : Prop where
  stocked : c.Stocked
  size_eq : c.table.size = fingerprintTableSize
  room : c.table.cnt + c.numFreePages ≤ fingerprintCacheNumPages

theorem initFingerprintCache_limited (initCache : FingerprintCache) :
    Limited (initFingerprintCache initCache) where
  stocked := by
    refine ⟨fun i hi => if_pos hi, Nat.le_refl _, ?_⟩
    change 0 = (fingerprintCacheNumPages - fingerprintCacheNumPages) % _
    rw [Nat.sub_self, Nat.zero_mod]
  size_eq := rfl
  room := Nat.le_of_eq (Nat.zero_add _)

/-- Below its size the table takes any entry. -/
theorem insertFingerprintTable_room {table : FingerprintTable} (h : table.cnt ≠ table.size)
    (fingerprint : Digest) (entry : FingerprintEntry) :
    ∃ table', insertFingerprintTable table fingerprint entry = (0, table') ∧
      table'.size = table.size ∧ table'.cnt = table.cnt + 1 := by
  rw [insertFingerprintTable, if_neg h]
  exact ⟨_, rfl, rfl, rfl⟩

namespace Limited

variable {c : FingerprintCache}

/-- The check for a full table cannot fail. -/
theorem cnt_lt_size (hlim : Limited c) : c.table.cnt < c.table.size := by
  calc
    c.table.cnt ≤ c.table.cnt + c.numFreePages := Nat.le_add_right _ _
    _ ≤ fingerprintCacheNumPages := hlim.room
    _ < fingerprintTableSize := numPages_lt_tableSize
    _ = c.table.size := hlim.size_eq.symm

/-- What one call does to a limited cache. -/
theorem insertFingerprint_cases (hlim : Limited c) {call : InsertCall} (hcall : call.Ok) :
    ∃ r c' e,
      insertFingerprint c call.newFingerprint call.content call.retEntry = some (r, c', e) ∧
      Limited c' ∧
      (r = 0 ∨ r = -1 ∧ c' = c ∧ e = call.entryRef ∧
        c.numFreePages < contentNumPages call.newFingerprint.contentSize) := by
  obtain ⟨hsize, hreadable⟩ := hcall
  rcases Nat.lt_or_ge c.numFreePages (pagesOf call.newFingerprint.contentSize) with hlt | hpages
  · have hfull := Stocked.insertFingerprintCache_full hsize call.content hlt call.entryRef
    refine ⟨-1, c, call.entryRef, ?_, hlim, Or.inr ⟨rfl, rfl, rfl, ?_⟩⟩
    · change insertFingerprintCache c _ _ (call.retEntry.getD zeroEntry) = _ at hfull
      rw [insertFingerprint, hfull]
      rfl
    · rwa [hsize.contentNumPages_eq]
  · obtain ⟨entry, -, -, -, hins⟩ :=
      hlim.stocked.insertFingerprintCache_eq hsize hreadable hpages
        (call.retEntry.getD zeroEntry)
    have htaken := (hlim.stocked.take hpages
      (call.content.take call.newFingerprint.contentSize)).1
    have hpos := hsize.pos_pages
    have hroom := hlim.room
    simp only [insertFingerprint, hins, FingerprintCache.take]
    split_ifs with hfound hret
    · obtain ⟨table', hput, hsize', hcnt⟩ := insertFingerprintTable_room
        (Nat.ne_of_lt hlim.cnt_lt_size) call.newFingerprint.fingerprint
        (findFingerprintTable c.table call.newFingerprint.fingerprint entry).2
      rw [hput]
      refine ⟨_, _, _, rfl, ⟨⟨htaken.free_eq, htaken.free_le, htaken.read_eq⟩, ?_, ?_⟩,
        Or.inl rfl⟩
      · exact hsize'.trans hlim.size_eq
      · change table'.cnt + (c.numFreePages - _) ≤ _
        omega
    · obtain ⟨table', hput, -⟩ := insertFingerprintTable_room
        (Nat.ne_of_lt hlim.cnt_lt_size) call.newFingerprint.fingerprint
        (findFingerprintTable c.table call.newFingerprint.fingerprint entry).2
      exact absurd (congrArg Prod.fst hput) hret
    · refine ⟨_, _, _, rfl, ⟨⟨htaken.free_eq, htaken.free_le, htaken.read_eq⟩, hlim.size_eq, ?_⟩,
        Or.inl rfl⟩
      change c.table.cnt + (c.numFreePages - _) ≤ _
      omega

theorem atomic (hlim : Limited c) {call : InsertCall} (hcall : call.Ok) : Atomic c call := by
  obtain ⟨r, c₁, e₁, heq, -, hcases⟩ := hlim.insertFingerprint_cases hcall
  constructor <;> intro c' e hfail
  all_goals
    obtain ⟨rfl, rfl, rfl⟩ : r = -1 ∧ c₁ = c' ∧ e₁ = e := by simpa [heq] using hfail
    obtain ⟨-, hc, he, hpages⟩ := hcases.resolve_left (by decide)
  · exact ⟨hc, he⟩
  · exact hpages

/-- A run of calls keeps entries and free pages within the pages. -/
theorem insertAll {calls : List InsertCall} : ∀ {c : FingerprintCache}, Limited c →
    (∀ call ∈ calls, call.Ok) →
    ∃ results c', Store.insertAll c calls = some (results, c') ∧ Limited c' := by
  induction calls with
  | nil => exact fun hlim _ => ⟨[], _, rfl, hlim⟩
  | cons call calls ih =>
      intro c hlim hcalls
      obtain ⟨hcall, hrest⟩ := List.forall_mem_cons.mp hcalls
      obtain ⟨r, c₁, e, heq, hlim₁, -⟩ := hlim.insertFingerprint_cases hcall
      obtain ⟨results, c₂, hrun, hlim₂⟩ := ih hlim₁ hrest
      refine ⟨r :: results, c₂, ?_, hlim₂⟩
      simp only [Store.insertAll, heq, hrun, Option.bind_eq_bind, Option.bind_some]

end Limited

/-- What a cache promises about failing inserts. -/
structure FailsAtomically (c : FingerprintCache) : Prop where
  room : c.table.cnt + c.numFreePages ≤ fingerprintCacheNumPages
  table_room : ∀ fingerprint entry, (insertFingerprintTable c.table fingerprint entry).1 = 0
  atomic : ∀ call : InsertCall, call.Ok → Atomic c call

/-- After any run of inserts on an initialised cache the table has room, and
an insert that fails has changed nothing. -/
theorem insertAll_failsAtomically (initCache : FingerprintCache) (calls : List InsertCall)
    (hcalls : ∀ call ∈ calls, call.Ok) :
    fingerprintCacheNumPages < fingerprintTableSize ∧
      ∃ results c, insertAll (initFingerprintCache initCache) calls = some (results, c) ∧
        FailsAtomically c := by
  refine ⟨numPages_lt_tableSize, ?_⟩
  obtain ⟨results, c, hrun, hlim⟩ := (initFingerprintCache_limited initCache).insertAll hcalls
  refine ⟨results, c, hrun, hlim.room, fun fingerprint entry => ?_, fun _ => hlim.atomic⟩
  obtain ⟨table', hput, -⟩ :=
    insertFingerprintTable_room (Nat.ne_of_lt hlim.cnt_lt_size) fingerprint entry
  rw [hput]

/-- The run of the same content twice. -/
theorem insertAll_failsAtomically_insertedTwice :
    fingerprintCacheNumPages < fingerprintTableSize ∧
      ∃ results c, insertAll (initFingerprintCache zeroCache) insertedTwice = some (results, c) ∧
        FailsAtomically c :=
  insertAll_failsAtomically zeroCache insertedTwice insertedTwice_ok

end NetDedup.Store

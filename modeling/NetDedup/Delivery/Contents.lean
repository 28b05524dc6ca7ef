import NetDedup.Delivery.Wire
import NetDedup.Store.CacheRuns
import NetDedup.Transfer.RecvBounds

/-!
# The contents of messages and caches

What is assumed of the contents that occur in a run, and caches that hold only
such contents, each under its own digest.
-/

namespace NetDedup.Delivery

open Chunking Memory Store Transfer FingerprintCache

variable (sha256 : List UInt8 → Digest) (C : Set (List UInt8))

/-- SHA-256 tells the contents apart. -/
structure Distinct : Prop where
  injOn : Set.InjOn sha256 C

/-- A message that a request can hold, with its chunks among the contents. -/
structure Sendable (data : List UInt8) : Prop where
  lt : data.length < 2 ^ 31
  fit : Long data → (fingerprints sha256 data).length ≤ maxFingerprintsPerReq
  chunk_mem : Long data → ∀ i < (fingerprints sha256 data).length,
    chunk data (fingerprints sha256 data) i ∈ C

/-- A cache that holds some of the contents, each under its own digest. -/
structure SoundCache (c : FingerprintCache) : Prop where
  ok : c.Ok
  settings : c.fingerprintingSettings = shippedSettings
  yields : ∀ f bs, c.Yields f bs → bs ∈ C ∧ f = sha256 bs

/-- A call of `insert_fingerprint` for one of the contents. -/
structure SoundInsert (fp : Fingerprint) (content : List UInt8) : Prop
    extends Insertable fp content where
  mem : content.take fp.contentSize ∈ C
  digest : fp.fingerprint = sha256 (content.take fp.contentSize)

/-- The second cache holds what the first one does, at the same place. -/
def Grows (c c' : FingerprintCache) : Prop :=
  ∀ f e bs, c.table.Stores f e → copyFingerprintContent c e = some bs →
    c'.table.Stores f e ∧ copyFingerprintContent c' e = some bs

/-- The digests that a cache has an entry for. -/
def digests (c : FingerprintCache) : Set Digest := { d | ∃ e, c.table.Stores d e }

variable {sha256 C} {c : FingerprintCache}

theorem Grows.refl (c : FingerprintCache) : Grows c c := fun _ _ _ h h' => ⟨h, h'⟩

theorem initFingerprintCache_sound : SoundCache sha256 C (initFingerprintCache zeroCache) where
  ok := initFingerprintCache_ok
  settings := rfl
  yields := fun f bs h => absurd ((initFingerprintCache_represents f bs).mp h) (by simp)

namespace SoundCache

/-- An insert of a content keeps what is there and adds at most that content. -/
theorem insert (h : SoundCache sha256 C c) {fp : Fingerprint} {content : List UInt8}
    (hcall : SoundInsert sha256 C fp content) (retEntry : Option FingerprintEntry) :
    ∃ r c' e, insertFingerprint c fp content retEntry = some (r, c', e) ∧
      SoundCache sha256 C c' ∧ Grows c c' := by
  obtain ⟨r, c', e, hrun, hins⟩ :=
    h.ok.insertFingerprint_cases hcall.toInsertable retEntry
  refine ⟨r, c', e, hrun, ⟨hins.ok h.ok, hins.settings_eq.trans h.settings, ?_⟩, ?_⟩
  · intro f bs hyields
    rcases (hins.yields h.ok hcall.toInsertable f bs).mp hyields with hold | ⟨-, rfl, rfl, -⟩
    · exact h.yields f bs hold
    · exact ⟨hcall.mem, hcall.digest⟩
  · intro f e' bs hstores hcopy
    obtain ⟨hstores', hcopy'⟩ := hins.keeps h.ok hstores
    exact ⟨hstores', hcopy'.trans hcopy⟩

/-- An insert that succeeds leaves its digest in the cache. -/
theorem mem_of_insert (h : SoundCache sha256 C c) {fp : Fingerprint} {content : List UInt8}
    (hcall : SoundInsert sha256 C fp content) {retEntry : Option FingerprintEntry}
    {c' : FingerprintCache} {e : FingerprintEntry}
    (hrun : insertFingerprint c fp content retEntry = some (0, c', e)) :
    fp.fingerprint ∈ digests c' := by
  obtain ⟨r, c₁, e₁, hrun', hins⟩ :=
    h.ok.insertFingerprint_cases hcall.toInsertable retEntry
  obtain ⟨rfl, rfl, rfl⟩ : 0 = r ∧ c' = c₁ ∧ e = e₁ := by
    simpa using hrun.symm.trans hrun'
  by_cases hold : ∃ bs, c.Yields fp.fingerprint bs
  · obtain ⟨bs, e', hstores, -⟩ := hold
    exact ⟨e', (hins.keeps h.ok hstores).1⟩
  · obtain ⟨e', hstores, -⟩ := (hins.yields h.ok hcall.toInsertable fp.fingerprint _).mpr
      (Or.inr ⟨rfl, rfl, rfl, not_exists.mp hold⟩)
    exact ⟨e', hstores⟩

/-- The populate loop only counts in the statistics. -/
theorem populated (h : SoundCache sha256 C c) (req : DedupRecvReq) (locals : PopulateLocals) :
    SoundCache sha256 C (finishPopulate c req locals).1 where
  ok := ⟨h.ok.table, h.ok.free_eq, h.ok.free_le, h.ok.read_eq, h.ok.room, h.ok.placed, h.ok.apart⟩
  settings := h.settings
  yields := h.yields

theorem grows_populated (c : FingerprintCache) (req : DedupRecvReq) (locals : PopulateLocals) :
    Grows c (finishPopulate c req locals).1 := fun _ _ _ h h' => ⟨h, h'⟩

/-- What is stored under the digest of a content is that content. -/
theorem copy_of_stores (h : SoundCache sha256 C c) (hC : Distinct sha256 C) {bs : List UInt8}
    (hbs : bs ∈ C) {e : FingerprintEntry} (he : c.table.Stores (sha256 bs) e) :
    copyFingerprintContent c e = some bs ∧ e.Placed fingerprintCacheNumPages ∧
      e.contentSize = bs.length := by
  have hplaced := h.ok.placed_all he
  have hcopy : copyFingerprintContent c e = _ := hplaced.copy
  obtain ⟨hmem, hdigest⟩ := h.yields _ _ ⟨e, he, hcopy⟩
  have heq := hC.injOn hbs hmem hdigest
  rw [← heq] at hcopy
  refine ⟨hcopy, hplaced, ?_⟩
  rw [heq, length_read]

theorem digests_subset (h : SoundCache sha256 C c) {c' : FingerprintCache} (hgrows : Grows c c') :
    digests c ⊆ digests c' := by
  rintro d ⟨e, he⟩
  exact ⟨e, (hgrows d e _ he (h.ok.placed_all he).copy).1⟩

end SoundCache

section Chunks

variable {data : List UInt8} {i : Nat} (hi : i < (fingerprints sha256 data).length)

include hi

theorem digest_chunk : (fingerprints sha256 data)[i].fingerprint =
    sha256 (chunk data (fingerprints sha256 data) i) := by
  rw [chunk_eq hi]
  exact chunk_digest fingerprints_run hi

omit hi in
/-- The chunks of a message fit a buffer that the message fits. -/
theorem chunksFit (hlong : Long data) {size : Nat} (hsize : data.length ≤ size) :
    ChunksFit (fingerprints sha256 data) size where
  sum_le := by
    rw [(partition_of_run fingerprints_run).sum_sizes]
    exact hsize
  pos := doFingerprinting_pos shipped_ordered
    (List.length_pos_iff.mp (Nat.zero_lt_of_lt hlong)) fingerprints_run

/-- A chunk can be inserted from where it starts in a buffer. -/
theorem Sendable.insert (h : Sendable sha256 C data) (hlong : Long data) {content : List UInt8}
    (hcontent : content.take (fingerprints sha256 data)[i].contentSize =
      chunk data (fingerprints sha256 data) i) :
    SoundInsert sha256 C (fingerprints sha256 data)[i] content where
  size := chunk_storable fingerprints_run
    (List.length_pos_iff.mp (Nat.zero_lt_of_lt hlong)) (List.getElem_mem hi)
  readable := by
    have hlen := congrArg List.length hcontent
    rw [length_chunk hi, List.length_take] at hlen
    omega
  mem := by
    rw [hcontent]
    exact h.chunk_mem hlong i hi
  digest := by rw [hcontent, digest_chunk hi]

end Chunks

/-- The digests of the first `n` chunks are in the cache, apart from those listed. -/
def Held (fps : List Fingerprint) (missing : List Nat) (n : Nat) (c : FingerprintCache) : Prop :=
  ∀ (i : Nat) (hi : i < fps.length), i < n → i ∉ missing → fps[i].fingerprint ∈ digests c

namespace Held

variable {fps : List Fingerprint} {missing : List Nat} {n t : Nat}

theorem start (fps : List Fingerprint) (c : FingerprintCache) : Held fps [] 0 c :=
  fun _ _ hi => absurd hi (Nat.not_lt_zero _)

theorem mono (h : Held fps missing n c) {c' : FingerprintCache} (hc : digests c ⊆ digests c') :
    Held fps missing n c' := fun i hi hn hmiss => hc (h i hi hn hmiss)

/-- The next chunk was found. -/
theorem next (h : Held fps missing n c) {hn : n < fps.length}
    (hfound : fps[n].fingerprint ∈ digests c) : Held fps missing (n + 1) c := by
  intro i hi hlt hmiss
  rcases Nat.lt_succ_iff_lt_or_eq.mp hlt with hold | rfl
  · exact h i hi hold hmiss
  · exact hfound

/-- The next chunk is listed. -/
theorem miss (h : Held fps missing n c) : Held fps (missing ++ [n]) (n + 1) c := by
  intro i hi hlt hmiss
  rw [List.mem_append, not_or, List.mem_singleton] at hmiss
  exact h i hi (by omega) hmiss.1

/-- The first of the listed chunks is inserted. -/
theorem insert (h : Held fps (missing.drop t) n c) (ht : t < missing.length)
    {c' : FingerprintCache} (hc : digests c ⊆ digests c')
    (hstored : ∀ hi : missing[t] < fps.length, fps[missing[t]].fingerprint ∈ digests c') :
    Held fps (missing.drop (t + 1)) n c' := by
  intro i hi hlt hmiss
  by_cases hit : i = missing[t]
  · subst hit
    exact hstored hi
  · refine hc (h i hi hlt ?_)
    rw [List.drop_eq_getElem_cons ht, List.mem_cons, not_or]
    exact ⟨hit, hmiss⟩

/-- Nothing is left out. -/
theorem all (h : Held fps [] fps.length c) : ∀ fp ∈ fps, fp.fingerprint ∈ digests c := by
  intro fp hfp
  obtain ⟨i, hi, rfl⟩ := List.mem_iff_getElem.mp hfp
  exact h i hi hi List.not_mem_nil

end Held

end NetDedup.Delivery

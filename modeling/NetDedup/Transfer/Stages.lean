import NetDedup.Transfer.Recv

/-!
# What one call of a stage does

One lemma for each function below the stages: under the bounds it relies on,
a call moves some bytes of its block, or completes it. The lemmas about
lookups and copies say all that a successful iteration does.
-/

namespace NetDedup.Transfer

open Chunking Memory Store

/-- A socket that has taken some more bytes. -/
def Socket.push (sock : Socket) (bs : List UInt8) : Socket := { sock with sent := sock.sent ++ bs }

/-- A socket from which `n` bytes have been read. -/
def Socket.pull (sock : Socket) (n : Nat) : Socket := { sock with inbound := sock.inbound.drop n }

@[simp] theorem Socket.push_nil (sock : Socket) : sock.push [] = sock := by
  rw [Socket.push, List.append_nil]

@[simp] theorem Socket.pull_zero (sock : Socket) : sock.pull 0 = sock := rfl

section Blocks

variable {region : Mem} {limit base total prev : Nat} {sock : Socket} {o : Outcome}

/-- A call of a stage that sends a block sends a part of the rest, or the rest. -/
theorem sendBlock_cases (hprev : prev ≤ total) (htotal : total < 2 ^ 64)
    (hbounds : base + total ≤ limit) :
    (∃ n, prev + n ≤ total ∧ sendBlock region limit base total prev sock o =
      some (0, prev + n, sock.push (read region (base + prev) n))) ∨
    sendBlock region limit base total prev sock o =
      some (1, prev, sock.push (read region (base + prev) (total - prev))) := by
  have hsub : u64Sub total prev = total - prev := u64Sub_of_le hprev htotal
  have hin : ∀ n ≤ total - prev, InBounds limit (base + prev) n := fun n hn => Or.inr (by omega)
  unfold sendBlock
  rw [hsub]
  rcases @send_cases sock o region _ _ _ hin with h | ⟨n, hn, h⟩
  · refine Or.inl ⟨0, hprev, ?_⟩
    simp only [h, Option.bind_eq_bind, Option.bind_some, failureReturn_eq, read_zero,
      Socket.push_nil, Nat.add_zero]
  · simp only [h, Option.bind_eq_bind, Option.bind_some]
    split
    · exact Or.inl ⟨n, by omega, rfl⟩
    · obtain rfl : n = total - prev := by omega
      exact Or.inr rfl

/-- A call of a stage that receives a block takes a part of the rest, or the rest. -/
theorem recvBlock_cases (hprev : prev ≤ total) (htotal : total < 2 ^ 64)
    (hbounds : base + total ≤ limit) :
    (∃ n, prev + n ≤ total ∧ n ≤ sock.inbound.length ∧
      recvBlock region limit base total prev sock o =
        some (0, prev + n, write region (base + prev) (sock.inbound.take n), sock.pull n)) ∨
    (total - prev ≤ sock.inbound.length ∧ recvBlock region limit base total prev sock o =
      some (1, prev, write region (base + prev) (sock.inbound.take (total - prev)),
        sock.pull (total - prev))) := by
  have hsub : u64Sub total prev = total - prev := u64Sub_of_le hprev htotal
  have hin : ∀ n ≤ total - prev, InBounds limit (base + prev) n := fun n hn => Or.inr (by omega)
  unfold recvBlock
  rw [hsub]
  rcases @recv_cases sock o region _ _ _ hin with h | ⟨n, hn, havail, h⟩
  · refine Or.inl ⟨0, hprev, Nat.zero_le _, ?_⟩
    simp only [h, Option.bind_eq_bind, Option.bind_some, failureReturn_eq, List.take_zero,
      write_nil, Socket.pull_zero, Nat.add_zero]
  · simp only [h, Option.bind_eq_bind, Option.bind_some]
    split
    · exact Or.inl ⟨n, by omega, havail, rfl⟩
    · obtain rfl : n = total - prev := by omega
      exact Or.inr ⟨havail, rfl⟩

/-- A call that leaves its region is a fault of the stage. -/
theorem recvBlock_fault
    (h : recv sock o region limit (base + prev) (u64Sub total prev) = none) :
    recvBlock region limit base total prev sock o = none := by
  simp only [recvBlock, h, Option.bind_eq_bind, Option.bind_none]

end Blocks

section Populate

variable {cache : FingerprintCache} {req req' : DedupRecvReq} {entry : FingerprintEntry}
  {locals locals' : PopulateLocals} {fp : Fingerprint}

/-- The locals of the populate loop after a chunk that was not found. -/
def PopulateLocals.miss (locals : PopulateLocals) (fp : Fingerprint) : PopulateLocals :=
  { locals with
    i := locals.i + 1
    curAppBuffer := (locals.curAppBuffer + fp.contentSize) % 2 ^ 64
    totalMissingBytes := (locals.totalMissingBytes + fp.contentSize) % 2 ^ 64
    totalBytes := (locals.totalBytes + fp.contentSize) % 2 ^ 64
    numMissingFingerprints := locals.numMissingFingerprints + 1 }

/-- The locals of the populate loop after a chunk was found. -/
def PopulateLocals.hit (locals : PopulateLocals) (fp : Fingerprint) (entry : FingerprintEntry) :
    PopulateLocals :=
  { locals with
    totalBytes := (locals.totalBytes + fp.contentSize) % 2 ^ 64
    found := some entry }

/-- The locals of the populate loop after a found chunk was copied. -/
def PopulateLocals.copied (locals : PopulateLocals) (fp : Fingerprint) : PopulateLocals :=
  { locals with
    i := locals.i + 1
    curAppBuffer := (locals.curAppBuffer + fp.contentSize) % 2 ^ 64
    found := none }

/-- The request after missing fingerprint number `n` was noted. -/
def DedupRecvReq.noteMissing (req : DedupRecvReq) (n i slot : Nat) : DedupRecvReq :=
  { req with
    missingFingerprintInds := storeU64 req.missingFingerprintInds (n * sizeofU64) i
    missingFingerprintSlots := Function.update req.missingFingerprintSlots n slot }

/-- The request after a chunk was copied from the cache. -/
def DedupRecvReq.copied (req : DedupRecvReq) (slot : Nat) (content : List UInt8)
    (fp : Fingerprint) : DedupRecvReq :=
  { req with
    appBuffer := write req.appBuffer slot content
    appFilledSize := (req.appFilledSize + fp.contentSize) % 2 ^ 64 }

/-- A lookup that finds nothing notes the chunk as missing. -/
theorem lookupChunk_miss (hfp : packagedFingerprint req.head locals.i = some fp)
    (hlookup : lookupFingerprint cache fp.fingerprint entry = (0, entry))
    (hfit : locals.numMissingFingerprints < maxFingerprintsPerReq) :
    lookupChunk cache req entry locals = some (locals.miss fp,
      req.noteMissing locals.numMissingFingerprints locals.i locals.curAppBuffer) := by
  unfold lookupChunk
  simp only [hfp, hlookup, setMissingInd, setSlot, if_pos hfit, if_true, Option.bind_eq_bind,
    Option.bind_some]
  rfl

/-- A lookup that finds an entry leaves it to be copied. -/
theorem lookupChunk_hit (hfp : packagedFingerprint req.head locals.i = some fp)
    {found : FingerprintEntry}
    (hlookup : lookupFingerprint cache fp.fingerprint entry = (1, found)) :
    lookupChunk cache req entry locals = some (locals.hit fp found, req) := by
  unfold lookupChunk
  simp only [hfp, hlookup, Option.bind_eq_bind, Option.bind_some]
  rfl

/-- All that a lookup can do. -/
theorem lookupChunk_some (h : lookupChunk cache req entry locals = some (locals', req')) :
    ∃ fp, packagedFingerprint req.head locals.i = some fp ∧
      ((locals' = locals.miss fp ∧
          req' = req.noteMissing locals.numMissingFingerprints locals.i locals.curAppBuffer) ∨
        ∃ found, locals' = locals.hit fp found ∧ req' = req) := by
  unfold lookupChunk at h
  obtain ⟨fp, hfp, h⟩ := Option.bind_eq_some_iff.mp h
  refine ⟨fp, hfp, ?_⟩
  simp only at h
  split at h
  · obtain ⟨inds, hinds, h⟩ := Option.bind_eq_some_iff.mp h
    obtain ⟨slots, hslots, h⟩ := Option.bind_eq_some_iff.mp h
    unfold setMissingInd at hinds
    unfold setSlot at hslots
    split at hinds
    · next hfit =>
      rw [if_pos hfit] at hslots
      obtain rfl := Option.some_inj.mp hinds
      obtain rfl := Option.some_inj.mp hslots
      obtain ⟨hlocals, hreq⟩ := Prod.mk.inj (Option.some_inj.mp h)
      exact Or.inl ⟨hlocals.symm, hreq.symm⟩
    · exact absurd hinds (by simp)
  · obtain ⟨hlocals, hreq⟩ := Prod.mk.inj (Option.some_inj.mp h)
    exact Or.inr ⟨_, hlocals.symm, hreq.symm⟩

/-- A copy inside the buffer. -/
theorem copyChunk_fits {content : List UInt8}
    (hfp : packagedFingerprint req.head locals.i = some fp)
    (hcontent : copyFingerprintContent cache entry = some content)
    (hbounds : InBounds req.size locals.curAppBuffer content.length) :
    copyChunk cache req locals entry =
      some (locals.copied fp, req.copied locals.curAppBuffer content fp) := by
  unfold copyChunk
  simp only [hfp, hcontent, if_pos hbounds, Option.bind_eq_bind, Option.bind_some]
  rfl

/-- All that a copy can do. -/
theorem copyChunk_some (h : copyChunk cache req locals entry = some (locals', req')) :
    ∃ fp content, packagedFingerprint req.head locals.i = some fp ∧
      copyFingerprintContent cache entry = some content ∧
      InBounds req.size locals.curAppBuffer content.length ∧ locals' = locals.copied fp ∧
      req' = req.copied locals.curAppBuffer content fp := by
  unfold copyChunk at h
  obtain ⟨fp, hfp, h⟩ := Option.bind_eq_some_iff.mp h
  obtain ⟨content, hcontent, h⟩ := Option.bind_eq_some_iff.mp h
  split at h
  · next hbounds =>
    obtain ⟨hlocals, hreq⟩ := Prod.mk.inj (Option.some_inj.mp h)
    exact ⟨fp, content, hfp, hcontent, hbounds, hlocals.symm, hreq.symm⟩
  · exact absurd h (by simp)

/-- All that a step of the populate loop can do. -/
theorem processPopulateFromNetCache_some {next : PopulateLocals ⊕ Int} {cache' : FingerprintCache}
    (h : processPopulateFromNetCache cache req entry locals = some (next, cache', req')) :
    (∃ found locals', locals.found = some found ∧ next = .inl locals' ∧ cache' = cache ∧
      copyChunk cache req locals found = some (locals', req')) ∨
    (∃ locals', locals.found = none ∧ locals.i < numFingerprints req.head ∧ next = .inl locals' ∧
      cache' = cache ∧ lookupChunk cache req entry locals = some (locals', req')) ∨
    (locals.found = none ∧ numFingerprints req.head ≤ locals.i ∧ next = .inr 1 ∧
      (cache', req') = finishPopulate cache req locals) := by
  unfold processPopulateFromNetCache at h
  split at h
  · next found hfound =>
    obtain ⟨⟨locals', req₁⟩, hcopy, h⟩ := Option.bind_eq_some_iff.mp h
    simp only [Option.some_inj, Prod.mk.injEq] at h
    obtain ⟨rfl, rfl, rfl⟩ := h
    exact Or.inl ⟨found, locals', hfound, rfl, rfl, hcopy⟩
  · next hfound =>
    split at h
    · next hi =>
      obtain ⟨⟨locals', req₁⟩, hlookup, h⟩ := Option.bind_eq_some_iff.mp h
      simp only [Option.some_inj, Prod.mk.injEq] at h
      obtain ⟨rfl, rfl, rfl⟩ := h
      exact Or.inr (Or.inl ⟨locals', hfound, hi, rfl, rfl, hlookup⟩)
    · next hi =>
      simp only [Option.some_inj, Prod.mk.injEq] at h
      obtain ⟨rfl, rfl, rfl⟩ := h
      exact Or.inr (Or.inr ⟨hfound, Nat.le_of_not_lt hi, rfl, rfl⟩)

end Populate

end NetDedup.Transfer

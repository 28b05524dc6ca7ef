import NetDedup.Transfer.Progress

/-!
# Progress of a receive

Every step of `process_recv`, in whatever state its request is, comes closer to
`RECV_COMPLETE`, moves bytes, or waits for a part of its message.
-/

namespace NetDedup.Transfer

open Chunking Memory Store

/-- The stages of a receive that are ahead. -/
def RecvReqStage.ahead : RecvReqStage → Nat
  | .recvHeader => 8
  | .recvRegData => 1
  | .recvFingerprintHeader => 7
  | .recvPackagedFingerprints => 6
  | .populateFromNetCache => 5
  | .sendMissingFingerprintHeader => 4
  | .sendMissingFingerprints => 3
  | .recvMissingContent => 2
  | .insertInboundFingerprints => 1
  | .recvComplete => 0

/-- The turns of the populate loop from `locals` on. A chunk that was found is
copied whatever its index. -/
def PopulateLocals.turns (locals : PopulateLocals) (num : Nat) : Nat :=
  match locals.found with
  | none => 2 * (num - locals.i) + 1
  | some _ => max (2 * (num - locals.i)) 2

/-- The turns that the loop of the stage can still take. -/
def RecvState.turns (st : RecvState) : Nat :=
  match st.req.stage with
  | .populateFromNetCache =>
      (st.populating.getD populateStart).turns (numFingerprints st.req.head)
  | .recvMissingContent => st.req.numMissingFingerprints - st.req.curRecvContentInd
  | .insertInboundFingerprints =>
      match st.inserting with
      | none => st.req.numMissingFingerprints + 2
      | some i => st.req.numMissingFingerprints + 1 - i
  | _ => 0

/-- What is left of a receive. -/
def RecvState.left (st : RecvState) : ℕ ×ₗ ℕ := toLex (st.req.stage.ahead, st.turns)

/-- The bytes that remain of the missing chunk that is received next. -/
def DedupRecvReq.contentLeft (req : DedupRecvReq) : Nat :=
  if req.curRecvContentInd < req.numMissingFingerprints then
    ((missingInd req.missingFingerprintInds req.curRecvContentInd).bind
      (packagedFingerprint req.head)).elim 0 fun fp =>
        u64Sub fp.contentSize req.curRecvContentOffset
  else 0

/-- The bytes of the message that a stage still waits for. -/
def DedupRecvReq.awaited (req : DedupRecvReq) : Nat :=
  match req.stage with
  | .recvHeader => u64Sub generalHeader.size (loadInt req.head generalHeader.offsetPos)
  | .recvRegData => u64Sub (headerContentSize req.head) req.appOffset
  | .recvFingerprintHeader =>
      u64Sub fingerprintHeader.size (loadInt req.head fingerprintHeader.offsetPos)
  | .recvPackagedFingerprints =>
      u64Sub req.packagedFingerprintsSizeBytes req.recvFingerprintOffset
  | .recvMissingContent => req.contentLeft
  | _ => 0

variable {st st' : RecvState} {sock sock' : Socket} {proc proc' : Process} {choice : Choice}
  {flow : Flow}

/-- A step of a receive. -/
abbrev RecvAdvances (choice : Choice) (flow : Flow) (st st' : RecvState) (sock sock' : Socket) :
    Prop :=
  Advances RecvState.left (st.req.stage = .recvComplete) st.req.awaited choice flow st st' sock sock'

theorem RecvState.left_lt_of_stage (h : st'.req.stage.ahead < st.req.stage.ahead) :
    st'.left < st.left :=
  Prod.Lex.toLex_lt_toLex.mpr (Or.inl h)

theorem RecvState.left_lt_of_turns (hstage : st'.req.stage = st.req.stage)
    (h : st'.turns < st.turns) : st'.left < st.left :=
  Prod.Lex.toLex_lt_toLex.mpr (Or.inr ⟨congrArg RecvReqStage.ahead hstage, h⟩)

theorem RecvReqStage.ahead_eq_zero {stage : RecvReqStage} :
    stage.ahead = 0 ↔ stage = .recvComplete := by
  cases stage <;> simp [ahead]

/-- A receive that is complete stays so. -/
theorem RecvState.complete_of_left_le (h : st'.left ≤ st.left)
    (hstage : st.req.stage = .recvComplete) : st'.req.stage = .recvComplete := by
  have hle := Prod.Lex.monotone_fst_ofLex h
  change st'.req.stage.ahead ≤ st.req.stage.ahead at hle
  rw [RecvReqStage.ahead_eq_zero.mpr hstage] at hle
  exact RecvReqStage.ahead_eq_zero.mp (Nat.le_zero.mp hle)

/-- The stages without a loop. -/
def RecvReqStage.isPlain (stage : RecvReqStage) : Prop :=
  stage ≠ .populateFromNetCache ∧ stage ≠ .recvMissingContent ∧ stage ≠ .insertInboundFingerprints

theorem RecvState.turns_plain (h : st.req.stage.isPlain) : st.turns = 0 := by
  rw [turns]
  split
  · exact absurd ‹_› h.1
  · exact absurd ‹_› h.2.1
  · exact absurd ‹_› h.2.2
  · rfl

theorem RecvState.socketStage_advances {stage : Option (Int × DedupRecvReq × Socket)}
    {next : DedupRecvReq → RecvReqStage} (hplain : st.req.stage.isPlain)
    (hwaits : ∀ r req sock', stage = some (r, req, sock') → req.stage = st.req.stage ∧
      StageWaits st.req.awaited choice.socket r sock sock')
    (hahead : ∀ req, (next req).ahead < st.req.stage.ahead)
    (h : st.socketStage proc stage next = some (flow, st', sock', proc')) :
    RecvAdvances choice flow st st' sock sock' := by
  obtain ⟨⟨r, req, sock₁⟩, hstage, hrest⟩ := Option.bind_eq_some_iff.mp h
  obtain ⟨hkeep, hwaits⟩ := hwaits r req sock₁ hstage
  by_cases hr : r = 1
  · obtain ⟨rfl, rfl, rfl, -⟩ : _ ∧ { st with req := { req with stage := next req } } = st' ∧
        sock₁ = sock' ∧ proc = proc' := by
      simpa [RecvState.advance, hr] using hrest
    exact .goes hwaits.moved (left_lt_of_stage (hahead req))
  · obtain ⟨rfl, rfl, rfl, -⟩ : .ret r = flow ∧ { st with req := req } = st' ∧ sock₁ = sock' ∧
        proc = proc' := by
      simpa [RecvState.advance, hr] using hrest
    have hleft : left { st with req := req } = st.left := by
      rw [left, left, turns_plain hplain, @turns_plain { st with req := req }
        (hkeep.symm ▸ hplain), hkeep]
    exact .returns (Or.inl (hwaits.ret.resolve_right hr)) hwaits.moved hleft fun hsock hc =>
      Or.inr (hwaits.waits hr hsock hc.socket)

section Stages

variable {req req' : DedupRecvReq} {o : Outcome} {r : Int}

theorem processRecvHeader_waits (h : processRecvHeader req sock o = some (r, req', sock')) :
    req'.stage = req.stage ∧
      StageWaits (u64Sub generalHeader.size (loadInt req.head generalHeader.offsetPos)) o r
        sock sock' := by
  obtain ⟨⟨r₁, head, sock₁⟩, hfield, hrest⟩ := Option.bind_eq_some_iff.mp h
  obtain ⟨rfl, rfl, rfl⟩ : r₁ = r ∧ { req with head := head } = req' ∧ sock₁ = sock' := by
    simpa using hrest
  exact ⟨rfl, recvHeaderField_waits hfield⟩

theorem processRecvRegData_waits (h : processRecvRegData req sock o = some (r, req', sock')) :
    req'.stage = req.stage ∧
      StageWaits (u64Sub (headerContentSize req.head) req.appOffset) o r sock sock' := by
  unfold processRecvRegData at h
  dsimp only at h
  split_ifs at h with hrest
  · obtain ⟨rfl, rfl, rfl⟩ : 1 = r ∧ req = req' ∧ sock = sock' := by simpa using h
    exact ⟨rfl, .ends (.refl _)⟩
  · obtain ⟨⟨res, sock₁, buffer⟩, hrecv, hnext⟩ := Option.bind_eq_some_iff.mp h
    have hreq : (r = 0 ∨ r = 1) ∧ req'.stage = req.stage ∧ sock₁ = sock' := by
      cases res with
      | none =>
          obtain ⟨rfl, rfl, rfl⟩ : 0 = r ∧ req = req' ∧ sock₁ = sock' := by simpa using hnext
          exact ⟨Or.inl rfl, rfl, rfl⟩
      | some n =>
          dsimp only at hnext
          split_ifs at hnext
          · obtain ⟨rfl, rfl, rfl⟩ : 0 = r ∧ _ = req' ∧ sock₁ = sock' := by simpa using hnext
            exact ⟨Or.inl rfl, rfl, rfl⟩
          · obtain ⟨rfl, rfl, rfl⟩ : 1 = r ∧ _ = req' ∧ sock₁ = sock' := by simpa using hnext
            exact ⟨Or.inr rfl, rfl, rfl⟩
    obtain ⟨hret, hkeep, rfl⟩ := hreq
    exact ⟨hkeep, .of_recv hret hrecv fun _ _ => Or.inr (Nat.pos_of_ne_zero hrest)⟩

theorem processRecvFingerprintHeader_waits
    (h : processRecvFingerprintHeader req sock o = some (r, req', sock')) :
    req'.stage = req.stage ∧
      StageWaits (u64Sub fingerprintHeader.size (loadInt req.head fingerprintHeader.offsetPos)) o r
        sock sock' := by
  obtain ⟨⟨r₁, head, sock₁⟩, hfield, hrest⟩ := Option.bind_eq_some_iff.mp h
  have hwaits := recvHeaderField_waits hfield
  dsimp only at hrest
  split_ifs at hrest with hr
  · obtain ⟨rfl, rfl, rfl⟩ : 1 = r ∧ _ = req' ∧ sock₁ = sock' := by simpa using hrest
    exact ⟨rfl, .ends hwaits.moved⟩
  · obtain ⟨rfl, rfl, rfl⟩ : r₁ = r ∧ { req with head := head } = req' ∧ sock₁ = sock' := by
      simpa using hrest
    exact ⟨rfl, hwaits⟩

theorem processRecvPackagedFingerprints_waits
    (h : processRecvPackagedFingerprints req sock o = some (r, req', sock')) :
    req'.stage = req.stage ∧
      StageWaits (u64Sub req.packagedFingerprintsSizeBytes req.recvFingerprintOffset) o r
        sock sock' := by
  obtain ⟨⟨r₁, offset, head, sock₁⟩, hblock, hrest⟩ := Option.bind_eq_some_iff.mp h
  obtain ⟨rfl, rfl, rfl⟩ : r₁ = r ∧ { req with
      head := head, recvFingerprintOffset := offset } = req' ∧ sock₁ = sock' := by
    simpa using hrest
  exact ⟨rfl, (recvBlock_moves hblock).toStageWaits⟩

theorem processSendMissingFingerprintHeader_waits
    (h : processSendMissingFingerprintHeader req sock o = some (r, req', sock')) :
    req'.stage = req.stage ∧ StageWaits 0 o r sock sock' := by
  obtain ⟨⟨r₁, offset, sock₁⟩, hblock, hrest⟩ := Option.bind_eq_some_iff.mp h
  obtain ⟨rfl, rfl, rfl⟩ : r₁ = r ∧ { req with missingFingerprintHeaderOffset := offset } = req' ∧
      sock₁ = sock' := by
    simpa using hrest
  exact ⟨rfl, (sendBlock_moves hblock).toStageWaits⟩

theorem processSendMissingFingerprints_waits
    (h : processSendMissingFingerprints req sock o = some (r, req', sock')) :
    req'.stage = req.stage ∧ StageWaits 0 o r sock sock' := by
  obtain ⟨⟨r₁, offset, sock₁⟩, hblock, hrest⟩ := Option.bind_eq_some_iff.mp h
  obtain ⟨rfl, rfl, rfl⟩ : r₁ = r ∧ { req with sendMissingFingerprintIndsOffset := offset } = req' ∧
      sock₁ = sock' := by
    simpa using hrest
  exact ⟨rfl, (sendBlock_moves hblock).toStageWaits⟩

/-- A turn of the content loop goes on to the next chunk, or returns. -/
theorem processRecvMissingContent_waits {next : Option Int}
    (h : processRecvMissingContent req sock o = some (next, req', sock')) :
    req'.stage = req.stage ∧ req'.numMissingFingerprints = req.numMissingFingerprints ∧
      (next = none ∧ Moved sock sock' ∧ req.curRecvContentInd < req.numMissingFingerprints ∧
          req'.curRecvContentInd = req.curRecvContentInd + 1 ∨
        ∃ r, next = some r ∧ StageWaits req.contentLeft o r sock sock' ∧
          req'.curRecvContentInd = req.curRecvContentInd) := by
  unfold processRecvMissingContent at h
  dsimp only at h
  split_ifs at h with hi
  · obtain ⟨slot, -, h⟩ := Option.bind_eq_some_iff.mp h
    obtain ⟨ind, hind, h⟩ := Option.bind_eq_some_iff.mp h
    obtain ⟨fp, hfp, h⟩ := Option.bind_eq_some_iff.mp h
    obtain ⟨⟨res, sock₁, buffer⟩, hrecv, hnext⟩ := Option.bind_eq_some_iff.mp h
    have hleft : req.contentLeft = u64Sub fp.contentSize req.curRecvContentOffset := by
      rw [DedupRecvReq.contentLeft, if_pos hi, hind, Option.bind_some, hfp, Option.elim_some]
    cases res with
    | none =>
        obtain ⟨rfl, rfl, rfl⟩ : some (failureReturn o.errno) = next ∧ req = req' ∧
            sock₁ = sock' := by
          simpa using hnext
        exact ⟨rfl, rfl, Or.inr ⟨_, rfl, hleft ▸ .of_recv (Or.inl rfl) hrecv (by simp), rfl⟩⟩
    | some n =>
        dsimp only at hnext
        split_ifs at hnext with hn
        · obtain ⟨rfl, rfl, rfl⟩ : some 0 = next ∧ _ = req' ∧ sock₁ = sock' := by
            simpa using hnext
          refine ⟨rfl, rfl, Or.inr ⟨0, rfl, hleft ▸ ?_, rfl⟩⟩
          exact .of_recv (Or.inl rfl) hrecv fun _ _ => Or.inr (Nat.zero_lt_of_lt hn)
        · obtain ⟨rfl, rfl, rfl⟩ : none = next ∧ _ = req' ∧ sock₁ = sock' := by
            simpa using hnext
          refine ⟨rfl, rfl, Or.inl ⟨rfl, ?_, hi, rfl⟩⟩
          rcases recv_moves hrecv with ⟨-, rfl, -, -⟩ | ⟨n, -, hn, -, rfl, -⟩
          · exact .refl _
          · exact .pull _ hn
  · obtain ⟨rfl, rfl, rfl⟩ : some 1 = next ∧ req = req' ∧ sock = sock' := by simpa using h
    exact ⟨rfl, rfl, Or.inr ⟨1, rfl, .ends (.refl _), rfl⟩⟩

/-- The populate loop ends, or takes another turn. -/
theorem processPopulateFromNetCache_turns {cache cache' : FingerprintCache}
    {entry : FingerprintEntry} {locals : PopulateLocals} {next : PopulateLocals ⊕ Int}
    (h : processPopulateFromNetCache cache req entry locals = some (next, cache', req')) :
    req'.stage = req.stage ∧ req'.head = req.head ∧ (next = .inr 1 ∨ ∃ locals',
      next = .inl locals' ∧
        locals'.turns (numFingerprints req.head) < locals.turns (numFingerprints req.head)) := by
  rcases processPopulateFromNetCache_some h with
    ⟨found, locals', hfound, rfl, -, hcopy⟩ | ⟨locals', hfound, hi, rfl, -, hlookup⟩ |
    ⟨-, -, rfl, hfinish⟩
  · obtain ⟨fp, content, -, -, -, rfl, rfl⟩ := copyChunk_some hcopy
    refine ⟨rfl, rfl, Or.inr ⟨_, rfl, ?_⟩⟩
    simp only [PopulateLocals.turns, PopulateLocals.copied, hfound]
    omega
  · obtain ⟨fp, -, ⟨rfl, rfl⟩ | ⟨found, rfl, rfl⟩⟩ := lookupChunk_some hlookup
    · refine ⟨rfl, rfl, Or.inr ⟨_, rfl, ?_⟩⟩
      simp only [PopulateLocals.turns, PopulateLocals.miss, hfound]
      omega
    · refine ⟨rfl, rfl, Or.inr ⟨_, rfl, ?_⟩⟩
      simp only [PopulateLocals.turns, PopulateLocals.hit, hfound]
      omega
  · obtain ⟨-, rfl⟩ := Prod.mk.inj hfinish
    exact ⟨rfl, rfl, Or.inl rfl⟩

/-- The insert loop ends, or takes another turn. -/
theorem insertInbound_turns {newEntry : FingerprintEntry} {i : Nat} {next : Nat ⊕ Int}
    (h : insertInbound proc req newEntry i = some (next, proc')) :
    next = .inr 1 ∨ i < req.numMissingFingerprints ∧ next = .inl (i + 1) := by
  unfold insertInbound at h
  split_ifs at h with hi
  · obtain ⟨ind, -, h⟩ := Option.bind_eq_some_iff.mp h
    obtain ⟨fp, -, h⟩ := Option.bind_eq_some_iff.mp h
    obtain ⟨slot, -, h⟩ := Option.bind_eq_some_iff.mp h
    obtain ⟨⟨ret, cache, entry⟩, -, h⟩ := Option.bind_eq_some_iff.mp h
    dsimp only at h
    split_ifs at h with hret
    · exact Or.inl (Prod.mk.inj (Option.some_inj.mp h)).1.symm
    · exact Or.inr ⟨hi, (Prod.mk.inj (Option.some_inj.mp h)).1.symm⟩
  · exact Or.inl (Prod.mk.inj (Option.some_inj.mp h)).1.symm

end Stages

theorem processRecv_advances_populate (hstage : st.req.stage = .populateFromNetCache)
    (h : processRecv st sock proc choice = some (flow, st', sock', proc')) :
    RecvAdvances choice flow st st' sock sock' := by
  rw [processRecv, hstage, processRecvStage] at h
  obtain ⟨⟨next, cache, req⟩, hturn, hrest⟩ := Option.bind_eq_some_iff.mp h
  obtain ⟨hkeep, hhead, rfl | ⟨locals, rfl, hlt⟩⟩ := processPopulateFromNetCache_turns hturn
  · obtain ⟨rfl, rfl, rfl, -⟩ : _ = flow ∧ _ = st' ∧ sock = sock' ∧ _ := by
      simpa [RecvState.afterPopulate, RecvState.advance] using hrest
    refine .goes (.refl _) (RecvState.left_lt_of_stage ?_)
    rw [hstage]
    exact Nat.lt_succ_self _
  · obtain ⟨rfl, rfl, rfl, -⟩ : _ = flow ∧ _ = st' ∧ sock = sock' ∧ _ := by
      simpa [RecvState.afterPopulate] using hrest
    refine .goes (.refl _) (RecvState.left_lt_of_turns hkeep ?_)
    simp only [RecvState.turns, hkeep, hstage, hhead, Option.getD_some]
    exact hlt

theorem processRecv_advances_content (hstage : st.req.stage = .recvMissingContent)
    (h : processRecv st sock proc choice = some (flow, st', sock', proc')) :
    RecvAdvances choice flow st st' sock sock' := by
  rw [processRecv, hstage, processRecvStage] at h
  obtain ⟨⟨next, req, sock₁⟩, hturn, hrest⟩ := Option.bind_eq_some_iff.mp h
  obtain ⟨hkeep, hnum, hcases⟩ := processRecvMissingContent_waits hturn
  have hawaited : st.req.awaited = st.req.contentLeft := by rw [DedupRecvReq.awaited, hstage]
  have hst : st.turns = st.req.numMissingFingerprints - st.req.curRecvContentInd := by
    rw [RecvState.turns, hstage]
  have hturns : RecvState.turns { st with req := req } =
      req.numMissingFingerprints - req.curRecvContentInd := by
    rw [RecvState.turns, hkeep, hstage]
  rcases hcases with ⟨rfl, hmoved, hlt, hind⟩ | ⟨r, rfl, hwaits, hind⟩
  · obtain ⟨rfl, rfl, rfl, -⟩ : _ = flow ∧ _ = st' ∧ sock₁ = sock' ∧ _ := by simpa using hrest
    refine .goes hmoved (RecvState.left_lt_of_turns hkeep ?_)
    rw [hturns, hst, hnum, hind]
    omega
  · by_cases hr : r = 1
    · obtain ⟨rfl, rfl, rfl, -⟩ : _ = flow ∧ _ = st' ∧ sock₁ = sock' ∧ _ := by
        simpa [RecvState.advance, hr] using hrest
      refine .goes hwaits.moved (RecvState.left_lt_of_stage ?_)
      rw [hstage]
      exact Nat.lt_succ_self _
    · obtain ⟨rfl, rfl, rfl, -⟩ : Flow.ret r = flow ∧ _ = st' ∧ sock₁ = sock' ∧ _ := by
        simpa [RecvState.advance, hr] using hrest
      have hleft : RecvState.left { st with req := req } = st.left := by
        rw [RecvState.left, RecvState.left, hturns, hst, hnum, hind, hkeep]
      refine .returns (Or.inl (hwaits.ret.resolve_right hr)) hwaits.moved hleft fun hsock hc =>
        Or.inr ?_
      rw [hawaited]
      exact hwaits.waits hr hsock hc.socket

theorem processRecv_advances_insert (hstage : st.req.stage = .insertInboundFingerprints)
    (h : processRecv st sock proc choice = some (flow, st', sock', proc')) :
    RecvAdvances choice flow st st' sock sock' := by
  rw [processRecv, hstage, processRecvStage] at h
  have hnext {inserting : Option Nat} : RecvState.left { st with
      req := { st.req with stage := .recvComplete }, inserting := inserting } < st.left := by
    apply RecvState.left_lt_of_stage
    rw [hstage]
    exact Nat.lt_succ_self _
  have hturns {i : Nat} (hlt : st.req.numMissingFingerprints + 1 - i < st.turns) :
      RecvState.left { st with inserting := some i } < st.left := by
    refine RecvState.left_lt_of_turns rfl (Nat.lt_of_le_of_lt (Nat.le_of_eq ?_) hlt)
    rw [RecvState.turns, hstage]
  cases hins : st.inserting with
  | none =>
      have hst : st.turns = st.req.numMissingFingerprints + 2 := by
        rw [RecvState.turns, hstage, hins]
      rw [hins] at h
      simp only [processsInsertInboundFingerprints] at h
      split_ifs at h with hskip htry
      · obtain ⟨rfl, rfl, rfl, -⟩ : _ = flow ∧ _ = st' ∧ sock = sock' ∧ _ := by
          simpa [RecvState.afterInsert, RecvState.advance] using h
        exact .goes (.refl _) hnext
      · obtain ⟨rfl, rfl, rfl, -⟩ : _ = flow ∧ _ = st' ∧ sock = sock' ∧ _ := by
          simpa [RecvState.afterInsert] using h
        exact .goes (.refl _) (hturns (by omega))
      · obtain ⟨rfl, rfl, rfl, -⟩ : _ = flow ∧ _ = st' ∧ sock = sock' ∧ _ := by
          simpa [RecvState.afterInsert, RecvState.advance] using h
        rw [← hins]
        exact .returns (Or.inl rfl) (.refl _) rfl fun _ hready => absurd hready.trylock htry
  | some i =>
      have hst : st.turns = st.req.numMissingFingerprints + 1 - i := by
        rw [RecvState.turns, hstage, hins]
      rw [hins] at h
      obtain ⟨⟨next, proc₁⟩, hinsert, hrest⟩ := Option.bind_eq_some_iff.mp h
      rcases insertInbound_turns hinsert with rfl | ⟨hi, rfl⟩
      · obtain ⟨rfl, rfl, rfl, -⟩ : _ = flow ∧ _ = st' ∧ sock = sock' ∧ _ := by
          simpa [RecvState.afterInsert, RecvState.advance] using hrest
        exact .goes (.refl _) hnext
      · obtain ⟨rfl, rfl, rfl, -⟩ : _ = flow ∧ _ = st' ∧ sock = sock' ∧ _ := by
          simpa [RecvState.afterInsert] using hrest
        exact .goes (.refl _) (hturns (by omega))

/-- Every step of a receive advances it, in whatever state it is. -/
theorem processRecv_advances
    (h : processRecv st sock proc choice = some (flow, st', sock', proc')) :
    RecvAdvances choice flow st st' sock sock' := by
  cases hstage : st.req.stage with
  | populateFromNetCache => exact processRecv_advances_populate hstage h
  | recvMissingContent => exact processRecv_advances_content hstage h
  | insertInboundFingerprints => exact processRecv_advances_insert hstage h
  | recvComplete =>
      rw [processRecv, hstage, processRecvStage] at h
      obtain ⟨rfl, rfl, rfl, -⟩ : _ = flow ∧ st = st' ∧ sock = sock' ∧ _ := by simpa using h
      exact .returns (Or.inr ⟨rfl, hstage⟩) (.refl _) rfl fun _ _ => Or.inl hstage
  | recvHeader =>
      have hawaited : st.req.awaited =
          u64Sub generalHeader.size (loadInt st.req.head generalHeader.offsetPos) := by
        rw [DedupRecvReq.awaited, hstage]
      rw [processRecv, hstage, processRecvStage] at h
      refine RecvState.socketStage_advances (by simp [RecvReqStage.isPlain, hstage])
        (fun r req sock' hreq => hawaited ▸ processRecvHeader_waits hreq) (fun req => ?_) h
      rw [hstage]
      split <;> decide
  | recvRegData =>
      have hawaited : st.req.awaited =
          u64Sub (headerContentSize st.req.head) st.req.appOffset := by
        rw [DedupRecvReq.awaited, hstage]
      rw [processRecv, hstage, processRecvStage] at h
      refine RecvState.socketStage_advances (by simp [RecvReqStage.isPlain, hstage])
        (fun r req sock' hreq => hawaited ▸ processRecvRegData_waits hreq) (fun req => ?_) h
      rw [hstage]
      decide
  | recvFingerprintHeader =>
      have hawaited : st.req.awaited =
          u64Sub fingerprintHeader.size (loadInt st.req.head fingerprintHeader.offsetPos) := by
        rw [DedupRecvReq.awaited, hstage]
      rw [processRecv, hstage, processRecvStage] at h
      refine RecvState.socketStage_advances (by simp [RecvReqStage.isPlain, hstage])
        (fun r req sock' hreq => hawaited ▸ processRecvFingerprintHeader_waits hreq)
        (fun req => ?_) h
      rw [hstage]
      decide
  | recvPackagedFingerprints =>
      have hawaited : st.req.awaited =
          u64Sub st.req.packagedFingerprintsSizeBytes st.req.recvFingerprintOffset := by
        rw [DedupRecvReq.awaited, hstage]
      rw [processRecv, hstage, processRecvStage] at h
      refine RecvState.socketStage_advances (by simp [RecvReqStage.isPlain, hstage])
        (fun r req sock' hreq => hawaited ▸ processRecvPackagedFingerprints_waits hreq)
        (fun req => ?_) h
      rw [hstage]
      decide
  | sendMissingFingerprintHeader =>
      have hawaited : st.req.awaited = 0 := by rw [DedupRecvReq.awaited, hstage]
      rw [processRecv, hstage, processRecvStage] at h
      refine RecvState.socketStage_advances (by simp [RecvReqStage.isPlain, hstage])
        (fun r req sock' hreq => hawaited ▸ processSendMissingFingerprintHeader_waits hreq)
        (fun req => ?_) h
      rw [hstage]
      split <;> decide
  | sendMissingFingerprints =>
      have hawaited : st.req.awaited = 0 := by rw [DedupRecvReq.awaited, hstage]
      rw [processRecv, hstage, processRecvStage] at h
      refine RecvState.socketStage_advances (by simp [RecvReqStage.isPlain, hstage])
        (fun r req sock' hreq => hawaited ▸ processSendMissingFingerprints_waits hreq)
        (fun req => ?_) h
      rw [hstage]
      decide

end NetDedup.Transfer

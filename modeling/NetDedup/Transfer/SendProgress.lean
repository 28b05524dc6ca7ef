import NetDedup.Transfer.Progress

/-!
# Progress of a send

Every step of `process_send`, in whatever state its request is, comes closer to
`SEND_COMPLETE`, moves bytes, or waits for a part of the reply.
-/

namespace NetDedup.Transfer

open Chunking Memory Store

/-- The stages of a send that are ahead. -/
def SendReqStage.ahead : SendReqStage → Nat
  | .sendHeader => 8
  | .sendRegData => 1
  | .computeFingerprints => 7
  | .insertOutboundFingerprints => 6
  | .sendFingerprintHeader => 5
  | .sendPackagedFingerprints => 4
  | .recvMissingFingerprintHeader => 3
  | .recvMissingFingerprints => 2
  | .sendMissingContent => 1
  | .sendComplete => 0

/-- The turns that the loop of the stage can still take. -/
def SendState.turns (st : SendState) : Nat :=
  match st.req.stage with
  | .insertOutboundFingerprints =>
      match st.inserting with
      | none => numFingerprints st.req.head + 2
      | some (i, _) => numFingerprints st.req.head + 1 - i
  | .sendMissingContent => st.req.numMissing - st.req.curReplyContentFingerprintInd
  | _ => 0

/-- What is left of a send. -/
def SendState.left (st : SendState) : ℕ ×ₗ ℕ := toLex (st.req.stage.ahead, st.turns)

/-- The bytes of the reply that a stage still waits for. -/
def DedupSendReq.awaited (req : DedupSendReq) : Nat :=
  match req.stage with
  | .recvMissingFingerprintHeader => u64Sub sizeofU64 req.missingFingerprintHeaderOffset
  | .recvMissingFingerprints =>
      u64Sub (req.numMissing * sizeofU64 % 2 ^ 64) req.recvMissingFingerprintIndsOffset
  | _ => 0

variable {sha256 : List UInt8 → Digest} {st st' : SendState} {sock sock' : Socket}
  {proc proc' : Process} {choice : Choice} {flow : Flow}

/-- A step of a send. It leaves the request alone when it returns without a byte moved. -/
structure SendAdvances (choice : Choice) (flow : Flow) (st st' : SendState) (sock sock' : Socket) :
    Prop extends Advances SendState.left (st.req.stage = .sendComplete) st.req.awaited choice flow
      st st' sock sock' where
  kept : flow ≠ .loop → sock' = sock → st' = st

theorem SendAdvances.goes (hmoved : Moved sock sock') (hlt : st'.left < st.left) :
    SendAdvances choice .loop st st' sock sock' where
  toAdvances := .goes hmoved hlt
  kept := fun h => absurd rfl h

theorem SendAdvances.stays {r : Int} (hret : r = 0 ∨ r = 1 ∧ st.req.stage = .sendComplete)
    (hready : choice.Ready → st.req.stage = .sendComplete) :
    SendAdvances choice (.ret r) st st sock sock where
  toAdvances := .returns hret (.refl _) rfl fun _ hc => Or.inl (hready hc)
  kept := fun _ _ => rfl

theorem SendState.left_lt_of_stage (h : st'.req.stage.ahead < st.req.stage.ahead) :
    st'.left < st.left :=
  Prod.Lex.toLex_lt_toLex.mpr (Or.inl h)

theorem SendState.left_lt_of_turns (hstage : st'.req.stage = st.req.stage)
    (h : st'.turns < st.turns) : st'.left < st.left :=
  Prod.Lex.toLex_lt_toLex.mpr (Or.inr ⟨congrArg SendReqStage.ahead hstage, h⟩)

theorem SendReqStage.ahead_eq_zero {stage : SendReqStage} :
    stage.ahead = 0 ↔ stage = .sendComplete := by
  cases stage <;> simp [ahead]

/-- A send that is complete stays so. -/
theorem SendState.complete_of_left_le (h : st'.left ≤ st.left)
    (hstage : st.req.stage = .sendComplete) : st'.req.stage = .sendComplete := by
  have hle := Prod.Lex.monotone_fst_ofLex h
  change st'.req.stage.ahead ≤ st.req.stage.ahead at hle
  rw [SendReqStage.ahead_eq_zero.mpr hstage] at hle
  exact SendReqStage.ahead_eq_zero.mp (Nat.le_zero.mp hle)

/-- The stages without a loop. -/
def SendReqStage.isPlain (stage : SendReqStage) : Prop :=
  stage ≠ .insertOutboundFingerprints ∧ stage ≠ .sendMissingContent

theorem SendState.turns_plain (h : st.req.stage.isPlain) : st.turns = 0 := by
  rw [turns]
  split
  · exact absurd ‹_› h.1
  · exact absurd ‹_› h.2
  · rfl

theorem SendState.socketStage_advances {stage : Option (Int × DedupSendReq × Socket)}
    {next : DedupSendReq → SendReqStage} (hplain : st.req.stage.isPlain)
    (hmoves : ∀ r req sock', stage = some (r, req, sock') → req.stage = st.req.stage ∧
      StageMoves st.req.awaited choice.socket r st.req req sock sock')
    (hahead : ∀ req, (next req).ahead < st.req.stage.ahead)
    (h : st.socketStage proc stage next = some (flow, st', sock', proc')) :
    SendAdvances choice flow st st' sock sock' := by
  obtain ⟨⟨r, req, sock₁⟩, hstage, hrest⟩ := Option.bind_eq_some_iff.mp h
  obtain ⟨hkeep, hmoves⟩ := hmoves r req sock₁ hstage
  by_cases hr : r = 1
  · obtain ⟨rfl, rfl, rfl, -⟩ : _ ∧ { st with req := { req with stage := next req } } = st' ∧
        sock₁ = sock' ∧ proc = proc' := by
      simpa [SendState.advance, hr] using hrest
    exact .goes hmoves.moved (left_lt_of_stage (hahead req))
  · obtain ⟨rfl, rfl, rfl, -⟩ : .ret r = flow ∧ { st with req := req } = st' ∧ sock₁ = sock' ∧
        proc = proc' := by
      simpa [SendState.advance, hr] using hrest
    have hleft : left { st with req := req } = st.left := by
      rw [left, left, turns_plain hplain, @turns_plain { st with req := req }
        (hkeep.symm ▸ hplain), hkeep]
    refine ⟨.returns (Or.inl (hmoves.ret.resolve_right hr)) hmoves.moved hleft
      fun hsock hc => ?_, fun _ hsock => ?_⟩
    · exact Or.inr (hmoves.waits hr hsock hc.socket)
    · rw [hmoves.kept hr hsock]

section Stages

variable {req req' : DedupSendReq} {o : Outcome} {r : Int}

theorem processSendHeader_moves (h : processSendHeader req sock o = some (r, req', sock')) :
    req'.stage = req.stage ∧ StageMoves 0 o r req req' sock sock' := by
  obtain ⟨⟨r₁, head, sock₁⟩, hfield, hrest⟩ := Option.bind_eq_some_iff.mp h
  obtain ⟨rfl, rfl, rfl⟩ : r₁ = r ∧ { req with head := head } = req' ∧ sock₁ = sock' := by
    simpa using hrest
  exact ⟨rfl, (sendHeaderField_moves hfield).map fun head => { req with head := head }⟩

theorem processSendRegData_moves (h : processSendRegData req sock o = some (r, req', sock')) :
    req'.stage = req.stage ∧ StageMoves 0 o r req req' sock sock' := by
  unfold processSendRegData at h
  dsimp only at h
  split_ifs at h with hrest
  · obtain ⟨rfl, rfl, rfl⟩ : 1 = r ∧ req = req' ∧ sock = sock' := by simpa using h
    exact ⟨rfl, .ends (.refl _)⟩
  · obtain ⟨⟨res, sock₁⟩, hsend, hnext⟩ := Option.bind_eq_some_iff.mp h
    cases res with
    | none =>
        obtain ⟨rfl, rfl, rfl⟩ : 0 = r ∧ req = req' ∧ sock₁ = sock' := by simpa using hnext
        exact ⟨rfl, .of_send (Or.inl rfl) hsend (by simp) fun _ => rfl⟩
    | some n =>
        have hreq : (r = 0 ∨ r = 1) ∧ req'.stage = req.stage ∧ sock₁ = sock' := by
          dsimp only at hnext
          split_ifs at hnext
          · obtain ⟨rfl, rfl, rfl⟩ : 0 = r ∧ _ = req' ∧ sock₁ = sock' := by simpa using hnext
            exact ⟨Or.inl rfl, rfl, rfl⟩
          · obtain ⟨rfl, rfl, rfl⟩ : 1 = r ∧ _ = req' ∧ sock₁ = sock' := by simpa using hnext
            exact ⟨Or.inr rfl, rfl, rfl⟩
        obtain ⟨hret, hkeep, rfl⟩ := hreq
        exact ⟨hkeep, .of_send hret hsend (fun _ _ => Or.inr (Nat.pos_of_ne_zero hrest)) (by simp)⟩

theorem processSendFingerprintHeader_moves
    (h : processSendFingerprintHeader req sock o = some (r, req', sock')) :
    req'.stage = req.stage ∧ StageMoves 0 o r req req' sock sock' := by
  obtain ⟨⟨r₁, head, sock₁⟩, hfield, hrest⟩ := Option.bind_eq_some_iff.mp h
  obtain ⟨rfl, rfl, rfl⟩ : r₁ = r ∧ { req with head := head } = req' ∧ sock₁ = sock' := by
    simpa using hrest
  exact ⟨rfl, (sendHeaderField_moves hfield).map fun head => { req with head := head }⟩

theorem processSendPackagedFingerprints_moves
    (h : processSendPackagedFingerprints req sock o = some (r, req', sock')) :
    req'.stage = req.stage ∧ StageMoves 0 o r req req' sock sock' := by
  obtain ⟨⟨r₁, offset, sock₁⟩, hblock, hrest⟩ := Option.bind_eq_some_iff.mp h
  obtain ⟨rfl, rfl, rfl⟩ : r₁ = r ∧ { req with sendFingerprintOffset := offset } = req' ∧
      sock₁ = sock' := by
    simpa using hrest
  exact ⟨rfl, (sendBlock_moves hblock).map fun offset => { req with sendFingerprintOffset := offset }⟩

theorem processRecvMissingFingerprintHeader_moves
    (h : processRecvMissingFingerprintHeader req sock o = some (r, req', sock')) :
    req'.stage = req.stage ∧ StageMoves (u64Sub sizeofU64 req.missingFingerprintHeaderOffset) o r
      req req' sock sock' := by
  obtain ⟨⟨r₁, offset, header, sock₁⟩, hblock, hrest⟩ := Option.bind_eq_some_iff.mp h
  obtain ⟨rfl, rfl, rfl⟩ : r₁ = r ∧ { req with
      missingFingerprintHeader := header, missingFingerprintHeaderOffset := offset } = req' ∧
      sock₁ = sock' := by
    simpa using hrest
  exact ⟨rfl, (recvBlock_moves hblock).map fun saved => { req with
    missingFingerprintHeader := saved.2, missingFingerprintHeaderOffset := saved.1 }⟩

theorem processRecvMissingFingerprints_moves
    (h : processRecvMissingFingerprints req sock o = some (r, req', sock')) :
    req'.stage = req.stage ∧
      StageMoves (u64Sub (req.numMissing * sizeofU64 % 2 ^ 64) req.recvMissingFingerprintIndsOffset)
        o r req req' sock sock' := by
  obtain ⟨⟨r₁, offset, inds, sock₁⟩, hblock, hrest⟩ := Option.bind_eq_some_iff.mp h
  obtain ⟨rfl, rfl, rfl⟩ : r₁ = r ∧ { req with
      missingFingerprintInds := inds, recvMissingFingerprintIndsOffset := offset } = req' ∧
      sock₁ = sock' := by
    simpa using hrest
  exact ⟨rfl, (recvBlock_moves hblock).map fun saved => { req with
    missingFingerprintInds := saved.2, recvMissingFingerprintIndsOffset := saved.1 }⟩

/-- A turn of the content loop goes on to the next chunk, or returns. -/
theorem processSendMissingContent_moves {next : Option Int}
    (h : processSendMissingContent req sock o = some (next, req', sock')) :
    req'.stage = req.stage ∧ req'.numMissing = req.numMissing ∧
      (next = none ∧ Moved sock sock' ∧ req.curReplyContentFingerprintInd < req.numMissing ∧
          req'.curReplyContentFingerprintInd = req.curReplyContentFingerprintInd + 1 ∨
        ∃ r, next = some r ∧ StageMoves 0 o r req req' sock sock' ∧
          req'.curReplyContentFingerprintInd = req.curReplyContentFingerprintInd) := by
  unfold processSendMissingContent at h
  dsimp only at h
  split_ifs at h with hi
  · obtain ⟨ind, -, h⟩ := Option.bind_eq_some_iff.mp h
    obtain ⟨offset, -, h⟩ := Option.bind_eq_some_iff.mp h
    obtain ⟨fp, -, h⟩ := Option.bind_eq_some_iff.mp h
    obtain ⟨⟨res, sock₁⟩, hsend, hnext⟩ := Option.bind_eq_some_iff.mp h
    cases res with
    | none =>
        obtain ⟨rfl, rfl, rfl⟩ : some (failureReturn o.errno) = next ∧ req = req' ∧
            sock₁ = sock' := by
          simpa using hnext
        exact ⟨rfl, rfl, Or.inr ⟨_, rfl, .of_send (Or.inl rfl) hsend (by simp) fun _ => rfl, rfl⟩⟩
    | some n =>
        dsimp only at hnext
        split_ifs at hnext with hn
        · obtain ⟨rfl, rfl, rfl⟩ : some 0 = next ∧ _ = req' ∧ sock₁ = sock' := by
            simpa using hnext
          refine ⟨rfl, rfl, Or.inr ⟨0, rfl, ?_, rfl⟩⟩
          exact .of_send (Or.inl rfl) hsend (fun _ _ => Or.inr (Nat.zero_lt_of_lt hn)) (by simp)
        · obtain ⟨rfl, rfl, rfl⟩ : none = next ∧ _ = req' ∧ sock₁ = sock' := by
            simpa using hnext
          refine ⟨rfl, rfl, Or.inl ⟨rfl, ?_, hi, rfl⟩⟩
          rcases send_moves hsend with ⟨-, rfl, -⟩ | ⟨n, -, -, rfl⟩
          · exact .refl _
          · exact .push _ _
  · obtain ⟨rfl, rfl, rfl⟩ : some 1 = next ∧ req = req' ∧ sock = sock' := by simpa using h
    exact ⟨rfl, rfl, Or.inr ⟨1, rfl, .ends (.refl _), rfl⟩⟩

/-- The insert loop ends, or takes another turn. -/
theorem insertOutbound_turns {newEntry : FingerprintEntry} {i cur : Nat} {next : (Nat × Nat) ⊕ Int}
    (h : insertOutbound proc req newEntry i cur = some (next, proc')) :
    next = .inr 1 ∨ i < numFingerprints req.head ∧ ∃ cur', next = .inl (i + 1, cur') := by
  unfold insertOutbound at h
  split_ifs at h with hi
  · obtain ⟨fp, -, h⟩ := Option.bind_eq_some_iff.mp h
    obtain ⟨⟨ret, cache, entry⟩, -, h⟩ := Option.bind_eq_some_iff.mp h
    dsimp only at h
    split_ifs at h with hret
    · exact Or.inl (Prod.mk.inj (Option.some_inj.mp h)).1.symm
    · exact Or.inr ⟨hi, _, (Prod.mk.inj (Option.some_inj.mp h)).1.symm⟩
  · exact Or.inl (Prod.mk.inj (Option.some_inj.mp h)).1.symm

theorem processComputeFingerprints_ret {settings : FingerprintingSettings}
    (h : processComputeFingerprints sha256 settings req = some (r, req')) : r = 1 := by
  obtain ⟨_, -, h⟩ := Option.bind_eq_some_iff.mp h
  obtain ⟨_, -, h⟩ := Option.bind_eq_some_iff.mp h
  exact (Prod.mk.inj (Option.some_inj.mp h)).1.symm

end Stages

theorem processSend_advances_insert (hstage : st.req.stage = .insertOutboundFingerprints)
    (h : processSend sha256 st sock proc choice = some (flow, st', sock', proc')) :
    SendAdvances choice flow st st' sock sock' := by
  rw [processSend, hstage, processSendStage] at h
  have hnext {inserting : Option (Nat × Nat)} : SendState.left { st with
      req := { st.req with stage := .sendFingerprintHeader }, inserting := inserting } < st.left := by
    apply SendState.left_lt_of_stage
    rw [hstage]
    exact Nat.lt_succ_self _
  have hturns {i cur : Nat} (hlt : numFingerprints st.req.head + 1 - i < st.turns) :
      SendState.left { st with inserting := some (i, cur) } < st.left := by
    refine SendState.left_lt_of_turns rfl (Nat.lt_of_le_of_lt (Nat.le_of_eq ?_) hlt)
    rw [SendState.turns, hstage]
  cases hins : st.inserting with
  | none =>
      have hst : st.turns = numFingerprints st.req.head + 2 := by rw [SendState.turns, hstage, hins]
      rw [hins] at h
      simp only [processInsertOutboundFingerprints] at h
      split_ifs at h with hskip htry
      · obtain ⟨rfl, rfl, rfl, -⟩ : _ = flow ∧ _ = st' ∧ sock = sock' ∧ _ := by
          simpa [SendState.afterInsert, SendState.advance] using h
        exact .goes (.refl _) hnext
      · obtain ⟨rfl, rfl, rfl, -⟩ : _ = flow ∧ _ = st' ∧ sock = sock' ∧ _ := by
          simpa [SendState.afterInsert] using h
        exact .goes (.refl _) (hturns (by omega))
      · obtain ⟨rfl, rfl, rfl, -⟩ : _ = flow ∧ _ = st' ∧ sock = sock' ∧ _ := by
          simpa [SendState.afterInsert, SendState.advance] using h
        rw [← hins]
        exact .stays (Or.inl rfl) fun hready => absurd hready.trylock htry
  | some locals =>
      obtain ⟨i, cur⟩ := locals
      have hst : st.turns = numFingerprints st.req.head + 1 - i := by
        rw [SendState.turns, hstage, hins]
      rw [hins] at h
      obtain ⟨⟨next, proc₁⟩, hinsert, hrest⟩ := Option.bind_eq_some_iff.mp h
      rcases insertOutbound_turns hinsert with rfl | ⟨hi, cur', rfl⟩
      · obtain ⟨rfl, rfl, rfl, -⟩ : _ = flow ∧ _ = st' ∧ sock = sock' ∧ _ := by
          simpa [SendState.afterInsert, SendState.advance] using hrest
        exact .goes (.refl _) hnext
      · obtain ⟨rfl, rfl, rfl, -⟩ : _ = flow ∧ _ = st' ∧ sock = sock' ∧ _ := by
          simpa [SendState.afterInsert] using hrest
        exact .goes (.refl _) (hturns (by omega))

theorem processSend_advances_content (hstage : st.req.stage = .sendMissingContent)
    (h : processSend sha256 st sock proc choice = some (flow, st', sock', proc')) :
    SendAdvances choice flow st st' sock sock' := by
  rw [processSend, hstage, processSendStage] at h
  obtain ⟨⟨next, req, sock₁⟩, hturn, hrest⟩ := Option.bind_eq_some_iff.mp h
  obtain ⟨hkeep, hnum, hcases⟩ := processSendMissingContent_moves hturn
  have hst : st.turns = st.req.numMissing - st.req.curReplyContentFingerprintInd := by
    rw [SendState.turns, hstage]
  have hturns : SendState.turns { st with req := req } =
      req.numMissing - req.curReplyContentFingerprintInd := by
    rw [SendState.turns, hkeep, hstage]
  rcases hcases with ⟨rfl, hmoved, hlt, hind⟩ | ⟨r, rfl, hmoves, hind⟩
  · obtain ⟨rfl, rfl, rfl, -⟩ : _ = flow ∧ _ = st' ∧ sock₁ = sock' ∧ _ := by simpa using hrest
    refine .goes hmoved (SendState.left_lt_of_turns hkeep ?_)
    rw [hturns, hst, hnum, hind]
    omega
  · by_cases hr : r = 1
    · obtain ⟨rfl, rfl, rfl, -⟩ : _ = flow ∧ _ = st' ∧ sock₁ = sock' ∧ _ := by
        simpa [SendState.advance, hr] using hrest
      refine .goes hmoves.moved (SendState.left_lt_of_stage ?_)
      rw [hstage]
      exact Nat.lt_succ_self _
    · obtain ⟨rfl, rfl, rfl, -⟩ : Flow.ret r = flow ∧ _ = st' ∧ sock₁ = sock' ∧ _ := by
        simpa [SendState.advance, hr] using hrest
      have hleft : SendState.left { st with req := req } = st.left := by
        rw [SendState.left, SendState.left, hturns, hst, hnum, hind, hkeep]
      refine ⟨.returns (Or.inl (hmoves.ret.resolve_right hr)) hmoves.moved hleft
        fun hsock hc => ?_, fun _ hsock => ?_⟩
      · exact absurd (hmoves.waits hr hsock hc.socket).1 (Nat.lt_irrefl 0)
      · rw [hmoves.kept hr hsock]

/-- Every step of a send advances it, in whatever state it is. -/
theorem processSend_advances
    (h : processSend sha256 st sock proc choice = some (flow, st', sock', proc')) :
    SendAdvances choice flow st st' sock sock' := by
  cases hstage : st.req.stage with
  | insertOutboundFingerprints => exact processSend_advances_insert hstage h
  | sendMissingContent => exact processSend_advances_content hstage h
  | computeFingerprints =>
      rw [processSend, hstage, processSendStage] at h
      obtain ⟨⟨r, req⟩, hcompute, hrest⟩ := Option.bind_eq_some_iff.mp h
      obtain rfl := processComputeFingerprints_ret hcompute
      obtain ⟨rfl, rfl, rfl, -⟩ : _ = flow ∧ _ = st' ∧ sock = sock' ∧ _ := by
        simpa [SendState.advance] using hrest
      refine .goes (.refl _) (SendState.left_lt_of_stage ?_)
      rw [hstage]
      exact Nat.lt_succ_self _
  | sendComplete =>
      rw [processSend, hstage, processSendStage] at h
      obtain ⟨rfl, rfl, rfl, -⟩ : _ = flow ∧ st = st' ∧ sock = sock' ∧ _ := by simpa using h
      exact .stays (Or.inr ⟨rfl, hstage⟩) fun _ => hstage
  | sendHeader =>
      have hawaited : st.req.awaited = 0 := by rw [DedupSendReq.awaited, hstage]
      rw [processSend, hstage, processSendStage] at h
      refine SendState.socketStage_advances (by simp [SendReqStage.isPlain, hstage])
        (fun r req sock' hreq => hawaited ▸ processSendHeader_moves hreq) (fun req => ?_) h
      rw [hstage]
      split <;> decide
  | sendRegData =>
      have hawaited : st.req.awaited = 0 := by rw [DedupSendReq.awaited, hstage]
      rw [processSend, hstage, processSendStage] at h
      refine SendState.socketStage_advances (by simp [SendReqStage.isPlain, hstage])
        (fun r req sock' hreq => hawaited ▸ processSendRegData_moves hreq) (fun req => ?_) h
      rw [hstage]
      decide
  | sendFingerprintHeader =>
      have hawaited : st.req.awaited = 0 := by rw [DedupSendReq.awaited, hstage]
      rw [processSend, hstage, processSendStage] at h
      refine SendState.socketStage_advances (by simp [SendReqStage.isPlain, hstage])
        (fun r req sock' hreq => hawaited ▸ processSendFingerprintHeader_moves hreq)
        (fun req => ?_) h
      rw [hstage]
      decide
  | sendPackagedFingerprints =>
      have hawaited : st.req.awaited = 0 := by rw [DedupSendReq.awaited, hstage]
      rw [processSend, hstage, processSendStage] at h
      refine SendState.socketStage_advances (by simp [SendReqStage.isPlain, hstage])
        (fun r req sock' hreq => hawaited ▸ processSendPackagedFingerprints_moves hreq)
        (fun req => ?_) h
      rw [hstage]
      decide
  | recvMissingFingerprintHeader =>
      have hawaited : st.req.awaited = u64Sub sizeofU64 st.req.missingFingerprintHeaderOffset := by
        rw [DedupSendReq.awaited, hstage]
      rw [processSend, hstage, processSendStage] at h
      refine SendState.socketStage_advances (by simp [SendReqStage.isPlain, hstage])
        (fun r req sock' hreq => hawaited ▸ processRecvMissingFingerprintHeader_moves hreq)
        (fun req => ?_) h
      rw [hstage]
      split <;> decide
  | recvMissingFingerprints =>
      have hawaited : st.req.awaited = u64Sub (st.req.numMissing * sizeofU64 % 2 ^ 64)
          st.req.recvMissingFingerprintIndsOffset := by
        rw [DedupSendReq.awaited, hstage]
      rw [processSend, hstage, processSendStage] at h
      refine SendState.socketStage_advances (by simp [SendReqStage.isPlain, hstage])
        (fun r req sock' hreq => hawaited ▸ processRecvMissingFingerprints_moves hreq)
        (fun req => ?_) h
      rw [hstage]
      decide

end NetDedup.Transfer

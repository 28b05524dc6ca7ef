import NetDedup.Transfer.Recv

/-!
# Header transfers

What the header stages put on the wire and read from it when a transfer takes
several calls. The resume address of a header counts in headers, not in
bytes, so a stage is right exactly when no call moves only a part of it.
-/

namespace NetDedup.Transfer

open Memory

/-- A stage called once for each outcome until it returns 1. -/
def runStage {R : Type*} (stage : R → Socket → Outcome → Option (Int × R × Socket)) :
    R → Socket → List Outcome → Option (Int × R × Socket)
  | req, sock, [] => some (0, req, sock)
  | req, sock, o :: os => do
      let (r, req, sock) ← stage req sock o
      if r = 1 then some (1, req, sock) else runStage stage req sock os

/-- A way to split the transfer of `r` bytes over successive calls. -/
def Split : Nat → List Outcome → Prop
  | r, [] => r = 0
  | r, .ready n :: os => 0 < r ∧ Split (r - min (n + 1) r) os
  | r, .wouldBlock :: os => 0 < r ∧ Split r os
  | _, _ => False

/-- No call moves less than the whole header. -/
def NoShort (size : Nat) (os : List Outcome) : Prop := ∀ n, .ready n ∈ os → size ≤ n + 1

instance decidableSplit : ∀ r os, Decidable (Split r os)
  | r, [] => inferInstanceAs (Decidable (r = 0))
  | r, .ready n :: os =>
      have := decidableSplit (r - min (n + 1) r) os
      inferInstanceAs (Decidable (_ ∧ _))
  | r, .wouldBlock :: os =>
      have := decidableSplit r os
      inferInstanceAs (Decidable (_ ∧ _))
  | _, .failed _ :: _ => inferInstanceAs (Decidable False)
  | _, .closed :: _ => inferInstanceAs (Decidable False)

/-- The stage puts exactly the bytes of its header on the wire, whatever the
request is that it starts from. -/
def SendsHeader (stage : DedupSendReq → Socket → Outcome → Option (Int × DedupSendReq × Socket))
    (f : HeaderField) (os : List Outcome) : Prop :=
  ∀ req sock, loadInt req.head f.offsetPos = 0 →
    ∃ req' sock', runStage stage req sock os = some (1, req', sock') ∧
      sock'.sent = sock.sent ++ read req.head f.pos f.size

/-- The stage finishes with the header it was fed and has changed nothing but
the header, its offset, and what `init` does to the completed request. -/
def ReceivesHeader (stage : DedupRecvReq → Socket → Outcome → Option (Int × DedupRecvReq × Socket))
    (f : HeaderField) (init : DedupRecvReq → DedupRecvReq) (os : List Outcome) : Prop :=
  ∀ req header rest sent, header.length = f.size → loadInt req.head f.offsetPos = 0 →
    ∃ head, runStage stage req ⟨sent, header ++ rest⟩ os =
        some (1, init { req with head := head }, ⟨sent, rest⟩) ∧
      read head f.pos f.size = header ∧
      ∀ a, (a < f.pos ∨ f.pos + f.size ≤ a) → (a < f.offsetPos ∨ f.offsetPos + 4 ≤ a) →
        head a = req.head a

/-- The receive state that a completed fingerprint header starts. -/
def initFingerprintRecv (req : DedupRecvReq) : DedupRecvReq :=
  { req with
    packagedFingerprintsSizeBytes := numFingerprints req.head * sizeofFingerprint % 2 ^ 64
    recvFingerprintOffset := 0
    missingFingerprintHeaderOffset := 0
    sendMissingFingerprintIndsOffset := 0
    curRecvContentInd := 0
    curRecvContentOffset := 0 }

section Int

variable (m : Mem) {pos v : Nat}

theorem loadInt_storeInt (hv : v < 2 ^ 31) : loadInt (storeInt m pos v) pos = v := by
  have hread : read (storeInt m pos v) pos 4 = leBytes 4 v := read_write_self pos (leBytes 4 v)
  have hmod : v % 256 ^ 4 = v := Nat.mod_eq_of_lt (by omega)
  rw [loadInt, hread, leNat_leBytes, hmod]
  exact if_pos hv

theorem storeInt_of_ne {a : Nat} (h : a < pos ∨ pos + 4 ≤ a) : storeInt m pos v a = m a := by
  rcases h with h | h
  · exact write_below _ h
  · exact write_above (by rw [length_leBytes]; exact h)

variable {m}

/-- A small offset has the bytes of its value. -/
theorem read_of_loadInt (h : loadInt m pos = v) (hv : v < 2 ^ 31) : read m pos 4 = leBytes 4 v := by
  have hlt := leNat_lt (read m pos 4)
  have hbytes := leBytes_leNat (read m pos 4)
  rw [length_read] at hlt hbytes
  rw [loadInt] at h
  split at h
  · rw [← h, hbytes]
  · omega

theorem loadInt_congr {m' : Mem} (h : ∀ a, pos ≤ a → a < pos + 4 → m a = m' a) :
    loadInt m pos = loadInt m' pos := by
  rw [loadInt, loadInt, read_congr h]

end Int

/-- What the two header fields have in common: the offset follows the header,
and resume addresses stay in the request. -/
structure HeaderField.Ok (f : HeaderField) : Prop where
  offset_eq : f.offsetPos = f.pos + f.size
  size_ge : 4 ≤ f.size
  size_le : f.size ≤ 16
  square_le : f.pos + f.size * f.size ≤ headSize

theorem generalHeader_ok : generalHeader.Ok := by
  constructor <;> decide

theorem fingerprintHeader_ok : fingerprintHeader.Ok := by
  constructor <;> decide

section Call

variable {f : HeaderField} (hf : f.Ok) {head : Mem} {sock : Socket} {k : Nat}

include hf

theorem HeaderField.Ok.resume_bounds (hk : k < f.size) {n : Nat} (hn : n ≤ f.size - k) :
    (f.pos + k * f.size) % 2 ^ 64 = f.pos + k * f.size ∧ u64Sub f.size k = f.size - k ∧
    InBounds headSize (f.pos + k * f.size) n := by
  have hle : (k + 1) * f.size ≤ f.size * f.size := Nat.mul_le_mul_right _ hk
  have hsquare := hf.square_le
  have hsize := hf.size_le
  have hhead : headSize < 2 ^ 64 := by decide
  rw [Nat.succ_mul] at hle
  exact ⟨Nat.mod_eq_of_lt (by omega), u64Sub_of_le (by omega) (by omega), Or.inr (by omega)⟩

/-- A call of a send header stage after `k` bytes. -/
theorem sendHeaderField_ready (hk : k < f.size) (hoffset : loadInt head f.offsetPos = k) (n : Nat) :
    sendHeaderField f head sock (.ready n) =
      let sock' := { sock with
        sent := sock.sent ++ read head (f.pos + k * f.size) (min (n + 1) (f.size - k)) }
      if n + 1 < f.size - k then some (0, storeInt head f.offsetPos (k + (n + 1)), sock')
      else some (1, head, sock') := by
  obtain ⟨hpos, hsub, hbounds⟩ := hf.resume_bounds hk (Nat.min_le_right (n + 1) (f.size - k))
  simp only [sendHeaderField, hoffset, hpos, hsub, send, Outcome.sent, if_pos hbounds,
    Option.bind_eq_bind, Option.bind_some]
  split
  · next hlt =>
    rw [if_pos (show n + 1 < f.size - k by omega), show min (n + 1) (f.size - k) = n + 1 by omega]
  · next hge => rw [if_neg (show ¬ n + 1 < f.size - k by omega)]

omit hf in
theorem sendHeaderField_wouldBlock :
    sendHeaderField f head sock .wouldBlock = some (0, head, sock) :=
  rfl

/-- A call of a receive header stage after `k` bytes. -/
theorem recvHeaderField_ready (hk : k < f.size) (hoffset : loadInt head f.offsetPos = k) {n m : Nat}
    (hm : (Outcome.ready n).received (f.size - k) sock.inbound.length = some m) :
    recvHeaderField f head sock (.ready n) =
      let head' := write head (f.pos + k * f.size) (sock.inbound.take m)
      let sock' := { sock with inbound := sock.inbound.drop m }
      if m < f.size - k then
        some (0, storeInt head' f.offsetPos (loadInt head' f.offsetPos + m), sock')
      else some (1, head', sock') := by
  obtain ⟨hpos, hsub, hbounds⟩ := hf.resume_bounds hk (Outcome.received_le hm).1
  have hrecv : recv sock (.ready n) head headSize (f.pos + k * f.size) (f.size - k) =
      some (some m, { sock with inbound := sock.inbound.drop m },
        write head (f.pos + k * f.size) (sock.inbound.take m)) := by
    unfold recv
    rw [hm]
    exact if_pos hbounds
  unfold recvHeaderField
  rw [hoffset]
  simp only [hpos, hsub, hrecv, Option.bind_eq_bind, Option.bind_some]

omit hf in
theorem recvHeaderField_wouldBlock :
    recvHeaderField f head sock .wouldBlock = some (0, head, sock) :=
  rfl

end Call

section WholeCall

/-- A call that moves nothing of a header, or all of it. -/
def Outcome.Whole : Outcome → Nat → Nat → Prop
  | .ready n, size, available => size ≤ n + 1 ∧ (available = 0 ∨ size ≤ available)
  | _, _, _ => True

instance decidableWhole : ∀ (o : Outcome) (size available : Nat), Decidable (o.Whole size available)
  | .ready _, _, _ => inferInstanceAs (Decidable (_ ∧ _))
  | .wouldBlock, _, _ => inferInstanceAs (Decidable True)
  | .failed _, _, _ => inferInstanceAs (Decidable True)
  | .closed, _, _ => inferInstanceAs (Decidable True)

variable {f : HeaderField} (hf : f.Ok) {head : Mem} {sock : Socket} {o : Outcome}

include hf

/-- A send header stage without a short call. -/
theorem sendHeaderField_whole (hoffset : loadInt head f.offsetPos = 0) {available : Nat}
    (hwhole : o.Whole f.size available) :
    sendHeaderField f head sock o = some (0, head, sock) ∨
    sendHeaderField f head sock o =
      some (1, head, { sock with sent := sock.sent ++ read head f.pos f.size }) := by
  cases o with
  | ready n =>
      obtain ⟨hn, -⟩ := hwhole
      have hsize := hf.size_ge
      rw [sendHeaderField_ready hf (show 0 < f.size by omega) hoffset, if_neg (by omega),
        Nat.zero_mul, Nat.add_zero, Nat.sub_zero, Nat.min_eq_right hn]
      exact Or.inr rfl
  | wouldBlock => exact Or.inl rfl
  | failed => exact Or.inl rfl
  | closed => exact Or.inl rfl

omit hf in
/-- Storing the offset of a transfer that has not begun. -/
theorem storeInt_zero (hoffset : loadInt head f.offsetPos = 0) :
    storeInt head f.offsetPos (0 + 0) = head := by
  rw [storeInt, Nat.add_zero, ← read_of_loadInt hoffset (by omega), write_read]

/-- A receive header stage without a short call. -/
theorem recvHeaderField_whole (hoffset : loadInt head f.offsetPos = 0)
    (hwhole : o.Whole f.size sock.inbound.length) :
    recvHeaderField f head sock o = some (0, head, sock) ∨
    (f.size ≤ sock.inbound.length ∧ recvHeaderField f head sock o =
      some (1, write head f.pos (sock.inbound.take f.size),
        { sock with inbound := sock.inbound.drop f.size })) := by
  have hsize := hf.size_ge
  have hsub : u64Sub f.size 0 = f.size := u64Sub_of_le (Nat.zero_le _) (by
    have := hf.size_le
    omega)
  cases o with
  | ready n =>
      obtain ⟨hn, havail⟩ := hwhole
      rcases havail with hnone | havail
      · refine Or.inl ?_
        have hrecv : recv sock (.ready n) head headSize ((f.pos + 0 * f.size) % 2 ^ 64) f.size =
            some (none, sock, head) := by
          rw [recv, Outcome.received, if_neg (by omega), if_pos hnone]
        simp only [recvHeaderField, hoffset, hsub, hrecv, Option.bind_eq_bind, Option.bind_some,
          failureReturn_eq]
      · have hm : (Outcome.ready n).received (f.size - 0) sock.inbound.length = some f.size := by
          rw [Outcome.received, if_neg (by omega), if_neg (by omega), Nat.sub_zero,
            Nat.min_eq_left havail, Nat.min_eq_right hn]
        rw [recvHeaderField_ready hf (show 0 < f.size by omega) hoffset hm, if_neg (by omega),
          Nat.zero_mul, Nat.add_zero]
        exact Or.inr ⟨havail, rfl⟩
  | wouldBlock => exact Or.inl rfl
  | failed => exact Or.inl rfl
  | closed =>
      refine Or.inl ?_
      have hmod : (f.pos + 0 * f.size) % 2 ^ 64 = f.pos := by
        have := hf.square_le
        have hhead : headSize < 2 ^ 64 := by decide
        rw [Nat.zero_mul, Nat.add_zero]
        exact Nat.mod_eq_of_lt (by omega)
      rcases Nat.eq_zero_or_pos sock.inbound.length with hnone | hsome
      · have hrecv : recv sock .closed head headSize f.pos f.size = some (some 0, sock, head) := by
          rw [recv, Outcome.received, if_pos hnone]
          simp only [if_pos (show InBounds headSize f.pos 0 from Or.inl rfl), List.drop_zero,
            List.take_zero, write_nil]
        simp only [recvHeaderField, hoffset, hsub, hmod, hrecv, Option.bind_eq_bind,
          Option.bind_some, if_pos (show 0 < f.size by omega), storeInt_zero hoffset]
      · have hrecv : recv sock .closed head headSize f.pos f.size = some (none, sock, head) := by
          rw [recv, Outcome.received, if_neg (by omega)]
        simp only [recvHeaderField, hoffset, hsub, hmod, hrecv, Option.bind_eq_bind,
          Option.bind_some, failureReturn_eq]

end WholeCall

section Whole

variable {f : HeaderField} (hf : f.Ok) {head : Mem} {sock : Socket}

include hf

/-- Without a short call the header goes out as it is. -/
theorem runStage_send_whole (hoffset : loadInt head f.offsetPos = 0) :
    ∀ {os : List Outcome}, Split f.size os → NoShort f.size os →
      runStage (sendHeaderField f) head sock os =
        some (1, head, { sock with sent := sock.sent ++ read head f.pos f.size }) := by
  intro os
  have hsize := hf.size_ge
  induction os with
  | nil => intro hsplit _; exact absurd hsplit (by simp [Split]; omega)
  | cons o os ih =>
      intro hsplit hshort
      cases o with
      | ready n =>
          have hn := hshort n (List.mem_cons_self ..)
          rw [runStage, sendHeaderField_ready hf (show 0 < f.size by omega) hoffset,
            if_neg (by omega), Nat.zero_mul, Nat.add_zero, Nat.sub_zero, Nat.min_eq_right hn]
          rfl
      | wouldBlock =>
          rw [runStage, sendHeaderField_wouldBlock]
          exact ih hsplit.2 fun n h => hshort n (List.mem_cons_of_mem _ h)
      | failed => exact absurd hsplit (by simp [Split])
      | closed => exact absurd hsplit (by simp [Split])

/-- Without a short call the header comes in as it was sent. -/
theorem runStage_recv_whole (hoffset : loadInt head f.offsetPos = 0) {header rest sent : List UInt8}
    (hlen : header.length = f.size) :
    ∀ {os : List Outcome}, Split f.size os → NoShort f.size os →
      runStage (recvHeaderField f) head ⟨sent, header ++ rest⟩ os =
        some (1, write head f.pos header, ⟨sent, rest⟩) := by
  intro os
  have hsize := hf.size_ge
  induction os with
  | nil => intro hsplit _; exact absurd hsplit (by simp [Split]; omega)
  | cons o os ih =>
      intro hsplit hshort
      cases o with
      | ready n =>
          have hn := hshort n (List.mem_cons_self ..)
          have hm : (Outcome.ready n).received (f.size - 0)
              (Socket.mk sent (header ++ rest)).inbound.length = some f.size := by
            have hmin : min (n + 1) (min f.size (f.size + rest.length)) = f.size := by
              rw [Nat.min_eq_left (Nat.le_add_right f.size rest.length), Nat.min_eq_right hn]
            rw [Outcome.received, if_neg (by omega), List.length_append, hlen,
              if_neg (by omega), Nat.sub_zero, hmin]
          rw [runStage, recvHeaderField_ready hf (show 0 < f.size by omega) hoffset hm,
            if_neg (by omega), Nat.zero_mul, Nat.add_zero]
          simp only [Option.bind_eq_bind, Option.bind_some, if_true, ← hlen,
            List.take_left, List.drop_left]
      | wouldBlock =>
          rw [runStage, recvHeaderField_wouldBlock]
          exact ih hsplit.2 fun n h => hshort n (List.mem_cons_of_mem _ h)
      | failed => exact absurd hsplit (by simp [Split])
      | closed => exact absurd hsplit (by simp [Split])

end Whole

section Short

variable {f : HeaderField} (hf : f.Ok)

/-- The first call of a split that moves bytes. The calls before it would block. -/
theorem exists_ready {r : Nat} (hr : 0 < r) : ∀ {os : List Outcome}, Split r os →
    ∃ n os', Split (r - min (n + 1) r) os' ∧
      (∀ k, .ready k ∈ os → .ready k ∈ Outcome.ready n :: os') ∧
      ∀ {R : Type} (stage : R → Socket → Outcome → Option (Int × R × Socket)),
        (∀ req sock, stage req sock .wouldBlock = some (0, req, sock)) → ∀ req sock,
        runStage stage req sock os = runStage stage req sock (.ready n :: os') := by
  intro os
  induction os with
  | nil => exact fun hsplit => absurd hsplit (Nat.ne_of_gt hr)
  | cons o os ih =>
      intro hsplit
      cases o with
      | ready n => exact ⟨n, os, hsplit.2, fun _ h => h, fun _ _ _ _ => rfl⟩
      | wouldBlock =>
          obtain ⟨n, os', hsplit', hmem, hrun⟩ := ih hsplit.2
          refine ⟨n, os', hsplit', fun k hk => ?_, fun stage hblock req sock => ?_⟩
          · exact hmem k ((List.mem_cons.mp hk).resolve_left (by simp))
          · rw [runStage, hblock]
            exact hrun stage hblock req sock
      | failed => exact absurd hsplit (by simp [Split])
      | closed => exact absurd hsplit (by simp [Split])

/-- A split with a short call begins with one. -/
theorem exists_short {r : Nat} (hr : 0 < r) {os : List Outcome} (hsplit : Split r os)
    (hshort : ¬ NoShort r os) :
    ∃ n os', n + 1 < r ∧ Split (r - (n + 1)) os' ∧
      ∀ {R : Type} (stage : R → Socket → Outcome → Option (Int × R × Socket)),
        (∀ req sock, stage req sock .wouldBlock = some (0, req, sock)) → ∀ req sock,
        runStage stage req sock os = runStage stage req sock (.ready n :: os') := by
  obtain ⟨n, os', hsplit', hmem, hrun⟩ := exists_ready hr hsplit
  rcases Nat.lt_or_ge (n + 1) r with hn | hn
  · rw [Nat.min_eq_left (Nat.le_of_lt hn)] at hsplit'
    exact ⟨n, os', hn, hsplit', hrun⟩
  · rw [Nat.min_eq_right hn, Nat.sub_self] at hsplit'
    have hnil : os' = [] := by
      cases os' with
      | nil => rfl
      | cons o os' => cases o <;> simp [Split] at hsplit'
    refine absurd (fun k hk => ?_) hshort
    have hk' := hmem k hk
    rw [hnil, List.mem_singleton, Outcome.ready.injEq] at hk'
    rw [hk']
    exact hn

/-- What a stage has put on the wire stays there. -/
theorem runStage_send_prefix {head head' : Mem} {sock sock' : Socket} {r : Int} :
    ∀ {os : List Outcome}, runStage (sendHeaderField f) head sock os = some (r, head', sock') →
      sock.sent <+: sock'.sent := by
  intro os
  induction os generalizing head sock with
  | nil =>
      intro h
      obtain ⟨-, -, rfl⟩ : (0 : Int) = r ∧ head = head' ∧ sock = sock' := by
        simpa [runStage] using h
      exact List.prefix_refl _
  | cons o os ih =>
      intro h
      obtain ⟨⟨r₁, head₁, sock₁⟩, hcall, hrest⟩ := Option.bind_eq_some_iff.mp h
      have hcall' : sock.sent <+: sock₁.sent := by
        obtain ⟨⟨sent, sock₂⟩, hsend, hcall⟩ := Option.bind_eq_some_iff.mp hcall
        have hsock : sock.sent <+: sock₂.sent := by
          unfold send at hsend
          split at hsend
          · obtain ⟨-, rfl⟩ := Prod.mk.inj (Option.some_inj.mp hsend)
            exact List.prefix_refl _
          · split at hsend
            · obtain ⟨-, rfl⟩ := Prod.mk.inj (Option.some_inj.mp hsend)
              exact List.prefix_append _ _
            · exact absurd hsend (by simp)
        have hsame : sock₂ = sock₁ := by
          cases sent with
          | none => exact (Prod.mk.inj (Prod.mk.inj (Option.some_inj.mp hcall)).2).2
          | some n =>
              simp only at hcall
              split at hcall <;> exact (Prod.mk.inj (Prod.mk.inj (Option.some_inj.mp hcall)).2).2
        exact hsame ▸ hsock
      refine hcall'.trans ?_
      simp only at hrest
      split at hrest
      · obtain ⟨-, -, rfl⟩ : (1 : Int) = r ∧ head₁ = head' ∧ sock₁ = sock' := by simpa using hrest
        exact List.prefix_refl _
      · exact ih hrest

/-- A header of bytes 255 in a request of zeros. -/
def onesHeader (f : HeaderField) : Mem :=
  fun a => if f.pos ≤ a ∧ a < f.pos + f.size then 255 else 0

include hf

theorem onesHeader_offset : loadInt (onesHeader f) f.offsetPos = 0 := by
  have hzero (i : Nat) (_ : i < 4) : onesHeader f (f.offsetPos + i) = 0 := by
    rw [onesHeader, if_neg (by rw [hf.offset_eq]; omega)]
  rw [loadInt, read_eq_replicate hzero]
  rfl

/-- Where a transfer of such a header resumes after `k` bytes, no byte is 255:
there lies the low byte of the offset, or memory behind the offset. -/
theorem onesHeader_resume {k : Nat} (hk : 1 ≤ k) (hlt : k < f.size) :
    storeInt (onesHeader f) f.offsetPos k (f.pos + k * f.size) ≠ 255 := by
  have hmax := hf.size_le
  have hsize := hf.size_ge
  have hoff := hf.offset_eq
  rcases Nat.eq_or_lt_of_le hk with rfl | hk
  · have hlow : storeInt (onesHeader f) f.offsetPos 1 (f.offsetPos + 0) = 1 :=
      @write_inside _ _ 0 (leBytes 4 1) (by decide)
    rw [Nat.add_zero, hoff] at hlow
    rw [Nat.one_mul, hoff, hlow]
    decide
  · have hle : 2 * f.size ≤ k * f.size := Nat.mul_le_mul_right _ hk
    rw [storeInt_of_ne _ (Or.inr (by omega)), onesHeader, if_neg (by omega)]
    decide

/-- After a short call a send stage goes on with bytes from behind the header. -/
theorem runStage_send_short {os : List Outcome} (hsplit : Split f.size os)
    (hshort : ¬ NoShort f.size os) {head : Mem} {sock : Socket}
    (hrun : runStage (sendHeaderField f) (onesHeader f) ⟨[], []⟩ os = some (1, head, sock)) :
    sock.sent ≠ read (onesHeader f) f.pos f.size := by
  have hsize := hf.size_ge
  have hmax := hf.size_le
  have hblock : ∀ head sock, sendHeaderField f head sock .wouldBlock = some (0, head, sock) :=
    fun _ _ => sendHeaderField_wouldBlock
  obtain ⟨n, os', hn, hsplit', hrun₁⟩ := exists_short (by omega) hsplit hshort
  obtain ⟨n', os'', -, -, hrun₂⟩ := exists_ready (by omega) hsplit'
  rw [hrun₁ _ hblock, runStage, sendHeaderField_ready hf (show 0 < f.size by omega)
    (onesHeader_offset hf), Nat.sub_zero, if_pos hn, Nat.zero_mul, Nat.add_zero, Nat.zero_add,
    Nat.min_eq_left (Nat.le_of_lt hn)] at hrun
  change runStage _ _ _ os' = _ at hrun
  rw [hrun₂ _ hblock, runStage, sendHeaderField_ready hf hn (loadInt_storeInt _ (by omega))] at hrun
  have hprefix : read (onesHeader f) f.pos (n + 1) ++
      read (storeInt (onesHeader f) f.offsetPos (n + 1)) (f.pos + (n + 1) * f.size)
        (min (n' + 1) (f.size - (n + 1))) <+: sock.sent := by
    simp only at hrun
    split at hrun
    · exact runStage_send_prefix hrun
    · obtain ⟨-, hsock⟩ := Prod.mk.inj (Prod.mk.inj (Option.some_inj.mp hrun)).2
      rw [← hsock]
      exact List.prefix_refl _
  obtain ⟨tail, htail⟩ := hprefix
  intro hsent
  have hold : sock.sent[n + 1]? = some 255 := by
    rw [hsent, getElem?_read, if_pos hn, onesHeader, if_pos (by omega)]
  have hnew : sock.sent[n + 1]? =
      some (storeInt (onesHeader f) f.offsetPos (n + 1) (f.pos + (n + 1) * f.size)) := by
    rw [← htail, List.append_assoc, List.getElem?_append_right (by rw [length_read]), length_read,
      Nat.sub_self, List.getElem?_append_left (by rw [length_read]; omega), getElem?_read,
      if_pos (by omega)]
    rfl
  exact onesHeader_resume hf (by omega) hn (Option.some_inj.mp (hnew.symm.trans hold))

/-- Zeros received behind the header may reset the offset, but never back to
the header once the moved bytes are added. -/
theorem loadInt_resume {head : Mem} {k m : Nat} (hk : 1 ≤ k) (hm : m < f.size - k)
    (hoffset : loadInt head f.offsetPos = k) :
    1 ≤ loadInt (write head (f.pos + k * f.size) (List.replicate m 0)) f.offsetPos + m ∧
    loadInt (write head (f.pos + k * f.size) (List.replicate m 0)) f.offsetPos + m < f.size := by
  have hsize := hf.size_ge
  have hmax := hf.size_le
  have hoff := hf.offset_eq
  rcases Nat.eq_or_lt_of_le hk with rfl | hk
  · cases m with
    | zero =>
        rw [List.replicate_zero, write_nil, hoffset]
        omega
    | succ m =>
        have hbytes := read_of_loadInt hoffset (by omega)
        have hone (i : Nat) : (read head f.offsetPos 4)[i]? = (leBytes 4 1)[i]? := by rw [hbytes]
        have hzero (i : Nat) (hi : i < 4) :
            write head (f.pos + 1 * f.size) (List.replicate (m + 1) 0) (f.offsetPos + i) = 0 := by
          rw [Nat.one_mul, ← hoff]
          rcases Nat.lt_or_ge i (m + 1) with hlt | hge
          · rw [write_inside (by rw [List.length_replicate]; exact hlt), List.getElem_replicate]
          · rw [write_above (by rw [List.length_replicate]; omega)]
            have h := hone i
            rw [getElem?_read, if_pos hi] at h
            match i, hi, hge with
            | 1, _, _ => simpa [leBytes] using h
            | 2, _, _ => simpa [leBytes] using h
            | 3, _, _ => simpa [leBytes] using h
        rw [loadInt, read_eq_replicate hzero, show leNat (List.replicate 4 0) = 0 from rfl,
          if_pos (by decide)]
        omega
  · have hle : 2 * f.size ≤ k * f.size := Nat.mul_le_mul_right _ hk
    rw [@loadInt_congr _ _ head fun a _ hlt => write_below _ (by omega), hoffset]
    omega

/-- A header whose last byte differs from what is to be received, while the
transfer has moved on behind the header. -/
structure Stuck (f : HeaderField) (head : Mem) (sock : Socket) : Prop where
  last : head (f.pos + f.size - 1) = 255
  offset : 1 ≤ loadInt head f.offsetPos ∧ loadInt head f.offsetPos < f.size
  zeros : ∃ n, sock.inbound = List.replicate n 0

/-- A call on a stuck header leaves its last byte, and stays stuck unless it
completes the stage. -/
theorem Stuck.call {head : Mem} {sock : Socket} (h : Stuck f head sock) (n : Nat) :
    ∃ r head' sock', recvHeaderField f head sock (.ready n) = some (r, head', sock') ∧
      head' (f.pos + f.size - 1) = 255 ∧ (r ≠ 1 → Stuck f head' sock') := by
  obtain ⟨hpos, hlt⟩ := h.offset
  obtain ⟨zeros, hzeros⟩ := h.zeros
  have hsize := hf.size_ge
  have hmax := hf.size_le
  have hoff := hf.offset_eq
  generalize hk : loadInt head f.offsetPos = k at hpos hlt
  have hbehind : f.size ≤ k * f.size := Nat.le_mul_of_pos_left _ hpos
  cases hm : (Outcome.ready n).received (f.size - k) sock.inbound.length with
  | none =>
      obtain ⟨haddr, hsub, -⟩ := hf.resume_bounds hlt (Nat.zero_le _)
      have hrecv (pos : Nat) : recv sock (.ready n) head headSize pos (f.size - k) =
          some (none, sock, head) := by
        unfold recv
        rw [hm]
      refine ⟨0, head, sock, ?_, h.last, fun _ => h⟩
      unfold recvHeaderField
      rw [hk]
      simp only [haddr, hsub, hrecv, Option.bind_eq_bind, Option.bind_some, failureReturn_eq]
  | some m =>
      obtain ⟨hmle, hmavail⟩ := Outcome.received_le hm
      have htake : sock.inbound.take m = List.replicate m 0 := by
        rw [hzeros, List.length_replicate] at hmavail
        rw [hzeros, List.take_replicate, Nat.min_eq_left hmavail]
      have hlast :
          write head (f.pos + k * f.size) (List.replicate m 0) (f.pos + f.size - 1) = 255 := by
        rw [write_below _ (by omega)]
        exact h.last
      rw [recvHeaderField_ready hf hlt hk hm, htake]
      simp only
      split
      · next hshort =>
        obtain ⟨hge, hle⟩ := loadInt_resume hf hpos hshort hk
        refine ⟨_, _, _, rfl, ?_, fun _ => ⟨?_, ?_, zeros - m, ?_⟩⟩
        · rw [storeInt_of_ne _ (Or.inl (by omega))]
          exact hlast
        · rw [storeInt_of_ne _ (Or.inl (by omega))]
          exact hlast
        · rw [loadInt_storeInt _ (by omega)]
          exact ⟨hge, hle⟩
        · rw [hzeros, List.drop_replicate]
      · exact ⟨_, _, _, rfl, hlast, fun h => absurd rfl h⟩

/-- A stuck header never becomes the one that was sent. -/
theorem Stuck.run {r : Int} {head' : Mem} {sock' : Socket} :
    ∀ {os : List Outcome} {rem : Nat} {head : Mem} {sock : Socket}, Split rem os →
      Stuck f head sock →
      runStage (recvHeaderField f) head sock os = some (r, head', sock') →
      head' (f.pos + f.size - 1) = 255 := by
  intro os
  induction os with
  | nil =>
      intro rem head sock _ h hrun
      obtain ⟨-, heq⟩ := Prod.mk.inj (Option.some_inj.mp hrun)
      rw [← (Prod.mk.inj heq).1]
      exact h.last
  | cons o os ih =>
      intro rem head sock hsplit h hrun
      cases o with
      | ready n =>
          obtain ⟨r₁, head₁, sock₁, hcall, hlast, hstuck⟩ := h.call hf n
          rw [runStage, hcall] at hrun
          simp only [Option.bind_eq_bind, Option.bind_some] at hrun
          split at hrun
          · obtain ⟨-, heq⟩ := Prod.mk.inj (Option.some_inj.mp hrun)
            rw [← (Prod.mk.inj heq).1]
            exact hlast
          · next hr => exact ih hsplit.2 (hstuck hr) hrun
      | wouldBlock =>
          rw [runStage, recvHeaderField_wouldBlock] at hrun
          exact ih hsplit.2 h hrun
      | failed => exact absurd hsplit (by simp [Split])
      | closed => exact absurd hsplit (by simp [Split])

/-- After a short call a receive stage never completes the header it was fed. -/
theorem runStage_recv_short {os : List Outcome} (hsplit : Split f.size os)
    (hshort : ¬ NoShort f.size os) {head : Mem} {sock : Socket}
    (hrun : runStage (recvHeaderField f) (onesHeader f) ⟨[], List.replicate f.size 0⟩ os =
      some (1, head, sock)) :
    read head f.pos f.size ≠ List.replicate f.size 0 := by
  have hsize := hf.size_ge
  have hmax := hf.size_le
  have hoff := hf.offset_eq
  obtain ⟨n, os', hn, hsplit', hrun₁⟩ := exists_short (by omega) hsplit hshort
  have hm : (Outcome.ready n).received (f.size - 0)
      (Socket.mk [] (List.replicate f.size 0)).inbound.length = some (n + 1) := by
    rw [Outcome.received, if_neg (by omega), List.length_replicate, if_neg (by omega), Nat.sub_zero,
      Nat.min_self, Nat.min_eq_left (Nat.le_of_lt hn)]
  have htake : (List.replicate f.size (0 : UInt8)).take (n + 1) = List.replicate (n + 1) 0 := by
    rw [List.take_replicate, Nat.min_eq_left (Nat.le_of_lt hn)]
  rw [hrun₁ _ (fun _ _ => recvHeaderField_wouldBlock), runStage,
    recvHeaderField_ready hf (show 0 < f.size by omega) (onesHeader_offset hf) hm, Nat.sub_zero,
    if_pos hn, Nat.zero_mul, Nat.add_zero, htake] at hrun
  have hzero : loadInt (write (onesHeader f) f.pos (List.replicate (n + 1) 0)) f.offsetPos = 0 := by
    rw [@loadInt_congr _ _ (onesHeader f) fun a hge _ =>
      write_above (by rw [List.length_replicate]; omega)]
    exact onesHeader_offset hf
  rw [hzero, Nat.zero_add] at hrun
  have hstuck : Stuck f
      (storeInt (write (onesHeader f) f.pos (List.replicate (n + 1) 0)) f.offsetPos (n + 1))
      ⟨[], (List.replicate f.size 0).drop (n + 1)⟩ := by
    refine ⟨?_, ?_, f.size - (n + 1), List.drop_replicate ..⟩
    · rw [storeInt_of_ne _ (Or.inl (by omega)), write_above (by rw [List.length_replicate]; omega),
        onesHeader, if_pos (by omega)]
    · rw [loadInt_storeInt _ (by omega)]
      omega
  have hlast := hstuck.run hf hsplit' hrun
  intro hread
  have hbyte := congrArg (fun bs => bs[f.size - 1]?) hread
  simp only [getElem?_read, List.getElem?_replicate] at hbyte
  rw [if_pos (by omega), if_pos (by omega), ← Nat.add_sub_assoc (by omega), hlast] at hbyte
  exact absurd (Option.some_inj.mp hbyte) (by decide)

end Short

section Stages

variable {f : HeaderField}

/-- A send stage of a request is its header call with the rest unchanged. -/
theorem runStage_send_req
    {stage : DedupSendReq → Socket → Outcome → Option (Int × DedupSendReq × Socket)}
    (hstage : ∀ req sock o, stage req sock o = (sendHeaderField f req.head sock o).map
      fun (r, head, sock) => (r, { req with head := head }, sock)) :
    ∀ (os : List Outcome) (req : DedupSendReq) (sock : Socket),
      runStage stage req sock os = (runStage (sendHeaderField f) req.head sock os).map
        fun (r, head, sock) => (r, { req with head := head }, sock) := by
  intro os
  induction os with
  | nil => exact fun _ _ => rfl
  | cons o os ih =>
      intro req sock
      rw [runStage, runStage, hstage]
      cases sendHeaderField f req.head sock o with
      | none => rfl
      | some x =>
          obtain ⟨r, head, sock'⟩ := x
          simp only [Option.map_some, Option.bind_eq_bind, Option.bind_some]
          split
          · rfl
          · exact ih { req with head := head } sock'

/-- A receive stage of a request is its header call, and `init` at the end. -/
theorem runStage_recv_req
    {stage : DedupRecvReq → Socket → Outcome → Option (Int × DedupRecvReq × Socket)}
    {init : DedupRecvReq → DedupRecvReq}
    (hstage : ∀ req sock o, stage req sock o = (recvHeaderField f req.head sock o).map
      fun (r, head, sock) =>
        (r, if r = 1 then init { req with head := head } else { req with head := head }, sock)) :
    ∀ (os : List Outcome) (req : DedupRecvReq) (sock : Socket),
      runStage stage req sock os = (runStage (recvHeaderField f) req.head sock os).map
        fun (r, head, sock) =>
          (r, if r = 1 then init { req with head := head } else { req with head := head },
            sock) := by
  intro os
  induction os with
  | nil => exact fun _ _ => rfl
  | cons o os ih =>
      intro req sock
      rw [runStage, runStage, hstage]
      cases recvHeaderField f req.head sock o with
      | none => rfl
      | some x =>
          obtain ⟨r, head, sock'⟩ := x
          simp only [Option.map_some, Option.bind_eq_bind, Option.bind_some]
          split
          · simp only [if_true, Option.map_some]
          · exact ih { req with head := head } sock'

theorem processSendHeader_eq (req : DedupSendReq) (sock : Socket) (o : Outcome) :
    processSendHeader req sock o = (sendHeaderField generalHeader req.head sock o).map
      fun (r, head, sock) => (r, { req with head := head }, sock) := by
  unfold processSendHeader
  cases sendHeaderField generalHeader req.head sock o <;> rfl

theorem processSendFingerprintHeader_eq (req : DedupSendReq) (sock : Socket) (o : Outcome) :
    processSendFingerprintHeader req sock o =
        (sendHeaderField fingerprintHeader req.head sock o).map
      fun (r, head, sock) => (r, { req with head := head }, sock) := by
  unfold processSendFingerprintHeader
  cases sendHeaderField fingerprintHeader req.head sock o <;> rfl

theorem processRecvHeader_eq (req : DedupRecvReq) (sock : Socket) (o : Outcome) :
    processRecvHeader req sock o = (recvHeaderField generalHeader req.head sock o).map
      fun (r, head, sock) =>
        (r, if r = 1 then id { req with head := head } else { req with head := head }, sock) := by
  unfold processRecvHeader
  cases recvHeaderField generalHeader req.head sock o with
  | none => rfl
  | some x => simp [ite_self]

theorem processRecvFingerprintHeader_eq (req : DedupRecvReq) (sock : Socket) (o : Outcome) :
    processRecvFingerprintHeader req sock o =
        (recvHeaderField fingerprintHeader req.head sock o).map
      fun (r, head, sock) =>
        (r, if r = 1 then initFingerprintRecv { req with head := head }
          else { req with head := head }, sock) := by
  unfold processRecvFingerprintHeader
  cases recvHeaderField fingerprintHeader req.head sock o with
  | none => rfl
  | some x =>
      obtain ⟨r, head, sock'⟩ := x
      simp only [Option.bind_eq_bind, Option.bind_some, Option.map_some]
      split
      · next hr => simp only [hr, initFingerprintRecv]
      · rfl

/-- A send stage is right for a split exactly when no call is short. -/
theorem sendsHeader_iff (hf : f.Ok)
    {stage : DedupSendReq → Socket → Outcome → Option (Int × DedupSendReq × Socket)}
    (hstage : ∀ req sock o, stage req sock o = (sendHeaderField f req.head sock o).map
      fun (r, head, sock) => (r, { req with head := head }, sock))
    {os : List Outcome} (hsplit : Split f.size os) :
    SendsHeader stage f os ↔ NoShort f.size os := by
  constructor
  · intro hsends
    by_contra hshort
    obtain ⟨req', sock', hrun, hsent⟩ := hsends { isendRequest [] with head := onesHeader f }
        ⟨[], []⟩
      (onesHeader_offset hf)
    rw [runStage_send_req hstage] at hrun
    obtain ⟨⟨r, head, sock⟩, hhead, heq⟩ := Option.map_eq_some_iff.mp hrun
    obtain ⟨rfl, hrest⟩ := Prod.mk.inj heq
    obtain rfl := (Prod.mk.inj hrest).2
    exact runStage_send_short hf hsplit hshort hhead hsent
  · intro hshort req sock hoffset
    rw [runStage_send_req hstage, runStage_send_whole hf hoffset hsplit hshort]
    exact ⟨_, _, rfl, rfl⟩

/-- A receive stage is right for a split exactly when no call is short. -/
theorem receivesHeader_iff (hf : f.Ok)
    {stage : DedupRecvReq → Socket → Outcome → Option (Int × DedupRecvReq × Socket)}
    {init : DedupRecvReq → DedupRecvReq} (hinit : ∀ req, (init req).head = req.head)
    (hstage : ∀ req sock o, stage req sock o = (recvHeaderField f req.head sock o).map
      fun (r, head, sock) =>
        (r, if r = 1 then init { req with head := head } else { req with head := head }, sock))
    {os : List Outcome} (hsplit : Split f.size os) :
    ReceivesHeader stage f init os ↔ NoShort f.size os := by
  constructor
  · intro hreceives
    by_contra hshort
    obtain ⟨head, hrun, hread, -⟩ := hreceives
        { irecvRequest 0 (fun _ => 0) with head := onesHeader f }
      (List.replicate f.size 0) [] [] List.length_replicate (onesHeader_offset hf)
    rw [List.append_nil, runStage_recv_req hstage] at hrun
    obtain ⟨⟨r, head', sock'⟩, hhead, heq⟩ := Option.map_eq_some_iff.mp hrun
    obtain ⟨rfl, hrest⟩ := Prod.mk.inj heq
    have hsame := congrArg DedupRecvReq.head (Prod.mk.inj hrest).1
    simp only [if_true, hinit] at hsame
    subst hsame
    exact runStage_recv_short hf hsplit hshort hhead hread
  · intro hshort req header rest sent hlen hoffset
    refine ⟨write req.head f.pos header, ?_, ?_, fun a ha _ => ?_⟩
    · rw [runStage_recv_req hstage, runStage_recv_whole hf hoffset hlen hsplit hshort]
      rfl
    · rw [← hlen]
      exact read_write_self _ _
    · rcases ha with ha | ha
      · exact write_below _ ha
      · exact write_above (by rw [hlen]; exact ha)

end Stages

/-- The header stages transfer every header value exactly under the splits in
which no call moves only a part of the header. -/
theorem headerTransfer_iff (os : List Outcome) :
    (Split generalHeader.size os →
      (SendsHeader processSendHeader generalHeader os ↔ NoShort generalHeader.size os) ∧
      (ReceivesHeader processRecvHeader generalHeader id os ↔ NoShort generalHeader.size os)) ∧
    (Split fingerprintHeader.size os →
      (SendsHeader processSendFingerprintHeader fingerprintHeader os ↔
        NoShort fingerprintHeader.size os) ∧
      (ReceivesHeader processRecvFingerprintHeader fingerprintHeader initFingerprintRecv os ↔
        NoShort fingerprintHeader.size os)) := by
  refine ⟨fun hsplit => ⟨?_, ?_⟩, fun hsplit => ⟨?_, ?_⟩⟩
  · exact sendsHeader_iff generalHeader_ok processSendHeader_eq hsplit
  · exact receivesHeader_iff generalHeader_ok (fun _ => rfl) processRecvHeader_eq hsplit
  · exact sendsHeader_iff fingerprintHeader_ok processSendFingerprintHeader_eq hsplit
  · have hinit : ∀ req, (initFingerprintRecv req).head = req.head := fun req => by
      simp only [initFingerprintRecv]
    exact receivesHeader_iff fingerprintHeader_ok hinit processRecvFingerprintHeader_eq hsplit

/-- Whole headers arrive after calls that would block; one of eight bytes in halves does not. -/
theorem headerTransfer_iff_afterBlocking :
    SendsHeader processSendHeader generalHeader [.wouldBlock, .ready 15] ∧
    ReceivesHeader processRecvHeader generalHeader id [.wouldBlock, .ready 15] ∧
    SendsHeader processSendFingerprintHeader fingerprintHeader [.wouldBlock, .ready 7] ∧
    ¬ ReceivesHeader processRecvFingerprintHeader fingerprintHeader initFingerprintRecv
      [.ready 3, .ready 3] := by
  have hgeneral : NoShort generalHeader.size [.wouldBlock, .ready 15] := by
    intro n hn
    obtain rfl : n = 15 := by simpa using hn
    decide
  have hfingerprint : NoShort fingerprintHeader.size [.wouldBlock, .ready 7] := by
    intro n hn
    obtain rfl : n = 7 := by simpa using hn
    decide
  have hhalves : ¬ NoShort fingerprintHeader.size [.ready 3, .ready 3] := fun h =>
    absurd (h 3 List.mem_cons_self) (by decide)
  obtain ⟨hsend, hrecv⟩ := (headerTransfer_iff [.wouldBlock, .ready 15]).1 (by decide)
  exact ⟨hsend.mpr hgeneral, hrecv.mpr hgeneral,
    ((headerTransfer_iff [.wouldBlock, .ready 7]).2 (by decide)).1.mpr hfingerprint,
    mt ((headerTransfer_iff [.ready 3, .ready 3]).2 (by decide)).2.mp hhalves⟩

/-- The header that `netDedup_isend` writes ends before its offset field. -/
theorem isendRequest_head_above (data : List UInt8) {a : Nat} (ha : 16 ≤ a) :
    (isendRequest data).head a = 0 := by
  have hflag : ∀ v : UInt8, generalHeader.pos + [v].length ≤ a := by
    intro v
    simp only [generalHeader, List.length_singleton]
    omega
  have hsize : generalHeader.pos + 8 + (leBytes sizeofU64 data.length).length ≤ a := by
    rw [length_leBytes]
    exact ha
  simp only [isendRequest, storeU64]
  rw [write_above hsize, write_above (hflag _)]

theorem isendRequest_offset (data : List UInt8) {f : HeaderField}
    (hf : f = generalHeader ∨ f = fingerprintHeader) :
    loadInt (isendRequest data).head f.offsetPos = 0 := by
  have hpos : 16 ≤ f.offsetPos := by
    rcases hf with hf | hf
    · simp [hf, generalHeader]
    · simp [hf, fingerprintHeader]
  have hzero : ∀ i < 4, (isendRequest data).head (f.offsetPos + i) = 0 := fun i _ =>
    isendRequest_head_above data (Nat.le_trans hpos (Nat.le_add_right _ _))
  rw [loadInt, read_eq_replicate hzero]
  rfl

/-- One byte and then the other fifteen. -/
def firstByteAlone : List Outcome := [.ready 0, .ready 14]

/-- The general header of a five-byte message, sent in that split: the second
call sends the offset field and what follows it. -/
theorem headerTransfer_fails :
    Split generalHeader.size firstByteAlone ∧
    ¬ SendsHeader processSendHeader generalHeader firstByteAlone ∧
    (runStage processSendHeader (isendRequest [1, 2, 3, 4, 5]) ⟨[], []⟩ firstByteAlone).map
        (fun r => r.2.2.sent) = some [0, 1, 0, 0, 0, 0, 0, 0, 0, 0, 0, 0, 0, 0, 0, 0] ∧
    read (isendRequest [1, 2, 3, 4, 5]).head generalHeader.pos generalHeader.size =
      [0, 0, 0, 0, 0, 0, 0, 0, 5, 0, 0, 0, 0, 0, 0, 0] := by
  have hsent :
      (runStage processSendHeader (isendRequest [1, 2, 3, 4, 5]) ⟨[], []⟩ firstByteAlone).map
      (fun r => r.2.2.sent) = some [0, 1, 0, 0, 0, 0, 0, 0, 0, 0, 0, 0, 0, 0, 0, 0] := by
    decide +kernel
  have hheader : read (isendRequest [1, 2, 3, 4, 5]).head generalHeader.pos generalHeader.size =
      [0, 0, 0, 0, 0, 0, 0, 0, 5, 0, 0, 0, 0, 0, 0, 0] := by
    decide +kernel
  refine ⟨by decide, fun h => ?_, hsent, hheader⟩
  obtain ⟨req', sock', hrun, heq⟩ := h (isendRequest [1, 2, 3, 4, 5]) ⟨[], []⟩
    (isendRequest_offset _ (Or.inl rfl))
  rw [hrun, Option.map_some, heq, hheader] at hsent
  exact absurd hsent (by decide)

end NetDedup.Transfer

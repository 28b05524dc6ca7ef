import NetDedup.Delivery.System

/-!
# Headers in flight

A header that was handed over whole is in flight whole: a receive that is due a
header finds all of it or no byte.
-/

namespace NetDedup.Delivery

open Chunking Comm Frames Memory Store Transfer

variable {Node : Type}

/-- A receive takes as much of a header as has arrived. -/
def TakesWhole (st : RecvState) (choice : Choice) : Prop :=
  (st.req.stage = .recvHeader →
    choice.socket.Whole generalHeader.size generalHeader.size) ∧
  (st.req.stage = .recvFingerprintHeader →
    choice.socket.Whole fingerprintHeader.size fingerprintHeader.size)

/-- What is assumed of an event when nothing is known of what is in flight. -/
def World.Permitted (x : Exchange Node) (C : Set (List UInt8)) (w : World Node) :
    Event Node → Prop
  | .processRecv choice => ∀ r, w.receiving = some r → TakesWhole r.st choice
  | event => w.Allowed x C event

/-- What a receive that is due a header finds in flight. -/
structure World.HeadersWhole (w : World Node) : Prop where
  general : ∀ r, w.receiving = some r → r.st.req.stage = .recvHeader →
    w.forward = [] ∨ generalHeader.size ≤ w.forward.length
  fingerprint : ∀ r, w.receiving = some r → r.st.req.stage = .recvFingerprintHeader →
    w.forward = [] ∨ fingerprintHeader.size ≤ w.forward.length

section Positions

variable {sha256 : List UInt8 → Digest} {known : Set Digest} {missing : List Nat}
  {data : List UInt8} {posted : Mem} {proc : Process} {p p' q q' : Nat}

/-- A send is not within a header. -/
theorem Sender.outside {st : SendState} (h : Sender sha256 missing data st p p') :
    (p = 0 ∨ generalHeader.size ≤ p) ∧
      (Long data → p ≤ generalHeader.size ∨ fingerprintsPos ≤ p) := by
  have hlate (hp : contentPos (fingerprints sha256 data) ≤ p) :
      (p = 0 ∨ generalHeader.size ≤ p) ∧
        (Long data → p ≤ generalHeader.size ∨ fingerprintsPos ≤ p) := by
    rw [contentPos, fingerprintsPos] at hp
    exact ⟨Or.inr (by omega), fun _ => Or.inr (by rw [fingerprintsPos]; omega)⟩
  have hafter (hp : p = generalHeader.size) : (p = 0 ∨ generalHeader.size ≤ p) ∧
      (Long data → p ≤ generalHeader.size ∨ fingerprintsPos ≤ p) :=
    ⟨Or.inr hp.ge, fun _ => Or.inl hp.le⟩
  cases h.at_stage with
  | header _ hp => exact ⟨Or.inl hp, fun _ => Or.inl (hp ▸ Nat.zero_le _)⟩
  | regData _ hshort _ hp =>
      exact ⟨Or.inr (hp ▸ Nat.le_add_right _ _), fun hlong => absurd hlong hshort⟩
  | compute _ _ hp => exact hafter hp
  | insert _ _ _ _ _ _ _ hp => exact hafter hp
  | fingerprintHeader _ _ _ _ _ _ hp => exact hafter hp
  | packaged _ _ _ _ _ hp =>
      have hpos : fingerprintsPos ≤ p := hp ▸ Nat.le_add_right _ _
      exact ⟨Or.inr (Nat.le_trans (Nat.le_add_right _ _) hpos), fun _ => Or.inr hpos⟩
  | missingHeader _ _ _ _ _ _ hp => exact hlate hp.ge
  | missing _ _ _ _ _ _ _ hp => exact hlate hp.ge
  | content _ _ _ _ _ _ _ _ hp =>
      refine hlate (hp ▸ ?_)
      rw [missingPos, Nat.add_assoc]
      exact Nat.le_add_right _ _
  | complete _ hp =>
      by_cases hlong : Long data
      · exact hlate (hp ▸ length_forwardFrame_long hlong ▸ Nat.le_add_right _ _)
      · exact ⟨Or.inr (hp ▸ length_forwardFrame_short hlong ▸ Nat.le_add_right _ _),
          fun h => absurd h hlong⟩

/-- Where a receive is that is due a header. -/
theorem Receiver.at_header {st : RecvState}
    (h : Receiver sha256 known missing data posted proc st q q') :
    (st.req.stage = .recvHeader → q = 0) ∧
      (st.req.stage = .recvFingerprintHeader → Long data ∧ q = generalHeader.size) := by
  cases h.at_stage with
  | header hst hq =>
      exact ⟨fun _ => hq, fun hstage => absurd hstage (by rw [hst]; simp [irecvRequest])⟩
  | fingerprintHeader hstage hlong _ _ _ _ hq =>
      exact ⟨fun h => absurd (hstage.symm.trans h) (by simp), fun _ => ⟨hlong, hq⟩⟩
  | regData hstage => simp [hstage]
  | packaged hstage => simp [hstage]
  | populate _ _ hstage => simp [hstage]
  | missingHeader hstage => simp [hstage]
  | missing hstage => simp [hstage]
  | content hstage => simp [hstage]
  | insert hstage => simp [hstage]
  | complete hstage => simp [hstage]

end Positions

section Flight

variable {x : Exchange Node} {C : Set (List UInt8)} {w : World Node}
  {missing : Nat → List Nat} {p p' q q' : Nat}

/-- When the sending end is not between `q` and `b` of the message that is received, all
up to `b` is in flight or nothing. -/
theorem Joint.flight_whole (h : Joint x C w missing p p' q q') {b : Nat}
    (hb : b ≤ (forwardFrames x missing w.receipts.length).length)
    (houtside : w.sent = w.receipts.length → p ≤ q ∨ b ≤ p) :
    w.forward = [] ∨ b ≤ q + w.forward.length := by
  have hflight := congrArg List.length h.streams.forward
  rw [List.length_append, length_sofar] at hflight
  rw [← List.length_eq_zero_iff]
  rcases Nat.lt_trichotomy w.receipts.length w.sent with hlt | heq | hgt
  · obtain ⟨k, hk⟩ : ∃ k, w.sent = k + 1 := ⟨w.sent - 1, by omega⟩
    have hframe := (@sofar_begun _ (forwardFrames x missing) w.receipts.length k
      (forwardFrames x missing w.receipts.length).length (by omega)).length_le
    rw [length_sofar, sofar_zero] at hframe
    rw [hk, length_sofar] at hflight
    omega
  · rw [heq, length_sofar] at hflight
    rw [heq] at hb
    have hside := houtside heq.symm
    omega
  · obtain ⟨k, hk⟩ : ∃ k, w.receipts.length = k + 1 := ⟨w.receipts.length - 1, by omega⟩
    have hframe := (@sofar_begun _ (forwardFrames x missing) w.sent k p (by omega)).length_le
    rw [sofar_zero] at hframe
    rw [hk] at hflight
    omega

theorem Joint.headersWhole (h : Joint x C w missing p p' q q') : w.HeadersWhole := by
  have hsender := fun st (hst : w.sending = some st) => (h.streams.sender st hst).outside
  have hidle := h.streams.idle
  refine ⟨fun r hr hstage => ?_, fun r hr hstage => ?_⟩
  · have hq := ((h.receiver r hr).at_header.1 hstage)
    have hflight := @Joint.flight_whole _ _ _ _ _ _ _ _ _ h generalHeader.size ?_ fun hsent => ?_
    · rwa [hq, Nat.zero_add] at hflight
    · rw [forwardFrames, forwardFrame, List.length_append, length_header]
      exact Nat.le_add_right _ _
    · cases hsending : w.sending with
      | none => exact Or.inl ((hidle hsending).1 ▸ Nat.zero_le _)
      | some st => exact (hsender st hsending).1.imp_left fun hp => hp.le.trans (Nat.zero_le _)
  · obtain ⟨hlong, hq⟩ := (h.receiver r hr).at_header.2 hstage
    have hflight := @Joint.flight_whole _ _ _ _ _ _ _ _ _ h fingerprintsPos ?_ fun hsent => ?_
    · rw [hq, fingerprintsPos] at hflight
      exact hflight.imp_right fun hle => by omega
    · rw [forwardFrames, length_forwardFrame_long hlong, contentPos]
      omega
    · rw [hq]
      cases hsending : w.sending with
      | none => exact Or.inl ((hidle hsending).1 ▸ Nat.zero_le _)
      | some st => exact (hsender st hsending).2 (hsent ▸ hlong)

end Flight

theorem World.Correct.headersWhole {x : Exchange Node} {C : Set (List UInt8)} {w : World Node}
    (h : w.Correct x C) : w.HeadersWhole := by
  obtain ⟨_, _, _, _, _, h⟩ := h
  exact h.headersWhole

theorem whole_of_available {o : Outcome} {size available : Nat} (h : o.Whole size size)
    (havailable : available = 0 ∨ size ≤ available) : o.Whole size available := by
  cases o with
  | ready n => exact ⟨h.1, havailable⟩
  | _ => trivial

theorem World.HeadersWhole.allowed {x : Exchange Node} {C : Set (List UInt8)} {w : World Node}
    (h : w.HeadersWhole) {event : Event Node} (hpermitted : w.Permitted x C event) :
    w.Allowed x C event := by
  cases event with
  | processRecv choice =>
      intro r hr
      obtain ⟨hgeneral, hfingerprint⟩ := hpermitted r hr
      exact ⟨fun hstage => whole_of_available (hgeneral hstage)
          ((h.general r hr hstage).imp_left List.length_eq_zero_iff.mpr),
        fun hstage => whole_of_available (hfingerprint hstage)
          ((h.fingerprint r hr hstage).imp_left List.length_eq_zero_iff.mpr)⟩
  | _ => exact hpermitted

/-- What is assumed of an event at a connection when nothing is known of what is in flight. -/
def System.Permitted {Conn : Type} (x : Conn → Exchange Node) (C : Set (List UInt8))
    (s : System Node Conn) (event : Conn × Event Node) : Prop :=
  (s.world event.1).Permitted (x event.1) C event.2

theorem System.Correct.allowed {Conn : Type} {x : Conn → Exchange Node} {C : Set (List UInt8)}
    {s : System Node Conn} (h : s.Correct x C) {event : Conn × Event Node}
    (hpermitted : s.Permitted x C event) : s.Allowed x C event :=
  (h event.1).headersWhole.allowed hpermitted

/-- It is enough that headers are handed over whole: a receive that is due a header
then finds all of it or no byte along every run, and gets its message. -/
theorem run_headersWhole [DecidableEq Node] (x : Exchange Node) (C : Set (List UInt8))
    (hC : Distinct x.sha256 C) (hmessages : ∀ i, Sendable x.sha256 C (x.messages i))
    {w : World Node} (hw : w.Fresh x C) {events : List (Event Node)}
    (hpermitted : Run.Guarded (World.next x) (World.Permitted x C) w events) :
    ∃ w', Run.run (World.next x) w events = some w' ∧ w'.HeadersWhole ∧ w'.AllDelivered x := by
  have hstep (w : World Node) (event : Event Node) (h : w.Correct x C)
      (hevent : w.Permitted x C event) : ∃ w', w.next x event = some w' ∧ w'.Correct x C := by
    obtain ⟨w', hnext, hcorrect, -⟩ := h.goes hC hmessages (h.headersWhole.allowed hevent)
    exact ⟨w', hnext, hcorrect⟩
  obtain ⟨w', hrun, hcorrect⟩ := Run.run_total hstep hw.correct hpermitted
  exact ⟨w', hrun, hcorrect.headersWhole, hcorrect.allDelivered⟩

section Zeros

/-- All calls, each of them once. -/
def zerosCycle : List (Event Bool) :=
  [.isend, .irecv 12288 fun _ => 0, .processSend manyBytes, .processRecv manyBytes, .sendDone,
    .recvDone]

theorem zerosCycle_permitted : ∀ event ∈ zerosCycle,
    ∀ w, World.Permitted zerosExchange zerosContents w event := by
  intro event hevent w
  simp only [zerosCycle, List.mem_cons, List.not_mem_nil, or_false] at hevent
  rcases hevent with rfl | rfl | rfl | rfl | rfl | rfl
  · trivial
  · intro _
    rw [zeros_length]
    exact ⟨Nat.le_refl _, by decide⟩
  · exact fun _ _ => ⟨fun _ => by decide, fun _ => by decide⟩
  · exact fun _ _ => ⟨fun _ => by decide, fun _ => by decide⟩
  · trivial
  · trivial

theorem zerosEvents_subset : ∀ event ∈ zerosEvents, event ∈ zerosCycle := by
  intro event hevent
  simp only [zerosEvents, zerosTurns, List.mem_append, List.mem_flatten,
    List.mem_replicate] at hevent
  simp only [zerosCycle, List.mem_cons, List.not_mem_nil, or_false] at hevent ⊢
  rcases hevent with ((rfl | rfl) | ⟨_, ⟨-, rfl⟩, hturn⟩) | (rfl | rfl)
  · simp
  · simp
  · simp only [List.mem_cons, List.not_mem_nil, or_false] at hturn
    rcases hturn with rfl | rfl <;> simp
  · simp
  · simp

/-- In every state on the way to the message, also where the fingerprint header is due. -/
theorem run_headersWhole_zeros : (∀ n, ∃ w, Run.run (World.next zerosExchange) zerosFresh
      (zerosEvents.take n) = some w ∧ w.HeadersWhole ∧ w.AllDelivered zerosExchange) ∧
    ∃ w, Run.run (World.next zerosExchange) zerosFresh zerosEvents = some w ∧
      w.receipts.length = 1 := by
  constructor
  · intro n
    refine run_headersWhole zerosExchange zerosContents zeros_distinct zeros_sendable
      zerosFresh_fresh (Run.Guarded.of_forall fun event hevent w => ?_)
    exact zerosCycle_permitted event (zerosEvents_subset event (List.mem_of_mem_take hevent)) w
  · obtain ⟨w, hrun, -, -, -, hreceived, -⟩ := zerosEvents_run
    exact ⟨w, hrun, hreceived⟩

end Zeros

end NetDedup.Delivery

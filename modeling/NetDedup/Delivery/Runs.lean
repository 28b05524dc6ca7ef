import NetDedup.Delivery.Streams
import NetDedup.Lib.Run
import NetDedup.Transfer.ArrayBounds

/-!
# Every message arrives as it was sent

The joint invariant of the two ends: each of them stands somewhere in the frames
of its message, and what is between their positions is in flight. It holds along
every run, whatever the split of the bytes and the interleaving of the steps.
-/

namespace NetDedup.Delivery

open Chunking Comm Frames Memory Store Transfer

variable {Node : Type}

/-- A message that was received: it is in the buffer, nothing behind it has
changed, and its size was reported. -/
structure Delivered (data : List UInt8) (r : Receipt) : Prop where
  content : read r.buffer 0 data.length = data
  behind : ∀ a, data.length ≤ a → r.buffer a = r.posted a
  size : r.size = data.length

/-- A connection before its first message, on sound caches. -/
structure World.Fresh (x : Exchange Node) (C : Set (List UInt8)) (w : World Node) : Prop where
  caches : ∀ node, SoundCache x.sha256 C (w.caches node)
  sending : w.sending = none
  sent : w.sent = 0
  receiving : w.receiving = none
  receipts : w.receipts = []
  forward : w.forward = []
  backward : w.backward = []
  forwardSent : w.forwardSent = []
  backwardSent : w.backwardSent = []

/-- What is assumed of an event: headers move whole, a buffer is large enough for
the message that it is for, and other processes insert contents under their digests. -/
def World.Allowed (x : Exchange Node) (C : Set (List UInt8)) (w : World Node) :
    Event Node → Prop
  | .irecv size _ => w.receiving = none →
      (x.messages w.receipts.length).length ≤ size ∧ size < 2 ^ 31
  | .processSend choice => ∀ st, w.sending = some st → SendsWhole st choice
  | .processRecv choice => ∀ r, w.receiving = some r →
      ReceivesWhole r.st w.forward.length choice
  | .insert _ fp content _ => SoundInsert x.sha256 C fp content
  | _ => True

/-- The joint invariant of both ends and the caches. -/
structure Joint (x : Exchange Node) (C : Set (List UInt8)) (w : World Node)
    (missing : Nat → List Nat) (p p' q q' : Nat) : Prop where
  caches : ∀ node, SoundCache x.sha256 C (w.caches node)
  streams : Streams x missing w.toLink p p' q q'
  receiver : ∀ r, w.receiving = some r → Receiver x.sha256 (w.known w.receipts.length)
    (missing w.receipts.length) (x.messages w.receipts.length) r.posted
    ⟨w.caches x.recvNode, w.recvSkip⟩ r.st q q'
  holds : ∀ r, w.receiving = some r → digests r.cache ⊆ digests (w.caches x.recvNode)
  held : w.recvSkip = false → ∀ i < w.receipts.length, Long (x.messages i) →
    ∀ fp ∈ fingerprints x.sha256 (x.messages i), fp.fingerprint ∈ digests (w.caches x.recvNode)
  knows : w.recvSkip = false → ∀ i j, i < j → j < w.postings.length → Long (x.messages i) →
    ∀ fp ∈ fingerprints x.sha256 (x.messages i), fp.fingerprint ∈ w.known j
  delivered : ∀ (i : Nat) (hi : i < w.receipts.length), Delivered (x.messages i) w.receipts[i]

/-- A state in which everything received so far is right and both ends can go on. -/
def World.Correct (x : Exchange Node) (C : Set (List UInt8)) (w : World Node) : Prop :=
  ∃ missing p p' q q', Joint x C w missing p p' q q'

theorem World.Fresh.correct {x : Exchange Node} {C : Set (List UInt8)} {w : World Node}
    (h : w.Fresh x C) : w.Correct x C := by
  have hstreams : Streams x (fun _ => []) w.toLink 0 0 0 0 := by
    refine ⟨fun _ => .nil, fun _ _ => rfl, fun _ => ⟨rfl, rfl⟩,
      fun st hst => absurd (h.sending.symm.trans hst) (by simp), fun _ => ⟨rfl, rfl⟩, ?_, ?_, ?_, ?_⟩
    · rw [h.forward, h.receipts, h.sent, List.append_nil, List.length_nil]
    · rw [h.backward, h.receipts, h.sent, List.append_nil, List.length_nil]
    · rw [h.forwardSent, h.sent]
      rfl
    · rw [h.backwardSent, h.receipts]
      rfl
  refine ⟨_, 0, 0, 0, 0, h.caches, hstreams,
    fun r hr => absurd (h.receiving.symm.trans hr) (by simp),
    fun r hr => absurd (h.receiving.symm.trans hr) (by simp), fun _ i hi => ?_,
    fun _ i j _ hj => ?_, fun i hi => ?_⟩
  · rw [h.receipts] at hi
    exact absurd hi (Nat.not_lt_zero i)
  · rw [Link.postings_none h.receiving, h.receipts] at hj
    exact absurd hj (Nat.not_lt_zero j)
  · rw [h.receipts] at hi
    exact absurd hi (Nat.not_lt_zero i)

/-- A completed receive has its message in its buffer. -/
theorem Receiver.receipt_delivered {sha256 : List UInt8 → Digest} {known : Set Digest}
    {missing : List Nat} {data : List UInt8} {proc : Process} {r : Receiving} {q q' : Nat}
    (h : Receiver sha256 known missing data r.posted proc r.st q q')
    (hstage : r.st.req.stage = .recvComplete) :
    Delivered data r.receipt ∧ q = (forwardFrame sha256 data missing).length ∧
      q' = (backwardFrame data missing).length ∧
      (proc.toSkipInsertCache = false → Long data → ∀ fp ∈ fingerprints sha256 data,
        fp.fingerprint ∈ digests proc.globalFingerprintCache) := by
  have hlt : data.length < 2 ^ 31 := Nat.lt_of_le_of_lt h.size_le h.lt
  have hhead := h.head (by rw [hstage]; simp)
  have hsize : r.receipt.size = data.length := by
    have hcontent := headerContentSize_of_read (Nat.lt_trans hlt (by decide)) hhead
    simp only [Receiving.receipt, DedupReq.size, hcontent]
    rw [BitVec.toInt_eq_toNat_of_lt, BitVec.toNat_ofNat, Nat.mod_eq_of_lt (by omega)]
    rw [BitVec.toNat_ofNat]
    omega
  cases h.at_stage with
  | complete _ hfilled hheld hq hq' =>
      exact ⟨⟨hfilled.read_all fun a ha => ha, hfilled.behind, hsize⟩, hq, hq', hheld⟩
  | header hst => exact absurd hstage (by rw [hst]; simp [irecvRequest])
  | regData hstage' => exact absurd (hstage.symm.trans hstage') (by simp)
  | fingerprintHeader hstage' => exact absurd (hstage.symm.trans hstage') (by simp)
  | packaged hstage' => exact absurd (hstage.symm.trans hstage') (by simp)
  | populate _ _ hstage' => exact absurd (hstage.symm.trans hstage') (by simp)
  | missingHeader hstage' => exact absurd (hstage.symm.trans hstage') (by simp)
  | missing hstage' => exact absurd (hstage.symm.trans hstage') (by simp)
  | content hstage' => exact absurd (hstage.symm.trans hstage') (by simp)
  | insert hstage' => exact absurd (hstage.symm.trans hstage') (by simp)

/-- A completed send stands at the end of its frames. -/
theorem Sender.at_end {sha256 : List UInt8 → Digest} {missing : List Nat} {data : List UInt8}
    {st : SendState} {p p' : Nat} (h : Sender sha256 missing data st p p')
    (hstage : st.req.stage = .sendComplete) :
    p = (forwardFrame sha256 data missing).length ∧ p' = (backwardFrame data missing).length := by
  cases h.at_stage with
  | complete _ hp hp' => exact ⟨hp, hp'⟩
  | header hst => exact absurd hstage (by rw [hst]; simp [isendRequest])
  | regData hstage' => exact absurd (hstage.symm.trans hstage') (by simp)
  | compute hst => exact absurd hstage (by rw [hst]; simp [SendState.goto])
  | insert hstage' => exact absurd (hstage.symm.trans hstage') (by simp)
  | fingerprintHeader hstage' => exact absurd (hstage.symm.trans hstage') (by simp)
  | packaged hstage' => exact absurd (hstage.symm.trans hstage') (by simp)
  | missingHeader hstage' => exact absurd (hstage.symm.trans hstage') (by simp)
  | missing hstage' => exact absurd (hstage.symm.trans hstage') (by simp)
  | content hstage' => exact absurd (hstage.symm.trans hstage') (by simp)

section Step

variable {x : Exchange Node} {C : Set (List UInt8)} {w : World Node}
  {missing : Nat → List Nat} {p p' q q' : Nat}

/-- Caches that grow elsewhere do not disturb a link. -/
theorem Joint.grows (h : Joint x C w missing p p' q q') {caches : Node → FingerprintCache}
    (hsound : ∀ node, SoundCache x.sha256 C (caches node))
    (hgrows : ∀ node, Grows (w.caches node) (caches node)) :
    Joint x C { w with caches := caches } missing p p' q q' := by
  have hdigests := (h.caches x.recvNode).digests_subset (hgrows x.recvNode)
  refine ⟨hsound, h.streams, fun r hr => ?_, fun r hr => (h.holds r hr).trans hdigests,
    fun hclear i hi hlong fp hfp => hdigests (h.held hclear i hi hlong fp hfp), h.knows,
    h.delivered⟩
  exact @Receiver.grows _ _ _ _ _ ⟨w.caches x.recvNode, w.recvSkip⟩
    ⟨caches x.recvNode, w.recvSkip⟩ _ _ _ (hgrows x.recvNode) hdigests id (h.receiver r hr)

/-- The receiving end has received and sent. -/
theorem Joint.receives (h : Joint x C w missing p p' q q') {r : Receiving}
    (hr : w.receiving = some r) {proc : Process}
    (hc : w.caches x.recvNode = proc.globalFingerprintCache)
    (hraised : w.recvSkip = true → proc.toSkipInsertCache = true)
    {st : RecvState} {m : Nat} {out : List UInt8}
    {missing' : Nat → List Nat} {i j : Nat}
    (hstreams : Streams x missing'
      (w.toLink.receives proc.toSkipInsertCache { r with st := st } m out) p p' i j)
    (hreceiver : Receiver x.sha256 (w.known w.receipts.length) (missing' w.receipts.length)
      (x.messages w.receipts.length) r.posted proc st i j) :
    Joint x C { w with
      toLink := w.toLink.receives proc.toSkipInsertCache { r with st := st } m out } missing'
      p p' i j := by
  have hclear (h : proc.toSkipInsertCache = false) : w.recvSkip = false :=
    Bool.eq_false_iff.mpr fun hset => Bool.eq_false_iff.mp h (hraised hset)
  refine ⟨h.caches, hstreams, fun r' hr' => ?_, fun r' hr' => ?_, fun hskip => h.held (hclear hskip),
    fun hskip i j hij hj => ?_, h.delivered⟩
  · obtain rfl := Option.some_inj.mp hr'
    simp only [@Link.known_receives _ _ { r with st := st } hr rfl, hc]
    exact hreceiver
  · obtain rfl := Option.some_inj.mp hr'
    exact h.holds r hr
  · rw [@Link.postings_receives _ _ { r with st := st } hr rfl] at hj
    rw [@Link.known_receives _ _ { r with st := st } hr rfl]
    exact h.knows (hclear hskip) i j hij hj

/-- The caches when one of them grows. -/
theorem Joint.caches_update [DecidableEq Node] (h : Joint x C w missing p p' q q') {node : Node}
    {c : FingerprintCache} (hsound : SoundCache x.sha256 C c) (hgrows : Grows (w.caches node) c) :
    (∀ node', SoundCache x.sha256 C (Function.update w.caches node c node')) ∧
      ∀ node', Grows (w.caches node') (Function.update w.caches node c node') := by
  refine ⟨fun node' => ?_, fun node' => ?_⟩
  · by_cases hnode : node' = node
    · rw [hnode, Function.update_self]
      exact hsound
    · rw [Function.update_of_ne hnode]
      exact h.caches node'
  · by_cases hnode : node' = node
    · rw [hnode, Function.update_self]
      exact hgrows
    · rw [Function.update_of_ne hnode]
      exact Grows.refl _

variable [DecidableEq Node]

section Next

variable (w)

theorem World.next_isend (hsending : w.sending = none) : w.next x .isend = some { w with
    sending := some ⟨isendRequest (x.messages w.sent), none⟩ } := by
  simp only [World.next, hsending]

theorem World.next_irecv (hreceiving : w.receiving = none) (size : Nat) (buffer : Mem) :
    w.next x (.irecv size buffer) = some { w with receiving := some ⟨buffer, w.caches x.recvNode,
      ⟨irecvRequest size buffer, none, none⟩⟩ } := by
  simp only [World.next, hreceiving]

theorem World.next_processSend {st : SendState} (hsending : w.sending = some st)
    (choice : Choice) : w.next x (.processSend choice) = w.processSend x st choice := by
  rw [World.next, hsending]

theorem World.next_processRecv {r : Receiving} (hreceiving : w.receiving = some r)
    (choice : Choice) : w.next x (.processRecv choice) = w.processRecv x r choice := by
  rw [World.next, hreceiving]

theorem World.next_sendDone {st : SendState} (hsending : w.sending = some st)
    (hstage : st.req.stage = .sendComplete) :
    w.next x .sendDone = some { w with sending := none, sent := w.sent + 1 } := by
  simp only [World.next, hsending, if_pos hstage]

theorem World.next_recvDone {r : Receiving} (hreceiving : w.receiving = some r)
    (hstage : r.st.req.stage = .recvComplete) : w.next x .recvDone = some { w with
      receiving := none, receipts := w.receipts ++ [r.receipt] } := by
  simp only [World.next, hreceiving, if_pos hstage]

end Next

/-- An event that goes through: everything stays correct, and the caches grow. -/
def World.Goes (x : Exchange Node) (C : Set (List UInt8)) (w : World Node) (event : Event Node) :
    Prop :=
  ∃ w', w.next x event = some w' ∧ w'.Correct x C ∧ ∀ node, Grows (w.caches node) (w'.caches node)

theorem World.Goes.link {event : Event Node} {l : Link}
    (hnext : w.next x event = some { w with toLink := l })
    (h : World.Correct x C { w with toLink := l }) : w.Goes x C event :=
  ⟨_, hnext, h, fun _ => Grows.refl _⟩

theorem World.processSend_some {st st' : SendState} {choice : Choice} {flow : Flow}
    {sock : Socket} {proc : Process}
    (h : Transfer.processSend x.sha256 st ⟨[], w.backward⟩ ⟨w.caches x.sendNode, w.sendSkip⟩ choice =
      some (flow, st', sock, proc)) :
    w.processSend x st choice = some { w with
      caches := Function.update w.caches x.sendNode proc.globalFingerprintCache
      sendSkip := proc.toSkipInsertCache
      sending := some st'
      forward := w.forward ++ sock.sent
      backward := sock.inbound
      forwardSent := w.forwardSent ++ sock.sent } := by
  simp only [World.processSend, h, Option.bind_eq_bind, Option.bind_some]

theorem World.processRecv_some {r : Receiving} {st : RecvState} {choice : Choice} {flow : Flow}
    {sock : Socket} {proc : Process}
    (h : Transfer.processRecv r.st ⟨[], w.forward⟩ ⟨w.caches x.recvNode, w.recvSkip⟩ choice =
      some (flow, st, sock, proc)) :
    w.processRecv x r choice = some { w with
      caches := Function.update w.caches x.recvNode proc.globalFingerprintCache
      recvSkip := proc.toSkipInsertCache
      receiving := some { r with st := st }
      forward := sock.inbound
      backward := w.backward ++ sock.sent
      backwardSent := w.backwardSent ++ sock.sent } := by
  simp only [World.processRecv, h, Option.bind_eq_bind, Option.bind_some]

theorem Joint.processSend (h : Joint x C w missing p p' q q')
    (hmessages : ∀ i, Sendable x.sha256 C (x.messages i)) {st : SendState}
    (hst : w.sending = some st) {choice : Choice} (hwhole : SendsWhole st choice) :
    w.Goes x C (.processSend choice) := by
  have hstep := @Sender.step x.sha256 C _ _ _ w.backward st ⟨w.caches x.sendNode, w.sendSkip⟩
    choice p p' (h.caches x.sendNode) (h.streams.sender st hst) (hmessages w.sent)
    (h.streams.replied w.sent) (fun r hr hle => take_flight h.streams.backward hr hle) hwhole
  obtain ⟨flow, st', sock', proc', m, n, hstep, hmoves⟩ := hstep
  have hcaches := h.caches_update hmoves.sound hmoves.grows
  have hgrown := h.grows hcaches.1 hcaches.2
  have hnext := (w.next_processSend hst choice).trans (World.processSend_some hstep)
  rw [hmoves.sent, hmoves.rest] at hnext
  exact ⟨_, hnext, ⟨missing, p + m, p' + n, q, q', hgrown.caches,
    h.streams.sends proc'.toSkipInsertCache hmoves.sender hmoves.took, hgrown.receiver, hgrown.holds,
    hgrown.held, hgrown.knows, hgrown.delivered⟩, hcaches.2⟩

theorem Joint.processRecv (h : Joint x C w missing p p' q q') (hC : Distinct x.sha256 C)
    (hmessages : ∀ i, Sendable x.sha256 C (x.messages i)) {r : Receiving}
    (hr : w.receiving = some r) {choice : Choice}
    (hwhole : ReceivesWhole r.st w.forward.length choice) :
    w.Goes x C (.processRecv choice) := by
  have hknown : ∀ d ∈ w.known w.receipts.length, d ∈ digests (w.caches x.recvNode) := by
    intro d hd
    rw [Link.known_receiving hr] at hd
    exact h.holds r hr hd
  have hstep := @Receiver.step x.sha256 C _ _ _ w.forward r.posted r.st
    ⟨w.caches x.recvNode, w.recvSkip⟩ choice q q' (h.caches x.recvNode) (h.receiver r hr) hC
    (hmessages _) hknown (fun m hm hle => take_flight h.streams.forward hm hle) hwhole
  obtain ⟨flow, st', sock', proc', missing', m, n, hstep, hmoves⟩ := hstep
  have hcaches := h.caches_update hmoves.sound hmoves.grows
  have hgrown := h.grows hcaches.1 hcaches.2
  have hnext := (w.next_processRecv hr choice).trans (World.processRecv_some hstep)
  rw [hmoves.sent, hmoves.rest] at hnext
  refine ⟨_, hnext, ?_, hcaches.2⟩
  rcases hmoves.decided with rfl | ⟨hlong, hq, hq', hreplied⟩
  · exact ⟨missing, p, p', q + m, q' + n, hgrown.receives hr
      (Function.update_self ..) hmoves.raised (h.streams.receives hr n _ st' hmoves.took)
      hmoves.receiver⟩
  · obtain ⟨rfl, rfl⟩ : q' = 0 ∧ n = 0 := by omega
    have hstreams := h.streams.receives hr 0 proc'.toSkipInsertCache st' hmoves.took
    have hreplied' := hreplied
    rw [← @Link.known_receives _ _ { r with st := st' } hr rfl] at hreplied'
    refine ⟨Function.update missing w.receipts.length missing', p, p', q + m, 0,
      hgrown.receives hr (Function.update_self ..) hmoves.raised
        (hstreams.decide rfl hlong hq hreplied') ?_⟩
    rw [Function.update_self]
    exact hmoves.receiver

/-- An event that is allowed goes through. -/
theorem World.Correct.goes (h : w.Correct x C) (hC : Distinct x.sha256 C)
    (hmessages : ∀ i, Sendable x.sha256 C (x.messages i)) {event : Event Node}
    (hallowed : w.Allowed x C event) : w.Goes x C event := by
  obtain ⟨missing, p, p', q, q', h⟩ := h
  have hkept (hnext : w.next x event = some w) : w.Goes x C event :=
    .link hnext ⟨missing, p, p', q, q', h⟩
  cases event with
  | isend =>
      cases hsending : w.sending with
      | none =>
          refine .link (w.next_isend hsending) ⟨missing, 0, 0, q, q', ?_⟩
          exact ⟨h.caches, h.streams.start hsending, h.receiver, h.holds, h.held, h.knows,
            h.delivered⟩
      | some st => exact hkept (by rw [World.next, hsending])
  | irecv size buffer =>
      cases hreceiving : w.receiving with
      | none =>
          obtain ⟨hfits, hlt⟩ := hallowed hreceiving
          have hreceiver := fun known missing => @irecvRequest_receiver x.sha256 known missing
            (x.messages w.receipts.length) buffer ⟨w.caches x.recvNode, w.recvSkip⟩ size hfits hlt
          refine .link (w.next_irecv hreceiving size buffer) ⟨missing, p, p', 0, 0,
            h.caches, h.streams.post hreceiving _, fun r hr => ?_, fun r hr => ?_, h.held,
            fun hclear i j hij hj => ?_, h.delivered⟩
          · obtain rfl := Option.some_inj.mp hr
            exact hreceiver _ _
          · obtain rfl := Option.some_inj.mp hr
            exact subset_rfl
          · rw [Link.postings_post hreceiving, List.length_append, List.length_singleton,
              Nat.lt_succ_iff_lt_or_eq] at hj
            rcases hj with hj | rfl
            · rw [Link.known_post_of_lt hreceiving _ hj]
              exact h.knows hclear i j hij hj
            · rw [Link.known_post_self hreceiving]
              rw [Link.postings_none hreceiving, List.length_map] at hij
              exact h.held hclear i hij
      | some r => exact hkept (by rw [World.next, hreceiving])
  | processSend choice =>
      cases hsending : w.sending with
      | none => exact hkept (by rw [World.next, hsending])
      | some st => exact h.processSend hmessages hsending (hallowed st hsending)
  | processRecv choice =>
      cases hreceiving : w.receiving with
      | none => exact hkept (by rw [World.next, hreceiving])
      | some r => exact h.processRecv hC hmessages hreceiving (hallowed r hreceiving)
  | sendDone =>
      cases hsending : w.sending with
      | none => exact hkept (by rw [World.next, hsending])
      | some st =>
          by_cases hstage : st.req.stage = .sendComplete
          · obtain ⟨rfl, rfl⟩ := (h.streams.sender st hsending).at_end hstage
            refine .link (w.next_sendDone hsending hstage) ⟨missing, 0, 0, q, q', ?_⟩
            exact ⟨h.caches, h.streams.sendDone, h.receiver, h.holds, h.held, h.knows,
              h.delivered⟩
          · exact hkept (by simp only [World.next, hsending, if_neg hstage])
  | recvDone =>
      cases hreceiving : w.receiving with
      | none => exact hkept (by rw [World.next, hreceiving])
      | some r =>
          by_cases hstage : r.st.req.stage = .recvComplete
          · obtain ⟨hdelivered, rfl, rfl, hheld⟩ :=
              (h.receiver r hreceiving).receipt_delivered hstage
            refine .link (w.next_recvDone hreceiving hstage) ⟨missing, p, p', 0, 0,
              h.caches, h.streams.recvDone hreceiving, fun r' hr' => absurd hr' (by simp),
              fun r' hr' => absurd hr' (by simp), fun hclear i hi => ?_,
              fun hclear i j hij hj => ?_, fun i hi => ?_⟩
            · rw [List.length_append, List.length_singleton] at hi
              rcases Nat.lt_or_eq_of_le (Nat.lt_succ_iff.mp hi) with hlt | rfl
              · exact h.held hclear i hlt
              · exact hheld hclear
            · rw [Link.postings_report hreceiving] at hj
              rw [Link.known_congr (Link.postings_report hreceiving)]
              exact h.knows hclear i j hij hj
            · rw [List.length_append, List.length_singleton] at hi
              rcases Nat.lt_or_eq_of_le (Nat.lt_succ_iff.mp hi) with hlt | rfl
              · simp only [List.getElem_append_left hlt]
                exact h.delivered i hlt
              · simp only [List.getElem_concat_length]
                exact hdelivered
          · exact hkept (by simp only [World.next, hreceiving, if_neg hstage])
  | insert node fp content retEntry =>
      obtain ⟨r, c, e, hrun, hsound, hgrows⟩ := (h.caches node).insert hallowed retEntry
      have hcaches := h.caches_update hsound hgrows
      have hnext : w.next x (.insert node fp content retEntry) = some { w with
          caches := Function.update w.caches node c } := by
        simp only [World.next, hrun, Option.bind_eq_bind, Option.bind_some]
      exact ⟨_, hnext, ⟨_, _, _, _, _, h.grows hcaches.1 hcaches.2⟩, hcaches.2⟩
  | setSkip send recv =>
      refine .link (l := { w.toLink with
        sendSkip := w.sendSkip || send, recvSkip := w.recvSkip || recv }) rfl
        ⟨missing, p, p', q, q', ?_⟩
      have hclear (hskip : (w.recvSkip || recv) = false) : w.recvSkip = false :=
        (Bool.or_eq_false_iff.mp hskip).1
      exact ⟨h.caches, ⟨h.streams.replied, h.streams.undecided, h.streams.idle, h.streams.sender,
        h.streams.waiting, h.streams.forward, h.streams.backward, h.streams.forwardSent,
        h.streams.backwardSent⟩,
        fun r hr => @Receiver.grows _ _ _ _ _ ⟨w.caches x.recvNode, w.recvSkip⟩
          ⟨w.caches x.recvNode, w.recvSkip || recv⟩ _ _ _ (Grows.refl _) subset_rfl
          (Bool.or_eq_true_iff.mpr ∘ Or.inl) (h.receiver r hr),
        h.holds, fun hskip => h.held (hclear hskip), fun hskip => h.knows (hclear hskip),
        h.delivered⟩

end Step

/-- What a run has delivered, in order: each receive its own message, none of them
before its send was started, and nothing is left in flight once both ends are idle. -/
structure World.AllDelivered (x : Exchange Node) (w : World Node) : Prop where
  delivered : ∀ (i : Nat) (hi : i < w.receipts.length), Delivered (x.messages i) w.receipts[i]
  received_le : w.receipts.length ≤ w.sent + if w.sending.isSome then 1 else 0
  drained : w.sending = none → w.receiving = none → w.receipts.length = w.sent →
    w.forward = [] ∧ w.backward = []

theorem World.Correct.allDelivered {x : Exchange Node} {C : Set (List UInt8)} {w : World Node}
    (h : w.Correct x C) : w.AllDelivered x := by
  obtain ⟨missing, p, p', q, q', h⟩ := h
  refine ⟨h.delivered, ?_, fun hsending hreceiving hsent => ?_⟩
  · have hbegun : sofar (forwardFrames x missing) w.receipts.length q <+:
        sofar (forwardFrames x missing) w.sent p := by
      rw [← h.streams.forward]
      exact List.prefix_append _ _
    have hfirst : sofar (forwardFrames x missing) w.receipts.length 0 <+:
        sofar (forwardFrames x missing) w.receipts.length q := by
      rw [sofar_zero]
      exact List.prefix_append _ _
    cases hsending : w.sending with
    | none =>
        obtain ⟨rfl, -⟩ := h.streams.idle hsending
        exact le_of_begun hbegun forwardFrame_ne_nil
    | some st =>
        exact le_of_begun (hbegun.trans (sofar_begun p (Nat.le_refl _))) forwardFrame_ne_nil
  · obtain ⟨rfl, rfl⟩ := h.streams.idle hsending
    obtain ⟨rfl, rfl⟩ := h.streams.waiting hreceiving
    have hforward := h.streams.forward
    have hbackward := h.streams.backward
    rw [hsent] at hforward hbackward
    exact ⟨List.append_right_eq_self.mp hforward, List.append_right_eq_self.mp hbackward⟩

theorem run_correct [DecidableEq Node] (x : Exchange Node) (C : Set (List UInt8))
    (hC : Distinct x.sha256 C) (hmessages : ∀ i, Sendable x.sha256 C (x.messages i))
    {w : World Node} (hw : w.Fresh x C) {events : List (Event Node)}
    (hallowed : Run.Guarded (World.next x) (World.Allowed x C) w events) :
    ∃ w', Run.run (World.next x) w events = some w' ∧ w'.Correct x C := by
  refine Run.run_total (fun w event hcorrect hevent => ?_) hw.correct hallowed
  obtain ⟨w', hnext, hcorrect', -⟩ := World.Correct.goes hcorrect hC hmessages hevent
  exact ⟨w', hnext, hcorrect'⟩

/-- However the steps of both ends interleave and the bytes between them are split,
no step faults, and every receive gets its message. -/
theorem run_delivers [DecidableEq Node] (x : Exchange Node) (C : Set (List UInt8))
    (hC : Distinct x.sha256 C) (hmessages : ∀ i, Sendable x.sha256 C (x.messages i))
    {w : World Node} (hw : w.Fresh x C) {events : List (Event Node)}
    (hallowed : Run.Guarded (World.next x) (World.Allowed x C) w events) :
    ∃ w', Run.run (World.next x) w events = some w' ∧ w'.AllDelivered x := by
  obtain ⟨w', hrun, hcorrect⟩ := run_correct x C hC hmessages hw hallowed
  exact ⟨w', hrun, hcorrect.allDelivered⟩

section Zeros

/-- Messages of six chunks of zeros, all of which a digest serves, from one node to another. -/
def zerosExchange : Exchange Bool where
  sha256 := fun _ => Vector.replicate fingerprintNumBytes 1
  messages := fun _ => List.replicate 12288 0
  sendNode := false
  recvNode := true

/-- The only chunk that occurs. -/
def zerosContents : Set (List UInt8) := {List.replicate 2048 0}

/-- Before the first message. Only the receiving process inserts what it has. -/
def zerosFresh : World Bool where
  caches := fun _ => initFingerprintCache zeroCache
  sendSkip := true
  recvSkip := false
  sending := none
  sent := 0
  receiving := none
  receipts := []
  forward := []
  backward := []
  forwardSent := []
  backwardSent := []

theorem zerosFresh_fresh : zerosFresh.Fresh zerosExchange zerosContents where
  caches := fun _ => initFingerprintCache_sound
  sending := rfl
  sent := rfl
  receiving := rfl
  receipts := rfl
  forward := rfl
  backward := rfl
  forwardSent := rfl
  backwardSent := rfl

theorem zeros_distinct : Distinct zerosExchange.sha256 zerosContents :=
  ⟨Set.injOn_singleton _ _⟩

theorem zeros_length (i : Nat) : (zerosExchange.messages i).length = 12288 :=
  List.length_replicate

theorem zeros_long (i : Nat) : Long (zerosExchange.messages i) := by
  rw [Long, zeros_length]
  decide

theorem zeros_count (i : Nat) :
    (fingerprints zerosExchange.sha256 (zerosExchange.messages i)).length = 6 := by
  obtain ⟨fps, hrun, hlen⟩ := doFingerprinting_zeros_length zerosExchange.sha256
    (n := 12288) (by decide)
  obtain rfl := Option.some_inj.mp (fingerprints_run.symm.trans hrun)
  exact hlen

theorem zeros_size (i : Nat) {k : Nat}
    (hk : k < (fingerprints zerosExchange.sha256 (zerosExchange.messages i)).length) :
    (fingerprints zerosExchange.sha256 (zerosExchange.messages i))[k].contentSize = 2048 := by
  have hrun := @fingerprints_run zerosExchange.sha256 (zerosExchange.messages i)
  have hmin := (doFingerprinting_bounds shipped_ordered (by rw [zeros_length]; decide) hrun).1
  have hsizes : ∀ k ∈ (fingerprints zerosExchange.sha256 (zerosExchange.messages i)).map
      (·.contentSize), 2048 ≤ k := by
    intro k hk
    obtain ⟨fp, hfp, rfl⟩ := List.mem_map.mp hk
    exact hmin fp hfp
  have hsum := (partition_of_run hrun).sum_sizes
  rw [zeros_length] at hsum
  have hsize := eq_of_sum_le (by decide) hsizes (by rw [hsum, List.length_map, zeros_count])
    (by rw [List.length_map]; exact hk)
  rwa [List.getElem_map] at hsize

theorem zeros_chunk (i : Nat) {k : Nat}
    (hk : k < (fingerprints zerosExchange.sha256 (zerosExchange.messages i)).length) :
    chunk (zerosExchange.messages i)
      (fingerprints zerosExchange.sha256 (zerosExchange.messages i)) k = List.replicate 2048 0 := by
  have hend := chunk_end_le fingerprints_run hk
  rw [zeros_size i hk, zeros_length] at hend
  rw [chunk_eq hk, zeros_size i hk, show zerosExchange.messages i = List.replicate 12288 0 from rfl,
    List.drop_replicate, List.take_replicate]
  congr 1
  rw [Nat.min_eq_left]
  exact Nat.le_sub_of_add_le' hend

theorem zeros_sendable (i : Nat) :
    Sendable zerosExchange.sha256 zerosContents (zerosExchange.messages i) where
  lt := by
    rw [zeros_length]
    decide
  fit := fun _ => by
    rw [zeros_count]
    decide
  chunk_mem := fun _ k hk => zeros_chunk i hk

/-- A step that takes the lock and whose call moves what there is. -/
def manyBytes : Choice := ⟨.ready 65535, true, zeroEntry⟩

/-- Both ends take steps in turn. -/
def zerosTurns : List (Event Bool) :=
  (List.replicate 32 [.processSend manyBytes, .processRecv manyBytes]).flatten

/-- One message is sent and received. -/
def zerosEvents : List (Event Bool) :=
  [.isend, .irecv 12288 fun _ => 0] ++ zerosTurns ++ [.sendDone, .recvDone]

/-- What is assumed of these events, as a condition that can be decided. -/
def zerosAllowed (w : World Bool) : Event Bool → Prop
  | .irecv size _ => 12288 ≤ size ∧ size < 2 ^ 31
  | .processSend choice => ∀ st ∈ w.sending, SendsWhole st choice
  | .processRecv choice => ∀ r ∈ w.receiving, ReceivesWhole r.st w.forward.length choice
  | .insert .. => False
  | _ => True

instance decidableZerosAllowed (w : World Bool) : ∀ event, Decidable (zerosAllowed w event)
  | .isend => inferInstanceAs (Decidable True)
  | .irecv _ _ => inferInstanceAs (Decidable (_ ∧ _))
  | .processSend choice => inferInstanceAs (Decidable (∀ st ∈ w.sending, SendsWhole st choice))
  | .processRecv choice =>
      inferInstanceAs (Decidable (∀ r ∈ w.receiving, ReceivesWhole r.st w.forward.length choice))
  | .sendDone => inferInstanceAs (Decidable True)
  | .recvDone => inferInstanceAs (Decidable True)
  | .insert .. => inferInstanceAs (Decidable False)
  | .setSkip _ _ => inferInstanceAs (Decidable True)

theorem zerosAllowed.allowed {w : World Bool} {event : Event Bool} (h : zerosAllowed w event) :
    w.Allowed zerosExchange zerosContents event := by
  cases event with
  | irecv size buffer =>
      intro _
      rw [zeros_length]
      exact h
  | processSend choice => exact h
  | processRecv choice => exact h
  | insert node fp content retEntry => exact absurd h id
  | isend => trivial
  | sendDone => trivial
  | recvDone => trivial
  | setSkip send recv => trivial

/-- The message is received and reported, and its chunk is inserted. -/
theorem zerosEvents_checked :
    (Run.runChecked (World.next zerosExchange) zerosAllowed zerosFresh zerosEvents).map (fun w =>
      (w.sending.isNone, w.receiving.isNone, w.sent, w.receipts.length, w.recvSkip)) =
        some (true, true, 1, 1, false) := by
  decide +kernel

theorem zerosEvents_allowed : Run.Guarded (World.next zerosExchange)
    (World.Allowed zerosExchange zerosContents) zerosFresh zerosEvents := by
  obtain ⟨w, hrun, -⟩ := Option.map_eq_some_iff.mp zerosEvents_checked
  exact (Run.of_runChecked hrun).1.mono fun _ _ => zerosAllowed.allowed

/-- The state after the message. -/
theorem zerosEvents_run : ∃ w, Run.run (World.next zerosExchange) zerosFresh zerosEvents = some w ∧
    w.sending = none ∧ w.receiving = none ∧ w.sent = 1 ∧ w.receipts.length = 1 ∧
      w.recvSkip = false := by
  obtain ⟨w, hchecked, hw⟩ := Option.map_eq_some_iff.mp zerosEvents_checked
  simp only [Prod.mk.injEq, Option.isNone_iff_eq_none] at hw
  exact ⟨w, (Run.of_runChecked hchecked).2, hw⟩

/-- Twelve kilobytes arrive. -/
theorem run_delivers_zeros : ∃ w,
    Run.run (World.next zerosExchange) zerosFresh zerosEvents = some w ∧
      w.AllDelivered zerosExchange ∧ w.receipts.length = 1 ∧ w.forward = [] ∧ w.backward = [] := by
  obtain ⟨w, hrun, hdelivered⟩ := run_delivers zerosExchange zerosContents zeros_distinct
    zeros_sendable zerosFresh_fresh zerosEvents_allowed
  obtain ⟨w', hrun', hsending, hreceiving, hsent, hreceived, -⟩ := zerosEvents_run
  obtain rfl := Option.some_inj.mp (hrun.symm.trans hrun')
  exact ⟨w, hrun, hdelivered, hreceived,
    hdelivered.drained hsending hreceiving (hreceived.trans hsent.symm)⟩

end Zeros

end NetDedup.Delivery

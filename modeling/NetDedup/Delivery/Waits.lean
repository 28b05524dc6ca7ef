import NetDedup.Delivery.Savings
import NetDedup.Transfer.RecvProgress
import NetDedup.Transfer.SendProgress

/-!
# Ends that wait for each other

An end that waits for bytes has bytes of its frame to come, and those were sent
or are still to be sent. Where they stand tells that the two ends of a link never
wait for each other.
-/

namespace NetDedup.Delivery

open Chunking Comm Frames Memory Store Transfer

section Positions

variable {sha256 : List UInt8 → Digest} {known : Set Digest} {missing : List Nat}
  {data : List UInt8} {posted : Mem} {proc : Process} {p p' q q' : Nat}

/-- A send waits for its reply only, after its fingerprints. -/
theorem Sender.waits {st : SendState} (h : Sender sha256 missing data st p p')
    (hfit : missing.length ≤ maxFingerprintsPerReq) (hwaits : 0 < st.req.awaited) :
    Long data ∧ p = contentPos (fingerprints sha256 data) ∧
      p' < (backwardFrame data missing).length := by
  rw [DedupSendReq.awaited] at hwaits
  cases h.at_stage with
  | missingHeader hstage hlong _ hoffset _ _ hp hp' =>
      simp only [hstage] at hwaits
      rw [u64Sub_of_le hoffset (by decide)] at hwaits
      refine ⟨hlong, hp, ?_⟩
      rw [hp', length_backwardFrame_long hlong]
      omega
  | missing hstage hlong _ hnum hoffset _ _ hp hp' =>
      have hlt : missing.length * sizeofU64 < 2 ^ 64 :=
        Nat.lt_of_le_of_lt (Nat.mul_le_mul_right _ hfit) (by decide)
      simp only [hstage, hnum, Nat.mod_eq_of_lt hlt] at hwaits
      rw [u64Sub_of_le hoffset hlt] at hwaits
      refine ⟨hlong, hp, ?_⟩
      rw [hp', length_backwardFrame_long hlong]
      omega
  | header hst => exact absurd hwaits (by simp [hst, isendRequest])
  | regData hstage => exact absurd hwaits (by simp [hstage])
  | compute hst => exact absurd hwaits (by simp [hst, SendState.goto])
  | insert hstage => exact absurd hwaits (by simp [hstage])
  | fingerprintHeader hstage => exact absurd hwaits (by simp [hstage])
  | packaged hstage => exact absurd hwaits (by simp [hstage])
  | content hstage => exact absurd hwaits (by simp [hstage])
  | complete hstage => exact absurd hwaits (by simp [hstage])

/-- A receive waits for bytes of its frame, and for content only after its reply. -/
theorem Receiver.waits {st : RecvState} (h : Receiver sha256 known missing data posted proc st q q')
    (hfit : Long data → (fingerprints sha256 data).length ≤ maxFingerprintsPerReq)
    (hwaits : 0 < st.req.awaited) : q < (forwardFrame sha256 data missing).length ∧
      (Long data → q < contentPos (fingerprints sha256 data) ∨
        q' = (backwardFrame data missing).length) := by
  have hsize : data.length < 2 ^ 64 :=
    Nat.lt_trans (Nat.lt_of_le_of_lt h.size_le h.lt) (by decide)
  have hbefore (hlong : Long data) (hq : q < contentPos (fingerprints sha256 data)) :
      q < (forwardFrame sha256 data missing).length ∧
        (Long data → q < contentPos (fingerprints sha256 data) ∨
          q' = (backwardFrame data missing).length) := by
    refine ⟨?_, fun _ => Or.inl hq⟩
    rw [length_forwardFrame_long hlong]
    omega
  rw [DedupRecvReq.awaited] at hwaits
  cases h.at_stage with
  | header hst hq =>
      refine ⟨hq ▸ List.length_pos_iff.mpr forwardFrame_ne_nil, fun _ => Or.inl ?_⟩
      rw [hq, contentPos, fingerprintsPos]
      exact Nat.lt_of_lt_of_le (by decide : 0 < generalHeader.size) (by omega)
  | regData hstage hshort hoffset _ hq =>
      have hcontent := headerContentSize_of_read hsize (h.head (by rw [hstage]; simp))
      simp only [hstage, hcontent] at hwaits
      rw [u64Sub_of_le hoffset hsize] at hwaits
      refine ⟨?_, fun hlong => absurd hlong hshort⟩
      rw [length_forwardFrame_short hshort]
      omega
  | fingerprintHeader hstage hlong _ _ _ _ hq =>
      refine hbefore hlong ?_
      rw [hq, contentPos, fingerprintsPos]
      exact Nat.lt_of_lt_of_le (Nat.lt_add_of_pos_right (by decide)) (Nat.le_add_right _ _)
  | packaged hstage hlong _ _ _ _ hbytes hoffset _ _ hq =>
      have hlt : st.req.packagedFingerprintsSizeBytes < 2 ^ 64 := by
        rw [hbytes]
        exact Nat.lt_of_le_of_lt (Nat.mul_le_mul_right _ (hfit hlong)) (by decide)
      simp only [hstage] at hwaits
      rw [u64Sub_of_le hoffset hlt] at hwaits
      refine hbefore hlong ?_
      rw [hq, contentPos, ← hbytes]
      omega
  | content hstage hlong _ hpop _ _ hle hoffset _ hq hq' =>
      simp only [hstage, DedupRecvReq.contentLeft] at hwaits
      split_ifs at hwaits with ht
      · obtain ⟨i, hi, hget, hind, hslot, hfp⟩ := hpop.get ht
        obtain ⟨hlt, rfl⟩ := List.getElem?_eq_some_iff.mp hget
        have hnext := @missingPos_succ sha256 data missing _ hlt
        have hframe := @missingPos_le sha256 data missing hlong (st.req.curRecvContentInd + 1)
        have hchunk := chunk_end_le fingerprints_run hi
        have hlen := length_chunk hi
        rw [hind, Option.bind_some, hfp, Option.elim_some,
          u64Sub_of_le (hoffset _ hi hget) (by omega)] at hwaits
        exact ⟨by omega, fun _ => Or.inr hq'⟩
      · exact absurd hwaits (Nat.lt_irrefl 0)
  | populate _ _ hstage => exact absurd hwaits (by simp [hstage])
  | missingHeader hstage => exact absurd hwaits (by simp [hstage])
  | missing hstage => exact absurd hwaits (by simp [hstage])
  | insert hstage => exact absurd hwaits (by simp [hstage])
  | complete hstage => exact absurd hwaits (by simp [hstage])

end Positions

/-- The sending end is done with message `i`, reported or not. -/
def Link.SendDone (l : Link) (i : Nat) : Prop :=
  i < l.sent ∨ i = l.sent ∧ ∃ st, l.sending = some st ∧ st.req.stage = .sendComplete

/-- The receiving end is done with message `i`, reported or not. -/
def Link.RecvDone (l : Link) (i : Nat) : Prop :=
  i < l.receipts.length ∨
    i = l.receipts.length ∧ ∃ r, l.receiving = some r ∧ r.st.req.stage = .recvComplete

/-- The sending end can do nothing more for message `i` as things are. -/
def Link.SendRests (l : Link) (i : Nat) : Prop :=
  l.SendDone i ∨
    i = l.sent ∧ ∃ st, l.sending = some st ∧ 0 < st.req.awaited ∧ l.backward = []

/-- The receiving end can do nothing more for message `i` as things are. -/
def Link.RecvRests (l : Link) (i : Nat) : Prop :=
  l.RecvDone i ∨
    i = l.receipts.length ∧ ∃ r, l.receiving = some r ∧ 0 < r.st.req.awaited ∧ l.forward = []

section Meeting

variable {Node : Type} {x : Exchange Node} {C : Set (List UInt8)} {w : World Node}
  {missing : Nat → List Nat} {p p' q q' i : Nat}

/-- An end that is done with a message is at the end of its frames or further. -/
theorem Joint.sendDone_pos (h : Joint x C w missing p p' q q') (hdone : w.SendDone i) :
    (i < w.sent ∨ i = w.sent ∧ (forwardFrames x missing w.sent).length ≤ p) := by
  refine hdone.imp_right fun ⟨hi, st, hst, hstage⟩ => ⟨hi, ?_⟩
  exact Nat.le_of_eq ((h.streams.sender st hst).at_end hstage).1.symm

theorem Joint.recvDone_pos (h : Joint x C w missing p p' q q') (hdone : w.RecvDone i) :
    (i < w.receipts.length ∨
      i = w.receipts.length ∧ (backwardFrames x missing w.receipts.length).length ≤ q') := by
  refine hdone.imp_right fun ⟨hi, r, hr, hstage⟩ => ⟨hi, ?_⟩
  exact Nat.le_of_eq ((h.receiver r hr).receipt_delivered hstage).2.2.1.symm

/-- Two ends that both can do nothing more for a message are done with it. -/
theorem Joint.done_of_rests (h : Joint x C w missing p p' q q')
    (hmessages : ∀ i, Sendable x.sha256 C (x.messages i)) (hsend : w.SendRests i)
    (hrecv : w.RecvRests i) : w.SendDone i ∧ w.RecvDone i := by
  -- what a waiting end still has to get was not sent by the other end
  have hsender {st : SendState} (hst : w.sending = some st) (hawaited : 0 < st.req.awaited) :=
    (h.streams.sender st hst).waits (h.streams.replied w.sent).fit hawaited
  have hreceiver {r : Receiving} (hr : w.receiving = some r) (hawaited : 0 < r.st.req.awaited) :=
    (h.receiver r hr).waits (hmessages _).fit hawaited
  have hforward := congrArg List.length h.streams.forward
  have hbackward := congrArg List.length h.streams.backward
  rw [List.length_append] at hforward hbackward
  rcases hsend with hsend | ⟨rfl, st, hst, hawaits, hnone⟩
  · rcases hrecv with hrecv | ⟨rfl, r, hr, hawaits, hnone⟩
    · exact ⟨hsend, hrecv⟩
    · have hlt := sofar_lt (hreceiver hr hawaits).1 (h.sendDone_pos hsend)
      rw [hnone, List.length_nil] at hforward
      omega
  · obtain ⟨hlong, hp, hp'⟩ := hsender hst hawaits
    rw [hnone, List.length_nil] at hbackward
    rcases hrecv with hrecv | ⟨heq, r, hr, hawaits', hnone'⟩
    · have hlt := sofar_lt hp' (h.recvDone_pos hrecv)
      omega
    · obtain ⟨hq, hbefore⟩ := hreceiver hr hawaits'
      have hcontent : p ≤ (forwardFrames x missing w.sent).length := by
        rw [hp, forwardFrames, length_forwardFrame_long hlong]
        exact Nat.le_add_right _ _
      rw [hnone', List.length_nil, ← heq, length_sofar, length_sofar] at hforward
      rw [← heq, length_sofar, length_sofar] at hbackward
      rw [← heq] at hq hbefore
      rw [forwardFrames] at hcontent hforward
      rw [backwardFrames] at hbackward
      rcases hbefore hlong with hlt | hend
      · omega
      · omega

end Meeting

end NetDedup.Delivery

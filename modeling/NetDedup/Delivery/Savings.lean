import Mathlib.Data.List.Flatten
import Mathlib.Data.List.Sort
import NetDedup.Delivery.Runs

/-!
# What crosses the wire

The bytes that a run sends in both directions are the frames of its messages. A
chunk that the receiving node has when it posts the receive is not among them,
so a message costs at most its own length and what its fingerprints take.
-/

namespace NetDedup.Delivery

open Chunking Comm Frames Memory Store Transfer

variable {Node : Type}

section Frames

variable {sha256 : List UInt8 → Digest} {known : Set Digest} {data : List UInt8}
  {missing : List Nat}

/-- The chunks of a message make it up. -/
theorem chunks_flatten {n : Nat} (hn : n ≤ (fingerprints sha256 data).length) :
    (List.range n).flatMap (chunk data (fingerprints sha256 data)) =
      data.take (boundary (fingerprints sha256 data) n) := by
  induction n with
  | zero => rw [boundary_zero, List.take_zero, List.range_zero, List.flatMap_nil]
  | succ n ih =>
      have hlt : n < (fingerprints sha256 data).length := hn
      rw [List.range_succ, List.flatMap_append, List.flatMap_singleton, ih (Nat.le_of_succ_le hn),
        chunk_eq hlt, boundary_succ hlt, List.take_add]

/-- Missing chunks are listed as they follow one another in the message. -/
theorem Missed.sublist {n : Nat} (h : Missed sha256 known data n missing) :
    missing.Sublist (List.range n) := by
  refine List.sublist_of_subperm_of_pairwise (r := (· < ·)) ?_ h.increasing List.pairwise_lt_range
  refine List.subperm_of_subset (h.increasing.imp Nat.ne_of_lt) fun i hi => ?_
  exact List.mem_range.mpr (h.lt i hi)

/-- Missing chunks are at most the whole message. -/
theorem Missed.content_le
    (h : Missed sha256 known data (fingerprints sha256 data).length missing) :
    (missing.flatMap (chunk data (fingerprints sha256 data))).length ≤ data.length := by
  have hle := (h.sublist.flatMap (chunk data (fingerprints sha256 data))).length_le
  rw [chunks_flatten (Nat.le_refl _), List.length_take] at hle
  exact Nat.le_trans hle (Nat.min_le_right _ _)

/-- When every digest of a message is known none of its chunks is missing. -/
theorem Missed.eq_nil (h : Missed sha256 known data (fingerprints sha256 data).length missing)
    (hknown : ∀ fp ∈ fingerprints sha256 data, fp.fingerprint ∈ known) : missing = [] := by
  refine List.eq_nil_iff_forall_not_mem.mpr fun i hi => ?_
  have hlt := h.lt i hi
  exact h.fresh i hi hlt (hknown _ (List.getElem_mem hlt))

/-- What is sent for a message of `n` bytes besides its content, in both directions. -/
def overhead (n : Nat) : Nat :=
  if fingerprintMsgSizeThreshold < n then
    generalHeader.size + 2 * sizeofU64 + n / minChunkSizeBytes * (sizeofFingerprint + sizeofU64)
  else generalHeader.size

/-- A message costs at most its own length and that. -/
theorem Missed.cost_le
    (h : Missed sha256 known data (fingerprints sha256 data).length missing) :
    (forwardFrame sha256 data missing).length + (backwardFrame data missing).length ≤
      data.length + overhead data.length := by
  by_cases hlong : Long data
  · have hcontent := h.content_le
    have hmissing := h.sublist.length_le
    rw [List.length_range] at hmissing
    have hcount := doFingerprinting_length_le shipped_ordered
      (Nat.lt_trans (by decide) hlong) (@fingerprints_run sha256 data)
    change (fingerprints sha256 data).length ≤ data.length / minChunkSizeBytes at hcount
    have hfps := Nat.mul_le_mul_right sizeofFingerprint hcount
    have hinds := Nat.mul_le_mul_right sizeofU64 (Nat.le_trans hmissing hcount)
    have hheader : fingerprintHeader.size = sizeofU64 := rfl
    rw [overhead, if_pos hlong, length_forwardFrame_long hlong, length_backwardFrame_long hlong,
      contentPos, fingerprintsPos, Nat.mul_add]
    omega
  · rw [overhead, if_neg hlong, length_forwardFrame_short hlong, backwardFrame_short hlong,
      List.length_nil]
    omega

/-- A message whose digests are all known costs its fingerprints and no content. -/
theorem Missed.cost_known (hlong : Long data)
    (h : Missed sha256 known data (fingerprints sha256 data).length missing)
    (hknown : ∀ fp ∈ fingerprints sha256 data, fp.fingerprint ∈ known) :
    (forwardFrame sha256 data missing).length = contentPos (fingerprints sha256 data) ∧
      (backwardFrame data missing).length = sizeofU64 := by
  obtain rfl := h.eq_nil hknown
  exact ⟨length_forwardFrame_long hlong, length_backwardFrame_long hlong⟩

end Frames

/-- What a run has put on the wire, `missing` being the replies that were or will be
given: the frames of its messages so far. -/
structure World.OnWire (x : Exchange Node) (w : World Node) (missing : Nat → List Nat) : Prop where
  missed : ∀ i, Missed x.sha256 (w.known i) (x.messages i)
    (fingerprints x.sha256 (x.messages i)).length (missing i)
  forward : w.forwardSent <+: (List.range (w.sent + 1)).flatMap (forwardFrames x missing)
  backward : w.backwardSent <+:
    (List.range (w.receipts.length + 1)).flatMap (backwardFrames x missing)
  forward_idle : w.sending = none →
    w.forwardSent = (List.range w.sent).flatMap (forwardFrames x missing)
  backward_idle : w.receiving = none →
    w.backwardSent = (List.range w.receipts.length).flatMap (backwardFrames x missing)

theorem Joint.onWire {x : Exchange Node} {C : Set (List UInt8)} {w : World Node}
    {missing : Nat → List Nat} {p p' q q' : Nat} (h : Joint x C w missing p p' q q') :
    w.OnWire x missing where
  missed := fun i => (h.streams.replied i).toMissed
  forward := by
    rw [h.streams.forwardSent, ← sofar_zero]
    exact sofar_begun p (Nat.le_refl _)
  backward := by
    rw [h.streams.backwardSent, ← sofar_zero]
    exact sofar_begun q' (Nat.le_refl _)
  forward_idle := by
    intro hsending
    rw [h.streams.forwardSent, (h.streams.idle hsending).1, sofar_zero]
  backward_idle := by
    intro hreceiving
    rw [h.streams.backwardSent, (h.streams.waiting hreceiving).2, sofar_zero]

/-- The frames of the first messages cost at most their lengths and the overhead of each. -/
theorem frames_cost_le {x : Exchange Node} {known : Nat → Set Digest} {missing : Nat → List Nat}
    (h : ∀ i, Missed x.sha256 (known i) (x.messages i)
      (fingerprints x.sha256 (x.messages i)).length (missing i)) (n : Nat) :
    ((List.range n).flatMap (forwardFrames x missing)).length +
      ((List.range n).flatMap (backwardFrames x missing)).length ≤
        ((List.range n).map fun i =>
          (x.messages i).length + overhead (x.messages i).length).sum := by
  induction n with
  | zero => rfl
  | succ n ih =>
      have hcost := (h n).cost_le
      simp only [List.range_succ, List.flatMap_append, List.flatMap_singleton, List.length_append,
        List.map_append, List.map_singleton, List.sum_append, List.sum_singleton]
      rw [forwardFrames, backwardFrames]
      omega

/-- All messages together cost at most their lengths and the overhead of each. -/
theorem World.OnWire.cost_le {x : Exchange Node} {w : World Node} {missing : Nat → List Nat}
    (h : w.OnWire x missing) (hsending : w.sending = none) (hreceiving : w.receiving = none)
    (hsent : w.receipts.length = w.sent) :
    w.forwardSent.length + w.backwardSent.length ≤ ((List.range w.sent).map fun i =>
      (x.messages i).length + overhead (x.messages i).length).sum := by
  rw [h.forward_idle hsending, h.backward_idle hreceiving, hsent]
  exact frames_cost_le h.missed w.sent

/-- Whatever the run, the wire carries the frames of the messages and nothing else.
No chunk is on it that the receiving node had when it posted the receive, and once
both ends are idle all of it is at most the messages and their fingerprints. -/
theorem run_saves [DecidableEq Node] (x : Exchange Node) (C : Set (List UInt8))
    (hC : Distinct x.sha256 C) (hmessages : ∀ i, Sendable x.sha256 C (x.messages i))
    {w : World Node} (hw : w.Fresh x C) {events : List (Event Node)}
    (hallowed : Run.Guarded (World.next x) (World.Allowed x C) w events) :
    ∃ w' missing, Run.run (World.next x) w events = some w' ∧ w'.OnWire x missing ∧
      (w'.sending = none → w'.receiving = none → w'.receipts.length = w'.sent →
        w'.forwardSent.length + w'.backwardSent.length ≤ ((List.range w'.sent).map fun i =>
          (x.messages i).length + overhead (x.messages i).length).sum) ∧
      ∀ i, Long (x.messages i) →
        (∀ fp ∈ fingerprints x.sha256 (x.messages i), fp.fingerprint ∈ w'.known i) →
        (forwardFrames x missing i).length =
          contentPos (fingerprints x.sha256 (x.messages i)) ∧
        (backwardFrames x missing i).length = sizeofU64 := by
  obtain ⟨w', hrun, missing, p, p', q, q', h⟩ := run_correct x C hC hmessages hw hallowed
  exact ⟨w', missing, hrun, h.onWire, h.onWire.cost_le,
    fun i hlong hknown => (h.onWire.missed i).cost_known hlong hknown⟩

section Zeros

/-- One message is received, then the next one begins. -/
def zerosAgain : List (Event Bool) := zerosEvents ++ [.isend, .irecv 12288 fun _ => 0]

theorem zerosAgain_allowed : Run.Guarded (World.next zerosExchange)
    (World.Allowed zerosExchange zerosContents) zerosFresh zerosAgain := by
  refine Run.guarded_append.mpr ⟨zerosEvents_allowed, fun w _ => ?_⟩
  refine Run.guarded_cons.mpr ⟨trivial, fun w' _ => Run.guarded_cons.mpr ⟨fun _ => ?_,
    fun _ _ => trivial⟩⟩
  rw [zeros_length]
  exact ⟨Nat.le_refl _, by decide⟩

theorem zerosAgain_run : ∃ w, Run.run (World.next zerosExchange) zerosFresh zerosAgain = some w ∧
    w.recvSkip = false ∧ w.postings.length = 2 := by
  obtain ⟨w, hrun, hsending, hreceiving, -, hreceived, hskip⟩ := zerosEvents_run
  have hisend := @World.next_isend _ zerosExchange w _ hsending
  have hirecv := @World.next_irecv _ zerosExchange { w with
    sending := some ⟨isendRequest (zerosExchange.messages w.sent), none⟩ } _ hreceiving 12288
    fun _ => 0
  have hposted := Link.postings_post hreceiving ⟨fun _ => 0, w.caches zerosExchange.recvNode,
    ⟨irecvRequest 12288 fun _ => 0, none, none⟩⟩
  have hlength := congrArg List.length hposted
  rw [List.length_append, Link.postings_none hreceiving, List.length_map, hreceived,
    List.length_singleton] at hlength
  have hagain := @Run.run_append _ _ (World.next zerosExchange) zerosFresh zerosEvents
    [.isend, .irecv 12288 fun _ => 0]
  rw [hrun, Option.bind_some, Run.run, hisend, Option.bind_some, Run.run, hirecv, Option.bind_some,
    Run.run] at hagain
  exact ⟨_, hagain, hskip, hlength⟩

/-- The first message costs no more than its bytes and its fingerprints, and the second
one, whose chunks are known by then, no content. -/
theorem run_saves_zeros :
    (∃ w missing, Run.run (World.next zerosExchange) zerosFresh zerosEvents = some w ∧
      w.OnWire zerosExchange missing ∧
      w.forwardSent.length + w.backwardSent.length ≤ 12288 + 320) ∧
    ∃ w missing, Run.run (World.next zerosExchange) zerosFresh zerosAgain = some w ∧
      w.OnWire zerosExchange missing ∧
      (forwardFrames zerosExchange missing 1).length = 264 ∧
      (backwardFrames zerosExchange missing 1).length = 8 := by
  constructor
  · obtain ⟨w, missing, hrun, hwire, hcost, -⟩ := run_saves zerosExchange zerosContents
      zeros_distinct zeros_sendable zerosFresh_fresh zerosEvents_allowed
    obtain ⟨w', hrun', hsending, hreceiving, hsent, hreceived, -⟩ := zerosEvents_run
    obtain rfl := Option.some_inj.mp (hrun.symm.trans hrun')
    have hle := hcost hsending hreceiving (hreceived.trans hsent.symm)
    rw [hsent, List.range_one, List.map_singleton, List.sum_singleton, zeros_length] at hle
    exact ⟨w, missing, hrun, hwire, hle⟩
  · obtain ⟨w, missing, hrun, hwire, -, hknown⟩ := run_saves zerosExchange zerosContents
      zeros_distinct zeros_sendable zerosFresh_fresh zerosAgain_allowed
    obtain ⟨w', hrun', hskip, hposted⟩ := zerosAgain_run
    obtain rfl := Option.some_inj.mp (hrun.symm.trans hrun')
    obtain ⟨w₁, hrun₁, _, _, _, _, _, hjoint⟩ := run_correct zerosExchange zerosContents
      zeros_distinct zeros_sendable zerosFresh_fresh zerosAgain_allowed
    obtain rfl := Option.some_inj.mp (hrun.symm.trans hrun₁)
    have hcost := hknown 1 (zeros_long 1) fun fp hfp =>
      hjoint.knows hskip 0 1 Nat.zero_lt_one (by omega) (zeros_long 0) fp hfp
    rw [contentPos, zeros_count] at hcost
    exact ⟨w, missing, hrun, hwire, hcost⟩

end Zeros

end NetDedup.Delivery

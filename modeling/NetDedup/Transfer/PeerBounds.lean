import NetDedup.Store.CacheRuns
import NetDedup.Transfer.ArrayBounds
import NetDedup.Transfer.RecvBounds
import NetDedup.Transfer.SendBounds

/-!
# Bounds of both parties

A request stays inside its buffers in every run in which the announcements of
its peer fit them. Nothing in the code checks that they do.
-/

namespace NetDedup.Transfer

open Chunking Memory Store

/-- No stage of a request leaves its buffers, whatever bytes arrive and
however they are split, while the announcements of the peer fit. -/
theorem requests_inBounds (sha256 : List UInt8 → Digest) :
    (∀ (size : Nat) (buffer : Mem) (sock : Socket) (proc : Process) (events : List PartyEvent),
      size < 2 ^ 31 → proc.Sound →
      Run.Guarded (Party.next processRecv) AnnouncementsFit
        ⟨⟨irecvRequest size buffer, none, none⟩, sock, proc⟩ events →
      Run.run (Party.next processRecv) ⟨⟨irecvRequest size buffer, none, none⟩, sock, proc⟩
        events ≠ none) ∧
    (∀ (data : List UInt8) (sock : Socket) (proc : Process) (events : List PartyEvent),
      data.length < 2 ^ 31 → proc.Sound →
      Run.Guarded (Party.next (processSend sha256)) (RepliesFit sha256)
        ⟨⟨isendRequest data, none⟩, sock, proc⟩ events →
      Run.run (Party.next (processSend sha256)) ⟨⟨isendRequest data, none⟩, sock, proc⟩
        events ≠ none) :=
  ⟨fun _ _ _ _ _ hsize hproc hfit => recv_run_inBounds hsize hproc hfit,
    fun _ _ _ _ hlen hproc hfit => send_run_inBounds hlen hproc hfit⟩

/-- A step whose call may move any number of bytes. -/
def anyBytes : Choice := ⟨.ready 65535, true, zeroEntry⟩

section Receive

/-- A receive request before its first step, on a fresh cache. -/
def posted (size : Nat) : Party RecvState :=
  ⟨⟨irecvRequest size fun _ => 0, none, none⟩, ⟨[], []⟩, ⟨initFingerprintCache zeroCache, false⟩⟩

/-- A message of two chunks: its headers, its fingerprints, and both chunks. -/
def twoChunks : List UInt8 :=
  leBytes 8 1 ++ leBytes 8 5 ++ leBytes 8 2 ++
    encodeFingerprint ⟨2, Vector.replicate fingerprintNumBytes 1⟩ ++
    encodeFingerprint ⟨3, Vector.replicate fingerprintNumBytes 2⟩ ++ [7, 7, 8, 8, 8]

/-- The message arrives in two parts, and steps are taken until it is complete. -/
def receiveTwoChunks : List PartyEvent :=
  [.arrive (twoChunks.take 30)] ++ List.replicate 4 (.step anyBytes) ++
    [.arrive (twoChunks.drop 30)] ++ List.replicate 20 (.step anyBytes)

/-- Enough for the announcements to fit, as a condition that can be decided: the cache
does not have the announced chunks. -/
def announcesNew (p : Party RecvState) : PartyEvent → Prop
  | .arrive _ => True
  | .other _ => False
  | .step choice =>
      (p.st.req.stage = .recvHeader →
        choice.socket.Whole generalHeader.size p.sock.inbound.length) ∧
      (p.st.req.stage = .recvRegData → headerContentSize p.st.req.head ≤ p.st.req.size) ∧
      (p.st.req.stage = .recvFingerprintHeader →
        choice.socket.Whole fingerprintHeader.size p.sock.inbound.length) ∧
      (p.st.req.stage = .recvPackagedFingerprints →
        numFingerprints p.st.req.head ≤ maxFingerprintsPerReq) ∧
      (p.st.req.stage = .populateFromNetCache →
        ((announcedFingerprints p.st.req.head).map (·.contentSize)).sum ≤ p.st.req.size ∧
        ∀ fp ∈ announcedFingerprints p.st.req.head, 1 ≤ fp.contentSize ∧
          (lookupFingerprint p.proc.globalFingerprintCache fp.fingerprint zeroEntry).1 = 0)

instance decidableAnnouncesNew (p : Party RecvState) : ∀ event, Decidable (announcesNew p event)
  | .arrive _ => inferInstanceAs (Decidable True)
  | .other _ => inferInstanceAs (Decidable False)
  | .step _ => inferInstanceAs (Decidable (_ ∧ _))

theorem announcesNew.fit {p : Party RecvState} {event : PartyEvent} (hp : p.RecvBounded)
    (h : announcesNew p event) : AnnouncementsFit p event := by
  cases event with
  | arrive bs => trivial
  | other proc => exact absurd h id
  | step choice =>
      obtain ⟨hheader, hregData, hfingerprintHeader, hpackaged, hpopulate⟩ := h
      unfold AnnouncementsFit
      cases hstage : p.st.req.stage with
      | recvHeader => exact hheader hstage
      | recvRegData => exact hregData hstage
      | recvFingerprintHeader => exact hfingerprintHeader hstage
      | recvPackagedFingerprints => exact hpackaged hstage
      | populateFromNetCache =>
          obtain ⟨hsum, hchunks⟩ := hpopulate hstage
          refine ⟨⟨hsum, fun fp hfp => (hchunks fp hfp).1⟩, fun fp hfp e he => ?_⟩
          have hnew := (hchunks fp hfp).2
          rw [hp.2.ok.lookup_stored he] at hnew
          exact absurd hnew Int.one_ne_zero
      | sendMissingFingerprintHeader => trivial
      | sendMissingFingerprints => trivial
      | recvMissingContent => trivial
      | insertInboundFingerprints => trivial
      | recvComplete => trivial

theorem receiveTwoChunks_checked :
    (Run.runChecked (Party.next processRecv) announcesNew (posted 5) receiveTwoChunks).map
      (·.st.req.stage) = some .recvComplete := by
  decide +kernel

theorem receiveTwoChunks_fit :
    Run.Guarded (Party.next processRecv) AnnouncementsFit (posted 5) receiveTwoChunks := by
  obtain ⟨p, hchecked, -⟩ := Option.map_eq_some_iff.mp receiveTwoChunks_checked
  refine Run.Guarded.strengthen (I := Party.RecvBounded) (fun _ _ => announcesNew.fit)
    (fun p event p' hp hfit hnext => ?_)
    ⟨irecvRequest_bounded (by decide) _, initFingerprintCache_ok, rfl⟩ (Run.of_runChecked hchecked).1
  obtain ⟨p₁, hp₁, hbounded⟩ := hp.next hfit
  obtain rfl := Option.some_inj.mp (hp₁.symm.trans hnext)
  exact hbounded

end Receive

section Send

/-- A send request of six chunks before its first step. -/
def sixChunks : Party SendState :=
  ⟨⟨isendRequest (List.replicate 12288 0), none⟩, ⟨[], []⟩,
    ⟨initFingerprintCache zeroCache, true⟩⟩

/-- The peer asks for the last chunk and the first one, in this order. -/
def twoMissing : List UInt8 := leBytes 8 2 ++ leBytes 8 5 ++ leBytes 8 0

/-- The reply arrives in two parts, and steps are taken until the request is complete. -/
def sendSixChunks : List PartyEvent :=
  List.replicate 6 (.step anyBytes) ++ [.arrive (twoMissing.take 12)] ++
    List.replicate 2 (.step anyBytes) ++ [.arrive (twoMissing.drop 12)] ++
    List.replicate 4 (.step anyBytes)

/-- Enough for the replies to fit, as a condition that can be decided. -/
def repliesKnown (p : Party SendState) : PartyEvent → Prop
  | .arrive _ => True
  | .other _ => False
  | .step choice =>
      (p.st.req.stage = .sendHeader → choice.socket.Whole generalHeader.size generalHeader.size) ∧
      (p.st.req.stage = .computeFingerprints → 2048 < p.st.req.data.length ∧
        p.st.req.data.length < 8390656) ∧
      (p.st.req.stage = .sendFingerprintHeader →
        choice.socket.Whole fingerprintHeader.size fingerprintHeader.size) ∧
      (p.st.req.stage = .recvMissingFingerprints → p.st.req.numMissing ≤ maxFingerprintsPerReq) ∧
      (p.st.req.stage = .sendMissingContent → ∀ i < p.st.req.numMissing,
        ∀ ind ∈ missingInd p.st.req.missingFingerprintInds i, ind < numFingerprints p.st.req.head)

instance decidableRepliesKnown (p : Party SendState) : ∀ event, Decidable (repliesKnown p event)
  | .arrive _ => inferInstanceAs (Decidable True)
  | .other _ => inferInstanceAs (Decidable False)
  | .step _ => inferInstanceAs (Decidable (_ ∧ _))

theorem repliesKnown.fit {sha256 : List UInt8 → Digest} {p : Party SendState} {event : PartyEvent}
    (h : repliesKnown p event) : RepliesFit sha256 p event := by
  cases event with
  | arrive bs => trivial
  | other proc => exact absurd h id
  | step choice =>
      obtain ⟨hheader, hcompute, hfingerprintHeader, hmissing, hcontent⟩ := h
      unfold RepliesFit
      cases hstage : p.st.req.stage with
      | sendHeader => exact hheader hstage
      | computeFingerprints =>
          obtain ⟨hmin, hlt⟩ := hcompute hstage
          obtain ⟨fps, hrun, hfit, -⟩ := @arraysInBounds_of_length_lt sha256 _ hlt hmin
          intro fps' hrun'
          obtain rfl := Option.some_inj.mp (hrun.symm.trans hrun')
          exact hfit
      | sendFingerprintHeader => exact hfingerprintHeader hstage
      | recvMissingFingerprints => exact hmissing hstage
      | sendMissingContent => exact hcontent hstage
      | sendRegData => trivial
      | insertOutboundFingerprints => trivial
      | sendPackagedFingerprints => trivial
      | recvMissingFingerprintHeader => trivial
      | sendComplete => trivial

theorem sendSixChunks_checked :
    (Run.runChecked (Party.next (processSend fun _ => zeroDigest)) repliesKnown sixChunks
      sendSixChunks).map (·.st.req.stage) = some .sendComplete := by
  decide +kernel

theorem sendSixChunks_fit : Run.Guarded (Party.next (processSend fun _ => zeroDigest))
    (RepliesFit fun _ => zeroDigest) sixChunks sendSixChunks := by
  obtain ⟨p, hchecked, -⟩ := Option.map_eq_some_iff.mp sendSixChunks_checked
  exact (Run.of_runChecked hchecked).1.mono fun _ _ => repliesKnown.fit

end Send

/-- A message of two chunks is received into a buffer that it fills, and one of six
chunks is sent to a peer that asks for two of them. -/
theorem requests_inBounds_chunks :
    Run.run (Party.next processRecv) (posted 5) receiveTwoChunks ≠ none ∧
    Run.run (Party.next (processSend fun _ => zeroDigest)) sixChunks sendSixChunks ≠ none := by
  obtain ⟨hrecv, hsend⟩ := requests_inBounds fun _ => zeroDigest
  constructor
  · exact hrecv 5 (fun _ => 0) ⟨[], []⟩ _ receiveTwoChunks (by decide) ⟨initFingerprintCache_ok, rfl⟩
      receiveTwoChunks_fit
  · refine hsend (List.replicate 12288 0) ⟨[], []⟩ _ sendSixChunks ?_ ⟨initFingerprintCache_ok, rfl⟩
      sendSixChunks_fit
    rw [List.length_replicate]
    decide

section TwoBytes

/-- A general header that announces two bytes, and the bytes. -/
def twoBytes : List UInt8 := [0, 0, 0, 0, 0, 0, 0, 0, 2, 0, 0, 0, 0, 0, 0, 0, 7, 7]

/-- The bytes arrive, the header is received, then what follows it. -/
def receiveTwoBytes : List PartyEvent :=
  [.arrive twoBytes, .step ⟨.ready 15, false, zeroEntry⟩, .step ⟨.ready 1, false, zeroEntry⟩]

/-- A buffer of one byte does not take two, and the request writes behind it. -/
theorem requests_inBounds_fails :
    Run.run (Party.next processRecv) (posted 1) receiveTwoBytes = none := by
  have hfault : (Run.run (Party.next processRecv) (posted 1) receiveTwoBytes).isNone = true := by
    decide +kernel
  exact Option.isNone_iff_eq_none.mp hfault

end TwoBytes

end NetDedup.Transfer

import NetDedup.Delivery.Receiver

/-!
# The two streams of a link

Both ends stand somewhere in the frames of their message, what is between their
positions is in flight, and what was ever sent are the frames up to the position
of the end that sends them.
-/

namespace NetDedup.Delivery

open Chunking Comm Frames Memory Store Transfer

variable {Node : Type}

/-- What the caches of the receiving node held when the receives were posted. -/
def Link.postings (l : Link) : List FingerprintCache :=
  l.receipts.map (·.cache) ++ (l.receiving.map (·.cache)).toList

/-- The digests that the receiving node had when it posted the receive for a message. -/
def Link.known (l : Link) (i : Nat) : Set Digest :=
  match l.postings[i]? with
  | some c => digests c
  | none => ∅

section Frames

variable (x : Exchange Node) (missing : Nat → List Nat)

/-- The forward frames of all messages. -/
def forwardFrames (i : Nat) : List UInt8 :=
  forwardFrame x.sha256 (x.messages i) (missing i)

/-- The backward frames of all messages. -/
def backwardFrames (i : Nat) : List UInt8 := backwardFrame (x.messages i) (missing i)

/-- The sending end is at `(sent, p)` of the forward and at `(sent, p')` of the
backward frames, the receiving end at `(received, q)` and `(received, q')`. -/
structure Streams (l : Link) (p p' q q' : Nat) : Prop where
  replied : ∀ i, Replied x.sha256 (l.known i) (x.messages i) (missing i)
  undecided : ∀ i, l.postings.length ≤ i → missing i = []
  idle : l.sending = none → p = 0 ∧ p' = 0
  sender : ∀ st, l.sending = some st →
    Sender x.sha256 (missing l.sent) (x.messages l.sent) st p p'
  waiting : l.receiving = none → q = 0 ∧ q' = 0
  forward : sofar (forwardFrames x missing) l.receipts.length q ++ l.forward =
    sofar (forwardFrames x missing) l.sent p
  backward : sofar (backwardFrames x missing) l.sent p' ++ l.backward =
    sofar (backwardFrames x missing) l.receipts.length q'
  forwardSent : l.forwardSent = sofar (forwardFrames x missing) l.sent p
  backwardSent : l.backwardSent = sofar (backwardFrames x missing) l.receipts.length q'

end Frames

section Postings

variable {l l' : Link} {r r' : Receiving}

theorem Link.postings_some (hr : l.receiving = some r) :
    l.postings = l.receipts.map (·.cache) ++ [r.cache] := by
  rw [postings, hr]
  rfl

theorem Link.postings_none (hr : l.receiving = none) :
    l.postings = l.receipts.map (·.cache) := by
  rw [postings, hr]
  exact List.append_nil _

theorem Link.known_congr (h : l'.postings = l.postings) : l'.known = l.known := by
  funext i
  rw [known, known, h]

/-- The receive in progress is for the message after those received. -/
theorem Link.known_receiving (hr : l.receiving = some r) :
    l.known l.receipts.length = digests r.cache := by
  have hlast : l.postings[l.receipts.length]? = some r.cache := by
    rw [postings_some hr, List.getElem?_append_right (by rw [List.length_map]), List.length_map,
      Nat.sub_self]
    rfl
  rw [known, hlast]

/-- A receive is posted. -/
theorem Link.postings_post (hnone : l.receiving = none) (r : Receiving) :
    Link.postings { l with receiving := some r } = l.postings ++ [r.cache] := by
  rw [postings_none hnone, @postings_some { l with receiving := some r } r rfl]

theorem Link.known_post_of_lt (hnone : l.receiving = none) (r : Receiving) {i : Nat}
    (hi : i < l.postings.length) : Link.known { l with receiving := some r } i = l.known i := by
  rw [known, known, postings_post hnone, List.getElem?_append_left hi]

theorem Link.known_post_self (hnone : l.receiving = none) {r : Receiving} :
    Link.known { l with receiving := some r } l.postings.length = digests r.cache := by
  rw [known, postings_post hnone, List.getElem?_concat_length]

/-- A receive is reported done. -/
theorem Link.postings_report (hr : l.receiving = some r) :
    Link.postings { l with receiving := none, receipts := l.receipts ++ [r.receipt] } =
      l.postings := by
  rw [postings_some hr, postings_none rfl, List.map_append]
  rfl

end Postings

/-- The receiving end takes `m` bytes and sends `out`. -/
def Link.receives (l : Link) (skip : Bool) (r : Receiving) (m : Nat) (out : List UInt8) : Link :=
  { l with
    recvSkip := skip
    receiving := some r
    forward := l.forward.drop m
    backward := l.backward ++ out
    backwardSent := l.backwardSent ++ out }

theorem Link.postings_receives {l : Link} {r r' : Receiving} (hr : l.receiving = some r)
    (hcache : r'.cache = r.cache) (skip : Bool) (m : Nat) (out : List UInt8) :
    (l.receives skip r' m out).postings = l.postings := by
  rw [postings_some hr, postings_some (r := r') rfl, hcache]
  rfl

theorem Link.known_receives {l : Link} {r r' : Receiving} (hr : l.receiving = some r)
    (hcache : r'.cache = r.cache) (skip : Bool) (m : Nat) (out : List UInt8) :
    (l.receives skip r' m out).known = l.known :=
  known_congr (postings_receives hr hcache skip m out)

namespace Streams

variable {x : Exchange Node} {missing : Nat → List Nat} {l : Link} {p p' q q' : Nat}

/-- While no part of a reply has been sent, the sending end is not past its message. -/
theorem sent_le (h : Streams x missing l p p' q 0) (hlong : Long (x.messages l.receipts.length)) :
    l.sent < l.receipts.length ∨ l.sent = l.receipts.length ∧ p' = 0 ∧
      p ≤ contentPos (fingerprints x.sha256 (x.messages l.receipts.length)) := by
  have hne : backwardFrames x missing l.receipts.length ≠ [] := backwardFrame_ne_nil hlong
  have hbegun : sofar (backwardFrames x missing) l.sent p' <+:
      sofar (backwardFrames x missing) l.receipts.length 0 := by
    rw [← h.backward]
    exact List.prefix_append _ _
  rcases Nat.lt_or_eq_of_le (le_of_begun hbegun hne) with hlt | heq
  · exact Or.inl hlt
  · have hlen := hbegun.length_le
    rw [heq, sofar_zero, sofar, List.length_append, List.length_take] at hlen
    have hpos := List.length_pos_iff.mpr hne
    obtain rfl : p' = 0 := by omega
    refine Or.inr ⟨heq, rfl, ?_⟩
    rw [← heq] at hlong ⊢
    cases hsending : l.sending with
    | none => exact (h.idle hsending).1 ▸ Nat.zero_le _
    | some st => exact ((h.sender st hsending).undecided hlong).1

/-- The receiving end decides which chunks of its message are missing. -/
theorem decide (h : Streams x missing l p p' q 0) {r : Receiving} (hr : l.receiving = some r)
    (hlong : Long (x.messages l.receipts.length))
    (hq : q = contentPos (fingerprints x.sha256 (x.messages l.receipts.length)))
    {missing' : List Nat} (hreplied : Replied x.sha256 (l.known l.receipts.length)
      (x.messages l.receipts.length) missing') :
    Streams x (Function.update missing l.receipts.length missing') l p p' q 0 := by
  have hsent := h.sent_le hlong
  have hsame {i : Nat} (hi : i < l.receipts.length) :
      Function.update missing l.receipts.length missing' i = missing i :=
    Function.update_of_ne (Nat.ne_of_lt hi) _ _
  have hforward {i p : Nat} (hi : i < l.receipts.length ∨ i = l.receipts.length ∧
      p ≤ contentPos (fingerprints x.sha256 (x.messages l.receipts.length))) :
      sofar (forwardFrames x (Function.update missing l.receipts.length missing')) i p =
        sofar (forwardFrames x missing) i p := by
    refine sofar_congr (fun m hm => ?_) ?_
    · rw [forwardFrames, forwardFrames, hsame (by omega)]
    · rcases hi with hi | ⟨rfl, hp⟩
      · rw [forwardFrames, forwardFrames, hsame hi]
      · exact forwardFrame_take_congr _ _ _ hlong hp
  have hbackward {i p : Nat} (hi : i < l.receipts.length ∨ i = l.receipts.length ∧ p = 0) :
      sofar (backwardFrames x (Function.update missing l.receipts.length missing')) i p =
        sofar (backwardFrames x missing) i p := by
    refine sofar_congr (fun m hm => ?_) ?_
    · rw [backwardFrames, backwardFrames, hsame (by omega)]
    · rcases hi with hi | ⟨rfl, rfl⟩
      · rw [backwardFrames, backwardFrames, hsame hi]
      · rw [List.take_zero, List.take_zero]
  have hsender := hforward (hsent.imp_right fun h => ⟨h.1, h.2.2⟩)
  have hreceiver := hbackward (Or.inr ⟨rfl, rfl⟩)
  refine ⟨fun i => ?_, fun i hi => ?_, h.idle, fun st hst => ?_, h.waiting, ?_, ?_, ?_, ?_⟩
  · by_cases hi : i = l.receipts.length
    · rw [hi, Function.update_self]
      exact hreplied
    · rw [Function.update_of_ne hi]
      exact h.replied i
  · rw [Function.update_of_ne, h.undecided i hi]
    rintro rfl
    rw [Link.postings_some hr, List.length_append, List.length_map] at hi
    exact absurd hi (Nat.not_succ_le_self _)
  · rcases hsent with hlt | ⟨heq, rfl, -⟩
    · rw [hsame hlt]
      exact h.sender st hst
    · refine ((h.sender st hst).undecided ?_).2 _
      rw [heq]
      exact hlong
  · rw [hforward (Or.inr ⟨rfl, Nat.le_of_eq hq⟩), hsender]
    exact h.forward
  · rw [hreceiver, hbackward (hsent.imp_right fun h => ⟨h.1, h.2.1⟩)]
    exact h.backward
  · rw [hsender]
    exact h.forwardSent
  · rw [hreceiver]
    exact h.backwardSent

/-- The sending end sends the next `m` bytes of its frame and takes the next `n`
bytes of the reply. -/
theorem sends (h : Streams x missing l p p' q q') {st : SendState} {m n : Nat} (skip : Bool)
    (hsender : Sender x.sha256 (missing l.sent) (x.messages l.sent) st (p + m) (p' + n))
    (htook : l.backward.take n = ((backwardFrames x missing l.sent).drop p').take n) :
    Streams x missing { l with
      sendSkip := skip
      sending := some st
      forward := l.forward ++ ((forwardFrames x missing l.sent).drop p).take m
      backward := l.backward.drop n
      forwardSent := l.forwardSent ++ ((forwardFrames x missing l.sent).drop p).take m }
      (p + m) (p' + n) q q' where
  replied := h.replied
  undecided := h.undecided
  idle := fun hnone => absurd hnone (by simp)
  sender := by
    intro st' hst'
    obtain rfl := Option.some_inj.mp hst'
    exact hsender
  waiting := h.waiting
  forward := flight_write h.forward m
  backward := flight_read h.backward htook
  forwardSent := by rw [h.forwardSent, sofar_add]
  backwardSent := h.backwardSent

/-- The receiving end takes the next `m` bytes of its frame and sends the next `n`
bytes of the reply. -/
theorem receives (h : Streams x missing l p p' q q') {r : Receiving} (hr : l.receiving = some r)
    {m : Nat} (n : Nat) (skip : Bool) (st : RecvState)
    (htook : l.forward.take m = ((forwardFrames x missing l.receipts.length).drop q).take m) :
    Streams x missing (l.receives skip { r with st := st } m
      (((backwardFrames x missing l.receipts.length).drop q').take n)) p p' (q + m) (q' + n) := by
  have hpostings := @Link.postings_receives _ _ { r with st := st } hr rfl skip m
    (((backwardFrames x missing l.receipts.length).drop q').take n)
  refine ⟨?_, ?_, h.idle, h.sender, fun hnone => absurd hnone (by simp [Link.receives]),
    flight_read h.forward htook, flight_write h.backward n, h.forwardSent, ?_⟩
  · rw [Link.known_congr hpostings]
    exact h.replied
  · rw [hpostings]
    exact h.undecided
  · rw [Link.receives, h.backwardSent, sofar_add]

/-- The next message is handed to `isend`. -/
theorem start (h : Streams x missing l p p' q q') (hsending : l.sending = none) :
    Streams x missing { l with sending := some ⟨isendRequest (x.messages l.sent), none⟩ }
      0 0 q q' := by
  obtain ⟨rfl, rfl⟩ := h.idle hsending
  refine ⟨h.replied, h.undecided, fun hnone => absurd hnone (by simp), fun st hst => ?_, h.waiting,
    h.forward, h.backward, h.forwardSent, h.backwardSent⟩
  obtain rfl := Option.some_inj.mp hst
  exact isendRequest_sender _ _ _

/-- A receive is posted for the next message. -/
theorem post (h : Streams x missing l p p' q q') (hreceiving : l.receiving = none)
    (r : Receiving) : Streams x missing { l with receiving := some r } p p' 0 0 := by
  obtain ⟨rfl, rfl⟩ := h.waiting hreceiving
  have hpostings := Link.postings_post hreceiving r
  refine ⟨fun i => ?_, fun i hi => ?_, h.idle, h.sender, fun hnone => absurd hnone (by simp),
    h.forward, h.backward, h.forwardSent, h.backwardSent⟩
  · rcases Nat.lt_or_ge i l.postings.length with hi | hi
    · rw [Link.known_post_of_lt hreceiving r hi]
      exact h.replied i
    · rw [h.undecided i hi]
      exact .nil
  · rw [hpostings, List.length_append] at hi
    exact h.undecided i (Nat.le_of_succ_le hi)

/-- The sending end has finished a message. -/
theorem sendDone (h : Streams x missing l (forwardFrames x missing l.sent).length
      (backwardFrames x missing l.sent).length q q') :
    Streams x missing { l with sending := none, sent := l.sent + 1 } 0 0 q q' where
  replied := h.replied
  undecided := h.undecided
  idle := fun _ => ⟨rfl, rfl⟩
  sender := fun st hst => absurd hst (by simp)
  waiting := h.waiting
  forward := h.forward.trans (sofar_next l.sent)
  backward := by
    rw [← sofar_next]
    exact h.backward
  forwardSent := h.forwardSent.trans (sofar_next l.sent)
  backwardSent := h.backwardSent

/-- The receiving end has finished a message. -/
theorem recvDone (h : Streams x missing l p p'
      (forwardFrames x missing l.receipts.length).length
      (backwardFrames x missing l.receipts.length).length) {r : Receiving}
    (hr : l.receiving = some r) :
    Streams x missing { l with receiving := none, receipts := l.receipts ++ [r.receipt] }
      p p' 0 0 := by
  have hpostings := Link.postings_report hr
  refine ⟨?_, ?_, h.idle, h.sender, fun _ => ⟨rfl, rfl⟩, ?_, ?_, h.forwardSent, ?_⟩
  · rw [Link.known_congr hpostings]
    exact h.replied
  · rw [hpostings]
    exact h.undecided
  · rw [List.length_append, List.length_singleton, ← sofar_next]
    exact h.forward
  · rw [List.length_append, List.length_singleton]
    exact h.backward.trans (sofar_next _)
  · rw [List.length_append, List.length_singleton]
    exact h.backwardSent.trans (sofar_next _)

end Streams

end NetDedup.Delivery

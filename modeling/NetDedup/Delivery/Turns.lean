import Mathlib.Order.Lex
import NetDedup.Delivery.Waits

/-!
# The turns of the two ends

What is left of a message at each end: the bytes that can still cross at that end,
and what is left of its request. No event adds to that, and a turn of an end takes
some of it away unless the end can do nothing more.
-/

namespace NetDedup.Delivery

open Chunking Comm Frames Memory Store Transfer

variable {Node : Type}

/-- A link after a step of `process_send`. -/
def Link.sendTurn (l : Link) (skip : Bool) (st : SendState) (sock : Socket) : Link :=
  { l with
    sendSkip := skip
    sending := some st
    forward := l.forward ++ sock.sent
    backward := sock.inbound
    forwardSent := l.forwardSent ++ sock.sent }

/-- A link after a step of `process_recv`. -/
def Link.recvTurn (l : Link) (skip : Bool) (r : Receiving) (sock : Socket) : Link :=
  { l with
    recvSkip := skip
    receiving := some r
    forward := sock.inbound
    backward := l.backward ++ sock.sent
    backwardSent := l.backwardSent ++ sock.sent }

/-- The event finds nothing to do at the ends of the link. -/
def Link.Ignores (l : Link) : Event Node → Prop
  | .isend => l.sending ≠ none
  | .irecv _ _ => l.receiving ≠ none
  | .processSend _ => l.sending = none
  | .processRecv _ => l.receiving = none
  | .sendDone => ∀ st, l.sending = some st → st.req.stage ≠ .sendComplete
  | .recvDone => ∀ r, l.receiving = some r → r.st.req.stage ≠ .recvComplete
  | _ => True

/-- What an event does to a link. -/
inductive Link.Steps (x : Exchange Node) (l : Link) : Event Node → Link → Prop
  | isend (hsending : l.sending = none) :
      Steps x l .isend { l with sending := some ⟨isendRequest (x.messages l.sent), none⟩ }
  | irecv {size : Nat} {buffer : Mem} (hreceiving : l.receiving = none) (r : Receiving) :
      Steps x l (.irecv size buffer) { l with receiving := some r }
  | processSend {choice : Choice} {flow : Flow} {st st' : SendState} {sock : Socket}
      (skip : Bool) (hsending : l.sending = some st)
      (hadvances : SendAdvances choice flow st st' ⟨[], l.backward⟩ sock) :
      Steps x l (.processSend choice) (l.sendTurn skip st' sock)
  | processRecv {choice : Choice} {flow : Flow} {r : Receiving} {st' : RecvState} {sock : Socket}
      (skip : Bool) (hreceiving : l.receiving = some r)
      (hadvances : RecvAdvances choice flow r.st st' ⟨[], l.forward⟩ sock) :
      Steps x l (.processRecv choice) (l.recvTurn skip { r with st := st' } sock)
  | sendDone {st : SendState} (hsending : l.sending = some st)
      (hstage : st.req.stage = .sendComplete) :
      Steps x l .sendDone { l with sending := none, sent := l.sent + 1 }
  | recvDone {r : Receiving} (hreceiving : l.receiving = some r)
      (hstage : r.st.req.stage = .recvComplete) :
      Steps x l .recvDone { l with receiving := none, receipts := l.receipts ++ [r.receipt] }
  | stays {event : Event Node} (sendSkip recvSkip : Bool) (hignores : l.Ignores event) :
      Steps x l event { l with sendSkip := sendSkip, recvSkip := recvSkip }

section Events

variable [DecidableEq Node] {x : Exchange Node} {w w' : World Node} {event : Event Node}

theorem World.next_steps (h : w.next x event = some w') :
    Link.Steps x w.toLink event w'.toLink := by
  cases event with
  | isend =>
      cases hsending : w.sending with
      | none =>
          obtain rfl := Option.some_inj.mp ((w.next_isend hsending).symm.trans h)
          exact .isend hsending
      | some st =>
          rw [World.next, hsending] at h
          obtain rfl := Option.some_inj.mp h
          exact .stays w.sendSkip w.recvSkip (by simp [Link.Ignores, hsending])
  | irecv size buffer =>
      cases hreceiving : w.receiving with
      | none =>
          obtain rfl := Option.some_inj.mp ((w.next_irecv hreceiving size buffer).symm.trans h)
          exact .irecv hreceiving _
      | some r =>
          rw [World.next, hreceiving] at h
          obtain rfl := Option.some_inj.mp h
          exact .stays w.sendSkip w.recvSkip (by simp [Link.Ignores, hreceiving])
  | processSend choice =>
      cases hsending : w.sending with
      | none =>
          rw [World.next, hsending] at h
          obtain rfl := Option.some_inj.mp h
          exact .stays w.sendSkip w.recvSkip hsending
      | some st =>
          rw [w.next_processSend hsending] at h
          obtain ⟨⟨flow, st', sock, proc⟩, hstep, hnext⟩ := Option.bind_eq_some_iff.mp h
          obtain rfl := Option.some_inj.mp hnext
          exact .processSend _ hsending (processSend_advances hstep)
  | processRecv choice =>
      cases hreceiving : w.receiving with
      | none =>
          rw [World.next, hreceiving] at h
          obtain rfl := Option.some_inj.mp h
          exact .stays w.sendSkip w.recvSkip hreceiving
      | some r =>
          rw [w.next_processRecv hreceiving] at h
          obtain ⟨⟨flow, st', sock, proc⟩, hstep, hnext⟩ := Option.bind_eq_some_iff.mp h
          obtain rfl := Option.some_inj.mp hnext
          exact .processRecv _ hreceiving (processRecv_advances hstep)
  | sendDone =>
      cases hsending : w.sending with
      | none =>
          rw [World.next, hsending] at h
          obtain rfl := Option.some_inj.mp h
          exact .stays w.sendSkip w.recvSkip (by simp [Link.Ignores, hsending])
      | some st =>
          by_cases hstage : st.req.stage = .sendComplete
          · obtain rfl := Option.some_inj.mp ((w.next_sendDone hsending hstage).symm.trans h)
            exact .sendDone hsending hstage
          · simp only [World.next, hsending, if_neg hstage] at h
            obtain rfl := Option.some_inj.mp h
            exact .stays w.sendSkip w.recvSkip (by simp [Link.Ignores, hsending, hstage])
  | recvDone =>
      cases hreceiving : w.receiving with
      | none =>
          rw [World.next, hreceiving] at h
          obtain rfl := Option.some_inj.mp h
          exact .stays w.sendSkip w.recvSkip (by simp [Link.Ignores, hreceiving])
      | some r =>
          by_cases hstage : r.st.req.stage = .recvComplete
          · obtain rfl := Option.some_inj.mp ((w.next_recvDone hreceiving hstage).symm.trans h)
            exact .recvDone hreceiving hstage
          · simp only [World.next, hreceiving, if_neg hstage] at h
            obtain rfl := Option.some_inj.mp h
            exact .stays w.sendSkip w.recvSkip (by simp [Link.Ignores, hreceiving, hstage])
  | insert node fp content retEntry =>
      obtain ⟨⟨r, cache, entry⟩, -, hnext⟩ := Option.bind_eq_some_iff.mp h
      obtain rfl := Option.some_inj.mp hnext
      exact .stays w.sendSkip w.recvSkip trivial
  | setSkip send recv =>
      obtain rfl := Option.some_inj.mp h
      exact .stays _ _ trivial

end Events

/-- The most that the first messages cost. -/
def budget (x : Exchange Node) (n : Nat) : Nat :=
  ((List.range n).map fun i => (x.messages i).length + overhead (x.messages i).length).sum

/-- The bytes that have crossed at the sending end. -/
def Link.sendCount (l : Link) : Nat :=
  l.forwardSent.length + (l.backwardSent.length - l.backward.length)

/-- The bytes that have crossed at the receiving end. -/
def Link.recvCount (l : Link) : Nat :=
  l.backwardSent.length + (l.forwardSent.length - l.forward.length)

/-- Neither end has passed the message that it works on. -/
structure Link.Within (x : Exchange Node) (l : Link) : Prop where
  send : l.sendCount ≤ budget x (l.sent + 1)
  recv : l.recvCount ≤ budget x (l.receipts.length + 1)
  forward : l.forward.length ≤ l.forwardSent.length
  backward : l.backward.length ≤ l.backwardSent.length

theorem Joint.within {x : Exchange Node} {C : Set (List UInt8)} {w : World Node}
    {missing : Nat → List Nat} {p p' q q' : Nat} (h : Joint x C w missing p p' q q') :
    w.Within x := by
  have hcost (i p p' : Nat) : (sofar (forwardFrames x missing) i p).length +
      (sofar (backwardFrames x missing) i p').length ≤ budget x (i + 1) := by
    have hforward := (@sofar_begun _ (forwardFrames x missing) i i p (Nat.le_refl _)).length_le
    have hbackward := (@sofar_begun _ (backwardFrames x missing) i i p' (Nat.le_refl _)).length_le
    rw [sofar_zero] at hforward hbackward
    exact Nat.le_trans (Nat.add_le_add hforward hbackward)
      (frames_cost_le (fun j => (h.streams.replied j).toMissed) (i + 1))
  have hforward := congrArg List.length h.streams.forward
  have hbackward := congrArg List.length h.streams.backward
  have hforwardSent := congrArg List.length h.streams.forwardSent
  have hbackwardSent := congrArg List.length h.streams.backwardSent
  rw [List.length_append] at hforward hbackward
  have hsend := hcost w.sent p p'
  have hrecv := hcost w.receipts.length q q'
  constructor
  · rw [Link.sendCount]
    omega
  · rw [Link.recvCount]
    omega
  · omega
  · omega

section Rest

variable (x : Exchange Node) (l : Link) (i : Nat)

/-- What is left of message `i` at the sending end. -/
def Link.sendRest : ℕ × (ℕ ×ₗ ℕ) :=
  if i < l.sent then ⊥
  else (budget x (i + 1) - l.sendCount, (l.sending.map SendState.left).getD ⊥)

/-- What is left of message `i` at the receiving end. -/
def Link.recvRest : ℕ × (ℕ ×ₗ ℕ) :=
  if i < l.receipts.length then ⊥
  else (budget x (i + 1) - l.recvCount, (l.receiving.map fun r => r.st.left).getD ⊥)

/-- What is left of message `i`. -/
def Link.rest : (ℕ × (ℕ ×ₗ ℕ)) × ℕ × (ℕ ×ₗ ℕ) := (l.sendRest x i, l.recvRest x i)

/-- The sending end has a request for message `i`, or had one. -/
def Link.SendBegun : Prop := i < l.sent ∨ i = l.sent ∧ l.sending ≠ none

/-- The receiving end has a request for message `i`, or had one. -/
def Link.RecvBegun : Prop := i < l.receipts.length ∨ i = l.receipts.length ∧ l.receiving ≠ none

/-- Both ends have a request for message `i`, or had one. -/
structure Link.Begun : Prop where
  send : l.SendBegun i
  recv : l.RecvBegun i

end Rest

/-- What has moved at one end, of which `inbound` was to come. -/
theorem moved_count {inbound : List UInt8} {sock : Socket} (h : Moved ⟨[], inbound⟩ sock) :
    sock.inbound.length ≤ inbound.length ∧
      (sock.sent.length + (inbound.length - sock.inbound.length) = 0 → sock = ⟨[], inbound⟩) := by
  obtain ⟨out, n, hn, rfl⟩ := h
  simp only [Socket.pull, Socket.push, List.nil_append, List.length_drop] at hn ⊢
  refine ⟨Nat.sub_le .., fun hnone => ?_⟩
  obtain rfl : out = [] := List.length_eq_zero_iff.mp (by omega)
  obtain rfl : n = 0 := by omega
  rw [List.drop_zero]

/-- What is left after a turn in which `k` bytes more have crossed. -/
theorem rest_turn {flow : Flow} {b c c' k : ℕ} {left left' : ℕ ×ₗ ℕ} (hcount : c' = c + k)
    (hbound : c' ≤ b) (hle : left' ≤ left) (hlt : flow = .loop → left' < left) :
    (b - c', left') < (b - c, left) ∨
      (b - c', left') ≤ (b - c, left) ∧ flow ≠ .loop ∧ k = 0 := by
  by_cases hloop : flow = .loop
  · exact Or.inl (Prod.mk_lt_mk.mpr (Or.inr ⟨by omega, hlt hloop⟩))
  · rcases Nat.eq_zero_or_pos k with rfl | hk
    · exact Or.inr ⟨Prod.mk_le_mk.mpr ⟨by omega, hle⟩, hloop, rfl⟩
    · exact Or.inl (Prod.mk_lt_mk.mpr (Or.inl ⟨by omega, hle⟩))

section Turn

variable {x : Exchange Node} {l l' : Link} {event : Event Node} {i : Nat}

theorem Link.sendRest_done (h : i < l.sent) : l.sendRest x i = ⊥ := if_pos h

theorem Link.recvRest_done (h : i < l.receipts.length) : l.recvRest x i = ⊥ := if_pos h

theorem Link.sendRest_congr (hsent : l'.sent = l.sent) (hsending : l'.sending = l.sending)
    (hcount : l'.sendCount = l.sendCount) : l'.sendRest x i = l.sendRest x i := by
  rw [sendRest, sendRest, hsent, hsending, hcount]

theorem Link.recvRest_congr (hreceipts : l'.receipts = l.receipts)
    (hreceiving : l'.receiving = l.receiving) (hcount : l'.recvCount = l.recvCount) :
    l'.recvRest x i = l.recvRest x i := by
  rw [recvRest, recvRest, hreceipts, hreceiving, hcount]

theorem Link.Steps.sent_le (h : Link.Steps x l event l') : l.sent ≤ l'.sent := by
  cases h with
  | sendDone => exact Nat.le_succ _
  | _ => exact Nat.le_refl _

theorem Link.Steps.receipts_le (h : Link.Steps x l event l') :
    l.receipts.length ≤ l'.receipts.length := by
  cases h with
  | recvDone =>
      rw [List.length_append]
      exact Nat.le_add_right _ _
  | _ => exact Nat.le_refl _

theorem Link.Steps.sendBegun (h : Link.Steps x l event l') (hbegun : l.SendBegun i) :
    l'.SendBegun i := by
  rcases hbegun with hlt | ⟨hi, hsome⟩
  · exact Or.inl (Nat.lt_of_lt_of_le hlt h.sent_le)
  · cases h with
    | isend => exact Or.inr ⟨hi, by simp⟩
    | processSend => exact Or.inr ⟨hi, by simp [sendTurn]⟩
    | sendDone => exact Or.inl (Nat.lt_succ_of_le hi.le)
    | _ => exact Or.inr ⟨hi, hsome⟩

theorem Link.Steps.recvBegun (h : Link.Steps x l event l') (hbegun : l.RecvBegun i) :
    l'.RecvBegun i := by
  rcases hbegun with hlt | ⟨hi, hsome⟩
  · exact Or.inl (Nat.lt_of_lt_of_le hlt h.receipts_le)
  · cases h with
    | irecv => exact Or.inr ⟨hi, by simp⟩
    | processRecv => exact Or.inr ⟨hi, by simp [recvTurn]⟩
    | recvDone =>
        refine Or.inl ?_
        rw [List.length_append]
        exact Nat.lt_succ_of_le hi.le
    | _ => exact Or.inr ⟨hi, hsome⟩

theorem Link.Steps.begun (h : Link.Steps x l event l') (hbegun : l.Begun i) : l'.Begun i :=
  ⟨h.sendBegun hbegun.send, h.recvBegun hbegun.recv⟩

section Counts

variable {st : SendState} {r : Receiving} {sock : Socket} {skip : Bool}

theorem Link.sendCount_sendTurn (hwithin : l.Within x)
    (hinbound : sock.inbound.length ≤ l.backward.length) :
    (l.sendTurn skip st sock).sendCount =
      l.sendCount + (sock.sent.length + (l.backward.length - sock.inbound.length)) := by
  have hbackward := hwithin.backward
  simp only [sendCount, sendTurn, List.length_append]
  omega

theorem Link.recvCount_sendTurn : (l.sendTurn skip st sock).recvCount = l.recvCount := by
  simp only [recvCount, sendTurn, List.length_append]
  omega

theorem Link.recvCount_recvTurn (hwithin : l.Within x)
    (hinbound : sock.inbound.length ≤ l.forward.length) :
    (l.recvTurn skip r sock).recvCount =
      l.recvCount + (sock.sent.length + (l.forward.length - sock.inbound.length)) := by
  have hforward := hwithin.forward
  simp only [recvCount, recvTurn, List.length_append]
  omega

theorem Link.sendCount_recvTurn : (l.recvTurn skip r sock).sendCount = l.sendCount := by
  simp only [sendCount, recvTurn, List.length_append]
  omega

end Counts

section Ends

variable {choice : Choice} {flow : Flow} {sock : Socket} {skip : Bool}

/-- A turn of the sending end on message `i` takes some of it away, or changes nothing
and is the last one of its call. -/
theorem Link.sendRest_turn {st st' : SendState} (hwithin : l.Within x)
    (hwithin' : (l.sendTurn skip st' sock).Within x) (hsending : l.sending = some st)
    (hadvances : SendAdvances choice flow st st' ⟨[], l.backward⟩ sock) (hi : i = l.sent) :
    (l.sendTurn skip st' sock).sendRest x i < l.sendRest x i ∨
      (l.sendTurn skip st' sock).sendRest x i ≤ l.sendRest x i ∧
        flow ≠ .loop ∧ st' = st ∧ sock = ⟨[], l.backward⟩ := by
  obtain ⟨hinbound, hsame⟩ := moved_count hadvances.moved
  have hcount := @sendCount_sendTurn _ x l st' sock skip hwithin hinbound
  have hold : l.sendRest x i = (budget x (i + 1) - l.sendCount, st.left) := by
    rw [sendRest, if_neg (by omega), hsending]
    rfl
  have hnew : (l.sendTurn skip st' sock).sendRest x i =
      (budget x (i + 1) - (l.sendTurn skip st' sock).sendCount, st'.left) :=
    if_neg (Nat.not_lt.mpr (Nat.le_of_eq hi.symm))
  have hbound := hwithin'.send
  change _ ≤ budget x (l.sent + 1) at hbound
  rw [← hi] at hbound
  rw [hold, hnew]
  refine (rest_turn hcount hbound hadvances.le hadvances.lt).imp_right fun ⟨hle, hloop, hk⟩ => ?_
  exact ⟨hle, hloop, hadvances.kept hloop (hsame hk), hsame hk⟩

/-- A turn of the receiving end on message `i` takes some of it away, or moves nothing
and is the last one of its call. -/
theorem Link.recvRest_turn {r : Receiving} {st' : RecvState} (hwithin : l.Within x)
    (hwithin' : (l.recvTurn skip { r with st := st' } sock).Within x)
    (hreceiving : l.receiving = some r)
    (hadvances : RecvAdvances choice flow r.st st' ⟨[], l.forward⟩ sock)
    (hi : i = l.receipts.length) :
    (l.recvTurn skip { r with st := st' } sock).recvRest x i < l.recvRest x i ∨
      (l.recvTurn skip { r with st := st' } sock).recvRest x i ≤ l.recvRest x i ∧
        flow ≠ .loop ∧ sock = ⟨[], l.forward⟩ := by
  obtain ⟨hinbound, hsame⟩ := moved_count hadvances.moved
  have hcount := @recvCount_recvTurn _ x l { r with st := st' } sock skip hwithin hinbound
  have hold : l.recvRest x i = (budget x (i + 1) - l.recvCount, r.st.left) := by
    rw [recvRest, if_neg (by omega), hreceiving]
    rfl
  have hnew : (l.recvTurn skip { r with st := st' } sock).recvRest x i =
      (budget x (i + 1) - (l.recvTurn skip { r with st := st' } sock).recvCount, st'.left) :=
    if_neg (Nat.not_lt.mpr (Nat.le_of_eq hi.symm))
  have hbound := hwithin'.recv
  change _ ≤ budget x (l.receipts.length + 1) at hbound
  rw [← hi] at hbound
  rw [hold, hnew]
  refine (rest_turn hcount hbound hadvances.le hadvances.lt).imp_right fun ⟨hle, hloop, hk⟩ => ?_
  exact ⟨hle, hloop, hsame hk⟩

end Ends

/-- No event adds to what is left at the sending end. -/
theorem Link.Steps.sendRest_le (h : Link.Steps x l event l') (hbegun : l.Begun i)
    (hwithin : l.Within x) (hwithin' : l'.Within x) : l'.sendRest x i ≤ l.sendRest x i := by
  rcases hbegun.send with hdone | ⟨hi, hsome⟩
  · rw [sendRest_done (Nat.lt_of_lt_of_le hdone h.sent_le)]
    exact bot_le
  · cases h with
    | isend hsending => exact absurd hsending hsome
    | irecv => exact (sendRest_congr rfl rfl rfl).le
    | processSend skip hsending hadvances =>
        exact (sendRest_turn hwithin hwithin' hsending hadvances hi).elim le_of_lt fun h => h.1
    | processRecv => exact (sendRest_congr (by rfl) (by rfl) sendCount_recvTurn).le
    | sendDone =>
        rw [sendRest_done (Nat.lt_succ_of_le (Nat.le_of_eq hi))]
        exact bot_le
    | recvDone => exact (sendRest_congr rfl rfl rfl).le
    | stays => exact (sendRest_congr rfl rfl rfl).le

/-- No event adds to what is left at the receiving end. -/
theorem Link.Steps.recvRest_le (h : Link.Steps x l event l') (hbegun : l.Begun i)
    (hwithin : l.Within x) (hwithin' : l'.Within x) : l'.recvRest x i ≤ l.recvRest x i := by
  rcases hbegun.recv with hdone | ⟨hi, hsome⟩
  · rw [recvRest_done (Nat.lt_of_lt_of_le hdone h.receipts_le)]
    exact bot_le
  · cases h with
    | isend => exact (recvRest_congr rfl rfl rfl).le
    | irecv hreceiving => exact absurd hreceiving hsome
    | processSend => exact (recvRest_congr (by rfl) (by rfl) recvCount_sendTurn).le
    | processRecv skip hreceiving hadvances =>
        exact (recvRest_turn hwithin hwithin' hreceiving hadvances hi).elim le_of_lt fun h => h.1
    | sendDone => exact (recvRest_congr rfl rfl rfl).le
    | recvDone =>
        rw [recvRest_done (by rw [List.length_append]; exact Nat.lt_succ_of_le hi.le)]
        exact bot_le
    | stays => exact (recvRest_congr rfl rfl rfl).le

theorem Link.Steps.rest_le (h : Link.Steps x l event l') (hbegun : l.Begun i)
    (hwithin : l.Within x) (hwithin' : l'.Within x) : l'.rest x i ≤ l.rest x i :=
  Prod.mk_le_mk.mpr ⟨h.sendRest_le hbegun hwithin hwithin', h.recvRest_le hbegun hwithin hwithin'⟩

theorem Link.SendDone.congr (hdone : l.SendDone i) (hsent : l'.sent = l.sent)
    (hsending : l'.sending = l.sending) : l'.SendDone i := by
  rw [SendDone, hsent, hsending]
  exact hdone

theorem Link.SendRests.congr (hrests : l.SendRests i) (hsent : l'.sent = l.sent)
    (hsending : l'.sending = l.sending) (hbackward : l'.backward = l.backward) :
    l'.SendRests i := by
  refine hrests.imp (fun hdone => hdone.congr hsent hsending) ?_
  rw [hsent, hsending, hbackward]
  exact id

/-- An end that is done with a message stays so. -/
theorem Link.Steps.sendDone_stays (h : Link.Steps x l event l') (hdone : l.SendDone i) :
    l'.SendDone i := by
  rcases hdone with hlt | ⟨hi, st, hst, hstage⟩
  · exact Or.inl (Nat.lt_of_lt_of_le hlt h.sent_le)
  · cases h with
    | isend hsending => exact absurd (hsending.symm.trans hst) (by simp)
    | processSend skip hsending hadvances =>
        obtain rfl := Option.some_inj.mp (hsending.symm.trans hst)
        exact Or.inr ⟨hi, _, rfl, SendState.complete_of_left_le hadvances.le hstage⟩
    | sendDone => exact Or.inl (Nat.lt_succ_of_le hi.le)
    | _ => exact Or.inr ⟨hi, st, hst, hstage⟩

theorem Link.Steps.recvDone_stays (h : Link.Steps x l event l') (hdone : l.RecvDone i) :
    l'.RecvDone i := by
  rcases hdone with hlt | ⟨hi, r, hr, hstage⟩
  · exact Or.inl (Nat.lt_of_lt_of_le hlt h.receipts_le)
  · cases h with
    | irecv hreceiving => exact absurd (hreceiving.symm.trans hr) (by simp)
    | processRecv skip hreceiving hadvances =>
        obtain rfl := Option.some_inj.mp (hreceiving.symm.trans hr)
        exact Or.inr ⟨hi, _, rfl, RecvState.complete_of_left_le hadvances.le hstage⟩
    | recvDone =>
        refine Or.inl ?_
        rw [List.length_append]
        exact Nat.lt_succ_of_le hi.le
    | _ => exact Or.inr ⟨hi, r, hr, hstage⟩

/-- An `isend` begins the message that is due. -/
theorem Link.Steps.begins_send (h : Link.Steps x l .isend l') (hi : i ≤ l.sent) :
    l'.SendBegun i := by
  rcases Nat.lt_or_eq_of_le hi with hlt | heq
  · exact Or.inl (Nat.lt_of_lt_of_le hlt h.sent_le)
  · cases h with
    | isend => exact Or.inr ⟨heq, by simp⟩
    | stays _ _ hignores => exact Or.inr ⟨heq, hignores⟩

/-- An `irecv` begins the message that is due. -/
theorem Link.Steps.begins_recv {size : Nat} {buffer : Mem}
    (h : Link.Steps x l (.irecv size buffer) l') (hi : i ≤ l.receipts.length) :
    l'.RecvBegun i := by
  rcases Nat.lt_or_eq_of_le hi with hlt | heq
  · exact Or.inl (Nat.lt_of_lt_of_le hlt h.receipts_le)
  · cases h with
    | irecv => exact Or.inr ⟨heq, by simp⟩
    | stays _ _ hignores => exact Or.inr ⟨heq, hignores⟩

/-- A `test` of a completed send reports it. -/
theorem Link.Steps.reports_send (h : Link.Steps x l .sendDone l') (hdone : l.SendDone i) :
    i < l'.sent := by
  rcases hdone with hlt | ⟨hi, st, hst, hstage⟩
  · exact Nat.lt_of_lt_of_le hlt h.sent_le
  · cases h with
    | sendDone => exact Nat.lt_succ_of_le hi.le
    | stays _ _ hignores => exact absurd hstage (hignores st hst)

/-- A `test` of a completed receive reports it. -/
theorem Link.Steps.reports_recv (h : Link.Steps x l .recvDone l') (hdone : l.RecvDone i) :
    i < l'.receipts.length := by
  rcases hdone with hlt | ⟨hi, r, hr, hstage⟩
  · exact Nat.lt_of_lt_of_le hlt h.receipts_le
  · cases h with
    | recvDone =>
        rw [List.length_append]
        exact Nat.lt_succ_of_le hi.le
    | stays _ _ hignores => exact absurd hstage (hignores r hr)

/-- A turn of the sending end takes some of what is left away, or leaves it with nothing
to do, and so it stays for as long as nothing is taken away. -/
theorem Link.Steps.sendRests (h : Link.Steps x l event l') (hbegun : l.Begun i)
    (hwithin : l.Within x) (hwithin' : l'.Within x)
    (hmeet : l.SendRests i → l.RecvRests i → l.SendDone i ∧ l.RecvDone i)
    (hrests : l.SendRests i ∨ ∃ choice, event = .processSend choice ∧ choice.Ready) :
    l'.rest x i < l.rest x i ∨ l'.SendRests i := by
  have hrecv := h.recvRest_le hbegun hwithin hwithin'
  have hsend := h.sendRest_le hbegun hwithin hwithin'
  rcases hbegun.send with hdone | ⟨hi, hsome⟩
  · exact Or.inr (Or.inl (Or.inl (Nat.lt_of_lt_of_le hdone h.sent_le)))
  · have hold (hother : ∀ choice, event ≠ .processSend choice) : l.SendRests i :=
      hrests.resolve_right fun ⟨choice, hevent, _⟩ => hother choice hevent
    cases h with
    | isend hsending => exact absurd hsending hsome
    | irecv => exact Or.inr ((hold (by simp)).congr rfl rfl rfl)
    | recvDone => exact Or.inr ((hold (by simp)).congr rfl rfl rfl)
    | sendDone => exact Or.inr (Or.inl (Or.inl (Nat.lt_succ_of_le (Nat.le_of_eq hi))))
    | stays _ _ hignores =>
        refine Or.inr ((hold ?_).congr rfl rfl rfl)
        rintro choice rfl
        exact hsome hignores
    | processSend skip hsending hadvances =>
        rcases sendRest_turn hwithin hwithin' hsending hadvances hi with
          hlt | ⟨-, hloop, rfl, hsame⟩
        · exact Or.inl (Prod.mk_lt_mk.mpr (Or.inl ⟨hlt, hrecv⟩))
        · refine Or.inr ?_
          rcases hrests with hrests | ⟨choice, hevent, hready⟩
          · exact hrests.congr rfl hsending.symm (by rw [sendTurn, hsame])
          · obtain rfl := Event.processSend.inj hevent
            rcases hadvances.waits hloop hsame hready with hdone | ⟨hawaits, hnone⟩
            · exact Or.inl (Or.inr ⟨hi, _, rfl, hdone⟩)
            · exact Or.inr ⟨hi, _, rfl, hawaits, by rw [sendTurn, hsame]; exact hnone⟩
    | processRecv skip hreceiving hadvances =>
        rcases hold (by simp) with hdone | ⟨-, st, hst, hawaits, hnone⟩
        · exact Or.inr (Or.inl (hdone.congr rfl rfl))
        · rcases hbegun.recv with hpast | ⟨hj, -⟩
          · have hboth := hmeet (Or.inr ⟨hi, st, hst, hawaits, hnone⟩) (Or.inl (Or.inl hpast))
            exact Or.inr (Or.inl (hboth.1.congr rfl rfl))
          · rcases recvRest_turn hwithin hwithin' hreceiving hadvances hj with hlt | ⟨-, -, hsame⟩
            · exact Or.inl (Prod.mk_lt_mk.mpr (Or.inr ⟨hsend, hlt⟩))
            · refine Or.inr (Or.inr ⟨hi, st, hst, hawaits, ?_⟩)
              rw [recvTurn, hsame, hnone]
              rfl

/-- A turn of the receiving end takes some of what is left away, or finds it with nothing
to do. -/
theorem Link.Steps.recvRests {choice : Choice} (h : Link.Steps x l (.processRecv choice) l')
    (hready : choice.Ready) (hbegun : l.Begun i) (hwithin : l.Within x)
    (hwithin' : l'.Within x) : l'.rest x i < l.rest x i ∨ l.RecvRests i := by
  have hsend := h.sendRest_le hbegun hwithin hwithin'
  rcases hbegun.recv with hdone | ⟨hi, hsome⟩
  · exact Or.inr (Or.inl (Or.inl hdone))
  · cases h with
    | processRecv skip hreceiving hadvances =>
        rcases recvRest_turn hwithin hwithin' hreceiving hadvances hi with
          hlt | ⟨-, hloop, hsame⟩
        · exact Or.inl (Prod.mk_lt_mk.mpr (Or.inr ⟨hsend, hlt⟩))
        · rcases hadvances.waits hloop hsame hready with hdone | ⟨hawaits, hnone⟩
          · exact Or.inr (Or.inl (Or.inr ⟨hi, _, hreceiving, hdone⟩))
          · exact Or.inr (Or.inr ⟨hi, _, hreceiving, hawaits, hnone⟩)
    | stays _ _ hignores => exact absurd hignores hsome

end Turn

end NetDedup.Delivery

import Mathlib.Data.Prod.Lex
import Mathlib.Order.WellFounded
import NetDedup.Transfer.HeaderTransfer
import NetDedup.Transfer.Stages

/-!
# Progress of a request

Whatever the state of a request and of its peer, a step that is not the last one
of its call comes closer to the end of the request, and a step that is the last one
either moves bytes or leaves the request as it was. When the system lets the
step go on, the latter is a wait for bytes that have not arrived.
-/

namespace NetDedup.Transfer

open Chunking Memory Store

/-- The call moves what it can. -/
def Outcome.Ready (o : Outcome) : Prop := ∃ n, o = .ready n

/-- Nothing but the peer keeps the step from going on. -/
structure Choice.Ready (choice : Choice) : Prop where
  socket : choice.socket.Ready
  trylock : choice.trylock = true

/-- Bytes have been sent and read. -/
def Moved (sock sock' : Socket) : Prop :=
  ∃ out n, n ≤ sock.inbound.length ∧ sock' = (sock.push out).pull n

theorem Moved.refl (sock : Socket) : Moved sock sock := by
  refine ⟨[], 0, Nat.zero_le _, ?_⟩
  rw [Socket.push_nil, Socket.pull_zero]

theorem Moved.push (sock : Socket) (out : List UInt8) : Moved sock (sock.push out) :=
  ⟨out, 0, Nat.zero_le _, rfl⟩

theorem Moved.pull (sock : Socket) {n : Nat} (hn : n ≤ sock.inbound.length) :
    Moved sock (sock.pull n) := by
  refine ⟨[], n, hn, ?_⟩
  rw [Socket.push_nil]

theorem Socket.push_ne {sock : Socket} {out : List UInt8} (h : 0 < out.length) :
    sock.push out ≠ sock := by
  intro heq
  have hlen := congrArg (fun s => s.sent.length) heq
  simp only [Socket.push, List.length_append] at hlen
  omega

theorem Socket.pull_ne {sock : Socket} {n : Nat} (hn : n ≤ sock.inbound.length) (hpos : 0 < n) :
    sock.pull n ≠ sock := by
  intro heq
  have hlen := congrArg (fun s => s.inbound.length) heq
  simp only [Socket.pull, List.length_drop] at hlen
  omega

section Calls

variable {R : Type} {sock sock' : Socket} {o : Outcome} {region region' : Mem} {limit pos len : Nat}
  {res : Option Nat}

theorem send_moves (h : send sock o region limit pos len = some (res, sock')) :
    (res = none ∧ sock' = sock ∧ ¬ o.Ready) ∨
    ∃ n, res = some n ∧ (0 < len → 0 < n) ∧ sock' = sock.push (read region pos n) := by
  unfold send at h
  cases hsent : o.sent len with
  | none =>
      rw [hsent] at h
      obtain ⟨rfl, rfl⟩ := Prod.mk.inj (Option.some_inj.mp h)
      refine Or.inl ⟨rfl, rfl, ?_⟩
      rintro ⟨k, rfl⟩
      exact absurd hsent (by simp [Outcome.sent])
  | some n =>
      rw [hsent] at h
      simp only at h
      split_ifs at h
      obtain ⟨rfl, rfl⟩ := Prod.mk.inj (Option.some_inj.mp h)
      refine Or.inr ⟨n, rfl, fun hlen => ?_, rfl⟩
      cases o with
      | ready k =>
          obtain rfl := Option.some_inj.mp hsent
          exact Nat.lt_min.mpr ⟨Nat.succ_pos k, hlen⟩
      | wouldBlock => exact absurd hsent (by simp [Outcome.sent])
      | failed errno => exact absurd hsent (by simp [Outcome.sent])
      | closed => exact absurd hsent (by simp [Outcome.sent])

theorem recv_moves (h : recv sock o region limit pos len = some (res, sock', region')) :
    (res = none ∧ sock' = sock ∧ region' = region ∧
      (o.Ready → 0 < len ∧ sock.inbound = [])) ∨
    ∃ n, res = some n ∧ n ≤ sock.inbound.length ∧ (o.Ready → 0 < len → 0 < n) ∧
      sock' = sock.pull n ∧ region' = write region pos (sock.inbound.take n) := by
  unfold recv at h
  cases hres : o.received len sock.inbound.length with
  | none =>
      rw [hres] at h
      simp only [Option.some.injEq, Prod.mk.injEq] at h
      obtain ⟨rfl, rfl, rfl⟩ := h
      refine Or.inl ⟨rfl, rfl, rfl, fun ⟨k, hk⟩ => ?_⟩
      subst hk
      rw [Outcome.received] at hres
      split_ifs at hres with hlen havail
      exact ⟨Nat.pos_of_ne_zero hlen, List.length_eq_zero_iff.mp havail⟩
  | some n =>
      rw [hres] at h
      simp only at h
      split_ifs at h with hbounds
      simp only [Option.some.injEq, Prod.mk.injEq] at h
      obtain ⟨rfl, rfl, rfl⟩ := h
      refine Or.inr ⟨n, rfl, (o.received_le hres).2, fun ⟨k, hk⟩ hlen => ?_, rfl, rfl⟩
      subst hk
      rw [Outcome.received, if_neg (Nat.ne_of_gt hlen)] at hres
      split_ifs at hres with havail
      obtain rfl := Option.some_inj.mp hres
      omega

/-- A stage function that returned `r` has ended, has moved bytes, is held up by the
system, or waits for some of `awaited` bytes. -/
structure StageWaits (awaited : Nat) (o : Outcome) (r : Int) (sock sock' : Socket) : Prop where
  ret : r = 0 ∨ r = 1
  moved : Moved sock sock'
  waits : r ≠ 1 → sock' = sock → o.Ready → 0 < awaited ∧ sock.inbound = []

/-- It leaves its request alone when it neither ends nor moves a byte. -/
structure StageMoves (awaited : Nat) (o : Outcome) (r : Int) (req req' : R)
    (sock sock' : Socket) : Prop extends StageWaits awaited o r sock sock' where
  kept : r ≠ 1 → sock' = sock → req' = req

variable {r : Int} {req req' : R}

/-- What a stage does to a field of its request. -/
theorem StageMoves.map {S : Type} {awaited : Nat} (h : StageMoves awaited o r req req' sock sock')
    (g : R → S) : StageMoves awaited o r (g req) (g req') sock sock' where
  toStageWaits := h.toStageWaits
  kept := fun hr hsock => congrArg g (h.kept hr hsock)

/-- A stage that ends with a request that does not matter any more. -/
theorem StageWaits.ends {awaited : Nat} (hmoved : Moved sock sock') :
    StageWaits awaited o 1 sock sock' where
  ret := Or.inr rfl
  moved := hmoved
  waits := fun hr => absurd rfl hr

theorem StageMoves.ends {awaited : Nat} (hmoved : Moved sock sock') :
    StageMoves awaited o 1 req req' sock sock' where
  toStageWaits := .ends hmoved
  kept := fun hr => absurd rfl hr

/-- A stage whose `send` asks for some bytes unless it ends. -/
theorem StageMoves.of_send (hret : r = 0 ∨ r = 1)
    (hsend : send sock o region limit pos len = some (res, sock'))
    (hlen : ∀ n, res = some n → r = 1 ∨ 0 < len) (hnone : res = none → req' = req) :
    StageMoves 0 o r req req' sock sock' := by
  rcases send_moves hsend with ⟨hres, rfl, hready⟩ | ⟨n, hres, hpos, rfl⟩
  · exact ⟨⟨hret, .refl _, fun _ _ hr => absurd hr hready⟩, fun _ _ => hnone hres⟩
  · have hne (hr : r ≠ 1) : sock.push (read region pos n) ≠ sock := by
      refine Socket.push_ne ?_
      rw [length_read]
      exact hpos ((hlen n hres).resolve_left hr)
    exact ⟨⟨hret, .push _ _, fun hr hsock => absurd hsock (hne hr)⟩,
      fun hr hsock => absurd hsock (hne hr)⟩

/-- A stage whose `recv` asks for some bytes unless it ends. -/
theorem StageWaits.of_recv (hret : r = 0 ∨ r = 1)
    (hrecv : recv sock o region limit pos len = some (res, sock', region'))
    (hlen : ∀ n, res = some n → r = 1 ∨ 0 < len) : StageWaits len o r sock sock' := by
  rcases recv_moves hrecv with ⟨-, rfl, -, hready⟩ | ⟨n, hres, hn, hpos, rfl, -⟩
  · exact ⟨hret, .refl _, fun _ _ => hready⟩
  · refine ⟨hret, .pull _ hn, fun hr hsock hready => ?_⟩
    exact absurd hsock (Socket.pull_ne hn (hpos hready ((hlen n hres).resolve_left hr)))

theorem StageMoves.of_recv (hret : r = 0 ∨ r = 1)
    (hrecv : recv sock o region limit pos len = some (res, sock', region'))
    (hlen : ∀ n, res = some n → r = 1 ∨ 0 < len)
    (hnone : region' = region → (res = none ∨ res = some 0) → r ≠ 1 → req' = req) :
    StageMoves len o r req req' sock sock' := by
  refine ⟨.of_recv hret hrecv hlen, fun hr hsock => ?_⟩
  rcases recv_moves hrecv with ⟨hres, -, hregion, -⟩ | ⟨n, hres, hn, -, rfl, hregion⟩
  · exact hnone hregion (Or.inl hres) hr
  · rcases Nat.eq_zero_or_pos n with rfl | hpull
    · rw [List.take_zero, write_nil] at hregion
      exact hnone hregion (Or.inr hres) hr
    · exact absurd hsock (Socket.pull_ne hn hpull)

end Calls

section Fields

variable {sock sock' : Socket} {o : Outcome} {region region' head head' : Mem}
  {limit base total prev prev' : Nat} {r : Int} {f : HeaderField}

theorem sendBlock_moves (h : sendBlock region limit base total prev sock o =
    some (r, prev', sock')) : StageMoves 0 o r prev prev' sock sock' := by
  obtain ⟨⟨res, sock₁⟩, hsend, hrest⟩ := Option.bind_eq_some_iff.mp h
  cases res with
  | none =>
      obtain ⟨rfl, rfl, rfl⟩ : 0 = r ∧ prev = prev' ∧ sock₁ = sock' := by simpa using hrest
      exact .of_send (Or.inl rfl) hsend (by simp) fun _ => rfl
  | some n =>
      simp only at hrest
      split_ifs at hrest with hn
      · obtain ⟨rfl, -, rfl⟩ : 0 = r ∧ _ ∧ sock₁ = sock' := by simpa using hrest
        exact .of_send (Or.inl rfl) hsend (fun _ _ => Or.inr (Nat.zero_lt_of_lt hn)) (by simp)
      · obtain ⟨rfl, -, rfl⟩ : 1 = r ∧ _ ∧ sock₁ = sock' := by simpa using hrest
        exact .of_send (Or.inr rfl) hsend (fun _ _ => Or.inl rfl) (by simp)

theorem sendHeaderField_moves (h : sendHeaderField f head sock o = some (r, head', sock')) :
    StageMoves 0 o r head head' sock sock' := by
  obtain ⟨⟨res, sock₁⟩, hsend, hrest⟩ := Option.bind_eq_some_iff.mp h
  cases res with
  | none =>
      obtain ⟨rfl, rfl, rfl⟩ : 0 = r ∧ head = head' ∧ sock₁ = sock' := by simpa using hrest
      exact .of_send (Or.inl rfl) hsend (by simp) fun _ => rfl
  | some n =>
      simp only at hrest
      split_ifs at hrest with hn
      · obtain ⟨rfl, -, rfl⟩ : 0 = r ∧ _ ∧ sock₁ = sock' := by simpa using hrest
        exact .of_send (Or.inl rfl) hsend (fun _ _ => Or.inr (Nat.zero_lt_of_lt hn)) (by simp)
      · obtain ⟨rfl, -, rfl⟩ : 1 = r ∧ _ ∧ sock₁ = sock' := by simpa using hrest
        exact .of_send (Or.inr rfl) hsend (fun _ _ => Or.inl rfl) (by simp)

theorem recvBlock_moves (h : recvBlock region limit base total prev sock o =
    some (r, prev', region', sock')) :
    StageMoves (u64Sub total prev) o r (prev, region) (prev', region') sock sock' := by
  obtain ⟨⟨res, sock₁, region₁⟩, hrecv, hrest⟩ := Option.bind_eq_some_iff.mp h
  cases res with
  | none =>
      obtain ⟨rfl, rfl, rfl, rfl⟩ : 0 = r ∧ prev = prev' ∧ region₁ = region' ∧ sock₁ = sock' := by
        simpa using hrest
      exact .of_recv (Or.inl rfl) hrecv (by simp) fun heq _ _ => by rw [heq]
  | some n =>
      simp only at hrest
      split_ifs at hrest with hn
      · obtain ⟨rfl, rfl, rfl, rfl⟩ :
            0 = r ∧ prev + n = prev' ∧ region₁ = region' ∧ sock₁ = sock' := by
          simpa using hrest
        refine .of_recv (Or.inl rfl) hrecv (fun _ _ => Or.inr (Nat.zero_lt_of_lt hn))
          fun heq hres _ => ?_
        obtain rfl : n = 0 := by simpa using hres
        rw [heq, Nat.add_zero]
      · obtain ⟨rfl, -, -, rfl⟩ : 1 = r ∧ _ ∧ _ ∧ sock₁ = sock' := by simpa using hrest
        exact .of_recv (Or.inr rfl) hrecv (fun _ _ => Or.inl rfl) fun _ _ hr => absurd rfl hr

theorem recvHeaderField_waits (h : recvHeaderField f head sock o = some (r, head', sock')) :
    StageWaits (u64Sub f.size (loadInt head f.offsetPos)) o r sock sock' := by
  obtain ⟨⟨res, sock₁, region₁⟩, hrecv, hrest⟩ := Option.bind_eq_some_iff.mp h
  cases res with
  | none =>
      obtain ⟨rfl, -, rfl⟩ : 0 = r ∧ _ ∧ sock₁ = sock' := by simpa using hrest
      exact .of_recv (Or.inl rfl) hrecv (by simp)
  | some n =>
      simp only at hrest
      split_ifs at hrest with hn
      · obtain ⟨rfl, -, rfl⟩ : 0 = r ∧ _ ∧ sock₁ = sock' := by simpa using hrest
        exact .of_recv (Or.inl rfl) hrecv fun _ _ => Or.inr (Nat.zero_lt_of_lt hn)
      · obtain ⟨rfl, -, rfl⟩ : 1 = r ∧ _ ∧ sock₁ = sock' := by simpa using hrest
        exact .of_recv (Or.inr rfl) hrecv fun _ _ => Or.inl rfl

end Fields

/-- What a step does to a request, of which `left` measures what is left: it comes
closer to the end unless it returns, and when it returns without a byte moved it
is held up by the system, is `done`, or waits for some of `awaited` bytes. It never
returns an error, and 1 only when it is `done`. -/
structure Advances {S : Type} (left : S → ℕ ×ₗ ℕ) (done : Prop) (awaited : Nat) (choice : Choice)
    (flow : Flow) (st st' : S) (sock sock' : Socket) : Prop where
  moved : Moved sock sock'
  le : left st' ≤ left st
  lt : flow = .loop → left st' < left st
  waits : flow ≠ .loop → sock' = sock → choice.Ready → done ∨ 0 < awaited ∧ sock.inbound = []
  ret : ∀ r, flow = .ret r → r = 0 ∨ r = 1 ∧ done

/-- A step that only goes on. -/
theorem Advances.goes {S : Type} {left : S → ℕ ×ₗ ℕ} {done : Prop} {awaited : Nat}
    {choice : Choice} {st st' : S} {sock sock' : Socket} (hmoved : Moved sock sock')
    (hlt : left st' < left st) : Advances left done awaited choice .loop st st' sock sock' where
  moved := hmoved
  le := hlt.le
  lt := fun _ => hlt
  waits := fun h => absurd rfl h
  ret := fun _ h => absurd h (by simp)

/-- A step that returns. -/
theorem Advances.returns {S : Type} {left : S → ℕ ×ₗ ℕ} {done : Prop} {awaited : Nat}
    {choice : Choice} {r : Int} {st st' : S} {sock sock' : Socket} (hret : r = 0 ∨ r = 1 ∧ done)
    (hmoved : Moved sock sock') (hleft : left st' = left st)
    (hwaits : sock' = sock → choice.Ready → done ∨ 0 < awaited ∧ sock.inbound = []) :
    Advances left done awaited choice (.ret r) st st' sock sock' where
  moved := hmoved
  le := hleft.le
  lt := fun h => absurd h (by simp)
  waits := fun _ => hwaits
  ret := fun _ h => Flow.ret.inj h ▸ hret

end NetDedup.Transfer

import NetDedup.Transfer.RecvSteps
import NetDedup.Transfer.SendSteps

/-!
# The socket call of a stage

The `send` or `recv` that a stage makes next, beside the block of bytes it
moves and the part that is saved as moved. All stages treat the result alike:
a failure goes to the test of `errno`, a short count is added to the saved
progress, a full count ends the block.
-/

namespace NetDedup.Transfer

open Chunking Memory Store

/-- A call of `send` or `recv` for `len` bytes from `addr` on, made to move a
block of `total` bytes at `base` of which `moved` are saved as moved. -/
structure StageCall where
  isRecv : Bool
  region : Mem
  limit : Nat
  addr : Nat
  len : Nat
  base : Nat
  total : Nat
  moved : Nat

namespace StageCall

/-- The call of a stage that moves the rest of a block. -/
def ofBlock (isRecv : Bool) (region : Mem) (limit base total prev : Nat) : StageCall :=
  ⟨isRecv, region, limit, base + prev, u64Sub total prev, base, total, prev⟩

/-- The call of a header stage, whose address counts headers. -/
def ofHeader (isRecv : Bool) (f : HeaderField) (head : Mem) : StageCall :=
  let prev := loadInt head f.offsetPos
  ⟨isRecv, head, headSize, (f.pos + prev * f.size) % 2 ^ 64, u64Sub f.size prev, f.pos, f.size,
    prev⟩

section Call

variable (c : StageCall)

/-- What the call returns; none for -1. -/
def result (o : Outcome) (sock : Socket) : Option Nat :=
  if c.isRecv then o.received c.len sock.inbound.length else o.sent c.len

/-- The socket after the call has moved `n` bytes. -/
def after (sock : Socket) (n : Nat) : Socket :=
  if c.isRecv then sock.pull n else sock.push (read c.region c.addr n)

/-- The region after the call has moved `n` bytes. -/
def filled (bs : List UInt8) : Mem := write c.region c.addr bs

/-- The call goes on where the saved progress ends. -/
def Resumes : Prop := c.addr = c.base + c.moved ∧ c.len = c.total - c.moved

/-- The block lies in its region, and is not finished. -/
structure Valid : Prop where
  progress : c.moved < c.total ∨ c.moved = 0
  block_le : c.base + c.total ≤ c.limit
  limit_lt : c.limit < 2 ^ 64

/-- Every count the call may return stays in the region. -/
def InRange : Prop := ∀ n ≤ c.len, InBounds c.limit c.addr n

/-- The same block with `n` more bytes saved as moved. -/
structure Progressed (c' : StageCall) (n : Nat) : Prop where
  isRecv : c'.isRecv = c.isRecv
  base : c'.base = c.base
  total : c'.total = c.total
  moved : c'.moved = c.moved + n

end Call

section Block

variable {isRecv : Bool} {region : Mem} {limit base total prev : Nat}

theorem ofBlock_resumes (hv : (ofBlock isRecv region limit base total prev).Valid) :
    (ofBlock isRecv region limit base total prev).Resumes := by
  have hprogress := hv.progress
  have hle := hv.block_le
  have hlt := hv.limit_lt
  simp only [ofBlock] at hprogress hle hlt
  exact ⟨rfl, u64Sub_of_le (by omega) (by omega)⟩

theorem ofBlock_inRange (hv : (ofBlock isRecv region limit base total prev).Valid) :
    (ofBlock isRecv region limit base total prev).InRange := by
  intro n hn
  obtain ⟨-, hlen⟩ := ofBlock_resumes hv
  have hle := hv.block_le
  rw [hlen] at hn
  simp only [ofBlock] at hn hle ⊢
  have hprogress := hv.progress
  simp only [ofBlock] at hprogress
  exact Or.inr (by omega)

/-- After a short count there are bytes left. -/
theorem ofBlock_left (hv : (ofBlock isRecv region limit base total prev).Valid) {n : Nat}
    (hn : n < (ofBlock isRecv region limit base total prev).len) :
    u64Sub total (prev + n) ≠ 0 := by
  obtain ⟨-, hlen⟩ := ofBlock_resumes hv
  have hle := hv.block_le
  have hlt := hv.limit_lt
  rw [hlen] at hn
  simp only [ofBlock] at hn hle hlt
  rw [u64Sub_of_le (by omega) (by omega)]
  omega

end Block

section Header

variable {isRecv : Bool} {f : HeaderField} (hf : f.Ok) {head : Mem}

include hf

theorem ofHeader_moved_lt (hv : (ofHeader isRecv f head).Valid) :
    loadInt head f.offsetPos < f.size := by
  have hsize := hf.size_ge
  rcases hv.progress with hlt | hzero
  · exact hlt
  · exact Nat.lt_of_le_of_lt (Nat.le_of_eq hzero) (by omega)

theorem ofHeader_inRange (hv : (ofHeader isRecv f head).Valid) :
    (ofHeader isRecv f head).InRange := by
  intro n hn
  have hlt := ofHeader_moved_lt hf hv
  have hsize := hf.size_le
  have hsub : u64Sub f.size (loadInt head f.offsetPos) = f.size - loadInt head f.offsetPos :=
    u64Sub_of_le (Nat.le_of_lt hlt) (by omega)
  obtain ⟨hmod, -, hbounds⟩ := hf.resume_bounds hlt (n := n) (hsub ▸ hn)
  simp only [ofHeader, hmod]
  exact hbounds

theorem ofHeader_len (hv : (ofHeader isRecv f head).Valid) :
    (ofHeader isRecv f head).len = f.size - loadInt head f.offsetPos := by
  have hlt := ofHeader_moved_lt hf hv
  have hsize := hf.size_le
  change u64Sub f.size (loadInt head f.offsetPos) = _
  exact u64Sub_of_le (Nat.le_of_lt hlt) (by omega)

/-- A header resumes at the right place only when it has not begun. -/
theorem ofHeader_resumes_iff (hv : (ofHeader isRecv f head).Valid) :
    (ofHeader isRecv f head).Resumes ↔ (ofHeader isRecv f head).moved = 0 := by
  have hlt := ofHeader_moved_lt hf hv
  have hsize := hf.size_le
  have hge := hf.size_ge
  obtain ⟨hmod, hsub, -⟩ := hf.resume_bounds hlt (Nat.zero_le _)
  simp only [Resumes, ofHeader, hmod, hsub, and_true, Nat.add_left_cancel_iff]
  constructor
  · intro heq
    rcases Nat.eq_zero_or_pos (loadInt head f.offsetPos) with hzero | hpos
    · exact hzero
    · have hgrow := Nat.mul_le_mul_left (loadInt head f.offsetPos) hge
      omega
  · intro hzero
    rw [hzero, Nat.zero_mul]

end Header

section Results

variable {c : StageCall} {sock : Socket} {o : Outcome}

theorem result_le {n : Nat} (h : c.result o sock = some n) : n ≤ c.len := by
  unfold result at h
  split at h
  · exact (o.received_le h).1
  · exact o.sent_le h

theorem send_eq (sock : Socket) (o : Outcome) (hrange : c.InRange)
    (hsend : c.isRecv = false) :
    send sock o c.region c.limit c.addr c.len =
      some (c.result o sock, (c.result o sock).elim sock (c.after sock)) := by
  have hresult : c.result o sock = o.sent c.len := by
    rw [result, hsend]
    rfl
  rw [hresult]
  unfold send
  cases h : o.sent c.len with
  | none => rfl
  | some n =>
      have hbounds := hrange n (o.sent_le h)
      simp only [if_pos hbounds, Option.elim_some, after, hsend]
      rfl

theorem recv_eq (sock : Socket) (o : Outcome) (hrange : c.InRange)
    (hrecv : c.isRecv = true) :
    recv sock o c.region c.limit c.addr c.len =
      some (c.result o sock, (c.result o sock).elim sock (c.after sock),
        (c.result o sock).elim c.region fun n => c.filled (sock.inbound.take n)) := by
  have hresult : c.result o sock = o.received c.len sock.inbound.length := by
    rw [result, hrecv]
    rfl
  rw [hresult]
  unfold recv
  cases h : o.received c.len sock.inbound.length with
  | none => rfl
  | some n =>
      have hbounds := hrange n (o.received_le h).1
      simp only [if_pos hbounds, Option.elim_some, after, hrecv]
      rfl

end Results

end StageCall

/-- The offset of a block after a call has moved `n` bytes. A full count leaves it alone. -/
def StageCall.savedOffset (c : StageCall) (n : Nat) : Nat :=
  if n < c.len then c.moved + n else c.moved

section Fields

variable {region head : Mem} {limit base total prev : Nat} {f : HeaderField} {sock : Socket}
  {o : Outcome}

theorem sendBlock_eq {c : StageCall} (hc : c = .ofBlock false region limit base total prev)
    (hv : c.Valid) :
    sendBlock region limit base total prev sock o =
      some ((c.result o sock).elim (failureReturn o.errno, prev, sock) fun n =>
        (if n < c.len then 0 else 1, c.savedOffset n, c.after sock n)) := by
  subst hc
  have hsend := StageCall.send_eq sock o (StageCall.ofBlock_inRange hv) rfl
  change send sock o region limit (base + prev) (u64Sub total prev) = _ at hsend
  unfold sendBlock
  simp only [hsend, Option.bind_eq_bind, Option.bind_some]
  cases (StageCall.ofBlock false region limit base total prev).result o sock with
  | none => rfl
  | some n =>
      simp only [Option.elim_some, StageCall.ofBlock]
      by_cases hn : n < u64Sub total prev
      · simp only [StageCall.savedOffset, hn, if_true]
      · simp only [StageCall.savedOffset, hn, if_false]

theorem recvBlock_eq {c : StageCall} (hc : c = .ofBlock true region limit base total prev)
    (hv : c.Valid) :
    recvBlock region limit base total prev sock o =
      some ((c.result o sock).elim (failureReturn o.errno, prev, region, sock) fun n =>
        (if n < c.len then 0 else 1, c.savedOffset n,
          c.filled (sock.inbound.take n), c.after sock n)) := by
  subst hc
  have hrecv := StageCall.recv_eq sock o (StageCall.ofBlock_inRange hv) rfl
  change recv sock o region limit (base + prev) (u64Sub total prev) = _ at hrecv
  unfold recvBlock
  simp only [hrecv, Option.bind_eq_bind, Option.bind_some]
  cases (StageCall.ofBlock true region limit base total prev).result o sock with
  | none => rfl
  | some n =>
      simp only [Option.elim_some, StageCall.ofBlock]
      by_cases hn : n < u64Sub total prev
      · simp only [StageCall.savedOffset, hn, if_true]
      · simp only [StageCall.savedOffset, hn, if_false]

/-- A block with `n` more bytes saved as moved. -/
theorem StageCall.ofBlock_progressed {isRecv : Bool} {n prev' : Nat} {region' : Mem}
    (h : prev' = prev + n) : (ofBlock isRecv region limit base total prev).Progressed
      (.ofBlock isRecv region' limit base total prev') n where
  isRecv := rfl
  base := rfl
  total := rfl
  moved := h

/-- The next call of a stage that has saved a short count. -/
theorem StageCall.next_of_short {isRecv : Bool} {c : StageCall}
    (hc : c = .ofBlock isRecv region limit base total prev) {n prev' : Nat} (hn : n < c.len)
    (hprev : prev' = c.savedOffset n) {region' : Mem} {call : Option StageCall}
    (hcall : call = some (.ofBlock isRecv region' limit base total prev')) :
    ∃ c', call = some c' ∧ c.Progressed c' n := by
  have hsaved : c.savedOffset n = c.moved + n := if_pos hn
  refine ⟨_, hcall, ?_⟩
  rw [hsaved] at hprev
  rw [hc] at hprev ⊢
  exact ofBlock_progressed hprev

/-- The request head after a header call has moved `n` bytes of the `len` it asked for. -/
def savedHead (f : HeaderField) (head : Mem) (n len : Nat) : Mem :=
  if n < len then storeInt head f.offsetPos (loadInt head f.offsetPos + n) else head

theorem sendHeaderField_eq (hf : f.Ok) {c : StageCall} (hc : c = .ofHeader false f head)
    (hv : c.Valid) :
    sendHeaderField f head sock o =
      some ((c.result o sock).elim (failureReturn o.errno, head, sock) fun n =>
        (if n < c.len then 0 else 1, savedHead f head n c.len, c.after sock n)) := by
  subst hc
  have hsend := StageCall.send_eq sock o (StageCall.ofHeader_inRange hf hv) rfl
  change send sock o head headSize ((f.pos + loadInt head f.offsetPos * f.size) % 2 ^ 64)
    (u64Sub f.size (loadInt head f.offsetPos)) = _ at hsend
  unfold sendHeaderField
  simp only [hsend, Option.bind_eq_bind, Option.bind_some]
  cases (StageCall.ofHeader false f head).result o sock with
  | none => rfl
  | some n =>
      simp only [Option.elim_some, savedHead, StageCall.ofHeader]
      by_cases hn : n < u64Sub f.size (loadInt head f.offsetPos)
      · simp only [hn, if_true]
      · simp only [hn, if_false]

theorem recvHeaderField_eq (hf : f.Ok) {c : StageCall} (hc : c = .ofHeader true f head)
    (hv : c.Valid) :
    recvHeaderField f head sock o =
      some ((c.result o sock).elim (failureReturn o.errno, head, sock) fun n =>
        (if n < c.len then 0 else 1, savedHead f (c.filled (sock.inbound.take n)) n c.len,
          c.after sock n)) := by
  subst hc
  have hrecv := StageCall.recv_eq sock o (StageCall.ofHeader_inRange hf hv) rfl
  change recv sock o head headSize ((f.pos + loadInt head f.offsetPos * f.size) % 2 ^ 64)
    (u64Sub f.size (loadInt head f.offsetPos)) = _ at hrecv
  unfold recvHeaderField
  simp only [hrecv, Option.bind_eq_bind, Option.bind_some]
  cases (StageCall.ofHeader true f head).result o sock with
  | none => rfl
  | some n =>
      simp only [Option.elim_some, savedHead, StageCall.ofHeader]
      by_cases hn : n < u64Sub f.size (loadInt head f.offsetPos)
      · simp only [hn, if_true]
      · simp only [hn, if_false]

/-- A header call that saves `n` more bytes as moved makes progress on its header. -/
theorem ofHeader_progressed {isRecv : Bool} {head' : Mem} {n : Nat}
    (h : loadInt head' f.offsetPos = loadInt head f.offsetPos + n) :
    (StageCall.ofHeader isRecv f head).Progressed (.ofHeader isRecv f head') n where
  isRecv := rfl
  base := rfl
  total := rfl
  moved := h

/-- A short send of a header saves its count. -/
theorem savedHead_sends (hf : f.Ok) {c : StageCall} (hc : c = .ofHeader false f head)
    (hv : c.Valid) {n : Nat} (hn : n < c.len) :
    c.Progressed (.ofHeader false f (savedHead f head n c.len)) n := by
  have hhead : savedHead f head n c.len =
      storeInt head f.offsetPos (loadInt head f.offsetPos + n) := if_pos hn
  subst hc
  rw [hhead]
  rw [StageCall.ofHeader_len hf hv] at hn
  have hsize := hf.size_le
  apply ofHeader_progressed
  rw [loadInt_storeInt]
  omega

/-- A short receive of a header that has not begun saves its count. -/
theorem savedHead_receives (hf : f.Ok) {c : StageCall} (hc : c = .ofHeader true f head)
    (hv : c.Valid) (hresumes : c.Resumes) {n : Nat} (hn : n < c.len) {bs : List UInt8}
    (hbs : bs.length = n) :
    c.Progressed (.ofHeader true f (savedHead f (c.filled bs) n c.len)) n := by
  have hhead : savedHead f (c.filled bs) n c.len = storeInt (write c.region c.addr bs)
      f.offsetPos (loadInt (write c.region c.addr bs) f.offsetPos + n) := if_pos hn
  subst hc
  rw [hhead, hresumes.1]
  rw [StageCall.ofHeader_len hf hv] at hn
  have hsize := hf.size_le
  have hoffset := hf.offset_eq
  have hzero : loadInt head f.offsetPos = 0 := (StageCall.ofHeader_resumes_iff hf hv).mp hresumes
  have hkeep (pos : Nat) (hpos : pos + n ≤ f.offsetPos) :
      loadInt (write head pos bs) f.offsetPos = loadInt head f.offsetPos := by
    apply loadInt_congr
    intro a ha _
    apply write_above
    omega
  apply ofHeader_progressed
  rw [loadInt_storeInt]
  · exact congrArg (· + n) (hkeep (f.pos + loadInt head f.offsetPos) (by omega))
  · change loadInt (write head (f.pos + loadInt head f.offsetPos) bs) f.offsetPos + n < 2 ^ 31
    rw [hkeep _ (by omega)]
    omega

end Fields

end NetDedup.Transfer

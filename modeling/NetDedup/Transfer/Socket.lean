import NetDedup.Lib.Memory

/-!
# Non-blocking sockets

One end of a stream connection, and `send` and `recv` on a region of memory.
The outcome of a call is an input: it moves some bytes, would block, fails, or
finds the peer gone. `none` is an access outside the region.
-/

namespace NetDedup.Transfer

open Memory

/-- What the operating system does with one call. -/
inductive Outcome where
  /-- The call moves up to `n + 1` bytes. -/
  | ready (n : Nat)
  | wouldBlock
  | failed (errno : Nat)
  /-- The peer has closed: end of file for `recv`, `EPIPE` for `send`. -/
  | closed
  deriving DecidableEq

def eagain : Nat := 11
def ewouldblock : Nat := eagain
def epipe : Nat := 32

/-- The `errno` of a call that returned -1. -/
def Outcome.errno : Outcome → Nat
  | .failed errno => errno
  | .closed => epipe
  | _ => eagain

/-- One end of a connection: what has been handed to the socket, and what has
arrived and was not read yet. -/
structure Socket where
  sent : List UInt8
  inbound : List UInt8
  deriving DecidableEq

/-- Bytes that `send` takes of `len`; none for -1. -/
def Outcome.sent : Outcome → Nat → Option Nat
  | .ready n, len => some (min (n + 1) len)
  | _, _ => none

/-- Bytes that `recv` returns of `len` when `available` have arrived; none for -1. -/
def Outcome.received : Outcome → Nat → Nat → Option Nat
  | .ready n, len, available =>
      if len = 0 then some 0
      else if available = 0 then none
      else some (min (n + 1) (min len available))
  | .closed, _, available => if available = 0 then some 0 else none
  | _, _, _ => none

/-- An access of `n` bytes from `pos` on stays in a region of `limit` bytes. -/
def InBounds (limit pos n : Nat) : Prop := n = 0 ∨ pos + n ≤ limit

instance (limit pos n : Nat) : Decidable (InBounds limit pos n) :=
  inferInstanceAs (Decidable (_ ∨ _))

/-- `send` of `len` bytes of the region from `pos` on. -/
def send (sock : Socket) (o : Outcome) (region : Mem) (limit pos len : Nat) :
    Option (Option Nat × Socket) :=
  match o.sent len with
  | none => some (none, sock)
  | some n =>
      if InBounds limit pos n then
        some (some n, { sock with sent := sock.sent ++ read region pos n })
      else none

/-- `recv` of up to `len` bytes into the region from `pos` on. -/
def recv (sock : Socket) (o : Outcome) (region : Mem) (limit pos len : Nat) :
    Option (Option Nat × Socket × Mem) :=
  match o.received len sock.inbound.length with
  | none => some (none, sock, region)
  | some n =>
      if InBounds limit pos n then
        some (some n, { sock with inbound := sock.inbound.drop n },
          write region pos (sock.inbound.take n))
      else none

/-- What every stage returns after -1. The test `(errno = EAGAIN) || (errno ==
EWOULDBLOCK)` assigns, so it is true whatever the error was. -/
def failureReturn (_errno : Nat) : Int :=
  let errno := eagain
  if errno ≠ 0 ∨ errno = ewouldblock then 0 else -1

@[simp] theorem failureReturn_eq (errno : Nat) : failureReturn errno = 0 := rfl

/-- `a - b` of unsigned 64-bit numbers. -/
def u64Sub (a b : Nat) : Nat := (a + 2 ^ 64 - b) % 2 ^ 64

theorem u64Sub_of_le {a b : Nat} (h : b ≤ a) (ha : a < 2 ^ 64) : u64Sub a b = a - b := by
  rw [u64Sub]
  omega

theorem Outcome.sent_le {o : Outcome} {len n : Nat} (h : o.sent len = some n) : n ≤ len := by
  cases o with
  | ready k =>
      obtain rfl := Option.some_inj.mp h
      exact Nat.min_le_right _ _
  | wouldBlock => exact absurd h (by simp [Outcome.sent])
  | failed => exact absurd h (by simp [Outcome.sent])
  | closed => exact absurd h (by simp [Outcome.sent])

theorem Outcome.received_le {o : Outcome} {len available n : Nat}
    (h : o.received len available = some n) : n ≤ len ∧ n ≤ available := by
  cases o with
  | ready k =>
      simp only [Outcome.received] at h
      split at h
      · obtain rfl := Option.some_inj.mp h
        omega
      · split at h
        · exact absurd h (by simp)
        · obtain rfl := Option.some_inj.mp h
          omega
  | wouldBlock => exact absurd h (by simp [Outcome.received])
  | failed => exact absurd h (by simp [Outcome.received])
  | closed =>
      simp only [Outcome.received] at h
      split at h
      · obtain rfl := Option.some_inj.mp h
        omega
      · exact absurd h (by simp)

/-- What a `send` that stays in its region does. -/
theorem send_cases {sock : Socket} {o : Outcome} {region : Mem} {limit pos len : Nat}
    (hbounds : ∀ n ≤ len, InBounds limit pos n) :
    send sock o region limit pos len = some (none, sock) ∨
    ∃ n ≤ len, send sock o region limit pos len =
      some (some n, { sock with sent := sock.sent ++ read region pos n }) := by
  unfold send
  cases h : o.sent len with
  | none => exact Or.inl rfl
  | some n => exact Or.inr ⟨n, o.sent_le h, if_pos (hbounds n (o.sent_le h))⟩

/-- What a `recv` that stays in its region does. -/
theorem recv_cases {sock : Socket} {o : Outcome} {region : Mem} {limit pos len : Nat}
    (hbounds : ∀ n ≤ len, InBounds limit pos n) :
    recv sock o region limit pos len = some (none, sock, region) ∨
    ∃ n, n ≤ len ∧ n ≤ sock.inbound.length ∧ recv sock o region limit pos len =
      some (some n, { sock with inbound := sock.inbound.drop n },
        write region pos (sock.inbound.take n)) := by
  unfold recv
  cases h : o.received len sock.inbound.length with
  | none => exact Or.inl rfl
  | some n =>
      obtain ⟨hlen, havail⟩ := o.received_le h
      exact Or.inr ⟨n, hlen, havail, if_pos (hbounds n hlen)⟩

end NetDedup.Transfer

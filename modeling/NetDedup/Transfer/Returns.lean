import NetDedup.Transfer.RecvProgress
import NetDedup.Transfer.SendProgress

/-!
# Calls return

A call of `process_send` or `process_recv` is a loop that ends with the first step
that does not go on.
-/

namespace NetDedup.Transfer

open Chunking

/-- A call can go on from `st` to `st'`, with whatever bytes and caches. -/
def SendState.GoesOn (sha256 : List UInt8 → Digest) (st st' : SendState) : Prop :=
  ∃ sock sock' proc proc' choice,
    processSend sha256 st sock proc choice = some (.loop, st', sock', proc')

/-- A call can go on from `st` to `st'`, with whatever bytes and caches. -/
def RecvState.GoesOn (st st' : RecvState) : Prop :=
  ∃ sock sock' proc proc' choice, processRecv st sock proc choice = some (.loop, st', sock', proc')

theorem SendState.GoesOn.left_lt {sha256 : List UInt8 → Digest} {st st' : SendState}
    (h : st.GoesOn sha256 st') : st'.left < st.left := by
  obtain ⟨_, _, _, _, _, h⟩ := h
  exact (processSend_advances h).lt rfl

theorem RecvState.GoesOn.left_lt {st st' : RecvState} (h : st.GoesOn st') :
    st'.left < st.left := by
  obtain ⟨_, _, _, _, _, h⟩ := h
  exact (processRecv_advances h).lt rfl

/-- No call goes on for ever, whatever its request holds, whatever the peer sends and
whatever other processes do to the cache in the meantime. -/
theorem calls_return (sha256 : List UInt8 → Digest) :
    WellFounded (fun st' st => SendState.GoesOn sha256 st st') ∧
      WellFounded fun st' st => RecvState.GoesOn st st' := by
  constructor
  · exact Subrelation.wf SendState.GoesOn.left_lt (InvImage.wf SendState.left wellFounded_lt)
  · exact Subrelation.wf RecvState.GoesOn.left_lt (InvImage.wf RecvState.left wellFounded_lt)

end NetDedup.Transfer

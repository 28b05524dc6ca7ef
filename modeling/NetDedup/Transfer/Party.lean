import NetDedup.Lib.Run
import NetDedup.Store.CacheInvariant
import NetDedup.Transfer.Recv

/-!
# One party and an arbitrary peer

A request of one party as a system of its own: bytes arrive on its socket,
its process takes steps, and other processes change the cache.
-/

namespace NetDedup.Transfer

open Chunking Memory Store

/-- A request with the socket and the process of its party. -/
structure Party (R : Type) where
  st : R
  sock : Socket
  proc : Process

/-- What can happen to a party. -/
inductive PartyEvent where
  | arrive (bs : List UInt8)
  | step (choice : Choice)
  /-- Other requests and processes change the cache or the skip flag. -/
  | other (proc : Process)

/-- One event; `none` is an access outside an array or a buffer. -/
def Party.next {R : Type} (process : R → Socket → Process → Choice →
    Option (Flow × R × Socket × Process)) (p : Party R) : PartyEvent → Option (Party R)
  | .arrive bs => some { p with sock := { p.sock with inbound := p.sock.inbound ++ bs } }
  | .step choice => (process p.st p.sock p.proc choice).map fun (_, st, sock, proc) =>
      ⟨st, sock, proc⟩
  | .other proc => some { p with proc := proc }

/-- The shared cache keeps its invariant and its settings. -/
structure Process.Sound (proc : Process) : Prop where
  ok : proc.globalFingerprintCache.Ok
  settings : proc.globalFingerprintCache.fingerprintingSettings = shippedSettings

theorem Process.Sound.inserted {proc : Process} (h : proc.Sound) {fp : Fingerprint}
    {content : List UInt8} {retEntry : Option FingerprintEntry} {r : Int} {c : FingerprintCache}
    {e : FingerprintEntry}
    (hins : FingerprintCache.Inserted proc.globalFingerprintCache fp content retEntry r c e)
    (skip : Bool) : Process.Sound ⟨c, skip⟩ where
  ok := hins.ok h.ok
  settings := hins.settings_eq.trans h.settings

/-- The populate loop only counts in the statistics. -/
theorem Process.Sound.populated {proc : Process} (h : proc.Sound) (req : DedupRecvReq)
    (locals : PopulateLocals) : Process.Sound { proc with
      globalFingerprintCache := (finishPopulate proc.globalFingerprintCache req locals).1 } where
  ok := ⟨h.ok.table, h.ok.free_eq, h.ok.free_le, h.ok.read_eq, h.ok.room, h.ok.placed, h.ok.apart⟩
  settings := h.settings

end NetDedup.Transfer

import NetDedup.Comm.Callers
import NetDedup.Comm.Calls
import NetDedup.Comm.Dump
import NetDedup.Comm.Guard
import NetDedup.Comm.Iterations
import NetDedup.Comm.Outstanding
import NetDedup.Comm.Requests
import NetDedup.Config
import NetDedup.Connection.Establish
import NetDedup.Connection.Handshake
import NetDedup.Delivery.Buffer
import NetDedup.Delivery.Contents
import NetDedup.Delivery.Dedup
import NetDedup.Delivery.Headers
import NetDedup.Delivery.Liveness
import NetDedup.Delivery.Pair
import NetDedup.Delivery.Receiver
import NetDedup.Delivery.Runs
import NetDedup.Delivery.Savings
import NetDedup.Delivery.Sender
import NetDedup.Delivery.Streams
import NetDedup.Delivery.System
import NetDedup.Delivery.Turns
import NetDedup.Delivery.Waits
import NetDedup.Delivery.Wire
import NetDedup.Delivery.World
import NetDedup.Fingerprint.Agreement
import NetDedup.Fingerprint.Chunking
import NetDedup.Fingerprint.Cuts
import NetDedup.Fingerprint.Edits
import NetDedup.Fingerprint.Partition
import NetDedup.Fingerprint.Prefix
import NetDedup.Fingerprint.Restart
import NetDedup.Fingerprint.RingMarker
import NetDedup.Fingerprint.RollingHash
import NetDedup.Init.SharedCache
import NetDedup.Lib.BackwardShift
import NetDedup.Lib.BitScan
import NetDedup.Lib.Endless
import NetDedup.Lib.Filling
import NetDedup.Lib.Frames
import NetDedup.Lib.Framing
import NetDedup.Lib.Memory
import NetDedup.Lib.Mixing
import NetDedup.Lib.PolyHash
import NetDedup.Lib.Probing
import NetDedup.Lib.Run
import NetDedup.Lib.Word
import NetDedup.Lib.WriteOnce
import NetDedup.Store.CacheAtomic
import NetDedup.Store.CacheInvariant
import NetDedup.Store.CacheRuns
import NetDedup.Store.EmptySlot
import NetDedup.Store.FingerprintCache
import NetDedup.Store.FingerprintTable
import NetDedup.Store.FullTable
import NetDedup.Store.HashIndex
import NetDedup.Store.TableRemoval
import NetDedup.Store.TableRuns
import NetDedup.Transfer.Announced
import NetDedup.Transfer.ArrayBounds
import NetDedup.Transfer.Exact
import NetDedup.Transfer.Failures
import NetDedup.Transfer.Fingerprints
import NetDedup.Transfer.HeaderTransfer
import NetDedup.Transfer.Party
import NetDedup.Transfer.PeerBounds
import NetDedup.Transfer.Progress
import NetDedup.Transfer.Recv
import NetDedup.Transfer.RecvBounds
import NetDedup.Transfer.RecvProgress
import NetDedup.Transfer.RecvSteps
import NetDedup.Transfer.Request
import NetDedup.Transfer.Returns
import NetDedup.Transfer.Send
import NetDedup.Transfer.SendBounds
import NetDedup.Transfer.SendProgress
import NetDedup.Transfer.SendSteps
import NetDedup.Transfer.Socket
import NetDedup.Transfer.SocketCalls
import NetDedup.Transfer.Stages

import NetDedup.Lib.Frames
import NetDedup.Transfer.Announced

/-!
# What a message puts on the wire

The bytes that cross in both directions for one message. Those of a message on
the fingerprint path depend on the list of missing chunks that the receiver
replies with.
-/

namespace NetDedup.Delivery

open Chunking Frames Memory Transfer

/-- The message takes the fingerprint path. -/
abbrev Long (data : List UInt8) : Prop := fingerprintMsgSizeThreshold < data.length

/-- The fingerprints that are computed of a message. -/
def fingerprints (sha256 : List UInt8 → Digest) (data : List UInt8) : List Fingerprint :=
  (doFingerprinting sha256 shippedSettings data).getD []

/-- Chunk `i` of a message with these fingerprints. -/
def chunk (data : List UInt8) (fps : List Fingerprint) (i : Nat) : List UInt8 :=
  (data.drop (boundary fps i)).take (boundary fps (i + 1) - boundary fps i)

/-- The general header of a message. -/
def header (data : List UInt8) : List UInt8 :=
  read (isendRequest data).head generalHeader.pos generalHeader.size

/-- Where the packaged fingerprints start in a frame. -/
def fingerprintsPos : Nat := generalHeader.size + fingerprintHeader.size

/-- Where the content of missing chunks starts in a frame. -/
def contentPos (fps : List Fingerprint) : Nat :=
  fingerprintsPos + fps.length * sizeofFingerprint

/-- All that is sent for a message. -/
def forwardFrame (sha256 : List UInt8 → Digest) (data : List UInt8) (missing : List Nat) :
    List UInt8 :=
  let fps := fingerprints sha256 data
  header data ++ if Long data then
      leBytes sizeofU64 fps.length ++ (fps.flatMap encodeFingerprint ++
        missing.flatMap (chunk data fps))
    else data

/-- All that is replied to a message. -/
def backwardFrame (data : List UInt8) (missing : List Nat) : List UInt8 :=
  if Long data then
    leBytes sizeofU64 missing.length ++ missing.flatMap (leBytes sizeofU64)
  else []

section Chunks

variable {sha256 : List UInt8 → Digest} {data : List UInt8}

theorem fingerprints_run : doFingerprinting sha256 shippedSettings data =
    some (fingerprints sha256 data) := by
  obtain ⟨fps, hrun, -⟩ := @doFingerprinting_isPartition sha256 _ shipped_ordered data
  rw [fingerprints, hrun, Option.getD_some]

variable {i : Nat} (hi : i < (fingerprints sha256 data).length)

include hi

theorem chunk_eq : chunk data (fingerprints sha256 data) i =
    (data.drop (boundary (fingerprints sha256 data) i)).take
      (fingerprints sha256 data)[i].contentSize := by
  rw [chunk, boundary_succ hi, Nat.add_sub_cancel_left]

theorem length_chunk : (chunk data (fingerprints sha256 data) i).length =
    (fingerprints sha256 data)[i].contentSize := by
  have hend := chunk_end_le fingerprints_run hi
  rw [chunk_eq hi, List.length_take, List.length_drop]
  omega

/-- A part of a chunk is a part of the message. -/
theorem chunk_part {o n : Nat} (hn : o + n ≤ (fingerprints sha256 data)[i].contentSize) :
    ((chunk data (fingerprints sha256 data) i).drop o).take n =
      (data.drop (boundary (fingerprints sha256 data) i + o)).take n := by
  rw [chunk_eq hi, List.drop_take, List.take_take, List.drop_drop,
    Nat.min_eq_left (by omega)]

end Chunks

section Lengths

variable {sha256 : List UInt8 → Digest} {data : List UInt8} {missing : List Nat}

@[simp] theorem length_header : (header data).length = generalHeader.size := length_read ..

theorem length_forwardFrame_long (hlong : Long data) :
    (forwardFrame sha256 data missing).length = contentPos (fingerprints sha256 data) +
      (missing.flatMap (chunk data (fingerprints sha256 data))).length := by
  rw [forwardFrame, if_pos hlong, List.length_append, List.length_append, List.length_append,
    length_header, length_leBytes, length_encodeFingerprints, contentPos, fingerprintsPos]
  change generalHeader.size + (fingerprintHeader.size + _) = _
  omega

theorem length_forwardFrame_short (hshort : ¬ Long data) :
    (forwardFrame sha256 data missing).length = generalHeader.size + data.length := by
  rw [forwardFrame, if_neg hshort, List.length_append, length_header]

theorem length_words : (missing.flatMap (leBytes sizeofU64)).length =
    missing.length * sizeofU64 := by
  rw [length_flatMap_window _ (length_leBytes sizeofU64), Nat.mul_comm]

theorem length_backwardFrame_long (hlong : Long data) :
    (backwardFrame data missing).length = sizeofU64 + missing.length * sizeofU64 := by
  rw [backwardFrame, if_pos hlong, List.length_append, length_leBytes, length_words]

theorem backwardFrame_short (hshort : ¬ Long data) : backwardFrame data missing = [] :=
  if_neg hshort

theorem forwardFrame_ne_nil : forwardFrame sha256 data missing ≠ [] := by
  intro h
  have hlen := congrArg List.length h
  rw [forwardFrame, List.length_append, length_header] at hlen
  exact absurd hlen (by simp [generalHeader])

theorem backwardFrame_ne_nil (hlong : Long data) : backwardFrame data missing ≠ [] := by
  intro h
  have hlen := congrArg List.length h
  rw [length_backwardFrame_long hlong, sizeofU64, List.length_nil] at hlen
  omega

end Lengths

section Windows

variable (sha256 : List UInt8 → Digest) {data : List UInt8} (missing : List Nat) {o n : Nat}

theorem forwardFrame_header :
    (forwardFrame sha256 data missing).take generalHeader.size = header data := by
  rw [forwardFrame, List.take_left' length_header]

theorem forwardFrame_data (hshort : ¬ Long data) :
    (forwardFrame sha256 data missing).drop (generalHeader.size + o) = data.drop o := by
  rw [forwardFrame, if_neg hshort, ← @length_header data, List.drop_length_add_append]

theorem forwardFrame_count (hlong : Long data) :
    ((forwardFrame sha256 data missing).drop generalHeader.size).take sizeofU64 =
      leBytes sizeofU64 (fingerprints sha256 data).length := by
  rw [forwardFrame, if_pos hlong, List.drop_left' length_header,
    List.take_left' (length_leBytes ..)]

theorem forwardFrame_fingerprints (hlong : Long data)
    (hn : o + n ≤ (fingerprints sha256 data).length * sizeofFingerprint) :
    ((forwardFrame sha256 data missing).drop (fingerprintsPos + o)).take n =
      (((fingerprints sha256 data).flatMap encodeFingerprint).drop o).take n := by
  rw [forwardFrame, if_pos hlong, ← List.append_assoc]
  refine window ?_ (Nat.le_trans hn (Nat.le_of_eq (length_encodeFingerprints _).symm))
  rw [List.length_append, length_header, length_leBytes]
  rfl

/-- Where missing chunk number `t` starts in a frame. -/
def missingPos (data : List UInt8) (t : Nat) : Nat :=
  contentPos (fingerprints sha256 data) +
    ((missing.take t).flatMap (chunk data (fingerprints sha256 data))).length

variable {missing} {t : Nat}

theorem missingPos_zero : missingPos sha256 missing data 0 =
    contentPos (fingerprints sha256 data) := by
  rw [missingPos, List.take_zero, List.flatMap_nil, List.length_nil, Nat.add_zero]

theorem missingPos_length (hlong : Long data) : missingPos sha256 missing data missing.length =
    (forwardFrame sha256 data missing).length := by
  rw [missingPos, List.take_length, length_forwardFrame_long hlong]

theorem missingPos_succ (ht : t < missing.length) : missingPos sha256 missing data (t + 1) =
    missingPos sha256 missing data t +
      (chunk data (fingerprints sha256 data) missing[t]).length := by
  rw [missingPos, List.take_succ_eq_append_getElem ht, List.flatMap_append, List.length_append,
    List.flatMap_singleton, ← Nat.add_assoc, missingPos]

theorem missingPos_le (hlong : Long data) (t : Nat) : missingPos sha256 missing data t ≤
    (forwardFrame sha256 data missing).length := by
  have hsplit := congrArg (List.flatMap (chunk data (fingerprints sha256 data)))
    (List.take_append_drop t missing)
  rw [length_forwardFrame_long hlong, missingPos, ← hsplit, List.flatMap_append,
    List.length_append]
  omega

theorem forwardFrame_chunk (hlong : Long data) (ht : t < missing.length)
    (hn : o + n ≤ (chunk data (fingerprints sha256 data) missing[t]).length) :
    ((forwardFrame sha256 data missing).drop (missingPos sha256 missing data t + o)).take n =
      ((chunk data (fingerprints sha256 data) missing[t]).drop o).take n := by
  have hsplit : missing.flatMap (chunk data (fingerprints sha256 data)) =
      (missing.take t).flatMap (chunk data (fingerprints sha256 data)) ++
        (chunk data (fingerprints sha256 data) missing[t] ++
          (missing.drop (t + 1)).flatMap (chunk data (fingerprints sha256 data))) := by
    rw [← List.flatMap_cons, ← List.drop_eq_getElem_cons ht, ← List.flatMap_append,
      List.take_append_drop]
  rw [forwardFrame, if_pos hlong, hsplit, ← List.append_assoc, ← List.append_assoc,
    ← List.append_assoc]
  refine window ?_ hn
  rw [List.length_append, List.length_append, List.length_append, length_header, length_leBytes,
    length_encodeFingerprints, missingPos, contentPos, fingerprintsPos]
  rfl

theorem backwardFrame_count (hlong : Long data) (hn : o + n ≤ sizeofU64) :
    ((backwardFrame data missing).drop o).take n =
      ((leBytes sizeofU64 missing.length).drop o).take n := by
  rw [backwardFrame, if_pos hlong, List.drop_append_of_le_length (by rw [length_leBytes]; omega),
    List.take_append_of_le_length (by rw [List.length_drop, length_leBytes]; omega)]

theorem backwardFrame_words (hlong : Long data) :
    (backwardFrame data missing).drop (sizeofU64 + o) =
      (missing.flatMap (leBytes sizeofU64)).drop o := by
  have hlen := length_leBytes sizeofU64 missing.length
  rw [backwardFrame, if_pos hlong]
  nth_rewrite 1 [← hlen]
  rw [List.drop_length_add_append]

end Windows

section Decision

variable (sha256 : List UInt8 → Digest) {data : List UInt8} (missing missing' : List Nat)

/-- Before the content the frame does not depend on the missing chunks. -/
theorem forwardFrame_take_congr {p : Nat} (hlong : Long data)
    (hp : p ≤ contentPos (fingerprints sha256 data)) :
    (forwardFrame sha256 data missing).take p = (forwardFrame sha256 data missing').take p := by
  have hcut (l : List Nat) : (forwardFrame sha256 data l).take p =
      (header data ++ leBytes sizeofU64 (fingerprints sha256 data).length ++
        (fingerprints sha256 data).flatMap encodeFingerprint).take p := by
    rw [forwardFrame, if_pos hlong, ← List.append_assoc, ← List.append_assoc,
      List.take_append_of_le_length]
    rw [List.length_append, List.length_append, length_header, length_leBytes,
      length_encodeFingerprints]
    exact hp
  rw [hcut, hcut]

end Decision

/-- Chunks before the `n`-th that were noted as missing, in order and none of them
with a digest that is known. -/
structure Missed (sha256 : List UInt8 → Digest) (known : Set Digest) (data : List UInt8) (n : Nat)
    (missing : List Nat) : Prop where
  increasing : missing.Pairwise (· < ·)
  lt : ∀ i ∈ missing, i < n
  fresh : ∀ i ∈ missing, ∀ hi : i < (fingerprints sha256 data).length,
    (fingerprints sha256 data)[i].fingerprint ∉ known

namespace Missed

variable {sha256 : List UInt8 → Digest} {known : Set Digest} {data : List UInt8} {n : Nat}
  {missing : List Nat}

theorem start : Missed sha256 known data 0 [] where
  increasing := .nil
  lt := fun _ hi => absurd hi List.not_mem_nil
  fresh := fun _ hi => absurd hi List.not_mem_nil

/-- The next chunk is not missing. -/
theorem next (h : Missed sha256 known data n missing) : Missed sha256 known data (n + 1) missing where
  increasing := h.increasing
  lt := fun i hi => Nat.lt_succ_of_lt (h.lt i hi)
  fresh := h.fresh

/-- The next chunk is missing. -/
theorem miss (h : Missed sha256 known data n missing) (hn : n < (fingerprints sha256 data).length)
    (hfresh : (fingerprints sha256 data)[n].fingerprint ∉ known) :
    Missed sha256 known data (n + 1) (missing ++ [n]) where
  increasing := by
    refine List.pairwise_append.mpr ⟨h.increasing, List.pairwise_singleton _ _, fun i hi j hj => ?_⟩
    rw [List.mem_singleton.mp hj]
    exact h.lt i hi
  lt := by
    intro i hi
    rcases List.mem_append.mp hi with hold | hnew
    · exact Nat.lt_succ_of_lt (h.lt i hold)
    · rw [List.mem_singleton.mp hnew]
      exact Nat.lt_succ_self n
  fresh := by
    intro i hi hlt
    rcases List.mem_append.mp hi with hold | hnew
    · exact h.fresh i hold hlt
    · obtain rfl := List.mem_singleton.mp hnew
      exact hfresh

end Missed

/-- Missing chunks that a reply can name. -/
structure Replied (sha256 : List UInt8 → Digest) (known : Set Digest) (data : List UInt8)
    (missing : List Nat) : Prop
    extends Missed sha256 known data (fingerprints sha256 data).length missing where
  fit : missing.length ≤ maxFingerprintsPerReq

theorem Replied.nil {sha256 : List UInt8 → Digest} {known : Set Digest} {data : List UInt8} :
    Replied sha256 known data [] where
  increasing := .nil
  lt := fun _ hi => absurd hi List.not_mem_nil
  fresh := fun _ hi => absurd hi List.not_mem_nil
  fit := Nat.zero_le _

end NetDedup.Delivery

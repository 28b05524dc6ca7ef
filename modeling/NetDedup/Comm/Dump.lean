import NetDedup.Comm.Outstanding
import NetDedup.Lib.Framing

/-!
# The message dump

`dump_send` appends a message to one file and its size to another, under a lock
that its failure exits do not release. What both files hold of the messages that
were dumped decodes, and no call gets past a lock that was left held.
-/

namespace NetDedup.Comm

open Chunking Connection Memory Store Transfer

/-- The messages in the dump files: the bytes file is cut by the `int`s of the sizes file. -/
def decodeDump (d : Dump) : Option (List (List UInt8)) := do
  let sizes ← Framing.words 4 d.dumpSizesFile
  Framing.cut (sizes.map leNat) d.dumpBytesFile

/-- The lock is free, and the files hold the messages whose dump succeeded. -/
def Dump.Decodable (d : Dump) : Prop :=
  d.dumpLock = false ∧ decodeDump d = some (d.dumped.map (·.val))

/-- Both files take all they are given. -/
def DumpCalls.Complete (calls : DumpCalls) (data : Message) : Prop :=
  data.val.length ≤ calls.bytesTaken ∧ 4 ≤ calls.sizeTaken

namespace Dump

/-- The bytes file of some messages. -/
def bytesOf (messages : List Message) : List UInt8 := (messages.map (·.val)).flatten

/-- The sizes file of some messages. -/
def sizesOf (messages : List Message) : List UInt8 :=
  (messages.map fun m => leBytes 4 m.val.length).flatten

/-- The files begin with the messages whose dump succeeded; what a failed dump adds
comes with a lock that is held. -/
structure Recorded (d : Dump) : Prop where
  bytes : bytesOf d.dumped <+: d.dumpBytesFile
  sizes : sizesOf d.dumped <+: d.dumpSizesFile
  bytes_eq : d.dumpLock = false → d.dumpBytesFile = bytesOf d.dumped
  sizes_eq : d.dumpLock = false → d.dumpSizesFile = sizesOf d.dumped

variable {d d' : Dump} {data : Message} {calls : DumpCalls}

theorem decode_of_files (hbytes : d.dumpBytesFile = bytesOf d.dumped)
    (hsizes : d.dumpSizesFile = sizesOf d.dumped) :
    decodeDump d = some (d.dumped.map (·.val)) := by
  have hwords : Framing.words 4 d.dumpSizesFile =
      some (d.dumped.map fun m => leBytes 4 m.val.length) := by
    rw [hsizes]
    refine Framing.words_flatten (by decide) fun piece hpiece => ?_
    obtain ⟨m, -, rfl⟩ := List.mem_map.mp hpiece
    exact length_leBytes ..
  have hlengths : (d.dumped.map fun m => leBytes 4 m.val.length).map leNat =
      (d.dumped.map (·.val)).map List.length := by
    rw [List.map_map, List.map_map]
    refine List.map_congr_left fun m _ => ?_
    rw [Function.comp, Function.comp, leNat_leBytes, Nat.mod_eq_of_lt (m.property.trans (by decide))]
  rw [decodeDump, hwords, Option.bind_eq_bind, Option.bind_some, hlengths, hbytes]
  exact Framing.cut_flatten _

theorem bytesOf_concat (messages : List Message) (m : Message) :
    bytesOf (messages ++ [m]) = bytesOf messages ++ m.val := by
  simp [bytesOf]

theorem sizesOf_concat (messages : List Message) (m : Message) :
    sizesOf (messages ++ [m]) = sizesOf messages ++ leBytes 4 m.val.length := by
  simp [sizesOf]

/-- The record of a message whose dump succeeded. -/
def record (d : Dump) (data : Message) : Dump where
  dumpLock := false
  dumpBytesFile := d.dumpBytesFile ++ data.val
  dumpSizesFile := d.dumpSizesFile ++ leBytes 4 data.val.length
  dumped := d.dumped ++ [data]

/-- A dump that fails adds a part of the record, and keeps the lock. -/
structure Failed (d d' : Dump) : Prop where
  held : d'.dumpLock = true
  bytes : d.dumpBytesFile <+: d'.dumpBytesFile
  sizes : d.dumpSizesFile <+: d'.dumpSizesFile
  dumped : d'.dumped = d.dumped

/-- What the bytes file takes of a message; a message of length 0 is not written. -/
theorem bytesFile_write (d : Dump) (data : Message) (taken : Nat) :
    (if 0 < data.val.length then fwrite d.dumpBytesFile data.val 1 taken
      else (data.val.length, d.dumpBytesFile)) =
      (min taken data.val.length, d.dumpBytesFile ++ data.val.take taken) := by
  split_ifs with hpos
  · rw [fwrite, Nat.div_one]
  · obtain hnil := List.length_eq_zero_iff.mp (Nat.eq_zero_of_not_pos hpos)
    rw [hnil, List.length_nil, Nat.min_zero, List.take_nil, List.append_nil]

theorem dumpSend_complete (hfree : d.dumpLock = false) (h : calls.Complete data) :
    dumpSend d data calls = some (0, d.record data) := by
  obtain ⟨hbytes, hsize⟩ := h
  have hsizes : fwrite d.dumpSizesFile (leBytes 4 data.val.length) 4 calls.sizeTaken =
      (1, d.dumpSizesFile ++ leBytes 4 data.val.length) := by
    rw [fwrite, length_leBytes, Nat.min_eq_right hsize, List.take_of_length_le (by simpa)]
  simp [dumpSend, hfree, bytesFile_write, Nat.min_eq_right hbytes, List.take_of_length_le hbytes,
    hsizes, record]

/-- A short write to the bytes file ends the dump in the middle of the critical section. -/
theorem dumpSend_shortBytes (hfree : d.dumpLock = false) (h : calls.bytesTaken < data.val.length) :
    dumpSend d data calls = some (-1, { d with
      dumpLock := true
      dumpBytesFile := d.dumpBytesFile ++ data.val.take calls.bytesTaken }) := by
  have hmin : min calls.bytesTaken data.val.length ≠ data.val.length := by omega
  simp only [dumpSend, hfree, bytesFile_write, if_pos hmin, Bool.false_eq_true, if_false]

/-- So does one to the sizes file. -/
theorem dumpSend_shortSize (hfree : d.dumpLock = false) (hbytes : data.val.length ≤ calls.bytesTaken)
    (h : calls.sizeTaken < 4) :
    dumpSend d data calls = some (-1, { d with
      dumpLock := true
      dumpBytesFile := d.dumpBytesFile ++ data.val
      dumpSizesFile := d.dumpSizesFile ++ (leBytes 4 data.val.length).take calls.sizeTaken }) := by
  have hsizes : fwrite d.dumpSizesFile (leBytes 4 data.val.length) 4 calls.sizeTaken =
      (0, d.dumpSizesFile ++ (leBytes 4 data.val.length).take calls.sizeTaken) := by
    rw [fwrite, length_leBytes, Nat.min_eq_left (Nat.le_of_lt h), Nat.div_eq_of_lt h]
  simp [dumpSend, hfree, bytesFile_write, Nat.min_eq_right hbytes, List.take_of_length_le hbytes,
    hsizes]

theorem dumpSend_short (hfree : d.dumpLock = false) (h : ¬ calls.Complete data) :
    ∃ d', dumpSend d data calls = some (-1, d') ∧ d.Failed d' := by
  by_cases hbytes : data.val.length ≤ calls.bytesTaken
  · have hsize : calls.sizeTaken < 4 := Nat.lt_of_not_le fun hsize => h ⟨hbytes, hsize⟩
    exact ⟨_, dumpSend_shortSize hfree hbytes hsize,
      ⟨rfl, List.prefix_append .., List.prefix_append .., rfl⟩⟩
  · exact ⟨_, dumpSend_shortBytes hfree (Nat.lt_of_not_le hbytes),
      ⟨rfl, List.prefix_append .., List.prefix_refl _, rfl⟩⟩

theorem dumpSend_held (hheld : d.dumpLock = true) : dumpSend d data calls = none :=
  if_pos hheld

/-- A dump keeps what the files hold of the messages before. -/
theorem Recorded.dumpSend {ret : Int} (h : d.Recorded)
    (hdump : dumpSend d data calls = some (ret, d')) : d'.Recorded := by
  have hfree : d.dumpLock = false := by
    rw [← Bool.not_eq_true]
    intro hheld
    rw [dumpSend_held hheld] at hdump
    exact absurd hdump (by simp)
  by_cases hcomplete : calls.Complete data
  · rw [dumpSend_complete hfree hcomplete] at hdump
    obtain ⟨-, rfl⟩ := Prod.mk.injEq .. ▸ Option.some_inj.mp hdump
    have hbytes : d.dumpBytesFile ++ data.val = bytesOf (d.dumped ++ [data]) := by
      rw [h.bytes_eq hfree, bytesOf_concat]
    have hsizes : d.dumpSizesFile ++ leBytes 4 data.val.length = sizesOf (d.dumped ++ [data]) := by
      rw [h.sizes_eq hfree, sizesOf_concat]
    exact ⟨⟨[], by rw [List.append_nil]; exact hbytes.symm⟩,
      ⟨[], by rw [List.append_nil]; exact hsizes.symm⟩, fun _ => hbytes, fun _ => hsizes⟩
  · obtain ⟨d₁, hshort, hfailed⟩ := dumpSend_short hfree hcomplete
    rw [hshort] at hdump
    obtain ⟨-, rfl⟩ := Prod.mk.injEq .. ▸ Option.some_inj.mp hdump
    have hheld : d₁.dumpLock ≠ false := by simp [hfailed.held]
    exact ⟨hfailed.dumped ▸ h.bytes.trans hfailed.bytes, hfailed.dumped ▸ h.sizes.trans hfailed.sizes,
      fun hfree => absurd hfree hheld, fun hfree => absurd hfree hheld⟩

theorem Recorded.decodable_iff (h : d.Recorded) : d.Decodable ↔ d.dumpLock = false :=
  ⟨And.left, fun hfree => ⟨hfree, decode_of_files (h.bytes_eq hfree) (h.sizes_eq hfree)⟩⟩

end Dump

variable {maxRequests : Nat} {sha256 : List UInt8 → Digest} {s s' : System maxRequests}
  {e : Event maxRequests} {reply : Reply maxRequests}

/-- Only an `isend` that takes a request touches the dump. -/
theorem System.call_dump (h : s.call sha256 e = some (reply, s')) :
    s'.world.dump = s.world.dump ∧
      (∀ c data calls, e = .isend c data calls → s.world.Refuses .sendReq c calls) ∨
    ∃ c data calls ret, e = .isend c data calls ∧ ¬ s.world.Refuses .sendReq c calls ∧
      dumpSend s.world.dump data calls.dump = some (ret, s'.world.dump) := by
  unfold System.call at h
  split_ifs at h
  cases e with
  | isend c data calls =>
      obtain ⟨hisend, -⟩ := System.started_some h
      rcases netDedupIsend_cases hisend with ⟨hrefuses, -, hw⟩ | ⟨hrefuses, comm, ret, hdump, -⟩
      · refine Or.inl ⟨congrArg _ hw, fun c' data' calls' heq => ?_⟩
        obtain ⟨rfl, rfl, rfl⟩ := Event.isend.inj heq
        exact hrefuses
      · exact Or.inr ⟨c, data, calls, ret, rfl, hrefuses, hdump⟩
  | irecv c size data calls =>
      obtain ⟨hirecv, -⟩ := System.started_some h
      rcases netDedupIrecv_cases hirecv with ⟨-, -, hw⟩ | ⟨comm, -, hdump⟩
      · exact Or.inl ⟨congrArg _ hw, by simp⟩
      · exact Or.inl ⟨hdump, by simp⟩
  | test request events =>
      cases request with
      | none =>
          obtain ⟨⟨reply', w⟩, hw, h⟩ := Option.map_eq_some_iff.mp h
          obtain ⟨-, rfl⟩ := Prod.mk.injEq .. ▸ h
          obtain ⟨-, rfl⟩ := Prod.mk.injEq .. ▸ Option.some_inj.mp hw
          exact Or.inl ⟨rfl, by simp⟩
      | some r =>
          simp only at h
          split_ifs at h
          obtain ⟨⟨reply', w⟩, hw, h⟩ := Option.map_eq_some_iff.mp h
          obtain ⟨-, rfl⟩ := Prod.mk.injEq .. ▸ h
          obtain ⟨comm, w₁, hp, -, -, hdump, -⟩ := netDedupTest_cases hw
          exact Or.inl ⟨hdump.trans hp.dump, by simp⟩
  | connect handle c fd calls =>
      exact Or.inl ⟨(netDedupConnect_cases (System.moved_some h).1).1.dump, by simp⟩
  | accept listenComm c fd calls =>
      exact Or.inl ⟨(netDedupAccept_cases (System.moved_some h).1).1.dump, by simp⟩
  | closeSend c =>
      exact Or.inl ⟨(World.closeComm_some (System.closed_some h).1).1.dump, by simp⟩
  | closeRecv c =>
      exact Or.inl ⟨(World.closeComm_some (System.closed_some h).1).1.dump, by simp⟩
  | arrive fd bs =>
      have hw := Option.some_inj.mp (System.moved_some h).1
      exact Or.inl ⟨hw ▸ rfl, by simp⟩
  | other proc =>
      have hw := Option.some_inj.mp (System.moved_some h).1
      exact Or.inl ⟨hw ▸ rfl, by simp⟩

/-- An `isend` that takes a request finds room for its record in both files. -/
def System.DumpComplete (s : System maxRequests) : Event maxRequests → Prop
  | .isend c data calls => ¬ s.world.Refuses .sendReq c calls → calls.dump.Complete data
  | _ => True

theorem System.step_recorded (h : s.world.dump.Recorded) (hs : s.step sha256 e = some s') :
    s'.world.dump.Recorded := by
  obtain ⟨⟨reply, s₁⟩, hcall, rfl⟩ := Option.map_eq_some_iff.mp hs
  rcases System.call_dump hcall with ⟨hdump, -⟩ | ⟨c, data, calls, ret, -, -, hdump⟩
  · exact hdump ▸ h
  · exact h.dumpSend hdump

/-- Once the lock was left held, nothing is dumped any more. -/
theorem System.step_held (h : s.world.dump.dumpLock = true) (hs : s.step sha256 e = some s') :
    s'.world.dump = s.world.dump := by
  obtain ⟨⟨reply, s₁⟩, hcall, rfl⟩ := Option.map_eq_some_iff.mp hs
  rcases System.call_dump hcall with ⟨hdump, -⟩ | ⟨c, data, calls, ret, -, -, hdump⟩
  · exact hdump
  · rw [Dump.dumpSend_held h] at hdump
    exact absurd hdump (by simp)

/-- A call leaves the lock free exactly when its dump, if any, is complete. -/
theorem System.step_free_iff (hfree : s.world.dump.dumpLock = false)
    (hs : s.step sha256 e = some s') : s'.world.dump.dumpLock = false ↔ s.DumpComplete e := by
  obtain ⟨⟨reply, s₁⟩, hcall, rfl⟩ := Option.map_eq_some_iff.mp hs
  rcases System.call_dump hcall with ⟨hdump, hrefuses⟩ | ⟨c, data, calls, ret, rfl, htakes, hdump⟩
  · refine iff_of_true (hdump ▸ hfree) ?_
    cases e with
    | isend c data calls => exact fun htakes => absurd (hrefuses c data calls rfl) htakes
    | connect | accept | irecv | test | closeSend | closeRecv | arrive | other => trivial
  · have hcomplete : s.DumpComplete (.isend c data calls) ↔ calls.dump.Complete data :=
      ⟨fun h => h htakes, fun h _ => h⟩
    rw [hcomplete]
    by_cases h : calls.dump.Complete data
    · rw [Dump.dumpSend_complete hfree h] at hdump
      obtain ⟨-, hrecord⟩ := Prod.mk.injEq .. ▸ Option.some_inj.mp hdump
      exact iff_of_true (hrecord ▸ rfl) h
    · obtain ⟨d, hshort, hfailed⟩ := Dump.dumpSend_short hfree h
      rw [hshort] at hdump
      obtain ⟨-, rfl⟩ := Prod.mk.injEq .. ▸ Option.some_inj.mp hdump
      exact iff_of_false (by simp [hfailed.held]) h

/-- The dump of a process that has dumped nothing. -/
def Dump.fresh : Dump := ⟨false, [], [], []⟩

theorem Dump.fresh_recorded : Dump.fresh.Recorded :=
  ⟨List.prefix_refl _, List.prefix_refl _, fun _ => rfl, fun _ => rfl⟩

/-- Whatever the files take, they begin with the messages whose dump succeeded. -/
theorem run_recorded {es : List (Event maxRequests)} (hstart : s.world.dump = .fresh)
    (hrun : Run.run (System.step sha256) s es = some s') : s'.world.dump.Recorded :=
  Run.run_invariant_all (I := fun s => s.world.dump.Recorded) (fun _ _ _ => System.step_recorded)
    (hstart ▸ Dump.fresh_recorded) hrun

/-- Along a run, every call leaves the lock free and the files decodable exactly when every
`isend` that takes a request finds room for its record. -/
theorem run_dumpDecodable_iff {es : List (Event maxRequests)} (hstart : s.world.dump = .fresh)
    (hrun : Run.run (System.step sha256) s es ≠ none) :
    Run.Guarded (System.step sha256)
      (fun s e => ∀ s', s.step sha256 e = some s' → s'.world.dump.Decodable) s es ↔
    Run.Guarded (System.step sha256) System.DumpComplete s es := by
  refine Run.guarded_iff (I := fun s => s.world.dump.Recorded ∧ s.world.dump.dumpLock = false)
    (fun s e s' hI hs => ?_) (fun s e s' hI hcomplete hs => ?_) ?_ hrun
  · rw [← System.step_free_iff hI.2 hs, ← (System.step_recorded hI.1 hs).decodable_iff]
    exact ⟨fun h => h s' hs, fun h s₁ hs₁ => Option.some_inj.mp (hs.symm.trans hs₁) ▸ h⟩
  · exact ⟨System.step_recorded hI.1 hs, (System.step_free_iff hI.2 hs).mpr hcomplete⟩
  · rw [hstart]
    exact ⟨Dump.fresh_recorded, rfl⟩

/-- An `isend` whose dump fails has taken its request and hands out none. -/
theorem System.step_failedDump {c : Nat} {comm : DedupComm maxRequests} {data : Message}
    {calls : StartCalls} {dump : Dump} (halive : s.world.killed = false)
    (hcomm : s.world.comm? .sendReq c = some comm)
    (hactive : s.world.activeFd comm.fd = some false) (hlock : calls.trylock = true)
    (hdump : dumpSend s.world.dump data calls.dump = some (-1, dump)) :
    s.step sha256 (.isend c data calls) = some ⟨{ s.world.takeRequest c comm
      (.sendReq comm.fd ⟨isendRequest data.val, none⟩) with dump := dump }, s.outstanding⟩ := by
  have hisend : netDedupIsend sha256 s.world c data calls = some (.systemError,
      { s.world.takeRequest c comm (.sendReq comm.fd ⟨isendRequest data.val, none⟩) with
        dump := dump }) := by
    have htaken : (s.world.takeRequest c comm (.sendReq comm.fd ⟨isendRequest data.val, none⟩)).dump =
        s.world.dump := rfl
    simp [netDedupIsend, hcomm, hactive, hlock, htaken, hdump]
  simp [System.step, System.call, halive, System.started, hisend, Reply.handedOut]

/-- A start call that would block, and what the dump files take before. -/
def dumpingCalls (bytesTaken sizeTaken : Nat) : StartCalls :=
  { blockedCalls with dump := ⟨bytesTaken, sizeTaken⟩ }

/-- Two comms over two descriptors. Each takes a message; the first one then refuses another. -/
def dumpTwice : List (Event 1) :=
  [.connect 0 0 5 readyCalls, .connect 0 0 5 readyCalls, .connect 1 1 6 readyCalls,
    .connect 1 1 6 readyCalls, .isend 0 ⟨[1, 2, 3], by decide⟩ (dumpingCalls 3 4),
    .isend 0 ⟨[9, 9], by decide⟩ (dumpingCalls 0 0),
    .isend 1 ⟨[4, 5], by decide⟩ (dumpingCalls 2 4)]

/-- Both messages can be read from the files. -/
theorem run_dumpDecodable_dumpTwice :
    Run.Guarded (System.step fun _ => zeroDigest)
      (fun s e => ∀ s', s.step (fun _ => zeroDigest) e = some s' → s'.world.dump.Decodable)
      (.init 1 freshProcess) dumpTwice ∧
    (Run.run (System.step fun _ => zeroDigest) (.init 1 freshProcess) dumpTwice).map
      (fun s => decodeDump s.world.dump) = some (some [[1, 2, 3], [4, 5]]) := by
  refine ⟨(@run_dumpDecodable_iff 1 _ (.init 1 freshProcess) dumpTwice rfl fun h => ?_).mpr ?_, ?_⟩
  · exact Option.some_ne_none _ h
  · refine ⟨trivial, trivial, trivial, trivial, fun _ => ⟨Nat.le_refl _, Nat.le_refl _⟩,
      fun htakes => absurd ?_ htakes, fun _ => ⟨Nat.le_refl _, Nat.le_refl _⟩, trivial⟩
    exact ⟨_, rfl, Or.inl rfl⟩
  · decide +kernel

theorem longMessage_lt : (List.replicate 8192 (7 : UInt8)).length < 2 ^ 31 := by
  rw [List.length_replicate]
  decide

/-- A message that does not fit a stream buffer of 4096 bytes. -/
def longMessage : Message := ⟨List.replicate 8192 7, longMessage_lt⟩

/-- Two connects on the same handle, and a send of which the bytes file takes one buffer. -/
def shortDump : List (Event 1) :=
  [.connect 0 0 5 readyCalls, .connect 0 0 5 readyCalls, .isend 0 longMessage (dumpingCalls 4096 4)]

/-- The send returns with the lock held and files that do not decode, and no later send gets
past the lock. -/
theorem run_dumpDecodable_fails :
    ∃ s', Run.run (System.step fun _ => zeroDigest) (.init 1 freshProcess) shortDump = some s' ∧
      s'.world.dump = ⟨true, List.replicate 4096 7, [], []⟩ ∧ decodeDump s'.world.dump = none ∧
      ∀ es s'', Run.run (System.step fun _ => zeroDigest) s' es = some s'' →
        s''.world.dump.dumpLock = true := by
  obtain ⟨s, hs, halive, comm, hcomm, hactive, hdump⟩ : ∃ s : System 1,
      Run.run (System.step fun _ => zeroDigest) (.init 1 freshProcess)
        [.connect 0 0 5 readyCalls, .connect 0 0 5 readyCalls] = some s ∧
      s.world.killed = false ∧ ∃ comm, s.world.comm? .sendReq 0 = some comm ∧
        s.world.activeFd comm.fd = some false ∧ s.world.dump = .fresh :=
    ⟨_, rfl, rfl, _, rfl, rfl, rfl⟩
  have hshort : dumpSend s.world.dump longMessage (dumpingCalls 4096 4).dump =
      some (-1, ⟨true, List.replicate 4096 7, [], []⟩) := by
    have hlength : 4096 < longMessage.val.length := by
      rw [longMessage, List.length_replicate]
      decide
    have htake : longMessage.val.take 4096 = List.replicate 4096 7 := by
      rw [longMessage, List.take_replicate, Nat.min_eq_left (by decide)]
    rw [hdump, Dump.dumpSend_shortBytes rfl hlength]
    exact congrArg (fun bytes => some (-1, Dump.mk true bytes [] [])) htake
  have hstep := @System.step_failedDump _ (fun _ => zeroDigest) s _ _ _ _ _ halive hcomm hactive rfl
    hshort
  have hrun := @Run.run_append _ _ (System.step fun _ => zeroDigest) (.init 1 freshProcess)
    [.connect 0 0 5 readyCalls, .connect 0 0 5 readyCalls]
    [.isend 0 longMessage (dumpingCalls 4096 4)]
  rw [hs, Option.bind_some, Run.run, hstep, Option.bind_some, Run.run] at hrun
  have hdecode : decodeDump ⟨true, List.replicate 4096 7, [], []⟩ = none := by
    rw [decodeDump, List.replicate_succ]
    rfl
  refine ⟨_, hrun, rfl, hdecode, fun es s'' hrun => ?_⟩
  exact Run.run_invariant_all (I := fun s : System 1 => s.world.dump.dumpLock = true)
    (fun s e s' h hs => (System.step_held h hs) ▸ h) rfl hrun

end NetDedup.Comm

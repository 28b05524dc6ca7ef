import NetDedup.Delivery.Headers
import NetDedup.Delivery.Turns
import NetDedup.Lib.Endless

/-!
# No message gets stuck

Along a run without an end, both ends of a connection get done with every message
that both have begun, as long as each of them is processed again and again with
sockets that move bytes. Other connections may do whatever they like.
-/

namespace NetDedup.Delivery

open Chunking Comm Filter Store Transfer

variable {Node Conn : Type} [DecidableEq Node] [DecidableEq Conn]
  {x : Conn → Exchange Node} {C : Set (List UInt8)} {sha256 : List UInt8 → Digest}

/-- What an event at one connection does to the links. -/
theorem System.next_links {s s' : System Node Conn} {j : Conn} {event : Event Node}
    (h : s.next x (j, event) = some s') :
    Link.Steps (x j) (s.links j) event (s'.links j) ∧ ∀ c, c ≠ j → s'.links c = s.links c := by
  obtain ⟨w, hnext, hrest⟩ := Option.bind_eq_some_iff.mp h
  obtain rfl := Option.some_inj.mp hrest
  refine ⟨?_, fun c hc => Function.update_of_ne hc _ _⟩
  simp only [Function.update_self]
  exact World.next_steps hnext

section Endless

variable {s : ℕ → System Node Conn} {events : ℕ → Conn × Event Node}

variable (hrun : Run.Endless (System.next x) s events)

include hrun

/-- The link of a connection after an event of its own. -/
theorem link_steps {c : Conn} {n : ℕ} {event : Event Node} (hevent : events n = (c, event)) :
    Link.Steps (x c) ((s n).links c) event ((s (n + 1)).links c) := by
  have hnext := hrun n
  rw [hevent] at hnext
  exact (System.next_links hnext).1

/-- The link of a connection after an event of another one. -/
theorem link_stays {c : Conn} {n : ℕ} (hother : (events n).1 ≠ c) :
    (s (n + 1)).links c = (s n).links c :=
  (System.next_links (hrun n)).2 c hother.symm

/-- What the events of a connection keep true of its link stays true of it. -/
theorem link_keeps {c : Conn} {P : Link → Prop}
    (hP : ∀ l event l', Link.Steps (x c) l event l' → P l → P l') {k n : ℕ} (hn : k ≤ n)
    (hk : P ((s k).links c)) : P ((s n).links c) := by
  induction n, hn using Nat.le_induction with
  | base => exact hk
  | succ n hn ih =>
      by_cases hc : (events n).1 = c
      · exact hP _ _ _ (link_steps hrun (Prod.ext hc rfl)) ih
      · rw [link_stays hrun hc]
        exact ih

/-- What stays true of the link of a connection meets an event that comes again and again. -/
theorem link_meets {c : Conn} {A : ℕ → Prop} {P Q : Link → Prop} (hA : ∃ᶠ n in atTop, A n)
    (hP : ∀ l event l', Link.Steps (x c) l event l' → P l → P l')
    (hQ : ∀ n, A n → P ((s n).links c) → Q ((s (n + 1)).links c)) {k : ℕ}
    (hk : P ((s k).links c)) : ∃ n, k ≤ n ∧ Q ((s n).links c) :=
  Run.exists_turn hA (P := fun s : System Node Conn => P (s.links c))
    (Q := fun s => Q (s.links c)) (fun n _ => link_keeps hrun hP (Nat.le_succ n)) (fun n _ => hQ n) hk

variable (hsha : ∀ i, (x i).sha256 = sha256) (hC : Distinct sha256 C)
  (hmessages : ∀ i m, Sendable sha256 C ((x i).messages m)) (hs : (s 0).Correct x C)
  (hpermitted : ∀ n, (s n).Permitted x C (events n))

include hsha hC hmessages hs hpermitted

theorem endless_correct (n : ℕ) : (s n).Correct x C := by
  refine hrun.always hpermitted (fun s event s' h hevent hnext => ?_) hs (Nat.zero_le n)
  obtain ⟨s₁, hs₁, hcorrect, -⟩ := h.goes hsha hC hmessages (h.allowed hevent)
  obtain rfl := Option.some_inj.mp (hs₁.symm.trans hnext)
  exact hcorrect

/-- What both ends of a connection have begun, both get done with. -/
theorem endless_done {c : Conn}
    (hsend : ∃ᶠ n in atTop, ∃ choice : Choice, choice.Ready ∧ events n = (c, .processSend choice))
    (hrecv : ∃ᶠ n in atTop, ∃ choice : Choice, choice.Ready ∧ events n = (c, .processRecv choice))
    {i k : ℕ} (hbegun : ((s k).links c).Begun i) :
    ∃ n, k ≤ n ∧ ((s n).links c).SendDone i ∧ ((s n).links c).RecvDone i := by
  have hcorrect := endless_correct hrun hsha hC hmessages hs hpermitted
  have hwithin (n : ℕ) : ((s n).links c).Within (x c) := by
    obtain ⟨_, _, _, _, _, h⟩ := hcorrect n c
    exact h.within
  have hmeet (n : ℕ) (hsend : ((s n).links c).SendRests i) (hrecv : ((s n).links c).RecvRests i) :
      ((s n).links c).SendDone i ∧ ((s n).links c).RecvDone i := by
    obtain ⟨_, _, _, _, _, h⟩ := hcorrect n c
    exact h.done_of_rests (fun m => hsha c ▸ hmessages c m) hsend hrecv
  have hbegun' (n : ℕ) (hn : k ≤ n) : ((s n).links c).Begun i :=
    link_keeps hrun (fun _ _ _ hstep => hstep.begun) hn hbegun
  have hle (n : ℕ) (hn : k ≤ n) :
      ((s (n + 1)).links c).rest (x c) i ≤ ((s n).links c).rest (x c) i := by
    by_cases hc : (events n).1 = c
    · exact (link_steps hrun (Prod.ext hc rfl)).rest_le (hbegun' n hn) (hwithin n) (hwithin (n + 1))
    · rw [link_stays hrun hc]
  have hsendRests (n : ℕ) (hn : k ≤ n) (hturn : ((s n).links c).SendRests i ∨
      ∃ choice : Choice, choice.Ready ∧ events n = (c, .processSend choice)) :
      ((s (n + 1)).links c).rest (x c) i < ((s n).links c).rest (x c) i ∨
        ((s (n + 1)).links c).SendRests i := by
    by_cases hc : (events n).1 = c
    · refine (link_steps hrun (Prod.ext hc rfl)).sendRests (hbegun' n hn) (hwithin n)
        (hwithin (n + 1)) (hmeet n) (hturn.imp_right fun ⟨choice, hready, h⟩ => ?_)
      exact ⟨choice, congrArg Prod.snd h, hready⟩
    · rw [link_stays hrun hc]
      exact Or.inr (hturn.resolve_right fun ⟨choice, _, h⟩ => hc (congrArg Prod.fst h))
  have hrecvRests (n : ℕ) (hn : k ≤ n)
      (hturn : ∃ choice : Choice, choice.Ready ∧ events n = (c, .processRecv choice)) :
      ((s (n + 1)).links c).rest (x c) i < ((s n).links c).rest (x c) i ∨
        ((s n).links c).RecvRests i := by
    obtain ⟨choice, hready, hevent⟩ := hturn
    exact (link_steps hrun hevent).recvRests hready (hbegun' n hn) (hwithin n) (hwithin (n + 1))
  obtain ⟨n, hn, hrestsS, hrestsR⟩ := @Run.exists_both _ _ s _ _
    (fun s => (s.links c).rest (x c) i) k _ _ (fun s => (s.links c).SendRests i)
    (fun s => (s.links c).RecvRests i) hle (fun n hn h => hsendRests n hn (Or.inr h))
    (fun n hn h => hsendRests n hn (Or.inl h)) hrecvRests hsend hrecv
  exact ⟨n, hn, hmeet n hrestsS hrestsR⟩

/-- When all calls are made again and again, any number of messages is reported at both ends. -/
theorem endless_reported {c : Conn} (hisend : ∃ᶠ n in atTop, events n = (c, .isend))
    (hirecv : ∃ᶠ n in atTop, ∃ size buffer, events n = (c, .irecv size buffer))
    (hsend : ∃ᶠ n in atTop, ∃ choice : Choice, choice.Ready ∧ events n = (c, .processSend choice))
    (hrecv : ∃ᶠ n in atTop, ∃ choice : Choice, choice.Ready ∧ events n = (c, .processRecv choice))
    (hsendDone : ∃ᶠ n in atTop, events n = (c, .sendDone))
    (hrecvDone : ∃ᶠ n in atTop, events n = (c, .recvDone)) (i : ℕ) :
    ∃ n, i ≤ ((s n).links c).sent ∧ i ≤ ((s n).links c).receipts.length := by
  induction i with
  | zero => exact ⟨0, Nat.zero_le _, Nat.zero_le _⟩
  | succ i ih =>
      obtain ⟨k, hk⟩ := ih
      obtain ⟨k, -, hk⟩ := link_meets hrun hisend
        (P := fun l => i ≤ l.sent ∧ i ≤ l.receipts.length)
        (Q := fun l => l.SendBegun i ∧ i ≤ l.receipts.length)
        (fun _ _ _ h hl => ⟨hl.1.trans h.sent_le, hl.2.trans h.receipts_le⟩)
        (fun n hn hl => ⟨(link_steps hrun hn).begins_send hl.1,
          hl.2.trans (link_steps hrun hn).receipts_le⟩) hk
      obtain ⟨k, -, hk⟩ := link_meets hrun hirecv
        (P := fun l => l.SendBegun i ∧ i ≤ l.receipts.length) (Q := fun l => l.Begun i)
        (fun _ _ _ h hl => ⟨h.sendBegun hl.1, hl.2.trans h.receipts_le⟩)
        (fun n ⟨_, _, hn⟩ hl => ⟨(link_steps hrun hn).sendBegun hl.1,
          (link_steps hrun hn).begins_recv hl.2⟩) hk
      obtain ⟨k, -, hk⟩ :=
        endless_done hrun hsha hC hmessages hs hpermitted hsend hrecv hk
      obtain ⟨k, -, hk⟩ := link_meets hrun hsendDone
        (P := fun l => l.SendDone i ∧ l.RecvDone i) (Q := fun l => i < l.sent ∧ l.RecvDone i)
        (fun _ _ _ h hl => ⟨h.sendDone_stays hl.1, h.recvDone_stays hl.2⟩)
        (fun n hn hl => ⟨(link_steps hrun hn).reports_send hl.1,
          (link_steps hrun hn).recvDone_stays hl.2⟩) hk
      obtain ⟨k, -, hk⟩ := link_meets hrun hrecvDone
        (P := fun l => i < l.sent ∧ l.RecvDone i)
        (Q := fun l => i < l.sent ∧ i < l.receipts.length)
        (fun _ _ _ h hl => ⟨hl.1.trans_le h.sent_le, h.recvDone_stays hl.2⟩)
        (fun n hn hl => ⟨hl.1.trans_le (link_steps hrun hn).sent_le,
          (link_steps hrun hn).reports_recv hl.2⟩) hk
      exact ⟨k, hk⟩

end Endless

section Endless

variable {s : ℕ → System Node Conn} {events : ℕ → Conn × Event Node}
  (hrun : Run.Endless (System.next x) s events) (hsha : ∀ i, (x i).sha256 = sha256)
  (hC : Distinct sha256 C) (hmessages : ∀ i m, Sendable sha256 C ((x i).messages m))
  (hs : ∀ i, ((s 0).world i).Fresh (x i) C) (hpermitted : ∀ n, (s n).Permitted x C (events n))

include hrun hsha hC hmessages hs hpermitted

/-- Once both ends of a connection have begun a message, both get done with it, if both
are processed again and again. -/
theorem runAll_completes {c : Conn}
    (hsend : ∃ᶠ n in atTop, ∃ choice : Choice, choice.Ready ∧ events n = (c, .processSend choice))
    (hrecv : ∃ᶠ n in atTop, ∃ choice : Choice, choice.Ready ∧ events n = (c, .processRecv choice))
    {i k : ℕ} (hbegun : ((s k).links c).Begun i) :
    ∃ n, k ≤ n ∧ ((s n).links c).SendDone i ∧ ((s n).links c).RecvDone i :=
  endless_done hrun hsha hC hmessages (fun i => (hs i).correct) hpermitted hsend hrecv hbegun

/-- When all calls are made again and again, every message of a connection is delivered
and reported at both ends. -/
theorem runAll_completes_all {c : Conn} (hisend : ∃ᶠ n in atTop, events n = (c, .isend))
    (hirecv : ∃ᶠ n in atTop, ∃ size buffer, events n = (c, .irecv size buffer))
    (hsend : ∃ᶠ n in atTop, ∃ choice : Choice, choice.Ready ∧ events n = (c, .processSend choice))
    (hrecv : ∃ᶠ n in atTop, ∃ choice : Choice, choice.Ready ∧ events n = (c, .processRecv choice))
    (hsendDone : ∃ᶠ n in atTop, events n = (c, .sendDone))
    (hrecvDone : ∃ᶠ n in atTop, events n = (c, .recvDone)) (i : ℕ) :
    ∃ n, i < ((s n).links c).sent ∧ ∃ hi : i < ((s n).links c).receipts.length,
      Delivered ((x c).messages i) ((s n).links c).receipts[i] := by
  have hcorrect : (s 0).Correct x C := fun i => (hs i).correct
  obtain ⟨n, hsent, hreceived⟩ := endless_reported hrun hsha hC hmessages hcorrect hpermitted hisend
    hirecv hsend hrecv hsendDone hrecvDone (i + 1)
  have hn := endless_correct hrun hsha hC hmessages hcorrect hpermitted n c
  exact ⟨n, hsent, hreceived, hn.allDelivered.delivered i hreceived⟩

end Endless

/-- However the steps of all connections interleave, no step faults, every receive of
every connection gets its message, and no wire carries a chunk that the receiving
node had when it posted the receive, whichever connection had brought it there. -/
theorem runAll_delivers {s : System Node Conn} (hsha : ∀ i, (x i).sha256 = sha256)
    (hC : Distinct sha256 C) (hmessages : ∀ i m, Sendable sha256 C ((x i).messages m))
    (hs : ∀ i, (s.world i).Fresh (x i) C) {events : List (Conn × Event Node)}
    (hallowed : Run.Guarded (System.next x) (System.Allowed x C) s events) :
    ∃ s', Run.run (System.next x) s events = some s' ∧
      ∀ i, (s'.world i).AllDelivered (x i) ∧ ∃ missing, (s'.world i).OnWire (x i) missing := by
  have hcorrect : s.Correct x C := fun i => (hs i).correct
  have hstep (s : System Node Conn) (event : Conn × Event Node) (h : s.Correct x C)
      (hevent : s.Allowed x C event) : ∃ s', s.next x event = some s' ∧ s'.Correct x C := by
    obtain ⟨s', hnext, hcorrect', -⟩ := h.goes hsha hC hmessages hevent
    exact ⟨s', hnext, hcorrect'⟩
  obtain ⟨s', hrun, hcorrect'⟩ := Run.run_total hstep hcorrect hallowed
  refine ⟨s', hrun, fun i => ⟨(hcorrect' i).allDelivered, ?_⟩⟩
  obtain ⟨missing, _, _, _, _, h⟩ := hcorrect' i
  exact ⟨missing, h.onWire⟩

section Zeros

/-- Two connections that send the same message over and over, from one node to another. -/
def zerosLinks : System Bool Bool := ⟨zerosFresh.caches, fun _ => zerosFresh.toLink⟩

theorem zerosLinks_fresh (i : Bool) :
    (System.world zerosLinks i).Fresh zerosExchange zerosContents := zerosFresh_fresh

/-- All calls at both connections, in turn. -/
def zerosLinksCycle : List (Bool × Event Bool) :=
  zerosCycle.map (false, ·) ++ zerosCycle.map (true, ·)

def zerosCalls (n : ℕ) : Bool × Event Bool := zerosLinksCycle.get (Fin.ofNat 12 n)

theorem zerosCalls_often {event : Bool × Event Bool} (h : event ∈ zerosLinksCycle) :
    ∃ᶠ n in atTop, zerosCalls n = event := by
  obtain ⟨j, rfl⟩ := List.mem_iff_get.mp h
  refine frequently_atTop.mpr fun n => ⟨12 * n + j, by omega, ?_⟩
  rw [zerosCalls]
  congr 1
  refine Fin.ext ?_
  have hlt : j.val < 12 := j.isLt
  simp [Fin.ofNat, Nat.mod_eq_of_lt hlt]

theorem zerosCalls_at {event : Event Bool} (h : event ∈ zerosCycle) (c : Bool) :
    ∃ᶠ n in atTop, zerosCalls n = (c, event) := by
  refine zerosCalls_often ?_
  rw [zerosLinksCycle, List.mem_append, List.mem_map, List.mem_map]
  cases c with
  | false => exact Or.inl ⟨event, h, rfl⟩
  | true => exact Or.inr ⟨event, h, rfl⟩

theorem manyBytes_ready : manyBytes.Ready := ⟨⟨65535, rfl⟩, rfl⟩

theorem zerosLinksCycle_permitted {event : Bool × Event Bool} (h : event ∈ zerosLinksCycle)
    (s : System Bool Bool) : s.Permitted (fun _ => zerosExchange) zerosContents event := by
  rw [zerosLinksCycle, List.mem_append, List.mem_map, List.mem_map] at h
  rcases h with ⟨event, hmem, rfl⟩ | ⟨event, hmem, rfl⟩
  · exact zerosCycle_permitted event hmem _
  · exact zerosCycle_permitted event hmem _

theorem zerosCalls_permitted (n : ℕ) (s : System Bool Bool) :
    s.Permitted (fun _ => zerosExchange) zerosContents (zerosCalls n) :=
  zerosLinksCycle_permitted (List.get_mem _ _) s

/-- Calls that are permitted in every state make a run without an end, and report any
number of messages of a connection at which all of them are made again and again. -/
theorem zeros_endless {s₀ : System Bool Bool}
    (hs : s₀.Correct (fun _ => zerosExchange) zerosContents) {events : ℕ → Bool × Event Bool}
    (hpermitted : ∀ n s, System.Permitted (fun _ => zerosExchange) zerosContents s (events n)) :
    ∃ s : ℕ → System Bool Bool, s 0 = s₀ ∧
      Run.Endless (System.next fun _ => zerosExchange) s events ∧
      ∀ c, (∀ event ∈ zerosCycle, ∃ᶠ n in atTop, events n = (c, event)) → ∀ i,
        ∃ n, i ≤ ((s n).links c).sent ∧ i ≤ ((s n).links c).receipts.length := by
  have hstep (n : ℕ) (s : System Bool Bool)
      (h : s.Correct (fun _ => zerosExchange) zerosContents) :
      ∃ s', s.next (fun _ => zerosExchange) (events n) = some s' ∧
        s'.Correct (fun _ => zerosExchange) zerosContents := by
    obtain ⟨s', hnext, hcorrect, -⟩ := h.goes (fun _ => rfl) zeros_distinct
      (fun _ => zeros_sendable) (h.allowed (hpermitted n s))
    exact ⟨s', hnext, hcorrect⟩
  obtain ⟨s, rfl, hrun, -⟩ := Run.exists_endless hs hstep
  refine ⟨s, rfl, hrun, fun c hoften => ?_⟩
  exact endless_reported hrun (fun _ => rfl) zeros_distinct (fun _ => zeros_sendable) hs
    (fun n => hpermitted n (s n)) (hoften _ (by simp [zerosCycle]))
    ((hoften (.irecv 12288 fun _ => 0) (by simp [zerosCycle])).mono fun n hn => ⟨_, _, hn⟩)
    ((hoften (.processSend manyBytes) (by simp [zerosCycle])).mono fun n hn =>
      ⟨_, manyBytes_ready, hn⟩)
    ((hoften (.processRecv manyBytes) (by simp [zerosCycle])).mono fun n hn =>
      ⟨_, manyBytes_ready, hn⟩)
    (hoften _ (by simp [zerosCycle])) (hoften _ (by simp [zerosCycle]))

theorem zerosCalls_endless : ∃ s : ℕ → System Bool Bool, s 0 = zerosLinks ∧
    Run.Endless (System.next fun _ => zerosExchange) s zerosCalls ∧ ∀ c i,
      ∃ n, i ≤ ((s n).links c).sent ∧ i ≤ ((s n).links c).receipts.length := by
  obtain ⟨s, hs, hrun, hreported⟩ :=
    zeros_endless (fun i => (zerosLinks_fresh i).correct) zerosCalls_permitted
  exact ⟨s, hs, hrun, fun c => hreported c fun event h => zerosCalls_at h c⟩

/-- Both connections get done with their first message. -/
theorem runAll_completes_zeros : ∃ s : ℕ → System Bool Bool, s 0 = zerosLinks ∧
    ∀ c, ∃ n, ((s n).links c).SendDone 0 ∧ ((s n).links c).RecvDone 0 := by
  obtain ⟨s, hs, hrun, -⟩ := zerosCalls_endless
  have hbegun (c : Bool) : ∃ k, ((s k).links c).Begun 0 := by
    cases c with
    | false =>
        have hsend := (link_steps hrun (rfl : zerosCalls 0 = _)).begins_send (Nat.zero_le _)
        have hstep := link_steps hrun (rfl : zerosCalls 1 = _)
        exact ⟨2, hstep.sendBegun hsend, hstep.begins_recv (Nat.zero_le _)⟩
    | true =>
        have hsend := (link_steps hrun (rfl : zerosCalls 6 = _)).begins_send (Nat.zero_le _)
        have hstep := link_steps hrun (rfl : zerosCalls 7 = _)
        exact ⟨8, hstep.sendBegun hsend, hstep.begins_recv (Nat.zero_le _)⟩
  refine ⟨s, hs, fun c => ?_⟩
  obtain ⟨k, hk⟩ := hbegun c
  obtain ⟨n, -, hdone⟩ := runAll_completes hrun (fun _ => rfl) zeros_distinct
    (fun _ => zeros_sendable) (hs ▸ zerosLinks_fresh) (fun n => zerosCalls_permitted n (s n))
    ((zerosCalls_at (by simp [zerosCycle]) c).mono fun n hn => ⟨manyBytes, manyBytes_ready, hn⟩)
    ((zerosCalls_at (by simp [zerosCycle]) c).mono fun n hn => ⟨manyBytes, manyBytes_ready, hn⟩) hk
  exact ⟨n, hdone⟩

/-- Every message gets through at both connections. -/
theorem runAll_completes_all_zeros : ∃ s : ℕ → System Bool Bool, s 0 = zerosLinks ∧
    ∀ c i, ∃ n, i < ((s n).links c).sent ∧ ∃ hi : i < ((s n).links c).receipts.length,
      Delivered (List.replicate 12288 0) ((s n).links c).receipts[i] := by
  obtain ⟨s, hs, hrun, -⟩ := zerosCalls_endless
  refine ⟨s, hs, fun c => ?_⟩
  exact runAll_completes_all hrun (fun _ => rfl) zeros_distinct (fun _ => zeros_sendable)
    (hs ▸ zerosLinks_fresh) (fun n => zerosCalls_permitted n (s n))
    (zerosCalls_at (by simp [zerosCycle]) c)
    ((zerosCalls_at (by simp [zerosCycle]) c).mono fun n hn => ⟨12288, fun _ => 0, hn⟩)
    ((zerosCalls_at (by simp [zerosCycle]) c).mono fun n hn => ⟨manyBytes, manyBytes_ready, hn⟩)
    ((zerosCalls_at (by simp [zerosCycle]) c).mono fun n hn => ⟨manyBytes, manyBytes_ready, hn⟩)
    (zerosCalls_at (by simp [zerosCycle]) c) (zerosCalls_at (by simp [zerosCycle]) c)

/-- After some number of calls both connections have delivered messages. -/
theorem runAll_delivers_zeros : ∃ n s', Run.run (System.next fun _ => zerosExchange) zerosLinks
    ((List.range n).map zerosCalls) = some s' ∧
      ∀ c, 2 ≤ (s'.links c).receipts.length ∧ (s'.world c).AllDelivered zerosExchange ∧
        ∃ missing, (s'.world c).OnWire zerosExchange missing := by
  obtain ⟨s, hs, hrun, hreported⟩ := zerosCalls_endless
  have hcorrect := endless_correct hrun (fun _ => rfl) zeros_distinct (fun _ => zeros_sendable)
    (hs ▸ fun i => (zerosLinks_fresh i).correct) fun n => zerosCalls_permitted n (s n)
  obtain ⟨m₀, -, h₀⟩ := hreported false 2
  obtain ⟨m₁, -, h₁⟩ := hreported true 2
  have hlater {c : Bool} {m n : ℕ} (hm : 2 ≤ ((s m).links c).receipts.length) (hn : m ≤ n) :
      2 ≤ ((s n).links c).receipts.length :=
    link_keeps hrun (P := fun l => 2 ≤ l.receipts.length)
      (fun _ _ _ hstep h => h.trans hstep.receipts_le) hn hm
  obtain ⟨s', hrun', hdelivered⟩ := runAll_delivers (fun _ => rfl) zeros_distinct
    (fun _ => zeros_sendable) zerosLinks_fresh (hs ▸ hrun.guarded_range
      (fun n => (hcorrect n).allowed (zerosCalls_permitted n (s n))) (max m₀ m₁))
  obtain rfl := Option.some_inj.mp ((hs ▸ hrun.run_range (max m₀ m₁)).symm.trans hrun')
  refine ⟨max m₀ m₁, _, hrun', fun c => ⟨?_, hdelivered c⟩⟩
  cases c with
  | false => exact hlater h₀ (le_max_left _ _)
  | true => exact hlater h₁ (le_max_right _ _)

end Zeros

end NetDedup.Delivery

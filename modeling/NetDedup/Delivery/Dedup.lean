import NetDedup.Delivery.Liveness

/-!
# Nothing is sent twice

Until `to_skip_insert_cache` is set, a receive leaves every chunk of its message in
the cache of its node. Whatever was in that cache when a later receive was posted,
over this connection or another one, is not sent again.
-/

namespace NetDedup.Delivery

open Chunking Comm Store Transfer

variable {Node Conn : Type} [DecidableEq Node] [DecidableEq Conn]

section Postings

variable {x : Exchange Node} {w w' : World Node} {event : Event Node}

/-- An event posts at most one receive, which notes the cache as it is. -/
theorem World.next_postings (h : w.next x event = some w') :
    w'.postings = w.postings ∨ w'.postings = w.postings ++ [w.caches x.recvNode] := by
  by_cases hirecv : w.receiving = none ∧ ∃ size buffer, event = .irecv size buffer
  · obtain ⟨hreceiving, size, buffer, rfl⟩ := hirecv
    obtain rfl := Option.some_inj.mp ((w.next_irecv hreceiving size buffer).symm.trans h)
    exact Or.inr (Link.postings_post hreceiving _)
  · refine Or.inl ?_
    have hsteps := World.next_steps h
    generalize w'.toLink = l' at hsteps
    cases hsteps with
    | irecv hreceiving => exact absurd ⟨hreceiving, _, _, rfl⟩ hirecv
    | processRecv skip hreceiving hadvances =>
        rw [Link.postings_some hreceiving]
        rfl
    | recvDone hreceiving => exact Link.postings_report hreceiving
    | isend => rfl
    | processSend => rfl
    | sendDone => rfl
    | stays => rfl

end Postings

/-- Every receive that a link has posted after the first `n` found the digests in `D`. -/
structure Link.Finds (l : Link) (D : Set Digest) (n : Nat) : Prop where
  le : n ≤ l.postings.length
  known : ∀ j, n ≤ j → j < l.postings.length → D ⊆ l.known j

theorem Link.Finds.append {l l' : Link} {D : Set Digest} {n : Nat} (h : l.Finds D n)
    {c : FingerprintCache} (hc : D ⊆ digests c) (hpostings : l'.postings = l.postings ++ [c]) :
    l'.Finds D n := by
  have hlen : l'.postings.length = l.postings.length + 1 := by
    rw [hpostings, List.length_append, List.length_singleton]
  refine ⟨hlen ▸ Nat.le_succ_of_le h.le, fun j hn hj => ?_⟩
  rw [hlen, Nat.lt_succ_iff_lt_or_eq] at hj
  rcases hj with hj | rfl
  · rw [Link.known, hpostings, List.getElem?_append_left hj]
    exact h.known j hn hj
  · rw [Link.known, hpostings, List.getElem?_concat_length]
    exact hc

section Runs

variable {x : Conn → Exchange Node} {C : Set (List UInt8)} {sha256 : List UInt8 → Digest}
  {s s' : System Node Conn} {D : Set Digest} {n : Nat} {d : Conn}

/-- The state of a system in which node `node` has the digests in `D` and the receives that
`d` has posted after the first `n` found them. -/
structure System.Stocked (s : System Node Conn) (node : Node) (D : Set Digest) (d : Conn)
    (n : Nat) : Prop where
  cached : D ⊆ digests (s.caches node)
  finds : (s.links d).Finds D n

theorem System.Stocked.next (h : s.Stocked (x d).recvNode D d n)
    {event : Conn × Event Node} (hnext : s.next x event = some s') (hcorrect : s.Correct x C)
    (hgrows : ∀ node, Grows (s.caches node) (s'.caches node)) :
    s'.Stocked (x d).recvNode D d n := by
  have hsound := (hcorrect d).caches (x d).recvNode
  refine ⟨h.cached.trans (hsound.digests_subset (hgrows _)), ?_⟩
  obtain ⟨j, event⟩ := event
  obtain ⟨w, hw, hrest⟩ := Option.bind_eq_some_iff.mp hnext
  obtain rfl := Option.some_inj.mp hrest
  by_cases hd : d = j
  · subst hd
    simp only [Function.update_self]
    rcases World.next_postings hw with hsame | hmore
    · exact ⟨hsame ▸ h.finds.le, fun j hn hj => by
        rw [Link.known_congr hsame]
        exact h.finds.known j hn (hsame ▸ hj)⟩
    · exact h.finds.append h.cached hmore
  · simp only [Function.update_of_ne hd]
    exact h.finds

/-- A chunk with this content has been received at `node` by a process that still inserts
what it receives. -/
def System.Brought (x : Conn → Exchange Node) (s : System Node Conn) (node : Node)
    (content : List UInt8) : Prop :=
  ∃ c, (x c).recvNode = node ∧ (s.links c).recvSkip = false ∧
    ∃ i < (s.links c).receipts.length, Long ((x c).messages i) ∧
      ∃ k < (fingerprints (x c).sha256 ((x c).messages i)).length,
        content = chunk ((x c).messages i) (fingerprints (x c).sha256 ((x c).messages i)) k

omit [DecidableEq Node] [DecidableEq Conn] in
/-- What has been received at a node is in its cache. -/
theorem System.Correct.brought (h : s.Correct x C) (hsha : ∀ i, (x i).sha256 = sha256)
    {node : Node} {content : List UInt8} (hbrought : s.Brought x node content) :
    sha256 content ∈ digests (s.caches node) := by
  obtain ⟨c, rfl, hskip, i, hi, hlong, k, hk, rfl⟩ := hbrought
  obtain ⟨_, _, _, _, _, hjoint⟩ := h c
  rw [← hsha c, ← digest_chunk hk]
  exact hjoint.held hskip i hi hlong _ (List.getElem_mem hk)

/-- Along a run, the receives posted at a node find what its cache had at the start. -/
theorem run_stocked (hsha : ∀ i, (x i).sha256 = sha256) (hC : Distinct sha256 C)
    (hmessages : ∀ i m, Sendable sha256 C ((x i).messages m)) (h : s.Correct x C)
    {events : List (Conn × Event Node)}
    (hpermitted : Run.Guarded (System.next x) (System.Permitted x C) s events) :
    ∃ s', Run.run (System.next x) s events = some s' ∧ s'.Correct x C ∧
      ∀ d, (s'.links d).Finds (digests (s.caches (x d).recvNode)) (s.links d).postings.length := by
  have hstep (s₁ : System Node Conn) (event : Conn × Event Node)
      (h₁ : s₁.Correct x C ∧ ∀ d, s₁.Stocked (x d).recvNode (digests (s.caches (x d).recvNode)) d
        (s.links d).postings.length) (hevent : s₁.Permitted x C event) :
      ∃ s₂, s₁.next x event = some s₂ ∧ s₂.Correct x C ∧
        ∀ d, s₂.Stocked (x d).recvNode (digests (s.caches (x d).recvNode)) d
          (s.links d).postings.length := by
    obtain ⟨hcorrect, hstocked⟩ := h₁
    obtain ⟨s₂, hnext, hcorrect₂, hgrows⟩ :=
      hcorrect.goes hsha hC hmessages (hcorrect.allowed hevent)
    exact ⟨s₂, hnext, hcorrect₂, fun d => (hstocked d).next hnext hcorrect hgrows⟩
  have hstart (d : Conn) : s.Stocked (x d).recvNode (digests (s.caches (x d).recvNode)) d
      (s.links d).postings.length :=
    ⟨subset_rfl, Nat.le_refl _, fun j hn hj => absurd hj (Nat.not_lt_of_le hn)⟩
  obtain ⟨s', hrun, hcorrect, hstocked⟩ := Run.run_total hstep ⟨h, hstart⟩ hpermitted
  exact ⟨s', hrun, hcorrect, fun d => (hstocked d).finds⟩

/-- A chunk that has been received at a node is not sent there again, over whichever
connection and whatever happens in between: a receive that is posted later does not ask
for it, and a message of such chunks alone costs its fingerprints and no content. -/
theorem runAll_dedups (hsha : ∀ i, (x i).sha256 = sha256) (hC : Distinct sha256 C)
    (hmessages : ∀ i m, Sendable sha256 C ((x i).messages m))
    (hs : ∀ i, (s.world i).Fresh (x i) C) {earlier later : List (Conn × Event Node)}
    (hpermitted : Run.Guarded (System.next x) (System.Permitted x C) s (earlier ++ later)) :
    ∃ s₁ s₂, Run.run (System.next x) s earlier = some s₁ ∧
      Run.run (System.next x) s₁ later = some s₂ ∧
      ∀ d, ∃ missing, (s₂.world d).OnWire (x d) missing ∧
        ∀ j, (s₁.links d).postings.length ≤ j → j < (s₂.links d).postings.length →
          (∀ k ∈ missing j, ¬ s₁.Brought x (x d).recvNode
            (chunk ((x d).messages j) (fingerprints sha256 ((x d).messages j)) k)) ∧
          (Long ((x d).messages j) →
            (∀ k < (fingerprints sha256 ((x d).messages j)).length,
              s₁.Brought x (x d).recvNode
                (chunk ((x d).messages j) (fingerprints sha256 ((x d).messages j)) k)) →
            (forwardFrames (x d) missing j).length =
                contentPos (fingerprints sha256 ((x d).messages j)) ∧
              (backwardFrames (x d) missing j).length = sizeofU64) := by
  obtain ⟨hearlier, hlater⟩ := Run.guarded_append.mp hpermitted
  have hfresh : s.Correct x C := fun i => (hs i).correct
  obtain ⟨s₁, hrun₁, hcorrect₁, -⟩ := run_stocked hsha hC hmessages hfresh hearlier
  obtain ⟨s₂, hrun₂, hcorrect₂, hfinds⟩ :=
    run_stocked hsha hC hmessages hcorrect₁ (hlater s₁ hrun₁)
  refine ⟨s₁, s₂, hrun₁, hrun₂, fun d => ?_⟩
  obtain ⟨missing, _, _, _, _, hjoint⟩ := hcorrect₂ d
  refine ⟨missing, hjoint.onWire, fun j hn hj => ?_⟩
  have hmissed := hjoint.onWire.missed j
  rw [hsha d] at hmissed
  have hknown {k : Nat} (hk : k < (fingerprints sha256 ((x d).messages j)).length)
      (hbrought : s₁.Brought x (x d).recvNode
        (chunk ((x d).messages j) (fingerprints sha256 ((x d).messages j)) k)) :
      (fingerprints sha256 ((x d).messages j))[k].fingerprint ∈ (s₂.links d).known j := by
    rw [digest_chunk hk]
    exact (hfinds d).known j hn hj (hcorrect₁.brought hsha hbrought)
  refine ⟨fun k hk hbrought => ?_, fun hlong hbrought => ?_⟩
  · have hlt := hmissed.lt k hk
    exact hmissed.fresh k hk hlt (hknown hlt hbrought)
  · have hcost := hmissed.cost_known hlong fun fp hfp => by
      obtain ⟨k, hk, rfl⟩ := List.mem_iff_getElem.mp hfp
      exact hknown hk (hbrought k hk)
    rw [forwardFrames, backwardFrames, hsha d]
    exact hcost

end Runs

section Zeros

theorem Link.receipts_le_postings (l : Link) : l.receipts.length ≤ l.postings.length := by
  rw [postings, List.length_append, List.length_map]
  exact Nat.le_add_right _ _

/-- One message over the first connection, then all calls at both of them. -/
theorem zerosTwice_permitted (n : ℕ) : Run.Guarded (System.next fun _ => zerosExchange)
    (System.Permitted (fun _ => zerosExchange) zerosContents) zerosLinks
    (zerosEvents.map (false, ·) ++ (List.range n).map zerosCalls) := by
  refine Run.Guarded.of_forall fun event hevent s => ?_
  rw [List.mem_append, List.mem_map, List.mem_map] at hevent
  rcases hevent with ⟨event, hmem, rfl⟩ | ⟨m, -, rfl⟩
  · exact zerosCycle_permitted event (zerosEvents_subset event hmem) _
  · exact zerosCalls_permitted m s

/-- The chunk is received over the first of two connections; the message then goes over the
second one without it. -/
theorem runAll_dedups_zeros : ∃ n s₁ s₂,
    Run.run (System.next fun _ => zerosExchange) zerosLinks (zerosEvents.map (false, ·)) = some s₁ ∧
    Run.run (System.next fun _ => zerosExchange) s₁ ((List.range n).map zerosCalls) = some s₂ ∧
    s₁.Brought (fun _ => zerosExchange) true (List.replicate 2048 0) ∧
    0 < (s₂.links true).receipts.length ∧
    ∃ missing, (s₂.world true).OnWire zerosExchange missing ∧ (∀ k < 6, k ∉ missing 0) ∧
      (forwardFrames zerosExchange missing 0).length = 264 ∧
      (backwardFrames zerosExchange missing 0).length = 8 := by
  obtain ⟨w, hw, -, -, -, hreceived, hskip⟩ := zerosEvents_run
  have hearlier := @System.run_of_world _ _ _ _ (fun _ => zerosExchange) zerosLinks false _ w hw
  obtain ⟨s₁, hs₁, hcorrect, -⟩ := run_stocked (fun _ => rfl) zeros_distinct
    (fun _ => zeros_sendable) (fun i => (zerosLinks_fresh i).correct)
    (Run.guarded_append.mp (zerosTwice_permitted 0)).1
  obtain rfl := Option.some_inj.mp (hearlier.symm.trans hs₁)
  obtain ⟨s, hs, hendless, hreported⟩ := zeros_endless hcorrect zerosCalls_permitted
  obtain ⟨n, -, hn⟩ := hreported true (fun event h => zerosCalls_at h true) 1
  obtain ⟨s₁, s₂, hrun₁, hrun₂, hdedups⟩ := runAll_dedups (fun _ => rfl) zeros_distinct
    (fun _ => zeros_sendable) zerosLinks_fresh (zerosTwice_permitted n)
  obtain rfl := Option.some_inj.mp (hearlier.symm.trans hrun₁)
  obtain rfl := Option.some_inj.mp ((hs ▸ hendless.run_range n).symm.trans hrun₂)
  have hbrought : System.Brought (fun _ => zerosExchange)
      ⟨w.caches, Function.update zerosLinks.links false w.toLink⟩ true (List.replicate 2048 0) := by
    have hcount : 0 < (fingerprints zerosExchange.sha256 (zerosExchange.messages 0)).length := by
      rw [zeros_count]
      decide
    refine ⟨false, rfl, ?_, 0, ?_, zeros_long 0, 0, hcount, (zeros_chunk 0 hcount).symm⟩
    · simp only [Function.update_self, hskip]
    · simp only [Function.update_self, hreceived, Nat.zero_lt_one]
  obtain ⟨missing, hwire, hknown⟩ := hdedups true
  obtain ⟨hmissing, hcost⟩ := hknown 0 (Nat.le_refl 0)
    (Nat.lt_of_lt_of_le hn (Link.receipts_le_postings _))
  have hchunk {k : Nat} (hk : k < 6) :
      chunk (zerosExchange.messages 0)
        (fingerprints zerosExchange.sha256 (zerosExchange.messages 0)) k = List.replicate 2048 0 :=
    zeros_chunk 0 (by rw [zeros_count]; exact hk)
  refine ⟨n, _, _, hrun₁, hrun₂, hbrought, hn, missing, hwire, fun k hk hmem => ?_, ?_⟩
  · refine hmissing k hmem ?_
    rw [hchunk hk]
    exact hbrought
  · have hframes := hcost (zeros_long 0) fun k hk => by
      rw [zeros_count] at hk
      rw [hchunk hk]
      exact hbrought
    rw [contentPos, zeros_count] at hframes
    exact hframes

end Zeros

end NetDedup.Delivery

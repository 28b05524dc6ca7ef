import NetDedup.Delivery.Savings

/-!
# Many connections over shared caches

Any number of connections between the processes of any number of nodes. They
share nothing but the cache of each node, which every send and every receive
inserts into.
-/

namespace NetDedup.Delivery

open Chunking Comm Store

variable {Node Conn : Type}

/-- The links of all connections and the caches of all nodes. -/
structure System (Node Conn : Type) where
  caches : Node → FingerprintCache
  links : Conn → Link

namespace System

/-- What one connection sees. -/
def world (s : System Node Conn) (i : Conn) : World Node := ⟨s.links i, s.caches⟩

variable [DecidableEq Conn]

/-- Connection `i` after its own event, and the others. -/
theorem world_self (s : System Node Conn) (i : Conn) (w : World Node) :
    System.world ⟨w.caches, Function.update s.links i w.toLink⟩ i = w := by
  simp only [world, Function.update_self]

theorem world_of_ne (s : System Node Conn) {i j : Conn} (hj : j ≠ i) (w : World Node) :
    System.world ⟨w.caches, Function.update s.links i w.toLink⟩ j =
      { s.world j with caches := w.caches } := by
  simp only [world, Function.update_of_ne hj]

variable [DecidableEq Node] (x : Conn → Exchange Node) (C : Set (List UInt8))

/-- An event at one of the connections. That a process sets `to_skip_insert_cache`
at one connection is a `setSkip` at its others. -/
def next (s : System Node Conn) (event : Conn × Event Node) : Option (System Node Conn) := do
  let w ← (s.world event.1).next (x event.1) event.2
  some ⟨w.caches, Function.update s.links event.1 w.toLink⟩

/-- What is assumed of an event at its connection. -/
def Allowed (s : System Node Conn) (event : Conn × Event Node) : Prop :=
  (s.world event.1).Allowed (x event.1) C event.2

/-- Every connection is correct on the caches as they are. -/
def Correct (s : System Node Conn) : Prop := ∀ i, (s.world i).Correct (x i) C

end System

/-- Caches that grow do not disturb a connection. -/
theorem World.Correct.grows {x : Exchange Node} {C : Set (List UInt8)} {w : World Node}
    (h : w.Correct x C) {caches : Node → FingerprintCache}
    (hsound : ∀ node, SoundCache x.sha256 C (caches node))
    (hgrows : ∀ node, Grows (w.caches node) (caches node)) :
    World.Correct x C { w with caches := caches } := by
  obtain ⟨missing, p, p', q, q', h⟩ := h
  exact ⟨missing, p, p', q, q', h.grows hsound hgrows⟩

theorem World.Correct.caches {x : Exchange Node} {C : Set (List UInt8)} {w : World Node}
    (h : w.Correct x C) (node : Node) : SoundCache x.sha256 C (w.caches node) := by
  obtain ⟨_, _, _, _, _, h⟩ := h
  exact h.caches node

section Step

variable [DecidableEq Node] [DecidableEq Conn] {x : Conn → Exchange Node} {C : Set (List UInt8)}
  {sha256 : List UInt8 → Digest} {s : System Node Conn}

/-- An event at one connection keeps all of them correct, and the caches grow. -/
theorem System.Correct.goes (h : s.Correct x C) (hsha : ∀ i, (x i).sha256 = sha256)
    (hC : Distinct sha256 C) (hmessages : ∀ i m, Sendable sha256 C ((x i).messages m))
    {event : Conn × Event Node} (hallowed : s.Allowed x C event) :
    ∃ s', s.next x event = some s' ∧ s'.Correct x C ∧
      ∀ node, Grows (s.caches node) (s'.caches node) := by
  obtain ⟨i, event⟩ := event
  have hgoes := (h i).goes (hsha i ▸ hC) (fun m => hsha i ▸ hmessages i m) hallowed
  obtain ⟨w, hnext, hcorrect, hgrows⟩ := hgoes
  have hstep : s.next x (i, event) = some ⟨w.caches, Function.update s.links i w.toLink⟩ := by
    simp only [System.next, hnext, Option.bind_eq_bind, Option.bind_some]
  refine ⟨_, hstep, fun j => ?_, hgrows⟩
  by_cases hj : j = i
  · subst hj
    rw [System.world_self]
    exact hcorrect
  · rw [System.world_of_ne s hj]
    refine (h j).grows (fun node => ?_) hgrows
    rw [hsha j, ← hsha i]
    exact hcorrect.caches node

/-- A run of one connection is a run of them all. -/
theorem System.run_of_world {i : Conn} {events : List (Event Node)} {w : World Node}
    (h : Run.run (World.next (x i)) (s.world i) events = some w) :
    Run.run (System.next x) s (events.map (i, ·)) =
      some ⟨w.caches, Function.update s.links i w.toLink⟩ := by
  induction events generalizing s with
  | nil =>
      obtain rfl := Option.some_inj.mp h
      rw [List.map_nil, Run.run, System.world, Function.update_eq_self]
  | cons event events ih =>
      obtain ⟨w₁, hnext, hrest⟩ := Option.bind_eq_some_iff.mp h
      have hstep : s.next x (i, event) = some ⟨w₁.caches, Function.update s.links i w₁.toLink⟩ := by
        simp only [System.next, hnext, Option.bind_eq_bind, Option.bind_some]
      rw [← System.world_self s i w₁] at hrest
      rw [List.map_cons, Run.run, hstep, Option.bind_some, ih hrest, Function.update_idem]

end Step

end NetDedup.Delivery

import NetDedup.Comm.Outstanding

/-!
# The life of a flag

Descriptors are used again, `active_fds` is not cleared for a new one. As long as
no comm is closed with a request in flight, a flag is set only by a request that
is outstanding on its descriptor; otherwise it may stay set for good.
-/

namespace NetDedup.Comm

open Chunking Connection Memory Store Transfer

variable {maxRequests : Nat} {sha256 : List UInt8 → Digest} {s s' : System maxRequests}
  {e : Event maxRequests}

/-- The flag of an open comm is down unless a request of it is outstanding, so that its
`isend` or `irecv` is refused for want of the lock only. -/
structure System.GuardReleased (sha256 : List UInt8 → Digest) (s : System maxRequests) : Prop where
  clear : ∀ c comm, s.world.comms c = some comm → (∀ r ∈ s.outstanding, r.comm ≠ c) →
    s.world.activeFds comm.fd = false
  isend : ∀ c data calls reply s', (∀ r ∈ s.outstanding, r.comm ≠ c) → calls.trylock = true →
    s.call sha256 (.isend c data calls) = some (reply, s') → reply ≠ .request none
  irecv : ∀ c size data calls reply s', (∀ r ∈ s.outstanding, r.comm ≠ c) →
    calls.trylock = true → s.call sha256 (.irecv c size data calls) = some (reply, s') →
    reply ≠ .request none

/-- No flag outlives its request, and open comms have descriptors of their own. -/
structure System.Held (s : System maxRequests) : Prop extends s.Exclusive where
  distinct : ∀ c c' fd, s.world.fdOf c = some fd → s.world.fdOf c' = some fd → c = c'
  held : ∀ fd, s.world.activeFds fd = true → ∃ r ∈ s.outstanding, s.world.fd? r = some fd

theorem System.init_held (maxRequests : Nat) (proc : Process) :
    (System.init maxRequests proc).Held where
  toExclusive := .nil rfl
  distinct := fun _ _ _ h => absurd h (by simp [World.fdOf, System.init, netDedupInit])
  held := fun _ h => absurd h (by simp [System.init, netDedupInit])

theorem World.fdOf_eq_some {w : World maxRequests} {c fd : Nat} :
    w.fdOf c = some fd ↔ ∃ comm, w.comms c = some comm ∧ comm.fd = fd :=
  Option.map_eq_some_iff

/-- Comms over the same descriptors as before, with every request that holds a flag. -/
theorem System.Held.of_fdOf (h : s.Held) (hexcl : s'.Exclusive)
    (hfd : ∀ c, s'.world.fdOf c = s.world.fdOf c)
    (hheld : ∀ fd, s'.world.activeFds fd = true →
      ∃ r ∈ s'.outstanding, s.world.fd? r = some fd) : s'.Held where
  toExclusive := hexcl
  distinct := by
    intro c c' fd hc hc'
    rw [hfd] at hc hc'
    exact h.distinct c c' fd hc hc'
  held := by
    intro fd hactive
    obtain ⟨r, hr, heq⟩ := hheld fd hactive
    exact ⟨r, hr, (hfd r.comm).trans heq⟩

theorem System.Held.of_starts (h : s.Held) (hexcl : s'.Exclusive) {c : Nat}
    {comm : DedupComm maxRequests} {reply : Reply maxRequests}
    (hstarts : s.world.Starts s'.world c comm reply)
    (hout : s'.outstanding = reply.handedOut ++ s.outstanding) : s'.Held := by
  obtain ⟨comm', hfd', -, -, hcomms'⟩ := hstarts.comms
  refine h.of_fdOf hexcl (World.fdOf_update hstarts.opened hfd' hcomms') fun fd hactive => ?_
  have hold : s.world.activeFds fd = true → ∃ r ∈ s'.outstanding, s.world.fd? r = some fd := by
    intro hset
    obtain ⟨r, hr, heq⟩ := h.held fd hset
    exact ⟨r, hout ▸ List.mem_append_right _ hr, heq⟩
  rcases hstarts.reply with ⟨-, hflags⟩ | ⟨rfl, hflags⟩
  · exact hold (hflags ▸ hactive)
  · by_cases heq : fd = comm.fd
    · refine ⟨⟨c, comm.takeReqInd⟩, hout ▸ List.mem_append_left _ (List.mem_singleton_self _), ?_⟩
      rw [heq]
      exact World.fdOf_eq hstarts.opened
    · rw [hflags, Function.update_of_ne heq] at hactive
      exact hold hactive

theorem System.Held.of_tests (h : s.Held) (hexcl : s'.Exclusive) {r : ReqPtr maxRequests}
    {comm : DedupComm maxRequests} {w : World maxRequests} (hr : r ∈ s.outstanding)
    (hp : s.world.Processes w r comm) (hcomms : s'.world.comms = w.comms)
    (hdone : s'.outstanding = s.outstanding ∧ s'.world.activeFds = s.world.activeFds ∨
      s'.outstanding = s.outstanding.filter (· ≠ r) ∧ s'.world.activeFds =
        Function.update s.world.activeFds (comm.requests r.ind).sockfd false) : s'.Held := by
  refine h.of_fdOf hexcl (fun c => ?_) fun fd hactive => ?_
  · rw [← hp.fdOf c, World.fdOf, hcomms, World.fdOf]
  rcases hdone with ⟨hout, hflags⟩ | ⟨hout, hflags⟩
  · rw [hout]
    exact h.held fd (hflags ▸ hactive)
  · -- a flag that is still set is not that of the request that is done
    rw [hflags] at hactive
    have hne : fd ≠ (comm.requests r.ind).sockfd := by
      rintro rfl
      rw [Function.update_self] at hactive
      exact Bool.noConfusion hactive
    rw [Function.update_of_ne hne] at hactive
    obtain ⟨r', hr', heq⟩ := h.held fd hactive
    refine ⟨r', hout ▸ List.mem_filter.mpr ⟨hr', decide_eq_true ?_⟩, heq⟩
    rintro rfl
    obtain ⟨comm', hopen, hsockfd, -⟩ := h.live r' hr
    obtain rfl : comm = comm' := Option.some_inj.mp (hp.opened.symm.trans hopen)
    rw [World.fd?, World.fdOf_eq hopen, ← hsockfd] at heq
    exact hne (Option.some_inj.mp heq).symm

/-- A comm is opened over a descriptor of its own. -/
theorem System.Held.of_opens (h : s.Held) (hexcl : s'.Exclusive) {fd : Nat}
    (hflags : s'.world.activeFds = s.world.activeFds) (hopens : s.world.Opens s'.world fd)
    (hout : s'.outstanding = s.outstanding)
    (hfree : ∀ c comm, s.world.comms c = some comm → comm.fd ≠ fd) : s'.Held := by
  obtain ⟨c, comm, hnone, hfd, hcomms⟩ := hopens
  have hself : s'.world.fdOf c = some fd := by
    rw [World.fdOf, hcomms, Function.update_self, Option.map_some, hfd]
  have hother : ∀ c', c' ≠ c → s'.world.fdOf c' = s.world.fdOf c' := by
    intro c' hne
    rw [World.fdOf, hcomms, Function.update_of_ne hne, World.fdOf]
  have hfresh : ∀ c', s.world.fdOf c' ≠ some fd := by
    intro c' heq
    obtain ⟨comm', hopen, hfd'⟩ := World.fdOf_eq_some.mp heq
    exact hfree c' comm' hopen hfd'
  refine ⟨hexcl, fun c₁ c₂ fd' h₁ h₂ => ?_, fun fd' hactive => ?_⟩
  · by_cases hc₁ : c₁ = c <;> by_cases hc₂ : c₂ = c
    · rw [hc₁, hc₂]
    · rw [hc₁, hself] at h₁
      rw [hother c₂ hc₂, ← h₁] at h₂
      exact absurd h₂ (hfresh c₂)
    · rw [hc₂, hself] at h₂
      rw [hother c₁ hc₁, ← h₂] at h₁
      exact absurd h₁ (hfresh c₁)
    · rw [hother c₁ hc₁] at h₁
      rw [hother c₂ hc₂] at h₂
      exact h.distinct c₁ c₂ fd' h₁ h₂
  · obtain ⟨r, hr, heq⟩ := h.held fd' (hflags ▸ hactive)
    refine ⟨r, hout ▸ hr, (hother r.comm ?_).trans heq⟩
    intro hc
    rw [World.fd?, hc, World.fdOf, hnone] at heq
    exact absurd heq (by simp)

/-- A comm without requests in flight is closed. -/
theorem System.Held.of_closes (h : s.Held) (hexcl : s'.Exclusive) {c : Nat}
    (hflags : s'.world.activeFds = s.world.activeFds)
    (hcomms : s'.world.comms = Function.update s.world.comms c none)
    (hout : s'.outstanding = s.outstanding.filter (·.comm ≠ c))
    (hidle : ∀ r ∈ s.outstanding, r.comm ≠ c) : s'.Held := by
  have hself : s'.world.fdOf c = none := by
    rw [World.fdOf, hcomms, Function.update_self, Option.map_none]
  have hother : ∀ c', c' ≠ c → s'.world.fdOf c' = s.world.fdOf c' := by
    intro c' hne
    rw [World.fdOf, hcomms, Function.update_of_ne hne, World.fdOf]
  have hopen : ∀ c' fd, s'.world.fdOf c' = some fd → s.world.fdOf c' = some fd := by
    intro c' fd heq
    rw [← heq, hother]
    rintro rfl
    exact Option.some_ne_none _ (heq.symm.trans hself)
  refine ⟨hexcl, fun c₁ c₂ fd h₁ h₂ => ?_, fun fd hactive => ?_⟩
  · exact h.distinct c₁ c₂ fd (hopen c₁ fd h₁) (hopen c₂ fd h₂)
  · obtain ⟨r, hr, heq⟩ := h.held fd (hflags ▸ hactive)
    refine ⟨r, hout ▸ List.mem_filter.mpr ⟨hr, decide_eq_true (hidle r hr)⟩, ?_⟩
    exact (hother r.comm (hidle r hr)).trans heq

theorem System.Held.step (h : s.Held) (horderly : s.Orderly e)
    (hs : s.step sha256 e = some s') : s'.Held := by
  have hexcl : s'.Exclusive := h.toExclusive.step hs
  obtain ⟨⟨reply, s₁⟩, hcall, rfl⟩ := Option.map_eq_some_iff.mp hs
  cases System.call_effect hcall with
  | idle hactive hcomms hout =>
      refine h.of_fdOf hexcl (fun c => ?_) fun fd hset => ?_
      · rw [World.fdOf, hcomms, World.fdOf]
      · rw [hout]
        exact h.held fd (hactive ▸ hset)
  | starts c comm reply hstarts hout => exact h.of_starts hexcl hstarts hout
  | tests r comm w hr hp hcomms hdone => exact h.of_tests hexcl hr hp hcomms hdone
  | opens fd hactive hopens hout hfree => exact h.of_opens hexcl hactive hopens hout (hfree horderly)
  | closes c hactive hcomms hout hidle =>
      exact h.of_closes hexcl hactive hcomms hout (hidle horderly)

/-- A flag that is set is that of the comm with the request. -/
theorem System.Held.clear (h : s.Held) {c : Nat} {comm : DedupComm maxRequests}
    (hopen : s.world.comms c = some comm) (hidle : ∀ r ∈ s.outstanding, r.comm ≠ c) :
    s.world.activeFds comm.fd = false := by
  rw [← Bool.not_eq_true]
  intro hactive
  obtain ⟨r, hr, heq⟩ := h.held comm.fd hactive
  exact hidle r hr (h.distinct r.comm c comm.fd heq (World.fdOf_eq hopen))

theorem System.Held.not_refuses (h : s.Held) {type : ReqType} {c : Nat} {calls : StartCalls}
    (hidle : ∀ r ∈ s.outstanding, r.comm ≠ c) (hlock : calls.trylock = true) :
    ¬ s.world.Refuses type c calls := by
  rintro ⟨comm, hcomm, hactive | hfailed⟩
  · rw [h.clear (World.comm?_eq_some.mp hcomm).1 hidle] at hactive
    exact Bool.noConfusion hactive
  · rw [hlock] at hfailed
    exact Bool.noConfusion hfailed

theorem System.Held.guardReleased (h : s.Held) : s.GuardReleased sha256 where
  clear := fun _ _ hopen hidle => h.clear hopen hidle
  isend := by
    intro c data calls reply s' hidle hlock hcall
    unfold System.call at hcall
    split_ifs at hcall
    rcases netDedupIsend_cases (System.started_some hcall).1 with
      ⟨hrefuses, -⟩ | ⟨-, comm, ret, -, hstarts⟩
    · exact absurd hrefuses (h.not_refuses hidle hlock)
    · exact hstarts.reply_ne_null
  irecv := by
    intro c size data calls reply s' hidle hlock hcall
    unfold System.call at hcall
    split_ifs at hcall
    rcases netDedupIrecv_cases (System.started_some hcall).1 with
      ⟨hrefuses, -⟩ | ⟨comm, hstarts, -⟩
    · exact absurd hrefuses (h.not_refuses hidle hlock)
    · exact hstarts.reply_ne_null

/-- In a run that closes no comm with a request in flight, and asks for no second comm
over the descriptor of an open one, no flag outlives its request. -/
theorem run_guardReleased {proc : Process} {es : List (Event maxRequests)}
    (horderly : Run.Guarded (System.step sha256) System.Orderly (.init maxRequests proc) es)
    (hrun : Run.run (System.step sha256) (.init maxRequests proc) es = some s') :
    s'.GuardReleased sha256 :=
  (Run.run_invariant (fun _ _ _ => System.Held.step) (System.init_held maxRequests proc) horderly
    hrun).guardReleased

/-- A test that finds the connection ready for a whole header. -/
def readyTest : Event 1 :=
  .test (some ⟨0, 0⟩) [.step ⟨.ready 15, true, zeroEntry⟩, .step ⟨.ready 0, true, zeroEntry⟩,
    .step ⟨.ready 0, true, zeroEntry⟩]

/-- A send that is done before its comm is closed, and a new comm with its descriptor. -/
def reopened : List (Event 1) :=
  [.connect 0 0 5 readyCalls, .connect 0 0 5 readyCalls, .isend 0 emptyMessage blockedCalls,
    readyTest, .closeSend 0, .connect 1 1 5 readyCalls, .connect 1 1 5 readyCalls]

theorem run_guardReleased_reopened :
    ∃ s', Run.run (System.step fun _ => zeroDigest) (.init 1 freshProcess) reopened = some s' ∧
      (s'.world.comms 1).isSome ∧ s'.GuardReleased fun _ => zeroDigest := by
  refine ⟨_, rfl, rfl, @run_guardReleased 1 _ _ freshProcess reopened ?_ rfl⟩
  refine ⟨fun h => ?_, fun _ fd _ c comm hopen => ?_, trivial, trivial, fun r hr => ?_,
    fun h => ?_, fun _ fd _ c comm hopen => ?_, trivial⟩
  · exact Bool.noConfusion h
  · have hopen : none = some comm := hopen
    exact absurd hopen (by simp)
  · exact absurd hr List.not_mem_nil
  · exact Bool.noConfusion h
  · change Function.update (Function.update (Function.update (Function.update (Function.update
      (fun _ => none) 0 _) 0 _) 0 _) 0 _) 0 none c = some comm at hopen
    by_cases hc : c = 0
    · rw [hc, Function.update_self] at hopen
      exact absurd hopen (by simp)
    · simp only [Function.update_of_ne hc] at hopen
      exact absurd hopen (by simp)

/-- A flag without a request to clear it. -/
structure System.Stale (s : System maxRequests) (fd : Nat) : Prop extends s.Exclusive where
  set : s.world.activeFds fd = true
  free : ∀ r ∈ s.outstanding, s.world.fd? r ≠ some fd

/-- A stale flag is never cleared. -/
theorem System.Stale.step {fd : Nat} (h : s.Stale fd) (hs : s.step sha256 e = some s') :
    s'.Stale fd := by
  have hexcl : s'.Exclusive := h.toExclusive.step hs
  obtain ⟨⟨reply, s₁⟩, hcall, rfl⟩ := Option.map_eq_some_iff.mp hs
  cases System.call_effect hcall with
  | idle hactive hcomms hout =>
      refine ⟨hexcl, hactive ▸ h.set, fun r hr => ?_⟩
      rw [World.fd?, World.fdOf, hcomms]
      exact h.free r (hout ▸ hr)
  | starts c comm reply hstarts hout =>
      obtain ⟨comm', hfd', -, -, hcomms'⟩ := hstarts.comms
      have hfd := World.fdOf_update hstarts.opened hfd' hcomms'
      have hne : comm.fd ≠ fd := by
        rintro rfl
        exact Bool.noConfusion (hstarts.idle.symm.trans h.set)
      rcases hstarts.reply with ⟨rfl, hflags⟩ | ⟨rfl, hflags⟩
      · change s₁.outstanding = s.outstanding at hout
        exact ⟨hexcl, hflags ▸ h.set, fun r hr heq => h.free r (hout ▸ hr) ((hfd _).symm.trans heq)⟩
      · refine ⟨hexcl, ?_, fun r hr heq => ?_⟩
        · rw [hflags, Function.update_of_ne hne.symm, h.set]
        · have heq := (hfd r.comm).symm.trans heq
          rw [hout] at hr
          rcases List.mem_append.mp hr with hnew | hold
          · obtain rfl := List.mem_singleton.mp hnew
            exact hne (Option.some_inj.mp ((World.fdOf_eq hstarts.opened).symm.trans heq))
          · exact h.free r hold heq
  | tests r comm w hr hp hcomms hdone =>
      have hfd : ∀ c, s₁.world.fdOf c = s.world.fdOf c := by
        intro c
        rw [← hp.fdOf c, World.fdOf, hcomms, World.fdOf]
      have hsub : ∀ r' ∈ s₁.outstanding, r' ∈ s.outstanding := by
        intro r' hr'
        rcases hdone with ⟨hout, -⟩ | ⟨hout, -⟩
        · exact hout ▸ hr'
        · exact (List.mem_filter.mp (hout ▸ hr')).1
      refine ⟨hexcl, ?_, fun r' hr' heq => h.free r' (hsub r' hr') ((hfd _).symm.trans heq)⟩
      rcases hdone with ⟨-, hflags⟩ | ⟨-, hflags⟩
      · exact hflags ▸ h.set
      · rw [hflags, Function.update_of_ne, h.set]
        rintro rfl
        obtain ⟨comm', hopen, hsockfd, -⟩ := h.live r hr
        obtain rfl : comm = comm' := Option.some_inj.mp (hp.opened.symm.trans hopen)
        exact h.free r hr (hsockfd ▸ World.fdOf_eq hopen)
  | opens fd' hactive hopens hout hfree =>
      obtain ⟨c, comm, hnone, -, hcomms⟩ := hopens
      refine ⟨hexcl, hactive ▸ h.set, fun r hr => ?_⟩
      rw [World.fd?, World.fdOf, h.comms_eq hcomms (hout ▸ hr) (Or.inl hnone)]
      exact h.free r (hout ▸ hr)
  | closes c hactive hcomms hout hidle =>
      refine ⟨hexcl, hactive ▸ h.set, fun r hr => ?_⟩
      obtain ⟨hmem, hne⟩ := List.mem_filter.mp (hout ▸ hr)
      rw [World.fd?, World.fdOf, h.comms_eq hcomms hmem (Or.inr (of_decide_eq_true hne))]
      exact h.free r hmem

/-- A send is in flight when its comm is closed, and a new comm gets its descriptor. -/
def closedInFlight : List (Event 1) :=
  [.connect 0 0 5 readyCalls, .connect 0 0 5 readyCalls, .isend 0 emptyMessage blockedCalls,
    .closeSend 0, .connect 1 1 5 readyCalls, .connect 1 1 5 readyCalls]

/-- The new comm has no request and a flag that nothing will ever clear. -/
theorem run_guardReleased_fails :
    ∃ s', Run.run (System.step fun _ => zeroDigest) (.init 1 freshProcess) closedInFlight =
        some s' ∧ s'.world.fdOf 1 = some 5 ∧ s'.outstanding = [] ∧
      (¬ s'.GuardReleased fun _ => zeroDigest) ∧
      ∀ es s'', Run.run (System.step fun _ => zeroDigest) s' es = some s'' →
        s''.world.activeFds 5 = true := by
  refine ⟨_, rfl, rfl, rfl, fun h => ?_, fun es s'' hrun => ?_⟩
  · exact Bool.noConfusion (h.clear 1 _ rfl fun r hr => absurd hr List.not_mem_nil)
  · refine (Run.run_invariant_all (I := (System.Stale · 5)) (fun _ _ _ => System.Stale.step) ?_
      hrun).set
    exact ⟨.nil rfl, rfl, fun r hr => absurd hr List.not_mem_nil⟩

end NetDedup.Comm

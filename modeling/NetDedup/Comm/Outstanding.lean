import NetDedup.Comm.Calls
import NetDedup.Lib.Run
import NetDedup.Store.CacheRuns

/-!
# One outstanding request per descriptor

A process with the requests that it was handed and that were not yet reported
done. The flag of a descriptor is set as long as a request on it is outstanding,
so no call takes, processes or hands out another one.
-/

namespace NetDedup.Comm

open Chunking Connection Memory Store Transfer

variable {maxRequests : Nat}

/-- A process and its outstanding requests. -/
structure System (maxRequests : Nat) where
  world : World maxRequests
  outstanding : List (ReqPtr maxRequests)

/-- A call, or what happens between two calls: bytes arrive, and other processes
work on the cache. -/
inductive Event (maxRequests : Nat) where
  | connect (handle c fd : Nat) (calls : ConnectCalls)
  | accept (listenComm c fd : Nat) (calls : AcceptCalls)
  | isend (c : Nat) (data : Message) (calls : StartCalls)
  | irecv (c size : Nat) (data : Mem) (calls : StartCalls)
  | test (request : Option (ReqPtr maxRequests)) (events : List PartyEvent)
  | closeSend (c : Nat)
  | closeRecv (c : Nat)
  | arrive (fd : Nat) (bs : List UInt8)
  | other (proc : Process)

/-- The request that a call hands out. -/
def Reply.handedOut : Reply maxRequests → List (ReqPtr maxRequests)
  | .request (some r) => [r]
  | _ => []

def Reply.isDone : Reply maxRequests → Bool
  | .tested done _ => done
  | _ => false

namespace System

variable (sha256 : List UInt8 → Digest) (s : System maxRequests)

/-- A start call hands out at most one request. -/
def started (result : Option (Reply maxRequests × World maxRequests)) :
    Option (Reply maxRequests × System maxRequests) :=
  result.map fun (reply, w) => (reply, ⟨w, reply.handedOut ++ s.outstanding⟩)

/-- The requests of a closed comm are gone with it. -/
def closed (c : Nat) (result : Option (World maxRequests)) :
    Option (Reply maxRequests × System maxRequests) :=
  result.map fun w => (.returned, ⟨w, s.outstanding.filter (·.comm ≠ c)⟩)

/-- A call that hands out no request and takes none back. -/
def moved (result : Option (World maxRequests)) : Option (Reply maxRequests × System maxRequests) :=
  result.map fun w => (.returned, { s with world := w })

/-- One event; `test` is called on outstanding requests, and on NULL. -/
def call (e : Event maxRequests) : Option (Reply maxRequests × System maxRequests) :=
  if s.world.killed then none
  else
    match e with
    | .connect handle c fd calls => s.moved (netDedupConnect s.world handle c fd calls)
    | .accept listenComm c fd calls => s.moved (netDedupAccept s.world listenComm c fd calls)
    | .isend c data calls => s.started (netDedupIsend sha256 s.world c data calls)
    | .irecv c size data calls => s.started (netDedupIrecv sha256 s.world c size data calls)
    | .test none events => (netDedupTest sha256 s.world none events).map fun (reply, w) =>
        (reply, { s with world := w })
    | .test (some r) events =>
        if r ∈ s.outstanding then
          (netDedupTest sha256 s.world (some r) events).map fun (reply, w) =>
            (reply, ⟨w, s.outstanding.filter fun r' => r' ≠ r ∨ reply.isDone = false⟩)
        else none
    | .closeSend c => s.closed c (netDedupCloseSend s.world c)
    | .closeRecv c => s.closed c (netDedupCloseRecv s.world c)
    | .arrive fd bs =>
        let sock := s.world.sockets fd
        s.moved (some { s.world with
          sockets := Function.update s.world.sockets fd
            { sock with inbound := sock.inbound ++ bs } })
    | .other proc => s.moved (some { s.world with proc := proc })

/-- The system after one event. -/
def step (e : Event maxRequests) : Option (System maxRequests) := (s.call sha256 e).map (·.2)

end System

/-- The descriptor of the comm that a request belongs to. -/
def World.fd? (w : World maxRequests) (r : ReqPtr maxRequests) : Option Nat := w.fdOf r.comm

/-- No comm is closed with a request in flight, and no second comm is asked for
over the descriptor of an open one. -/
def System.Orderly (s : System maxRequests) : Event maxRequests → Prop
  | .connect handle _ _ _ => (s.world.handles handle).isConnected = true →
      ∀ fd, (s.world.handles handle).connectingFd = some fd →
        ∀ c comm, s.world.comms c = some comm → comm.fd ≠ fd
  | .accept listenComm _ _ _ => ∀ fd, s.world.acceptedFds listenComm = some fd →
      ∀ c comm, s.world.comms c = some comm → comm.fd ≠ fd
  | .closeSend c | .closeRecv c => ∀ r ∈ s.outstanding, r.comm ≠ c
  | _ => True

/-- What an event does to comms, flags and outstanding requests. -/
inductive System.Effect (s : System maxRequests) (e : Event maxRequests) (s' : System maxRequests) :
    Prop where
  | idle (hactive : s'.world.activeFds = s.world.activeFds) (hcomms : s'.world.comms = s.world.comms)
      (hout : s'.outstanding = s.outstanding)
  | starts (c : Nat) (comm : DedupComm maxRequests) (reply : Reply maxRequests)
      (h : s.world.Starts s'.world c comm reply)
      (hout : s'.outstanding = reply.handedOut ++ s.outstanding)
  | tests (r : ReqPtr maxRequests) (comm : DedupComm maxRequests) (w : World maxRequests)
      (hr : r ∈ s.outstanding) (h : s.world.Processes w r comm) (hcomms : s'.world.comms = w.comms)
      (hdone : s'.outstanding = s.outstanding ∧ s'.world.activeFds = s.world.activeFds ∨
        s'.outstanding = s.outstanding.filter (· ≠ r) ∧ s'.world.activeFds =
          Function.update s.world.activeFds (comm.requests r.ind).sockfd false)
  | opens (fd : Nat) (hactive : s'.world.activeFds = s.world.activeFds)
      (hopens : s.world.Opens s'.world fd) (hout : s'.outstanding = s.outstanding)
      (hfree : s.Orderly e → ∀ c comm, s.world.comms c = some comm → comm.fd ≠ fd)
  | closes (c : Nat) (hactive : s'.world.activeFds = s.world.activeFds)
      (hcomms : s'.world.comms = Function.update s.world.comms c none)
      (hout : s'.outstanding = s.outstanding.filter (·.comm ≠ c))
      (hidle : s.Orderly e → ∀ r ∈ s.outstanding, r.comm ≠ c)

variable {sha256 : List UInt8 → Digest} {s s' : System maxRequests} {e : Event maxRequests}
  {reply : Reply maxRequests}

theorem System.moved_some {result : Option (World maxRequests)}
    (h : s.moved result = some (reply, s')) :
    result = some s'.world ∧ s'.outstanding = s.outstanding ∧ reply = .returned := by
  obtain ⟨w, hw, h⟩ := Option.map_eq_some_iff.mp h
  obtain ⟨rfl, rfl⟩ := Prod.mk.injEq .. ▸ h
  exact ⟨hw, rfl, rfl⟩

theorem System.closed_some {c : Nat} {result : Option (World maxRequests)}
    (h : s.closed c result = some (reply, s')) :
    result = some s'.world ∧ s'.outstanding = s.outstanding.filter (·.comm ≠ c) ∧
      reply = .returned := by
  obtain ⟨w, hw, h⟩ := Option.map_eq_some_iff.mp h
  obtain ⟨rfl, rfl⟩ := Prod.mk.injEq .. ▸ h
  exact ⟨hw, rfl, rfl⟩

theorem System.started_some {result : Option (Reply maxRequests × World maxRequests)}
    (h : s.started result = some (reply, s')) :
    result = some (reply, s'.world) ∧ s'.outstanding = reply.handedOut ++ s.outstanding := by
  obtain ⟨⟨reply', w⟩, hw, h⟩ := Option.map_eq_some_iff.mp h
  obtain ⟨rfl, rfl⟩ := Prod.mk.injEq .. ▸ h
  exact ⟨hw, rfl⟩

/-- A closed comm is the only one that goes. -/
theorem System.closed_effect {type : ReqType} {c : Nat}
    (h : s.closed c (s.world.closeComm type c) = some (reply, s'))
    (hidle : s.Orderly e → ∀ r ∈ s.outstanding, r.comm ≠ c) : s.Effect e s' := by
  obtain ⟨hclose, hout, -⟩ := System.closed_some h
  obtain ⟨⟨hactive, -⟩, hcomms⟩ := World.closeComm_some hclose
  exact .closes c hactive hcomms hout hidle

/-- What an event can do. -/
theorem System.call_effect (h : s.call sha256 e = some (reply, s')) : s.Effect e s' := by
  unfold System.call at h
  split_ifs at h
  cases e with
  | connect handle c fd calls =>
      obtain ⟨hconnect, hout, -⟩ := System.moved_some h
      obtain ⟨⟨hactive, -⟩, hcomms | ⟨sockfd, hconn, hfd, hopens⟩⟩ :=
        netDedupConnect_cases hconnect
      · exact .idle hactive hcomms hout
      · exact .opens sockfd hactive hopens hout fun horderly => horderly hconn sockfd hfd
  | accept listenComm c fd calls =>
      obtain ⟨haccept, hout, -⟩ := System.moved_some h
      obtain ⟨⟨hactive, -⟩, hcomms | ⟨sockfd, hfd, hopens⟩⟩ := netDedupAccept_cases haccept
      · exact .idle hactive hcomms hout
      · exact .opens sockfd hactive hopens hout fun horderly => horderly sockfd hfd
  | isend c data calls =>
      obtain ⟨hisend, hout⟩ := System.started_some h
      rcases netDedupIsend_cases hisend with ⟨-, rfl, hw⟩ | ⟨-, comm, ret, -, hstarts⟩
      · exact .idle (congrArg _ hw) (congrArg _ hw) hout
      · exact .starts c comm reply hstarts hout
  | irecv c size data calls =>
      obtain ⟨hirecv, hout⟩ := System.started_some h
      rcases netDedupIrecv_cases hirecv with ⟨-, rfl, hw⟩ | ⟨comm, hstarts, -⟩
      · exact .idle (congrArg _ hw) (congrArg _ hw) hout
      · exact .starts c comm reply hstarts hout
  | test request events =>
      cases request with
      | none =>
          obtain ⟨⟨reply', w⟩, hw, h⟩ := Option.map_eq_some_iff.mp h
          obtain ⟨-, rfl⟩ := Prod.mk.injEq .. ▸ h
          obtain ⟨-, rfl⟩ := Prod.mk.injEq .. ▸ Option.some_inj.mp hw
          exact .idle rfl rfl rfl
      | some r =>
          simp only at h
          split_ifs at h with hr
          obtain ⟨⟨reply', w⟩, hw, h⟩ := Option.map_eq_some_iff.mp h
          obtain ⟨rfl, rfl⟩ := Prod.mk.injEq .. ▸ h
          obtain ⟨comm, w₁, hprocess, hcomms, -, -, hdone⟩ := netDedupTest_cases hw
          refine .tests r comm w₁ hr hprocess hcomms ?_
          rcases hdone with ⟨size, rfl, hactive⟩ | ⟨rfl | rfl, hactive⟩
          · exact Or.inr ⟨by simp [Reply.isDone], hactive⟩
          · exact Or.inl ⟨by simp [Reply.isDone], hactive⟩
          · exact Or.inl ⟨by simp [Reply.isDone], hactive⟩
  | closeSend c => exact System.closed_effect h id
  | closeRecv c => exact System.closed_effect h id
  | arrive fd bs =>
      obtain ⟨hw, hout, -⟩ := System.moved_some h
      have hw := Option.some_inj.mp hw
      exact .idle (hw ▸ rfl) (hw ▸ rfl) hout
  | other proc =>
      obtain ⟨hw, hout, -⟩ := System.moved_some h
      have hw := Option.some_inj.mp hw
      exact .idle (hw ▸ rfl) (hw ▸ rfl) hout

/-- The requests handed out belong to open comms and keep their flag set, and no two
of them share a descriptor. -/
structure System.Exclusive (s : System maxRequests) : Prop where
  nodup : s.outstanding.Nodup
  live : ∀ r ∈ s.outstanding, ∃ comm, s.world.comms r.comm = some comm ∧
    (comm.requests r.ind).sockfd = comm.fd ∧ s.world.activeFds comm.fd = true
  one : ∀ r ∈ s.outstanding, ∀ r' ∈ s.outstanding, s.world.fd? r = s.world.fd? r' → r = r'

theorem System.Exclusive.nil (h : s.outstanding = []) : s.Exclusive where
  nodup := h ▸ List.nodup_nil
  live := by simp [h]
  one := by simp [h]

/-- No request is outstanding on an idle descriptor. -/
theorem System.Exclusive.fd?_ne (h : s.Exclusive) {r : ReqPtr maxRequests} (hr : r ∈ s.outstanding)
    {fd : Nat} (hidle : s.world.activeFds fd = false) : s.world.fd? r ≠ some fd := by
  obtain ⟨comm, hcomm, -, hactive⟩ := h.live r hr
  rw [World.fd?, World.fdOf_eq hcomm]
  rintro ⟨rfl⟩
  exact Bool.noConfusion (hactive.symm.trans hidle)

/-- The comm of an outstanding request is not the one that takes a new request. -/
theorem System.Exclusive.comm_ne (h : s.Exclusive) {r : ReqPtr maxRequests}
    (hr : r ∈ s.outstanding) {c : Nat} {comm : DedupComm maxRequests} {w' : World maxRequests}
    (hstarts : s.world.Starts w' c comm reply) : r.comm ≠ c := by
  intro heq
  exact h.fd?_ne hr hstarts.idle (World.fdOf_eq (heq ▸ hstarts.opened))

theorem System.Exclusive.of_starts (h : s.Exclusive) {c : Nat} {comm : DedupComm maxRequests}
    (hstarts : s.world.Starts s'.world c comm reply)
    (hout : s'.outstanding = reply.handedOut ++ s.outstanding) : s'.Exclusive := by
  obtain ⟨comm', hfd', hsock', -, hcomms'⟩ := hstarts.comms
  have hsame : ∀ r ∈ s.outstanding, s'.world.comms r.comm = s.world.comms r.comm := by
    intro r hr
    rw [hcomms', Function.update_of_ne (h.comm_ne hr hstarts)]
  have hfd : ∀ r, s'.world.fd? r = s.world.fd? r := fun r =>
    World.fdOf_update hstarts.opened hfd' hcomms' r.comm
  rcases hstarts.reply with ⟨rfl, hactive⟩ | ⟨rfl, hactive⟩
  · change s'.outstanding = s.outstanding at hout
    refine ⟨hout ▸ h.nodup, ?_, ?_⟩
    · intro r hr
      rw [hout] at hr
      rw [hsame r hr, hactive]
      exact h.live r hr
    · intro r hr r' hr' heq
      rw [hout] at hr hr'
      rw [hfd, hfd] at heq
      exact h.one r hr r' hr' heq
  · change s'.outstanding = ⟨c, comm.takeReqInd⟩ :: s.outstanding at hout
    have hnew : s'.world.fd? ⟨c, comm.takeReqInd⟩ = some comm.fd :=
      (hfd _).trans (World.fdOf_eq hstarts.opened)
    have hother : ∀ r ∈ s.outstanding, s'.world.fd? r ≠ some comm.fd := by
      intro r hr
      rw [hfd]
      exact h.fd?_ne hr hstarts.idle
    refine ⟨?_, ?_, ?_⟩
    · rw [hout, List.nodup_cons]
      exact ⟨fun hmem => hother _ hmem hnew, h.nodup⟩
    · intro r hr
      rw [hout, List.mem_cons] at hr
      rw [hactive]
      rcases hr with rfl | hr
      · refine ⟨comm', by rw [hcomms', Function.update_self], hsock'.trans hfd'.symm, ?_⟩
        rw [hfd', Function.update_self]
      · obtain ⟨comm₁, hcomm₁, hsock₁, hactive₁⟩ := h.live r hr
        refine ⟨comm₁, (hsame r hr).trans hcomm₁, hsock₁, ?_⟩
        by_cases heq : comm₁.fd = comm.fd
        · rw [heq, Function.update_self]
        · rw [Function.update_of_ne heq, hactive₁]
    · intro r hr r' hr' heq
      rw [hout, List.mem_cons] at hr hr'
      rcases hr with rfl | hr <;> rcases hr' with rfl | hr'
      · rfl
      · exact absurd (heq.symm.trans hnew) (hother r' hr')
      · exact absurd (heq.trans hnew) (hother r hr)
      · rw [hfd, hfd] at heq
        exact h.one r hr r' hr' heq

/-- Fewer outstanding requests over comms and flags that they do not notice. -/
theorem System.Exclusive.of_sublist (h : s.Exclusive)
    (hout : s'.outstanding.Sublist s.outstanding)
    (hfd : ∀ r ∈ s'.outstanding, s'.world.fd? r = s.world.fd? r)
    (hlive : ∀ r ∈ s'.outstanding, ∃ comm, s'.world.comms r.comm = some comm ∧
      (comm.requests r.ind).sockfd = comm.fd ∧ s'.world.activeFds comm.fd = true) :
    s'.Exclusive where
  nodup := hout.nodup h.nodup
  live := hlive
  one r hr r' hr' heq := by
    rw [hfd r hr, hfd r' hr'] at heq
    exact h.one r (hout.subset hr) r' (hout.subset hr') heq

section Processes

variable {w w' : World maxRequests} {r r' : ReqPtr maxRequests} {comm : DedupComm maxRequests}

/-- Processing keeps the descriptors of all comms. -/
theorem World.Processes.fdOf (h : w.Processes w' r comm) (c : Nat) : w'.fdOf c = w.fdOf c := by
  obtain ⟨req, -, hcomms⟩ := h.comms
  exact World.fdOf_update h.opened (comm.setRequest_fd r.ind req) hcomms c

/-- Processing one request leaves the slots of all others. -/
theorem World.Processes.request?_of_ne (h : w.Processes w' r comm) (hne : r' ≠ r) :
    w'.request? r' = w.request? r' := by
  obtain ⟨req, -, hcomms⟩ := h.comms
  rw [World.request?, World.request?, hcomms]
  by_cases hc : r'.comm = r.comm
  · have hind : r'.ind ≠ r.ind := by
      intro hind
      exact hne (by cases r; cases r'; simp_all)
    rw [hc, Function.update_self, h.opened, Option.map_some, Option.map_some,
      DedupComm.setRequest_requests_of_ne _ _ _ hind]
  · rw [Function.update_of_ne hc]

/-- The descriptor of a request is not changed by processing any. -/
theorem World.Processes.live (h : w.Processes w' r comm) {comm' : DedupComm maxRequests}
    (hopen : w.comms r'.comm = some comm') (hsockfd : (comm'.requests r'.ind).sockfd = comm'.fd) :
    ∃ comm₁, w'.comms r'.comm = some comm₁ ∧ comm₁.fd = comm'.fd ∧
      (comm₁.requests r'.ind).sockfd = comm₁.fd := by
  obtain ⟨req, hreq, hcomms⟩ := h.comms
  by_cases hc : r'.comm = r.comm
  · obtain rfl : comm = comm' := Option.some_inj.mp (h.opened.symm.trans (hc ▸ hopen))
    refine ⟨comm.setRequest r.ind req, by rw [hcomms, hc, Function.update_self], rfl, ?_⟩
    by_cases hind : r'.ind = r.ind
    · rw [hind, DedupComm.setRequest_requests_self, hreq, ← hind, hsockfd, DedupComm.setRequest_fd]
    · rw [DedupComm.setRequest_requests_of_ne _ _ _ hind, hsockfd, DedupComm.setRequest_fd]
  · exact ⟨comm', by rw [hcomms, Function.update_of_ne hc, hopen], rfl, hsockfd⟩

end Processes

theorem System.Exclusive.of_tests (h : s.Exclusive) {r : ReqPtr maxRequests}
    {comm : DedupComm maxRequests} {w : World maxRequests} (hr : r ∈ s.outstanding)
    (hp : s.world.Processes w r comm) (hcomms : s'.world.comms = w.comms)
    (hdone : s'.outstanding = s.outstanding ∧ s'.world.activeFds = s.world.activeFds ∨
      s'.outstanding = s.outstanding.filter (· ≠ r) ∧ s'.world.activeFds =
        Function.update s.world.activeFds (comm.requests r.ind).sockfd false) : s'.Exclusive := by
  have hfd : ∀ r', s'.world.fd? r' = s.world.fd? r' := by
    intro r'
    rw [World.fd?, World.fd?, ← hp.fdOf r'.comm, World.fdOf, hcomms, World.fdOf]
  have hlive : ∀ r' ∈ s.outstanding, ∃ comm₁, s'.world.comms r'.comm = some comm₁ ∧
      (comm₁.requests r'.ind).sockfd = comm₁.fd ∧ s.world.activeFds comm₁.fd = true := by
    intro r' hr'
    obtain ⟨comm', hopen, hsockfd, hactive⟩ := h.live r' hr'
    obtain ⟨comm₁, hopen₁, hfd₁, hsockfd₁⟩ := hp.live hopen hsockfd
    exact ⟨comm₁, hcomms ▸ hopen₁, hsockfd₁, hfd₁ ▸ hactive⟩
  rcases hdone with ⟨hout, hactive⟩ | ⟨hout, hactive⟩
  · refine h.of_sublist (hout ▸ List.Sublist.refl _) (fun r' _ => hfd r') fun r' hr' => ?_
    rw [hactive]
    exact hlive r' (hout ▸ hr')
  · refine h.of_sublist (hout ▸ List.filter_sublist) (fun r' _ => hfd r') fun r' hr' => ?_
    obtain ⟨hmem, hne⟩ := List.mem_filter.mp (hout ▸ hr')
    obtain ⟨comm₁, hopen₁, hsockfd₁, hactive₁⟩ := hlive r' hmem
    refine ⟨comm₁, hopen₁, hsockfd₁, ?_⟩
    -- the flag that is cleared is that of the request that is done
    have hother : comm₁.fd ≠ (comm.requests r.ind).sockfd := by
      intro heq
      obtain ⟨comm₂, hopen₂, hsockfd₂, -⟩ := h.live r hr
      obtain rfl : comm = comm₂ := Option.some_inj.mp (hp.opened.symm.trans hopen₂)
      have hsame : s.world.fd? r' = s.world.fd? r := by
        rw [← hfd r', World.fd?, World.fdOf_eq hopen₁, World.fd?, World.fdOf_eq hp.opened, heq,
          hsockfd₂]
      exact of_decide_eq_true hne (h.one r' hmem r hr hsame)
    rw [hactive, Function.update_of_ne hother, hactive₁]

/-- The comms of outstanding requests are not opened over, and closed only with them. -/
theorem System.Exclusive.comms_eq (h : s.Exclusive) {c : Nat} {comm? : Option (DedupComm maxRequests)}
    (hcomms : s'.world.comms = Function.update s.world.comms c comm?) {r : ReqPtr maxRequests}
    (hr : r ∈ s.outstanding) (hc : s.world.comms c = none ∨ r.comm ≠ c) :
    s'.world.comms r.comm = s.world.comms r.comm := by
  obtain ⟨comm, hopen, -⟩ := h.live r hr
  rw [hcomms, Function.update_of_ne]
  rintro rfl
  rcases hc with hfree | hne
  · exact Option.some_ne_none _ (hopen.symm.trans hfree)
  · exact hne rfl

/-- Every event keeps the outstanding requests apart. -/
theorem System.Exclusive.effect (h : s.Exclusive) (heffect : s.Effect e s') : s'.Exclusive := by
  cases heffect with
  | idle hactive hcomms hout =>
      refine h.of_sublist (hout ▸ List.Sublist.refl _) (fun r _ => ?_) fun r hr => ?_
      · rw [World.fd?, World.fdOf, hcomms, World.fd?, World.fdOf]
      · rw [hcomms, hactive]
        exact h.live r (hout ▸ hr)
  | starts c comm reply hstarts hout => exact h.of_starts hstarts hout
  | tests r comm w hr hp hcomms hdone => exact h.of_tests hr hp hcomms hdone
  | opens fd hactive hopens hout =>
      obtain ⟨c, comm, hfree, -, hcomms⟩ := hopens
      have hsame := fun r hr => h.comms_eq (r := r) hcomms hr (Or.inl hfree)
      refine h.of_sublist (hout ▸ List.Sublist.refl _) (fun r hr => ?_) fun r hr => ?_
      · rw [World.fd?, World.fdOf, hsame r (hout ▸ hr), World.fd?, World.fdOf]
      · rw [hsame r (hout ▸ hr), hactive]
        exact h.live r (hout ▸ hr)
  | closes c hactive hcomms hout =>
      have hkept : ∀ r ∈ s'.outstanding, r ∈ s.outstanding ∧
          s'.world.comms r.comm = s.world.comms r.comm := by
        intro r hr
        obtain ⟨hmem, hne⟩ := List.mem_filter.mp (hout ▸ hr)
        exact ⟨hmem, h.comms_eq hcomms hmem (Or.inr (of_decide_eq_true hne))⟩
      refine h.of_sublist (hout ▸ List.filter_sublist) (fun r hr => ?_) fun r hr => ?_
      · rw [World.fd?, World.fdOf, (hkept r hr).2, World.fd?, World.fdOf]
      · rw [(hkept r hr).2, hactive]
        exact h.live r (hkept r hr).1

/-- The calls that work on requests. -/
def Event.IsRequestCall : Event maxRequests → Prop
  | .isend .. | .irecv .. | .test .. => True
  | _ => False

/-- What a call does to an outstanding request that it does not test: nothing. Its slot
is as it was, its socket moves no byte, and it is not handed out again. -/
structure System.Undisturbed (s : System maxRequests) (reply : Reply maxRequests)
    (s' : System maxRequests) (r : ReqPtr maxRequests) : Prop where
  outstanding : r ∈ s'.outstanding
  slot : s'.world.request? r = s.world.request? r
  socket : ∀ fd, s.world.fd? r = some fd → s'.world.sockets fd = s.world.sockets fd
  notHandedOut : reply ≠ .request (some r)

theorem System.Undisturbed.of_eq {r : ReqPtr maxRequests} (hr : r ∈ s.outstanding)
    (hworld : s'.world = s.world) (hout : s'.outstanding = s.outstanding)
    (hreply : reply.handedOut = []) : s.Undisturbed reply s' r where
  outstanding := hout ▸ hr
  slot := hworld ▸ rfl
  socket := fun _ _ => hworld ▸ rfl
  notHandedOut := by
    rintro rfl
    exact List.cons_ne_nil _ _ hreply

/-- A new request leaves the outstanding ones alone. -/
theorem System.Exclusive.undisturbed_starts (h : s.Exclusive) {c : Nat}
    {comm : DedupComm maxRequests} (hstarts : s.world.Starts s'.world c comm reply)
    (hout : s'.outstanding = reply.handedOut ++ s.outstanding) {r : ReqPtr maxRequests}
    (hr : r ∈ s.outstanding) : s.Undisturbed reply s' r where
  outstanding := hout ▸ List.mem_append_right _ hr
  slot := by
    obtain ⟨comm', -, -, -, hcomms⟩ := hstarts.comms
    rw [World.request?, hcomms, Function.update_of_ne (h.comm_ne hr hstarts), World.request?]
  socket := by
    intro fd hfd
    apply hstarts.sockets
    rintro rfl
    exact h.fd?_ne hr hstarts.idle hfd
  notHandedOut := by
    rintro rfl
    rcases hstarts.reply with ⟨hreply, -⟩ | ⟨hreply, -⟩
    · exact absurd hreply (by simp)
    · obtain rfl := Option.some_inj.mp (Reply.request.inj hreply)
      exact h.comm_ne hr hstarts rfl

/-- Testing a request leaves the other ones alone. -/
theorem System.Exclusive.undisturbed_tests (h : s.Exclusive) {r r' : ReqPtr maxRequests}
    {comm : DedupComm maxRequests} {w : World maxRequests} (hr : r ∈ s.outstanding)
    (hp : s.world.Processes w r comm) (hcomms : s'.world.comms = w.comms)
    (hsockets : s'.world.sockets = w.sockets) (hreply : ∀ r, reply ≠ .request (some r))
    (hr' : r' ∈ s.outstanding) (hout : r' ∈ s'.outstanding) (hne : r' ≠ r) :
    s.Undisturbed reply s' r' where
  outstanding := hout
  slot := by
    rw [← hp.request?_of_ne hne, World.request?, hcomms, World.request?]
  socket := by
    intro fd hfd
    rw [hsockets]
    apply hp.sockets
    rintro rfl
    obtain ⟨comm', hopen, hsockfd, -⟩ := h.live r hr
    obtain rfl : comm = comm' := Option.some_inj.mp (hp.opened.symm.trans hopen)
    refine hne (h.one r' hr' r hr ?_)
    rw [hfd, hsockfd, World.fd?, World.fdOf_eq hopen]
  notHandedOut := hreply r'

/-- A request call that returns no request has taken none. -/
theorem World.Starts.reply_ne_null {w w' : World maxRequests} {c : Nat}
    {comm : DedupComm maxRequests} (h : w.Starts w' c comm reply) : reply ≠ .request none := by
  rcases h.reply with ⟨rfl, -⟩ | ⟨rfl, -⟩
  · simp
  · simp

/-- What `isend`, `irecv` and `test` do: nothing, take a request, or process one. -/
theorem System.requestCall_cases (h : s.call sha256 e = some (reply, s'))
    (hcall : e.IsRequestCall) :
    s' = s ∧ reply.handedOut = [] ∨
    (∃ c comm, s.world.Starts s'.world c comm reply ∧
      s'.outstanding = reply.handedOut ++ s.outstanding) ∨
    ∃ r events comm w, e = .test (some r) events ∧ r ∈ s.outstanding ∧
      s.world.Processes w r comm ∧ s'.world.comms = w.comms ∧ s'.world.sockets = w.sockets ∧
      (∀ r', reply ≠ .request r') ∧ ∀ r' ∈ s.outstanding, r' ≠ r → r' ∈ s'.outstanding := by
  unfold System.call at h
  split_ifs at h
  have hsame : s'.world = s.world → s'.outstanding = s.outstanding → s' = s := by
    cases s
    cases s'
    rintro rfl rfl
    rfl
  cases e with
  | isend c data calls =>
      obtain ⟨hisend, hout⟩ := System.started_some h
      rcases netDedupIsend_cases hisend with ⟨-, rfl, hw⟩ | ⟨-, comm, ret, -, hstarts⟩
      · exact Or.inl ⟨hsame hw hout, rfl⟩
      · exact Or.inr (Or.inl ⟨c, comm, hstarts, hout⟩)
  | irecv c size data calls =>
      obtain ⟨hirecv, hout⟩ := System.started_some h
      rcases netDedupIrecv_cases hirecv with ⟨-, rfl, hw⟩ | ⟨comm, hstarts, -⟩
      · exact Or.inl ⟨hsame hw hout, rfl⟩
      · exact Or.inr (Or.inl ⟨c, comm, hstarts, hout⟩)
  | test request events =>
      cases request with
      | none =>
          obtain ⟨⟨reply', w⟩, hw, h⟩ := Option.map_eq_some_iff.mp h
          obtain ⟨rfl, rfl⟩ := Prod.mk.injEq .. ▸ h
          obtain ⟨rfl, rfl⟩ := Prod.mk.injEq .. ▸ Option.some_inj.mp hw
          exact Or.inl ⟨rfl, rfl⟩
      | some r =>
          simp only at h
          split_ifs at h with hr
          obtain ⟨⟨reply', w⟩, hw, h⟩ := Option.map_eq_some_iff.mp h
          obtain ⟨rfl, rfl⟩ := Prod.mk.injEq .. ▸ h
          obtain ⟨comm, w₁, hp, hcomms, hsockets, -, hdone⟩ := netDedupTest_cases hw
          refine Or.inr (Or.inr ⟨r, events, comm, w₁, rfl, hr, hp, hcomms, hsockets, ?_, ?_⟩)
          · rcases hdone with ⟨size, rfl, -⟩ | ⟨rfl | rfl, -⟩ <;> simp
          · intro r' hr' hne
            exact List.mem_filter.mpr ⟨hr', by simp [hne]⟩
  | connect => exact hcall.elim
  | accept => exact hcall.elim
  | closeSend => exact hcall.elim
  | closeRecv => exact hcall.elim
  | arrive => exact hcall.elim
  | other => exact hcall.elim

/-- The outstanding requests, as the caller sees them: one for a descriptor at most, and no
call but its own `test` touches one. -/
structure System.OneOutstanding (sha256 : List UInt8 → Digest) (s : System maxRequests) :
    Prop where
  nodup : s.outstanding.Nodup
  one : ∀ r ∈ s.outstanding, ∀ r' ∈ s.outstanding, s.world.fd? r = s.world.fd? r' → r = r'
  null : ∀ e s', e.IsRequestCall → s.call sha256 e = some (.request none, s') → s' = s
  undisturbed : ∀ e reply s', e.IsRequestCall → s.call sha256 e = some (reply, s') →
    ∀ r ∈ s.outstanding, (∀ events, e ≠ .test (some r) events) → s.Undisturbed reply s' r

theorem System.Exclusive.oneOutstanding (h : s.Exclusive) : s.OneOutstanding sha256 where
  nodup := h.nodup
  one := h.one
  null := by
    intro e s' hcall heq
    rcases System.requestCall_cases heq hcall with ⟨rfl, -⟩ | ⟨c, comm, hstarts, -⟩ |
      ⟨r, events, comm, w, -, -, -, -, -, hreply, -⟩
    · rfl
    · exact absurd rfl hstarts.reply_ne_null
    · exact absurd rfl (hreply none)
  undisturbed := by
    intro e reply s' hcall heq r hr htest
    rcases System.requestCall_cases heq hcall with ⟨rfl, hreply⟩ | ⟨c, comm, hstarts, hout⟩ |
      ⟨r', events, comm, w, rfl, hr', hp, hcomms, hsockets, hreply, hkeep⟩
    · exact .of_eq hr rfl rfl hreply
    · exact h.undisturbed_starts hstarts hout hr
    · have hne : r ≠ r' := by
        rintro rfl
        exact htest events rfl
      exact h.undisturbed_tests hr' hp hcomms hsockets (fun r => hreply r) hr (hkeep r hr hne) hne

theorem System.Exclusive.step (h : s.Exclusive) (hs : s.step sha256 e = some s') :
    s'.Exclusive := by
  obtain ⟨⟨reply, s₁⟩, hcall, rfl⟩ := Option.map_eq_some_iff.mp hs
  exact h.effect (System.call_effect hcall)

/-- A process that starts without outstanding requests has at most one for each descriptor
after any run, and no call touches it but its own `test`. A call that returns a NULL
request has changed nothing. -/
theorem run_oneOutstanding {es : List (Event maxRequests)} (hstart : s.outstanding = [])
    (hrun : Run.run (System.step sha256) s es = some s') : s'.OneOutstanding sha256 :=
  (Run.run_invariant_all (fun _ _ _ => System.Exclusive.step) (.nil hstart) hrun).oneOutstanding

/-- The system of a new process. -/
def System.init (maxRequests : Nat) (proc : Process) : System maxRequests :=
  ⟨netDedupInit maxRequests proc, []⟩

/-- A process whose cache is in zeroed memory. -/
def freshProcess : Process := ⟨initFingerprintCache zeroCache, false⟩

/-- Calls of which every one succeeds at once. -/
def readyCalls : ConnectCalls := ⟨.ok, .ok, .ok, .ok, .ok, .ok⟩

/-- A start call whose first `send` or `recv` would block. -/
def blockedCalls : StartCalls :=
  ⟨true, ⟨0, 4⟩, [.step ⟨.wouldBlock, true, zeroEntry⟩]⟩

def emptyMessage : Message := ⟨[], by decide⟩

/-- Two connects on the same handle, and two sends. -/
def sendTwice : List (Event 1) :=
  [.connect 0 0 5 readyCalls, .connect 0 0 5 readyCalls,
    .isend 0 emptyMessage blockedCalls, .isend 0 emptyMessage blockedCalls]

theorem run_oneOutstanding_sendTwice :
    ∃ s', Run.run (System.step fun _ => zeroDigest) (System.init 1 freshProcess) sendTwice =
        some s' ∧ s'.outstanding = [⟨0, 0⟩] ∧ s'.OneOutstanding fun _ => zeroDigest :=
  ⟨_, rfl, rfl, @run_oneOutstanding 1 _ (.init 1 freshProcess) _ sendTwice rfl rfl⟩

end NetDedup.Comm

import NetDedup.Comm.Requests

/-!
# What a call can do

One lemma for each call of the plugin says what it replies and what it changes
in its process.
-/

namespace NetDedup.Comm

open Chunking Connection Memory Store Transfer

variable {maxRequests : Nat} {sha256 : List UInt8 → Digest} {w w' : World maxRequests}

theorem World.comm?_eq_some {type : ReqType} {c : Nat} {comm : DedupComm maxRequests} :
    w.comm? type c = some comm ↔ w.comms c = some comm ∧ comm.type = type := by
  rw [comm?, Option.filter_eq_some_iff, decide_eq_true_iff]

theorem World.activeFd_eq_some {fd : Nat} {active : Bool} :
    w.activeFd fd = some active ↔ fd < maxFds ∧ w.activeFds fd = active := by
  rw [activeFd]
  split_ifs with h
  · simp [h]
  · simp [h]

theorem World.setActiveFd_eq_some {fd : Nat} {active : Bool} :
    w.setActiveFd fd active = some w' ↔
      fd < maxFds ∧ { w with activeFds := Function.update w.activeFds fd active } = w' := by
  rw [setActiveFd]
  split_ifs with h
  · simp [h]
  · simp [h]

theorem DedupReq.process_sockfd {events : List PartyEvent} {req req' : DedupReq}
    {sock sock' : Socket} {proc proc' : Process} {ret : Int}
    (h : req.process sha256 events sock proc = some (ret, req', sock', proc')) :
    req'.sockfd = req.sockfd := by
  cases req with
  | sendReq sockfd st =>
      obtain ⟨p, -, hp⟩ := Option.map_eq_some_iff.mp h
      simp only [Prod.mk.injEq] at hp
      exact hp.2.1 ▸ rfl
  | recvReq sockfd st =>
      obtain ⟨p, -, hp⟩ := Option.map_eq_some_iff.mp h
      simp only [Prod.mk.injEq] at hp
      exact hp.2.1 ▸ rfl

/-- The descriptor of an open comm. -/
def World.fdOf (w : World maxRequests) (c : Nat) : Option Nat := (w.comms c).map (·.fd)

theorem World.fdOf_eq {c : Nat} {comm : DedupComm maxRequests} (h : w.comms c = some comm) :
    w.fdOf c = some comm.fd := by
  rw [fdOf, h, Option.map_some]

/-- A comm is replaced by one over the same descriptor. -/
theorem World.fdOf_update {c : Nat} {comm comm' : DedupComm maxRequests}
    (hopen : w.comms c = some comm) (hfd : comm'.fd = comm.fd)
    (hcomms : w'.comms = Function.update w.comms c (some comm')) (c' : Nat) :
    w'.fdOf c' = w.fdOf c' := by
  by_cases hc : c' = c
  · rw [hc, fdOf_eq hopen, fdOf, hcomms, Function.update_self, Option.map_some, hfd]
  · rw [fdOf, hcomms, Function.update_of_ne hc, fdOf]

/-- What one request's processing changes: its slot and its socket. -/
structure World.Processes (w w' : World maxRequests) (r : ReqPtr maxRequests)
    (comm : DedupComm maxRequests) : Prop where
  opened : w.comms r.comm = some comm
  comms : ∃ req, req.sockfd = (comm.requests r.ind).sockfd ∧
    w'.comms = Function.update w.comms r.comm (some (comm.setRequest r.ind req))
  sockets : ∀ fd, fd ≠ (comm.requests r.ind).sockfd → w'.sockets fd = w.sockets fd
  activeFds : w'.activeFds = w.activeFds
  dump : w'.dump = w.dump

theorem World.process_some {r : ReqPtr maxRequests} {events : List PartyEvent} {ret : Int}
    (h : w.process sha256 r events = some (ret, w')) : ∃ comm, w.Processes w' r comm := by
  obtain ⟨comm, hcomm, h⟩ := Option.bind_eq_some_iff.mp h
  obtain ⟨⟨ret', req, sock, proc⟩, hreq, h⟩ := Option.bind_eq_some_iff.mp h
  obtain ⟨-, rfl⟩ := Prod.mk.injEq .. ▸ Option.some_inj.mp h
  exact ⟨comm, hcomm, ⟨req, DedupReq.process_sockfd hreq, rfl⟩,
    fun fd hfd => Function.update_of_ne hfd .., rfl, rfl⟩

/-- What an `isend` or an `irecv` changes that takes a request: the slot next in
turn, its socket and, when the request is handed out, its flag. -/
structure World.Starts (w w' : World maxRequests) (c : Nat) (comm : DedupComm maxRequests)
    (reply : Reply maxRequests) : Prop where
  opened : w.comms c = some comm
  fd_lt : comm.fd < maxFds
  idle : w.activeFds comm.fd = false
  comms : ∃ comm', comm'.fd = comm.fd ∧ (comm'.requests comm.takeReqInd).sockfd = comm.fd ∧
    (∀ ind, ind ≠ comm.takeReqInd → comm'.requests ind = comm.requests ind) ∧
    w'.comms = Function.update w.comms c (some comm')
  sockets : ∀ fd, fd ≠ comm.fd → w'.sockets fd = w.sockets fd
  reply :
    reply = .systemError ∧ w'.activeFds = w.activeFds ∨
    reply = .request (some ⟨c, comm.takeReqInd⟩) ∧
      w'.activeFds = Function.update w.activeFds comm.fd true

section Starts

variable {c : Nat} {comm : DedupComm maxRequests} {reply : Reply maxRequests}

/-- A request is taken, and nothing more is done with it. -/
theorem World.starts_takeRequest (req : DedupReq) (dump : Dump) (hopen : w.comms c = some comm)
    (hfd : comm.fd < maxFds) (hidle : w.activeFds comm.fd = false) (hsockfd : req.sockfd = comm.fd) :
    w.Starts { w.takeRequest c comm req with dump := dump } c comm .systemError := by
  refine ⟨hopen, hfd, hidle, ⟨comm.advance.setRequest comm.takeReqInd req, rfl, ?_, ?_, rfl⟩,
    fun _ _ => rfl, Or.inl ⟨rfl, rfl⟩⟩
  · rw [DedupComm.setRequest_requests_self, hsockfd]
  · intro ind hind
    exact DedupComm.setRequest_requests_of_ne _ _ _ hind

/-- The request that was taken is processed. -/
theorem World.Starts.startRequest {w₀ : World maxRequests} {events : List PartyEvent}
    (h₀ : w.Starts w₀ c comm .systemError)
    (h : w₀.startRequest sha256 ⟨c, comm.takeReqInd⟩ comm.fd events = some (reply, w')) :
    w.Starts w' c comm reply ∧ w'.dump = w₀.dump := by
  obtain ⟨hopen, hfd, hidle, ⟨comm₀, hfd₀, hsock₀, hreqs₀, hcomms₀⟩, hsockets₀, hreply₀⟩ := h₀
  have hactive₀ : w₀.activeFds = w.activeFds := by
    rcases hreply₀ with ⟨-, hactive⟩ | ⟨hreply, -⟩
    · exact hactive
    · exact absurd hreply (by simp)
  obtain ⟨⟨ret, w₁⟩, hprocess, h⟩ := Option.bind_eq_some_iff.mp h
  obtain ⟨comm₁, hopen₁, ⟨req₁, hsockfd₁, hcomms₁⟩, hsockets₁, hactive₁, hdump₁⟩ :=
    World.process_some hprocess
  -- the comm that is processed is the one whose request was taken
  obtain rfl : comm₀ = comm₁ := by
    rw [hcomms₀, Function.update_self] at hopen₁
    exact Option.some_inj.mp hopen₁
  have hcomms : ∃ comm', comm'.fd = comm.fd ∧ (comm'.requests comm.takeReqInd).sockfd = comm.fd ∧
      (∀ ind, ind ≠ comm.takeReqInd → comm'.requests ind = comm.requests ind) ∧
      w₁.comms = Function.update w.comms c (some comm') := by
    refine ⟨comm₀.setRequest comm.takeReqInd req₁, hfd₀, ?_, ?_, ?_⟩
    · rw [DedupComm.setRequest_requests_self, hsockfd₁, hsock₀]
    · intro ind hind
      rw [DedupComm.setRequest_requests_of_ne _ _ _ hind, hreqs₀ ind hind]
    · rw [hcomms₁, hcomms₀, Function.update_idem]
  have hsockets : ∀ fd, fd ≠ comm.fd → w₁.sockets fd = w.sockets fd := by
    intro fd hne
    rw [hsockets₁ fd (hsock₀ ▸ hne), hsockets₀ fd hne]
  simp only at h
  split_ifs at h with hret
  · obtain ⟨rfl, rfl⟩ := Prod.mk.injEq .. ▸ Option.some_inj.mp h
    exact ⟨⟨hopen, hfd, hidle, hcomms, hsockets, Or.inl ⟨rfl, hactive₁.trans hactive₀⟩⟩, hdump₁⟩
  · obtain ⟨w₂, hset, h⟩ := Option.bind_eq_some_iff.mp h
    obtain ⟨rfl, rfl⟩ := Prod.mk.injEq .. ▸ Option.some_inj.mp h
    obtain ⟨-, rfl⟩ := World.setActiveFd_eq_some.mp hset
    refine ⟨⟨hopen, hfd, hidle, hcomms, hsockets, Or.inr ⟨rfl, ?_⟩⟩, hdump₁⟩
    rw [← hactive₀, ← hactive₁]

/-- The two ways in which `isend` and `irecv` leave with a NULL request. -/
def World.Refuses (w : World maxRequests) (type : ReqType) (c : Nat) (calls : StartCalls) : Prop :=
  ∃ comm, w.comm? type c = some comm ∧ (w.activeFds comm.fd = true ∨ calls.trylock = false)

/-- `isend` refuses and changes nothing, or takes a request, and dumps its message first. -/
theorem netDedupIsend_cases {data : Message} {calls : StartCalls}
    (h : netDedupIsend sha256 w c data calls = some (reply, w')) :
    w.Refuses .sendReq c calls ∧ reply = .request none ∧ w' = w ∨
    ¬ w.Refuses .sendReq c calls ∧ ∃ comm ret,
      dumpSend w.dump data calls.dump = some (ret, w'.dump) ∧ w.Starts w' c comm reply := by
  obtain ⟨comm, hcomm, h⟩ := Option.bind_eq_some_iff.mp h
  obtain ⟨active, hactive, h⟩ := Option.bind_eq_some_iff.mp h
  obtain ⟨hfd, rfl⟩ := World.activeFd_eq_some.mp hactive
  have hrefuses : w.Refuses .sendReq c calls ↔
      w.activeFds comm.fd = true ∨ calls.trylock = false := by
    simp [World.Refuses, hcomm]
  obtain ⟨hopen, -⟩ := World.comm?_eq_some.mp hcomm
  split_ifs at h with hbusy hlock
  · obtain ⟨rfl, rfl⟩ := Prod.mk.injEq .. ▸ Option.some_inj.mp h
    exact Or.inl ⟨hrefuses.mpr (Or.inl hbusy), rfl, rfl⟩
  · obtain ⟨rfl, rfl⟩ := Prod.mk.injEq .. ▸ Option.some_inj.mp h
    exact Or.inl ⟨hrefuses.mpr (Or.inr hlock), rfl, rfl⟩
  · refine Or.inr ⟨mt hrefuses.mp (not_or_intro hbusy hlock), comm, ?_⟩
    obtain ⟨⟨ret, dump⟩, hdump, h⟩ := Option.bind_eq_some_iff.mp h
    have hstarts := World.starts_takeRequest (.sendReq comm.fd ⟨isendRequest data.val, none⟩) dump
      hopen hfd (Bool.eq_false_iff.mpr hbusy) rfl
    simp only at h
    split_ifs at h with hret
    · obtain ⟨rfl, rfl⟩ := Prod.mk.injEq .. ▸ Option.some_inj.mp h
      exact ⟨ret, hdump, hstarts⟩
    · obtain ⟨hstarts', hdump'⟩ := hstarts.startRequest h
      exact ⟨ret, hdump' ▸ hdump, hstarts'⟩

/-- `irecv` refuses and changes nothing, or takes a request. -/
theorem netDedupIrecv_cases {size : Nat} {data : Mem} {calls : StartCalls}
    (h : netDedupIrecv sha256 w c size data calls = some (reply, w')) :
    w.Refuses .recvReq c calls ∧ reply = .request none ∧ w' = w ∨
    ∃ comm, w.Starts w' c comm reply ∧ w'.dump = w.dump := by
  obtain ⟨comm, hcomm, h⟩ := Option.bind_eq_some_iff.mp h
  obtain ⟨active, hactive, h⟩ := Option.bind_eq_some_iff.mp h
  obtain ⟨hfd, rfl⟩ := World.activeFd_eq_some.mp hactive
  obtain ⟨hopen, -⟩ := World.comm?_eq_some.mp hcomm
  split_ifs at h with hbusy hlock
  · obtain ⟨rfl, rfl⟩ := Prod.mk.injEq .. ▸ Option.some_inj.mp h
    exact Or.inl ⟨⟨comm, hcomm, Or.inl hbusy⟩, rfl, rfl⟩
  · obtain ⟨rfl, rfl⟩ := Prod.mk.injEq .. ▸ Option.some_inj.mp h
    exact Or.inl ⟨⟨comm, hcomm, Or.inr hlock⟩, rfl, rfl⟩
  · have hstarts := World.starts_takeRequest
      (.recvReq comm.fd ⟨irecvRequest size data, none, none⟩) w.dump hopen hfd
      (Bool.eq_false_iff.mpr hbusy) rfl
    exact Or.inr ⟨comm, hstarts.startRequest h⟩

end Starts

/-- `test` processes its request, and clears the flag when it is done. -/
theorem netDedupTest_cases {r : ReqPtr maxRequests} {events : List PartyEvent}
    {reply : Reply maxRequests} (h : netDedupTest sha256 w (some r) events = some (reply, w')) :
    ∃ comm w₁, w.Processes w₁ r comm ∧ w'.comms = w₁.comms ∧ w'.sockets = w₁.sockets ∧
      w'.dump = w₁.dump ∧
      ((∃ size, reply = .tested true size ∧
          w'.activeFds = Function.update w.activeFds (comm.requests r.ind).sockfd false) ∨
        (reply = .tested false none ∨ reply = .returned) ∧ w'.activeFds = w.activeFds) := by
  obtain ⟨⟨isComplete, w₁⟩, hprocess, h⟩ := Option.bind_eq_some_iff.mp h
  obtain ⟨comm, hp⟩ := World.process_some hprocess
  refine ⟨comm, w₁, hp, ?_⟩
  simp only at h
  split_ifs at h with hkill hdone
  · obtain ⟨rfl, rfl⟩ := Prod.mk.injEq .. ▸ Option.some_inj.mp h
    exact ⟨rfl, rfl, rfl, Or.inr ⟨Or.inr rfl, hp.activeFds⟩⟩
  · obtain ⟨req, hreq, h⟩ := Option.bind_eq_some_iff.mp h
    obtain ⟨w₂, hset, h⟩ := Option.bind_eq_some_iff.mp h
    obtain ⟨rfl, rfl⟩ := Prod.mk.injEq .. ▸ Option.some_inj.mp h
    obtain ⟨-, rfl⟩ := World.setActiveFd_eq_some.mp hset
    obtain ⟨req', hsockfd, hcomms⟩ := hp.comms
    have hreq' : req.sockfd = (comm.requests r.ind).sockfd := by
      rw [World.request?, hcomms, Function.update_self, Option.map_some,
        DedupComm.setRequest_requests_self] at hreq
      rw [← Option.some_inj.mp hreq, hsockfd]
    refine ⟨rfl, rfl, rfl, Or.inl ⟨_, rfl, ?_⟩⟩
    rw [hreq', hp.activeFds]
  · obtain ⟨rfl, rfl⟩ := Prod.mk.injEq .. ▸ Option.some_inj.mp h
    exact ⟨rfl, rfl, rfl, Or.inr ⟨Or.inl rfl, hp.activeFds⟩⟩

/-- What an open, a close or a call on no request leaves alone. -/
structure World.KeepsFlags (w w' : World maxRequests) : Prop where
  activeFds : w'.activeFds = w.activeFds
  dump : w'.dump = w.dump

theorem World.closeComm_some {type : ReqType} {c : Nat} (h : w.closeComm type c = some w') :
    w.KeepsFlags w' ∧ w'.comms = Function.update w.comms c none := by
  obtain ⟨comm, -, h⟩ := Option.bind_eq_some_iff.mp h
  obtain rfl := Option.some_inj.mp h
  exact ⟨⟨rfl, rfl⟩, rfl⟩

/-- A new comm over the descriptor `fd`. -/
def World.Opens (w w' : World maxRequests) (fd : Nat) : Prop :=
  ∃ c comm, w.comms c = none ∧ comm.fd = fd ∧ w'.comms = Function.update w.comms c (some comm)

theorem World.newComm_some {type : ReqType} {c fd : Nat} (h : w.newComm type c fd = some w') :
    w.KeepsFlags w' ∧ w.Opens w' fd := by
  rw [newComm] at h
  split_ifs at h with hfree
  obtain rfl := Option.some_inj.mp h
  exact ⟨⟨rfl, rfl⟩, c, _, hfree.2, rfl, rfl⟩

/-- A new socket may be opened, no comm is. -/
theorem World.openFd_some {opened : Bool} {fd : Nat} (h : w.openFd opened fd = some w') :
    w.KeepsFlags w' ∧ w'.comms = w.comms := by
  rw [openFd] at h
  split_ifs at h
  · obtain rfl := Option.some_inj.mp h
    exact ⟨⟨rfl, rfl⟩, rfl⟩
  · obtain rfl := Option.some_inj.mp h
    exact ⟨⟨rfl, rfl⟩, rfl⟩

/-- A connect that returns a comm does so for the connected socket of its handle. -/
theorem netDedupConnect_cases {handle c fd : Nat} {calls : ConnectCalls}
    (h : netDedupConnect w handle c fd calls = some w') :
    w.KeepsFlags w' ∧ (w'.comms = w.comms ∨ ∃ sockfd, (w.handles handle).isConnected = true ∧
      (w.handles handle).connectingFd = some sockfd ∧ w.Opens w' sockfd) := by
  rw [netDedupConnect] at h
  have hcases := netDedupConnectV8_cases (World.netFor fd) (w.handles handle) calls
  generalize netDedupConnectV8 (World.netFor fd) (w.handles handle) calls = result at h hcases
  obtain ⟨_, sendComm, connectHandle, net⟩ := result
  obtain ⟨w₁, hopen, h⟩ := Option.bind_eq_some_iff.mp h
  obtain ⟨⟨hactive, hdump⟩, hcomms⟩ := World.openFd_some hopen
  cases sendComm with
  | none =>
      obtain rfl := Option.some_inj.mp h
      exact ⟨⟨hactive, hdump⟩, Or.inl hcomms⟩
  | some sockfd =>
      obtain ⟨⟨hactive', hdump'⟩, c', comm, hfree, hcomm, hcomms'⟩ := World.newComm_some h
      refine ⟨⟨hactive'.trans hactive, hdump'.trans hdump⟩, Or.inr ⟨sockfd, ?_⟩⟩
      have hopens : w.Opens w' sockfd := ⟨c', comm, hcomms ▸ hfree, hcomm, hcomms ▸ hcomms'⟩
      rcases hcases with ⟨fd', hconn, hfd, -, heq⟩ | ⟨_, _, -, -, -, -, heq⟩ | ⟨_, -, -, heq⟩
      · obtain rfl : sockfd = fd' := Option.some_inj.mp (Prod.mk.inj heq).1
        exact ⟨hconn, hfd, hopens⟩
      · exact absurd (Prod.mk.inj heq).1 (by simp)
      · exact absurd (Prod.mk.inj heq).1 (by simp)

/-- An accept that returns a comm does so for the socket that it holds. -/
theorem netDedupAccept_cases {listenComm c fd : Nat} {calls : AcceptCalls}
    (h : netDedupAccept w listenComm c fd calls = some w') :
    w.KeepsFlags w' ∧ (w'.comms = w.comms ∨
      ∃ sockfd, w.acceptedFds listenComm = some sockfd ∧ w.Opens w' sockfd) := by
  rw [netDedupAccept] at h
  have hcases := netDedupAcceptV8_cases (World.netFor fd) (w.acceptedFds listenComm) calls
  generalize netDedupAcceptV8 (World.netFor fd) (w.acceptedFds listenComm) calls = result
    at h hcases
  obtain ⟨_, recvComm, acceptedFd, net⟩ := result
  obtain ⟨w₁, hopen, h⟩ := Option.bind_eq_some_iff.mp h
  obtain ⟨⟨hactive, hdump⟩, hcomms⟩ := World.openFd_some hopen
  cases recvComm with
  | none =>
      obtain rfl := Option.some_inj.mp h
      exact ⟨⟨hactive, hdump⟩, Or.inl hcomms⟩
  | some sockfd =>
      obtain ⟨⟨hactive', hdump'⟩, c', comm, hfree, hcomm, hcomms'⟩ := World.newComm_some h
      refine ⟨⟨hactive'.trans hactive, hdump'.trans hdump⟩, Or.inr ⟨sockfd, ?_⟩⟩
      have hopens : w.Opens w' sockfd := ⟨c', comm, hcomms ▸ hfree, hcomm, hcomms ▸ hcomms'⟩
      rcases hcases with ⟨fd', hfd, -, heq⟩ | ⟨_, _, -, heq⟩ | heq
      · obtain rfl : sockfd = fd' := Option.some_inj.mp (Prod.mk.inj heq).1
        exact ⟨hfd, hopens⟩
      · exact absurd (Prod.mk.inj heq).1 (by simp)
      · exact absurd (Prod.mk.inj heq).1 (by simp)

end NetDedup.Comm

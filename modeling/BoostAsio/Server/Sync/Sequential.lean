import BoostAsio.Core.Exchange
import BoostAsio.Client.RequestLanguage

/-!
# The servers that serve one client after the other

The thread of `Server::Run` accepts a connection and handles its client before it looks at the
next one, in plain TCP and behind SSL. Any number of clients connect and call over connections
of their own. The answer that a client gets is the answer to its own request.
-/

namespace BoostAsio

open BoostAsio.System

/-- `Service::HandleClient` of the server in plain TCP. -/
def SyncTcpServer.handleClient : List Blocking := [.readUntil [lf], .write (ascii "Response\n")]

/-- `SyncSSLService::HandleClient`. -/
def SyncSSLService.handleClient : List Blocking :=
  [.negotiate, .readUntil [lf], .write (ascii "Response\n")]

/-- `EmulateLongComputationOp` as it blocks. -/
def SyncTcpClient.emulate (durationSec : UInt32) : List Blocking :=
  [.write (SyncTcpClient.encodeRequest durationSec), .readUntil [lf]]

/-- A client that calls with these durations; what throws leaves the `try` block of `main`. -/
def SyncTcpClient.program (durations : List UInt32) : List Blocking :=
  durations.flatMap SyncTcpClient.emulate

/-- `EmulateLongComputationOp` behind SSL. -/
def SyncSSLClient.emulate (durationSec : UInt32) : List Blocking :=
  [.write (SyncSSLClient.encodeRequest durationSec), .readUntil [lf]]

/-- The client behind SSL, whose `Connect` makes the handshake. `OnPeerVerify` refuses no peer,
so that the handshake fails with the network only. -/
def SyncSSLClient.program (durations : List UInt32) : List Blocking :=
  .negotiate :: durations.flatMap SyncSSLClient.emulate

namespace SequentialServer

/-- The two servers. -/
inductive Server
  | syncTcp
  | ssl
  deriving DecidableEq, Repr

/-- What a server does with a client. -/
def handleClient : Server → List Blocking
  | .syncTcp => SyncTcpServer.handleClient
  | .ssl => SyncSSLService.handleClient

/-- The calls of a client of a server. -/
def program : Server → List UInt32 → List Blocking
  | .syncTcp => SyncTcpClient.program
  | .ssl => SyncSSLClient.program

/-- The client that speaks with a server. -/
def client : Server → RequestLanguage.Client
  | .syncTcp => .syncTcp
  | .ssl => .syncSSL

/-- The lines that `HandleClient` prints of a request; behind SSL nobody looks at it. -/
def printed : Server → Bytes → List Bytes
  | .syncTcp, buf => [((IStream.ofBuf buf).getline [] lf).2]
  | .ssl, _ => []

/-- A connection, by the number of connections that were made before it. -/
abbrev ConnectionId := Nat

/-- Where the caller of `Start` and `Stop` is. -/
inductive MainPoint
  | sleep
  | join
  | returned
  deriving DecidableEq, Repr

/-- Where the thread of `Server::Run` is. -/
inductive AcceptPoint
  /-- The constructor of `Acceptor`. -/
  | listen
  | testStop
  | accept
  | handleClient (i : ConnectionId)
  | returned
  /-- An exception has left the thread, which terminates the process. -/
  | terminated
  deriving DecidableEq, Repr

/-- The server with all connections that were made to it; those in the backlog are waiting. -/
structure State where
  stop : Bool
  main : MainPoint
  acceptor : AcceptPoint
  links : List Link
  backlog : List ConnectionId

/-- The next step of a thread, of a client or of the network. -/
inductive Label
  | main
  | acceptor
  | listen (ec : ErrorCode)
  | accept (ec : ErrorCode)
  /-- A client connects, to make at least one call. -/
  | connect (durationSec : UInt32) (durations : List UInt32)
  /-- The system drops a connection that broke before it was accepted. -/
  | drop (i : ConnectionId)
  | link (i : ConnectionId) (l : Link.Label)
  deriving DecidableEq, Repr

/-- `Server::Start`. -/
def start : State := ⟨false, .sleep, .listen, [], []⟩

/-- Connections can be made. -/
def State.listening (σ : State) : Bool :=
  match σ.acceptor with
  | .listen | .returned | .terminated => false
  | .testStop | .accept | .handleClient _ => true

/-- The service of a connection has carried out its script or has failed. -/
def State.served (σ : State) (i : ConnectionId) : Bool :=
  (σ.links[i]?.bind Link.service).any Talk.finished

/-- Operations of the server complete for the client that it is handling. -/
def State.allows (σ : State) (i : ConnectionId) : Link.Label → Bool
  | .accept => false
  | .service _ _ => σ.acceptor = .handleClient i
  | .client _ _ | .sendUp _ | .sendDown _ => true

/-- A step of one connection. -/
def State.modifyLink (server : Server) (σ : State) (i : ConnectionId) (l : Link.Label) :
    Option State :=
  (σ.links[i]?.bind fun x => x.step (handleClient server) l).map fun x =>
    { σ with links := σ.links.set i x }

/-- The process is over. -/
def State.over (σ : State) : Prop := σ.acceptor = .terminated ∨ σ.main = .returned

instance (σ : State) : Decidable σ.over := inferInstanceAs (Decidable (_ ∨ _))

/-- The step of a thread, with the connection that it accepts. -/
def advance (server : Server) (σ : State) : Label → Option (State × List ConnectionId)
  | .main =>
    match σ.main with
    | .sleep => some ({ σ with stop := true, main := .join }, [])
    | .join => if σ.acceptor = .returned then some ({ σ with main := .returned }, []) else none
    | .returned => none
  | .acceptor =>
    match σ.acceptor with
    | .testStop => some ({ σ with acceptor := if σ.stop then .returned else .accept }, [])
    | .handleClient i => if σ.served i then some ({ σ with acceptor := .testStop }, []) else none
    | _ => none
  | .listen ec =>
    match σ.acceptor with
    | .listen => some ({ σ with acceptor := if ec.failed then .terminated else .testStop }, [])
    | _ => none
  | .accept ec =>
    match σ.acceptor with
    | .accept =>
      if ec.failed then some ({ σ with acceptor := .terminated }, [])
      else σ.backlog.head?.bind fun i =>
        (σ.modifyLink server i .accept).map fun σ =>
          ({ σ with acceptor := .handleClient i, backlog := σ.backlog.tail }, [i])
    | _ => none
  | .connect durationSec durations =>
    if σ.listening then
      some ({ σ with
          links := σ.links ++ [.opened (program server (durationSec :: durations))]
          backlog := σ.backlog ++ [σ.links.length] }, [])
    else none
  | .drop i =>
    if i ∈ σ.backlog then some ({ σ with backlog := σ.backlog.erase i }, []) else none
  | .link i l => if σ.allows i l then (σ.modifyLink server i l).map fun σ => (σ, []) else none

/-- One step of the process. -/
def step (server : Server) (σ : State) (l : Label) : Option (State × List ConnectionId) :=
  if σ.over then none else advance server σ l

/-- The steps of the two threads that leave the connections alone. -/
inductive Moves (σ : State) : State → Prop
  | stop (hpoint : σ.main = .sleep) : Moves σ { σ with stop := true, main := .join }
  | join (hpoint : σ.main = .join) (hreturned : σ.acceptor = .returned) :
      Moves σ { σ with main := .returned }
  | listen (hpoint : σ.acceptor = .listen) : Moves σ { σ with acceptor := .testStop }
  | terminate (hpoint : σ.acceptor = .listen ∨ σ.acceptor = .accept) :
      Moves σ { σ with acceptor := .terminated }
  | testStop (hpoint : σ.acceptor = .testStop) :
      Moves σ { σ with acceptor := if σ.stop then .returned else .accept }
  | handled {i : ConnectionId} (hpoint : σ.acceptor = .handleClient i)
      (hserved : σ.served i = true) : Moves σ { σ with acceptor := .testStop }

/-- The steps by what they do to the threads and to the connections. -/
inductive Step (server : Server) (σ : State) : State → List ConnectionId → Prop
  | thread {τ : State} (hmoves : Moves σ τ) : Step server σ τ []
  | accept {i : ConnectionId} {rest : List ConnectionId} {x y : Link}
      (hpoint : σ.acceptor = .accept) (hbacklog : σ.backlog = i :: rest)
      (hx : σ.links[i]? = some x) (hstep : x.step (handleClient server) .accept = some y) :
      Step server σ
        { σ with links := σ.links.set i y, acceptor := .handleClient i, backlog := rest } [i]
  | connect {durationSec : UInt32} {durations : List UInt32} :
      Step server σ
        { σ with
          links := σ.links ++ [.opened (program server (durationSec :: durations))]
          backlog := σ.backlog ++ [σ.links.length] } []
  | drop {i : ConnectionId} : Step server σ { σ with backlog := σ.backlog.erase i } []
  | link {i : ConnectionId} {l : Link.Label} {x y : Link} (hallows : σ.allows i l = true)
      (hx : σ.links[i]? = some x) (hstep : x.step (handleClient server) l = some y) :
      Step server σ { σ with links := σ.links.set i y } []

section

variable {server : Server} {σ τ : State} {l : Label} {es tr : List ConnectionId}
  {labels : List Label}

theorem modifyLink_eq_some {i : ConnectionId} {a : Link.Label}
    (h : σ.modifyLink server i a = some τ) : ∃ x y, σ.links[i]? = some x ∧
      x.step (handleClient server) a = some y ∧ τ = { σ with links := σ.links.set i y } := by
  obtain ⟨y, hy, rfl⟩ := Option.map_eq_some_iff.mp h
  obtain ⟨x, hx, hstep⟩ := Option.bind_eq_some_iff.mp hy
  exact ⟨x, y, hx, hstep, rfl⟩

theorem step_cases (h : step server σ l = some (τ, es)) : Step server σ τ es := by
  simp only [step, Option.ite_none_left_eq_some] at h
  obtain ⟨-, h⟩ := h
  cases l with
  | main =>
    simp only [advance] at h
    split at h
    · next hpoint =>
      obtain ⟨rfl, rfl⟩ := Prod.mk.inj (Option.some.inj h)
      exact .thread (.stop hpoint)
    · next hpoint =>
      obtain ⟨hreturned, h⟩ := Option.ite_none_right_eq_some.mp h
      obtain ⟨rfl, rfl⟩ := Prod.mk.inj (Option.some.inj h)
      exact .thread (.join hpoint hreturned)
    · cases h
  | acceptor =>
    simp only [advance] at h
    split at h
    · next hpoint =>
      obtain ⟨rfl, rfl⟩ := Prod.mk.inj (Option.some.inj h)
      exact .thread (.testStop hpoint)
    · next i hpoint =>
      obtain ⟨hserved, h⟩ := Option.ite_none_right_eq_some.mp h
      obtain ⟨rfl, rfl⟩ := Prod.mk.inj (Option.some.inj h)
      exact .thread (.handled hpoint hserved)
    · cases h
  | listen ec =>
    simp only [advance] at h
    split at h
    · next hpoint =>
      obtain ⟨rfl, rfl⟩ := Prod.mk.inj (Option.some.inj h)
      split
      · exact .thread (.terminate (Or.inl hpoint))
      · exact .thread (.listen hpoint)
    · cases h
  | accept ec =>
    simp only [advance] at h
    split at h
    · next hpoint =>
      split at h
      · obtain ⟨rfl, rfl⟩ := Prod.mk.inj (Option.some.inj h)
        exact .thread (.terminate (Or.inr hpoint))
      · obtain ⟨i, hi, h⟩ := Option.bind_eq_some_iff.mp h
        obtain ⟨mid, hmid, he⟩ := Option.map_eq_some_iff.mp h
        obtain ⟨x, y, hx, hstep, rfl⟩ := modifyLink_eq_some hmid
        obtain ⟨rfl, rfl⟩ := Prod.mk.inj he
        obtain ⟨rest, hbacklog⟩ := List.head?_eq_some_iff.mp hi
        simp only [hbacklog, List.tail_cons]
        exact .accept hpoint hbacklog hx hstep
    · cases h
  | connect durationSec durations =>
    obtain ⟨-, h⟩ := Option.ite_none_right_eq_some.mp h
    obtain ⟨rfl, rfl⟩ := Prod.mk.inj (Option.some.inj h)
    exact .connect
  | drop i =>
    obtain ⟨-, h⟩ := Option.ite_none_right_eq_some.mp h
    obtain ⟨rfl, rfl⟩ := Prod.mk.inj (Option.some.inj h)
    exact .drop
  | link i a =>
    obtain ⟨hallows, h⟩ := Option.ite_none_right_eq_some.mp h
    obtain ⟨mid, hmid, he⟩ := Option.map_eq_some_iff.mp h
    obtain ⟨x, y, hx, hstep, rfl⟩ := modifyLink_eq_some hmid
    obtain ⟨rfl, rfl⟩ := Prod.mk.inj he
    exact .link hallows hx hstep

end

/-- The buffers that the requests of a connection were read into. -/
def requests (x : Link) : List Bytes := x.service.elim [] Talk.reads

/-- What the calls of the client have returned. -/
def responses (x : Link) : List (Except ErrorCode Bytes) :=
  x.client.reads.map fun buf => (SyncTcpClient.receiveResponse ⟨[], [buf]⟩).1

/-- A client that first asks for this duration gets one answer at most, to this request. -/
structure Serves (server : Server) (durationSec : UInt32) (x : Link) : Prop where
  asked : requests x = [] ∨
    requests x = [RequestLanguage.encodeRequest (client server) durationSec]
  printed : ∀ buf ∈ requests x,
    printed server buf <+: [RequestLanguage.line (client server, durationSec)]
  answered : responses x = [] ∨ responses x = [.ok (ascii "Response")]
  /-- No call returns before its request was read. -/
  order : responses x ≠ [] →
    requests x = [RequestLanguage.encodeRequest (client server) durationSec]

/-- The clients of both servers ask first. -/
theorem asks (server : Server) (durationSec : UInt32) (durations : List UInt32) :
    Asks [lf] (RequestLanguage.encodeRequest (client server) durationSec)
      (program server (durationSec :: durations)) := by
  have hends : EndsWith [lf] (RequestLanguage.encodeRequest (client server) durationSec) := by
    rw [RequestLanguage.encodeRequest_eq]
    exact endsWith_singleton (RequestLanguage.lf_not_mem_line _)
  have huniform : ∀ (emulate : UInt32 → List Blocking), (∀ d, delimiters (emulate d) = [[lf]]) →
      ∀ d ∈ delimiters ((durationSec :: durations).flatMap emulate), d = [lf] := by
    intro emulate hemulate
    induction durationSec :: durations with
    | nil => exact fun d hd => absurd hd List.not_mem_nil
    | cons head tail ih =>
      intro d hd
      rw [List.flatMap_cons, delimiters_append, hemulate, List.mem_append] at hd
      exact hd.elim List.mem_singleton.mp (ih d)
  cases server with
  | syncTcp =>
    exact ⟨hends, ⟨[], SyncTcpClient.program durations, nofun, rfl⟩, huniform _ fun _ => rfl⟩
  | ssl =>
    refine ⟨hends, ⟨[.negotiate], durations.flatMap SyncSSLClient.emulate, ?_, rfl⟩,
      huniform _ fun _ => rfl⟩
    exact fun op hop => List.mem_singleton.mp hop

/-- Both servers answer once. -/
theorem answers (server : Server) :
    Answers [lf] (ascii "Response\n") (handleClient server) := by
  have hends : EndsWith [lf] (ascii "Response\n") := ⟨ascii "Response", by decide, by decide⟩
  cases server with
  | syncTcp => exact ⟨hends, [], nofun, rfl⟩
  | ssl => exact ⟨hends, [.negotiate], fun op hop => List.mem_singleton.mp hop, rfl⟩

/-- A connection between a client and the service of a server. -/
def Fits (server : Server) (x : Link) : Prop :=
  ∃ durationSec durations,
    Link.Joined (program server (durationSec :: durations)) (handleClient server) x ∧
      Link.Served (RequestLanguage.encodeRequest (client server) durationSec)
        (ascii "Response\n") x

section

variable {server : Server} {σ τ : State} {es tr : List ConnectionId} {labels : List Label}
  {x y : Link}

theorem fits_opened (server : Server) (durationSec : UInt32) (durations : List UInt32) :
    Fits server (.opened (program server (durationSec :: durations))) :=
  ⟨durationSec, durations, Link.joined_opened _ _, Link.served_opened _ _ _⟩

/-- Every step of a connection keeps it. -/
theorem Fits.step (h : Fits server x) {a : Link.Label}
    (hstep : x.step (handleClient server) a = some y) : Fits server y := by
  obtain ⟨durationSec, durations, hjoined, hserved⟩ := h
  refine ⟨durationSec, durations, hjoined.step hstep, ?_⟩
  exact hserved.step hjoined (asks ..) (answers server) (List.cons_ne_nil lf []) hstep

/-- Every step of the process keeps it for all connections. -/
theorem Step.fits (hs : Step server σ τ es) (hi : ∀ x ∈ σ.links, Fits server x) :
    ∀ x ∈ τ.links, Fits server x := by
  have hset : ∀ {i a x y}, σ.links[i]? = some x → x.step (handleClient server) a = some y →
      ∀ z ∈ σ.links.set i y, Fits server z := by
    intro i a x y hx hstep z hz
    rcases List.mem_or_eq_of_mem_set hz with hz | rfl
    · exact hi z hz
    · exact (hi x (List.mem_of_getElem? hx)).step hstep
  cases hs with
  | thread hmoves => cases hmoves <;> exact hi
  | accept _ _ hx hstep => exact hset hx hstep
  | connect =>
    intro z hz
    rcases List.mem_append.mp hz with hz | hz
    · exact hi z hz
    · rw [List.mem_singleton.mp hz]
      exact fits_opened ..
  | drop => exact hi
  | link _ hx hstep => exact hset hx hstep

theorem fits_of_exec (h : exec (step server) start labels = some (σ, tr)) :
    ∀ x ∈ σ.links, Fits server x := by
  refine exec_induction (P := fun _ σ _ => ∀ x ∈ σ.links, Fits server x) ?_ ?_ h
  · exact fun x hx => absurd hx List.not_mem_nil
  · exact fun _ hi hstep => (step_cases hstep).fits hi

/-- What both sides have read, as the client and the printed line show it. -/
theorem serves {durationSec : UInt32}
    (h : Link.Served (RequestLanguage.encodeRequest (client server) durationSec)
      (ascii "Response\n") x) : Serves server durationSec x := by
  have hasked : requests x = [] ∨
      requests x = [RequestLanguage.encodeRequest (client server) durationSec] := by
    cases hs : x.service with
    | none => exact Or.inl (by rw [requests, hs]; rfl)
    | some service =>
      rw [requests, hs]
      exact h.asked service hs
  have hresponse : (SyncTcpClient.receiveResponse ⟨[], [ascii "Response\n"]⟩).1 =
      .ok (ascii "Response") := rfl
  refine ⟨hasked, fun buf hbuf => ?_, ?_, fun hne => ?_⟩
  · rcases hasked with hnone | hone
    · rw [hnone] at hbuf
      cases hbuf
    · rw [hone] at hbuf
      rw [List.mem_singleton.mp hbuf, RequestLanguage.encodeRequest_eq]
      cases server with
      | syncTcp =>
        rw [printed, IStream.getline_line (RequestLanguage.lf_not_mem_line _)]
      | ssl => exact List.nil_prefix
  · rcases h.answered with hnone | hone
    · exact Or.inl (by rw [responses, hnone]; rfl)
    · exact Or.inr (by rw [responses, hone, List.map_singleton, hresponse])
  · have hreads : x.client.reads ≠ [] := by
      rw [responses] at hne
      exact fun hnil => hne (List.map_eq_nil_iff.mpr hnil)
    obtain ⟨service, hs, hone⟩ := h.order hreads
    rw [requests, hs]
    exact hone

/-- Whatever the clients, the network and the two threads do, every client has its own request
read or none, and gets the answer to it or none. -/
theorem serves_of_run (h : exec (step server) start labels = some (σ, tr)) :
    ∀ x ∈ σ.links, ∃ durationSec durations,
      x.client.script = program server (durationSec :: durations) ∧
        Serves server durationSec x := by
  intro x hx
  obtain ⟨durationSec, durations, hjoined, hserved⟩ := fits_of_exec h x hx
  exact ⟨durationSec, durations, hjoined.opener, serves hserved⟩

/-- A client calls twice. Its first request is answered, and then the connection is closed. -/
def twoCallsSchedule : List Label :=
  [.listen .success, .connect 10 [20], .acceptor, .accept .success, .link 0 (.sendUp 100),
    .link 0 (.client .success []),
    .link 0 (.service .success (SyncTcpClient.encodeRequest 10)), .link 0 (.sendDown 100),
    .link 0 (.service .success []), .link 0 (.client .success (ascii "Response\n")),
    .link 0 (.sendUp 5), .link 0 (.client ⟨32, .system⟩ []), .acceptor]

/-- The client has its one answer, and its second request is not looked at. -/
theorem twoCallsSchedule_serves : ∃ σ tr x,
    exec (step .syncTcp) start twoCallsSchedule = some (σ, tr) ∧ x ∈ σ.links ∧
      x.up.channel.written.length = 29 ∧ responses x = [.ok (ascii "Response")] ∧
      requests x = [SyncTcpClient.encodeRequest 10] := by
  obtain ⟨⟨σ, tr⟩, hrun, x, hx, hwritten, hscript, hreads⟩ :
      ∃ p ∈ exec (step .syncTcp) start twoCallsSchedule, ∃ x ∈ p.1.links,
        x.up.channel.written.length = 29 ∧
          x.client.script = SyncTcpClient.program [10, 20] ∧
          x.client.reads = [ascii "Response\n"] := by decide +kernel
  have hresponses : responses x = [.ok (ascii "Response")] := by
    rw [responses, hreads]
    rfl
  obtain ⟨durationSec, durations, hsame, hserves⟩ := serves_of_run hrun x hx
  rw [hscript] at hsame
  have hfirst := (List.cons.inj hsame).1
  have hrequest : SyncTcpClient.encodeRequest 10 = SyncTcpClient.encodeRequest durationSec :=
    Blocking.write.inj hfirst
  have hasked := hserves.order (by rw [hresponses]; exact List.cons_ne_nil _ _)
  exact ⟨σ, tr, x, hrun, hx, hwritten, hresponses, hrequest ▸ hasked⟩

end

end SequentialServer

end BoostAsio

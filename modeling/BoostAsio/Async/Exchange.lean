import BoostAsio.Client.Async.Response
import BoostAsio.Client.RequestLanguage
import BoostAsio.Core.Exchange
import BoostAsio.Core.System.Component
import BoostAsio.Server.Async.Traffic

/-!
# The asynchronous client at the asynchronous server

All sessions of an `AsyncTcpClient` connect to one `AsyncTcpServer`. Each connection has a
channel in both directions. Both objects take the steps of their own models; an operation
completes as the network and the documentation of its function allow it, and may fail at any
time.
-/

namespace BoostAsio.AsyncExchange

open BoostAsio.System
open AsyncTcpClient (SessionId)
open AsyncTcpServer (ServiceId SocketId)

/-- The connection of a session. -/
structure Connection where
  /-- From the session to the server. -/
  up : Channel UInt8
  down : Channel UInt8
  /-- The handshake is over. -/
  made : Bool
  accepted : Bool

/-- A connection before the handshake. -/
def Connection.new : Connection := ⟨.empty, .empty, false, false⟩

/-- Both objects and their connections. -/
structure State where
  client : AsyncTcpClient.State
  server : AsyncTcpServer.State
  connections : SessionId → Connection
  /-- The session whose connection was accepted on a socket. -/
  peers : SocketId → Option SessionId

/-- The choices of the callers, of both schedulers, of Asio and of the network. -/
inductive Label
  | client (l : AsyncTcpClient.Label)
  | server (l : AsyncTcpServer.Label)
  /-- The handshake of a session is made. -/
  | handshake (s : SessionId)
  /-- An `async_accept` succeeds with the connection of a session. -/
  | accept (t : AsyncTcpServer.ThreadId) (sock : SocketId) (s : SessionId)
  /-- Some of the request of a session goes out. -/
  | send (s : SessionId) (n : Nat)
  deriving DecidableEq, Repr

/-- What the objects make visible. -/
abbrev Event := AsyncTcpClient.Event ⊕ AsyncTcpServer.Event

namespace State

/-- Before any call. -/
def init : State := ⟨.init, .new, fun _ => .new, fun _ => none⟩

/-- Change one connection. -/
def modify (x : State) (s : SessionId) (f : Connection → Option Connection) : Option State :=
  (f (x.connections s)).map fun c =>
    { x with connections := Function.update x.connections s c }

/-- The session that a service was created for. -/
def peer (x : State) (v : ServiceId) : Option SessionId :=
  if v < x.server.count then x.peers (x.server.sock v) else none

/-- An operation of this kind is pending for a session. -/
def waits (x : State) (s : SessionId) (op : AsyncTcpClient.Operation) : Bool :=
  (x.client.sessions s).pending.any (·.op = op)

/-- The connection of a session is accepted on a socket. -/
def accept (x : State) (sock : SocketId) (s : SessionId) (σ : AsyncTcpServer.State) : State :=
  { x with
    server := σ
    connections := Function.update x.connections s { x.connections s with accepted := true }
    peers := Function.update x.peers sock (some s) }

/-- The listening socket is open. -/
def listening (x : State) : Bool := x.server.starter ≠ .listen && !x.server.closed

end State

/-- What the completion of a session's operation takes from its connection. -/
def Connection.complete (c : Connection) (x : AsyncTcpClient.Session) (ec : ErrorCode)
    (received : Bytes) : AsyncTcpClient.Operation → Option Connection
  | .connect => if received = [] ∧ (ec.value = 0 → c.made = true) then some c else none
  | .write => if received = [] ∧ (ec.value = 0 → c.up.written = x.request) then some c else none
  | .read =>
    if CompletesUntil [lf] false x.responseBuf ec received then
      (c.down.receive received (ec = .eof)).map fun down => { c with down := down }
    else none

/-- What a step of the client does to the connections. -/
def clientSide (x : State) : AsyncTcpClient.Label → Option State
  | .deliver _ s p ec received =>
    x.modify s fun c => c.complete (x.client.sessions s) ec received p.op
  | .run t =>
    match x.client.threads t with
    | .complete .shutdown s _ => x.modify s fun c => some { c with up := c.up.close }
    | _ => some x
  | .emulate _ _ _ | .cancelRequest _ _ | .openThrows _ => some x

/-- What a step of the server does to the connections. An accept that succeeds is a choice of
its own. -/
def serverSide (x : State) : AsyncTcpServer.Label → Option State
  | .accept _ _ ec => if ec.value = 0 then none else some x
  | .deliver _ v .read ec received =>
    if CompletesUntil [lf] false (x.server.services v).request ec received then
      (x.peer v).bind fun s => x.modify s fun c =>
        (c.up.receive received (ec = .eof)).map fun up => { c with up := up }
    else none
  | .deliver _ v (.write sent) ec received =>
    if received = [] ∧ (ec.value = 0 → sent = (x.server.services v).response.length) then some x
    else none
  | .transmit v sent n =>
    (x.peer v).bind fun s => x.modify s fun c =>
      (c.down.send (((x.server.services v).response.drop sent).take n)).map fun down =>
        { c with down := down }
  | .run t =>
    match x.server.threads t with
    | .onFinish v =>
      (x.peer v).bind fun s => x.modify s fun c => some { c with down := c.down.close }
    | _ => some x
  | .start | .stop => some x

/-- One choice, for a client with `n` threads and a server with `size` threads. -/
def step (n size : Nat) (x : State) : Label → Option (State × List Event)
  | .client l =>
    (clientSide x l).bind fun y => (AsyncTcpClient.step n x.client l).map fun next =>
      ({ y with client := next.1 }, next.2.map .inl)
  | .server l =>
    (serverSide x l).bind fun y => (AsyncTcpServer.step size x.server l).map fun next =>
      ({ y with server := next.1 }, next.2.map .inr)
  | .handshake s =>
    if x.waits s .connect ∧ x.listening then
      (x.modify s fun c => some { c with made := true }).map fun y => (y, [])
    else none
  | .accept t sock s =>
    if (x.connections s).made = true ∧ (x.connections s).accepted = false then
      (AsyncTcpServer.step size x.server (.accept t sock .success)).map fun next =>
        (x.accept sock s next.1, next.2.map .inr)
    else none
  | .send s n =>
    if x.waits s .write then
      (x.modify s fun c =>
        (c.up.send (((x.client.sessions s).request.drop c.up.written.length).take n)).map
          fun up => { c with up := up }).map fun y => (y, [])
    else none

/-- A run of both objects. -/
abbrev Run (n size : Nat) (labels : List Label) (x : State) (tr : List Event) : Prop :=
  exec (step n size) State.init labels = some (x, tr)

/-- The labels of the client. -/
def Label.client? : Label → Option AsyncTcpClient.Label
  | .client l => some l
  | .server _ | .handshake _ | .accept _ _ _ | .send _ _ => none

/-- The labels of the server. -/
def Label.server? : Label → Option AsyncTcpServer.Label
  | .server l => some l
  | .accept t sock _ => some (.accept t sock .success)
  | .client _ | .handshake _ | .send _ _ => none

/-- What the client does in a run. -/
def clientLabels (labels : List Label) : List AsyncTcpClient.Label :=
  labels.filterMap Label.client?

/-- The events of the client. -/
def clientTrace (tr : List Event) : List AsyncTcpClient.Event := tr.filterMap Sum.getLeft?

/-- What a step does. -/
inductive Step (n size : Nat) (x : State) : Label → State → List Event → Prop
  | client {l y σ es} (hside : clientSide x l = some y)
      (hstep : AsyncTcpClient.step n x.client l = some (σ, es)) :
      Step n size x (.client l) { y with client := σ } (es.map .inl)
  | server {l y σ es} (hside : serverSide x l = some y)
      (hstep : AsyncTcpServer.step size x.server l = some (σ, es)) :
      Step n size x (.server l) { y with server := σ } (es.map .inr)
  | handshake {s} (hwaits : x.waits s .connect = true) :
      Step n size x (.handshake s)
        { x with
          connections := Function.update x.connections s
            { x.connections s with made := true } } []
  | accept {t sock s σ es} (hmade : (x.connections s).made = true)
      (hfree : (x.connections s).accepted = false)
      (hstep : AsyncTcpServer.step size x.server (.accept t sock .success) = some (σ, es)) :
      Step n size x (.accept t sock s) (x.accept sock s σ) (es.map .inr)
  | send {s m up} (hwaits : x.waits s .write = true)
      (hup : (x.connections s).up.send (((x.client.sessions s).request.drop
        (x.connections s).up.written.length).take m) = some up) :
      Step n size x (.send s m)
        { x with
          connections := Function.update x.connections s { x.connections s with up := up } } []

section

variable {n size : Nat} {x y : State} {l : Label} {tr es : List Event} {s : SessionId}

@[simp] theorem server_accept (sock : SocketId) (σ : AsyncTcpServer.State) :
    (x.accept sock s σ).server = σ := rfl

@[simp] theorem peers_accept (sock other : SocketId) (σ : AsyncTcpServer.State) :
    (x.accept sock s σ).peers other = if other = sock then some s else x.peers other :=
  Function.update_apply ..

theorem modify_eq_some {f : Connection → Option Connection} (h : x.modify s f = some y) :
    ∃ c, f (x.connections s) = some c ∧
      y = { x with connections := Function.update x.connections s c } := by
  obtain ⟨c, hc, rfl⟩ := Option.map_eq_some_iff.mp h
  exact ⟨c, hc, rfl⟩

theorem step_cases (h : step n size x l = some (y, es)) : Step n size x l y es := by
  cases l with
  | client l =>
    obtain ⟨y, hside, h⟩ := Option.bind_eq_some_iff.mp h
    obtain ⟨⟨σ, fs⟩, hstep, h⟩ := Option.map_eq_some_iff.mp h
    cases h
    exact .client hside hstep
  | server l =>
    obtain ⟨y, hside, h⟩ := Option.bind_eq_some_iff.mp h
    obtain ⟨⟨σ, fs⟩, hstep, h⟩ := Option.map_eq_some_iff.mp h
    cases h
    exact .server hside hstep
  | handshake s =>
    obtain ⟨⟨hwaits, -⟩, h⟩ := Option.ite_none_right_eq_some.mp h
    obtain ⟨z, hz, h⟩ := Option.map_eq_some_iff.mp h
    obtain ⟨c, hc, rfl⟩ := modify_eq_some hz
    obtain rfl := Option.some.inj hc
    cases h
    exact .handshake hwaits
  | accept t sock s =>
    obtain ⟨⟨hmade, hfree⟩, h⟩ := Option.ite_none_right_eq_some.mp h
    obtain ⟨⟨σ, fs⟩, hstep, h⟩ := Option.map_eq_some_iff.mp h
    cases h
    exact .accept hmade hfree hstep
  | send s m =>
    obtain ⟨hwaits, h⟩ := Option.ite_none_right_eq_some.mp h
    obtain ⟨z, hz, h⟩ := Option.map_eq_some_iff.mp h
    obtain ⟨c, hc, rfl⟩ := modify_eq_some hz
    obtain ⟨up, hup, rfl⟩ := Option.map_eq_some_iff.mp hc
    cases h
    exact .send hwaits hup

end

section

variable {x y : State} {s : SessionId}

/-- What the completion of an operation takes from a connection. -/
theorem Connection.complete_eq_some {c c' : Connection} {σ : AsyncTcpClient.Session}
    {op : AsyncTcpClient.Operation} {ec : ErrorCode} {received : Bytes}
    (h : c.complete σ ec received op = some c') :
    c'.up = c.up ∧ c'.made = c.made ∧ c'.accepted = c.accepted ∧
      c'.down.written = c.down.written ∧ c'.down.delivered = c.down.delivered ++ received ∧
      (op ≠ .read → received = []) ∧
      (op = .read → ec.value = 0 → lf ∈ σ.responseBuf ++ received) := by
  cases op with
  | connect | write =>
    obtain ⟨⟨rfl, -⟩, hsame⟩ := Option.ite_none_right_eq_some.mp h
    obtain rfl := Option.some.inj hsame
    exact ⟨rfl, rfl, rfl, rfl, (List.append_nil _).symm, fun _ => rfl, nofun⟩
  | read =>
    obtain ⟨hcompletes, h⟩ := Option.ite_none_right_eq_some.mp h
    obtain ⟨down, hdown, rfl⟩ := Option.map_eq_some_iff.mp h
    obtain ⟨hwritten, hdelivered, -⟩ := Channel.receive_eq_some hdown
    exact ⟨rfl, rfl, rfl, hwritten, hdelivered, fun hne => absurd rfl hne, fun _ hec =>
      (List.singleton_infix_iff ..).mp (hcompletes.2.1 hec)⟩

/-- What a step of the client takes from the connections. -/
inductive ClientSide (x : State) : AsyncTcpClient.Label → State → Prop
  | still {l} (hnone : ∀ s, l.delivery s = none) : ClientSide x l x
  | complete {t s p ec received c}
      (hc : (x.connections s).complete (x.client.sessions s) ec received p.op = some c) :
      ClientSide x (.deliver t s p ec received)
        { x with connections := Function.update x.connections s c }
  | shutdown {t s} :
      ClientSide x (.run t)
        { x with
          connections := Function.update x.connections s
            { x.connections s with up := (x.connections s).up.close } }

theorem clientSide_cases {l : AsyncTcpClient.Label} (h : clientSide x l = some y) :
    ClientSide x l y := by
  cases l with
  | deliver t s p ec received =>
    simp only [clientSide] at h
    obtain ⟨c, hc, rfl⟩ := modify_eq_some h
    exact .complete hc
  | run t =>
    simp only [clientSide] at h
    split at h
    · obtain ⟨c, hc, rfl⟩ := modify_eq_some h
      obtain rfl := Option.some.inj hc
      exact .shutdown
    · obtain rfl := Option.some.inj h
      exact .still fun _ => rfl
  | emulate | cancelRequest | openThrows =>
    obtain rfl := Option.some.inj h
    exact .still fun _ => rfl

/-- What a step of the server takes from the connections. -/
inductive ServerSide (x : State) : AsyncTcpServer.Label → State → Prop
  | still {l} (hread : ∀ v, l.read v = []) (hsends : ∀ sock, l.sends x.server sock = [])
      (hfound : ∀ t v ec received, l ≠ .deliver t v .read ec received)
      (haccept : ∀ t sock ec, l = .accept t sock ec → ec.value ≠ 0) : ServerSide x l x
  | read {t v ec received s up} (hpeer : x.peer v = some s)
      (hfound : ec.value = 0 → lf ∈ (x.server.services v).request ++ received)
      (hup : (x.connections s).up.receive received (ec = .eof) = some up) :
      ServerSide x (.deliver t v .read ec received)
        { x with
          connections := Function.update x.connections s { x.connections s with up := up } }
  | transmit {v sent n s down} (hpeer : x.peer v = some s)
      (hdown : (x.connections s).down.send
        (((x.server.services v).response.drop sent).take n) = some down) :
      ServerSide x (.transmit v sent n)
        { x with
          connections := Function.update x.connections s { x.connections s with down := down } }
  | close {t s} :
      ServerSide x (.run t)
        { x with
          connections := Function.update x.connections s
            { x.connections s with down := (x.connections s).down.close } }

theorem serverSide_cases {l : AsyncTcpServer.Label} (h : serverSide x l = some y) :
    ServerSide x l y := by
  have hstill : ∀ {l : AsyncTcpServer.Label}, (∀ v, l.read v = []) →
      (∀ sock, l.sends x.server sock = []) →
      (∀ t v ec received, l ≠ .deliver t v .read ec received) →
      (∀ t sock ec, l = .accept t sock ec → ec.value ≠ 0) → some x = some y →
      ServerSide x l y := by
    intro l hread hsends hfound haccept h
    obtain rfl := Option.some.inj h
    exact .still hread hsends hfound haccept
  cases l with
  | accept t sock ec =>
    obtain ⟨hec, h⟩ := Option.ite_none_left_eq_some.mp h
    refine hstill (fun _ => rfl) (fun _ => rfl) nofun (fun _ _ _ he => ?_) h
    cases he
    exact hec
  | deliver t v op ec received =>
    cases op with
    | read =>
      obtain ⟨hcompletes, h⟩ := Option.ite_none_right_eq_some.mp h
      obtain ⟨s, hpeer, h⟩ := Option.bind_eq_some_iff.mp h
      obtain ⟨c, hc, rfl⟩ := modify_eq_some h
      obtain ⟨up, hup, rfl⟩ := Option.map_eq_some_iff.mp hc
      exact .read hpeer (fun hec => (List.singleton_infix_iff ..).mp (hcompletes.2.1 hec)) hup
    | write sent =>
      obtain ⟨-, h⟩ := Option.ite_none_right_eq_some.mp h
      exact hstill (fun _ => rfl) (fun _ => rfl) nofun nofun h
  | transmit v sent n =>
    obtain ⟨s, hpeer, h⟩ := Option.bind_eq_some_iff.mp h
    obtain ⟨c, hc, rfl⟩ := modify_eq_some h
    obtain ⟨down, hdown, rfl⟩ := Option.map_eq_some_iff.mp hc
    exact .transmit hpeer hdown
  | run t =>
    simp only [serverSide] at h
    split at h
    · obtain ⟨s, hpeer, h⟩ := Option.bind_eq_some_iff.mp h
      obtain ⟨c, hc, rfl⟩ := modify_eq_some h
      obtain rfl := Option.some.inj hc
      exact .close
    · exact hstill (fun _ => rfl) (fun _ => rfl) nofun nofun h
  | start | stop => exact hstill (fun _ => rfl) (fun _ => rfl) nofun nofun h

/-- The client is a component. -/
theorem client_partOf {n size : Nat} :
    PartOf (step n size) (AsyncTcpClient.step n) (fun x => x.client) Label.client?
      Sum.getLeft? := by
  intro x l y es h
  cases step_cases h with
  | @client l y σ es hside hstep =>
    have htrace : (es.map Sum.inl).filterMap (Sum.getLeft? (β := AsyncTcpServer.Event)) = es := by
      simp [List.filterMap_map, Function.comp_def]
    rw [htrace]
    exact (exec_singleton ..).trans hstep
  | @server l y σ es hside hstep =>
    have htrace : (es.map Sum.inr).filterMap (Sum.getLeft? (α := AsyncTcpClient.Event)) = [] := by
      simp [List.filterMap_map, Function.comp_def]
    rw [htrace]
    cases serverSide_cases hside <;> rfl
  | @accept t sock s σ es =>
    have htrace : (es.map Sum.inr).filterMap (Sum.getLeft? (α := AsyncTcpClient.Event)) = [] := by
      simp [List.filterMap_map, Function.comp_def]
    rw [htrace]
    rfl
  | handshake | send => rfl

/-- The server is a component. -/
theorem server_partOf {n size : Nat} :
    PartOf (step n size) (AsyncTcpServer.step size) (fun x => x.server) Label.server?
      Sum.getRight? := by
  intro x l y es h
  cases step_cases h with
  | @client l y σ es hside hstep =>
    have htrace : (es.map Sum.inl).filterMap (Sum.getRight? (β := AsyncTcpServer.Event)) = [] := by
      simp [List.filterMap_map, Function.comp_def]
    rw [htrace]
    cases clientSide_cases hside <;> rfl
  | @server l y σ es hside hstep | @accept t sock s σ es hmade hfree hstep =>
    have htrace : (es.map Sum.inr).filterMap (Sum.getRight? (α := AsyncTcpClient.Event)) = es := by
      simp [List.filterMap_map, Function.comp_def]
    rw [htrace]
    exact (exec_singleton ..).trans hstep
  | handshake | send => rfl

end

end BoostAsio.AsyncExchange

import BoostAsio.Core.System.Run
import BoostAsio.Core.ErrorCode
import BoostAsio.Core.Stream.IStream
import Mathlib.Tactic.Simps.Basic

/-!
# AsyncTcpServer: services, the accept loop and the pool

One thread runs `Server::Start`, one `Server::Stop`, and the pool threads run the handlers
of the acceptor and of all services. Starting an operation is the last thing that a handler
does, so it leaves the handler in the same step. A stopped `io_service` runs no further
handler, and `run` returns behind the handler that is being executed.
-/

namespace BoostAsio.AsyncTcpServer

/-- The threads of the pool, in the order in which `Server::Start` creates them. -/
abbrev ThreadId := Nat

/-- The sockets, in the order in which `InitAccept` creates them. -/
abbrev SocketId := Nat

/-- The identity of a `Service` object, in order of creation. -/
abbrev ServiceId := Nat

/-- The asynchronous operations of a service. -/
inductive Operation
  | read
  /-- A write of which so many bytes were sent. -/
  | write (sent : Nat)
  deriving DecidableEq, Repr

/-- The `Service` object. -/
structure Service where
  sock : SocketId
  request : Bytes
  response : Bytes
  /-- What Asio has still to complete on `m_sock`. -/
  pending : List Operation
  /-- How often `delete this` was executed. -/
  deletions : Nat

namespace Service

/-- The constructor of `Service`. -/
@[simps] def new (sock : SocketId) : Service := ⟨sock, [], [], [], 0⟩

/-- Start an operation. -/
@[simps] def start (v : Service) (op : Operation) : Service :=
  { v with pending := v.pending ++ [op] }

/-- Take an operation from Asio, with what it has appended to `m_request`. -/
@[simps] def complete (v : Service) (op : Operation) (received : Bytes) : Service :=
  { v with
    pending := v.pending.erase op
    request := if op = .read then v.request ++ received else v.request }

/-- `ProcessRequest`; the request is not looked at. -/
def processRequest (_request : Bytes) : Bytes := ascii "Response\n"

/-- Set `m_response`. -/
@[simps] def respond (v : Service) : Service := { v with response := processRequest v.request }

/-- Further bytes of the write were sent. -/
@[simps] def advance (v : Service) (sent n : Nat) : Service :=
  { v with pending := v.pending.erase (.write sent) ++ [.write (sent + n)] }

/-- `delete this`. -/
@[simps] def delete (v : Service) : Service := { v with deletions := v.deletions + 1 }

end Service

/-- What a pool thread is about to do. -/
inductive Frame
  /-- The thread does not exist yet. -/
  | unborn
  /-- In `m_ios.run()`, between two handlers. -/
  | idle
  /-- `m_ios.run()` has returned. -/
  | exited
  | onAccept (ec : ErrorCode) (sock : SocketId)
  /-- `OnAccept`, at the test of `m_is_stopped`. -/
  | testStopped
  | initAccept
  | closeAcceptor
  | onRequestReceived (ec : ErrorCode) (s : ServiceId)
  /-- `OnRequestReceived`, at `async_write`. -/
  | startWrite (s : ServiceId)
  | onResponseSent (ec : ErrorCode) (s : ServiceId)
  | onFinish (s : ServiceId)
  deriving DecidableEq, Repr

/-- What the thread in `Server::Start` is about to do. -/
inductive StartPoint
  | listen | initAccept | createThreads
  deriving DecidableEq, Repr

/-- What the thread in `Server::Stop` is about to do. -/
inductive StopPoint
  | stopAcceptor | stopService | join | returned
  deriving DecidableEq, Repr

/-- The server. -/
structure State where
  /-- The number of sockets created so far. -/
  sockets : Nat
  /-- The sockets with an outstanding `async_accept`. -/
  accepts : List SocketId
  /-- Whether `m_acceptor.close()` was executed. -/
  closed : Bool
  isStopped : Bool
  /-- Whether `m_ios.stop()` was executed. -/
  iosStopped : Bool
  services : ServiceId → Service
  /-- The number of services created so far. -/
  count : Nat
  /-- What was sent through a socket. -/
  sent : SocketId → Bytes
  starter : StartPoint
  stopper : StopPoint
  /-- The size of `m_thread_pool`. -/
  pool : Nat
  threads : ThreadId → Frame

/-- What a step makes visible. -/
inductive Event
  | acceptStarted (sock : SocketId)
  | accepted (sock : SocketId) (ec : ErrorCode)
  | created (s : ServiceId) (sock : SocketId)
  | closed
  /-- `Acceptor::Stop` has set `m_is_stopped`. -/
  | stopSet
  | readStarted (s : ServiceId)
  | writeStarted (s : ServiceId)
  | delivered (s : ServiceId) (op : Operation) (ec : ErrorCode)
  | sent (s : ServiceId) (bytes : Bytes)
  | deleted (s : ServiceId)
  deriving DecidableEq, Repr

/-- The choices of the scheduler, of Asio and of the clients. -/
inductive Label
  /-- `Server::Start` takes its next step. -/
  | start
  /-- `Server::Stop` takes its next step. -/
  | stop
  /-- Asio completes an `async_accept` and a pool thread runs `OnAccept`. -/
  | accept (t : ThreadId) (sock : SocketId) (ec : ErrorCode)
  /-- Asio completes an operation of a service and a pool thread runs its handler. -/
  | deliver (t : ThreadId) (s : ServiceId) (op : Operation) (ec : ErrorCode) (received : Bytes)
  /-- Asio sends at most so many further bytes of a write. -/
  | transmit (s : ServiceId) (sent n : Nat)
  /-- A pool thread takes its next step. -/
  | run (t : ThreadId)
  deriving DecidableEq, Repr

namespace State

/-- Move one thread to another point. -/
@[simps] def goto (σ : State) (t : ThreadId) (f : Frame) : State :=
  { σ with threads := fun u => if u = t then f else σ.threads u }

/-- Change one service. -/
@[simps] def modify (σ : State) (s : ServiceId) (v : Service) : State :=
  { σ with services := fun r => if r = s then v else σ.services r }

/-- `InitAccept`. -/
@[simps] def initAccept (σ : State) : State :=
  { σ with sockets := σ.sockets + 1, accepts := σ.accepts ++ [σ.sockets] }

/-- Take an `async_accept` from Asio. -/
@[simps] def takeAccept (σ : State) (sock : SocketId) : State :=
  { σ with accepts := σ.accepts.erase sock }

/-- `(new Service(sock))->StartHandling()`. -/
@[simps] def create (σ : State) (sock : SocketId) : State :=
  { σ.modify σ.count ((Service.new sock).start .read) with count := σ.count + 1 }

/-- `m_acceptor.close()`. -/
@[simps] def close (σ : State) : State := { σ with closed := true }

/-- Send bytes through a socket. -/
@[simps] def send (σ : State) (sock : SocketId) (bytes : Bytes) : State :=
  { σ with sent := fun c => if c = sock then σ.sent c ++ bytes else σ.sent c }

/-- The server after its constructor. -/
@[simps] def new : State where
  sockets := 0
  accepts := []
  closed := false
  isStopped := false
  iosStopped := false
  services _ := .new 0
  count := 0
  sent _ := []
  starter := .listen
  stopper := .stopAcceptor
  pool := 0
  threads _ := .unborn

end State

/-- The handler of an operation. -/
def Operation.handler (op : Operation) (ec : ErrorCode) (s : ServiceId) : Frame :=
  match op with
  | .read => .onRequestReceived ec s
  | .write _ => .onResponseSent ec s

/-- One step of `Server::Start`, with this `thread_pool_size`. -/
def startStep (size : Nat) (σ : State) : StartPoint → Option (State × List Event)
  | .listen => some ({ σ with starter := .initAccept }, [])
  | .initAccept =>
    some ({ σ.initAccept with starter := .createThreads }, [.acceptStarted σ.sockets])
  | .createThreads =>
    if σ.pool < size then some ({ σ.goto σ.pool .idle with pool := σ.pool + 1 }, []) else none

/-- One step of `Server::Stop`. -/
def stopStep (σ : State) : StopPoint → Option (State × List Event)
  | .stopAcceptor => some ({ σ with isStopped := true, stopper := .stopService }, [.stopSet])
  | .stopService => some ({ σ with iosStopped := true, stopper := .join }, [])
  | .join =>
    if ∀ t < σ.pool, σ.threads t = .exited then some ({ σ with stopper := .returned }, [])
    else none
  | .returned => none

/-- One step of a pool thread from its point. -/
def advance (σ : State) (t : ThreadId) : Frame → Option (State × List Event)
  | .unborn | .exited => none
  | .idle => if σ.iosStopped then some (σ.goto t .exited, []) else none
  | .onAccept ec sock =>
    if ec.value = 0 then
      some ((σ.create sock).goto t .testStopped, [.created σ.count sock, .readStarted σ.count])
    else some (σ.goto t .testStopped, [])
  | .testStopped => some (σ.goto t (if σ.isStopped then .closeAcceptor else .initAccept), [])
  | .initAccept => some (σ.initAccept.goto t .idle, [.acceptStarted σ.sockets])
  | .closeAcceptor => some (σ.close.goto t .idle, [.closed])
  | .onRequestReceived ec s =>
    if ec.value ≠ 0 then some (σ.goto t (.onFinish s), [])
    else some ((σ.modify s (σ.services s).respond).goto t (.startWrite s), [])
  | .startWrite s =>
    some ((σ.modify s ((σ.services s).start (.write 0))).goto t .idle, [.writeStarted s])
  | .onResponseSent _ s => some (σ.goto t (.onFinish s), [])
  | .onFinish s => some ((σ.modify s (σ.services s).delete).goto t .idle, [.deleted s])

/-- One choice, with this `thread_pool_size`. -/
def step (size : Nat) (σ : State) : Label → Option (State × List Event)
  | .start => startStep size σ σ.starter
  | .stop => stopStep σ σ.stopper
  | .accept t sock ec =>
    if σ.threads t = .idle ∧ σ.iosStopped = false ∧ sock ∈ σ.accepts then
      some ((σ.takeAccept sock).goto t (.onAccept ec sock), [.accepted sock ec])
    else none
  | .deliver t s op ec received =>
    if σ.threads t = .idle ∧ σ.iosStopped = false ∧ op ∈ (σ.services s).pending then
      some ((σ.modify s ((σ.services s).complete op received)).goto t (op.handler ec s),
        [.delivered s op ec])
    else none
  | .transmit s sent n =>
    let v := σ.services s
    if .write sent ∈ v.pending then
      let bytes := (v.response.drop sent).take n
      some ((σ.modify s (v.advance sent bytes.length)).send v.sock bytes, [.sent s bytes])
    else none
  | .run t => advance σ t (σ.threads t)

/-- A run of a server with this `thread_pool_size`. -/
abbrev Run (size : Nat) (labels : List Label) (σ : State) (tr : List Event) : Prop :=
  System.exec (step size) State.new labels = some (σ, tr)

end BoostAsio.AsyncTcpServer

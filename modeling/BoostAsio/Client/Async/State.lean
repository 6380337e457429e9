import BoostAsio.Core.System.Run
import BoostAsio.Core.System.WaitFor
import BoostAsio.Core.ErrorCode
import BoostAsio.Core.Stream.Numeral

/-!
# AsyncTcpClient: sessions, threads and atomic steps

Every thread stands at one program point of `EmulateLongComputationOp`,
`CancelRequest`, a completion handler or `OnRequestComplete`. Locking, unlocking,
the accesses to shared data and the start of an operation are separate steps.
Asio may run the handler of a pending operation on any idle pool thread, with any
result. A call made from inside a user callback is a call on a thread of its own.
-/

namespace BoostAsio.AsyncTcpClient

/-- Threads below the pool size run `m_ios.run()`; the others call the client. -/
abbrev ThreadId := Nat

/-- The identity of a `Session` object, in order of creation. -/
abbrev SessionId := Nat

/-- The asynchronous operations of a session, in the order of its chain. -/
inductive Operation
  | connect | write | read
  deriving DecidableEq, Repr

/-- The operation that the completion handler of this one starts. -/
def Operation.next : Operation → Option Operation
  | .connect => some .write
  | .write => some .read
  | .read => none

/-- An operation started on `m_sock` whose handler has not been run yet. -/
structure Pending where
  op : Operation
  /-- Whether `m_sock.cancel()` was called while it was pending. -/
  cancelled : Bool
  deriving DecidableEq, Repr

/-- The `Session` object; endpoint and callback pointer are never read by the steps. -/
structure Session where
  request : Bytes
  responseBuf : Bytes
  response : Bytes
  ec : ErrorCode
  id : UInt32
  wasCancelled : Bool
  /-- The thread that holds `m_cancel_guard`. -/
  cancelGuard : Option ThreadId
  /-- What Asio has still to complete on `m_sock`. -/
  pending : List Pending

/-- The request text of `EmulateLongComputationOp`. -/
def encodeRequest (durationSec : UInt32) : Bytes :=
  ascii "EMULATE_LONG_CALC_OP " ++ decimal durationSec.toNat ++ ascii "\n"

/-- The constructor of `Session`. -/
def Session.new (request : Bytes) (id : UInt32) : Session :=
  ⟨request, [], [], .success, id, false, none, []⟩

/-- Program points inside `OnRequestComplete`. -/
inductive CompletePoint
  | shutdown | lockActive | erase | unlockActive | verdict
  | callback (ec : ErrorCode)
  | inCallback
  deriving DecidableEq, Repr

/-- What a thread is about to do. -/
inductive Frame
  | idle
  | openSocket (s : SessionId)
  | registerLock (s : SessionId)
  | registerInsert (s : SessionId)
  | registerUnlock (s : SessionId)
  | asyncConnect (s : SessionId)
  | cancelLock (id : UInt32)
  | cancelFind (id : UInt32)
  | cancelLockGuard (s : SessionId)
  | cancelSetFlag (s : SessionId)
  | cancelSocket (s : SessionId)
  | cancelUnlockGuard (s : SessionId)
  | cancelUnlock
  | handler (op : Operation) (ec : ErrorCode) (s : SessionId)
  | lockGuard (next : Operation) (s : SessionId)
  | checkFlag (next : Operation) (s : SessionId)
  | startNext (next : Operation) (s : SessionId)
  | getResponse (s : SessionId)
  /-- `OnRequestComplete`, with whether the calling handler holds `m_cancel_guard`. -/
  | complete (point : CompletePoint) (s : SessionId) (guarded : Bool)
  /-- The end of a handler's scope, where `cancel_lock` is released. -/
  | leave (s : SessionId)
  deriving DecidableEq, Repr

/-- The client object, its sessions and the threads that run it. -/
structure State where
  sessions : SessionId → Session
  /-- The number of sessions created so far. -/
  count : Nat
  activeSessions : UInt32 → Option SessionId
  /-- The thread that holds `m_active_sessions_guard`. -/
  activeSessionsGuard : Option ThreadId
  threads : ThreadId → Frame

/-- What a step makes visible. -/
inductive Event
  /-- `EmulateLongComputationOp` returned normally for the session it created. -/
  | emulated (s : SessionId)
  /-- `EmulateLongComputationOp` left by the exception of `m_sock.open`. -/
  | openFailed (s : SessionId)
  /-- `CancelRequest` found the session in `m_active_sessions`. -/
  | found (s : SessionId)
  /-- Asio ran the handler of the operation with this result. -/
  | delivered (s : SessionId) (op : Operation) (ec : ErrorCode)
  /-- The user callback was invoked with these arguments. -/
  | callback (s : SessionId) (id : UInt32) (response : Bytes) (ec : ErrorCode)
  /-- `OnRequestComplete` returned. -/
  | completed (s : SessionId)
  deriving DecidableEq, Repr

/-- The scheduler's and the environment's choices. -/
inductive Label
  /-- A caller thread calls `EmulateLongComputationOp`. -/
  | emulate (t : ThreadId) (durationSec requestId : UInt32)
  /-- A caller thread calls `CancelRequest`. -/
  | cancelRequest (t : ThreadId) (requestId : UInt32)
  /-- A pool thread runs the handler of a pending operation; `received` are the bytes
  a read has appended to the response buffer. -/
  | deliver (t : ThreadId) (s : SessionId) (p : Pending) (ec : ErrorCode) (received : Bytes)
  /-- The socket of the session under construction cannot be opened. -/
  | openThrows (t : ThreadId)
  /-- The thread takes its next step. -/
  | run (t : ThreadId)
  deriving DecidableEq, Repr

namespace State

/-- The client before any call. -/
def init : State where
  sessions _ := .new [] 0
  count := 0
  activeSessions _ := none
  activeSessionsGuard := none
  threads _ := .idle

/-- Move one thread to another program point. -/
def goto (σ : State) (t : ThreadId) (f : Frame) : State :=
  { σ with threads := Function.update σ.threads t f }

/-- Change one session. -/
def modify (σ : State) (s : SessionId) (g : Session → Session) : State :=
  { σ with sessions := Function.update σ.sessions s (g (σ.sessions s)) }

/-- Take or release `m_active_sessions_guard`. -/
def setGuard (σ : State) (owner : Option ThreadId) : State :=
  { σ with activeSessionsGuard := owner }

/-- Change one entry of `m_active_sessions`. -/
def setActive (σ : State) (id : UInt32) (entry : Option SessionId) : State :=
  { σ with activeSessions := Function.update σ.activeSessions id entry }

end State

namespace Session

/-- Start an asynchronous operation on `m_sock`. -/
def start (op : Operation) (x : Session) : Session :=
  { x with pending := x.pending ++ [⟨op, false⟩] }

/-- `m_sock.cancel()` reaches everything that is pending at this moment. -/
def cancelSocket (x : Session) : Session :=
  { x with pending := x.pending.map fun p => { p with cancelled := true } }

/-- Take or release `m_cancel_guard`. -/
def setGuard (owner : Option ThreadId) (x : Session) : Session :=
  { x with cancelGuard := owner }

/-- Asio completes a pending operation; only a read changes the response buffer. -/
def finish (p : Pending) (received : Bytes) (x : Session) : Session :=
  { x with
    pending := x.pending.erase p
    responseBuf := if p.op = .read then x.responseBuf ++ received else x.responseBuf }

/-- `std::getline(in, session->m_response)` on the response buffer. -/
def getResponse (x : Session) : Session :=
  let line := (IStream.ofBuf x.responseBuf).getline x.response lf
  { x with response := line.2, responseBuf := line.1.buf }

/-- The code that `OnRequestComplete` passes to the callback. -/
def verdict (x : Session) : ErrorCode :=
  if x.ec.value = 0 ∧ x.wasCancelled = true then .operationAborted else x.ec

end Session

/-- One step of `OnRequestComplete`. -/
def onRequestComplete (σ : State) (t : ThreadId) (s : SessionId) (guarded : Bool) :
    CompletePoint → Option (State × List Event)
  | .shutdown => some (σ.goto t (.complete .lockActive s guarded), [])
  | .lockActive =>
    if σ.activeSessionsGuard = none then
      some ((σ.setGuard (some t)).goto t (.complete .erase s guarded), [])
    else none
  | .erase =>
    -- The entry of the id is erased whichever session it holds.
    some ((σ.setActive (σ.sessions s).id none).goto t (.complete .unlockActive s guarded), [])
  | .unlockActive => some ((σ.setGuard none).goto t (.complete .verdict s guarded), [])
  | .verdict => some (σ.goto t (.complete (.callback (σ.sessions s).verdict) s guarded), [])
  | .callback ec =>
    some (σ.goto t (.complete .inCallback s guarded),
      [.callback s (σ.sessions s).id (σ.sessions s).response ec])
  | .inCallback => some (σ.goto t (if guarded then .leave s else .idle), [.completed s])

/-- One step of a thread from its program point; a lock that is taken disables it. -/
def advance (σ : State) (t : ThreadId) : Frame → Option (State × List Event)
  | .idle => none
  | .openSocket s => some (σ.goto t (.registerLock s), [])
  | .registerLock s =>
    if σ.activeSessionsGuard = none then
      some ((σ.setGuard (some t)).goto t (.registerInsert s), [])
    else none
  | .registerInsert s =>
    some ((σ.setActive (σ.sessions s).id (some s)).goto t (.registerUnlock s), [])
  | .registerUnlock s => some ((σ.setGuard none).goto t (.asyncConnect s), [])
  | .asyncConnect s => some ((σ.modify s (.start .connect)).goto t .idle, [.emulated s])
  | .cancelLock id =>
    if σ.activeSessionsGuard = none then
      some ((σ.setGuard (some t)).goto t (.cancelFind id), [])
    else none
  | .cancelFind id =>
    match σ.activeSessions id with
    | some s => some (σ.goto t (.cancelLockGuard s), [.found s])
    | none => some (σ.goto t .cancelUnlock, [])
  | .cancelLockGuard s =>
    if (σ.sessions s).cancelGuard = none then
      some ((σ.modify s (.setGuard (some t))).goto t (.cancelSetFlag s), [])
    else none
  | .cancelSetFlag s =>
    some ((σ.modify s fun x => { x with wasCancelled := true }).goto t (.cancelSocket s), [])
  | .cancelSocket s =>
    some ((σ.modify s .cancelSocket).goto t (.cancelUnlockGuard s), [])
  | .cancelUnlockGuard s => some ((σ.modify s (.setGuard none)).goto t .cancelUnlock, [])
  | .cancelUnlock => some ((σ.setGuard none).goto t .idle, [])
  | .handler op ec s =>
    if ec.value ≠ 0 then
      some ((σ.modify s fun x => { x with ec := ec }).goto t (.complete .shutdown s false), [])
    else
      match op.next with
      | some next => some (σ.goto t (.lockGuard next s), [])
      | none => some (σ.goto t (.getResponse s), [])
  | .lockGuard next s =>
    if (σ.sessions s).cancelGuard = none then
      some ((σ.modify s (.setGuard (some t))).goto t (.checkFlag next s), [])
    else none
  | .checkFlag next s =>
    -- On the cancelled branch `OnRequestComplete` runs with `cancel_lock` still held.
    if (σ.sessions s).wasCancelled then some (σ.goto t (.complete .shutdown s true), [])
    else some (σ.goto t (.startNext next s), [])
  | .startNext next s => some ((σ.modify s (.start next)).goto t (.leave s), [])
  | .getResponse s =>
    some ((σ.modify s .getResponse).goto t (.complete .shutdown s false), [])
  | .complete point s guarded => onRequestComplete σ t s guarded point
  | .leave s => some ((σ.modify s (.setGuard none)).goto t .idle, [])

/-- One choice of the scheduler or the environment, for a pool of `numOfThreads`. -/
def step (numOfThreads : Nat) (σ : State) : Label → Option (State × List Event)
  | .emulate t durationSec requestId =>
    if numOfThreads ≤ t ∧ σ.threads t = .idle then
      let created : State :=
        { σ with
          sessions := Function.update σ.sessions σ.count
            (.new (encodeRequest durationSec) requestId)
          count := σ.count + 1 }
      some (created.goto t (.openSocket σ.count), [])
    else none
  | .cancelRequest t requestId =>
    if numOfThreads ≤ t ∧ σ.threads t = .idle then
      some (σ.goto t (.cancelLock requestId), [])
    else none
  | .deliver t s p ec received =>
    if t < numOfThreads ∧ σ.threads t = .idle ∧ p ∈ (σ.sessions s).pending then
      some ((σ.modify s (.finish p received)).goto t (.handler p.op ec s),
        [.delivered s p.op ec])
    else none
  | .openThrows t =>
    match σ.threads t with
    | .openSocket s => some (σ.goto t .idle, [.openFailed s])
    | _ => none
  | .run t => advance σ t (σ.threads t)

/-- A run of the client from its construction. -/
abbrev Run (numOfThreads : Nat) (labels : List Label) (σ : State) (tr : List Event) : Prop :=
  System.exec (step numOfThreads) State.init labels = some (σ, tr)

end BoostAsio.AsyncTcpClient

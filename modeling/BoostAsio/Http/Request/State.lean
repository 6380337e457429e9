import BoostAsio.Core.System.Run
import BoostAsio.Http.Request.Handlers

/-!
# HttpRequest: the chain of operations and its cancellation

The request stands at one point of `Execute`, of a pending operation or of its handler,
while any number of threads call `Cancel`. Asio completes a pending operation with any
result, a cancelled one too. Locking, unlocking and the reading of the flag are
separate steps, and each operation is started by the step that leaves the check in
front of it.
-/

namespace BoostAsio.HttpRequest

/-- The threads that call `Cancel`. -/
abbrev ThreadId := Nat

/-- What the constructor and the setters have stored in the request. -/
structure Settings where
  host : Bytes
  port : UInt16
  uri : Bytes
  method : Bytes
  hasCallback : Bool

/-- The constructor of `HttpRequest`, with `DEFAULT_PORT`. -/
def Settings.new : Settings := ⟨[], 80, [], ascii "GET", false⟩

/-- The checks of `Execute`, with the text of the exception. -/
def Settings.check (x : Settings) : Except Bytes Unit := do
  if x.port ≤ 0 then throw (ascii "Failed to execute HttpRequest => Invalid Port")
  if x.host.length ≤ 0 then throw (ascii "Failed to execute HttpRequest => Invalid Host")
  if x.uri.length ≤ 0 then throw (ascii "Failed to execute HttpRequest => Invalid Uri")
  if !x.hasCallback then
    throw (ascii "Failed to execute HttpRequest => Required to set callback")

/-- What `OnConnectionEstablished` appends to `m_request_buf`. -/
def Settings.encode (x : Settings) : Bytes :=
  (x.method ++ ascii " " ++ x.uri ++ ascii " HTTP/1.1\r\n") ++
    (ascii "Host: " ++ x.host ++ ascii "\r\n") ++ ascii "\r\n"

/-- The operations of a request, in the order of their chain. -/
inductive Stage
  | resolve | connect | write | statusLine | headers | body
  deriving DecidableEq, Repr

/-- The operation that the completion handler of this one starts. -/
def Stage.next : Stage → Option Stage
  | .resolve => some .connect
  | .connect => some .write
  | .write => some .statusLine
  | .statusLine => some .headers
  | .headers => some .body
  | .body => none

/-- Whether the operation appends what it receives to the response's buffer. -/
def Stage.reads : Stage → Bool
  | .statusLine | .headers | .body => true
  | .resolve | .connect | .write => false

/-- An asynchronous operation with its arguments. -/
inductive Operation
  | asyncResolve (host service : Bytes)
  | asyncConnect
  | asyncWrite (buf : Bytes)
  | asyncReadUntil (delim : Bytes)
  | asyncRead
  deriving DecidableEq, Repr

/-- An exception that leaves `Execute` or a handler. -/
inductive Exception
  | runtimeError (what : Bytes)
  | systemError (ec : ErrorCode)
  deriving DecidableEq, Repr

/-- Where the request stands. The points that name a stage lead to its start. -/
inductive Point
  | execute
  | checkLock (next : Stage)
  | checkFlag (next : Stage)
  | checkUnlock (next : Stage)
  /-- `cancel_lock.unlock()` on the cancelled branch of `IsCancelled`. -/
  | abortUnlock
  | start (next : Stage)
  /-- Asio has still to complete the operation; whether a `cancel` has reached it. -/
  | pending (stage : Stage) (cancelled : Bool)
  | handler (stage : Stage) (ec : ErrorCode)
  | finish (ec : ErrorCode)
  | thrown (e : Exception)
  /-- Nothing is pending and no handler runs. -/
  | ended
  deriving DecidableEq, Repr

/-- Program points inside `Cancel`. -/
inductive CancelPoint
  | idle | lock | setFlag | cancelResolver | cancelSocket | unlock
  deriving DecidableEq, Repr

/-- The holder of `m_cancel_mux`. -/
inductive Owner
  | request
  | canceller (t : ThreadId)
  deriving DecidableEq, Repr

/-- The request and the threads that cancel it. -/
structure State where
  settings : Settings
  requestBuf : Bytes
  response : HttpMessage
  wasCancelled : Bool
  cancelMux : Option Owner
  /-- Whether `m_sock` is open, as it is from the start of the connect on. -/
  sockOpen : Bool
  point : Point
  cancels : ThreadId → CancelPoint

/-- What a step makes visible. -/
inductive Event
  | started (op : Operation)
  | delivered (stage : Stage) (ec : ErrorCode)
  /-- `IsCancelled` found the flag set. -/
  | stopped
  /-- `OnStatusLineReceived` could not read the status line. -/
  | rejected
  /-- `OnFinish` printed a failure. -/
  | printed (ec : ErrorCode)
  /-- `OnFinish` invoked the user callback. -/
  | callback (response : HttpMessage) (ec : ErrorCode)

/-- The scheduler's and the environment's choices. -/
inductive Label
  /-- The request takes its next step; the header loop may iterate so many times. -/
  | run (fuel : Nat)
  /-- Asio completes the pending operation; a read has received these bytes. -/
  | deliver (ec : ErrorCode) (received : Bytes)
  /-- `m_sock.shutdown` throws in `OnRequestSent`. -/
  | shutdownThrows (ec : ErrorCode)
  /-- A thread calls `Cancel`. -/
  | cancel (t : ThreadId)
  /-- A thread takes its next step inside `Cancel`. -/
  | runCancel (t : ThreadId)
  deriving DecidableEq, Repr

namespace State

/-- A request before `Execute`, with nothing cancelled. -/
def new (settings : Settings) : State where
  settings := settings
  requestBuf := []
  response := .new
  wasCancelled := false
  cancelMux := none
  sockOpen := false
  point := .execute
  cancels _ := .idle

/-- Move the request to another point. -/
def goto (σ : State) (p : Point) : State := { σ with point := p }

/-- Move a cancelling thread to another point. -/
def cancelGoto (σ : State) (t : ThreadId) (p : CancelPoint) : State :=
  { σ with cancels := Function.update σ.cancels t p }

/-- Take or release `m_cancel_mux`. -/
def setMux (σ : State) (owner : Option Owner) : State := { σ with cancelMux := owner }

/-- Store the response as a handler or a read leaves it. -/
def setResponse (σ : State) (m : HttpMessage) : State := { σ with response := m }

/-- Open `m_sock`. -/
def openSock (σ : State) : State := { σ with sockOpen := true }

/-- The `cancel` of an object reaches what is pending on it at this moment. -/
def cancelPending (σ : State) (on : Stage → Bool) : State :=
  match σ.point with
  | .pending stage _ => if on stage then σ.goto (.pending stage true) else σ
  | _ => σ

/-- Append the request text. -/
def encodeRequest (σ : State) : State :=
  { σ with requestBuf := σ.requestBuf ++ σ.settings.encode }

end State

/-- The end of a handler, or of `Execute`, behind its check: an operation is started. -/
def start (fuel : Nat) (σ : State) : Stage → Option (State × List Event)
  | .resolve =>
    some (σ.goto (.pending .resolve false),
      [.started (.asyncResolve σ.settings.host (decimal σ.settings.port.toNat))])
  | .connect => some (σ.openSock.goto (.pending .connect false), [.started .asyncConnect])
  | .write =>
    some (σ.encodeRequest.goto (.pending .write false),
      [.started (.asyncWrite σ.encodeRequest.requestBuf)])
  | .statusLine =>
    some (σ.goto (.pending .statusLine false), [.started (.asyncReadUntil (ascii "\r\n"))])
  | .headers =>
    match readStatusLine σ.response with
    | .error code => some (σ.goto (.finish code), [.rejected])
    | .ok m =>
      some ((σ.setResponse m).goto (.pending .headers false),
        [.started (.asyncReadUntil (ascii "\r\n\r\n"))])
  | .body =>
    (readHeaders fuel σ.response).map fun m =>
      ((σ.setResponse m).goto (.pending .body false), [.started .asyncRead])

/-- The head of a completion handler. -/
def handle (σ : State) (stage : Stage) (ec : ErrorCode) : State × List Event :=
  match stage.next with
  | none => (σ.goto (.finish (onResponseBodyReceived ec)), [])
  | some next =>
    match onError ec with
    | .error code => (σ.goto (.finish code), [])
    | .ok () => (σ.goto (.checkLock next), [])

/-- `OnFinish`: only success reaches the callback. -/
def onFinish (σ : State) (ec : ErrorCode) : State × List Event :=
  if ec.value ≠ 0 then (σ.goto .ended, [.printed ec])
  else (σ.goto .ended, [.callback σ.response ec])

/-- One step of the request from its point; a lock that is taken disables it. -/
def advance (fuel : Nat) (σ : State) : Point → Option (State × List Event)
  | .execute =>
    match σ.settings.check with
    | .error what => some (σ.goto (.thrown (.runtimeError what)), [])
    | .ok () => some (σ.goto (.checkLock .resolve), [])
  | .checkLock next =>
    if σ.cancelMux = none then
      some ((σ.setMux (some .request)).goto (.checkFlag next), [])
    else none
  | .checkFlag next =>
    match isCancelled σ.wasCancelled with
    | .error _ => some (σ.goto .abortUnlock, [.stopped])
    | .ok () => some (σ.goto (.checkUnlock next), [])
  | .checkUnlock next => some ((σ.setMux none).goto (.start next), [])
  | .abortUnlock => some ((σ.setMux none).goto (.finish .operationAborted), [])
  | .start next => start fuel σ next
  | .handler stage ec => some (handle σ stage ec)
  | .finish ec => some (onFinish σ ec)
  | .pending _ _ | .thrown _ | .ended => none

/-- One step of `Cancel`. -/
def advanceCancel (σ : State) (t : ThreadId) : CancelPoint → Option State
  | .idle => none
  | .lock =>
    if σ.cancelMux = none then
      some ((σ.setMux (some (.canceller t))).cancelGoto t .setFlag)
    else none
  | .setFlag => some ({ σ with wasCancelled := true }.cancelGoto t .cancelResolver)
  | .cancelResolver => some ((σ.cancelPending (· = .resolve)).cancelGoto t .cancelSocket)
  | .cancelSocket =>
    some ((if σ.sockOpen then σ.cancelPending (· ≠ .resolve) else σ).cancelGoto t .unlock)
  | .unlock => some ((σ.setMux none).cancelGoto t .idle)

/-- One choice of the scheduler or the environment. -/
def step (σ : State) : Label → Option (State × List Event)
  | .run fuel => advance fuel σ σ.point
  | .deliver ec received =>
    match σ.point with
    | .pending stage _ =>
      let response := if stage.reads then
        σ.response.withBuf (σ.response.messageBuf ++ received) else σ.response
      some ((σ.setResponse response).goto (.handler stage ec), [.delivered stage ec])
    | _ => none
  | .shutdownThrows ec =>
    if σ.point = .start .statusLine then
      some (σ.goto (.thrown (.systemError ec)), [])
    else none
  | .cancel t => if σ.cancels t = .idle then some (σ.cancelGoto t .lock, []) else none
  | .runCancel t => (advanceCancel σ t (σ.cancels t)).map fun σ' => (σ', [])

/-- A run of a request that was set up in this way, from before `Execute`. -/
abbrev Run (settings : Settings) (labels : List Label) (σ : State) (tr : List Event) : Prop :=
  System.exec step (State.new settings) labels = some (σ, tr)

end BoostAsio.HttpRequest

import BoostAsio.Core.Stream.Numeral
import BoostAsio.Core.Stream.ReadUntil
import BoostAsio.Http.Message

/-!
# HttpRequest: the response handlers

Each handler reads its part of the response from the message's buffer. A handler that
ends with `OnFinish` is an error with the code it passes; otherwise it returns the
message with which the next operation is started. The header loop may run forever, so
it takes a bound on its iterations.
-/

namespace BoostAsio.HttpRequest

/-- `OnError`: a failed result finishes the request. -/
def onError (ec : ErrorCode) : Except ErrorCode Unit :=
  if ec.value ≠ 0 then .error ec else .ok ()

/-- `IsCancelled`, by the flag it reads: a cancelled request is finished. -/
def isCancelled (wasCancelled : Bool) : Except ErrorCode Unit :=
  if wasCancelled then .error .operationAborted else .ok ()

/-- The version that a status line has to start with. -/
def httpVersion : Bytes := ascii "HTTP/1.1"

/-- The body of `OnStatusLineReceived`. -/
def readStatusLine (response : HttpMessage) : Except ErrorCode HttpMessage :=
  let version := (IStream.ofBuf response.messageBuf).extract []
  if version.2 ≠ httpVersion then .error .invalidResponse
  else
    let statusCode := version.1.extract []
    match stoul statusCode.2 with
    | .error _ => .error .invalidResponse
    | .ok code =>
      let statusMessage := statusCode.1.getline [] cr
      let stream := statusMessage.1.get
      .ok (((response.setStatusCode code.toUInt32).setStatusMessage statusMessage.2).withBuf
        stream.buf)

/-- `OnStatusLineReceived`. -/
def onStatusLineReceived (ec : ErrorCode) (wasCancelled : Bool) (response : HttpMessage) :
    Except ErrorCode HttpMessage := do
  onError ec
  isCancelled wasCancelled
  readStatusLine response

/-- The variables of the loop in `OnHeadersReceived`. -/
structure HeaderLoop where
  stream : IStream
  header : Bytes
  headerName : Bytes
  headerValue : Bytes
  response : HttpMessage

/-- `header.find(':')`, with `none` for `npos`. -/
def separatorPos (header : Bytes) : Option Nat := header.findIdx? (· == 58)

/-- The name cut from a header line; a line without separator keeps the previous one. -/
def cutName (header previous : Bytes) : Bytes :=
  match separatorPos header with
  | some pos => header.take pos
  | none => previous

/-- The value cut from a header line that is not empty; `npos` is above every length. -/
def cutValue (header : Bytes) : Bytes :=
  match separatorPos header with
  | some pos => if pos < header.length - 1 then header.drop (pos + 1) else []
  | none => []

namespace HeaderLoop

/-- The variables before the first iteration. -/
def start (response : HttpMessage) : HeaderLoop :=
  ⟨.ofBuf response.messageBuf, [], [], [], response⟩

/-- The two reads at the head of an iteration. -/
def read (x : HeaderLoop) : HeaderLoop :=
  let line := x.stream.getline x.header cr
  { x with stream := line.1.get, header := line.2 }

/-- The rest of an iteration that does not break. -/
def add (x : HeaderLoop) : HeaderLoop :=
  { x with
    headerName := cutName x.header x.headerName
    headerValue := cutValue x.header
    response := x.response.addHeader (cutName x.header x.headerName) (cutValue x.header) }

/-- The loop, for at most so many iterations. -/
def run : Nat → HeaderLoop → Option HeaderLoop
  | 0, _ => none
  | n + 1, x => if x.read.header = [] then some x.read else run n x.read.add

end HeaderLoop

/-- The body of `OnHeadersReceived`, when its loop ends within so many iterations. -/
def readHeaders (fuel : Nat) (response : HttpMessage) : Option HttpMessage :=
  (HeaderLoop.run fuel (.start response)).map fun x => x.response.withBuf x.stream.buf

/-- `OnHeadersReceived`. -/
def onHeadersReceived (fuel : Nat) (ec : ErrorCode) (wasCancelled : Bool)
    (response : HttpMessage) : Option (Except ErrorCode HttpMessage) :=
  match (do onError ec; isCancelled wasCancelled) with
  | .error code => some (.error code)
  | .ok () => (readHeaders fuel response).map .ok

/-- An uncancelled handler that is given success reads its part of the response. -/
@[simp] theorem onStatusLineReceived_success (response : HttpMessage) :
    onStatusLineReceived .success false response = readStatusLine response := rfl

@[simp] theorem onHeadersReceived_success (fuel : Nat) (response : HttpMessage) :
    onHeadersReceived fuel .success false response = (readHeaders fuel response).map .ok := rfl

/-- A handler that is given a failure finishes the request with it. -/
theorem onStatusLineReceived_failed {ec : ErrorCode} (h : ec.value ≠ 0) (wasCancelled : Bool)
    (response : HttpMessage) : onStatusLineReceived ec wasCancelled response = .error ec := by
  simp [onStatusLineReceived, onError, h, bind, Except.bind]

theorem onHeadersReceived_failed {ec : ErrorCode} (h : ec.value ≠ 0) (fuel : Nat)
    (wasCancelled : Bool) (response : HttpMessage) :
    onHeadersReceived fuel ec wasCancelled response = some (.error ec) := by
  simp [onHeadersReceived, onError, h, bind, Except.bind]

/-- `OnResponseBodyReceived`: the end of the stream is the success of the request. -/
def onResponseBodyReceived (ec : ErrorCode) : ErrorCode :=
  if ec = .eof then .success else ec

/-- From the completion of the first read up to the start of the second. -/
def receiveStatusLine (response : HttpMessage) (chunks : List Bytes) :
    Except ErrorCode (HttpMessage × List Bytes) :=
  let read := readUntil (ascii "\r\n") response.messageBuf chunks
  (onStatusLineReceived read.1 false (response.withBuf read.2.1)).map fun m => (m, read.2.2)

/-- From the completion of the second read up to the start of the third. -/
def receiveHeaders (fuel : Nat) (response : HttpMessage) (chunks : List Bytes) :
    Option (Except ErrorCode (HttpMessage × List Bytes)) :=
  let read := readUntil (ascii "\r\n\r\n") response.messageBuf chunks
  (onHeadersReceived fuel read.1 false (response.withBuf read.2.1)).map
    (Except.map fun m => (m, read.2.2))

/-- The part of an uncancelled run whose second handler has read the headers. -/
def respondHead (fuel : Nat) (response : HttpMessage) (chunks : List Bytes) :
    Option (Except ErrorCode (HttpMessage × List Bytes)) :=
  match receiveStatusLine response chunks with
  | .error code => some (.error code)
  | .ok (m, rest) => receiveHeaders fuel m rest

/-- An uncancelled run from the start of the first read: the code passed to `OnFinish`,
and with success the response that the callback is given. -/
def respond (fuel : Nat) (response : HttpMessage) (chunks : List Bytes) :
    Option (Except ErrorCode HttpMessage) :=
  (respondHead fuel response chunks).map fun head => do
    let (m, rest) ← head
    let read := readToEnd m.messageBuf rest
    onError (onResponseBodyReceived read.1)
    return m.withBuf read.2.1

/-- Some number of iterations is enough for the run to finish in this way. -/
def Finishes (response : HttpMessage) (chunks : List Bytes)
    (outcome : Except ErrorCode HttpMessage) : Prop :=
  ∃ fuel, respond fuel response chunks = some outcome

end BoostAsio.HttpRequest

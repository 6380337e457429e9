import BoostAsio.Core.ErrorCode
import BoostAsio.Core.Stream.Numeral
import Mathlib.Logic.Function.Basic

/-!
# HttpService: the request handlers and the response

A handler either goes on to read the headers, calls `SendResponse` in the state it has
left, or deletes the service. `SendResponse` hands the status line, the header lines with
the blank line and the resource, if there is one, to a single write. The file system is
asked twice and may have changed in between.
-/

namespace BoostAsio

/-- `HttpService`, without its socket. -/
structure HttpService where
  /-- The unread bytes of `m_request`. -/
  request : Bytes
  requestHeaders : Bytes → Option Bytes
  requestedResource : Bytes
  /-- Null until a resource has been read. -/
  resourceBuffer : Option Bytes
  responseStatusCode : UInt32
  resourceSizeBytes : Nat
  responseHeaders : Bytes
  responseStatusLine : Bytes

namespace HttpService

/-- `HttpService::http_status_table`. -/
def httpStatusTable : List (UInt32 × Bytes) :=
  [(200, ascii "200 OK"),
    (404, ascii "404 Not Found"),
    (413, ascii "431 Request Entity Too Large"),
    (500, ascii "500 Server Error"),
    (501, ascii "501 Not Implemented"),
    (505, ascii "505 HTTP Version Not Supported")]

/-- The constructor of `HttpService`. -/
def new : HttpService where
  request := []
  requestHeaders _ := none
  requestedResource := []
  resourceBuffer := none
  responseStatusCode := 200
  resourceSizeBytes := 0
  responseHeaders := []
  responseStatusLine := []

/-- Set `m_response_status_code`. -/
def setStatus (s : HttpService) (code : UInt32) : HttpService :=
  { s with responseStatusCode := code }

/-- How a handler goes on. -/
inductive Next
  | readHeaders | sendResponse | finish
  deriving DecidableEq, Repr

/-- `OnErrorWithRes`; nothing without an error. -/
def onErrorWithRes (s : HttpService) (ec eRes : ErrorCode) (eStatusCode : UInt32) :
    Option (HttpService × Next) :=
  if ec.value ≠ 0 then
    if ec = eRes then some (s.setStatus eStatusCode, .sendResponse) else some (s, .finish)
  else none

/-- The body of `OnRequestLineReceived`. The version stays empty, because the second word
behind the method is stored as the resource too. -/
def readRequestLine (s : HttpService) : HttpService × Next :=
  let line := (IStream.ofBuf s.request).getline [] cr
  let s := { s with request := line.1.get.buf }
  let method := (IStream.ofBuf line.2).extract []
  if method.2 ≠ ascii "GET" then (s.setStatus 501, .sendResponse)
  else
    let resource := method.1.extract s.requestedResource
    let requestHttpVersion : Bytes := []
    let again := resource.1.extract resource.2
    let s := { s with requestedResource := again.2 }
    if requestHttpVersion ≠ ascii "HTTP/1.1" then (s.setStatus 505, .sendResponse)
    else (s, .readHeaders)

/-- `OnRequestLineReceived`. -/
def onRequestLineReceived (ec : ErrorCode) (s : HttpService) : HttpService × Next :=
  match s.onErrorWithRes ec .notFound 413 with
  | some next => next
  | none => s.readRequestLine

/-- The variables of the loop in `OnHeadersReceived`. -/
structure HeaderLoop where
  stream : IStream
  headerName : Bytes
  headerValue : Bytes
  requestHeaders : Bytes → Option Bytes

namespace HeaderLoop

/-- The variables before the first iteration. -/
def start (s : HttpService) : HeaderLoop := ⟨.ofBuf s.request, [], [], s.requestHeaders⟩

/-- One iteration. -/
def next (x : HeaderLoop) : HeaderLoop :=
  let name := x.stream.getline x.headerName 58
  if name.1.eof then { x with stream := name.1, headerName := name.2 }
  else
    let value := name.1.getline x.headerValue cr
    ⟨value.1.get, name.2, value.2,
      Function.update x.requestHeaders name.2 (some value.2)⟩

/-- The loop, for fewer than so many iterations. -/
def run : Nat → HeaderLoop → Option HeaderLoop
  | 0, _ => none
  | n + 1, x => if x.stream.eof then some x else run n x.next

end HeaderLoop

/-- The loop of `OnHeadersReceived`. -/
def readHeaders (fuel : Nat) (s : HttpService) : Option HttpService :=
  (HeaderLoop.run fuel (.start s)).map fun x =>
    { s with request := x.stream.buf, requestHeaders := x.requestHeaders }

/-- The answers to `std::filesystem::exists` and to opening and reading a file. -/
structure Files where
  present : Bytes → Bool
  contents : Bytes → Option Bytes

/-- `ProcessRequest`. -/
def processRequest (files : Files) (s : HttpService) : HttpService :=
  let resourceFilePath := ascii "./" ++ s.requestedResource
  if files.present resourceFilePath then s.setStatus 404
  else
    match files.contents resourceFilePath with
    | none => s.setStatus 500
    | some bytes =>
      { s with
        resourceSizeBytes := bytes.length
        resourceBuffer := some bytes
        responseHeaders := s.responseHeaders ++ (ascii "content-length" ++ ascii ": " ++
          decimal bytes.length ++ ascii "\r\n") }

/-- `OnHeadersReceived`, when its loop ends within so many iterations. -/
def onHeadersReceived (fuel : Nat) (ec : ErrorCode) (files : Files) (s : HttpService) :
    Option (HttpService × Next) :=
  match s.onErrorWithRes ec .notFound 413 with
  | some next => some next
  | none => (readHeaders fuel s).map fun s => (s.processRequest files, .sendResponse)

/-- The status line and the blank line that `SendResponse` puts in front of the resource. -/
def withHead (s : HttpService) (statusLine : Bytes) : HttpService :=
  { s with
    responseStatusLine := ascii "HTTP/1.1 " ++ statusLine ++ ascii "\r\n"
    responseHeaders := s.responseHeaders ++ ascii "\r\n" }

/-- The buffers that `SendResponse` hands to `async_write`. -/
def responseBuffers (s : HttpService) : List Bytes :=
  [s.responseStatusLine] ++
    (if s.responseHeaders.length > 0 then [s.responseHeaders] else []) ++
    (if s.resourceSizeBytes > 0 then
      [(s.resourceBuffer.getD []).take s.resourceSizeBytes] else [])

/-- `SendResponse` behind its shutdown, unless the status is missing in the table. -/
def sendResponse (s : HttpService) : Option (HttpService × List Bytes) :=
  (httpStatusTable.lookup s.responseStatusCode).map fun statusLine =>
    let s := s.withHead statusLine
    (s, s.responseBuffers)

/-- Leaving out an empty buffer changes nothing of what is sent. -/
theorem flatten_responseBuffers (s : HttpService) :
    s.responseBuffers.flatten = s.responseStatusLine ++ s.responseHeaders ++
      (s.resourceBuffer.getD []).take s.resourceSizeBytes := by
  have hoptional : ∀ (b : Bytes) (n : Nat), (n = 0 → b = []) →
      (if n > 0 then [b] else []).flatten = b := by
    intro b n h
    by_cases h0 : n > 0
    · simp [h0]
    · simp [h (by omega)]
  simp only [responseBuffers, List.flatten_append, List.flatten_singleton]
  rw [hoptional _ _ (fun h => List.length_eq_zero_iff.mp h),
    hoptional _ _ (fun h => by rw [h, List.take_zero])]

end HttpService

end BoostAsio

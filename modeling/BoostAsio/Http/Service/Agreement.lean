import BoostAsio.Http.Request.RoundTrip
import BoostAsio.Http.Service.Handlers

/-!
# The client reads back what the service has decided

Every state in which a handler calls `SendResponse` is made of a status from the table
and either no resource or a resource with its length in one header line. Its bytes are a
response as the client's decoder expects it, so only the number that the table prints for
a status decides whether both sides agree.
-/

namespace BoostAsio.HttpService

open HttpRequest (HeaderPair StatusLine encodeStatusLine encodeHeaders encodeHead lastValue
  decode_split readStatusLine_encoded crlf)

/-- The response as the constructor leaves it. -/
structure Unanswered (s : HttpService) : Prop where
  status : s.responseStatusCode = 200
  buffer : s.resourceBuffer = none
  size : s.resourceSizeBytes = 0
  headers : s.responseHeaders = []

theorem Unanswered.new : Unanswered .new := ⟨rfl, rfl, rfl, rfl⟩

/-- The states in which a handler calls `SendResponse`. -/
inductive Sending : HttpService → Prop
  | requestLine {ec s s'} (hs : Unanswered s)
      (h : onRequestLineReceived ec s = (s', .sendResponse)) : Sending s'
  | headers {fuel ec files s s'} (hs : Unanswered s)
      (h : onHeadersReceived fuel ec files s = some (s', .sendResponse)) : Sending s'

/-- The resource, empty when there is none. -/
def resource (s : HttpService) : Bytes := s.resourceBuffer.getD []

/-- The header that a resource is sent with. -/
def contentLength (r : Bytes) : HeaderPair where
  name := ascii "content-length"
  value := 32 :: decimal r.length
  no_colon := by decide
  name_no_cr := by decide
  value_no_cr h := by
    rcases List.mem_cons.mp h with h | h
    · exact absurd h (by decide)
    · exact absurd (isDigit_of_mem_decimal h) (by decide)

/-- The headers of a response. -/
def headerPairs (s : HttpService) : List HeaderPair :=
  match s.resourceBuffer with
  | none => []
  | some r => [contentLength r]

/-- A response that `SendResponse` can be called with. -/
structure Composed (s : HttpService) : Prop where
  status : s.responseStatusCode ∈ httpStatusTable.map Prod.fst
  size : s.resourceSizeBytes = s.resource.length
  headers : s.responseHeaders = encodeHeaders s.headerPairs

theorem Unanswered.composed {s s' : HttpService} (hs : Unanswered s) (code : UInt32)
    (hcode : code ∈ httpStatusTable.map Prod.fst)
    (h : s' = { s with
      request := s'.request, requestHeaders := s'.requestHeaders,
      requestedResource := s'.requestedResource, responseStatusCode := code }) :
    Composed s' := by
  rw [h]
  exact ⟨hcode, by simp [resource, hs.buffer, hs.size],
    by simp [headerPairs, hs.buffer, hs.headers, encodeHeaders]⟩

theorem Unanswered.onErrorWithRes {s s' : HttpService} (hs : Unanswered s) {ec : ErrorCode}
    (h : s.onErrorWithRes ec .notFound 413 = some (s', .sendResponse)) : Composed s' := by
  simp only [HttpService.onErrorWithRes, Option.ite_none_right_eq_some] at h
  obtain ⟨-, h⟩ := h
  split at h
  · cases h
    exact hs.composed 413 (by decide) rfl
  · cases h

/-- The first handler sends a bare status. -/
theorem Unanswered.requestLine {s s' : HttpService} (hs : Unanswered s) {ec : ErrorCode}
    (h : onRequestLineReceived ec s = (s', .sendResponse)) : Composed s' := by
  unfold onRequestLineReceived at h
  split at h
  · next next hnext =>
    subst h
    exact hs.onErrorWithRes hnext
  · simp only [readRequestLine] at h
    split at h
    · cases h
      exact hs.composed 501 (by decide) rfl
    · split at h
      · cases h
        exact hs.composed 505 (by decide) rfl
      · cases h

/-- Only the success path of `ProcessRequest` stores a resource. -/
theorem Unanswered.processRequest {s : HttpService} (hs : Unanswered s) (files : Files) :
    Composed (s.processRequest files) := by
  simp only [HttpService.processRequest]
  split
  · exact hs.composed 404 (by decide) rfl
  · split
    · exact hs.composed 500 (by decide) rfl
    · next bytes hbytes =>
      refine ⟨by simp [hs.status, httpStatusTable], rfl, ?_⟩
      have hcolon : ascii ": " = ascii ":" ++ [32] := rfl
      simp [hs.headers, headerPairs, encodeHeaders, contentLength, hcolon,
        HttpRequest.ascii_crlf]

theorem Unanswered.headersReceived {s s' : HttpService} (hs : Unanswered s) {fuel : Nat}
    {ec : ErrorCode} {files : Files}
    (h : onHeadersReceived fuel ec files s = some (s', .sendResponse)) : Composed s' := by
  unfold onHeadersReceived at h
  split at h
  · next next hnext =>
    cases h
    exact hs.onErrorWithRes hnext
  · obtain ⟨s₁, hread, hs₁⟩ := Option.map_eq_some_iff.mp h
    cases hs₁
    obtain ⟨x, -, rfl⟩ := Option.map_eq_some_iff.mp hread
    exact Unanswered.processRequest (s := { s with
      request := x.stream.buf, requestHeaders := x.requestHeaders })
      ⟨hs.status, hs.buffer, hs.size, hs.headers⟩ files

/-- Every response that is sent is composed in this way. -/
theorem Sending.composed {s : HttpService} (h : Sending s) : Composed s := by
  cases h with
  | requestLine hs h => exact hs.requestLine h
  | headers hs h => exact hs.headersReceived h

/-- The number that the table prints for a status. -/
def printedStatus (code : UInt32) : Nat := if code = 413 then 431 else code.toNat

/-- Every status of the table is printed as a number and a text. -/
theorem lookup_status {code : UInt32} (h : code ∈ httpStatusTable.map Prod.fst) :
    ∃ reason, cr ∉ reason ∧
      httpStatusTable.lookup code = some (decimal (printedStatus code) ++ 32 :: reason) := by
  simp only [httpStatusTable, List.map_cons, List.map_nil, List.mem_cons, List.not_mem_nil,
    or_false] at h
  rcases h with rfl | rfl | rfl | rfl | rfl | rfl
  · exact ⟨ascii "OK", by decide, rfl⟩
  · exact ⟨ascii "Not Found", by decide, rfl⟩
  · exact ⟨ascii "Request Entity Too Large", by decide, rfl⟩
  · exact ⟨ascii "Server Error", by decide, rfl⟩
  · exact ⟨ascii "Not Implemented", by decide, rfl⟩
  · exact ⟨ascii "HTTP Version Not Supported", by decide, rfl⟩

/-- A composed response is sent as the client's decoder expects it. -/
theorem Composed.sendResponse {s : HttpService} (hs : Composed s) :
    ∃ reason s' buffers, cr ∉ reason ∧ s.sendResponse = some (s', buffers) ∧
      s'.responseStatusLine = encodeStatusLine (printedStatus s.responseStatusCode)
        (32 :: reason) ∧
      s'.responseStatusLine ++ s'.responseHeaders =
        encodeHead (printedStatus s.responseStatusCode) (32 :: reason) s.headerPairs ∧
      buffers.flatten = s'.responseStatusLine ++ s'.responseHeaders ++ s.resource := by
  obtain ⟨reason, hcr, hlookup⟩ := lookup_status hs.status
  refine ⟨reason, s.withHead (decimal (printedStatus s.responseStatusCode) ++ 32 :: reason), _,
    hcr, by rw [HttpService.sendResponse, hlookup]; rfl, ?_, ?_, ?_⟩
  · simp [withHead, encodeStatusLine, HttpRequest.ascii_crlf]
  · simp [withHead, encodeHead, encodeStatusLine, hs.headers, HttpRequest.ascii_crlf]
  · rw [flatten_responseBuffers]
    congr 1
    change (s.resourceBuffer.getD []).take s.resourceSizeBytes = s.resource
    rw [hs.size]
    exact List.take_length

/-- What the client has decoded is what the service has decided: the status, the header of
the resource, and the resource itself. -/
structure Matches (s : HttpService) (m : HttpMessage) (unread : Bytes) : Prop where
  status : m.statusCode = some s.responseStatusCode
  bare : s.resourceBuffer = none → ∀ name, m.headers name = none
  length : ∀ r, s.resourceBuffer = some r → ∃ value,
    value.dropWhile isSpace = decimal r.length ∧
    m.headers = Function.update (fun _ => none) (ascii "content-length") (some value)
  body : m.messageBuf ++ unread = s.resource

/-- The two handlers of the client decode a response, the second one after some further
bytes have arrived. -/
def Decodes (received further : Bytes) (m : HttpMessage) : Prop :=
  ∃ m₀, HttpRequest.onStatusLineReceived .success false (HttpMessage.new.withBuf received) =
      .ok m₀ ∧
    ∃ fuel, HttpRequest.onHeadersReceived fuel .success false
      (m₀.withBuf (m₀.messageBuf ++ further)) = some (.ok m)

/-- The second handler leaves the status as the first one has stored it. -/
theorem statusCode_of_onHeadersReceived {fuel : Nat} {m m' : HttpMessage}
    (h : HttpRequest.onHeadersReceived fuel .success false m = some (.ok m')) :
    m'.statusCode = m.statusCode := by
  rw [HttpRequest.onHeadersReceived_success] at h
  obtain ⟨x, hx, he⟩ := Option.map_eq_some_iff.mp h
  cases he
  obtain ⟨lines, rest, -, -, rfl⟩ := (HttpRequest.readHeaders_iff m _).mp ⟨fuel, hx⟩
  rw [HttpMessage.statusCode_withBuf, HttpRequest.addHeaders_eq]

/-- The header map that the client makes of a composed response. -/
theorem headers_match (s : HttpService) {m : HttpMessage}
    (h : m.headers = lastValue s.headerPairs) :
    (s.resourceBuffer = none → ∀ name, m.headers name = none) ∧
    (∀ r, s.resourceBuffer = some r → ∃ value, value.dropWhile isSpace = decimal r.length ∧
      m.headers = Function.update (fun _ => none) (ascii "content-length") (some value)) := by
  refine ⟨fun hnone name => ?_, fun r hr => ⟨32 :: decimal r.length, ?_, ?_⟩⟩
  · rw [h, headerPairs, hnone]
    rfl
  · obtain ⟨c, digits, hdigits⟩ := List.exists_cons_of_ne_nil (decimal_ne_nil r.length)
    have hc : isSpace c = false :=
      (isDigit_facts (isDigit_of_mem_decimal (n := r.length) (by simp [hdigits]))).1
    rw [hdigits, List.dropWhile_cons_of_pos (by decide), List.dropWhile_cons_of_neg (by simp [hc])]
  · rw [h, headerPairs, hr]
    funext name
    by_cases hname : name = ascii "content-length"
    · simp [lastValue, contentLength, hname]
    · simp [lastValue, contentLength, hname, Ne.symm hname]

/-- A printed status is read back as itself, with the one exception of the table. -/
theorem printedStatus_eq_iff (code : UInt32) :
    (printedStatus code).toUInt64.toUInt32 = code ↔ code ≠ 413 := by
  unfold printedStatus
  by_cases h : code = 413
  · subst h
    decide
  · simp [h]

/-- The number that the table prints for any status is small. -/
theorem printedStatus_lt (code : UInt32) : printedStatus code < 2 ^ 64 := by
  have hlt := code.toNat_lt
  unfold printedStatus
  split <;> omega

/-- A status line decodes to the number that it prints, whatever follows. -/
theorem Composed.status_decoded {s s' : HttpService} {reason received further : Bytes}
    {m : HttpMessage} (hcr : cr ∉ reason)
    (hline : s'.responseStatusLine = encodeStatusLine (printedStatus s.responseStatusCode)
      (32 :: reason)) (hstatus : s'.responseStatusLine <+: received)
    (h : Decodes received further m) :
    m.statusCode = some (printedStatus s.responseStatusCode).toUInt64.toUInt32 := by
  obtain ⟨m₀, hm₀, fuel, hm⟩ := h
  obtain ⟨rest, rfl⟩ := hstatus
  have hread := readStatusLine_encoded (m := HttpMessage.new.withBuf
    (s'.responseStatusLine ++ rest)) (printedStatus_lt s.responseStatusCode)
    (Or.inr ⟨reason, rfl⟩) (fun h => (List.mem_cons.mp h).elim (by decide) hcr)
    (by rw [hline]; rfl)
  have he := (HttpRequest.onStatusLineReceived_success _).symm.trans hm₀
  rw [hread] at he
  cases he
  rw [statusCode_of_onHeadersReceived hm]
  rfl

/-- The bytes handed to the write start with the status line and the header lines. -/
theorem sendResponse_head {s s' : HttpService} {buffers : List Bytes}
    (h : s.sendResponse = some (s', buffers)) :
    s'.responseStatusLine ++ s'.responseHeaders <+: buffers.flatten := by
  obtain ⟨statusLine, -, he⟩ := Option.map_eq_some_iff.mp h
  cases he
  rw [flatten_responseBuffers]
  exact List.prefix_append ..

/-- Every response that is sent has a status line, and however its bytes are split between
the client's handlers, the client matches the service exactly when its status is not the
one that the table misprints. -/
theorem decoded_iff {s : HttpService} (hs : Sending s) :
    ∃ s' buffers, s.sendResponse = some (s', buffers) ∧
      ∀ received further unread, received ++ further ++ unread = buffers.flatten →
        s'.responseStatusLine <+: received →
        s'.responseStatusLine ++ s'.responseHeaders <+: received ++ further →
        ((∃ m, Decodes received further m ∧ Matches s m unread) ↔
          s.responseStatusCode ≠ 413) := by
  obtain ⟨reason, s', buffers, hcr, hsend, hline, hhead, hbytes⟩ := hs.composed.sendResponse
  refine ⟨s', buffers, hsend, fun received further unread hsplit hstatus hfront => ?_⟩
  rw [← printedStatus_eq_iff]
  constructor
  · rintro ⟨m, hdecodes, hmatches⟩
    have hcode := Composed.status_decoded hcr hline hstatus hdecodes
    exact Option.some.inj (hcode.symm.trans hmatches.status)
  · intro hcode
    rw [hbytes, hhead] at hsplit
    obtain ⟨m, hm, hstored, fuel, m', hrun, hkeep, -, hheaders, hbody⟩ := decode_split
      (printedStatus_lt s.responseStatusCode) (Or.inr ⟨reason, rfl⟩)
      (fun h => (List.mem_cons.mp h).elim (by decide) hcr) hsplit (hline ▸ hstatus)
      (hhead ▸ hfront)
    obtain ⟨hbare, hlength⟩ := headers_match s hheaders
    refine ⟨m', ⟨m, hm, fuel, hrun⟩, ?_, hbare, hlength, hbody⟩
    rw [hkeep, hstored, hcode]

/-- A file that appears between the two questions, with bytes that look like headers. -/
def lateFile : Files := ⟨fun _ => false, fun _ => some (ascii "a: b\r\n\r\n")⟩

/-- The client matches the service on that file. -/
theorem lateFile_decoded : ∃ s, Sending s ∧ s.resource = ascii "a: b\r\n\r\n" ∧
    ∃ s' buffers, s.sendResponse = some (s', buffers) ∧
      ∃ m, Decodes buffers.flatten [] m ∧ Matches s m [] := by
  have hs : Sending (HttpService.new.processRequest lateFile) :=
    .headers .new (show onHeadersReceived 2 .success lateFile .new = some (_, _) from rfl)
  obtain ⟨s', buffers, hsend, h⟩ := decoded_iff hs
  have hhead := sendResponse_head hsend
  refine ⟨_, hs, rfl, s', buffers, hsend, (h _ [] [] (by simp) ?_ ?_).mpr (by decide)⟩
  · exact (List.prefix_append ..).trans hhead
  · simpa using hhead

/-- A request line that does not fit is answered with 413 and read back as 431. -/
theorem tooLarge_mismatched : ∃ s, Sending s ∧ s.responseStatusCode = 413 ∧
    ∃ s' buffers, s.sendResponse = some (s', buffers) ∧
      ¬∃ m, Decodes buffers.flatten [] m ∧ Matches s m [] := by
  have hs : Sending (HttpService.new.setStatus 413) :=
    .requestLine .new (show onRequestLineReceived .notFound .new = (_, _) from rfl)
  obtain ⟨reason, s', buffers, hcr, hsend, hline, -⟩ := hs.composed.sendResponse
  refine ⟨_, hs, rfl, s', buffers, hsend, ?_⟩
  rintro ⟨m, hdecodes, hmatches⟩
  have hstatus := (List.prefix_append ..).trans (sendResponse_head hsend)
  have hcode := Composed.status_decoded hcr hline hstatus hdecodes
  have he := Option.some.inj (hcode.symm.trans hmatches.status)
  exact (printedStatus_eq_iff _).mp he rfl

end BoostAsio.HttpService

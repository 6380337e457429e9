import BoostAsio.Http.Request.Handlers

/-!
# The stages of an uncancelled run

Each read either ends with the stream, which finishes the request with that error, or
hands its handler a part of the stream that contains the delimiter. Whatever the handler
leaves and whatever has not arrived yet goes on to the next stage.
-/

namespace BoostAsio.HttpRequest

variable {m : HttpMessage} {chunks : List Bytes}

theorem eof_failed : ErrorCode.eof.value ≠ 0 := by decide

/-- A stream without the end of a line finishes the request. -/
theorem receiveStatusLine_eof (h : ¬ascii "\r\n" <:+: m.messageBuf ++ chunks.flatten) :
    receiveStatusLine m chunks = .error .eof := by
  simp only [receiveStatusLine, readUntil_eof h, onStatusLineReceived_failed eof_failed]
  rfl

/-- Otherwise the status line is read from a part of the stream that contains one. -/
theorem receiveStatusLine_success (h : ascii "\r\n" <:+: m.messageBuf ++ chunks.flatten) :
    ∃ front rest, ascii "\r\n" <:+: front ∧
      front ++ rest.flatten = m.messageBuf ++ chunks.flatten ∧
      receiveStatusLine m chunks =
        (readStatusLine (m.withBuf front)).map fun m' => (m', rest) := by
  obtain ⟨front, rest, hread, hfront, -, hflat⟩ := readUntil_success h
  exact ⟨front, rest, hfront, hflat, by simp [receiveStatusLine, hread]⟩

/-- A stream without a blank line finishes the request. -/
theorem receiveHeaders_eof (h : ¬ascii "\r\n\r\n" <:+: m.messageBuf ++ chunks.flatten)
    (fuel : Nat) : receiveHeaders fuel m chunks = some (.error .eof) := by
  simp only [receiveHeaders, readUntil_eof h, onHeadersReceived_failed eof_failed]
  rfl

/-- Otherwise the headers are read from a part of the stream that contains one. -/
theorem receiveHeaders_success (h : ascii "\r\n\r\n" <:+: m.messageBuf ++ chunks.flatten) :
    ∃ front rest, ascii "\r\n\r\n" <:+: front ∧ m.messageBuf <+: front ∧
      front ++ rest.flatten = m.messageBuf ++ chunks.flatten ∧
      ∀ fuel, receiveHeaders fuel m chunks =
        (readHeaders fuel (m.withBuf front)).map fun m' => .ok (m', rest) := by
  obtain ⟨front, rest, hread, hfront, hprefix, hflat⟩ := readUntil_success h
  refine ⟨front, rest, hfront, hprefix, hflat, fun fuel => ?_⟩
  simp only [receiveHeaders, hread, onHeadersReceived_success, Option.map_map]
  rfl

/-- A first part that contains the end of a line is handed to the first handler. -/
theorem receiveStatusLine_parts {front : Bytes} (hi : ascii "\r\n" <:+: front)
    (parts : List Bytes) :
    receiveStatusLine .new ((front :: parts).filter (!·.isEmpty)) =
      (readStatusLine (HttpMessage.new.withBuf front)).map fun m =>
        (m, parts.filter (!·.isEmpty)) := by
  have hread := readUntil_parts (by decide) hi parts
  simp only [receiveStatusLine, show HttpMessage.new.messageBuf = [] from rfl, hread,
    onStatusLineReceived_success]

/-- A buffer with a blank line is handed to the second handler as it is. -/
theorem receiveHeaders_of_isInfix (hi : ascii "\r\n\r\n" <:+: m.messageBuf) (fuel : Nat) :
    receiveHeaders fuel m chunks = (readHeaders fuel m).map fun m' => .ok (m', chunks) := by
  simp only [receiveHeaders, readUntil_of_isInfix hi, onHeadersReceived_success, Option.map_map]
  rfl

/-- From an empty buffer the next part with a blank line is handed to the second handler. -/
theorem receiveHeaders_parts (hbuf : m.messageBuf = []) {front : Bytes}
    (hi : ascii "\r\n\r\n" <:+: front) (parts : List Bytes) (fuel : Nat) :
    receiveHeaders fuel m ((front :: parts).filter (!·.isEmpty)) =
      (readHeaders fuel (m.withBuf front)).map fun m' => .ok (m', parts.filter (!·.isEmpty)) := by
  have hread := readUntil_parts (by decide) hi parts
  simp only [receiveHeaders, hbuf, hread, onHeadersReceived_success, Option.map_map]
  rfl

/-- A run succeeds when its headers are read, and the rest of the stream is the body. -/
theorem finishes_ok_iff {outcome : HttpMessage} :
    Finishes m chunks (.ok outcome) ↔
      ∃ fuel m' rest, respondHead fuel m chunks = some (.ok (m', rest)) ∧
        outcome = m'.withBuf (m'.messageBuf ++ rest.flatten) := by
  constructor
  · rintro ⟨fuel, h⟩
    obtain ⟨head, hhead, hbody⟩ := Option.map_eq_some_iff.mp h
    cases head with
    | error code => cases hbody
    | ok next => exact ⟨fuel, next.1, next.2, hhead, (Except.ok.inj hbody).symm⟩
  · rintro ⟨fuel, m', rest, hhead, rfl⟩
    exact ⟨fuel, by rw [respond, hhead]; rfl⟩

/-- A run fails in one of its first two stages. -/
theorem finishes_error_iff {code : ErrorCode} :
    Finishes m chunks (.error code) ↔
      ∃ fuel, respondHead fuel m chunks = some (.error code) := by
  constructor
  · rintro ⟨fuel, h⟩
    obtain ⟨head, hhead, hbody⟩ := Option.map_eq_some_iff.mp h
    cases head with
    | error code' => exact ⟨fuel, by rw [hhead, Except.error.inj hbody]⟩
    | ok next => cases hbody
  · rintro ⟨fuel, hhead⟩
    exact ⟨fuel, by rw [respond, hhead]; rfl⟩

/-- A failure of the first stage finishes the run. -/
theorem respondHead_of_error {code : ErrorCode} (h : receiveStatusLine m chunks = .error code)
    (fuel : Nat) : respondHead fuel m chunks = some (.error code) := by
  rw [respondHead, h]

/-- The second stage goes on with what the first one has left. -/
theorem respondHead_of_ok {m' : HttpMessage} {rest : List Bytes}
    (h : receiveStatusLine m chunks = .ok (m', rest)) (fuel : Nat) :
    respondHead fuel m chunks = receiveHeaders fuel m' rest := by
  rw [respondHead, h]

end BoostAsio.HttpRequest

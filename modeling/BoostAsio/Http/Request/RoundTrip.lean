import BoostAsio.Http.Encoding

/-!
# Decoding undoes encoding

A response is written from a status code, a text, header pairs and a body, and read back
by the two handlers. The stream may be split anywhere behind the status line and again
anywhere behind the blank line, and no byte of the body is lost.
-/

namespace BoostAsio.HttpRequest

/-- The status line of a code and the text behind it. -/
def encodeStatusLine (statusCode : Nat) (reason : Bytes) : Bytes :=
  ascii "HTTP/1.1 " ++ decimal statusCode ++ reason ++ crlf

/-- The header lines of pairs of a name and a value. -/
def encodeHeaders (pairs : List HeaderPair) : Bytes :=
  pairs.flatMap fun pair => pair.name ++ ascii ":" ++ pair.value ++ crlf

/-- A response up to the end of its blank line. -/
def encodeHead (statusCode : Nat) (reason : Bytes) (pairs : List HeaderPair) : Bytes :=
  encodeStatusLine statusCode reason ++ encodeHeaders pairs ++ crlf

theorem encodeHeaders_eq (pairs : List HeaderPair) :
    encodeHeaders pairs =
      joinLines (pairs.map fun pair => pair.toFieldLine.toHeaderLine) := by
  induction pairs with
  | nil => rfl
  | cons pair pairs ih =>
    have hcolon : ascii ":" = [58] := rfl
    rw [List.map_cons, joinLines_cons, ← ih]
    simp [encodeHeaders, FieldLine.toHeaderLine, HeaderPair.toFieldLine, crlf, hcolon]

/-- The status line read from any part of the stream that contains it. -/
theorem readStatusLine_encoded {n : Nat} {reason rest : Bytes} {m : HttpMessage}
    (hn : n < 2 ^ 64) (hreason : reason = [] ∨ ∃ r, reason = 32 :: r) (hcr : cr ∉ reason)
    (hbuf : m.messageBuf = encodeStatusLine n reason ++ rest) :
    readStatusLine m = .ok (((m.setStatusCode n.toUInt64.toUInt32).setStatusMessage
      reason).withBuf rest) := by
  let line : StatusLine :=
    ⟨decimal n, reason, decimal_ne_nil n, fun _ => isDigit_of_mem_decimal, hreason, hcr⟩
  rw [readStatusLine_bytes line m hbuf, stoul_decimal hn]

/-- The header lines read up to the blank line, from any buffer that reaches it. -/
theorem onHeadersReceived_encoded {pairs : List HeaderPair} {rest : Bytes}
    {m : HttpMessage} (hbuf : m.messageBuf = encodeHeaders pairs ++ crlf ++ rest) :
    ∃ fuel m', onHeadersReceived fuel .success false m = some (.ok m') ∧
      m'.statusCode = m.statusCode ∧ m'.statusMessage = m.statusMessage ∧
      (∀ name, m'.headers name = (lastValue pairs name).or (m.headers name)) ∧
      m'.messageBuf = rest := by
  obtain ⟨fuel, hread⟩ := (readHeaders_iff m _).mpr
    ⟨pairs.map fun pair => pair.toFieldLine.toHeaderLine, crlf ++ rest,
      by rw [hbuf, encodeHeaders_eq, List.append_assoc], Or.inr ⟨lf :: rest, rfl⟩, rfl⟩
  have hmessage := addHeaders_eq m
    (pairs.map fun pair => pair.toFieldLine.toHeaderLine)
  refine ⟨fuel, (addHeaders m (pairs.map fun pair =>
    pair.toFieldLine.toHeaderLine)).withBuf rest, ?_, ?_, ?_, fun name => ?_, rfl⟩
  · rw [onHeadersReceived_success, hread]
    rfl
  · rw [HttpMessage.statusCode_withBuf, hmessage]
  · rw [HttpMessage.statusMessage_withBuf, hmessage]
  · rw [HttpMessage.headers_withBuf, headers_addHeaders]

/-- Both handlers on a response that is split between them: what they store, and the bytes
that they leave. -/
theorem decode_split {n : Nat} {reason body received further unread : Bytes}
    {pairs : List HeaderPair} (hn : n < 2 ^ 64)
    (hreason : reason = [] ∨ ∃ r, reason = 32 :: r) (hcr : cr ∉ reason)
    (hsplit : received ++ further ++ unread = encodeHead n reason pairs ++ body)
    (hstatus : encodeStatusLine n reason <+: received)
    (hhead : encodeHead n reason pairs <+: received ++ further) :
    ∃ m, onStatusLineReceived .success false (HttpMessage.new.withBuf received) = .ok m ∧
      m.statusCode = some n.toUInt64.toUInt32 ∧
      ∃ fuel m', onHeadersReceived fuel .success false
          (m.withBuf (m.messageBuf ++ further)) = some (.ok m') ∧
        m'.statusCode = m.statusCode ∧
        m'.statusMessage = reason ∧
        m'.headers = lastValue pairs ∧
        m'.messageBuf ++ unread = body := by
  obtain ⟨left, rfl⟩ := hstatus
  obtain ⟨rest, hrest⟩ := hhead
  have hleft : left ++ further = encodeHeaders pairs ++ crlf ++ rest := by
    rw [encodeHead] at hrest
    simp only [List.append_assoc] at hrest ⊢
    exact (List.append_cancel_left hrest).symm
  have hbody : rest ++ unread = body := by
    rw [← hrest, List.append_assoc] at hsplit
    exact List.append_cancel_left hsplit
  have hline := readStatusLine_encoded (m := HttpMessage.new.withBuf
    (encodeStatusLine n reason ++ left)) hn hreason hcr rfl
  refine ⟨_, (onStatusLineReceived_success _).trans hline, rfl, ?_⟩
  obtain ⟨fuel, m', hrun, hcode, hmessage, hheaders, hbuf⟩ := onHeadersReceived_encoded
    (m := (((HttpMessage.new.setStatusCode n.toUInt64.toUInt32).setStatusMessage
      reason).withBuf (left ++ further))) hleft
  refine ⟨fuel, m', hrun, hcode, hmessage, ?_, by rw [hbuf, hbody]⟩
  funext name
  rw [hheaders]
  exact Option.or_none

/-- A response decodes to its code, its text, the last value of each name and its body,
however the stream is split between the handlers. -/
theorem decode_encode {n : Nat} {reason body received further unread : Bytes}
    {pairs : List HeaderPair} (hn : n < 2 ^ 32)
    (hreason : reason = [] ∨ ∃ r, reason = 32 :: r) (hcr : cr ∉ reason)
    (hsplit : received ++ further ++ unread = encodeHead n reason pairs ++ body)
    (hstatus : encodeStatusLine n reason <+: received)
    (hhead : encodeHead n reason pairs <+: received ++ further) :
    ∃ m, onStatusLineReceived .success false (HttpMessage.new.withBuf received) = .ok m ∧
      ∃ fuel m', onHeadersReceived fuel .success false
          (m.withBuf (m.messageBuf ++ further)) = some (.ok m') ∧
        (∃ code, m'.statusCode = some code ∧ code.toNat = n) ∧
        m'.statusMessage = reason ∧
        m'.headers = lastValue pairs ∧
        m'.messageBuf ++ unread = body := by
  obtain ⟨m, hm, hcode, fuel, m', hrun, hkeep, hmessage, hheaders, hbody⟩ :=
    decode_split (show n < 2 ^ 64 by omega) hreason hcr hsplit hstatus hhead
  refine ⟨m, hm, fuel, m', hrun, ⟨_, hkeep.trans hcode, ?_⟩, hmessage, hheaders, hbody⟩
  simp only [Nat.toUInt64, UInt64.toNat_toUInt32, UInt64.toNat_ofNat']
  omega

/-- A response with a repeated name, split inside a header line and inside the body. -/
theorem decode_encode_repeated :
    ∃ m, onStatusLineReceived .success false
        (HttpMessage.new.withBuf (ascii "HTTP/1.1 200 OK\r\na:")) = .ok m ∧
      ∃ fuel m', onHeadersReceived fuel .success false
          (m.withBuf (m.messageBuf ++ ascii "x\r\na:y\r\n\r\nbo")) = some (.ok m') ∧
        (∃ code, m'.statusCode = some code ∧ code.toNat = 200) ∧
        m'.statusMessage = ascii " OK" ∧
        m'.headers = lastValue
          [⟨ascii "a", ascii "x", by decide, by decide, by decide⟩,
            ⟨ascii "a", ascii "y", by decide, by decide, by decide⟩] ∧
        m'.messageBuf ++ ascii "dy" = ascii "body" :=
  decode_encode (by decide) (Or.inr ⟨_, rfl⟩) (by decide) rfl ⟨ascii "a:", rfl⟩
    ⟨ascii "bo", rfl⟩

end BoostAsio.HttpRequest

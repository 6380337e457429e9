import BoostAsio.Http.Request.Acceptance
import BoostAsio.Http.Request.Chunks
import BoostAsio.Http.Request.Pipeline
import BoostAsio.Http.Request.RoundTrip

/-!
# What a callback is given

A peer sends a well-formed response and closes. If the callback of the request is called, in
whatever run, it is given the status code, the text, the headers and the body that were sent.
A response without header lines and without a body never gets there, whole or cut off.
-/

namespace BoostAsio.HttpRequest

/-- The status line of a code and the text behind it. -/
def encodedLine (n : Nat) {reason : Bytes} (hreason : reason = [] ∨ ∃ r, reason = 32 :: r)
    (hcr : cr ∉ reason) : StatusLine :=
  ⟨decimal n, reason, decimal_ne_nil n, fun _ => isDigit_of_mem_decimal, hreason, hcr⟩

section

variable {line : StatusLine} {chunks : List Bytes} {after : Bytes}

/-- The first read takes at least the status line, of which nothing is lost. -/
theorem receiveStatusLine_line (hi : crlf <:+: chunks.flatten)
    (hstream : chunks.flatten <+: line.bytes ++ after) :
    ∃ left rest, line.bytes ++ left ++ rest.flatten = chunks.flatten ∧
      receiveStatusLine .new chunks =
        (readStatusLine (HttpMessage.new.withBuf (line.bytes ++ left))).map
          fun m => (m, rest) := by
  obtain ⟨front, rest, hfront, hflat, hstage⟩ := receiveStatusLine_success
    (show ascii "\r\n" <:+: HttpMessage.new.messageBuf ++ chunks.flatten from hi)
  have hall : front ++ rest.flatten = chunks.flatten := hflat
  obtain ⟨left, rfl⟩ := line.firstAt.isPrefix_of_isInfix
    (show _ <+: line.bytes ++ after from List.prefix_append ..)
    (List.IsPrefix.trans ⟨rest.flatten, hall⟩ hstream) hfront
  exact ⟨left, rest, hall, hstage⟩

/-- What comes behind a status line is too short for a blank line, so no such response is ever
accepted, even when the end of it is missing. -/
theorem not_finishes_ok_of_bare (hstream : chunks.flatten <+: line.bytes ++ crlf)
    (m : HttpMessage) : ¬Finishes .new chunks (.ok m) := by
  intro h
  obtain ⟨fuel, m', rest', hhead, -⟩ := finishes_ok_iff.mp h
  by_cases hi : crlf <:+: chunks.flatten
  · obtain ⟨left, rest, hall, hstage⟩ := receiveStatusLine_line hi hstream
    have hshort : (left ++ rest.flatten).length ≤ crlf.length := by
      have hlen := hstream.length_le
      rw [← hall] at hlen
      simp only [List.length_append] at hlen ⊢
      omega
    rw [readStatusLine_bytes line _ rfl] at hstage
    cases hcode : stoul line.code with
    | error e =>
      rw [hcode] at hstage
      rw [respondHead_of_error hstage] at hhead
      cases hhead
    | ok code =>
      rw [hcode] at hstage
      have hnone : ¬ascii "\r\n\r\n" <:+: left ++ rest.flatten := by
        intro hblank
        have hlen := hblank.length_le.trans hshort
        exact absurd hlen (by decide)
      rw [respondHead_of_ok hstage, receiveHeaders_eof hnone] at hhead
      cases hhead
  · have hnone : ¬ascii "\r\n" <:+: HttpMessage.new.messageBuf ++ chunks.flatten := hi
    rw [respondHead_of_error (receiveStatusLine_eof hnone)] at hhead
    cases hhead

/-- A status line whose code can be converted is stored. -/
theorem receiveStatusLine_code {code : UInt64} (hcode : stoul line.code = .ok code)
    (hi : crlf <:+: chunks.flatten) (hstream : chunks.flatten <+: line.bytes ++ after) :
    ∃ m rest, receiveStatusLine .new chunks = .ok (m, rest) ∧
      m.statusCode = some code.toUInt32 ∧ m.statusMessage = line.reason ∧
      m.headers = HttpMessage.new.headers ∧
      line.bytes ++ m.messageBuf ++ rest.flatten = chunks.flatten := by
  obtain ⟨left, rest, hall, hstage⟩ := receiveStatusLine_line hi hstream
  rw [readStatusLine_bytes line _ rfl, hcode] at hstage
  exact ⟨_, rest, hstage, rfl, rfl, rfl, hall⟩

/-- A status line whose code can be converted is not rejected. -/
theorem not_finishes_invalid_of_bare {code : UInt64} (hcode : stoul line.code = .ok code)
    (hstream : chunks.flatten <+: line.bytes ++ after) :
    ¬Finishes .new chunks (.error .invalidResponse) := by
  by_cases hi : crlf <:+: chunks.flatten
  · obtain ⟨m, rest, hstage, -⟩ := receiveStatusLine_code hcode hi hstream
    exact not_invalid_of_accepted hstage
  · intro h
    obtain ⟨fuel, hhead⟩ := finishes_error_iff.mp h
    have hnone : ¬ascii "\r\n" <:+: HttpMessage.new.messageBuf ++ chunks.flatten := hi
    rw [respondHead_of_error (receiveStatusLine_eof hnone)] at hhead
    cases hhead

end

section

variable {n : Nat} {reason body : Bytes} {pairs : List HeaderPair} {chunks : List Bytes}
  {m : HttpMessage}

/-- From the start of a response's header lines the second handler reads these lines, and no
byte behind the blank line is lost. -/
theorem readHeaders_encoded {fuel : Nat} {m m' : HttpMessage} {front : Bytes}
    {rest : List Bytes} (hread : readHeaders fuel (m.withBuf front) = some m')
    (hi : crlf ++ crlf <:+: front)
    (hall : front ++ rest.flatten = encodeHeaders pairs ++ crlf ++ body) :
    m'.statusCode = m.statusCode ∧ m'.statusMessage = m.statusMessage ∧
      (∀ name, m'.headers name = (lastValue pairs name).or (m.headers name)) ∧
      m'.messageBuf ++ rest.flatten = body := by
  let lines := pairs.map fun pair => pair.toFieldLine.toHeaderLine
  let response : Response := ⟨⟨ascii "0", [], by decide, List.all_eq_true.mp (by decide),
    Or.inl rfl, by decide⟩, pairs.map HeaderPair.toFieldLine, body⟩
  have hfields : fieldBytes response.fields = joinLines lines := by
    rw [fieldBytes_eq, List.map_map]
    rfl
  have hafter : response.afterStatus = encodeHeaders pairs ++ crlf ++ body := by
    rw [Response.afterStatus, hfields, ← encodeHeaders_eq, List.append_assoc]
  obtain ⟨left, hleft⟩ := fields_prefix hi
    (show front <+: response.afterStatus from ⟨rest.flatten, by rw [hafter, hall]⟩)
  rw [hfields, List.append_assoc] at hleft
  have hends : EndsLoop (crlf ++ left) := Or.inr ⟨lf :: left, rfl⟩
  obtain ⟨lines', tail, hbuf, hend, rfl⟩ := (readHeaders_iff (m.withBuf front) m').mp ⟨fuel, hread⟩
  obtain ⟨rfl, rfl⟩ := joinLines_unique (Or.inl hends) (Or.inl hend) (hleft.trans hbuf)
  have hbody : left ++ rest.flatten = body := by
    rw [← hleft, encodeHeaders_eq, List.append_assoc, List.append_assoc,
      List.append_assoc] at hall
    exact List.append_cancel_left (List.append_cancel_left hall)
  refine ⟨?_, ?_, fun name => headers_addHeaders (m.withBuf front) pairs name, hbody⟩
  · rw [HttpMessage.statusCode_withBuf, addHeaders_eq]
    rfl
  · rw [HttpMessage.statusMessage_withBuf, addHeaders_eq]
    rfl

/-- The pipeline makes of a response what was encoded in it. -/
theorem decodes_of_finishes (hn : n < 2 ^ 64) (hreason : reason = [] ∨ ∃ r, reason = 32 :: r)
    (hcr : cr ∉ reason) (hstream : chunks.flatten = encodeHead n reason pairs ++ body)
    (h : Finishes .new chunks (.ok m)) :
    m.statusCode = some n.toUInt64.toUInt32 ∧ m.statusMessage = reason ∧
      m.headers = lastValue pairs ∧ m.messageBuf = body := by
  obtain ⟨fuel, m', rest', hhead, rfl⟩ := finishes_ok_iff.mp h
  have hline : (encodedLine n hreason hcr).bytes = encodeStatusLine n reason := rfl
  have hbytes : chunks.flatten =
      (encodedLine n hreason hcr).bytes ++ (encodeHeaders pairs ++ crlf ++ body) := by
    rw [hstream, hline, encodeHead]
    simp only [List.append_assoc]
  have hi : crlf <:+: chunks.flatten := by
    rw [hbytes]
    exact ⟨ascii "HTTP/1.1 " ++ decimal n ++ reason, encodeHeaders pairs ++ crlf ++ body, rfl⟩
  obtain ⟨m, rest, hstage, hcode, hmessage, hheaders, hall⟩ := receiveStatusLine_code
    (show stoul (encodedLine n hreason hcr).code = .ok n.toUInt64 from stoul_decimal hn) hi
    (show _ <+: _ by rw [hbytes])
  have hleft : m.messageBuf ++ rest.flatten = encodeHeaders pairs ++ crlf ++ body := by
    rw [hbytes, List.append_assoc] at hall
    exact List.append_cancel_left hall
  rw [respondHead_of_ok hstage] at hhead
  by_cases hblank : ascii "\r\n\r\n" <:+: m.messageBuf ++ rest.flatten
  · obtain ⟨front, rest'', hfront, -, hflat, hrun⟩ := receiveHeaders_success hblank
    rw [hrun] at hhead
    obtain ⟨m'', hread, hm⟩ := Option.map_eq_some_iff.mp hhead
    obtain ⟨rfl, rfl⟩ := Prod.mk.inj (Except.ok.inj hm)
    obtain ⟨hcode', hmessage', hheaders', hbody⟩ :=
      readHeaders_encoded hread hfront (hflat.trans hleft)
    refine ⟨hcode'.trans hcode, hmessage'.trans hmessage, ?_, hbody⟩
    funext name
    rw [HttpMessage.headers_withBuf, hheaders', hheaders]
    exact Option.or_none
  · rw [receiveHeaders_eof hblank] at hhead
    cases hhead

end

section

variable {settings : Settings} {labels : List Label} {x : Connected} {tr : List Event}

/-- A request whose peer sends nothing but a status line with a code and a blank line neither
calls its callback nor rejects the response, whatever part of it arrives. -/
theorem ConnectedRun.uncalled_of_bare (h : ConnectedRun settings labels x tr) {line : StatusLine}
    {code : UInt64} (hcode : stoul line.code = .ok code)
    (hstream : x.chunks.flatten <+: line.bytes ++ crlf) :
    callbacks tr = [] ∧ .rejected ∉ tr := by
  constructor
  · refine List.filterMap_eq_nil_iff.mpr fun e he => ?_
    cases e with
    | callback m ec =>
      obtain ⟨-, hfinishes⟩ := h.explained.called m ec he
      exact absurd hfinishes (not_finishes_ok_of_bare hstream m)
    | _ => rfl
  · intro hmem
    have hrejects := h.explained.rejected hmem []
    rw [List.append_nil] at hrejects
    exact not_finishes_invalid_of_bare hcode hstream hrejects

/-- In every run, a callback that is called is given the code, the text, the headers and the
body of the response that the peer has sent, and the peer has sent its end. -/
theorem callback_delivers (h : ConnectedRun settings labels x tr) {n : Nat} {reason body : Bytes}
    {pairs : List HeaderPair} (hn : n < 2 ^ 64) (hreason : reason = [] ∨ ∃ r, reason = 32 :: r)
    (hcr : cr ∉ reason) (hstream : x.chunks.flatten = encodeHead n reason pairs ++ body)
    {m : HttpMessage} {ec : ErrorCode} (hcall : .callback m ec ∈ tr) :
    x.ended = true ∧ m.statusCode = some n.toUInt64.toUInt32 ∧ m.statusMessage = reason ∧
      m.headers = lastValue pairs ∧ m.messageBuf = body := by
  obtain ⟨hended, hfinishes⟩ := h.explained.called m ec hcall
  exact ⟨hended, decodes_of_finishes hn hreason hcr hstream hfinishes⟩

end

/-- The steps of a request whose response is split inside a header line and inside its body. -/
def splitSchedule : List Label :=
  List.replicate 5 (.run 3) ++ passSchedule .success [] ++ passSchedule .success [] ++
    passSchedule .success [] ++ passSchedule .success (ascii "HTTP/1.1 200 OK\r\na:") ++
    [.deliver .success (ascii "x\r\n\r\nbo"), .run 3, .run 3, .run 3, .run 3, .run 3] ++
    [.deliver .eof (ascii "dy"), .run 3, .run 3]

set_option maxRecDepth 8000 in
theorem splitSchedule_delivers : ∃ x tr m ec, ConnectedRun plainSettings splitSchedule x tr ∧
    .callback m ec ∈ tr ∧ x.ended = true ∧ m.messageBuf = ascii "body" := by
  obtain ⟨x, tr, m, ec, hrun, hstream, hcall⟩ : ∃ x tr m ec,
      ConnectedRun plainSettings splitSchedule x tr ∧
      x.chunks.flatten = encodeHead 200 (ascii " OK")
        [⟨ascii "a", ascii "x", by decide, by decide, by decide⟩] ++ ascii "body" ∧
      tr.getLast? = some (.callback m ec) := ⟨_, _, _, _, rfl, rfl, rfl⟩
  have hmem := List.mem_of_getLast? hcall
  obtain ⟨hended, -, -, -, hbody⟩ := callback_delivers hrun (by decide) (Or.inr ⟨_, rfl⟩)
    (by decide) hstream hmem
  exact ⟨x, tr, m, ec, hrun, hmem, hended, hbody⟩

end BoostAsio.HttpRequest

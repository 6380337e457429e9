import BoostAsio.Http.Encoding
import BoostAsio.Http.Request.Stages

/-!
# Which well-formed responses are accepted

The status-line handler consumes the end of its line, so the blank line that the next
read waits for has to be complete in what follows. It is, when there is a field line in
front of it; without one the read runs on into the body.
-/

namespace BoostAsio.HttpRequest

/-- A well-formed response. -/
structure Response where
  status : StatusLine
  fields : List FieldLine
  body : Bytes

/-- The bytes behind the status line. -/
def Response.afterStatus (response : Response) : Bytes :=
  fieldBytes response.fields ++ (crlf ++ response.body)

/-- The bytes of a response, after which the server closes the connection. -/
def Response.bytes (response : Response) : Bytes :=
  response.status.bytes ++ response.afterStatus

/-- A status line contains the end of a line only at its end. -/
theorem StatusLine.firstAt (line : StatusLine) :
    FirstAt crlf (ascii "HTTP/1.1 " ++ line.code ++ line.reason) := by
  intro h
  have hcode : cr ∉ line.code := fun hm => by
    have := line.isDigit_of_mem cr hm
    exact absurd this (by decide)
  have hno : cr ∉ ascii "HTTP/1.1 " ++ line.code ++ line.reason := by
    simp only [List.mem_append, not_or]
    exact ⟨⟨by decide, hcode⟩, line.no_cr⟩
  have hlen := (infix_of_not_mem_append hno h).length_le
  simp [crlf] at hlen

/-- Field lines and a carriage return contain no blank line yet. -/
theorem no_blank_line (fields : List FieldLine) :
    ¬crlf ++ crlf <:+: fieldBytes fields ++ [cr] := by
  induction fields with
  | nil =>
    intro h
    have hlen := h.length_le
    simp [fieldBytes, crlf] at hlen
  | cons line fields ih =>
    intro h
    have hbytes : fieldBytes (line :: fields) ++ [cr] =
        line.text ++ (cr :: lf :: (fieldBytes fields ++ [cr])) := by
      simp [fieldBytes, crlf]
    rw [hbytes] at h
    rcases List.infix_cons_iff.mp (infix_of_not_mem_append line.no_cr h) with ⟨t, ht⟩ | hin
    · have hblank : cr :: lf :: t = fieldBytes fields ++ [cr] :=
        (List.cons.inj (List.cons.inj ht).2).2
      cases fields with
      | nil => simp [fieldBytes] at hblank
      | cons next fields =>
        obtain ⟨a, text, htext⟩ := List.exists_cons_of_ne_nil (List.ne_nil_of_mem next.has_colon)
        have hhead : cr = a := by
          simp only [fieldBytes, List.flatMap_cons, htext, List.cons_append] at hblank
          exact (List.cons.inj hblank).1
        exact next.no_cr (by simp [htext, hhead])
    · exact ih (infix_of_not_mem_append (show cr ∉ [lf] by decide) hin)

/-- The blank line is there once the bytes behind the status line contain one. -/
theorem blank_line_iff (response : Response) :
    crlf ++ crlf <:+: response.afterStatus ↔
      response.fields ≠ [] ∨ crlf ++ crlf <:+: crlf ++ response.body := by
  constructor
  · intro h
    by_cases hf : response.fields = []
    · exact Or.inr (by simpa [Response.afterStatus, fieldBytes, hf] using h)
    · exact Or.inl hf
  · rintro (hf | hbody)
    · obtain ⟨fields, line, hlast⟩ := (List.eq_nil_or_concat' response.fields).resolve_left hf
      refine ⟨fieldBytes fields ++ line.text, response.body, ?_⟩
      simp [Response.afterStatus, hlast, fieldBytes]
    · exact List.infix_append_of_infix_right hbody

/-- The first stage reads the status line of a response unless its code is too large. -/
theorem receiveStatusLine_response (response : Response) (arrival : Chunking response.bytes) :
    2 ^ 64 ≤ decimalValue response.status.code ∧
        receiveStatusLine .new arrival.chunks = .error .invalidResponse ∨
      decimalValue response.status.code < 2 ^ 64 ∧
        ∃ m rest, receiveStatusLine .new arrival.chunks = .ok (m, rest) ∧
          m.messageBuf ++ rest.flatten = response.afterStatus := by
  have hline : ascii "\r\n" <:+: HttpMessage.new.messageBuf ++ arrival.chunks.flatten := by
    rw [arrival.flatten_eq]
    exact ⟨ascii "HTTP/1.1 " ++ response.status.code ++ response.status.reason,
      response.afterStatus, rfl⟩
  obtain ⟨front, rest, hfront, hflat, hstage⟩ := receiveStatusLine_success hline
  have hall : front ++ rest.flatten = response.bytes := hflat.trans arrival.flatten_eq
  obtain ⟨left, rfl⟩ := response.status.firstAt.isPrefix_of_isInfix
    (show _ <+: response.bytes from List.prefix_append ..) ⟨rest.flatten, hall⟩ hfront
  have hleft : left ++ rest.flatten = response.afterStatus := by
    rw [List.append_assoc] at hall
    exact List.append_cancel_left hall
  rw [readStatusLine_bytes response.status _ rfl,
    stoul_digits response.status.code_ne_nil response.status.isDigit_of_mem] at hstage
  by_cases hlarge : 2 ^ 64 ≤ decimalValue response.status.code
  · rw [if_pos hlarge] at hstage
    exact Or.inl ⟨hlarge, hstage⟩
  · rw [if_neg hlarge] at hstage
    exact Or.inr ⟨Nat.lt_of_not_le hlarge, _, rest, hstage, hleft⟩

/-- A part of the stream that contains a blank line reaches to the one behind the fields. -/
theorem fields_prefix {response : Response} {front : Bytes} (hi : crlf ++ crlf <:+: front)
    (hfront : front <+: response.afterStatus) :
    fieldBytes response.fields ++ crlf <+: front := by
  have hline : fieldBytes response.fields ++ crlf <+: response.afterStatus :=
    ⟨response.body, by simp [Response.afterStatus]⟩
  have hcut : fieldBytes response.fields ++ [cr] <+: response.afterStatus :=
    ⟨lf :: response.body, by simp [Response.afterStatus, crlf]⟩
  rcases Nat.lt_or_ge front.length (fieldBytes response.fields ++ crlf).length with hlt | hge
  · refine absurd (hi.trans ?_) (no_blank_line response.fields)
    refine (List.prefix_of_prefix_length_le hfront hcut ?_).isInfix
    simp only [List.length_append, crlf, List.length_cons, List.length_nil] at hlt ⊢
    omega
  · exact List.prefix_of_prefix_length_le hline hfront hge

/-- With a blank line behind the status line the second stage reads the headers. -/
theorem receiveHeaders_response {response : Response} {m : HttpMessage} {chunks : List Bytes}
    (hbuf : m.messageBuf ++ chunks.flatten = response.afterStatus)
    (hi : crlf ++ crlf <:+: response.afterStatus) :
    ∃ fuel m' rest, receiveHeaders fuel m chunks = some (.ok (m', rest)) := by
  obtain ⟨front, rest, hfront, -, hflat, hrun⟩ :=
    receiveHeaders_success (show ascii "\r\n\r\n" <:+: m.messageBuf ++ chunks.flatten by
      rw [hbuf]; exact hi)
  obtain ⟨left, hleft⟩ := fields_prefix hfront ⟨rest.flatten, hflat.trans hbuf⟩
  obtain ⟨fuel, hread⟩ := (readHeaders_iff (m.withBuf front) _).mpr
    ⟨response.fields.map FieldLine.toHeaderLine, crlf ++ left,
      by rw [← fieldBytes_eq, ← List.append_assoc, hleft]; rfl, Or.inr ⟨lf :: left, rfl⟩, rfl⟩
  exact ⟨fuel, _, rest, by rw [hrun, hread]; rfl⟩

/-- A well-formed response is accepted exactly when its status code fits the conversion and
a blank line follows the status line, whatever the chunks it arrives in. -/
theorem accepted_iff (response : Response) (arrival : Chunking response.bytes) :
    (∃ m, Finishes .new arrival.chunks (.ok m)) ↔
      decimalValue response.status.code < 2 ^ 64 ∧
        (response.fields ≠ [] ∨ ascii "\r\n\r\n" <:+: ascii "\r\n" ++ response.body) := by
  rw [ascii_crlf_crlf, ascii_crlf, ← blank_line_iff]
  rcases receiveStatusLine_response response arrival with
    ⟨hlarge, hstage⟩ | ⟨hsmall, m, rest, hstage, hleft⟩
  · constructor
    · rintro ⟨m, hm⟩
      obtain ⟨fuel, m', rest', hhead, -⟩ := finishes_ok_iff.mp hm
      rw [respondHead_of_error hstage] at hhead
      cases hhead
    · rintro ⟨hsmall, -⟩
      omega
  · constructor
    · rintro ⟨outcome, hm⟩
      refine ⟨hsmall, ?_⟩
      by_contra hno
      obtain ⟨fuel, m', rest', hhead, -⟩ := finishes_ok_iff.mp hm
      rw [respondHead_of_ok hstage, receiveHeaders_eof (by rw [hleft]; exact hno)] at hhead
      cases hhead
    · rintro ⟨-, hi⟩
      obtain ⟨fuel, m', rest', hrun⟩ := receiveHeaders_response hleft hi
      exact ⟨_, finishes_ok_iff.mpr
        ⟨fuel, m', rest', (respondHead_of_ok hstage fuel).trans hrun, rfl⟩⟩

/-- A response without field lines and without a body. -/
def noFields : Response where
  status := ⟨ascii "200", ascii " OK", by decide, List.all_eq_true.mp (by decide),
    Or.inr ⟨_, rfl⟩, by decide⟩
  fields := []
  body := []

/-- A well-formed response without field lines fails at the end of the stream. -/
theorem noFields_rejected :
    noFields.bytes = ascii "HTTP/1.1 200 OK\r\n\r\n" ∧
      Finishes .new (Chunking.whole noFields.bytes).chunks (.error .eof) ∧
      ¬∃ m, Finishes .new (Chunking.whole noFields.bytes).chunks (.ok m) := by
  refine ⟨by decide, ?_⟩
  generalize Chunking.whole noFields.bytes = arrival
  rcases receiveStatusLine_response noFields arrival with
    ⟨hlarge, -⟩ | ⟨-, m, rest, hstage, hleft⟩
  · exact absurd hlarge (by decide)
  · have hno : ¬ascii "\r\n\r\n" <:+: m.messageBuf ++ rest.flatten := by
      rw [hleft]
      decide
    have hhead : ∀ fuel, respondHead fuel .new arrival.chunks = some (.error .eof) := fun fuel =>
      (respondHead_of_ok hstage fuel).trans (receiveHeaders_eof hno fuel)
    refine ⟨finishes_error_iff.mpr ⟨0, hhead 0⟩, ?_⟩
    rintro ⟨outcome, hm⟩
    obtain ⟨fuel, m', rest', hok, -⟩ := finishes_ok_iff.mp hm
    rw [hhead] at hok
    cases hok

end BoostAsio.HttpRequest

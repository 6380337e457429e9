import BoostAsio.Http.Request.BlankLine

/-!
# Dependence of the result on the arrival of the stream

The first handler reads past its own delimiter when a line ends among the blanks in
front of the status code, and the second one when a bare carriage return makes it miss
the blank line. On every other stream all arrivals lead to the same outcome.
-/

namespace BoostAsio.HttpRequest

/-- A line ends among the blanks in front of an accepted status code. -/
def BreaksStatusLine (stream : Bytes) : Prop :=
  ∃ s : StatusStart, s.bytes <+: stream ∧ s.Broken

/-- The lines cut behind the status part go on over the first blank line, to its very end,
and more bytes follow. -/
def SwallowsBlankLine (stream : Bytes) : Prop :=
  ∃ (p : StatusPart) (before rest : Bytes) (lines : List HeaderLine),
    stream = p.bytes ++ (before ++ (crlf ++ crlf) ++ rest) ∧
      FirstAt (crlf ++ crlf) before ∧ before ++ (crlf ++ crlf) = joinLines lines ∧ rest ≠ []

/-- The message that the first handler makes of a status part. -/
def StatusPart.read (p : StatusPart) : HttpMessage :=
  (HttpMessage.new.setStatusCode p.code.toUInt32).setStatusMessage p.message

/-- A status part that no line breaks is read from every arrival. -/
theorem receiveStatusLine_accepted {p : StatusPart} (hp : ¬p.Broken) {stream after : Bytes}
    (hstream : stream = p.bytes ++ after) (hi : ascii "\r\n" <:+: stream)
    (arrival : Chunking stream) :
    ∃ left rest, receiveStatusLine .new arrival.chunks = .ok (p.read.withBuf left, rest) ∧
      left ++ rest.flatten = after := by
  obtain ⟨front, rest, hfront, hflat, hstage⟩ := receiveStatusLine_success
    (show ascii "\r\n" <:+: HttpMessage.new.messageBuf ++ arrival.chunks.flatten by
      rw [arrival.flatten_eq]; exact hi)
  have hall : front ++ rest.flatten = p.bytes ++ after :=
    (hflat.trans arrival.flatten_eq).trans hstream
  obtain ⟨left, rfl⟩ := p.prefix_of_crlf hp (List.prefix_append _ after)
    ⟨rest.flatten, hall⟩ hfront
  refine ⟨left, rest, ?_, ?_⟩
  · rw [hstage, readStatusLine_part p rfl]
    rfl
  · rw [List.append_assoc] at hall
    exact List.append_cancel_left hall

/-- A stream without a status part is rejected in every arrival, unless a line breaks it. -/
theorem receiveStatusLine_rejected {stream : Bytes} (hbreaks : ¬BreaksStatusLine stream)
    (hnone : ∀ p : StatusPart, ¬p.bytes <+: stream) (hi : ascii "\r\n" <:+: stream)
    (arrival : Chunking stream) :
    receiveStatusLine .new arrival.chunks = .error .invalidResponse := by
  obtain ⟨front, rest, hfront, hflat, hstage⟩ := receiveStatusLine_success
    (show ascii "\r\n" <:+: HttpMessage.new.messageBuf ++ arrival.chunks.flatten by
      rw [arrival.flatten_eq]; exact hi)
  have hpre : front <+: stream := ⟨rest.flatten, hflat.trans arrival.flatten_eq⟩
  cases hread : readStatusLine (HttpMessage.new.withBuf front) with
  | error ec =>
    rw [hstage, hread, readStatusLine_error hread]
    rfl
  | ok m =>
    obtain ⟨s, tail, rfl, htail, -⟩ := readStatusLine_ok hread
    rcases s.crlf_infix hfront with hbroken | htail'
    · exact absurd ⟨s, (List.prefix_append ..).trans hpre, hbroken⟩ hbreaks
    · rcases s.complete_or_cut htail with ⟨p, left, -, hp⟩ | ⟨hno, -⟩
      · refine absurd (List.IsPrefix.trans ?_ hpre) (hnone p)
        exact ⟨left, hp.symm⟩
      · exact absurd htail' hno

/-- Without the two defects some outcome is reached from every arrival. -/
theorem exists_outcome {stream : Bytes} (hbreaks : ¬BreaksStatusLine stream)
    (hswallows : ¬SwallowsBlankLine stream) :
    ∃ outcome, ∀ arrival : Chunking stream, Finishes .new arrival.chunks outcome := by
  by_cases hi : ascii "\r\n" <:+: stream
  · by_cases hpart : ∃ p : StatusPart, p.bytes <+: stream
    · obtain ⟨p, after, hstream⟩ := hpart
      have hp : ¬p.Broken := fun hbroken =>
        hbreaks ⟨p.toStatusStart, List.IsPrefix.trans ⟨_, rfl⟩ ⟨after, hstream⟩, hbroken⟩
      by_cases hblank : ascii "\r\n\r\n" <:+: after
      · obtain ⟨before, rest, hafter, hfirst⟩ := exists_firstAt (by decide) hblank
        obtain ⟨lines, tail, hlines, htail⟩ := lines_of_blank_line before
        have hend : (∃ c q, tail = cr :: c :: q) ∨ tail = [] ∧ rest = [] := by
          refine htail.imp_right fun hnil => ⟨hnil, ?_⟩
          by_contra hrest
          refine hswallows ⟨p, before, rest, lines, ?_, hfirst, ?_, hrest⟩
          · rw [← hstream, hafter]
            rfl
          · rw [hlines, hnil, List.append_nil]
        refine ⟨.ok ((addHeaders p.read lines).withBuf (tail.drop 2 ++ rest)),
          fun arrival => ?_⟩
        obtain ⟨left, more, hstage, hleft⟩ :=
          receiveStatusLine_accepted hp hstream.symm hi arrival
        obtain ⟨fuel, m', rest', hrun, hbody⟩ := receiveHeaders_uniform (m := p.read) hfirst
          hlines hend (hleft.trans hafter)
        exact finishes_ok_iff.mpr
          ⟨fuel, m', rest', (respondHead_of_ok hstage fuel).trans hrun, hbody.symm⟩
      · refine ⟨.error .eof, fun arrival => ?_⟩
        obtain ⟨left, more, hstage, hleft⟩ :=
          receiveStatusLine_accepted hp hstream.symm hi arrival
        refine finishes_error_iff.mpr ⟨0, (respondHead_of_ok hstage 0).trans ?_⟩
        refine receiveHeaders_eof ?_ 0
        rw [HttpMessage.messageBuf_withBuf, hleft]
        exact hblank
    · refine ⟨.error .invalidResponse, fun arrival => finishes_error_iff.mpr ⟨0, ?_⟩⟩
      exact respondHead_of_error (receiveStatusLine_rejected hbreaks
        (fun p hp => hpart ⟨p, hp⟩) hi arrival) 0
  · refine ⟨.error .eof, fun arrival => finishes_error_iff.mpr ⟨0, ?_⟩⟩
    refine respondHead_of_error (receiveStatusLine_eof ?_) 0
    rw [arrival.flatten_eq]
    exact hi

/-- A broken status line is rejected when only the blanks have arrived. -/
theorem readStatusLine_broken {s : StatusStart} (hbroken : s.Broken) :
    ∃ front back, front ++ back = s.bytes ∧ ascii "\r\n" <:+: front ∧
      readStatusLine (HttpMessage.new.withBuf front) = .error .invalidResponse := by
  rcases hbroken with hi | hi
  · refine ⟨s.lead, httpVersion ++ (s.gap ++ s.word), rfl, hi, ?_⟩
    rw [readStatusLine_eq, HttpMessage.messageBuf_withBuf, firstWord_blank s.blank_lead]
    rfl
  · refine ⟨s.lead ++ (httpVersion ++ s.gap), s.word, by simp [StatusStart.bytes], ?_, ?_⟩
    · exact List.infix_append_of_infix_right (List.infix_append_of_infix_right hi)
    · obtain ⟨c, gap, hgap⟩ := List.exists_cons_of_ne_nil s.gap_ne_nil
      have hends : EndsWord s.gap :=
        Or.inr ⟨c, gap, hgap, s.blank_gap c (by simp [hgap])⟩
      obtain ⟨hversion, hafter⟩ := firstWord_eq s.blank_lead isWord_httpVersion hends
      rw [readStatusLine_eq, HttpMessage.messageBuf_withBuf, hversion, if_pos rfl, hafter,
        firstWord_blank s.blank_gap]
      rfl

/-- A run whose status line is accepted does not finish as an invalid response. -/
theorem not_invalid_of_accepted {m m' : HttpMessage} {chunks rest : List Bytes}
    (h : receiveStatusLine m chunks = .ok (m', rest)) :
    ¬Finishes m chunks (.error .invalidResponse) := by
  intro hfin
  obtain ⟨fuel, hhead⟩ := finishes_error_iff.mp hfin
  rw [respondHead_of_ok h] at hhead
  by_cases hi : ascii "\r\n\r\n" <:+: m'.messageBuf ++ rest.flatten
  · obtain ⟨front, rest', -, -, -, hrun⟩ := receiveHeaders_success hi
    rw [hrun] at hhead
    obtain ⟨m'', -, hm⟩ := Option.map_eq_some_iff.mp hhead
    cases hm
  · rw [receiveHeaders_eof hi] at hhead
    cases hhead

/-- A run with a blank line already in its buffer stops exactly where the loop does. -/
theorem finishes_iff_of_isInfix {m m' : HttpMessage} {chunks rest : List Bytes}
    (h : receiveStatusLine m chunks = .ok (m', rest))
    (hi : ascii "\r\n\r\n" <:+: m'.messageBuf) {outcome : Except ErrorCode HttpMessage} :
    Finishes m chunks outcome ↔
      ∃ lines tail, m'.messageBuf = joinLines lines ++ tail ∧ EndsLoop tail ∧
        outcome = .ok ((addHeaders m' lines).withBuf (tail.drop 2 ++ rest.flatten)) := by
  have hhead : ∀ fuel, respondHead fuel m chunks =
      (readHeaders fuel m').map fun m'' => .ok (m'', rest) := fun fuel =>
    (respondHead_of_ok h fuel).trans (receiveHeaders_of_isInfix hi fuel)
  constructor
  · intro hfin
    cases outcome with
    | error code =>
      obtain ⟨fuel, hfuel⟩ := finishes_error_iff.mp hfin
      rw [hhead] at hfuel
      obtain ⟨m'', -, hm⟩ := Option.map_eq_some_iff.mp hfuel
      cases hm
    | ok out =>
      obtain ⟨fuel, m'', rest', hfuel, rfl⟩ := finishes_ok_iff.mp hfin
      rw [hhead] at hfuel
      obtain ⟨_, hread, hm⟩ := Option.map_eq_some_iff.mp hfuel
      obtain ⟨rfl, rfl⟩ := Prod.mk.inj (Except.ok.inj hm)
      obtain ⟨lines, tail, hbuf, hend, rfl⟩ := (readHeaders_iff m' _).mp ⟨fuel, hread⟩
      exact ⟨lines, tail, hbuf, hend, rfl⟩
  · rintro ⟨lines, tail, hbuf, hend, rfl⟩
    obtain ⟨fuel, hread⟩ := (readHeaders_iff m' _).mpr ⟨lines, tail, hbuf, hend, rfl⟩
    exact finishes_ok_iff.mpr ⟨fuel, _, rest, by rw [hhead, hread]; rfl, rfl⟩

/-- A broken status line is rejected or accepted as its parts arrive. -/
theorem BreaksStatusLine.differ {stream : Bytes} (h : BreaksStatusLine stream) :
    ∃ first second : Chunking stream, ∀ outcome,
      ¬(Finishes .new first.chunks outcome ∧ Finishes .new second.chunks outcome) := by
  obtain ⟨s, ⟨rest, rfl⟩, hbroken⟩ := h
  obtain ⟨front, back, hsplit, hi, hreject⟩ := readStatusLine_broken hbroken
  have hi' : ascii "\r\n" <:+: s.bytes := hsplit ▸ List.infix_append_of_infix_left hi
  have hrejected : receiveStatusLine .new ([front, back, rest].filter (!·.isEmpty)) =
      .error .invalidResponse := by
    rw [receiveStatusLine_parts hi, hreject]
    rfl
  have haccepted : receiveStatusLine .new ([s.bytes, rest].filter (!·.isEmpty)) =
      .ok (setStatus (HttpMessage.new.withBuf s.bytes) s.code [],
        [rest].filter (!·.isEmpty)) := by
    rw [receiveStatusLine_parts hi',
      readStatusLine_start s (Or.inl rfl) (List.append_nil _).symm]
    rfl
  refine ⟨.ofParts [front, back, rest] (by simp [← hsplit]),
    .ofParts [s.bytes, rest] (by simp), ?_⟩
  rintro outcome ⟨⟨fuel, hfirst⟩, hsecond⟩
  rw [Chunking.ofParts_chunks, respond, respondHead_of_error hrejected] at hfirst
  obtain rfl := Option.some.inj hfirst
  exact not_invalid_of_accepted haccepted hsecond

/-- A swallowed blank line is found or missed as its parts arrive. -/
theorem SwallowsBlankLine.differ {stream : Bytes} (h : SwallowsBlankLine stream) :
    ∃ first second : Chunking stream, ∀ outcome,
      ¬(Finishes .new first.chunks outcome ∧ Finishes .new second.chunks outcome) := by
  obtain ⟨p, before, rest, lines, rfl, -, hlines, hrest⟩ := h
  have hi : ascii "\r\n\r\n" <:+: joinLines lines := ⟨before, [], by simp [← hlines]; rfl⟩
  have hline : ascii "\r\n" <:+: joinLines lines :=
    List.IsInfix.trans ⟨[], ascii "\r\n", rfl⟩ hi
  have hfound : receiveStatusLine .new
      ([p.bytes ++ joinLines lines, rest].filter (!·.isEmpty)) =
      .ok (p.read.withBuf (joinLines lines), [rest].filter (!·.isEmpty)) := by
    rw [receiveStatusLine_parts (List.infix_append_of_infix_right hline),
      readStatusLine_part p rfl]
    rfl
  have hmissed : receiveStatusLine .new
      ([p.bytes ++ (joinLines lines ++ rest)].filter (!·.isEmpty)) =
      .ok (p.read.withBuf (joinLines lines ++ rest), []) := by
    rw [receiveStatusLine_parts (List.infix_append_of_infix_right
      (List.infix_append_of_infix_left hline)), readStatusLine_part p rfl]
    rfl
  refine ⟨.ofParts [p.bytes ++ joinLines lines, rest] (by simp [hlines]),
    .ofParts [p.bytes ++ (joinLines lines ++ rest)] (by simp [hlines]), ?_⟩
  rintro outcome ⟨hfirst, hsecond⟩
  obtain ⟨lines₁, tail₁, hbuf₁, hend₁, rfl⟩ := (finishes_iff_of_isInfix hfound hi).mp hfirst
  obtain ⟨lines₂, tail₂, hbuf₂, hend₂, hsame⟩ :=
    (finishes_iff_of_isInfix hmissed (List.infix_append_of_infix_left hi)).mp hsecond
  obtain ⟨more₁, -, hmore₁⟩ := lines_append hend₁
    (show joinLines lines ++ [] = joinLines lines₁ ++ tail₁ by simpa using hbuf₁)
  obtain ⟨more₂, -, hmore₂⟩ := lines_append hend₂ hbuf₂
  have hbody := congrArg HttpMessage.messageBuf (Except.ok.inj hsame)
  obtain ⟨-, rfl⟩ := List.append_eq_nil_iff.mp hmore₁.symm
  have hbody' : rest = tail₂.drop 2 := by
    by_cases hr : rest = []
    · exact absurd hr hrest
    · simpa [hr] using hbody
  have hlen := congrArg List.length hbody'
  rw [hmore₂, List.length_append, List.length_drop] at hlen
  have hpos := List.length_pos_iff.mpr hrest
  rw [hmore₂, List.length_append] at hpos
  omega

/-- All arrivals of a stream lead to one outcome exactly when no line ends in front of its
status code and its first blank line is not swallowed in front of further bytes. -/
theorem chunking_independent_iff (stream : Bytes) :
    (∀ first second : Chunking stream, ∃ outcome,
        Finishes .new first.chunks outcome ∧ Finishes .new second.chunks outcome) ↔
      ¬BreaksStatusLine stream ∧ ¬SwallowsBlankLine stream := by
  constructor
  · refine fun h => ⟨fun hbreaks => ?_, fun hswallows => ?_⟩
    · obtain ⟨first, second, hdiffer⟩ := hbreaks.differ
      obtain ⟨outcome, hboth⟩ := h first second
      exact hdiffer outcome hboth
    · obtain ⟨first, second, hdiffer⟩ := hswallows.differ
      obtain ⟨outcome, hboth⟩ := h first second
      exact hdiffer outcome hboth
  · rintro ⟨hbreaks, hswallows⟩ first second
    obtain ⟨outcome, hall⟩ := exists_outcome hbreaks hswallows
    exact ⟨outcome, hall first, hall second⟩

/-- A status line with a line end in front of its code, and a complete response behind. -/
def brokenStatusLine : StatusStart where
  lead := []
  gap := ascii "\r\n"
  word := ascii "200"
  code := 200
  blank_lead := blank_nil
  blank_gap := by decide
  gap_ne_nil := by decide
  isWord := isWord_ok
  accepted := stoul_ok

/-- The same stream is rejected in two parts and accepted in one. -/
theorem brokenStatusLine_differs :
    ∃ first second : Chunking (ascii "HTTP/1.1\r\n200 OK\r\na:b\r\n\r\nbody"),
      ∀ outcome, ¬(Finishes .new first.chunks outcome ∧
        Finishes .new second.chunks outcome) :=
  BreaksStatusLine.differ ⟨brokenStatusLine, ⟨ascii " OK\r\na:b\r\n\r\nbody", rfl⟩,
    Or.inr List.infix_rfl⟩

end BoostAsio.HttpRequest

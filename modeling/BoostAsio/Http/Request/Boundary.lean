import BoostAsio.Http.Request.BlankLine

/-!
# The boundary between headers and body

Whatever the first handler has consumed, the second one cuts lines from there on. It
stops at the first blank line of the stream when these lines end right in front of it.
When they end right behind it, it stops there only as long as nothing has arrived that it
could cut.
-/

namespace BoostAsio.HttpRequest

/-- The lines cut behind the consumed bytes lead to the first blank line of the stream. -/
def Aligned (consumed after : Bytes) : Prop :=
  crlf ++ crlf <:+: after →
    ∃ before rest lines, consumed ++ after = before ++ (crlf ++ crlf) ++ rest ∧
      FirstAt (crlf ++ crlf) before ∧
      (consumed ++ joinLines lines = before ++ crlf ∨
        consumed ++ joinLines lines = before ++ (crlf ++ crlf) ∧
          (rest = [] ∨ Unfinished rest))

/-- The loop stops at the first blank line on every part of the bytes behind `consumed`. -/
def StopsAtBlankLine (consumed after : Bytes) : Prop :=
  ∀ front rest lines tail, after = front ++ rest → crlf ++ crlf <:+: front →
    front = joinLines lines ++ tail → EndsLoop tail →
    ∃ before, consumed ++ after = before ++ (crlf ++ crlf) ++ (tail.drop 2 ++ rest) ∧
      FirstAt (crlf ++ crlf) before

theorem not_unfinished_of_endsLoop {tail : Bytes} (h : EndsLoop tail) : ¬Unfinished tail := by
  rintro ⟨text, hne, hno, rfl | rfl⟩
  · rcases h with hnil | ⟨r, hr⟩
    · exact hne hnil
    · exact hno (by simp [hr])
  · obtain ⟨a, text, rfl⟩ := List.exists_cons_of_ne_nil hne
    rcases h with hnil | ⟨r, hr⟩
    · simp at hnil
    · exact hno (by simp [(List.cons.inj hr).1])

/-- Less of an unfinished line is unfinished. -/
theorem Unfinished.of_isPrefix {rest front : Bytes} (h : Unfinished rest) (hp : front <+: rest)
    (hne : front ≠ []) : Unfinished front := by
  obtain ⟨text, htext, hno, rfl | rfl⟩ := h
  · exact ⟨front, hne, fun hm => hno (hp.subset hm), Or.inl rfl⟩
  · rcases List.prefix_concat_iff.mp hp with rfl | hp
    · exact ⟨text, htext, hno, Or.inr rfl⟩
    · exact ⟨front, hne, fun hm => hno (hp.subset hm), Or.inl rfl⟩

/-- Aligned lines lead to the first blank line of the stream. -/
theorem Aligned.stops {consumed after : Bytes} (h : Aligned consumed after) :
    StopsAtBlankLine consumed after := by
  rintro front rest lines tail rfl hi rfl hend
  obtain ⟨before, behind, lines', hstream, hfirst, hcut⟩ :=
    h (List.infix_append_of_infix_left hi)
  have hreach : before ++ (crlf ++ crlf) <+: consumed ++ (joinLines lines ++ tail) :=
    hfirst.isPrefix_of_isInfix ⟨behind, hstream.symm⟩ ⟨rest, by simp⟩
      (List.infix_append_of_infix_right hi)
  rcases hcut with hcut | ⟨hcut, hbehind⟩
  · have hpre : joinLines lines' ++ crlf <+: joinLines lines ++ tail := by
      rw [← List.append_assoc before, ← hcut, List.append_assoc] at hreach
      exact (List.prefix_append_right_inj consumed).mp hreach
    obtain ⟨more, hmore⟩ := hpre
    rw [List.append_assoc] at hmore
    obtain ⟨rfl, rfl⟩ := joinLines_unique (Or.inl (Or.inr ⟨lf :: more, rfl⟩)) (Or.inl hend) hmore
    refine ⟨before, ?_, hfirst⟩
    rw [← List.append_assoc before, ← hcut]
    simp [crlf]
  · have hpre : joinLines lines' <+: joinLines lines ++ tail := by
      rw [← hcut] at hreach
      exact (List.prefix_append_right_inj consumed).mp hreach
    obtain ⟨more, hmore⟩ := hpre
    have hsplit : behind = more ++ rest := by
      rw [← hcut, ← hmore] at hstream
      simpa using hstream.symm
    have hrest : EndsLoop more ∨ Unfinished more := by
      by_cases hnil : more = []
      · exact Or.inl (Or.inl hnil)
      · have hne : behind ≠ [] := by simp [hsplit, hnil]
        exact Or.inr ((hbehind.resolve_left hne).of_isPrefix ⟨rest, hsplit.symm⟩ hnil)
    obtain ⟨rfl, rfl⟩ := joinLines_unique hrest (Or.inl hend) hmore
    have hnil : more = [] := by
      by_contra hnil
      have hne : behind ≠ [] := by simp [hsplit, hnil]
      exact not_unfinished_of_endsLoop hend
        ((hbehind.resolve_left hne).of_isPrefix ⟨rest, hsplit.symm⟩ hnil)
    refine ⟨before, ?_, hfirst⟩
    rw [← hcut, hnil]
    simp

/-- Lines that lead to the first blank line of the stream are aligned. -/
theorem StopsAtBlankLine.aligned {consumed after : Bytes} (h : StopsAtBlankLine consumed after) :
    Aligned consumed after := by
  intro hi
  obtain ⟨start, rest, hafter, -⟩ := exists_firstAt (by decide) hi
  obtain ⟨lines, tail, hlines, htail⟩ := lines_of_blank_line start
  have hfront : crlf ++ crlf <:+: joinLines lines ++ tail := ⟨start, [], by simp [← hlines]⟩
  rw [hlines] at hafter
  have hend : EndsLoop tail := by
    rcases htail with ⟨c, q, rfl⟩ | rfl
    · exact Or.inr ⟨c :: q, rfl⟩
    · exact Or.inl rfl
  obtain ⟨before, hstream, hfirst⟩ := h _ rest lines tail hafter hfront rfl hend
  refine ⟨before, _, lines, hstream, hfirst, ?_⟩
  rcases htail with ⟨c, q, rfl⟩ | rfl
  · have hcut : consumed ++ joinLines lines ++ [cr, c] ++ (q ++ rest) =
        before ++ crlf ++ crlf ++ (q ++ rest) := by
      rw [hafter] at hstream
      simpa using hstream
    exact Or.inl (List.append_inj_left' (List.append_cancel_right hcut) rfl)
  · have hcut : consumed ++ joinLines lines ++ rest = before ++ (crlf ++ crlf) ++ rest := by
      rw [hafter] at hstream
      simpa using hstream
    refine Or.inr ⟨List.append_cancel_right hcut, ?_⟩
    -- Any further piece that the loop could cut would move it past the blank line.
    have hpast : ∀ piece rest' more tail', rest = piece ++ rest' →
        piece = joinLines more ++ tail' → EndsLoop tail' → tail'.drop 2 ++ rest' = rest := by
      rintro piece rest' more tail' hrest rfl hend'
      obtain ⟨before', hstream', hfirst'⟩ := h (joinLines lines ++ (joinLines more ++ tail'))
        rest' (lines ++ more) tail' (by rw [hafter, hrest]; simp)
        (List.infix_append_of_infix_left (by simpa using hfront)) (by simp) hend'
      exact (hfirst'.unique hfirst (hstream'.symm.trans hstream)).2.trans (by simp)
    obtain ⟨more, tail', hrest, hend' | hunfinished⟩ := exists_lines rest
    · have hsame := hpast rest [] more tail' (by simp) hrest hend'
      have hlen := congrArg List.length (hsame.trans hrest)
      simp only [List.append_nil, List.length_drop, List.length_append] at hlen
      have hnil : joinLines more ++ tail' = [] :=
        List.length_eq_zero_iff.mp (by rw [List.length_append]; omega)
      exact Or.inl (hrest.trans hnil)
    · cases more with
      | nil => exact Or.inr (by rwa [hrest])
      | cons line more =>
        have hsame := hpast (joinLines [line]) (joinLines more ++ tail') [line] []
          (by simp [hrest]) (by simp) (Or.inl rfl)
        have hlen := congrArg List.length (hsame.trans hrest)
        simp at hlen
        omega

/-- What the first handler consumes of some arrival: a complete status part, or an accepted
one that is cut short, when a line ends in front of its code. -/
inductive StatusConsumed : Bytes → Prop
  | complete (p : StatusPart) : StatusConsumed p.bytes
  | cut (s : StatusStart) (hbroken : s.Broken) {tail : Bytes} (htail : EndsWord tail)
      (hcut : afterLine tail = []) : StatusConsumed (s.bytes ++ tail)

/-- Every way to consume a status part and to stop behind it occurs in some arrival. -/
theorem exists_arrival {consumed front tail : Bytes} {lines : List HeaderLine}
    (hconsumed : StatusConsumed consumed) (rest : Bytes) (hi : crlf ++ crlf <:+: front)
    (hfront : front = joinLines lines ++ tail) (hend : EndsLoop tail) :
    ∃ (arrival : Chunking (consumed ++ (front ++ rest))) (fuel : Nat) (m : HttpMessage)
      (chunks : List Bytes), respondHead fuel .new arrival.chunks = some (.ok (m, chunks)) ∧
        m.messageBuf ++ chunks.flatten = tail.drop 2 ++ rest := by
  have hrest : ([rest].filter (!·.isEmpty)).flatten = rest := by
    rw [List.flatten_filter_not_isEmpty]
    simp
  have hread : ∀ m : HttpMessage, m.messageBuf = front → ∃ fuel m', readHeaders fuel m = some m' ∧
      m'.messageBuf = tail.drop 2 := by
    intro m hm
    obtain ⟨fuel, hfuel⟩ := (readHeaders_iff m _).mpr ⟨lines, tail, hm.trans hfront, hend, rfl⟩
    exact ⟨fuel, _, hfuel, rfl⟩
  cases hconsumed with
  | complete p =>
    have hline : ascii "\r\n" <:+: p.bytes ++ front :=
      List.infix_append_of_infix_right (List.IsInfix.trans ⟨[], crlf, rfl⟩ hi)
    have hstage := receiveStatusLine_parts hline [rest]
    rw [readStatusLine_part p rfl] at hstage
    obtain ⟨fuel, m', hfuel, hbuf⟩ := hread _ (HttpMessage.messageBuf_withBuf _ front)
    refine ⟨.ofParts [p.bytes ++ front, rest] (by simp), fuel, m', _, ?_, by rw [hbuf, hrest]⟩
    rw [Chunking.ofParts_chunks, respondHead_of_ok hstage, receiveHeaders_of_isInfix, hfuel]
    · rfl
    · exact hi
  | @cut s hbroken tail' htail hcut =>
    have hline : ascii "\r\n" <:+: s.bytes ++ tail' := by
      refine List.infix_append_of_infix_left ?_
      rw [StatusStart.bytes]
      rcases hbroken with h | h
      · exact List.infix_append_of_infix_left h
      · exact List.infix_append_of_infix_right (List.infix_append_of_infix_right
          (List.infix_append_of_infix_left h))
    have hstage := receiveStatusLine_parts hline [front, rest]
    rw [readStatusLine_start s htail rfl] at hstage
    obtain ⟨fuel, m', hfuel, hbuf⟩ := hread _ (HttpMessage.messageBuf_withBuf _ front)
    refine ⟨.ofParts [s.bytes ++ tail', front, rest] (by simp), fuel, m', _, ?_,
      by rw [hbuf, hrest]⟩
    rw [Chunking.ofParts_chunks, respondHead_of_ok hstage, receiveHeaders_parts hcut hi, hfuel]
    rfl

/-- An accepted buffer with a line end is consumed up to what the handler leaves of it. -/
theorem consumed_of_readStatusLine {m m' : HttpMessage} (hi : crlf <:+: m.messageBuf)
    (h : readStatusLine m = .ok m') :
    ∃ consumed, StatusConsumed consumed ∧ m.messageBuf = consumed ++ m'.messageBuf := by
  obtain ⟨s, tail, hbuf, htail, rfl⟩ := readStatusLine_ok h
  rcases s.complete_or_cut htail with ⟨p, rest, -, hp⟩ | ⟨hno, hcut⟩
  · rw [readStatusLine_part p (hbuf.trans hp)] at h
    have hrest := congrArg HttpMessage.messageBuf (Except.ok.inj h)
    exact ⟨p.bytes, .complete p, by rw [hbuf, hp, ← hrest]; rfl⟩
  · rw [hbuf] at hi
    have hbroken := (s.crlf_infix hi).resolve_right hno
    exact ⟨s.bytes ++ tail, .cut s hbroken htail hcut, by
      rw [hbuf, setStatus, HttpMessage.messageBuf_withBuf, hcut, List.append_nil]⟩

/-- An arrival whose headers are read consumes a status part and stops behind it. -/
theorem consumed_of_respondHead {stream : Bytes} {arrival : Chunking stream} {fuel : Nat}
    {m : HttpMessage} {chunks : List Bytes}
    (h : respondHead fuel .new arrival.chunks = some (.ok (m, chunks))) :
    ∃ consumed front lines tail, StatusConsumed consumed ∧
      stream = consumed ++ (front ++ chunks.flatten) ∧ crlf ++ crlf <:+: front ∧
      front = joinLines lines ++ tail ∧ EndsLoop tail ∧ m.messageBuf = tail.drop 2 := by
  by_cases hi : ascii "\r\n" <:+: HttpMessage.new.messageBuf ++ arrival.chunks.flatten
  · obtain ⟨front, rest, hfront, hflat, hstage⟩ := receiveStatusLine_success hi
    have hstream : front ++ rest.flatten = stream := hflat.trans arrival.flatten_eq
    cases hread : readStatusLine (HttpMessage.new.withBuf front) with
    | error ec =>
      rw [hread] at hstage
      rw [respondHead_of_error hstage] at h
      cases h
    | ok m' =>
      rw [hread] at hstage
      rw [respondHead_of_ok hstage] at h
      obtain ⟨consumed, hconsumed, hbuf⟩ :=
        consumed_of_readStatusLine (m := HttpMessage.new.withBuf front) hfront hread
      rw [HttpMessage.messageBuf_withBuf] at hbuf
      by_cases hblank : ascii "\r\n\r\n" <:+: m'.messageBuf ++ rest.flatten
      · obtain ⟨front', rest', hfront', -, hflat', hrun⟩ := receiveHeaders_success hblank
        rw [hrun] at h
        obtain ⟨m'', hheaders, hm⟩ := Option.map_eq_some_iff.mp h
        obtain ⟨rfl, rfl⟩ := Prod.mk.inj (Except.ok.inj hm)
        obtain ⟨lines, tail, hlines, hend, rfl⟩ := (readHeaders_iff _ _).mp ⟨fuel, hheaders⟩
        refine ⟨consumed, front', lines, tail, hconsumed, ?_, hfront', hlines, hend, rfl⟩
        rw [hflat', ← List.append_assoc, ← hbuf, hstream]
      · rw [receiveHeaders_eof hblank] at h
        cases h
  · rw [respondHead_of_error (receiveStatusLine_eof hi)] at h
    cases h

/-- For every arrival of a stream the headers end at its first blank line, exactly when
behind every status part that can be consumed the lines are aligned with it. -/
theorem boundary_iff (stream : Bytes) :
    (∀ (arrival : Chunking stream) (fuel : Nat) (m : HttpMessage) (chunks : List Bytes),
        respondHead fuel .new arrival.chunks = some (.ok (m, chunks)) →
        ∃ before, stream = before ++ ascii "\r\n\r\n" ++ (m.messageBuf ++ chunks.flatten) ∧
          FirstAt (ascii "\r\n\r\n") before) ↔
      ∀ consumed after, stream = consumed ++ after → StatusConsumed consumed →
        Aligned consumed after := by
  constructor
  · rintro h consumed after rfl hconsumed
    refine StopsAtBlankLine.aligned ?_
    rintro front rest lines tail rfl hi hfront hend
    obtain ⟨arrival, fuel, m, chunks, hrun, hleft⟩ :=
      exists_arrival hconsumed rest hi hfront hend
    obtain ⟨before, hstream, hfirst⟩ := h arrival fuel m chunks hrun
    exact ⟨before, by rw [hstream, hleft]; rfl, hfirst⟩
  · intro h arrival fuel m chunks hrun
    obtain ⟨consumed, front, lines, tail, hconsumed, hstream, hi, hfront, hend, hbuf⟩ :=
      consumed_of_respondHead hrun
    obtain ⟨before, hbefore, hfirst⟩ := (h consumed _ hstream hconsumed).stops front
      chunks.flatten lines tail rfl hi hfront hend
    exact ⟨before, by rw [hstream, hbefore, hbuf]; rfl, hfirst⟩

/-- An ordinary status line. -/
def okStatusPart : StatusPart where
  lead := []
  gap := ascii " "
  word := ascii "200"
  code := 200
  blank_lead := blank_nil
  blank_gap := by decide
  gap_ne_nil := by decide
  isWord := isWord_ok
  accepted := stoul_ok
  message := ascii " OK"
  dropped := lf
  message_ends := Or.inr ⟨_, _, rfl, rfl⟩
  no_cr := cr_not_mem_ok

/-- A bare carriage return hides the first blank line, and the loop ends at the second. -/
theorem secondBlankLine_found :
    ∃ (arrival : Chunking (ascii "HTTP/1.1 200 OK\r\nA\r\r\n\r\nB: c\r\n\r\nbody"))
      (fuel : Nat) (m : HttpMessage) (chunks : List Bytes),
      respondHead fuel .new arrival.chunks = some (.ok (m, chunks)) ∧
        ¬∃ before, ascii "HTTP/1.1 200 OK\r\nA\r\r\n\r\nB: c\r\n\r\nbody" =
          before ++ ascii "\r\n\r\n" ++ (m.messageBuf ++ chunks.flatten) ∧
            FirstAt (ascii "\r\n\r\n") before := by
  let lines : List HeaderLine := [⟨ascii "A", cr, by decide, by decide⟩,
    ⟨ascii "\n", lf, by decide, by decide⟩, ⟨ascii "B: c", lf, by decide, by decide⟩]
  have hlines : ascii "A\r\r\n\r\nB: c\r\n\r\n" = joinLines lines ++ crlf := rfl
  obtain ⟨arrival, fuel, m, chunks, hrun, hleft⟩ := exists_arrival (.complete okStatusPart)
    (ascii "body") ⟨ascii "A\r", ascii "B: c\r\n\r\n", rfl⟩ hlines (Or.inr ⟨[lf], rfl⟩)
  refine ⟨arrival, fuel, m, chunks, hrun, ?_⟩
  rintro ⟨before, hstream, hfirst⟩
  have hbefore : ascii "HTTP/1.1 200 OK\r\nA\r\r\n\r\nB: c" = before := by
    have hbody : ascii "HTTP/1.1 200 OK\r\nA\r\r\n\r\nB: c" ++ ascii "\r\n\r\nbody" =
        before ++ ascii "\r\n\r\nbody" := by
      rw [hleft, List.append_assoc] at hstream
      exact hstream
    exact List.append_cancel_right hbody
  refine hfirst ⟨ascii "HTTP/1.1 200 OK\r\nA\r", ascii "B: c\r\n\r", ?_⟩
  rw [← hbefore]
  rfl

end BoostAsio.HttpRequest

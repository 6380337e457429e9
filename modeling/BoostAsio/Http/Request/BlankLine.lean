import BoostAsio.Http.Request.Stages
import BoostAsio.Http.Request.StatusPart

/-!
# The blank line that was awaited and the one that is found

The headers are read from a buffer that contains a blank line. On the bytes up to its
end the loop always stops: at an empty line, or at the very end when a bare carriage
return has shifted the parse. In the first case what has arrived behind the blank line
plays no role.
-/

namespace BoostAsio.HttpRequest

/-- Up to the end of a blank line the loop stops at an empty line or at the end. -/
theorem lines_of_blank_line (before : Bytes) :
    ∃ lines tail, before ++ (crlf ++ crlf) = joinLines lines ++ tail ∧
      ((∃ c q, tail = cr :: c :: q) ∨ tail = []) := by
  have hsnoc : before ++ (crlf ++ crlf) = before ++ [cr, lf] ++ [cr] ++ [lf] := by simp [crlf]
  obtain ⟨lines, rest, hall, (rfl | ⟨r, rfl⟩) | ⟨text, hne, hno, rfl | rfl⟩⟩ :=
    exists_lines (before ++ (crlf ++ crlf))
  · exact ⟨lines, [], hall, Or.inr rfl⟩
  · cases r with
    | nil =>
      rw [hsnoc] at hall
      exact absurd (List.append_inj_right' hall rfl) (by decide)
    | cons c q => exact ⟨lines, _, hall, Or.inl ⟨c, q, rfl⟩⟩
  · rw [hsnoc] at hall
    obtain ⟨text, a, rfl⟩ := (List.eq_nil_or_concat' rest).resolve_left hne
    rw [← List.append_assoc] at hall
    have hall := List.append_inj_left' hall rfl
    rcases List.eq_nil_or_concat' text with rfl | ⟨text, b, rfl⟩
    · rcases List.eq_nil_or_concat' lines with rfl | ⟨lines, line, rfl⟩
      · simp at hall
      · have hline : before ++ [cr] ++ [lf, cr] =
            joinLines lines ++ line.text ++ [cr, line.dropped] := by simpa using hall
        exact absurd (List.cons.inj (List.append_inj_right' hline rfl)).1 (by decide)
    · rw [← List.append_assoc] at hall
      have hb : [cr] = [b] := List.append_inj_right' hall rfl
      exact absurd (by simp [← (List.cons.inj hb).1]) hno
  · rw [hsnoc, ← List.append_assoc] at hall
    exact absurd (List.append_inj_right' hall rfl) (by decide)

/-- The header lines are added to a message whatever its buffer holds. -/
theorem addHeaders_withBuf (m : HttpMessage) (b c : Bytes) (lines : List HeaderLine) :
    (addHeaders (m.withBuf b) lines).withBuf c = (addHeaders m lines).withBuf c := by
  have key : ∀ (x : HeaderLoop) (s : IStream),
      (({ x with stream := s, response := x.response.withBuf b } : HeaderLoop).addLines
        lines).response = (x.addLines lines).response.withBuf b := by
    induction lines with
    | nil => intro x s; rfl
    | cons line lines ih => intro x s; exact ih (x.addLine line) s
  rw [addHeaders, addHeaders]
  exact (congrArg (HttpMessage.withBuf · c) (key (.start m) (.ofBuf b))).trans
    (HttpMessage.withBuf_withBuf _ b c)

/-- When the loop stops within the awaited bytes, or nothing follows them, every arrival of
the stream gives the same headers and the same body. -/
theorem receiveHeaders_uniform {m : HttpMessage} {before rest left tail : Bytes}
    {lines : List HeaderLine} {chunks : List Bytes}
    (hfirst : FirstAt (crlf ++ crlf) before)
    (hlines : before ++ (crlf ++ crlf) = joinLines lines ++ tail)
    (htail : (∃ c q, tail = cr :: c :: q) ∨ tail = [] ∧ rest = [])
    (hall : left ++ chunks.flatten = before ++ (crlf ++ crlf) ++ rest) :
    ∃ fuel m' rest', receiveHeaders fuel (m.withBuf left) chunks = some (.ok (m', rest')) ∧
      m'.withBuf (m'.messageBuf ++ rest'.flatten) =
        (addHeaders m lines).withBuf (tail.drop 2 ++ rest) := by
  have hi : ascii "\r\n\r\n" <:+: (m.withBuf left).messageBuf ++ chunks.flatten := by
    rw [HttpMessage.messageBuf_withBuf, hall]
    exact ⟨before, rest, rfl⟩
  obtain ⟨front, rest', hfront, -, hflat, hrun⟩ := receiveHeaders_success hi
  rw [HttpMessage.messageBuf_withBuf, hall] at hflat
  obtain ⟨more, rfl⟩ := hfirst.isPrefix_of_isInfix
    (List.prefix_append _ rest) ⟨rest'.flatten, hflat⟩ hfront
  have hmore : more ++ rest'.flatten = rest := by
    rw [List.append_assoc] at hflat
    exact List.append_cancel_left hflat
  have hends : EndsLoop (tail ++ more) := by
    rcases htail with ⟨c, q, rfl⟩ | ⟨rfl, rfl⟩
    · exact Or.inr ⟨c :: q ++ more, rfl⟩
    · exact Or.inl (List.append_eq_nil_iff.mp hmore).1
  have hbody : (tail ++ more).drop 2 ++ rest'.flatten = tail.drop 2 ++ rest := by
    rcases htail with ⟨c, q, rfl⟩ | ⟨rfl, rfl⟩
    · simp [← hmore]
    · obtain ⟨rfl, hflatten⟩ := List.append_eq_nil_iff.mp hmore
      simp [hflatten]
  obtain ⟨fuel, hread⟩ := (readHeaders_iff (m.withBuf left |>.withBuf
    (before ++ (crlf ++ crlf) ++ more)) _).mpr
      ⟨lines, tail ++ more, by rw [HttpMessage.messageBuf_withBuf, hlines, List.append_assoc],
        hends, rfl⟩
  refine ⟨fuel, _, rest', by rw [hrun, hread]; rfl, ?_⟩
  rw [HttpMessage.messageBuf_withBuf, HttpMessage.withBuf_withBuf, hbody,
    HttpMessage.withBuf_withBuf, addHeaders_withBuf]

end BoostAsio.HttpRequest

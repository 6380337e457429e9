import BoostAsio.Http.Request.Handlers

/-!
# The header loop and the lines it cuts

An iteration that neither breaks nor runs out of input consumes one non-empty line, its
carriage return and one further byte that is not looked at. Cutting such lines off a
buffer leaves a remainder without a complete one. The loop ends there when the remainder
is empty or starts with a carriage return, and never otherwise.
-/

namespace BoostAsio.HttpRequest

/-- A line as the loop cuts it: its text and the byte dropped behind `'\r'`. -/
structure HeaderLine where
  text : Bytes
  dropped : UInt8
  ne_nil : text ≠ []
  no_cr : cr ∉ text

/-- The bytes that a line takes up in the buffer. -/
def HeaderLine.bytes (line : HeaderLine) : Bytes := line.text ++ [cr, line.dropped]

/-- The bytes of consecutive lines. -/
def joinLines (lines : List HeaderLine) : Bytes := lines.flatMap HeaderLine.bytes

@[simp] theorem joinLines_nil : joinLines [] = [] := rfl

@[simp] theorem joinLines_cons (line : HeaderLine) (lines : List HeaderLine) :
    joinLines (line :: lines) = line.text ++ cr :: line.dropped :: joinLines lines := by
  simp [joinLines, HeaderLine.bytes]

@[simp] theorem joinLines_append (xs ys : List HeaderLine) :
    joinLines (xs ++ ys) = joinLines xs ++ joinLines ys := by
  simp [joinLines]

/-- A remainder at which the loop ends. -/
def EndsLoop (rest : Bytes) : Prop := rest = [] ∨ ∃ r, rest = cr :: r

/-- A remainder that is a last line without the bytes that complete it. -/
def Unfinished (rest : Bytes) : Prop :=
  ∃ text, text ≠ [] ∧ cr ∉ text ∧ (rest = text ∨ rest = text ++ [cr])

/-- A buffer is finished, unfinished or starts with a complete line. -/
theorem ends_or_unfinished_or_line (b : Bytes) :
    EndsLoop b ∨ Unfinished b ∨
      ∃ (line : HeaderLine) (rest : Bytes), b = line.text ++ cr :: line.dropped :: rest := by
  rcases not_mem_or_split cr b with hno | ⟨text, tail, rfl, hno⟩
  · by_cases hb : b = []
    · exact Or.inl (Or.inl hb)
    · exact Or.inr (Or.inl ⟨b, hb, hno, Or.inl rfl⟩)
  · by_cases ht : text = []
    · exact Or.inl (Or.inr ⟨tail, by simp [ht]⟩)
    · cases tail with
      | nil => exact Or.inr (Or.inl ⟨text, ht, hno, Or.inr rfl⟩)
      | cons c rest => exact Or.inr (Or.inr ⟨⟨text, c, ht, hno⟩, rest, rfl⟩)

/-- Cutting lines off a buffer comes to an end. -/
theorem exists_lines (b : Bytes) :
    ∃ lines rest, b = joinLines lines ++ rest ∧ (EndsLoop rest ∨ Unfinished rest) := by
  induction hn : b.length using Nat.strong_induction_on generalizing b with
  | _ n ih =>
    rcases ends_or_unfinished_or_line b with h | h | ⟨line, rest, rfl⟩
    · exact ⟨[], b, rfl, Or.inl h⟩
    · exact ⟨[], b, rfl, Or.inr h⟩
    · have hlt : rest.length < n := by
        subst hn
        simp only [List.length_append, List.length_cons]
        omega
      obtain ⟨lines, rest', hrest, hend⟩ := ih _ hlt rest rfl
      exact ⟨line :: lines, rest', by simp [hrest], hend⟩

/-- A prefix without a byte and the position of that byte are determined. -/
theorem append_cons_inj_of_not_mem {d : UInt8} {xs ys us vs : Bytes} (hx : d ∉ xs)
    (hu : d ∉ us) (h : xs ++ d :: ys = us ++ d :: vs) : xs = us ∧ ys = vs := by
  have htake := congrArg (List.takeWhile (· != d)) h
  rw [takeWhile_append_cons _ _ (ne_of_not_mem hx) (by simp),
    takeWhile_append_cons _ _ (ne_of_not_mem hu) (by simp)] at htake
  subst htake
  exact ⟨rfl, (List.cons.inj (List.append_cancel_left h)).2⟩

/-- A finished or unfinished remainder does not start with a complete line. -/
theorem not_line_of_rest {rest : Bytes} (h : EndsLoop rest ∨ Unfinished rest)
    (line : HeaderLine) (tail : Bytes) : rest ≠ line.text ++ cr :: line.dropped :: tail := by
  rintro rfl
  rcases h with (hnil | ⟨r, hr⟩) | ⟨text, hne, hno, heq | heq⟩
  · simp at hnil
  · obtain ⟨a, l, hl⟩ := List.exists_cons_of_ne_nil line.ne_nil
    rw [hl, List.cons_append] at hr
    have hmem : cr ∈ line.text := by simp [hl, (List.cons.inj hr).1]
    exact line.no_cr hmem
  · exact hno (heq ▸ by simp)
  · exact absurd (append_cons_inj_of_not_mem line.no_cr hno heq).2 (by simp)

/-- The lines of a buffer and the remainder behind them are unique. -/
theorem joinLines_unique {lines lines' : List HeaderLine} {rest rest' : Bytes}
    (h : EndsLoop rest ∨ Unfinished rest) (h' : EndsLoop rest' ∨ Unfinished rest')
    (heq : joinLines lines ++ rest = joinLines lines' ++ rest') :
    lines = lines' ∧ rest = rest' := by
  induction lines generalizing lines' with
  | nil =>
    cases lines' with
    | nil => exact ⟨rfl, heq⟩
    | cons line' lines' => exact absurd (by simpa using heq) (not_line_of_rest h line' _)
  | cons line lines ih =>
    cases lines' with
    | nil => exact absurd (by simpa using heq.symm) (not_line_of_rest h' line _)
    | cons line' lines' =>
      simp only [joinLines_cons, List.append_assoc, List.cons_append] at heq
      obtain ⟨htext, htail⟩ := append_cons_inj_of_not_mem line.no_cr line'.no_cr heq
      obtain ⟨hdropped, htail⟩ := List.cons.inj htail
      obtain ⟨rfl, rfl⟩ := ih htail
      refine ⟨?_, rfl⟩
      obtain ⟨text, dropped, _, _⟩ := line
      obtain ⟨text', dropped', _, _⟩ := line'
      simp only at htext hdropped
      subst htext hdropped
      rfl

/-- What is cut behind complete lines is cut from the bytes that follow them. -/
theorem lines_append {lines lines' : List HeaderLine} {rest tail : Bytes}
    (hend : EndsLoop tail) (h : joinLines lines ++ rest = joinLines lines' ++ tail) :
    ∃ more, lines' = lines ++ more ∧ rest = joinLines more ++ tail := by
  obtain ⟨more, tail', rfl, hend'⟩ := exists_lines rest
  rw [← List.append_assoc, ← joinLines_append] at h
  obtain ⟨rfl, rfl⟩ := joinLines_unique hend' (Or.inl hend) h
  exact ⟨more, rfl, rfl⟩

namespace HeaderLoop

/-- The state of the loop with other unread bytes. -/
def onBuf (x : HeaderLoop) (b : Bytes) : HeaderLoop := { x with stream := .ofBuf b }

/-- What an iteration does with a complete line, apart from consuming it. -/
def addLine (x : HeaderLoop) (line : HeaderLine) : HeaderLoop :=
  { x with header := line.text }.add

/-- What the iterations over consecutive lines do. -/
def addLines (x : HeaderLoop) (lines : List HeaderLine) : HeaderLoop :=
  lines.foldl addLine x

@[simp] theorem addLines_nil (x : HeaderLoop) : x.addLines [] = x := rfl

@[simp] theorem addLines_cons (x : HeaderLoop) (line : HeaderLine) (lines : List HeaderLine) :
    x.addLines (line :: lines) = (x.addLine line).addLines lines := rfl

/-- A complete line is consumed by one iteration. -/
theorem run_line (n : Nat) (x : HeaderLoop) (line : HeaderLine) (rest : Bytes) :
    run (n + 1) (x.onBuf (line.text ++ cr :: line.dropped :: rest)) =
      run n ((x.addLine line).onBuf rest) := by
  have hread : (x.onBuf (line.text ++ cr :: line.dropped :: rest)).read =
      { x.onBuf rest with header := line.text } := by
    simp only [read, onBuf, IStream.getline_line line.no_cr, IStream.get_cons]
  simp only [run, hread, line.ne_nil, ite_false]
  rfl

/-- Consecutive lines are consumed by as many iterations. -/
theorem run_lines (n : Nat) (x : HeaderLoop) (lines : List HeaderLine) (rest : Bytes) :
    run (lines.length + n) (x.onBuf (joinLines lines ++ rest)) =
      run n ((x.addLines lines).onBuf rest) := by
  induction lines generalizing x with
  | nil => simp
  | cons line lines ih =>
    have hbuf : joinLines (line :: lines) ++ rest =
        line.text ++ cr :: line.dropped :: (joinLines lines ++ rest) := by simp
    rw [hbuf, List.length_cons, Nat.add_right_comm, run_line, ih, addLines_cons]

/-- At a finished remainder the next iteration breaks. -/
theorem run_ends (n : Nat) (x : HeaderLoop) {rest : Bytes} (h : EndsLoop rest) :
    ∃ y, run (n + 1) (x.onBuf rest) = some y ∧ y.stream.buf = rest.drop 2 ∧
      y.response = x.response := by
  rcases h with rfl | ⟨r, rfl⟩
  · have hread : (x.onBuf []).read =
        { x with stream := ⟨[], true, true⟩, header := [] } := by
      simp only [read, onBuf, IStream.getline_last (b := []) List.not_mem_nil]
      rfl
    refine ⟨(x.onBuf []).read, by simp [run, hread], ?_, ?_⟩ <;> simp [hread]
  · have hread : (x.onBuf (cr :: r)).read =
        { x with stream := (IStream.ofBuf r).get, header := [] } := by
      have := IStream.getline_line (show cr ∉ [] from List.not_mem_nil) r x.header
      rw [List.nil_append] at this
      simp only [read, onBuf, this]
    refine ⟨(x.onBuf (cr :: r)).read, by simp [run, hread], ?_, ?_⟩ <;>
      simp [hread, IStream.buf_get_ofBuf]

/-- Once the stream is not good the header line is never changed again. -/
theorem run_stuck (n : Nat) (x : HeaderLoop) (hgood : x.stream.good = false)
    (hheader : x.header ≠ []) : run n x = none := by
  induction n generalizing x with
  | zero => rfl
  | succ n ih =>
    have hfail : ({ x.stream with fail := true } : IStream).good = false := by
      simp [IStream.good]
    have hread : x.read = { x with stream := { x.stream with fail := true } } := by
      simp only [read, IStream.getline_of_not_good hgood, IStream.get_of_not_good hfail]
    simp only [run, hread, hheader, ite_false]
    exact ih _ hfail hheader

/-- At an unfinished remainder the loop never ends. -/
theorem run_unfinished (n : Nat) (x : HeaderLoop) {rest : Bytes} (h : Unfinished rest) :
    run n (x.onBuf rest) = none := by
  cases n with
  | zero => rfl
  | succ n =>
    obtain ⟨text, hne, hno, rfl | rfl⟩ := h
    · have hread : (x.onBuf rest).read =
          { x with stream := ⟨[], true, true⟩, header := rest } := by
        simp only [read, onBuf, IStream.getline_last hno]
        rfl
      simp only [run, hread, hne, ite_false]
      exact run_stuck _ _ rfl hne
    · have hread : (x.onBuf (text ++ [cr])).read =
          { x with stream := ⟨[], true, true⟩, header := text } := by
        simp only [read, onBuf, IStream.getline_line hno, IStream.get_nil]
      simp only [run, hread, hne, ite_false]
      exact run_stuck _ _ rfl hne

/-- More iterations than needed change nothing. -/
theorem run_add {n : Nat} {x y : HeaderLoop} (h : run n x = some y) (k : Nat) :
    run (n + k) x = some y := by
  induction n generalizing x with
  | zero => cases h
  | succ n ih =>
    rw [Nat.add_right_comm]
    by_cases hend : x.read.header = []
    · simpa [run, hend] using h
    · simp only [run, hend, ite_false] at h ⊢
      exact ih h

/-- The loop ends exactly at a finished remainder, having added the lines before it. -/
theorem run_eq_some_iff (x : HeaderLoop) (b : Bytes) (response : HttpMessage) (left : Bytes) :
    (∃ fuel y, run fuel (x.onBuf b) = some y ∧ y.response = response ∧ y.stream.buf = left) ↔
      ∃ lines rest, b = joinLines lines ++ rest ∧ EndsLoop rest ∧
        response = (x.addLines lines).response ∧ left = rest.drop 2 := by
  constructor
  · rintro ⟨fuel, y, hrun, rfl, rfl⟩
    obtain ⟨lines, rest, rfl, hend | hunfinished⟩ := exists_lines b
    · obtain ⟨z, hz, hbuf, hresponse⟩ := run_ends fuel (x.addLines lines) hend
      have hlong := run_add hrun (lines.length + 1)
      rw [Nat.add_comm, Nat.add_assoc, run_lines, Nat.add_comm, hz] at hlong
      obtain rfl := Option.some.inj hlong
      exact ⟨lines, rest, rfl, hend, hresponse, hbuf⟩
    · have hlong := run_add hrun lines.length
      rw [Nat.add_comm, run_lines, run_unfinished _ _ hunfinished] at hlong
      cases hlong
  · rintro ⟨lines, rest, rfl, hend, rfl, rfl⟩
    obtain ⟨y, hy, hbuf, hresponse⟩ := run_ends 0 (x.addLines lines) hend
    exact ⟨lines.length + 1, y, by rw [run_lines, hy], hresponse, hbuf⟩

end HeaderLoop

/-- The message with the headers of consecutive lines. -/
def addHeaders (response : HttpMessage) (lines : List HeaderLine) : HttpMessage :=
  ((HeaderLoop.start response).addLines lines).response

/-- The headers are read exactly up to a finished remainder, of which two bytes go too. -/
theorem readHeaders_iff (response m : HttpMessage) :
    (∃ fuel, readHeaders fuel response = some m) ↔
      ∃ lines rest, response.messageBuf = joinLines lines ++ rest ∧ EndsLoop rest ∧
        m = (addHeaders response lines).withBuf (rest.drop 2) := by
  have hstart : HeaderLoop.start response =
      (HeaderLoop.start response).onBuf response.messageBuf := rfl
  constructor
  · rintro ⟨fuel, h⟩
    obtain ⟨y, hy, rfl⟩ := Option.map_eq_some_iff.mp h
    rw [hstart] at hy
    obtain ⟨lines, rest, hbuf, hend, hresponse, hleft⟩ :=
      (HeaderLoop.run_eq_some_iff _ _ _ _).mp ⟨fuel, y, hy, rfl, rfl⟩
    exact ⟨lines, rest, hbuf, hend, by rw [addHeaders, ← hresponse, hleft]⟩
  · rintro ⟨lines, rest, hbuf, hend, rfl⟩
    obtain ⟨fuel, y, hy, hresponse, hleft⟩ := (HeaderLoop.run_eq_some_iff
      (.start response) response.messageBuf _ _).mpr ⟨lines, rest, hbuf, hend, rfl, rfl⟩
    refine ⟨fuel, Option.map_eq_some_iff.mpr ⟨y, hy, ?_⟩⟩
    rw [hleft, hresponse, addHeaders]

/-- The loop of `OnHeadersReceived` ends exactly on the buffers that are cut into complete
lines up to their end or up to a further carriage return. -/
theorem headerLoop_terminates_iff (response : HttpMessage) :
    (∃ fuel, (HeaderLoop.run fuel (.start response)).isSome) ↔
      ∃ lines rest, response.messageBuf = joinLines lines ++ rest ∧
        (rest = [] ∨ ∃ r, rest = cr :: r) := by
  constructor
  · rintro ⟨fuel, h⟩
    obtain ⟨y, hy⟩ := Option.isSome_iff_exists.mp h
    obtain ⟨lines, rest, hbuf, hend, -⟩ :=
      (HeaderLoop.run_eq_some_iff (.start response) response.messageBuf _ _).mp
        ⟨fuel, y, hy, rfl, rfl⟩
    exact ⟨lines, rest, hbuf, hend⟩
  · rintro ⟨lines, rest, hbuf, hend⟩
    obtain ⟨fuel, y, hy, -⟩ := (HeaderLoop.run_eq_some_iff
      (.start response) response.messageBuf _ _).mpr ⟨lines, rest, hbuf, hend, rfl, rfl⟩
    exact ⟨fuel, Option.isSome_iff_exists.mpr ⟨y, hy⟩⟩

/-- A bare carriage return shifts the parse over the blank line, and the rest of the buffer
has no other one. -/
theorem headerLoop_hangs :
    ∃ response : HttpMessage, ascii "\r\n\r\n" <:+: response.messageBuf ∧
      ∀ fuel, HeaderLoop.run fuel (.start response) = none := by
  let first : HeaderLine := ⟨ascii "A", cr, by decide, by decide⟩
  let second : HeaderLine := ⟨ascii "\n", lf, by decide, by decide⟩
  have hrest : Unfinished (ascii "B") := ⟨ascii "B", by decide, by decide, Or.inl rfl⟩
  refine ⟨HttpMessage.new.withBuf (ascii "A\r\r\n\r\nB"), ⟨ascii "A\r", ascii "B", rfl⟩,
    fun fuel => ?_⟩
  have hbuf : ascii "A\r\r\n\r\nB" = joinLines [first, second] ++ ascii "B" := rfl
  cases hrun : HeaderLoop.run fuel (.start (HttpMessage.new.withBuf
      (ascii "A\r\r\n\r\nB"))) with
  | none => rfl
  | some y =>
    obtain ⟨lines, rest, hlines, hend, -⟩ := (HeaderLoop.run_eq_some_iff
      (.start (HttpMessage.new.withBuf (ascii "A\r\r\n\r\nB"))) _ _ _).mp
        ⟨fuel, y, hrun, rfl, rfl⟩
    obtain ⟨-, rfl⟩ := joinLines_unique (Or.inr hrest) (Or.inl hend) (hbuf.symm.trans hlines)
    rcases hend with h | ⟨r, h⟩ <;> cases h

end BoostAsio.HttpRequest

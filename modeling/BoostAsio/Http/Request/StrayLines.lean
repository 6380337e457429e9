import BoostAsio.Http.Encoding

/-!
# Header lines without a colon

The name that the header loop cuts from a line outlives its iteration, so a line without a
colon is recorded under the name of the line before it, with an empty value. A block keeps
the values of its fields exactly when no such line hits a value that is not overwritten
anyway.
-/

namespace BoostAsio.HttpRequest

/-- A line of a header block: a field, or a text without a colon. -/
inductive BlockLine
  | field (pair : HeaderPair)
  | stray (text : Bytes) (ne_nil : text ≠ []) (no_colon : 58 ∉ text) (no_cr : cr ∉ text)

namespace BlockLine

/-- The line without its end. -/
def text : BlockLine → Bytes
  | field pair => pair.toFieldLine.text
  | stray text _ _ _ => text

/-- Every text on one line is a field or a stray line. -/
theorem exists_of_text {text : Bytes} (hne : text ≠ []) (hcr : cr ∉ text) :
    ∃ line : BlockLine, line.text = text := by
  rcases not_mem_or_split 58 text with hno | ⟨name, value, rfl, hname⟩
  · exact ⟨stray text hne hno hcr, rfl⟩
  · have hn : cr ∉ name := fun h => hcr (List.mem_append_left _ h)
    have hv : cr ∉ value := fun h => hcr (List.mem_append_right _ (List.mem_cons_of_mem _ h))
    exact ⟨field ⟨name, value, hname, hn, hv⟩, rfl⟩

/-- The line as the header loop cuts it. -/
def toHeaderLine : BlockLine → HeaderLine
  | field pair => pair.toFieldLine.toHeaderLine
  | stray text ne_nil _ no_cr => ⟨text, lf, ne_nil, no_cr⟩

theorem bytes_toHeaderLine (line : BlockLine) : line.toHeaderLine.bytes = line.text ++ crlf := by
  cases line <;> rfl

end BlockLine

/-- The bytes of a block with its blank line. -/
def blockBytes (lines : List BlockLine) : Bytes :=
  lines.flatMap (fun line => line.text ++ crlf) ++ crlf

theorem blockBytes_eq (lines : List BlockLine) :
    blockBytes lines = joinLines (lines.map BlockLine.toHeaderLine) ++ crlf := by
  simp only [blockBytes, joinLines, List.flatMap_map, BlockLine.bytes_toHeaderLine]

/-- The fields of a block, in their order. -/
def fields : List BlockLine → List HeaderPair
  | [] => []
  | .field pair :: lines => pair :: fields lines
  | .stray _ _ _ _ :: lines => fields lines

/-- The block goes on with a stray line. -/
def startsStray : List BlockLine → Bool
  | .stray _ _ _ _ :: _ => true
  | [] | .field _ :: _ => false

/-- Every field in front of a stray line is empty or is repeated later. -/
def Harmless : List BlockLine → Prop
  | [] => True
  | .field pair :: lines =>
    (startsStray lines = true → pair.value = [] ∨ ∃ p ∈ fields lines, p.name = pair.name) ∧
      Harmless lines
  | .stray _ _ _ _ :: lines => Harmless lines

/-- Stray lines were put into the first block at any places. -/
inductive Inserted : List BlockLine → List BlockLine → Prop
  | nil : Inserted [] []
  | keep {block lines} (line : BlockLine) (h : Inserted block lines) :
      Inserted (line :: block) (line :: lines)
  | insert {block lines text ne_nil no_colon no_cr} (h : Inserted block lines) :
      Inserted block (.stray text ne_nil no_colon no_cr :: lines)

/-- Insertion leaves the fields as they are. -/
theorem Inserted.fields_eq {block lines : List BlockLine} (h : Inserted block lines) :
    fields lines = fields block := by
  induction h with
  | nil => rfl
  | keep line h ih =>
    cases line with
    | field pair => rw [fields, fields, ih]
    | stray => exact ih
  | insert h ih => exact ih

/-- What comes behind a stray line of the block is a stray line still. -/
theorem Inserted.startsStray {block lines : List BlockLine} (h : Inserted block lines)
    (hblock : startsStray block = true) : HttpRequest.startsStray lines = true := by
  cases h with
  | nil => exact hblock
  | keep line h => cases line with
    | field pair => exact hblock
    | stray => rfl
  | insert h => rfl

/-- Taking stray lines away does no harm. -/
theorem Inserted.harmless {block lines : List BlockLine} (h : Inserted block lines)
    (hlines : Harmless lines) : Harmless block := by
  induction h with
  | nil => exact hlines
  | keep line h ih =>
    cases line with
    | field pair =>
      refine ⟨fun hstray => ?_, ih hlines.2⟩
      rw [← h.fields_eq]
      exact hlines.1 (h.startsStray hstray)
    | stray => exact ih hlines
  | insert h ih => exact ih hlines

/-- What the loop records for a name, when the last name cut is `previous`. -/
def lastRecord : Bytes → List BlockLine → Bytes → Option Bytes
  | _, [], _ => none
  | _, .field pair :: lines, name =>
    (lastRecord pair.name lines name).or (if pair.name = name then some pair.value else none)
  | previous, .stray _ _ _ _ :: lines, name =>
    (lastRecord previous lines name).or (if previous = name then some [] else none)

/-- The header map that the loop leaves, from any state of its variables. -/
theorem headers_addLines (x : HeaderLoop) (lines : List BlockLine) (name : Bytes) :
    (x.addLines (lines.map BlockLine.toHeaderLine)).response.headers name =
      (lastRecord x.headerName lines name).or (x.response.headers name) := by
  induction lines generalizing x with
  | nil => rfl
  | cons line lines ih =>
    rw [List.map_cons, HeaderLoop.addLines_cons, ih]
    cases line with
    | field pair =>
      have hname : (x.addLine (BlockLine.field pair).toHeaderLine).headerName = pair.name :=
        cutName_pair pair x.headerName
      have hheaders : (x.addLine (BlockLine.field pair).toHeaderLine).response.headers name =
          if pair.name = name then some pair.value else x.response.headers name := by
        simp only [HeaderLoop.addLine, HeaderLoop.add, HttpMessage.addHeader,
          BlockLine.toHeaderLine, FieldLine.toHeaderLine, cutName_pair, cutValue_pair,
          Function.update_apply, eq_comm]
      rw [hname, hheaders, lastRecord, Option.or_assoc]
      by_cases he : pair.name = name <;> simp [he]
    | stray text ne_nil no_colon no_cr =>
      have hpos : separatorPos text = none := by
        refine List.findIdx?_eq_none_iff.mpr fun c hc => ?_
        simpa using fun h : c = 58 => no_colon (h ▸ hc)
      have hname : (x.addLine (BlockLine.stray text ne_nil no_colon no_cr).toHeaderLine).headerName
          = x.headerName := by
        simp only [HeaderLoop.addLine, HeaderLoop.add, BlockLine.toHeaderLine, cutName, hpos]
      have hheaders :
          (x.addLine (BlockLine.stray text ne_nil no_colon no_cr).toHeaderLine).response.headers
            name = if x.headerName = name then some [] else x.response.headers name := by
        simp only [HeaderLoop.addLine, HeaderLoop.add, HttpMessage.addHeader,
          BlockLine.toHeaderLine, cutName, cutValue, hpos, Function.update_apply, eq_comm]
      rw [hname, hheaders, lastRecord, Option.or_assoc]
      by_cases he : x.headerName = name <;> simp [he]

section

variable {lines : List BlockLine} {previous name : Bytes}

/-- A name without a field is recorded only by stray lines in front of the first field. -/
theorem lastRecord_of_no_field (h : ∀ p ∈ fields lines, p.name ≠ name) :
    lastRecord previous lines name =
      if startsStray lines = true ∧ previous = name then some [] else none := by
  induction lines generalizing previous with
  | nil => rfl
  | cons line lines ih =>
    cases line with
    | field pair =>
      have hpair : pair.name ≠ name := h pair (List.mem_cons_self ..)
      rw [lastRecord, ih fun p hp => h p (List.mem_cons_of_mem _ hp)]
      simp [startsStray, hpair]
    | stray =>
      rw [lastRecord, ih h]
      change _ = if true = true ∧ previous = name then some [] else none
      by_cases he : previous = name <;> cases startsStray lines <;> simp [he]

/-- A name with a field is recorded, and there is a last value for it. -/
theorem isSome_of_field (h : ∃ p ∈ fields lines, p.name = name) (previous : Bytes) :
    (lastRecord previous lines name).isSome = true ∧
      (lastValue (fields lines) name).isSome = true := by
  induction lines generalizing previous with
  | nil =>
    obtain ⟨p, hp, -⟩ := h
    cases hp
  | cons line lines ih =>
    cases line with
    | field pair =>
      obtain ⟨p, hp, rfl⟩ := h
      rcases List.mem_cons.mp hp with rfl | hp
      · simp [lastRecord, fields, lastValue]
      · obtain ⟨hrecord, hvalue⟩ := ih ⟨p, hp, rfl⟩ pair.name
        simp [lastRecord, fields, lastValue, hrecord, hvalue]
    | stray =>
      obtain ⟨hrecord, hvalue⟩ := ih h previous
      exact ⟨by simp [lastRecord, hrecord], hvalue⟩

/-- A name without a field has no last value. -/
theorem lastValue_of_no_field (h : ∀ p ∈ fields lines, p.name ≠ name) :
    lastValue (fields lines) name = none := by
  generalize fields lines = pairs at h ⊢
  induction pairs with
  | nil => rfl
  | cons pair pairs ih =>
    rw [lastValue, ih fun p hp => h p (List.mem_cons_of_mem _ hp),
      if_neg (h pair (List.mem_cons_self ..))]
    rfl

end

/-- What stands in front is not seen behind a value that is there. -/
private theorem or_congr_of_isSome {a b c : Option Bytes} (ha : a.isSome = true)
    (hb : b.isSome = true) : a.or c = b.or c ↔ a = b := by
  obtain ⟨x, rfl⟩ := Option.isSome_iff_exists.mp ha
  obtain ⟨y, rfl⟩ := Option.isSome_iff_exists.mp hb
  rfl

section

variable {pair : HeaderPair} {lines : List BlockLine} {previous name : Bytes}

/-- A name that occurs later is recorded right exactly when the later lines record it right. -/
theorem lastRecord_field_of_later (h : ∃ p ∈ fields lines, p.name = name) :
    lastRecord previous (.field pair :: lines) name =
        lastValue (fields (.field pair :: lines)) name ↔
      lastRecord pair.name lines name = lastValue (fields lines) name := by
  obtain ⟨hrecord, hvalue⟩ := isSome_of_field h pair.name
  exact or_congr_of_isSome hrecord hvalue

/-- The last field of a name is recorded right unless a stray line overwrites its value. -/
theorem lastRecord_field_of_last (h : ∀ p ∈ fields lines, p.name ≠ pair.name) :
    lastRecord previous (.field pair :: lines) pair.name =
        lastValue (fields (.field pair :: lines)) pair.name ↔
      (startsStray lines = true → pair.value = []) := by
  rw [lastRecord, fields, lastValue, lastRecord_of_no_field h, lastValue_of_no_field h]
  cases startsStray lines <;> simp [eq_comm]

end

/-- The loop records the last value of every field exactly on harmless blocks. -/
theorem lastRecord_eq_iff (lines : List BlockLine) (previous : Bytes) :
    (∀ p ∈ fields lines, lastRecord previous lines p.name = lastValue (fields lines) p.name) ↔
      Harmless lines := by
  induction lines generalizing previous with
  | nil => simp [fields, Harmless]
  | cons line lines ih =>
    cases line with
    | field pair =>
      rw [Harmless, ← ih pair.name]
      constructor
      · intro h
        refine ⟨fun hstray => ?_, fun p hp => ?_⟩
        · by_cases hname : ∃ p ∈ fields lines, p.name = pair.name
          · exact Or.inr hname
          · have hno : ∀ p ∈ fields lines, p.name ≠ pair.name := fun p hp he => hname ⟨p, hp, he⟩
            exact Or.inl ((lastRecord_field_of_last hno).mp (h pair (List.mem_cons_self ..)) hstray)
        · exact (lastRecord_field_of_later ⟨p, hp, rfl⟩).mp (h p (List.mem_cons_of_mem _ hp))
      · rintro ⟨hstray, h⟩ p hp
        by_cases hname : ∃ q ∈ fields lines, q.name = p.name
        · obtain ⟨q, hq, he⟩ := hname
          rw [← he]
          exact (lastRecord_field_of_later ⟨q, hq, rfl⟩).mpr (h q hq)
        · have hself : p = pair := by
            rcases List.mem_cons.mp hp with hself | hp
            · exact hself
            · exact absurd ⟨p, hp, rfl⟩ hname
          subst hself
          have hno : ∀ q ∈ fields lines, q.name ≠ p.name := fun q hq he => hname ⟨q, hq, he⟩
          exact (lastRecord_field_of_last hno).mpr fun hs => (hstray hs).resolve_right hname
    | stray text ne_nil no_colon no_cr =>
      rw [Harmless, ← ih previous]
      refine forall₂_congr fun p hp => ?_
      have hname : ∃ q ∈ fields lines, q.name = p.name := ⟨p, hp, rfl⟩
      obtain ⟨hrecord, -⟩ := isSome_of_field hname previous
      obtain ⟨v, hv⟩ := Option.isSome_iff_exists.mp hrecord
      rw [lastRecord, fields, hv, Option.some_or]

/-- `OnHeadersReceived` makes this message of a block and the bytes behind it. -/
def ReadsBlock (response : HttpMessage) (lines : List BlockLine) (rest : Bytes)
    (m : HttpMessage) : Prop :=
  ∃ fuel, onHeadersReceived fuel .success false (response.withBuf (blockBytes lines ++ rest)) =
    some (.ok m)

/-- The handler reads every block, and records what the loop records. -/
theorem exists_readsBlock (response : HttpMessage) (lines : List BlockLine) (rest : Bytes) :
    ∃ m, ReadsBlock response lines rest m := by
  have hbuf : (response.withBuf (blockBytes lines ++ rest)).messageBuf =
      joinLines (lines.map BlockLine.toHeaderLine) ++ (crlf ++ rest) := by
    rw [HttpMessage.messageBuf_withBuf, blockBytes_eq, List.append_assoc]
  obtain ⟨fuel, hread⟩ := (readHeaders_iff _ _).mpr
    ⟨_, _, hbuf, Or.inr ⟨lf :: rest, rfl⟩, rfl⟩
  exact ⟨_, fuel, (onHeadersReceived_success fuel _).trans (Option.map_eq_some_iff.mpr
    ⟨_, hread, rfl⟩)⟩

theorem ReadsBlock.headers {response m : HttpMessage} {lines : List BlockLine} {rest : Bytes}
    (h : ReadsBlock response lines rest m) (name : Bytes) :
    m.headers name = (lastRecord [] lines name).or (response.headers name) := by
  obtain ⟨fuel, hread⟩ := h
  rw [onHeadersReceived_success] at hread
  obtain ⟨m', hm', he⟩ := Option.map_eq_some_iff.mp hread
  obtain rfl := Except.ok.inj he
  obtain ⟨lines', rest', hbuf, hend, rfl⟩ := (readHeaders_iff _ _).mp ⟨fuel, hm'⟩
  rw [HttpMessage.messageBuf_withBuf, blockBytes_eq, List.append_assoc] at hbuf
  obtain ⟨rfl, -⟩ := joinLines_unique (Or.inl (Or.inr ⟨lf :: rest, rfl⟩)) (Or.inl hend) hbuf
  exact headers_addLines (.start (response.withBuf (blockBytes lines ++ rest))) lines name

/-- The record of the second block agrees with that of the first on the names of the fields,
and each of them has its last value. -/
def Undisturbed (response : HttpMessage) (block lines : List BlockLine) (rest : Bytes) : Prop :=
  ∃ m m', ReadsBlock response block rest m ∧ ReadsBlock response lines rest m' ∧
    ∀ p ∈ fields block, m'.headers p.name = m.headers p.name ∧
      m'.headers p.name = lastValue (fields block) p.name

/-- A block that is read leaves the last values of its fields exactly when it is harmless. -/
theorem ReadsBlock.harmless_iff {response m : HttpMessage} {lines : List BlockLine}
    {rest : Bytes} (h : ReadsBlock response lines rest m) :
    (∀ p ∈ fields lines, m.headers p.name = lastValue (fields lines) p.name) ↔
      Harmless lines := by
  rw [← lastRecord_eq_iff lines []]
  refine forall₂_congr fun p hp => ?_
  obtain ⟨hrecord, -⟩ := isSome_of_field ⟨p, hp, rfl⟩ []
  obtain ⟨v, hv⟩ := Option.isSome_iff_exists.mp hrecord
  rw [h.headers, hv]
  rfl

/-- Inserted stray lines leave the fields undisturbed exactly when the result is harmless. -/
theorem undisturbed_iff {block lines : List BlockLine} (h : Inserted block lines)
    (response : HttpMessage) (rest : Bytes) :
    Undisturbed response block lines rest ↔ Harmless lines := by
  constructor
  · rintro ⟨m, m', -, hlines, hsame⟩
    rw [← h.fields_eq] at hsame
    exact hlines.harmless_iff.mp fun p hp => (hsame p hp).2
  · intro hlines
    obtain ⟨m, hm⟩ := exists_readsBlock response block rest
    obtain ⟨m', hm'⟩ := exists_readsBlock response lines rest
    refine ⟨m, m', hm, hm', fun p hp => ?_⟩
    have hblock := hm.harmless_iff.mpr (h.harmless hlines) p hp
    rw [← h.fields_eq] at hp
    have hlast := hm'.harmless_iff.mpr hlines p hp
    rw [h.fields_eq] at hlast
    exact ⟨hlast.trans hblock.symm, hlast⟩

/-- The field `a:b`. -/
def sampleField : BlockLine :=
  .field ⟨ascii "a", ascii "b", by decide, by decide, by decide⟩

/-- A line without a colon. -/
def sampleStray : BlockLine :=
  .stray (ascii "junk") (by decide) (by decide) (by decide)

/-- A stray line in front of a field is harmless. -/
theorem leadingStray_undisturbed :
    Undisturbed .new [sampleField] [sampleStray, sampleField] [] :=
  (undisturbed_iff (.insert (.keep sampleField .nil)) .new []).mpr
    ⟨fun h => absurd h (by decide), trivial⟩

/-- A stray line behind a field empties its value. -/
theorem trailingStray_disturbs :
    Inserted [sampleField] [sampleField, sampleStray] ∧
      ¬Undisturbed .new [sampleField] [sampleField, sampleStray] [] := by
  refine ⟨.keep sampleField (.insert .nil), ?_⟩
  rintro ⟨m, m', -, hlines, hsame⟩
  have hvalue := (hsame _ (List.mem_cons_self ..)).2
  rw [hlines.headers] at hvalue
  revert hvalue
  decide

end BoostAsio.HttpRequest

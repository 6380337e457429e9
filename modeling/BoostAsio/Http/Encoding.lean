import BoostAsio.Core.Stream.Numeral
import BoostAsio.Http.Request.HeaderLines
import BoostAsio.Http.Request.StatusLine

/-!
# Well-formed responses and how the handlers read them

The grammar of a response is independent of the handlers: a status line, field lines, a
blank line and a body. Each part carries what makes it well formed. On such bytes the
handlers read every part back and stop exactly behind it.
-/

namespace BoostAsio.HttpRequest

/-- The end of a line. -/
def crlf : Bytes := [cr, lf]

theorem ascii_crlf : ascii "\r\n" = crlf := rfl

theorem ascii_crlf_crlf : ascii "\r\n\r\n" = crlf ++ crlf := rfl

/-- A status line: a digit string and the text behind it up to the end of the line. -/
structure StatusLine where
  code : Bytes
  /-- Empty, or a blank and the reason. -/
  reason : Bytes
  code_ne_nil : code ≠ []
  isDigit_of_mem : ∀ c ∈ code, isDigit c = true
  reason_cases : reason = [] ∨ ∃ r, reason = 32 :: r
  no_cr : cr ∉ reason

/-- The bytes of a status line. -/
def StatusLine.bytes (line : StatusLine) : Bytes :=
  ascii "HTTP/1.1 " ++ line.code ++ line.reason ++ crlf

/-- A field line: any text with a colon on one line. -/
structure FieldLine where
  text : Bytes
  has_colon : 58 ∈ text
  no_cr : cr ∉ text

/-- The bytes of consecutive field lines. -/
def fieldBytes (lines : List FieldLine) : Bytes := lines.flatMap fun line => line.text ++ crlf

/-- A field line as the header loop cuts it. -/
def FieldLine.toHeaderLine (line : FieldLine) : HeaderLine :=
  ⟨line.text, lf, List.ne_nil_of_mem line.has_colon, line.no_cr⟩

theorem fieldBytes_eq (lines : List FieldLine) :
    fieldBytes lines = joinLines (lines.map FieldLine.toHeaderLine) := by
  simp only [fieldBytes, joinLines, List.flatMap_map]
  rfl

/-- A status line is read back whatever follows it. -/
theorem readStatusLine_bytes (line : StatusLine) (response : HttpMessage) {rest : Bytes}
    (h : response.messageBuf = line.bytes ++ rest) :
    readStatusLine response =
      match stoul line.code with
      | .error _ => .error .invalidResponse
      | .ok code => .ok (((response.setStatusCode code.toUInt32).setStatusMessage
          line.reason).withBuf rest) := by
  have hcode : IsWord line.code :=
    ⟨line.code_ne_nil, fun c hc => (isDigit_facts (line.isDigit_of_mem c hc)).1⟩
  have htail : EndsWord (line.reason ++ cr :: lf :: rest) := by
    rcases line.reason_cases with hr | ⟨r, hr⟩
    · exact Or.inr ⟨cr, lf :: rest, by rw [hr]; rfl, rfl⟩
    · exact Or.inr ⟨32, r ++ cr :: lf :: rest, by rw [hr]; rfl, rfl⟩
  have hbuf : response.messageBuf =
      [] ++ (httpVersion ++ ([32] ++ (line.code ++ (line.reason ++ cr :: lf :: rest)))) := by
    have hliteral : ascii "HTTP/1.1 " = httpVersion ++ [32] := rfl
    simp [h, StatusLine.bytes, hliteral, crlf]
  have hall := ne_of_not_mem line.no_cr
  have hline : lineOf (line.reason ++ cr :: lf :: rest) = line.reason :=
    takeWhile_append_cons _ _ hall (by simp)
  have hrest : afterLine (line.reason ++ cr :: lf :: rest) = rest := by
    rw [afterLine, dropWhile_append_cons _ _ hall (by simp)]
    rfl
  rw [readStatusLine_of_words hbuf (by simp [Blank]) (by simp [Blank, isSpace]) (by simp) hcode
    htail]
  cases stoul line.code with
  | error e => rfl
  | ok code => simp only [setStatus, hline, hrest]

/-- The name of a field line and its value. -/
structure HeaderPair where
  name : Bytes
  value : Bytes
  no_colon : 58 ∉ name
  name_no_cr : cr ∉ name
  value_no_cr : cr ∉ value

/-- The field line of a pair. -/
def HeaderPair.toFieldLine (pair : HeaderPair) : FieldLine where
  text := pair.name ++ 58 :: pair.value
  has_colon := by simp
  no_cr h := by
    rcases List.mem_append.mp h with h | h
    · exact pair.name_no_cr h
    · exact pair.value_no_cr ((List.mem_cons.mp h).resolve_left (by decide))

/-- The value of the last pair with a name. -/
def lastValue : List HeaderPair → Bytes → Option Bytes
  | [], _ => none
  | pair :: pairs, name =>
    (lastValue pairs name).or (if pair.name = name then some pair.value else none)

theorem separatorPos_pair (pair : HeaderPair) :
    separatorPos pair.toFieldLine.text = some pair.name.length := by
  have hname : ∀ c ∈ pair.name, (c == 58) = false := fun c hc => by
    simpa using fun h : c = 58 => pair.no_colon (h ▸ hc)
  have hnone : pair.name.findIdx? (· == 58) = none := List.findIdx?_eq_none_iff.mpr hname
  simp [separatorPos, HeaderPair.toFieldLine, List.findIdx?_append, hnone, List.findIdx?_cons]

/-- Cutting a pair's line gives back its name, wherever the previous one came from. -/
theorem cutName_pair (pair : HeaderPair) (previous : Bytes) :
    cutName pair.toFieldLine.text previous = pair.name := by
  simp only [cutName, separatorPos_pair]
  simp [HeaderPair.toFieldLine]

/-- Cutting a pair's line gives back its value, the empty one included. -/
theorem cutValue_pair (pair : HeaderPair) : cutValue pair.toFieldLine.text = pair.value := by
  simp only [cutValue, separatorPos_pair]
  cases hv : pair.value with
  | nil => simp [HeaderPair.toFieldLine, hv]
  | cons c v =>
    have hlt : pair.name.length < pair.toFieldLine.text.length - 1 := by
      simp [HeaderPair.toFieldLine, hv]
    have hdrop : pair.toFieldLine.text.drop (pair.name.length + 1) = pair.value := by
      simp [HeaderPair.toFieldLine]
    rw [if_pos hlt, hdrop, hv]

/-- Header lines change nothing but the header map. -/
theorem addHeaders_eq (response : HttpMessage) (lines : List HeaderLine) :
    addHeaders response lines =
      { response with headers := (addHeaders response lines).headers } := by
  have key : ∀ x : HeaderLoop, (x.addLines lines).response =
      { x.response with headers := (x.addLines lines).response.headers } := by
    induction lines with
    | nil => intro x; rfl
    | cons line lines ih => intro x; rw [HeaderLoop.addLines_cons, ih]; rfl
  exact key (.start response)

/-- The header map after pairs: the last value of each name, or what was there before. -/
theorem headers_addHeaders (response : HttpMessage) (pairs : List HeaderPair) (name : Bytes) :
    (addHeaders response (pairs.map fun pair => pair.toFieldLine.toHeaderLine)).headers name =
      (lastValue pairs name).or (response.headers name) := by
  have key : ∀ x : HeaderLoop,
      (x.addLines (pairs.map fun pair => pair.toFieldLine.toHeaderLine)).response.headers name =
        (lastValue pairs name).or (x.response.headers name) := by
    induction pairs with
    | nil => intro x; rfl
    | cons pair pairs ih =>
      intro x
      have hline : ((x.addLine pair.toFieldLine.toHeaderLine).response.headers name) =
          if pair.name = name then some pair.value else x.response.headers name := by
        simp only [HeaderLoop.addLine, HeaderLoop.add, HttpMessage.addHeader,
          FieldLine.toHeaderLine, cutName_pair, cutValue_pair, Function.update_apply, eq_comm]
      rw [List.map_cons, HeaderLoop.addLines_cons, ih, hline, lastValue, Option.or_assoc]
      by_cases hname : pair.name = name <;> simp [hname]
  exact key (.start response)

end BoostAsio.HttpRequest

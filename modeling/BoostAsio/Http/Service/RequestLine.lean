import BoostAsio.Core.Stream.ReadWithin
import BoostAsio.Core.Stream.Words
import BoostAsio.Http.Service.Handlers

/-!
# The decision on the request line

The first read is bounded by the size of `m_request`. What the service decides on depends
on the first 4096 bytes of the stream, however they arrive, and on the first word of the
line; the version is never read, so a request that should be served is refused with it.
-/

namespace BoostAsio.HttpService

/-- What becomes of a connection with its request line. -/
inductive Decision
  | respond (statusCode : UInt32)
  | close
  | readHeaders (requestedResource : Bytes)
  deriving DecidableEq, Repr

/-- The size of `m_request`. -/
def requestSize : Nat := 4096

/-- The end of a line. -/
def lineEnd : Bytes := ascii "\r\n"

/-- From `StartHandling` to the end of `OnRequestLineReceived`. -/
def receiveRequestLine (chunks : List Bytes) : HttpService × Next :=
  let read := readWithin requestSize lineEnd [] chunks
  onRequestLineReceived read.1 { new with request := read.2.1 }

/-- How a handler has left the service. -/
def decision (s : HttpService × Next) : Decision :=
  match s.2 with
  | .sendResponse => .respond s.1.responseStatusCode
  | .finish => .close
  | .readHeaders => .readHeaders s.1.requestedResource

/-- The first word of a request line. -/
def lineMethod (line : Bytes) : Bytes := firstWord line

/-- The second word of a request line. -/
def lineResource (line : Bytes) : Bytes := firstWord (afterWord line)

/-- The third word of a request line. -/
def lineVersion (line : Bytes) : Bytes := firstWord (afterWord (afterWord line))

/-- What a request line calls for. -/
def intended (stream : Bytes) : Decision :=
  if lineEnd <:+: stream.take requestSize then
    if lineMethod (lineOf stream) ≠ ascii "GET" then .respond 501
    else if lineVersion (lineOf stream) ≠ ascii "HTTP/1.1" then .respond 505
    else .readHeaders (lineResource (lineOf stream))
  else if requestSize ≤ stream.length then .respond 413
  else .close

/-- A request line that the service means to serve. -/
structure Served (stream : Bytes) : Prop where
  window : lineEnd <:+: stream.take requestSize
  method : lineMethod (lineOf stream) = ascii "GET"
  version : lineVersion (lineOf stream) = ascii "HTTP/1.1"

/-- The line is in the first part of a stream that holds a carriage return. -/
theorem lineOf_of_prefix {front stream : Bytes} (h : front <+: stream) (hm : cr ∈ front) :
    lineOf front = lineOf stream := by
  obtain ⟨rest, rfl⟩ := h
  rcases not_mem_or_split cr front with hno | ⟨xs, ys, rfl, hno⟩
  · exact absurd hm hno
  · have hall := ne_of_not_mem hno
    rw [List.append_assoc, List.cons_append, lineOf, lineOf,
      takeWhile_append_cons _ _ hall (by simp), takeWhile_append_cons _ _ hall (by simp)]

/-- Whatever the line says, its version is taken to be another one. -/
theorem decision_readRequestLine (s : HttpService) : decision s.readRequestLine =
    if lineMethod (lineOf s.request) ≠ ascii "GET" then .respond 501 else .respond 505 := by
  have hline := (IStream.getline_get_ofBuf s.request []).1
  have hversion : ([] : Bytes) ≠ ascii "HTTP/1.1" := by decide
  by_cases hmethod : firstWord (lineOf s.request) = ascii "GET"
  · simp only [readRequestLine, IStream.extract_snd, hline, lineMethod, if_pos hversion, hmethod,
      ne_eq, not_true_eq_false, if_false]
    rfl
  · simp only [readRequestLine, IStream.extract_snd, hline, lineMethod, ne_eq, hmethod,
      not_false_eq_true, if_true]
    rfl

/-- The service decides as intended on every stream but those that it means to serve. -/
theorem decision_eq_intended_iff (stream : Bytes) (arrival : Chunking stream) :
    decision (receiveRequestLine arrival.chunks) = intended stream ↔ ¬Served stream := by
  have hempty : ([] : Bytes).length ≤ requestSize := Nat.zero_le _
  have hread := readsWithin hempty lineEnd arrival.chunks
  rw [List.nil_append, arrival.flatten_eq] at hread
  unfold receiveRequestLine
  generalize readWithin requestSize lineEnd [] arrival.chunks = read at hread ⊢
  cases hread with
  | @found front rest hwindow hd hfront =>
    have hcr : cr ∈ front := hd.subset (by decide)
    have hline := lineOf_of_prefix hfront hcr
    have hsuccess : onRequestLineReceived .success { new with request := front } =
        readRequestLine { new with request := front } := rfl
    rw [hsuccess, decision_readRequestLine, intended, if_pos hwindow, hline]
    by_cases hmethod : lineMethod (lineOf stream) = ascii "GET"
    · by_cases hversion : lineVersion (lineOf stream) = ascii "HTTP/1.1"
      · simp [hmethod, hversion, Served.mk hwindow hmethod hversion]
      · simpa [hmethod, hversion] using fun h : Served stream => hversion h.version
    · simpa [hmethod] using fun h : Served stream => hmethod h.method
  | full hwindow hlen =>
    simp only [intended, if_neg hwindow, if_pos hlen]
    exact iff_of_true rfl fun h => hwindow h.window
  | ended hwindow hlen =>
    simp only [intended, if_neg hwindow, if_neg (Nat.not_le_of_lt hlen)]
    exact iff_of_true rfl fun h => hwindow h.window

/-- An ordinary request is answered with `505`. -/
theorem ordinaryRequest_refused :
    decision (receiveRequestLine (Chunking.whole (ascii "GET / HTTP/1.1\r\n\r\n")).chunks) =
        .respond 505 ∧
      intended (ascii "GET / HTTP/1.1\r\n\r\n") = .readHeaders (ascii "/") := by
  decide

end BoostAsio.HttpService

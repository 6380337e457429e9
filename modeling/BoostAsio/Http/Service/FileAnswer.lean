import BoostAsio.Http.Service.Agreement

/-!
# Which answer a file gets

Under a path the file system holds nothing, a file that cannot be opened, or a file with
some bytes. The answer that each of them calls for is written out from a status, header
pairs and a body. `ProcessRequest` takes the branch for a missing file when the file is
there, so the answer that goes out is never the one that was called for.
-/

namespace BoostAsio.HttpService

open HttpRequest (HeaderPair encodeHeaders crlf append_cons_inj_of_not_mem)

/-- What the file system holds under a path. -/
inductive Entry
  | absent
  | unreadable
  | readable (bytes : Bytes)
  deriving DecidableEq, Repr

/-- A file system that does not change during a call. -/
abbrev FileSystem := Bytes → Entry

/-- Whether `std::filesystem::exists` finds the entry. -/
def Entry.present : Entry → Bool
  | .absent => false
  | .unreadable | .readable _ => true

/-- What opening and reading the entry gives. -/
def Entry.contents : Entry → Option Bytes
  | .readable bytes => some bytes
  | .absent | .unreadable => none

/-- The answers of a file system. -/
def FileSystem.files (fs : FileSystem) : Files where
  present path := (fs path).present
  contents path := (fs path).contents

/-- The file system is asked for the opposite of existence. -/
def Files.negated (files : Files) : Files := { files with present := (!files.present ·) }

/-- A response by its parts. -/
structure Answer where
  statusCode : UInt32
  headers : List HeaderPair
  body : Bytes

/-- An answer without a body. -/
def Answer.bare (statusCode : UInt32) : Answer := ⟨statusCode, [], []⟩

/-- The bytes of an answer, by the text of its status. -/
def Answer.encode (x : Answer) (statusLine : Bytes) : Bytes :=
  ascii "HTTP/1.1 " ++ statusLine ++ crlf ++ (encodeHeaders x.headers ++ crlf ++ x.body)

/-- The answer that an entry calls for. -/
def Entry.intended : Entry → Answer
  | .absent => .bare 404
  | .unreadable => .bare 500
  | .readable bytes => ⟨200, [contentLength bytes], bytes⟩

/-- The answer that an entry gets. -/
def Entry.given : Entry → Answer
  | .absent => .bare 500
  | .unreadable | .readable _ => .bare 404

/-- `SendResponse` hands exactly this answer to its write. -/
def Sends (s : HttpService) (x : Answer) : Prop :=
  ∃ statusLine s' buffers, httpStatusTable.lookup x.statusCode = some statusLine ∧
    s.sendResponse = some (s', buffers) ∧ buffers.flatten = x.encode statusLine

/-- The path that `ProcessRequest` asks for. -/
def resourcePath (s : HttpService) : Bytes := ascii "./" ++ s.requestedResource

/-- No two statuses have one text, and no text ends a line. -/
theorem statusTable_texts : ∀ p ∈ httpStatusTable, cr ∉ p.2 ∧
    ∀ q ∈ httpStatusTable, p.2 = q.2 → p.1 = q.1 := by
  decide

/-- A text that is found stands in the table. -/
theorem mem_of_lookup_status {code : UInt32} {statusLine : Bytes}
    (h : httpStatusTable.lookup code = some statusLine) :
    (code, statusLine) ∈ httpStatusTable := by
  obtain ⟨before, after, htable, -⟩ := List.lookup_eq_some_iff.mp h
  rw [htable]
  exact List.mem_append_right before (List.mem_cons_self ..)

/-- The status of an answer can be read off the bytes that are sent. -/
theorem Sends.statusCode_eq {s : HttpService} {x y : Answer} (hx : Sends s x) (hy : Sends s y) :
    x.statusCode = y.statusCode := by
  obtain ⟨line, s₁, buffers, hline, hsend, hbytes⟩ := hx
  obtain ⟨line', s₂, buffers', hline', hsend', hbytes'⟩ := hy
  have hmem := mem_of_lookup_status hline
  have hmem' := mem_of_lookup_status hline'
  obtain ⟨-, rfl⟩ := Prod.mk.inj (Option.some.inj (hsend.symm.trans hsend'))
  have hencode := hbytes.symm.trans hbytes'
  simp only [Answer.encode, crlf, List.append_assoc, List.cons_append] at hencode
  obtain ⟨htext, -⟩ := append_cons_inj_of_not_mem (statusTable_texts _ hmem).1
    (statusTable_texts _ hmem').1 (List.append_cancel_left hencode)
  exact (statusTable_texts _ hmem).2 _ hmem' htext

/-- The parts of a response as a handler has left them. -/
def answer (s : HttpService) : Answer := ⟨s.responseStatusCode, s.headerPairs, s.resource⟩

/-- A composed response is sent as the answer of its parts. -/
theorem Composed.sends {s : HttpService} (hs : Composed s) : Sends s s.answer := by
  obtain ⟨reason, -, hlookup⟩ := lookup_status hs.status
  refine ⟨_, s.withHead _, _, hlookup, by rw [HttpService.sendResponse, hlookup]; rfl, ?_⟩
  rw [flatten_responseBuffers]
  change _ ++ (s.responseHeaders ++ ascii "\r\n") ++ s.resource.take s.resourceSizeBytes = _
  rw [hs.size, List.take_length, hs.headers]
  simp [withHead, answer, Answer.encode, HttpRequest.ascii_crlf]

/-- What `ProcessRequest` leaves in each branch. -/
theorem answer_processRequest {s : HttpService} (hs : Unanswered s) (files : Files) :
    (s.processRequest files).answer =
      if files.present s.resourcePath then .bare 404
      else match files.contents s.resourcePath with
        | none => .bare 500
        | some bytes => ⟨200, [contentLength bytes], bytes⟩ := by
  unfold processRequest resourcePath
  by_cases hpresent : files.present (ascii "./" ++ s.requestedResource)
  · simp [hpresent, answer, setStatus, headerPairs, resource, hs.buffer, Answer.bare]
  · cases hcontents : files.contents (ascii "./" ++ s.requestedResource) with
    | none =>
      simp [hpresent, hcontents, answer, setStatus, headerPairs, resource, hs.buffer, Answer.bare]
    | some bytes => simp [hpresent, hcontents, answer, headerPairs, resource, hs.status]

/-- Every entry gets the answer that is given to its branch. -/
theorem Unanswered.sends_given {s : HttpService} (hs : Unanswered s) (fs : FileSystem) :
    Sends (HttpService.processRequest fs.files s) (fs s.resourcePath).given := by
  have hsends := (hs.processRequest fs.files).sends
  rw [answer_processRequest hs] at hsends
  cases he : fs s.resourcePath <;>
    simpa [FileSystem.files, he, Entry.present, Entry.contents, Entry.given] using hsends

/-- With the opposite test every entry gets the answer that it calls for. -/
theorem Unanswered.sends_intended_negated {s : HttpService} (hs : Unanswered s)
    (fs : FileSystem) :
    Sends (HttpService.processRequest fs.files.negated s) (fs s.resourcePath).intended := by
  have hsends := (hs.processRequest fs.files.negated).sends
  rw [answer_processRequest hs] at hsends
  cases he : fs s.resourcePath <;>
    simpa [FileSystem.files, Files.negated, he, Entry.present, Entry.contents,
      Entry.intended] using hsends

/-- No entry is given the status that it calls for. -/
theorem Entry.given_ne_intended (entry : Entry) :
    entry.given.statusCode ≠ entry.intended.statusCode := by
  cases entry with
  | absent => exact (by decide : (500 : UInt32) ≠ 404)
  | unreadable => exact (by decide : (404 : UInt32) ≠ 500)
  | readable bytes => exact (by decide : (404 : UInt32) ≠ 200)

/-- Whatever the file system holds and whatever is requested, the answer is not the one that
the entry calls for. -/
theorem intended_never_sent {s : HttpService} (hs : Unanswered s) (fs : FileSystem) :
    ¬Sends (s.processRequest fs.files) (fs s.resourcePath).intended := by
  intro h
  have hgiven := hs.sends_given fs
  exact Entry.given_ne_intended _ (hgiven.statusCode_eq h)

/-- A file system with one empty file. -/
def emptyFile : FileSystem := fun path => if path = ascii "./a" then .readable [] else .absent

/-- A service whose request line has named a resource. -/
def requesting (requestedResource : Bytes) : HttpService :=
  { new with requestedResource := requestedResource }

theorem Unanswered.requesting (requestedResource : Bytes) :
    Unanswered (requesting requestedResource) := ⟨rfl, rfl, rfl, rfl⟩

/-- A file that is not there is not reported as missing. -/
theorem missingFile_not_reported :
    ¬Sends ((requesting (ascii "b")).processRequest emptyFile.files)
      (emptyFile (requesting (ascii "b")).resourcePath).intended :=
  intended_never_sent (.requesting _) emptyFile

/-- An empty file that is there is reported as missing. -/
theorem emptyFile_refused :
    emptyFile (requesting (ascii "a")).resourcePath = .readable [] ∧
      Sends ((requesting (ascii "a")).processRequest emptyFile.files) (.bare 404) ∧
      ¬Sends ((requesting (ascii "a")).processRequest emptyFile.files)
        (Entry.readable []).intended := by
  have hgiven := (Unanswered.requesting (ascii "a")).sends_given emptyFile
  have hentry : emptyFile (HttpService.requesting (ascii "a")).resourcePath = .readable [] := by
    decide
  rw [hentry] at hgiven
  refine ⟨hentry, hgiven, fun h => ?_⟩
  exact Entry.given_ne_intended (.readable []) (hgiven.statusCode_eq h)

end BoostAsio.HttpService

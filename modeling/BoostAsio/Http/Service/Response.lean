import BoostAsio.Http.Service.RequestLine
import BoostAsio.Http.Service.State

/-!
# The response as a function of the stream

From the start of the first read to the write of the response a connection goes through
two bounded reads that share one buffer. The version of a request line is never read, so
the first handler always decides, and what it decides depends on the first part of the
stream only. The buffers that are written are those of its status.
-/

namespace BoostAsio.HttpService

open BoostAsio.System

/-- The delimiter of the second read. -/
def blankLine : Bytes := ascii "\r\n\r\n"

/-- `SendResponse`, whose shutdown may throw: the buffers that it writes. -/
def written (shutdownThrows : Bool) (s : HttpService) : Option (List Bytes) :=
  if shutdownThrows then none else s.sendResponse.map Prod.snd

/-- What is written at the end of a handler that starts no further read. -/
def answered (shutdownThrows : Bool) (next : HttpService × Next) : Option (List Bytes) :=
  if next.2 = .sendResponse then written shutdownThrows next.1 else none

/-- A connection from `StartHandling` to the write of its response, if there is one; the
header loop may iterate so many times. -/
def serve (fuel : Nat) (shutdownThrows : Bool) (files : Files) (chunks : List Bytes) :
    Option (Option (List Bytes)) :=
  let first := receiveRequestLine chunks
  if first.2 = .readHeaders then
    let rest := (readWithin requestSize lineEnd [] chunks).2.2
    let read := readWithin requestSize blankLine first.1.request rest
    (onHeadersReceived fuel read.1 files { first.1 with request := read.2.1 }).map
      (answered shutdownThrows)
  else some (answered shutdownThrows first)

/-- What the service decides on a stream. -/
def decided (stream : Bytes) : Decision :=
  if lineEnd <:+: stream.take requestSize then
    if lineMethod (lineOf stream) ≠ ascii "GET" then .respond 501 else .respond 505
  else if requestSize ≤ stream.length then .respond 413
  else .close

/-- The buffers of a bare status. -/
def statusBuffers (code : UInt32) : Option (List Bytes) :=
  (httpStatusTable.lookup code).map fun statusLine =>
    [ascii "HTTP/1.1 " ++ statusLine ++ ascii "\r\n", ascii "\r\n"]

/-- What the service writes for a stream. -/
def response (shutdownThrows : Bool) (stream : Bytes) : Option (List Bytes) :=
  match decided stream with
  | .respond code => if shutdownThrows then none else statusBuffers code
  | .close | .readHeaders _ => none

/-- The first handler decides whatever it is given. -/
theorem next_ne_readHeaders (ec : ErrorCode) (s : HttpService) :
    (onRequestLineReceived ec s).2 ≠ .readHeaders := by
  intro h
  unfold onRequestLineReceived at h
  split at h
  · next next hnext =>
    unfold onErrorWithRes at hnext
    split_ifs at hnext <;> cases hnext <;> cases h
  · simp only [readRequestLine] at h
    split at h
    · cases h
    · split at h
      · cases h
      · next hversion => exact hversion (by decide)

/-- The first handler adds nothing to the response. -/
theorem bare_onRequestLineReceived (ec : ErrorCode) (s : HttpService) :
    (onRequestLineReceived ec s).1.responseHeaders = s.responseHeaders ∧
      (onRequestLineReceived ec s).1.resourceSizeBytes = s.resourceSizeBytes := by
  unfold onRequestLineReceived
  split
  · next next hnext =>
    unfold onErrorWithRes at hnext
    split_ifs at hnext <;> cases hnext <;> exact ⟨rfl, rfl⟩
  · simp only [readRequestLine]
    split
    · exact ⟨rfl, rfl⟩
    · split <;> exact ⟨rfl, rfl⟩

/-- What the first handler decides on a stream, however it arrives. -/
theorem decision_receiveRequestLine {stream : Bytes} (arrival : Chunking stream) :
    decision (receiveRequestLine arrival.chunks) = decided stream := by
  have hempty : ([] : Bytes).length ≤ requestSize := Nat.zero_le _
  have hread := readsWithin hempty lineEnd arrival.chunks
  rw [List.nil_append, arrival.flatten_eq] at hread
  unfold receiveRequestLine
  generalize readWithin requestSize lineEnd [] arrival.chunks = read at hread ⊢
  cases hread with
  | @found front rest hwindow hd hfront =>
    have hcr : cr ∈ front := hd.subset (by decide)
    have hline := lineOf_of_prefix hfront hcr
    have hsuccess : onRequestLineReceived .success { new with request := front } =
        readRequestLine { new with request := front } := rfl
    rw [hsuccess, decision_readRequestLine, decided, if_pos hwindow, hline]
  | full hwindow hlen =>
    rw [decided, if_neg hwindow, if_pos hlen]
    rfl
  | ended hwindow hlen =>
    rw [decided, if_neg hwindow, if_neg (Nat.not_le_of_lt hlen)]
    rfl

/-- A response without headers and resource is the one of its status. -/
theorem written_bare {s : HttpService} (hheaders : s.responseHeaders = [])
    (hsize : s.resourceSizeBytes = 0) (shutdownThrows : Bool) :
    written shutdownThrows s =
      if shutdownThrows then none else statusBuffers s.responseStatusCode := by
  unfold written statusBuffers sendResponse
  congr 1
  rw [Option.map_map]
  congr 1
  funext statusLine
  simp [withHead, responseBuffers, hheaders, hsize, ascii]

/-- What is written behind the first handler. -/
theorem answered_receiveRequestLine (shutdownThrows : Bool) {stream : Bytes}
    (arrival : Chunking stream) :
    answered shutdownThrows (receiveRequestLine arrival.chunks) =
      response shutdownThrows stream := by
  have hdecides := decision_receiveRequestLine arrival
  have hnext : (receiveRequestLine arrival.chunks).2 ≠ .readHeaders := next_ne_readHeaders _ _
  obtain ⟨hheaders, hsize⟩ : (receiveRequestLine arrival.chunks).1.responseHeaders = [] ∧
      (receiveRequestLine arrival.chunks).1.resourceSizeBytes = 0 :=
    bare_onRequestLineReceived _ _
  rw [response, ← hdecides]
  generalize receiveRequestLine arrival.chunks = first at hnext hheaders hsize
  obtain ⟨s, next⟩ := first
  cases next with
  | readHeaders => exact absurd rfl hnext
  | sendResponse => exact written_bare hheaders hsize shutdownThrows
  | finish => rfl

/-- A connection is served by its stream alone. -/
theorem serve_eq (fuel : Nat) (shutdownThrows : Bool) (files : Files) {stream : Bytes}
    (arrival : Chunking stream) :
    serve fuel shutdownThrows files arrival.chunks = some (response shutdownThrows stream) := by
  have hnext : (receiveRequestLine arrival.chunks).2 ≠ .readHeaders := next_ne_readHeaders _ _
  rw [serve, if_neg hnext, answered_receiveRequestLine]

/-- Two arrivals of one stream are answered with the same buffers, or both with none. -/
theorem response_chunking_independent (shutdownThrows : Bool) (files : Files) {stream : Bytes}
    (a b : Chunking stream) :
    ∃ response, ∀ fuel, serve fuel shutdownThrows files a.chunks = some response ∧
      serve fuel shutdownThrows files b.chunks = some response :=
  ⟨response shutdownThrows stream, fun fuel => ⟨serve_eq fuel shutdownThrows files a,
    serve_eq fuel shutdownThrows files b⟩⟩

/-- The buffers that a run has handed to a write. -/
def responded (tr : List Event) : List (List Bytes) :=
  tr.filterMap fun e => match e with
    | .responded buffers => some buffers
    | _ => none

/-- The object can come to rest, with no read pending and these buffers written. -/
def Settles (σ : State) (buffers : Option (List Bytes)) : Prop :=
  ∃ ρ tr, Reaches step σ ρ tr ∧ (∀ t, ρ.threads t = .idle) ∧
    (∀ op ∈ ρ.pending, op = .writeResponse) ∧ responded tr = buffers.toList

/-- All threads but one are idle, and nothing is pending. -/
structure OnlyRuns (σ : State) (t : ThreadId) : Prop where
  idle : ∀ u, u ≠ t → σ.threads u = .idle
  pending : σ.pending = []

section

variable {σ τ : State} {t : ThreadId} {l : Label} {es : List Event}
  {buffers : Option (List Bytes)}

theorem OnlyRuns.goto (h : OnlyRuns σ t) (f : Frame) : OnlyRuns (σ.goto t f) t where
  idle u hu := by rw [State.threads_goto, if_neg hu, h.idle u hu]
  pending := h.pending

/-- A step in front of a run that comes to rest. -/
theorem Settles.head (h : Settles τ buffers) (hs : step σ l = some (τ, es))
    (hes : responded es = []) : Settles σ buffers := by
  obtain ⟨ρ, tr, hreach, hidle, hpending, htr⟩ := h
  refine ⟨ρ, es ++ tr, hreach.head hs, hidle, hpending, ?_⟩
  rw [responded, List.filterMap_append]
  exact (congrArg (· ++ responded tr) hes).trans htr

/-- A last step of the only thread, which leaves at most a write pending. -/
theorem settles_of_last (h : OnlyRuns σ t) (hs : step σ l = some (τ, es))
    (hthreads : ∀ u, τ.threads u = if u = t then .idle else σ.threads u)
    (hpending : ∀ op ∈ τ.pending, op = .writeResponse) (hes : responded es = buffers.toList) :
    Settles σ buffers := by
  refine ⟨τ, es, ⟨[l], ?_⟩, fun u => ?_, hpending, hes⟩
  · exact exec_cons.mpr ⟨τ, es, [], hs, rfl, by rw [List.append_nil]⟩
  · rw [hthreads]
    split
    · rfl
    · next hu => exact h.idle u hu

theorem settles_onFinish (h : OnlyRuns σ t) (ht : σ.threads t = .onFinish) (files : Files) :
    Settles σ none := by
  have hs : step σ (.run t 0 files) = some (σ.delete.goto t .idle, [.deleted]) := by
    rw [step, ht]
    rfl
  refine settles_of_last h hs (fun u => by simp) (fun op hop => ?_) rfl
  rw [State.pending_goto, State.pending_delete, h.pending] at hop
  cases hop

theorem settles_sendResponse (h : OnlyRuns σ t) (ht : σ.threads t = .sendResponse)
    (files : Files) : Settles σ (σ.service.sendResponse.map Prod.snd) := by
  cases hsend : σ.service.sendResponse with
  | none =>
    have hs : step σ (.run t 0 files) = some (σ.goto t .idle, [.lookupFailed]) := by
      rw [step, ht, advance, hsend]
    refine settles_of_last h hs (fun u => by simp) (fun op hop => ?_) rfl
    rw [State.pending_goto, h.pending] at hop
    cases hop
  | some next =>
    have hs : step σ (.run t 0 files) =
        some (((σ.withService next.1).start .writeResponse).goto t .idle,
          [.responded next.2]) := by
      rw [step, ht, advance, hsend]
    refine settles_of_last h hs (fun u => by simp) (fun op hop => ?_) rfl
    rw [State.pending_goto, State.pending_start, State.pending_withService, h.pending] at hop
    exact List.mem_singleton.mp hop

theorem settles_sendShutdown (h : OnlyRuns σ t) (ht : σ.threads t = .sendShutdown)
    (shutdownThrows : Bool) (files : Files) : Settles σ (written shutdownThrows σ.service) := by
  cases shutdownThrows with
  | true =>
    have hs : step σ (.shutdownThrows t) = some (σ.goto t .idle, [.thrown]) := by
      simp [step, ht]
    refine settles_of_last h hs (fun u => by simp) (fun op hop => ?_) rfl
    rw [State.pending_goto, h.pending] at hop
    cases hop
  | false =>
    have hs : step σ (.run t 0 files) = some (σ.goto t .sendResponse, []) := by
      rw [step, ht]
      rfl
    exact (settles_sendResponse (h.goto .sendResponse) (by simp) files).head hs rfl

/-- Behind a handler that starts no read the object writes what is answered. -/
theorem settles_proceed (h : OnlyRuns σ t) (shutdownThrows : Bool) (files : Files)
    {next : HttpService × Next} (hnext : next.2 ≠ .readHeaders) :
    Settles (proceed σ t next).1 (answered shutdownThrows next) := by
  obtain ⟨s, next⟩ := next
  have hs : OnlyRuns (σ.withService s) t := ⟨h.idle, h.pending⟩
  cases next with
  | readHeaders => exact absurd rfl hnext
  | sendResponse =>
    have ht : ((σ.withService s).goto t .sendShutdown).threads t = .sendShutdown := by simp
    exact settles_sendShutdown (hs.goto .sendShutdown) ht shutdownThrows files
  | finish =>
    have ht : ((σ.withService s).goto t .onFinish).threads t = .onFinish := by simp
    exact settles_onFinish (hs.goto .onFinish) ht files

/-- The body of a handler writes nothing. -/
theorem responded_proceed (σ : State) (t : ThreadId) (next : HttpService × Next) :
    responded (proceed σ t next).2 = [] := by
  obtain ⟨s, next⟩ := next
  cases next <;> rfl

end

/-- The object serves every connection as the composition of its reads and handlers does. -/
theorem startHandling_settles (shutdownThrows : Bool) (files : Files) {stream : Bytes}
    (arrival : Chunking stream) :
    Settles .startHandling (response shutdownThrows stream) := by
  let read := readWithin requestSize lineEnd [] arrival.chunks
  let received : State :=
    (State.startHandling.withService { new with request := read.2.1 }).take .readRequestLine
  have hnext : (receiveRequestLine arrival.chunks).2 ≠ .readHeaders := next_ne_readHeaders _ _
  have hruns : OnlyRuns (received.goto 0 (.handler .readRequestLine read.1)) 0 :=
    ⟨fun u hu => by simp [hu]; rfl, rfl⟩
  have hsettles := settles_proceed hruns shutdownThrows files hnext
  rw [answered_receiveRequestLine] at hsettles
  have hhandler : step (received.goto 0 (.handler .readRequestLine read.1)) (.run 0 0 files) =
      some (proceed (received.goto 0 (.handler .readRequestLine read.1)) 0
        (receiveRequestLine arrival.chunks)) := rfl
  have hdeliver : step .startHandling (.deliver 0 .readRequestLine read.1 read.2.1) =
      some (received.goto 0 (.handler .readRequestLine read.1),
        [.delivered .readRequestLine read.1]) := rfl
  exact (hsettles.head hhandler (responded_proceed _ _ _)).head hdeliver rfl

end BoostAsio.HttpService

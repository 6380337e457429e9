import BoostAsio.Core.System.Run
import BoostAsio.Http.Service.Handlers

/-!
# HttpService: the object and its handlers

The service waits for the completion of an operation on its socket, or some thread stands
at one point of a handler or of `SendResponse`. Nothing in the code keeps two handlers
apart, so any idle thread may run the handler of whatever is pending. The calls that can
throw are the two shutdowns and `ProcessRequest`; an exception leaves the handler at once.
-/

namespace BoostAsio.HttpService

/-- The threads that run handlers. -/
abbrev ThreadId := Nat

/-- The asynchronous operations of a service. -/
inductive Operation
  | readRequestLine | readHeaders | writeResponse
  deriving DecidableEq, Repr

/-- What a thread is about to do. -/
inductive Frame
  | idle
  | handler (op : Operation) (ec : ErrorCode)
  /-- `SendResponse`, at its shutdown. -/
  | sendShutdown
  /-- The rest of `SendResponse`. -/
  | sendResponse
  /-- `OnResponseSent`, at its shutdown. -/
  | sentShutdown
  | onFinish
  deriving DecidableEq, Repr

/-- The service and the threads that run its handlers. -/
structure State where
  service : HttpService
  /-- The operations that Asio has still to complete. -/
  pending : List Operation
  /-- How often `delete this` was executed. -/
  deletions : Nat
  threads : ThreadId → Frame

/-- What a step makes visible. -/
inductive Event
  | started (op : Operation)
  | delivered (op : Operation) (ec : ErrorCode)
  /-- A response was handed to `async_write`. -/
  | responded (buffers : List Bytes)
  /-- `http_status_table.at` has thrown. -/
  | lookupFailed
  /-- Another call has thrown. -/
  | thrown
  | deleted
  deriving DecidableEq, Repr

/-- The choices of the scheduler, of Asio and of the operating system. -/
inductive Label
  /-- Asio completes an operation and a thread runs its handler. -/
  | deliver (t : ThreadId) (op : Operation) (ec : ErrorCode) (received : Bytes)
  /-- A thread takes its next step; the header loop may iterate so many times, and the file
  system answers so. -/
  | run (t : ThreadId) (fuel : Nat) (files : Files)
  /-- The shutdown that a thread stands at throws. -/
  | shutdownThrows (t : ThreadId)
  /-- `ProcessRequest` throws behind the header loop. -/
  | processThrows (t : ThreadId) (fuel : Nat)

/-- Whether a call of a handler fails with an exception. -/
def Label.throws : Label → Bool
  | .shutdownThrows _ | .processThrows _ _ => true
  | .deliver _ _ _ _ | .run _ _ _ => false

namespace State

/-- Move one thread to another point. -/
def goto (σ : State) (t : ThreadId) (f : Frame) : State :=
  { σ with threads := Function.update σ.threads t f }

/-- Start an operation. -/
def start (σ : State) (op : Operation) : State := { σ with pending := σ.pending ++ [op] }

/-- Take an operation from Asio. -/
def take (σ : State) (op : Operation) : State := { σ with pending := σ.pending.erase op }

/-- Change the members of the service. -/
def withService (σ : State) (s : HttpService) : State := { σ with service := s }

/-- `delete this`. -/
def delete (σ : State) : State := { σ with deletions := σ.deletions + 1 }

/-- A service whose `StartHandling` has been called. -/
def startHandling : State := start ⟨.new, [], 0, fun _ => .idle⟩ .readRequestLine

end State

/-- What a completed read has appended to `m_request`. -/
def receive (s : HttpService) (op : Operation) (received : Bytes) : HttpService :=
  if op = .writeResponse then s else { s with request := s.request ++ received }

/-- The handlers of the two reads. -/
def handle (fuel : Nat) (files : Files) (op : Operation) (ec : ErrorCode) (s : HttpService) :
    Option (HttpService × Next) :=
  match op with
  | .readRequestLine => some (onRequestLineReceived ec s)
  | .readHeaders => onHeadersReceived fuel ec files s
  | .writeResponse => none

/-- How a thread goes on behind the body of a handler. -/
def proceed (σ : State) (t : ThreadId) : HttpService × Next → State × List Event
  | (s, .readHeaders) =>
    (((σ.withService s).start .readHeaders).goto t .idle, [.started .readHeaders])
  | (s, .sendResponse) => ((σ.withService s).goto t .sendShutdown, [])
  | (s, .finish) => ((σ.withService s).goto t .onFinish, [])

/-- One step of a thread from its point. -/
def advance (fuel : Nat) (files : Files) (σ : State) (t : ThreadId) :
    Frame → Option (State × List Event)
  | .idle => none
  | .handler op ec =>
    if op = .writeResponse then some (σ.goto t .sentShutdown, [])
    else (handle fuel files op ec σ.service).map (proceed σ t)
  | .sendShutdown => some (σ.goto t .sendResponse, [])
  | .sendResponse =>
    match σ.service.sendResponse with
    | some (s, buffers) =>
      some (((σ.withService s).start .writeResponse).goto t .idle, [.responded buffers])
    | none => some (σ.goto t .idle, [.lookupFailed])
  | .sentShutdown => some (σ.goto t .onFinish, [])
  | .onFinish => some (σ.delete.goto t .idle, [.deleted])

/-- One choice. -/
def step (σ : State) : Label → Option (State × List Event)
  | .deliver t op ec received =>
    if σ.threads t = .idle ∧ op ∈ σ.pending then
      some (((σ.withService (receive σ.service op received)).take op).goto t (.handler op ec),
        [.delivered op ec])
    else none
  | .run t fuel files => advance fuel files σ t (σ.threads t)
  | .shutdownThrows t =>
    if σ.threads t = .sendShutdown ∨ σ.threads t = .sentShutdown then
      some (σ.goto t .idle, [.thrown])
    else none
  | .processThrows t fuel =>
    match σ.threads t with
    | .handler .readHeaders ec =>
      if ec.value = 0 then
        (readHeaders fuel σ.service).map fun s => ((σ.withService s).goto t .idle, [.thrown])
      else none
    | _ => none

/-- A run of a service from its `StartHandling`. -/
abbrev Run (labels : List Label) (σ : State) (tr : List Event) : Prop :=
  System.exec step State.startHandling labels = some (σ, tr)

namespace State

variable (σ : State) (t u : ThreadId) (f : Frame) (op : Operation) (s : HttpService)

@[simp] theorem threads_goto :
    (σ.goto t f).threads u = if u = t then f else σ.threads u := Function.update_apply ..
@[simp] theorem pending_goto : (σ.goto t f).pending = σ.pending := rfl
@[simp] theorem deletions_goto : (σ.goto t f).deletions = σ.deletions := rfl
@[simp] theorem service_goto : (σ.goto t f).service = σ.service := rfl

@[simp] theorem threads_start : (σ.start op).threads u = σ.threads u := rfl
@[simp] theorem pending_start : (σ.start op).pending = σ.pending ++ [op] := rfl
@[simp] theorem deletions_start : (σ.start op).deletions = σ.deletions := rfl
@[simp] theorem service_start : (σ.start op).service = σ.service := rfl

@[simp] theorem threads_take : (σ.take op).threads u = σ.threads u := rfl
@[simp] theorem pending_take : (σ.take op).pending = σ.pending.erase op := rfl
@[simp] theorem deletions_take : (σ.take op).deletions = σ.deletions := rfl
@[simp] theorem service_take : (σ.take op).service = σ.service := rfl

@[simp] theorem threads_withService : (σ.withService s).threads u = σ.threads u := rfl
@[simp] theorem pending_withService : (σ.withService s).pending = σ.pending := rfl
@[simp] theorem deletions_withService : (σ.withService s).deletions = σ.deletions := rfl
@[simp] theorem service_withService : (σ.withService s).service = s := rfl

@[simp] theorem threads_delete : σ.delete.threads u = σ.threads u := rfl
@[simp] theorem pending_delete : σ.delete.pending = σ.pending := rfl
@[simp] theorem deletions_delete : σ.delete.deletions = σ.deletions + 1 := rfl
@[simp] theorem service_delete : σ.delete.service = σ.service := rfl

end State

/-- Every executable step. -/
inductive Step (σ : State) : Label → State → List Event → Prop
  | deliver {t op ec received} (ht : σ.threads t = .idle) (hop : op ∈ σ.pending) :
      Step σ (.deliver t op ec received)
        (((σ.withService (receive σ.service op received)).take op).goto t (.handler op ec))
        [.delivered op ec]
  | readHeaders {t fuel files op ec s} (ht : σ.threads t = .handler op ec)
      (hop : op ≠ .writeResponse)
      (hs : handle fuel files op ec σ.service = some (s, .readHeaders)) :
      Step σ (.run t fuel files) (((σ.withService s).start .readHeaders).goto t .idle)
        [.started .readHeaders]
  | respond {t fuel files op ec s} (ht : σ.threads t = .handler op ec)
      (hop : op ≠ .writeResponse)
      (hs : handle fuel files op ec σ.service = some (s, .sendResponse)) :
      Step σ (.run t fuel files) ((σ.withService s).goto t .sendShutdown) []
  | close {t fuel files op ec s} (ht : σ.threads t = .handler op ec) (hop : op ≠ .writeResponse)
      (hs : handle fuel files op ec σ.service = some (s, .finish)) :
      Step σ (.run t fuel files) ((σ.withService s).goto t .onFinish) []
  | responseSent {t fuel files ec} (ht : σ.threads t = .handler .writeResponse ec) :
      Step σ (.run t fuel files) (σ.goto t .sentShutdown) []
  | sendShutdown {t fuel files} (ht : σ.threads t = .sendShutdown) :
      Step σ (.run t fuel files) (σ.goto t .sendResponse) []
  | sendResponse {t fuel files s buffers} (ht : σ.threads t = .sendResponse)
      (hs : σ.service.sendResponse = some (s, buffers)) :
      Step σ (.run t fuel files) (((σ.withService s).start .writeResponse).goto t .idle)
        [.responded buffers]
  | lookupFails {t fuel files} (ht : σ.threads t = .sendResponse)
      (hs : σ.service.sendResponse = none) :
      Step σ (.run t fuel files) (σ.goto t .idle) [.lookupFailed]
  | sentShutdown {t fuel files} (ht : σ.threads t = .sentShutdown) :
      Step σ (.run t fuel files) (σ.goto t .onFinish) []
  | onFinish {t fuel files} (ht : σ.threads t = .onFinish) :
      Step σ (.run t fuel files) (σ.delete.goto t .idle) [.deleted]
  | shutdownThrows {t} (ht : σ.threads t = .sendShutdown ∨ σ.threads t = .sentShutdown) :
      Step σ (.shutdownThrows t) (σ.goto t .idle) [.thrown]
  | processThrows {t fuel ec s} (ht : σ.threads t = .handler .readHeaders ec)
      (hec : ec.value = 0) (hs : HttpService.readHeaders fuel σ.service = some s) :
      Step σ (.processThrows t fuel) ((σ.withService s).goto t .idle) [.thrown]

/-- The executable step does nothing else. -/
theorem step_cases {σ σ' : State} {l : Label} {es : List Event}
    (h : step σ l = some (σ', es)) : Step σ l σ' es := by
  cases l with
  | deliver t op ec received =>
    simp only [step, Option.ite_none_right_eq_some] at h
    obtain ⟨⟨ht, hop⟩, h⟩ := h
    cases h
    exact .deliver ht hop
  | run t fuel files =>
    cases ht : σ.threads t with
    | idle => simp [step, ht, advance] at h
    | handler op ec =>
      simp only [step, ht, advance] at h
      by_cases hop : op = .writeResponse
      · subst hop
        cases h
        exact .responseSent ht
      · rw [if_neg hop] at h
        obtain ⟨⟨s, next⟩, hs, he⟩ := Option.map_eq_some_iff.mp h
        cases next <;> cases he
        · exact .readHeaders ht hop hs
        · exact .respond ht hop hs
        · exact .close ht hop hs
    | sendShutdown =>
      simp only [step, ht, advance] at h
      cases h
      exact .sendShutdown ht
    | sendResponse =>
      simp only [step, ht, advance] at h
      split at h
      · next s buffers hs => cases h; exact .sendResponse ht hs
      · next hs => cases h; exact .lookupFails ht hs
    | sentShutdown =>
      simp only [step, ht, advance] at h
      cases h
      exact .sentShutdown ht
    | onFinish =>
      simp only [step, ht, advance] at h
      cases h
      exact .onFinish ht
  | shutdownThrows t =>
    simp only [step, Option.ite_none_right_eq_some] at h
    obtain ⟨ht, h⟩ := h
    cases h
    exact .shutdownThrows ht
  | processThrows t fuel =>
    simp only [step] at h
    split at h
    · next ec ht =>
      simp only [Option.ite_none_right_eq_some] at h
      obtain ⟨hec, h⟩ := h
      obtain ⟨s, hs, he⟩ := Option.map_eq_some_iff.mp h
      cases he
      exact .processThrows ht hec hs
    · cases h

end BoostAsio.HttpService

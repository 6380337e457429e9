import BoostAsio.Core.Channel
import BoostAsio.Core.ErrorCode
import BoostAsio.Core.Stream.IStream
import BoostAsio.Core.System.Run

/-!
# Client and server that read to the end of the stream

`Communicate` writes its request, shuts its sending side down and reads to the end;
`ProcessRequest` reads to the end, writes its response and shuts its sending side down. Each
direction carries one text. The request is closed before its sender waits, so the two never wait
for each other.
-/

namespace BoostAsio.HalfClose

open BoostAsio.System

/-- Where `Communicate` is. -/
inductive ClientPoint
  | write (rest : Bytes)
  | shutdownSend
  | read
  | processing
  | threw (ec : ErrorCode)
  deriving DecidableEq

/-- Where `ProcessRequest` is. -/
inductive ServerPoint
  | read
  | write (rest : Bytes)
  | shutdownSend
  | returned
  | threw (ec : ErrorCode)
  deriving DecidableEq

/-- Both programs, with their stream buffers and the two directions of the connection. -/
structure State where
  client : ClientPoint
  server : ServerPoint
  responseBuf : Bytes
  requestBuf : Bytes
  requests : Channel UInt8
  responses : Channel UInt8

/-- What the socket of a party does next. -/
inductive Action
  | write (n : Nat)
  | shutdown
  | receive (n : Nat)
  | endRead

/-- The next action of one of the parties. -/
inductive Label
  | client (a : Action)
  | server (a : Action)

/-- A read has completed with `eof`: what its buffer holds then, and what the peer has written. -/
inductive Event
  | requestRead (buf written : Bytes)
  | responseRead (buf written : Bytes)
  deriving DecidableEq

/-- `asio::write` of an array goes on until all of it is written. -/
def ClientPoint.writing (rest : Bytes) : ClientPoint :=
  if rest = [] then .shutdownSend else .write rest

def ServerPoint.writing (rest : Bytes) : ServerPoint :=
  if rest = [] then .shutdownSend else .write rest

/-- `Communicate` behind its `asio::read`. -/
def responseReceived (ec : ErrorCode) : ClientPoint :=
  if ec = .eof then .processing else .threw ec

/-- `ProcessRequest` behind its `asio::read`. -/
def requestReceived (response : Bytes) (ec : ErrorCode) : ServerPoint :=
  if ec ≠ .eof then .threw ec else .writing response

/-- The connection is accepted: `Communicate` begins with its write, `ProcessRequest` with its
read. -/
def start (request : Bytes) : State :=
  ⟨.writing request, .read, [], [], .empty, .empty⟩

/-- `Communicate`. -/
def clientStep (σ : State) : Action → Option (State × List Event)
  | .write n =>
    match σ.client with
    | .write rest =>
      if 0 < n ∧ n ≤ rest.length then
        (σ.requests.send (rest.take n)).map fun c =>
          ({ σ with requests := c, client := .writing (rest.drop n) }, [])
      else none
    | _ => none
  | .shutdown =>
    match σ.client with
    | .shutdownSend => some ({ σ with requests := σ.requests.close, client := .read }, [])
    | _ => none
  | .receive n =>
    match σ.client with
    | .read =>
      (σ.responses.deliver n).map fun (piece, c) =>
        ({ σ with responses := c, responseBuf := σ.responseBuf ++ piece }, [])
    | _ => none
  | .endRead =>
    match σ.client with
    | .read =>
      σ.responses.finish.map fun c =>
        ({ σ with responses := c, client := responseReceived .eof },
          [.responseRead σ.responseBuf σ.responses.written])
    | _ => none

/-- `ProcessRequest`. -/
def serverStep (response : Bytes) (σ : State) : Action → Option (State × List Event)
  | .receive n =>
    match σ.server with
    | .read =>
      (σ.requests.deliver n).map fun (piece, c) =>
        ({ σ with requests := c, requestBuf := σ.requestBuf ++ piece }, [])
    | _ => none
  | .endRead =>
    match σ.server with
    | .read =>
      σ.requests.finish.map fun c =>
        ({ σ with requests := c, server := requestReceived response .eof },
          [.requestRead σ.requestBuf σ.requests.written])
    | _ => none
  | .write n =>
    match σ.server with
    | .write rest =>
      if 0 < n ∧ n ≤ rest.length then
        (σ.responses.send (rest.take n)).map fun c =>
          ({ σ with responses := c, server := .writing (rest.drop n) }, [])
      else none
    | _ => none
  | .shutdown =>
    match σ.server with
    | .shutdownSend => some ({ σ with responses := σ.responses.close, server := .returned }, [])
    | _ => none

/-- One step of either program. -/
def step (response : Bytes) (σ : State) : Label → Option (State × List Event)
  | .client a => clientStep σ a
  | .server a => serverStep response σ a

/-- Both parties wait for input, and neither bytes nor an end of stream are on their way. -/
def State.Stuck (σ : State) : Prop :=
  σ.client = .read ∧ σ.server = .read ∧ σ.requests.Silent ∧ σ.responses.Silent

/-- The steps with everything that enables them. -/
inductive Step (response : Bytes) : State → Label → State → List Event → Prop
  | clientWrite {σ : State} {n : Nat} {rest : Bytes} {c : Channel UInt8}
      (hpoint : σ.client = .write rest) (hsend : σ.requests.send (rest.take n) = some c) :
      Step response σ (.client (.write n))
        { σ with requests := c, client := .writing (rest.drop n) } []
  | clientShutdown {σ : State} (hpoint : σ.client = .shutdownSend) :
      Step response σ (.client .shutdown)
        { σ with requests := σ.requests.close, client := .read } []
  | clientReceive {σ : State} {n : Nat} {piece : Bytes} {c : Channel UInt8}
      (hpoint : σ.client = .read) (hdeliver : σ.responses.deliver n = some (piece, c)) :
      Step response σ (.client (.receive n))
        { σ with responses := c, responseBuf := σ.responseBuf ++ piece } []
  | clientEnd {σ : State} {c : Channel UInt8} (hpoint : σ.client = .read)
      (hfinish : σ.responses.finish = some c) :
      Step response σ (.client .endRead) { σ with responses := c, client := .processing }
        [.responseRead σ.responseBuf σ.responses.written]
  | serverReceive {σ : State} {n : Nat} {piece : Bytes} {c : Channel UInt8}
      (hpoint : σ.server = .read) (hdeliver : σ.requests.deliver n = some (piece, c)) :
      Step response σ (.server (.receive n))
        { σ with requests := c, requestBuf := σ.requestBuf ++ piece } []
  | serverEnd {σ : State} {c : Channel UInt8} (hpoint : σ.server = .read)
      (hfinish : σ.requests.finish = some c) :
      Step response σ (.server .endRead)
        { σ with requests := c, server := .writing response }
        [.requestRead σ.requestBuf σ.requests.written]
  | serverWrite {σ : State} {n : Nat} {rest : Bytes} {c : Channel UInt8}
      (hpoint : σ.server = .write rest) (hsend : σ.responses.send (rest.take n) = some c) :
      Step response σ (.server (.write n))
        { σ with responses := c, server := .writing (rest.drop n) } []
  | serverShutdown {σ : State} (hpoint : σ.server = .shutdownSend) :
      Step response σ (.server .shutdown)
        { σ with responses := σ.responses.close, server := .returned } []

section

variable {request response : Bytes} {σ σ' : State} {l : Label} {es tr : List Event}

theorem clientStep_cases {a : Action} (h : clientStep σ a = some (σ', es)) :
    Step response σ (.client a) σ' es := by
  cases a with
  | write n =>
    simp only [clientStep] at h
    split at h
    · next rest hpoint =>
      split at h
      · obtain ⟨c, hsend, h⟩ := Option.map_eq_some_iff.mp h
        obtain ⟨rfl, rfl⟩ := Prod.mk.inj h
        exact .clientWrite hpoint hsend
      · cases h
    · cases h
  | shutdown =>
    simp only [clientStep] at h
    split at h
    · next hpoint =>
      obtain ⟨rfl, rfl⟩ := Prod.mk.inj (Option.some.inj h)
      exact .clientShutdown hpoint
    · cases h
  | receive n =>
    simp only [clientStep] at h
    split at h
    · next hpoint =>
      obtain ⟨⟨piece, c⟩, hdeliver, h⟩ := Option.map_eq_some_iff.mp h
      obtain ⟨rfl, rfl⟩ := Prod.mk.inj h
      exact .clientReceive hpoint hdeliver
    · cases h
  | endRead =>
    simp only [clientStep] at h
    split at h
    · next hpoint =>
      obtain ⟨c, hfinish, h⟩ := Option.map_eq_some_iff.mp h
      obtain ⟨rfl, rfl⟩ := Prod.mk.inj h
      exact .clientEnd hpoint hfinish
    · cases h

theorem serverStep_cases {a : Action} (h : serverStep response σ a = some (σ', es)) :
    Step response σ (.server a) σ' es := by
  cases a with
  | receive n =>
    simp only [serverStep] at h
    split at h
    · next hpoint =>
      obtain ⟨⟨piece, c⟩, hdeliver, h⟩ := Option.map_eq_some_iff.mp h
      obtain ⟨rfl, rfl⟩ := Prod.mk.inj h
      exact .serverReceive hpoint hdeliver
    · cases h
  | endRead =>
    simp only [serverStep] at h
    split at h
    · next hpoint =>
      obtain ⟨c, hfinish, h⟩ := Option.map_eq_some_iff.mp h
      obtain ⟨rfl, rfl⟩ := Prod.mk.inj h
      exact .serverEnd hpoint hfinish
    · cases h
  | write n =>
    simp only [serverStep] at h
    split at h
    · next rest hpoint =>
      split at h
      · obtain ⟨c, hsend, h⟩ := Option.map_eq_some_iff.mp h
        obtain ⟨rfl, rfl⟩ := Prod.mk.inj h
        exact .serverWrite hpoint hsend
      · cases h
    · cases h
  | shutdown =>
    simp only [serverStep] at h
    split at h
    · next hpoint =>
      obtain ⟨rfl, rfl⟩ := Prod.mk.inj (Option.some.inj h)
      exact .serverShutdown hpoint
    · cases h

/-- The step function makes only these steps. -/
theorem step_cases (h : step response σ l = some (σ', es)) : Step response σ l σ' es := by
  cases l with
  | client a => exact clientStep_cases h
  | server a => exact serverStep_cases h

/-- What `Communicate` has left to write, until it has shut its sending side down. -/
def ClientPoint.unsent : ClientPoint → Option Bytes
  | .write rest => some rest
  | .shutdownSend => some []
  | .read | .processing | .threw _ => none

/-- The read of `Communicate` has completed. -/
def ClientPoint.finished : ClientPoint → Bool
  | .write _ | .shutdownSend | .read => false
  | .processing | .threw _ => true

/-- What `ProcessRequest` has left to write, until it has shut its sending side down. -/
def ServerPoint.unsent (response : Bytes) : ServerPoint → Option Bytes
  | .read | .threw _ => some response
  | .write rest => some rest
  | .shutdownSend => some []
  | .returned => none

/-- The read of `ProcessRequest` has completed. -/
def ServerPoint.finished : ServerPoint → Bool
  | .read => false
  | .write _ | .shutdownSend | .returned | .threw _ => true

@[simp] theorem ClientPoint.unsent_writing (rest : Bytes) :
    (ClientPoint.writing rest).unsent = some rest := by
  by_cases h : rest = [] <;> simp [writing, unsent, h]

@[simp] theorem ClientPoint.finished_writing (rest : Bytes) :
    (ClientPoint.writing rest).finished = false := by
  by_cases h : rest = [] <;> simp [writing, finished, h]

@[simp] theorem ServerPoint.unsent_writing (response rest : Bytes) :
    (ServerPoint.writing rest).unsent response = some rest := by
  by_cases h : rest = [] <;> simp [writing, unsent, h]

@[simp] theorem ServerPoint.finished_writing (rest : Bytes) :
    (ServerPoint.writing rest).finished = true := by
  by_cases h : rest = [] <;> simp [writing, finished, h]

/-- Each direction carries the text of its sender. -/
structure Exchange (request response : Bytes) (σ : State) : Prop where
  requests : σ.requests.Carries request σ.client.unsent σ.requestBuf σ.server.finished
  responses : σ.responses.Carries response (σ.server.unsent response) σ.responseBuf
    σ.client.finished

/-- The completed read has the whole text, which is what the peer had written. -/
def Event.Complete (request response : Bytes) : Event → Prop
  | .requestRead buf written => buf = request ∧ written = request
  | .responseRead buf written => buf = response ∧ written = response

theorem Exchange.start (request response : Bytes) :
    Exchange request response (start request) where
  requests := by
    simp only [HalfClose.start, ClientPoint.unsent_writing]
    exact Channel.carries_empty request
  responses := by
    simp only [HalfClose.start, ClientPoint.finished_writing]
    exact Channel.carries_empty response

/-- Every step keeps both directions in order. -/
theorem Exchange.step (hi : Exchange request response σ) (h : Step response σ l σ' es) :
    Exchange request response σ' ∧ ∀ e ∈ es, e.Complete request response := by
  obtain ⟨hrequests, hresponses⟩ := hi
  cases h with
  | clientWrite hpoint hsend =>
    rw [hpoint] at hrequests hresponses
    refine ⟨⟨?_, ?_⟩, nofun⟩
    · rw [ClientPoint.unsent_writing]
      exact hrequests.send hsend
    · rw [ClientPoint.finished_writing]
      exact hresponses
  | clientShutdown hpoint =>
    rw [hpoint] at hrequests hresponses
    exact ⟨⟨hrequests.close, hresponses⟩, nofun⟩
  | clientReceive hpoint hdeliver =>
    exact ⟨⟨hrequests, hresponses.deliver hdeliver⟩, nofun⟩
  | clientEnd hpoint hfinish =>
    rw [hpoint] at hrequests
    obtain ⟨hbuf, hwritten, hended⟩ := hresponses.finish hfinish
    refine ⟨⟨hrequests, hended⟩, fun e he => ?_⟩
    rw [List.mem_singleton.mp he]
    exact ⟨hbuf, hwritten⟩
  | serverReceive hpoint hdeliver =>
    exact ⟨⟨hrequests.deliver hdeliver, hresponses⟩, nofun⟩
  | serverEnd hpoint hfinish =>
    rw [hpoint] at hresponses
    obtain ⟨hbuf, hwritten, hended⟩ := hrequests.finish hfinish
    refine ⟨⟨?_, ?_⟩, fun e he => ?_⟩
    · rw [ServerPoint.finished_writing]
      exact hended
    · rw [ServerPoint.unsent_writing]
      exact hresponses
    · rw [List.mem_singleton.mp he]
      exact ⟨hbuf, hwritten⟩
  | serverWrite hpoint hsend =>
    rw [hpoint] at hrequests hresponses
    refine ⟨⟨?_, ?_⟩, nofun⟩
    · rw [ServerPoint.finished_writing]
      exact hrequests
    · rw [ServerPoint.unsent_writing]
      exact hresponses.send hsend
  | serverShutdown hpoint =>
    rw [hpoint] at hrequests hresponses
    exact ⟨⟨hrequests, hresponses.close⟩, nofun⟩

/-- Every run does, and its completed reads have the whole texts. -/
theorem exchange_of_exec {labels : List Label}
    (h : exec (step response) (start request) labels = some (σ, tr)) :
    Exchange request response σ ∧ ∀ e ∈ tr, e.Complete request response := by
  refine exec_induction
    (P := fun _ σ tr => Exchange request response σ ∧ ∀ e ∈ tr, e.Complete request response)
    ⟨.start request response, nofun⟩ ?_ h
  intro labels σ tr l σ' es _ ih hstep
  obtain ⟨hexchange, hevents⟩ := ih.1.step (step_cases hstep)
  refine ⟨hexchange, fun e he => ?_⟩
  rcases List.mem_append.mp he with he | he
  · exact ih.2 e he
  · exact hevents e he

/-- The request is closed before its sender waits for the response. -/
theorem Exchange.not_stuck (hi : Exchange request response σ) : ¬σ.Stuck := by
  rintro ⟨hclient, hserver, hsilent, -⟩
  have hrequests := hi.requests
  rw [hclient, hserver] at hrequests
  exact hrequests.not_silent hsilent

/-- A write has something left, and nothing was thrown. -/
structure Tidy (σ : State) : Prop where
  client_write : ∀ rest, σ.client = .write rest → rest ≠ []
  server_write : ∀ rest, σ.server = .write rest → rest ≠ []
  client_calm : ∀ ec, σ.client ≠ .threw ec
  server_calm : ∀ ec, σ.server ≠ .threw ec

theorem ClientPoint.writing_tidy (rest : Bytes) :
    (∀ r, ClientPoint.writing rest = .write r → r ≠ []) ∧
      ∀ ec, ClientPoint.writing rest ≠ .threw ec := by
  unfold ClientPoint.writing
  split
  · exact ⟨nofun, by simp⟩
  · next hrest =>
    refine ⟨fun r hr => ?_, by simp⟩
    rwa [← ClientPoint.write.inj hr]

theorem ServerPoint.writing_tidy (rest : Bytes) :
    (∀ r, ServerPoint.writing rest = .write r → r ≠ []) ∧
      ∀ ec, ServerPoint.writing rest ≠ .threw ec := by
  unfold ServerPoint.writing
  split
  · exact ⟨nofun, by simp⟩
  · next hrest =>
    refine ⟨fun r hr => ?_, by simp⟩
    rwa [← ServerPoint.write.inj hr]

theorem Tidy.step (hi : Tidy σ) (h : Step response σ l σ' es) : Tidy σ' := by
  obtain ⟨hclient, hserver, hcalm, hcalm'⟩ := hi
  cases h with
  | @clientWrite n rest =>
    obtain ⟨hwrite, hthrew⟩ := ClientPoint.writing_tidy (rest.drop n)
    exact ⟨hwrite, hserver, hthrew, hcalm'⟩
  | clientShutdown | clientEnd => exact ⟨nofun, hserver, by simp, hcalm'⟩
  | clientReceive | serverReceive => exact ⟨hclient, hserver, hcalm, hcalm'⟩
  | serverEnd =>
    obtain ⟨hwrite, hthrew⟩ := ServerPoint.writing_tidy response
    exact ⟨hclient, hwrite, hcalm, hthrew⟩
  | @serverWrite n rest =>
    obtain ⟨hwrite, hthrew⟩ := ServerPoint.writing_tidy (rest.drop n)
    exact ⟨hclient, hwrite, hcalm, hthrew⟩
  | serverShutdown => exact ⟨hclient, nofun, hcalm, by simp⟩

theorem tidy_of_exec {labels : List Label}
    (h : exec (step response) (start request) labels = some (σ, tr)) : Tidy σ := by
  refine exec_induction (P := fun _ σ _ => Tidy σ) ?_ ?_ h
  · obtain ⟨hwrite, hthrew⟩ := ClientPoint.writing_tidy request
    exact ⟨hwrite, nofun, hthrew, by simp [start]⟩
  · intro labels σ tr l σ' es _ ih hstep
    exact ih.step (step_cases hstep)

/-- A reading client goes on when the responses are not silent. -/
theorem exists_client_step (hclient : σ.client = .read) (h : ¬σ.responses.Silent) :
    ∃ l, (step response σ l).isSome = true := by
  rcases Channel.exists_delivery h with hdeliver | hfinish
  · exact ⟨.client (.receive 1), by simp [step, clientStep, hclient, hdeliver]⟩
  · exact ⟨.client .endRead, by simp [step, clientStep, hclient, hfinish]⟩

/-- A reading server goes on when the requests are not silent. -/
theorem exists_server_step (hserver : σ.server = .read) (h : ¬σ.requests.Silent) :
    ∃ l, (step response σ l).isSome = true := by
  rcases Channel.exists_delivery h with hdeliver | hfinish
  · exact ⟨.server (.receive 1), by simp [step, serverStep, hserver, hdeliver]⟩
  · exact ⟨.server .endRead, by simp [step, serverStep, hserver, hfinish]⟩

/-- Until both programs have ended, one of them goes on. -/
theorem exists_step (hi : Exchange request response σ) (ht : Tidy σ) :
    σ.client = .processing ∧ σ.server = .returned ∨
      ∃ l, (step response σ l).isSome = true := by
  have hrequests := hi.requests
  have hresponses := hi.responses
  cases hclient : σ.client with
  | write rest =>
    have hpos : 1 ≤ rest.length := List.length_pos_iff.mpr (ht.client_write rest hclient)
    rw [hclient] at hrequests
    have hsend := Channel.send_isSome hrequests.closed (rest.take 1)
    exact Or.inr ⟨.client (.write 1), by simp [step, clientStep, hclient, hsend, hpos]⟩
  | shutdownSend => exact Or.inr ⟨.client .shutdown, by simp [step, clientStep, hclient]⟩
  | read =>
    right
    rw [hclient] at hrequests hresponses
    cases hserver : σ.server with
    | read =>
      rw [hserver] at hrequests
      exact exists_server_step hserver hrequests.not_silent
    | write rest =>
      have hpos : 1 ≤ rest.length := List.length_pos_iff.mpr (ht.server_write rest hserver)
      rw [hserver] at hresponses
      have hsend := Channel.send_isSome hresponses.closed (rest.take 1)
      exact ⟨.server (.write 1), by simp [step, serverStep, hserver, hsend, hpos]⟩
    | shutdownSend => exact ⟨.server .shutdown, by simp [step, serverStep, hserver]⟩
    | returned =>
      rw [hserver] at hresponses
      exact exists_client_step hclient hresponses.not_silent
    | threw ec => exact absurd hserver (ht.server_calm ec)
  | processing =>
    -- the client has the end of the responses, so the server has closed them
    rw [hclient] at hresponses
    have hclosed := (σ.responses.ended_last hresponses.finished).1
    rw [hresponses.closed] at hclosed
    cases hserver : σ.server with
    | returned => exact Or.inl ⟨rfl, rfl⟩
    | read | write rest | shutdownSend | threw ec =>
      rw [hserver] at hclosed
      cases hclosed
  | threw ec => exact absurd hclient (ht.client_calm ec)

/-- Every run can be continued until both programs have ended. -/
theorem exists_step_of_exec {labels : List Label}
    (h : exec (step response) (start request) labels = some (σ, tr)) :
    σ.client = .processing ∧ σ.server = .returned ∨
      ∃ l, (step response σ l).isSome = true :=
  exists_step (exchange_of_exec h).1 (tidy_of_exec h)

/-- Whatever the arrays hold and in whatever pieces they arrive: the two programs never both wait
with nothing on its way, and a read that ends has exactly what the peer wrote, which is its
whole array. -/
theorem halfClose_sound {labels : List Label}
    (h : exec (step response) (start request) labels = some (σ, tr)) :
    ¬σ.Stuck ∧ ∀ e ∈ tr, e.Complete request response := by
  obtain ⟨hexchange, hevents⟩ := exchange_of_exec h
  exact ⟨hexchange.not_stuck, hevents⟩

end

/-- The arrays of the two examples. -/
def requestArray : Bytes := [0x48, 0x65, 0x0, 0x6c, 0x6c, 0x6f]

def responseArray : Bytes := [0x48, 0x69, 0x21]

/-- The request arrives in two pieces, and its zero byte with the second one. -/
def wholeSchedule : List Label :=
  [.client (.write 6), .server (.receive 2), .client .shutdown, .server (.receive 4),
    .server .endRead, .server (.write 3), .server .shutdown, .client (.receive 3),
    .client .endRead]

/-- A complete exchange of the two arrays. -/
theorem wholeSchedule_sound : ∃ σ tr,
    exec (step responseArray) (start requestArray) wholeSchedule = some (σ, tr) ∧
      tr = [.requestRead requestArray requestArray, .responseRead responseArray responseArray] ∧
      ¬σ.Stuck ∧ ∀ e ∈ tr, e.Complete requestArray responseArray := by
  refine ⟨_, _, rfl, rfl, ?_⟩
  exact halfClose_sound (show exec (step responseArray) (start requestArray) wholeSchedule = _
    from rfl)

end BoostAsio.HalfClose

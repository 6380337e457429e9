import BoostAsio.Server.Async.State

/-!
# The steps of the server

One constructor for each way a choice can be executed, with what it requires.
-/

namespace BoostAsio.AsyncTcpServer

/-- Every executable step. -/
inductive Step (size : Nat) (σ : State) : Label → State → List Event → Prop
  | listen (hs : σ.starter = .listen) :
      Step size σ .start { σ with starter := .initAccept } []
  | firstAccept (hs : σ.starter = .initAccept) :
      Step size σ .start { σ.initAccept with starter := .createThreads }
        [.acceptStarted σ.sockets]
  | createThread (hs : σ.starter = .createThreads) (hpool : σ.pool < size) :
      Step size σ .start { σ.goto σ.pool .idle with pool := σ.pool + 1 } []
  | stopAcceptor (hs : σ.stopper = .stopAcceptor) :
      Step size σ .stop { σ with isStopped := true, stopper := .stopService } [.stopSet]
  | stopService (hs : σ.stopper = .stopService) :
      Step size σ .stop { σ with iosStopped := true, stopper := .join } []
  | join (hs : σ.stopper = .join) (hpool : ∀ t < σ.pool, σ.threads t = .exited) :
      Step size σ .stop { σ with stopper := .returned } []
  | accept {t sock ec} (ht : σ.threads t = .idle) (hios : σ.iosStopped = false)
      (hsock : sock ∈ σ.accepts) :
      Step size σ (.accept t sock ec) ((σ.takeAccept sock).goto t (.onAccept ec sock))
        [.accepted sock ec]
  | deliver {t s op ec received} (ht : σ.threads t = .idle) (hios : σ.iosStopped = false)
      (hop : op ∈ (σ.services s).pending) :
      Step size σ (.deliver t s op ec received)
        ((σ.modify s ((σ.services s).complete op received)).goto t (op.handler ec s))
        [.delivered s op ec]
  | transmit {s sent n bytes} (hop : .write sent ∈ (σ.services s).pending)
      (hbytes : bytes = ((σ.services s).response.drop sent).take n) :
      Step size σ (.transmit s sent n)
        ((σ.modify s ((σ.services s).advance sent bytes.length)).send (σ.services s).sock bytes)
        [.sent s bytes]
  | exit {t} (ht : σ.threads t = .idle) (hios : σ.iosStopped = true) :
      Step size σ (.run t) (σ.goto t .exited) []
  | serve {t ec sock} (ht : σ.threads t = .onAccept ec sock) (hec : ec.value = 0) :
      Step size σ (.run t) ((σ.create sock).goto t .testStopped)
        [.created σ.count sock, .readStarted σ.count]
  | acceptFailed {t ec sock} (ht : σ.threads t = .onAccept ec sock) (hec : ec.value ≠ 0) :
      Step size σ (.run t) (σ.goto t .testStopped) []
  | goOn {t} (ht : σ.threads t = .testStopped) (hstopped : σ.isStopped = false) :
      Step size σ (.run t) (σ.goto t .initAccept) []
  | giveUp {t} (ht : σ.threads t = .testStopped) (hstopped : σ.isStopped = true) :
      Step size σ (.run t) (σ.goto t .closeAcceptor) []
  | initAccept {t} (ht : σ.threads t = .initAccept) :
      Step size σ (.run t) (σ.initAccept.goto t .idle) [.acceptStarted σ.sockets]
  | close {t} (ht : σ.threads t = .closeAcceptor) :
      Step size σ (.run t) (σ.close.goto t .idle) [.closed]
  | readFailed {t ec s} (ht : σ.threads t = .onRequestReceived ec s) (hec : ec.value ≠ 0) :
      Step size σ (.run t) (σ.goto t (.onFinish s)) []
  | respond {t ec s} (ht : σ.threads t = .onRequestReceived ec s) (hec : ec.value = 0) :
      Step size σ (.run t) ((σ.modify s (σ.services s).respond).goto t (.startWrite s)) []
  | startWrite {t s} (ht : σ.threads t = .startWrite s) :
      Step size σ (.run t)
        ((σ.modify s ((σ.services s).start (.write 0))).goto t .idle) [.writeStarted s]
  | responseSent {t ec s} (ht : σ.threads t = .onResponseSent ec s) :
      Step size σ (.run t) (σ.goto t (.onFinish s)) []
  | finish {t s} (ht : σ.threads t = .onFinish s) :
      Step size σ (.run t) ((σ.modify s (σ.services s).delete).goto t .idle) [.deleted s]

variable {size : Nat} {σ σ' : State} {es : List Event}

theorem startStep_cases (h : startStep size σ σ.starter = some (σ', es)) :
    Step size σ .start σ' es := by
  cases hs : σ.starter with
  | listen =>
    rw [hs] at h
    cases h
    exact .listen hs
  | initAccept =>
    rw [hs] at h
    cases h
    exact .firstAccept hs
  | createThreads =>
    simp only [hs, startStep, Option.ite_none_right_eq_some] at h
    obtain ⟨hpool, h⟩ := h
    cases h
    exact .createThread hs hpool

theorem stopStep_cases (h : stopStep σ σ.stopper = some (σ', es)) :
    Step size σ .stop σ' es := by
  cases hs : σ.stopper with
  | stopAcceptor =>
    rw [hs] at h
    cases h
    exact .stopAcceptor hs
  | stopService =>
    rw [hs] at h
    cases h
    exact .stopService hs
  | join =>
    simp only [hs, stopStep, Option.ite_none_right_eq_some] at h
    obtain ⟨hpool, h⟩ := h
    cases h
    exact .join hs hpool
  | returned =>
    rw [hs] at h
    cases h

theorem advance_cases {t : ThreadId} (h : advance σ t (σ.threads t) = some (σ', es)) :
    Step size σ (.run t) σ' es := by
  cases ht : σ.threads t with
  | unborn | exited =>
    rw [ht] at h
    cases h
  | idle =>
    simp only [ht, advance, Option.ite_none_right_eq_some] at h
    obtain ⟨hios, h⟩ := h
    cases h
    exact .exit ht hios
  | onAccept ec sock =>
    rw [ht, advance] at h
    by_cases hec : ec.value = 0
    · rw [if_pos hec] at h
      cases h
      exact .serve ht hec
    · rw [if_neg hec] at h
      cases h
      exact .acceptFailed ht hec
  | testStopped =>
    rw [ht] at h
    cases h
    cases hstopped : σ.isStopped with
    | false => exact .goOn ht hstopped
    | true => exact .giveUp ht hstopped
  | initAccept =>
    rw [ht] at h
    cases h
    exact .initAccept ht
  | closeAcceptor =>
    rw [ht] at h
    cases h
    exact .close ht
  | onRequestReceived ec s =>
    rw [ht, advance] at h
    by_cases hec : ec.value = 0
    · rw [if_neg (not_not.mpr hec)] at h
      cases h
      exact .respond ht hec
    · rw [if_pos hec] at h
      cases h
      exact .readFailed ht hec
  | startWrite s =>
    rw [ht] at h
    cases h
    exact .startWrite ht
  | onResponseSent ec s =>
    rw [ht] at h
    cases h
    exact .responseSent ht
  | onFinish s =>
    rw [ht] at h
    cases h
    exact .finish ht

/-- The executable step does nothing else. -/
theorem step_cases {l : Label} (h : step size σ l = some (σ', es)) : Step size σ l σ' es := by
  cases l with
  | start => exact startStep_cases h
  | stop => exact stopStep_cases h
  | accept t sock ec =>
    simp only [step, Option.ite_none_right_eq_some] at h
    obtain ⟨⟨ht, hios, hsock⟩, h⟩ := h
    cases h
    exact .accept ht hios hsock
  | deliver t s op ec received =>
    simp only [step, Option.ite_none_right_eq_some] at h
    obtain ⟨⟨ht, hios, hop⟩, h⟩ := h
    cases h
    exact .deliver ht hios hop
  | transmit s sent n =>
    simp only [step, Option.ite_none_right_eq_some] at h
    obtain ⟨hop, h⟩ := h
    cases h
    exact .transmit hop rfl
  | run t => exact advance_cases h

end BoostAsio.AsyncTcpServer

import BoostAsio.Core.Stream.Completion
import BoostAsio.Http.Service.Lifecycle
import BoostAsio.Http.Service.Response

/-!
# Every run of a service replies as its stream decides

Whichever threads run the handlers, whatever fails or throws, a service hands at most one
response to a write. It is the bare status that the bytes received so far decide on, and
nothing that may still arrive could have changed that.
-/

namespace BoostAsio.HttpService

open BoostAsio.System

/-- Whether Asio may complete an operation of the service in this way. -/
def Operation.Completes (buf : Bytes) (ec : ErrorCode) (received : Bytes) : Operation → Prop
  | .readRequestLine => CompletesWithin requestSize lineEnd buf ec received
  | .readHeaders => CompletesWithin requestSize blankLine buf ec received
  | .writeResponse => received = []

instance (buf : Bytes) (ec : ErrorCode) (received : Bytes) :
    ∀ op : Operation, Decidable (op.Completes buf ec received)
  | .readRequestLine | .readHeaders => inferInstanceAs (Decidable (CompletesWithin _ _ _ _ _))
  | .writeResponse => inferInstanceAs (Decidable (received = []))

/-- A service with everything that its reads have received. -/
structure Connected where
  object : State
  received : Bytes

/-- A service whose `StartHandling` has been called. -/
def Connected.startHandling : Connected := ⟨.startHandling, []⟩

/-- What a step receives. -/
def Label.received : Label → Bytes
  | .deliver _ _ _ received => received
  | .run _ _ _ | .shutdownThrows _ | .processThrows _ _ => []

/-- Whether Asio allows a step. -/
def Connected.Allows (x : Connected) : Label → Prop
  | .deliver _ op ec received => op.Completes x.object.service.request ec received
  | .run _ _ _ | .shutdownThrows _ | .processThrows _ _ => True

instance (x : Connected) : ∀ l : Label, Decidable (x.Allows l)
  | .deliver _ _ _ _ => inferInstanceAs (Decidable (Operation.Completes _ _ _ _))
  | .run _ _ _ | .shutdownThrows _ | .processThrows _ _ => inferInstanceAs (Decidable True)

/-- The step of a service, with what it receives. -/
def connectedStep (x : Connected) (l : Label) : Option (Connected × List Event) :=
  if x.Allows l then
    (step x.object l).map fun next => (⟨next.1, x.received ++ l.received⟩, next.2)
  else none

/-- A run of a service from its `StartHandling`, with what it has received. -/
abbrev ConnectedRun (labels : List Label) (x : Connected) (tr : List Event) : Prop :=
  exec connectedStep Connected.startHandling labels = some (x, tr)

theorem connectedStep_cases {x y : Connected} {l : Label} {es : List Event}
    (h : connectedStep x l = some (y, es)) :
    x.Allows l ∧ Step x.object l y.object es ∧ y.received = x.received ++ l.received := by
  simp only [connectedStep, Option.ite_none_right_eq_some] at h
  obtain ⟨hallows, h⟩ := h
  obtain ⟨⟨σ, es'⟩, hs, hy⟩ := Option.map_eq_some_iff.mp h
  cases hy
  exact ⟨hallows, step_cases hs, rfl⟩

/-- The reply to what was received, whatever else may come. -/
def Settled (received : Bytes) (code : UInt32) : Prop :=
  ∀ rest, decided (received ++ rest) = .respond code

/-- A request line that has arrived settles the reply. -/
theorem settled_of_line {received : Bytes} (hline : lineEnd <:+: received)
    (hlen : received.length ≤ requestSize) :
    Settled received
      (if lineMethod (lineOf received) ≠ ascii "GET" then 501 else 505) := by
  intro rest
  have hwindow : lineEnd <:+: (received ++ rest).take requestSize :=
    hline.trans (List.prefix_take_iff.mpr ⟨List.prefix_append .., hlen⟩).isInfix
  have hcr : cr ∈ received := hline.subset (by decide)
  rw [decided, if_pos hwindow, ← lineOf_of_prefix (List.prefix_append received rest) hcr]
  split <;> rfl

/-- A full buffer without the end of a line settles the reply. -/
theorem settled_of_full {received : Bytes} (hline : ¬lineEnd <:+: received)
    (hlen : received.length = requestSize) : Settled received 413 := by
  intro rest
  have htake : (received ++ rest).take requestSize = received := by
    rw [← hlen, List.take_left]
  rw [decided, htake, if_neg hline, if_pos (by rw [List.length_append]; omega)]

/-- The first handler sends a response only for a settled reply. -/
theorem settled_of_sendResponse {ec : ErrorCode} {received : Bytes} {s : HttpService}
    (hc : CompletesWithin requestSize lineEnd [] ec received)
    (hs : onRequestLineReceived ec { new with request := received } = (s, .sendResponse)) :
    Settled received s.responseStatusCode := by
  obtain ⟨-, hlen, hfound, hfull⟩ := hc
  rw [List.nil_append] at hlen hfound hfull
  by_cases hec : ec.value = 0
  · have hread : onRequestLineReceived ec { new with request := received } =
        readRequestLine { new with request := received } := by
      simp [onRequestLineReceived, onErrorWithRes, hec]
    have hdecides := decision_readRequestLine { new with request := received }
    rw [← hread, hs] at hdecides
    have hcode : Decision.respond s.responseStatusCode =
        .respond (if lineMethod (lineOf received) ≠ ascii "GET" then 501 else 505) := by
      refine hdecides.trans ?_
      split <;> rfl
    rw [Decision.respond.inj hcode]
    exact settled_of_line (hfound hec) hlen
  · by_cases hnot : ec = .notFound
    · have hcode : onRequestLineReceived ec { new with request := received } =
          (({ new with request := received } : HttpService).setStatus 413, .sendResponse) := by
        rw [hnot]
        rfl
      rw [hcode] at hs
      obtain ⟨hmissing, hsize⟩ := hfull hnot
      rw [← (Prod.mk.inj hs).1]
      exact settled_of_full hmissing (Nat.le_antisymm hlen hsize)
    · have hfinish : (onRequestLineReceived ec { new with request := received }).2 = .finish := by
        simp [onRequestLineReceived, onErrorWithRes, hec, hnot]
      rw [hs] at hfinish
      cases hfinish

/-- Nothing was handed to a write, or the settled reply, once. -/
def Replied (received : Bytes) (answers : List (List Bytes)) : Prop :=
  answers = [] ∨ ∃ code buffers, Settled received code ∧ statusBuffers code = some buffers ∧
    answers = [buffers]

/-- Where a service stands: it waits for a request line, its first handler has to run, it is
about to send a settled reply, or it sends none any more. -/
inductive Phase : State → Bytes → List (List Bytes) → Prop
  | reading {σ} (hidle : ∀ t, σ.threads t = .idle) (hpending : σ.pending = [.readRequestLine])
      (hs : σ.service = .new) : Phase σ [] []
  | handling {σ t ec received} (honly : OnlyRuns σ t)
      (ht : σ.threads t = .handler .readRequestLine ec)
      (hs : σ.service = { new with request := received })
      (hc : CompletesWithin requestSize lineEnd [] ec received) : Phase σ received []
  | replying {σ t received} (honly : OnlyRuns σ t)
      (ht : σ.threads t = .sendShutdown ∨ σ.threads t = .sendResponse)
      (hheaders : σ.service.responseHeaders = []) (hsize : σ.service.resourceSizeBytes = 0)
      (hsettled : Settled received σ.service.responseStatusCode) : Phase σ received []
  | finished {σ received answers} (hreplied : Replied received answers)
      (hpending : ∀ op ∈ σ.pending, op = .writeResponse)
      (hthreads : ∀ t, (σ.threads t).answered = true) : Phase σ received answers

section

variable {σ σ' : State} {l : Label} {es : List Event} {received : Bytes}
  {answers : List (List Bytes)} {t : ThreadId}

/-- A thread that has to move is the only one that is not idle. -/
theorem OnlyRuns.eq_of_not_idle (h : OnlyRuns σ t) {u : ThreadId} (hu : σ.threads u ≠ .idle) :
    u = t := by
  by_contra hne
  exact hu (h.idle u hne)

/-- A service that only waits for its request line takes it. -/
theorem Step.reading (h : Step σ l σ' es) (hidle : ∀ t, σ.threads t = .idle)
    (hpending : σ.pending = [.readRequestLine]) (hs : σ.service = .new)
    (hallows : (Connected.mk σ []).Allows l) :
    Phase σ' l.received [] ∧ responded es = [] := by
  cases h with
  | @deliver t op ec received ht hop =>
    rw [hpending, List.mem_singleton] at hop
    subst hop
    simp only [Connected.Allows, hs] at hallows
    refine ⟨@Phase.handling _ t ec _ ⟨fun u hu => ?_, ?_⟩ ?_ ?_ hallows, rfl⟩
    · rw [State.threads_goto, if_neg hu]
      exact hidle u
    · rw [State.pending_goto, State.pending_take, State.pending_withService, hpending]
      rfl
    · rw [State.threads_goto, if_pos rfl]
    · rw [State.service_goto, State.service_take, State.service_withService, hs]
      rfl
  | readHeaders ht | respond ht | close ht | responseSent ht | sendShutdown ht | sendResponse ht
  | lookupFails ht | sentShutdown ht | onFinish ht | processThrows ht =>
    rw [hidle] at ht
    cases ht
  | shutdownThrows ht =>
    rw [hidle] at ht
    rcases ht with ht | ht <;> cases ht

/-- The first handler leads to a settled reply or to the end. -/
theorem Step.handling {ec : ErrorCode} (h : Step σ l σ' es) (honly : OnlyRuns σ t)
    (ht : σ.threads t = .handler .readRequestLine ec)
    (hs : σ.service = { new with request := received })
    (hc : CompletesWithin requestSize lineEnd [] ec received) :
    Phase σ' received [] ∧ responded es = [] ∧ l.received = [] := by
  have hother : ∀ u f, σ.threads u = f → f ≠ .idle → f = .handler .readRequestLine ec := by
    intro u f hu hf
    have hut := honly.eq_of_not_idle (u := u) (by rw [hu]; exact hf)
    rw [← hu, hut, ht]
  cases h with
  | deliver _ hop =>
    rw [honly.pending] at hop
    cases hop
  | @readHeaders u fuel files op ec' s hu hop hhandle =>
    cases hother u _ hu (by simp)
    have hnext := next_ne_readHeaders ec σ.service
    rw [Option.some.inj hhandle] at hnext
    exact absurd rfl hnext
  | @respond u fuel files op ec' s hu hop hhandle =>
    cases hother u _ hu (by simp)
    have hut := honly.eq_of_not_idle (u := u) (by rw [hu]; simp)
    subst hut
    have hhandler := Option.some.inj hhandle
    rw [hs] at hhandler
    obtain ⟨hheaders, hsize⟩ := bare_onRequestLineReceived ec { new with request := received }
    rw [hhandler] at hheaders hsize
    refine ⟨.replying (t := u) ⟨fun v hv => ?_, honly.pending⟩ (Or.inl ?_) hheaders hsize
      (settled_of_sendResponse hc hhandler), rfl, rfl⟩
    · rw [State.threads_goto, if_neg hv]
      exact honly.idle v hv
    · rw [State.threads_goto, if_pos rfl]
  | @close u fuel files op ec' s hu hop hhandle =>
    have hut := honly.eq_of_not_idle (u := u) (by rw [hu]; simp)
    subst hut
    refine ⟨.finished (Or.inl rfl) ?_ fun v => ?_, rfl, rfl⟩
    · rw [State.pending_goto, State.pending_withService, honly.pending]
      nofun
    · rw [State.threads_goto]
      split
      · rfl
      · next hv =>
        rw [State.threads_withService, honly.idle v hv]
        rfl
  | responseSent hu | sendShutdown hu | sendResponse hu | lookupFails hu | sentShutdown hu
  | onFinish hu | processThrows hu => cases hother _ _ hu (by simp)
  | shutdownThrows hu =>
    rcases hu with hu | hu <;> cases hother _ _ hu (by simp)

/-- A settled reply is sent, or an exception is in its way. -/
theorem Step.replying (h : Step σ l σ' es) (honly : OnlyRuns σ t)
    (ht : σ.threads t = .sendShutdown ∨ σ.threads t = .sendResponse)
    (hheaders : σ.service.responseHeaders = []) (hsize : σ.service.resourceSizeBytes = 0)
    (hsettled : Settled received σ.service.responseStatusCode) :
    Phase σ' received (responded es) ∧ l.received = [] := by
  have hut : ∀ u, σ.threads u ≠ .idle → u = t := fun u hu => honly.eq_of_not_idle hu
  have hidle : ∀ {τ : State}, (∀ u, τ.threads u = if u = t then .idle else σ.threads u) →
      ∀ u, (τ.threads u).answered = true := by
    intro τ hτ u
    rw [hτ]
    split
    · rfl
    · next hu =>
      rw [honly.idle u hu]
      rfl
  cases h with
  | deliver _ hop =>
    rw [honly.pending] at hop
    cases hop
  | @sendShutdown u fuel files hu =>
    cases hut u (by rw [hu]; simp)
    refine ⟨.replying (t := t) ⟨fun v hv => ?_, honly.pending⟩ (Or.inr ?_) hheaders hsize
      hsettled, rfl⟩
    · rw [State.threads_goto, if_neg hv]
      exact honly.idle v hv
    · rw [State.threads_goto, if_pos rfl]
  | @sendResponse u fuel files s buffers hu hsend =>
    cases hut u (by rw [hu]; simp)
    have hbuffers : statusBuffers σ.service.responseStatusCode = some buffers := by
      have hwritten := written_bare hheaders hsize false
      rw [written, hsend] at hwritten
      exact hwritten.symm
    refine ⟨.finished (Or.inr ⟨_, buffers, hsettled, hbuffers, rfl⟩) (fun op hop => ?_)
      (hidle fun u => State.threads_goto ..), rfl⟩
    rw [State.pending_goto, State.pending_start, State.pending_withService, honly.pending] at hop
    exact List.mem_singleton.mp hop
  | @lookupFails u fuel files hu =>
    cases hut u (by rw [hu]; simp)
    refine ⟨.finished (Or.inl rfl) (fun op hop => ?_) (hidle fun u => State.threads_goto ..), rfl⟩
    rw [State.pending_goto, honly.pending] at hop
    cases hop
  | @shutdownThrows u hu =>
    cases hut u (by rcases hu with hu | hu <;> rw [hu] <;> simp)
    refine ⟨.finished (Or.inl rfl) (fun op hop => ?_) (hidle fun u => State.threads_goto ..), rfl⟩
    rw [State.pending_goto, honly.pending] at hop
    cases hop
  | @readHeaders u fuel files op ec s hu | @respond u fuel files op ec s hu
  | @close u fuel files op ec s hu | @responseSent u fuel files ec hu
  | @sentShutdown u fuel files hu | @onFinish u fuel files hu
  | @processThrows u fuel ec s hu =>
    cases hut u (by rw [hu]; simp)
    rw [hu] at ht
    rcases ht with ht | ht <;> cases ht

/-- A service that sends no response any more never does. -/
theorem Step.finished (h : Step σ l σ' es) (hpending : ∀ op ∈ σ.pending, op = .writeResponse)
    (hthreads : ∀ t, (σ.threads t).answered = true) :
    (∀ op ∈ σ'.pending, op = .writeResponse) ∧ (∀ t, (σ'.threads t).answered = true) ∧
      responded es = [] ∧ ((Connected.mk σ received).Allows l → l.received = []) := by
  have hanswered : ∀ {u f}, σ.threads u = f → f.answered = true := by
    intro u f hu
    rw [← hu]
    exact hthreads u
  have hgoto : ∀ {τ : State} {u f}, (∀ v, τ.threads v = if v = u then f else σ.threads v) →
      f.answered = true → ∀ v, (τ.threads v).answered = true := by
    intro τ u f hτ hf v
    rw [hτ]
    split
    · exact hf
    · exact hthreads v
  cases h with
  | @deliver u op ec received' hu hop =>
    have hwrite := hpending op hop
    subst hwrite
    refine ⟨fun op hop' => hpending op (List.mem_of_mem_erase hop'),
      hgoto (fun v => State.threads_goto ..) rfl, rfl, fun hallows => hallows⟩
  | @readHeaders u fuel files op ec s hu hop | @respond u fuel files op ec s hu hop
  | @close u fuel files op ec s hu hop =>
    have hf := hanswered hu
    rw [Frame.answered_handler hop] at hf
    cases hf
  | responseSent | sentShutdown =>
    exact ⟨hpending, hgoto (fun v => State.threads_goto ..) rfl, rfl, fun _ => rfl⟩
  | onFinish => exact ⟨hpending, hgoto (fun v => State.threads_goto ..) rfl, rfl, fun _ => rfl⟩
  | sendShutdown hu | sendResponse hu | lookupFails hu | processThrows hu => cases hanswered hu
  | shutdownThrows hu =>
    exact ⟨hpending, hgoto (fun v => State.threads_goto ..) rfl, rfl, fun _ => rfl⟩

end

theorem responded_append (tr es : List Event) :
    responded (tr ++ es) = responded tr ++ responded es := List.filterMap_append

/-- Every step leads from phase to phase. -/
theorem connectedStep_phase {x y : Connected} {l : Label} {tr es : List Event}
    (hi : Phase x.object x.received (responded tr)) (h : connectedStep x l = some (y, es)) :
    Phase y.object y.received (responded (tr ++ es)) := by
  obtain ⟨hallows, hs, hreceived⟩ := connectedStep_cases h
  obtain ⟨σ, received⟩ := x
  simp only at hi hs hreceived
  rw [responded_append, hreceived]
  generalize responded tr = answers at hi
  cases hi with
  | reading hidle hpending hnew =>
    obtain ⟨hphase, hes⟩ := hs.reading hidle hpending hnew hallows
    rw [hes]
    exact hphase
  | handling honly ht hservice hc =>
    obtain ⟨hphase, hes, hnil⟩ := hs.handling honly ht hservice hc
    rw [hes, hnil, List.append_nil]
    exact hphase
  | replying honly ht hheaders hsize hsettled =>
    obtain ⟨hphase, hnil⟩ := hs.replying honly ht hheaders hsize hsettled
    rw [hnil, List.append_nil]
    exact hphase
  | finished hreplied hpending hthreads =>
    obtain ⟨hpending', hthreads', hes, hnil⟩ := hs.finished hpending hthreads
    rw [hes, hnil hallows, List.append_nil, List.append_nil]
    exact .finished hreplied hpending' hthreads'

theorem ConnectedRun.phase {labels : List Label} {x : Connected} {tr : List Event}
    (h : ConnectedRun labels x tr) : Phase x.object x.received (responded tr) := by
  refine exec_induction (P := fun _ x tr => Phase x.object x.received (responded tr)) ?_ ?_ h
  · exact .reading (fun _ => rfl) rfl rfl
  · intro as x tr a y es _ hi hs
    exact connectedStep_phase hi hs

theorem ConnectedRun.replied {labels : List Label} {x : Connected} {tr : List Event}
    (h : ConnectedRun labels x tr) : Replied x.received (responded tr) := by
  have hphase := h.phase
  obtain ⟨σ, received⟩ := x
  simp only at hphase ⊢
  generalize responded tr = answers at hphase
  cases hphase with
  | reading | handling | replying => exact Or.inl rfl
  | finished hreplied => exact hreplied

/-- In every run a service hands at most one response to a write: the bare status that what it
has received decides on, whatever else might come. -/
theorem replied_of_connectedRun {labels : List Label} {x : Connected} {tr : List Event}
    (h : ConnectedRun labels x tr) :
    responded tr = [] ∨ ∃ code buffers,
      (∀ rest, decided (x.received ++ rest) = .respond code) ∧
        statusBuffers code = some buffers ∧ responded tr = [buffers] :=
  h.replied

/-- The answered service has replied once, with the bare status. -/
theorem answeredSchedule_replied : ∃ x tr, ConnectedRun answeredSchedule x tr ∧
    responded tr = [[ascii "HTTP/1.1 505 HTTP Version Not Supported\r\n", ascii "\r\n"]] ∧
    ∃ code, ∀ rest, decided (x.received ++ rest) = .respond code := by
  obtain ⟨x, tr, hrun, hresponded⟩ : ∃ x tr, ConnectedRun answeredSchedule x tr ∧ responded tr =
      [[ascii "HTTP/1.1 505 HTTP Version Not Supported\r\n", ascii "\r\n"]] :=
    ⟨_, _, rfl, rfl⟩
  rcases replied_of_connectedRun hrun with hnone | ⟨code, buffers, hdecided, -, -⟩
  · rw [hresponded] at hnone
    cases hnone
  · exact ⟨x, tr, hrun, hresponded, code, hdecided⟩

end BoostAsio.HttpService

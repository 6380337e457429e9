import BoostAsio.Core.System.Component
import BoostAsio.Core.Wire
import BoostAsio.Http.Request.Delivery
import BoostAsio.Http.Request.RequestText
import BoostAsio.Http.Service.FileAnswer
import BoostAsio.Http.Service.Reply

/-!
# A request to the service of this repository

A request and a service stand at the two ends of a connection. Each writes into its direction
piece by piece, and each read receives any part of what is on its way; operations may fail and
calls may throw at any time. The service refuses every request with a bare status, and the
request never accepts one, so its callback is never called.
-/

namespace BoostAsio.HttpExchange

open BoostAsio.System

/-- Both objects and what is on its way between them. -/
structure State where
  request : HttpRequest.Connected
  service : HttpService.Connected
  /-- From the request to the service. -/
  up : Wire UInt8
  down : Wire UInt8

/-- The choices of both schedulers, of Asio and of the network. -/
inductive Label
  | request (l : HttpRequest.Label)
  | service (l : HttpService.Label)
  /-- Some of what the request writes goes out. -/
  | sendUp (n : Nat)
  /-- Some of what the service writes goes out. -/
  | sendDown (n : Nat)

/-- What each object makes visible. -/
abbrev Event := HttpRequest.Event ⊕ HttpService.Event

/-- The events of the request. -/
def requestTrace (tr : List Event) : List HttpRequest.Event := tr.filterMap Sum.getLeft?

/-- The events of the service. -/
def serviceTrace (tr : List Event) : List HttpService.Event := tr.filterMap Sum.getRight?

/-- The bytes that a completion of the service has received, with its end or not. -/
def serviceEnds : HttpService.Label → Bool
  | .deliver _ _ ec _ => ec = .eof
  | .run _ _ _ | .shutdownThrows _ | .processThrows _ _ => false

/-- What a step of the request does to its direction: it starts or completes its write, or
closes the direction with `shutdown_send`. -/
def requestSends (σ : HttpRequest.State) (l : HttpRequest.Label)
    (es : List HttpRequest.Event) (w : Wire UInt8) : Option (Wire UInt8) :=
  match σ.point, l with
  | .pending .write _, .deliver ec _ => w.complete (ec.value = 0)
  | .start .statusLine, .run _ => some w.close
  | _, _ => some (w.offerAll (HttpRequest.writes es))

/-- What a step of the service does to its direction: it starts or completes its write, or
closes the direction with `shutdown_both` or with itself. -/
def serviceSends (σ : HttpService.State) (l : HttpService.Label)
    (es : List HttpService.Event) (w : Wire UInt8) : Option (Wire UInt8) :=
  match l with
  | .deliver _ .writeResponse ec _ => w.complete (ec.value = 0)
  | .run t _ _ =>
    if σ.threads t = .sentShutdown ∨ σ.threads t = .onFinish then some w.close
    else some (w.offerAll ((HttpService.responded es).map List.flatten))
  | .deliver _ _ _ _ | .shutdownThrows _ | .processThrows _ _ => some w

/-- One choice. -/
def step (x : State) : Label → Option (State × List Event)
  | .request l => do
    let down ← x.down.receive l.chunk.flatten l.ends
    let next ← HttpRequest.connectedStep x.request l
    let up ← requestSends x.request.request l next.2 x.up
    return (⟨next.1, x.service, up, down⟩, next.2.map .inl)
  | .service l => do
    let up ← x.up.receive l.received (serviceEnds l)
    let next ← HttpService.connectedStep x.service l
    let down ← serviceSends x.service.object l next.2 x.down
    return (⟨x.request, next.1, up, down⟩, next.2.map .inr)
  | .sendUp n => (x.up.send n).map fun up => ({ x with up := up }, [])
  | .sendDown n => (x.down.send n).map fun down => ({ x with down := down }, [])

/-- A request that was set up in this way, before `Execute`, and a service behind its
`StartHandling`. -/
def State.new (settings : HttpRequest.Settings) : State :=
  ⟨.new settings, .startHandling, .new, .new⟩

/-- A run of both. -/
abbrev Run (settings : HttpRequest.Settings) (labels : List Label) (x : State)
    (tr : List Event) : Prop :=
  exec step (State.new settings) labels = some (x, tr)

@[simp] theorem requestTrace_append (tr es : List Event) :
    requestTrace (tr ++ es) = requestTrace tr ++ requestTrace es := List.filterMap_append

@[simp] theorem serviceTrace_append (tr es : List Event) :
    serviceTrace (tr ++ es) = serviceTrace tr ++ serviceTrace es := List.filterMap_append

@[simp] theorem requestTrace_inl (es : List HttpRequest.Event) :
    requestTrace (es.map .inl) = es := by
  simp [requestTrace, List.filterMap_map, Function.comp_def]

@[simp] theorem requestTrace_inr (es : List HttpService.Event) :
    requestTrace (es.map .inr) = [] := by
  simp [requestTrace, List.filterMap_map, Function.comp_def]

@[simp] theorem serviceTrace_inl (es : List HttpRequest.Event) :
    serviceTrace (es.map .inl) = [] := by
  simp [serviceTrace, List.filterMap_map, Function.comp_def]

@[simp] theorem serviceTrace_inr (es : List HttpService.Event) :
    serviceTrace (es.map .inr) = es := by
  simp [serviceTrace, List.filterMap_map, Function.comp_def]

/-- What a step does. -/
inductive Step (x : State) : Label → State → List Event → Prop
  | request {l r es up down} (hdown : x.down.receive l.chunk.flatten l.ends = some down)
      (hstep : HttpRequest.connectedStep x.request l = some (r, es))
      (hup : requestSends x.request.request l es x.up = some up) :
      Step x (.request l) ⟨r, x.service, up, down⟩ (es.map .inl)
  | service {l s es up down} (hup : x.up.receive l.received (serviceEnds l) = some up)
      (hstep : HttpService.connectedStep x.service l = some (s, es))
      (hdown : serviceSends x.service.object l es x.down = some down) :
      Step x (.service l) ⟨x.request, s, up, down⟩ (es.map .inr)
  | sendUp {n up} (hup : x.up.send n = some up) :
      Step x (.sendUp n) { x with up := up } []
  | sendDown {n down} (hdown : x.down.send n = some down) :
      Step x (.sendDown n) { x with down := down } []

theorem step_cases {x y : State} {l : Label} {es : List Event} (h : step x l = some (y, es)) :
    Step x l y es := by
  cases l with
  | request l =>
    obtain ⟨down, hdown, h⟩ := Option.bind_eq_some_iff.mp h
    obtain ⟨⟨r, fs⟩, hstep, h⟩ := Option.bind_eq_some_iff.mp h
    obtain ⟨up, hup, h⟩ := Option.bind_eq_some_iff.mp h
    cases h
    exact .request hdown hstep hup
  | service l =>
    obtain ⟨up, hup, h⟩ := Option.bind_eq_some_iff.mp h
    obtain ⟨⟨s, fs⟩, hstep, h⟩ := Option.bind_eq_some_iff.mp h
    obtain ⟨down, hdown, h⟩ := Option.bind_eq_some_iff.mp h
    cases h
    exact .service hup hstep hdown
  | sendUp n =>
    obtain ⟨up, hup, h⟩ := Option.map_eq_some_iff.mp h
    cases h
    exact .sendUp hup
  | sendDown n =>
    obtain ⟨down, hdown, h⟩ := Option.map_eq_some_iff.mp h
    cases h
    exact .sendDown hdown

/-- The labels of the request. -/
def Label.request? : Label → Option HttpRequest.Label
  | .request l => some l
  | .service _ | .sendUp _ | .sendDown _ => none

/-- The labels of the service. -/
def Label.service? : Label → Option HttpService.Label
  | .service l => some l
  | .request _ | .sendUp _ | .sendDown _ => none

/-- The request is a component of the exchange. -/
theorem request_partOf :
    PartOf step HttpRequest.connectedStep (fun x => x.request) Label.request? Sum.getLeft? := by
  intro x l y es h
  cases step_cases h with
  | @request l r es up down hdown hstep hup =>
    have htrace : (es.map Sum.inl).filterMap (Sum.getLeft? (β := HttpService.Event)) = es :=
      requestTrace_inl es
    rw [htrace]
    exact (exec_singleton ..).trans hstep
  | @service l s es =>
    have htrace : (es.map Sum.inr).filterMap (Sum.getLeft? (α := HttpRequest.Event)) = [] :=
      requestTrace_inr es
    rw [htrace]
    rfl
  | sendUp | sendDown => rfl

/-- The service is a component of the exchange. -/
theorem service_partOf :
    PartOf step HttpService.connectedStep (fun x => x.service) Label.service? Sum.getRight? := by
  intro x l y es h
  cases step_cases h with
  | @request l r es =>
    have htrace : (es.map Sum.inl).filterMap (Sum.getRight? (β := HttpService.Event)) = [] :=
      serviceTrace_inl es
    rw [htrace]
    rfl
  | @service l s es up down hup hstep hdown =>
    have htrace : (es.map Sum.inr).filterMap (Sum.getRight? (α := HttpRequest.Event)) = es :=
      serviceTrace_inr es
    rw [htrace]
    exact (exec_singleton ..).trans hstep
  | sendUp | sendDown => rfl

section

variable {w w' : Wire UInt8} {texts : List Bytes}

/-- Whatever the request does with its direction, it conveys what was written. -/
theorem requestSends_conveys {σ σ' : HttpRequest.State} {l : HttpRequest.Label}
    {es : List HttpRequest.Event} (hs : HttpRequest.Step σ l σ' es)
    (h : requestSends σ l es w = some w') (hw : w.Conveys texts)
    (hlen : (texts ++ HttpRequest.writes es).length ≤ 1) :
    w'.Conveys (texts ++ HttpRequest.writes es) := by
  unfold requestSends at h
  split at h
  · next hpoint =>
    rw [hs.writes_eq_nil (by rw [hpoint]; rfl), List.append_nil]
    exact hw.complete h
  · next hpoint =>
    obtain rfl := Option.some.inj h
    rw [hs.writes_eq_nil (by rw [hpoint]; rfl), List.append_nil]
    exact hw.close
  · obtain rfl := Option.some.inj h
    exact hw.offerAll hlen

/-- The same holds of the service. -/
theorem serviceSends_conveys {σ σ' : HttpService.State} {l : HttpService.Label}
    {es : List HttpService.Event} (hs : HttpService.Step σ l σ' es)
    (h : serviceSends σ l es w = some w') (hw : w.Conveys texts)
    (hlen : (texts ++ (HttpService.responded es).map List.flatten).length ≤ 1) :
    w'.Conveys (texts ++ (HttpService.responded es).map List.flatten) := by
  have hsilent : HttpService.responded es = [] → w'.Conveys texts →
      w'.Conveys (texts ++ (HttpService.responded es).map List.flatten) := by
    intro hes hconveys
    rw [hes, List.map_nil, List.append_nil]
    exact hconveys
  have hsame : HttpService.responded es = [] → some w = some w' →
      w'.Conveys (texts ++ (HttpService.responded es).map List.flatten) := by
    intro hes hw'
    obtain rfl := Option.some.inj hw'
    exact hsilent hes hw
  cases hs with
  | @deliver t op ec received ht hop =>
    cases op with
    | writeResponse => exact hsilent rfl (hw.complete h)
    | readRequestLine | readHeaders => exact hsame rfl h
  | shutdownThrows | processThrows => exact hsame rfl h
  | sentShutdown ht | onFinish ht =>
    simp only [serviceSends, ht, true_or, or_true, if_true] at h
    obtain rfl := Option.some.inj h
    exact hsilent rfl hw.close
  | readHeaders ht | respond ht | close ht | responseSent ht | sendShutdown ht
  | sendResponse ht | lookupFails ht =>
    simp only [serviceSends, ht, reduceCtorEq, or_self, if_false] at h
    obtain rfl := Option.some.inj h
    exact hw.offerAll hlen

end

/-- What has arrived at either end was written at the other one. -/
structure Joined (settings : HttpRequest.Settings) (x : State) (tr : List Event) : Prop where
  request : ∃ ls, HttpRequest.ConnectedRun settings ls x.request (requestTrace tr)
  service : ∃ ls, HttpService.ConnectedRun ls x.service (serviceTrace tr)
  up : x.up.Conveys (HttpRequest.writes (requestTrace tr))
  down : x.down.Conveys ((HttpService.responded (serviceTrace tr)).map List.flatten)
  upReceived : x.service.received = x.up.channel.delivered
  downReceived : x.request.chunks.flatten = x.down.channel.delivered

section

variable {settings : HttpRequest.Settings} {labels : List Label} {x y : State} {l : Label}
  {tr es : List Event}

/-- A service responds once at most. -/
theorem replied_length {received : Bytes} {answers : List (List Bytes)}
    (h : HttpService.Replied received answers) : (answers.map List.flatten).length ≤ 1 := by
  rcases h with rfl | ⟨code, buffers, -, -, rfl⟩
  · exact Nat.zero_le 1
  · exact le_rfl

/-- What an object does with its own direction delivers nothing. -/
theorem delivered_requestSends {σ : HttpRequest.State} {l : HttpRequest.Label}
    {es : List HttpRequest.Event} {w w' : Wire UInt8} (h : requestSends σ l es w = some w') :
    w'.channel.delivered = w.channel.delivered := by
  unfold requestSends at h
  split at h
  · rw [(Wire.complete_eq_some h).1]
  · obtain rfl := Option.some.inj h
    rfl
  · obtain rfl := Option.some.inj h
    rw [Wire.channel_offerAll]

theorem delivered_serviceSends {σ : HttpService.State} {l : HttpService.Label}
    {es : List HttpService.Event} {w w' : Wire UInt8} (h : serviceSends σ l es w = some w') :
    w'.channel.delivered = w.channel.delivered := by
  unfold serviceSends at h
  split at h
  · rw [(Wire.complete_eq_some h).1]
  · split at h
    · obtain rfl := Option.some.inj h
      rfl
    · obtain rfl := Option.some.inj h
      rw [Wire.channel_offerAll]
  all_goals
    obtain rfl := Option.some.inj h
    rfl

theorem Joined.step (hi : Joined settings x tr) (h : Step x l y es)
    (hrun : Run settings (labels ++ [l]) y (tr ++ es)) :
    Joined settings y (tr ++ es) := by
  have hrequest := request_partOf.exec hrun
  have hservice := service_partOf.exec hrun
  cases h with
  | @request l r es up down hdown hstep hup =>
    obtain ⟨-, hs, hchunks, -⟩ := HttpRequest.connectedStep_cases hstep
    have hlen : (HttpRequest.writes (requestTrace tr) ++ HttpRequest.writes es).length ≤ 1 := by
      have htrace : requestTrace (tr ++ es.map .inl) = requestTrace tr ++ es := by
        rw [requestTrace_append, requestTrace_inl]
      rw [← HttpRequest.writes_append, ← htrace]
      exact (HttpRequest.ConnectedRun.run hrequest).writes_length.1
    obtain ⟨-, hdelivered, -⟩ := Wire.receive_eq_some hdown
    refine ⟨⟨_, hrequest⟩, ⟨_, hservice⟩, ?_, ?_, ?_, ?_⟩
    · rw [requestTrace_append, requestTrace_inl, HttpRequest.writes_append]
      exact requestSends_conveys hs hup hi.up hlen
    · rw [serviceTrace_append, serviceTrace_inl, List.append_nil]
      exact hi.down.receive hdown
    · rw [hi.upReceived]
      exact (delivered_requestSends hup).symm
    · rw [hchunks, List.flatten_append, hi.downReceived, hdelivered]
  | @service l s es up down hup hstep hdown =>
    obtain ⟨-, hs, hreceived⟩ := HttpService.connectedStep_cases hstep
    have hreplied := HttpService.ConnectedRun.replied hservice
    have hlen : ((HttpService.responded (serviceTrace tr)).map List.flatten ++
        (HttpService.responded es).map List.flatten).length ≤ 1 := by
      have htrace : serviceTrace (tr ++ es.map .inr) = serviceTrace tr ++ es := by
        rw [serviceTrace_append, serviceTrace_inr]
      rw [← List.map_append, ← HttpService.responded_append, ← htrace]
      exact replied_length hreplied
    obtain ⟨-, hdelivered, -⟩ := Wire.receive_eq_some hup
    refine ⟨⟨_, hrequest⟩, ⟨_, hservice⟩, ?_, ?_, ?_, ?_⟩
    · rw [requestTrace_append, requestTrace_inr, List.append_nil]
      exact hi.up.receive hup
    · rw [serviceTrace_append, serviceTrace_inr, HttpService.responded_append, List.map_append]
      exact serviceSends_conveys hs hdown hi.down hlen
    · rw [hreceived, hi.upReceived, hdelivered]
    · rw [hi.downReceived]
      exact (delivered_serviceSends hdown).symm
  | sendUp hup =>
    refine ⟨⟨_, hrequest⟩, ⟨_, hservice⟩, ?_, ?_, ?_, hi.downReceived⟩
    · rw [List.append_nil]
      exact hi.up.send hup
    · rw [List.append_nil]
      exact hi.down
    · exact hi.upReceived.trans (Wire.send_eq_some hup).2.1.symm
  | sendDown hdown =>
    refine ⟨⟨_, hrequest⟩, ⟨_, hservice⟩, ?_, ?_, hi.upReceived, ?_⟩
    · rw [List.append_nil]
      exact hi.up
    · rw [List.append_nil]
      exact hi.down.send hdown
    · exact hi.downReceived.trans (Wire.send_eq_some hdown).2.1.symm

theorem Run.joined (h : Run settings labels x tr) : Joined settings x tr := by
  refine exec_induction (P := fun labels x tr =>
    Run settings labels x tr ∧ Joined settings x tr) ?_ ?_ h |>.2
  · exact ⟨rfl, ⟨⟨[], rfl⟩, ⟨[], rfl⟩, Wire.conveys_new, Wire.conveys_new, rfl, rfl⟩⟩
  · intro as x tr l y es _ hi hs
    have hrun : Run settings (as ++ [l]) y (tr ++ es) := exec_snoc.mpr ⟨_, _, _, hi.1, hs, rfl⟩
    exact ⟨hrun, hi.2.step (step_cases hs) hrun⟩

/-- A bare status is a status line with a code that can be converted, and a blank line. -/
theorem bare_of_statusBuffers {code : UInt32} {buffers : List Bytes}
    (h : HttpService.statusBuffers code = some buffers) :
    ∃ (line : HttpRequest.StatusLine) (value : UInt64), stoul line.code = .ok value ∧
      buffers.flatten = line.bytes ++ HttpRequest.crlf := by
  obtain ⟨text, hlookup, rfl⟩ := Option.map_eq_some_iff.mp h
  have hmem : code ∈ HttpService.httpStatusTable.map Prod.fst :=
    List.mem_map_of_mem (HttpService.mem_of_lookup_status hlookup)
  obtain ⟨reason, hcr, htext⟩ := HttpService.lookup_status hmem
  obtain rfl := Option.some.inj (hlookup.symm.trans htext)
  have hspace : cr ∉ 32 :: reason := fun hin =>
    hcr ((List.mem_cons.mp hin).resolve_left (by decide))
  refine ⟨HttpRequest.encodedLine (HttpService.printedStatus code) (Or.inr ⟨reason, rfl⟩) hspace,
    _, stoul_decimal ?_, ?_⟩
  · have hsmall := code.toNat_lt
    unfold HttpService.printedStatus
    split <;> omega
  · simp [HttpRequest.StatusLine.bytes, HttpRequest.encodedLine, HttpRequest.ascii_crlf]

/-- A request to a service of this repository never calls its callback and never finds the
response invalid, in whatever order its bytes arrive and whatever is cancelled or fails. All
that the service ever sends is the bare status that the request's own bytes decide on. -/
theorem never_called (h : Run settings labels x tr) :
    HttpRequest.callbacks (requestTrace tr) = [] ∧ .rejected ∉ requestTrace tr ∧
      (HttpService.responded (serviceTrace tr) = [] ∨
        ∃ code buffers, HttpService.decided settings.encode = .respond code ∧
          HttpService.statusBuffers code = some buffers ∧
          HttpService.responded (serviceTrace tr) = [buffers]) := by
  obtain ⟨⟨_, hrequest⟩, ⟨_, hservice⟩, hup, hdown, hupReceived, hdownReceived⟩ := h.joined
  have hwritten := (HttpRequest.ConnectedRun.run hrequest).writesEncoding.written
  obtain ⟨rest, hrest⟩ : x.service.received <+: settings.encode :=
    hupReceived ▸ hup.delivered hwritten
  rcases HttpService.ConnectedRun.replied hservice with
    hnone | ⟨code, buffers, hsettled, hbuffers, hone⟩
  · let line := HttpRequest.noFields.status
    have hnothing : x.request.chunks.flatten <+: line.bytes ++ HttpRequest.crlf := by
      rw [hnone] at hdown
      rw [hdownReceived]
      exact hdown.delivered nofun
    obtain ⟨huncalled, hvalid⟩ := hrequest.uncalled_of_bare
      (show stoul line.code = .ok 200 from rfl) hnothing
    exact ⟨huncalled, hvalid, Or.inl hnone⟩
  · obtain ⟨line, value, hvalue, hbytes⟩ := bare_of_statusBuffers hbuffers
    have hreceived : x.request.chunks.flatten <+: line.bytes ++ HttpRequest.crlf := by
      rw [hone] at hdown
      rw [hdownReceived, ← hbytes]
      exact hdown.delivered fun t ht => List.mem_singleton.mp ht
    obtain ⟨huncalled, hvalid⟩ := hrequest.uncalled_of_bare hvalue hreceived
    exact ⟨huncalled, hvalid, Or.inr ⟨code, buffers, hrest ▸ hsettled rest, hbuffers, hone⟩⟩

end

/-- The request takes its next steps. -/
def requestRuns (n : Nat) : List Label := List.replicate n (.request (.run 2))

/-- A completion of the request with the steps that its handler takes. -/
def requestPasses (ec : ErrorCode) (received : Bytes) : List Label :=
  .request (.deliver ec received) :: requestRuns 5

/-- A thread of the service takes its next steps. -/
def serviceRuns (n : Nat) : List Label :=
  List.replicate n (.service (.run 0 0 HttpService.noFiles))

/-- The plain request is sent in two pieces and answered in two pieces, with nothing failing. -/
def plainSchedule : List Label :=
  requestRuns 5 ++ requestPasses .success [] ++ requestPasses .success [] ++
    [.sendUp 20, .sendUp 100] ++ requestPasses .success [] ++
    [.service (.deliver 0 .readRequestLine .success HttpRequest.plainSettings.encode)] ++
    serviceRuns 3 ++ [.sendDown 44, .sendDown 100] ++
    [.service (.deliver 0 .writeResponse .success [])] ++ serviceRuns 3 ++
    requestPasses .success (ascii "HTTP/1.1 505 HTTP Version Not Supported\r\n") ++
    [.request (.deliver .eof (ascii "\r\n"))] ++ requestRuns 2

set_option maxRecDepth 20000 in
/-- The request has received the whole answer, and the end of the stream is all it reports. -/
theorem plainSchedule_uncalled : ∃ x tr, Run HttpRequest.plainSettings plainSchedule x tr ∧
    x.request.request.point = .ended ∧
    x.request.chunks.flatten = ascii "HTTP/1.1 505 HTTP Version Not Supported\r\n\r\n" ∧
    HttpRequest.callbacks (requestTrace tr) = [] := by
  obtain ⟨x, tr, hrun, hended, hchunks⟩ : ∃ x tr,
      Run HttpRequest.plainSettings plainSchedule x tr ∧ x.request.request.point = .ended ∧
      x.request.chunks.flatten = ascii "HTTP/1.1 505 HTTP Version Not Supported\r\n\r\n" :=
    ⟨_, _, rfl, rfl, rfl⟩
  obtain ⟨huncalled, -⟩ := never_called hrun
  exact ⟨x, tr, hrun, hended, hchunks, huncalled⟩

end BoostAsio.HttpExchange

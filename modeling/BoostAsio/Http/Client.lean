import BoostAsio.Core.System.Pool
import BoostAsio.Http.Request.Notification

/-!
# HttpClient: many requests on one I/O thread

`CreateRequest` makes requests on the `io_service` of the client. `Execute` and `Cancel` run
on the threads of their callers; the handlers of all requests run on `m_thread`, one after
the other, and an exception that leaves one of them ends the process. `Close` resets
`m_work` and joins the thread. What a run of the client does with one request is a run of
that request.
-/

namespace BoostAsio.HttpRequest

/-- The request is not inside a handler: it is inside `Execute`, pending or over. -/
def Point.outside : Point → Bool
  | .execute | .checkLock .resolve | .checkFlag .resolve | .checkUnlock .resolve
  | .start .resolve | .abortUnlock | .pending _ _ | .thrown _ | .ended => true
  | .finish ec => ec = .operationAborted
  | _ => false

/-- A handler has returned where an operation is pending again or the request is over. -/
def Point.settled : Point → Bool
  | .pending _ _ | .ended => true
  | _ => false

/-- Asio hands over a completion. -/
def Label.delivers : Label → Bool
  | .deliver _ _ => true
  | _ => false

/-- The code that an event reports to the user or prints. -/
def Event.reported : Event → Option ErrorCode
  | .printed ec | .callback _ ec => some ec
  | .started _ | .delivered _ _ | .stopped | .rejected => none

/-- The codes that a request has reported. -/
def reports (tr : List Event) : List ErrorCode := tr.filterMap Event.reported

theorem reports_append (tr es : List Event) : reports (tr ++ es) = reports tr ++ reports es :=
  List.filterMap_append

section

variable {σ σ' : State} {l : Label} {es : List Event}

theorem State.outside_cancelPending (σ : State) (on : Stage → Bool)
    (h : σ.point.outside = true) : (σ.cancelPending on).point.outside = true := by
  rcases σ.point_cancelPending on with he | ⟨stage, cancelled, -, he⟩
  · rw [he, h]
  · rw [he]
    rfl

theorem State.settled_cancelPending (σ : State) (on : Stage → Bool) :
    (σ.cancelPending on).point.settled = σ.point.settled := by
  rcases σ.point_cancelPending on with he | ⟨stage, cancelled, hpoint, he⟩
  · rw [he]
  · rw [he, hpoint]
    rfl

/-- Outside of its handlers a request stays outside until a completion is handed over, and it
reports no success. -/
theorem Step.outside (h : Step σ l σ' es) (hout : σ.point.outside = true)
    (hl : l.delivers = false) : σ'.point.outside = true ∧ callbacks es = [] := by
  cases h with
  | deliver => cases hl
  | cancelResolver | cancelSocket => exact ⟨State.outside_cancelPending _ _ hout, rfl⟩
  | cancel | cancelLock | cancelSetFlag | cancelClosed | cancelUnlock => exact ⟨hout, rfl⟩
  | @checkLock n next hpoint | @checkPassed n next hpoint | @checkUnlock n next hpoint =>
    cases next <;> simp_all [Point.outside, callbacks]
  | callback hpoint hec =>
    rw [hpoint] at hout
    simp only [Point.outside, decide_eq_true_eq] at hout
    rw [hout] at hec
    cases hec
  | _ => simp_all [Point.outside, callbacks, Event.called]

/-- A request that is pending or over stays so until a completion is handed over. -/
theorem Step.settled (h : Step σ l σ' es) (hsettled : σ.point.settled = true)
    (hl : l.delivers = false) : σ'.point.settled = true := by
  cases h with
  | deliver => cases hl
  | cancelResolver | cancelSocket =>
    rw [State.point_cancelGoto, State.settled_cancelPending]
    exact hsettled
  | cancel | cancelLock | cancelSetFlag | cancelClosed | cancelUnlock => exact hsettled
  | _ => simp_all [Point.settled]

/-- A request that has just started an operation is pending. -/
theorem Step.settled_of_started (h : Step σ l σ' es) {op : Operation} (hm : .started op ∈ es) :
    σ'.point.settled = true := by
  cases h <;> simp_all [Point.settled]

/-- A step reports the code with which the request ends, or nothing. -/
theorem Step.reports_cases (h : Step σ l σ' es) :
    (∃ ec, σ.point = .finish ec ∧ σ'.point = .ended ∧ reports es = [ec]) ∨
      (σ'.point = .ended ↔ σ.point = .ended) ∧ reports es = [] := by
  cases h with
  | print hpoint => exact Or.inl ⟨_, hpoint, rfl, rfl⟩
  | callback hpoint => exact Or.inl ⟨_, hpoint, rfl, rfl⟩
  | cancelResolver | cancelSocket =>
    right
    rw [State.point_cancelGoto]
    rcases σ.point_cancelPending _ with he | ⟨stage, cancelled, hpoint, he⟩
    · rw [he]
      exact ⟨Iff.rfl, rfl⟩
    · rw [he, hpoint]
      exact ⟨by simp, rfl⟩
  | cancel | cancelLock | cancelSetFlag | cancelClosed | cancelUnlock =>
    exact Or.inr ⟨Iff.rfl, rfl⟩
  | _ hpoint => exact Or.inr ⟨by simp [hpoint], rfl⟩

end

/-- A request reports nothing until it is over, and then the one code that was decided on. -/
theorem Run.reports {settings : Settings} {labels : List Label} {σ : State} {tr : List Event}
    (h : Run settings labels σ tr) :
    (σ.point ≠ .ended → HttpRequest.reports tr = []) ∧
      (σ.point = .ended → ∃ ec, outcome tr = some ec ∧ HttpRequest.reports tr = [ec]) := by
  refine System.exec_induction (P := fun _ σ tr =>
    (σ.point ≠ .ended → HttpRequest.reports tr = []) ∧
      (σ.point = .ended → ∃ ec, outcome tr = some ec ∧ HttpRequest.reports tr = [ec]))
    ⟨fun _ => rfl, fun h => by cases h⟩ ?_ h
  intro labels σ tr l σ' es hrun ih hstep
  have hs := step_cases hstep
  rw [reports_append]
  rcases hs.reports_cases with ⟨ec, hpoint, hended, hreports⟩ | ⟨hended, hreports⟩
  · have hnone := ih.1 (by simp [hpoint])
    refine ⟨fun hne => absurd hended hne, fun _ => ⟨ec, ?_, by rw [hnone, hreports]; rfl⟩⟩
    have hdecided := ((Run.tracks hrun).running (by simp [hpoint])).1
    rw [outcome_append, hdecided, hpoint]
    rfl
  · rw [hreports, List.append_nil]
    refine ⟨fun hne => ih.1 (mt hended.mpr hne), fun he => ?_⟩
    obtain ⟨ec, hout, hrep⟩ := ih.2 (hended.mp he)
    exact ⟨ec, by rw [outcome_append, hout]; rfl, hrep⟩

end BoostAsio.HttpRequest

namespace BoostAsio.HttpClient

open BoostAsio.System
open HttpRequest (Settings)

/-- The identity of a request, in the order of `CreateRequest`. -/
abbrev RequestId := Nat

/-- The client's requests and its I/O thread. -/
structure State where
  requests : RequestId → HttpRequest.State
  count : Nat
  /-- The request whose handler `m_thread` runs. -/
  running : Option RequestId

/-- What the callers, the I/O thread and the environment choose. -/
inductive Label
  /-- `CreateRequest`, and the setters called on the request ahead of `Execute`. -/
  | createRequest (settings : Settings)
  | request (i : RequestId) (l : HttpRequest.Label)

/-- What a step makes visible, with the request that it is about. -/
abbrev Event := RequestId × HttpRequest.Event

/-- The client before any request. -/
def State.init : State := ⟨fun _ => .new .new, 0, none⟩

/-- An exception has left a handler: `m_ios.run()` throws, which ends the process. -/
def State.terminated (σ : State) : Bool :=
  match σ.running with
  | some i =>
    match (σ.requests i).point with
    | .thrown _ => true
    | _ => false
  | none => false

/-- The handler that `m_thread` runs behind a step of a request. -/
def State.next (σ : State) (i : RequestId) (l : HttpRequest.Label) (x : HttpRequest.State) :
    Option RequestId :=
  if l.delivers then some i
  else if σ.running = some i ∧ x.point.settled = true then none
  else σ.running

/-- One step of the client. A completion is handed to `m_thread` when it is free. -/
def step (σ : State) : Label → Option (State × List Event)
  | .createRequest settings =>
    if σ.terminated = false then
      some (⟨Function.update σ.requests σ.count (.new settings), σ.count + 1, σ.running⟩, [])
    else none
  | .request i l =>
    if σ.terminated = false ∧ i < σ.count ∧ (l.delivers = true → σ.running = none) then
      (HttpRequest.step (σ.requests i) l).map fun next =>
        (⟨Function.update σ.requests i next.1, σ.count, σ.next i l next.1⟩,
          next.2.map fun e => (i, e))
    else none

/-- A run of the client. -/
abbrev Run (labels : List Label) (σ : State) (tr : List Event) : Prop :=
  exec step State.init labels = some (σ, tr)

/-- What a step does. -/
inductive Step (σ : State) : Label → State → List Event → Prop
  | createRequest {settings} (hlive : σ.terminated = false) :
      Step σ (.createRequest settings)
        ⟨Function.update σ.requests σ.count (.new settings), σ.count + 1, σ.running⟩ []
  | request {i l x es} (hlive : σ.terminated = false) (hi : i < σ.count)
      (hfree : l.delivers = true → σ.running = none)
      (hstep : HttpRequest.step (σ.requests i) l = some (x, es)) :
      Step σ (.request i l) ⟨Function.update σ.requests i x, σ.count, σ.next i l x⟩
        (es.map fun e => (i, e))

theorem step_cases {σ σ' : State} {l : Label} {es : List Event}
    (h : step σ l = some (σ', es)) : Step σ l σ' es := by
  cases l with
  | createRequest settings =>
    simp only [step, Option.ite_none_right_eq_some, Option.some.injEq, Prod.mk.injEq] at h
    obtain ⟨hlive, rfl, rfl⟩ := h
    exact .createRequest hlive
  | request i l =>
    simp only [step, Option.ite_none_right_eq_some, Option.map_eq_some_iff] at h
    obtain ⟨⟨hlive, hi, hfree⟩, ⟨x, fs⟩, hstep, he⟩ := h
    obtain ⟨rfl, rfl⟩ := Prod.mk.inj he
    exact .request hlive hi hfree hstep

/-- The settings of the requests, in the order of their creation. -/
def created (labels : List Label) : List Settings :=
  labels.filterMap fun
    | .createRequest settings => some settings
    | .request _ _ => none

/-- The steps of one request. -/
def Label.of (i : RequestId) : Label → Option HttpRequest.Label
  | .createRequest _ => none
  | .request j l => if j = i then some l else none

/-- The events of one request. -/
def eventsOf (i : RequestId) (tr : List Event) : List HttpRequest.Event :=
  tr.filterMap fun e => if e.1 = i then some e.2 else none

@[simp] theorem eventsOf_append (i : RequestId) (tr es : List Event) :
    eventsOf i (tr ++ es) = eventsOf i tr ++ eventsOf i es := List.filterMap_append

@[simp] theorem eventsOf_map (i j : RequestId) (es : List HttpRequest.Event) :
    eventsOf i (es.map fun e => (j, e)) = if j = i then es else [] := by
  by_cases hj : j = i <;> simp [eventsOf, List.filterMap_map, hj]

theorem mem_eventsOf {i : RequestId} {tr : List Event} {e : HttpRequest.Event} :
    e ∈ eventsOf i tr ↔ (i, e) ∈ tr := by
  simp [eventsOf]

/-- Each request that was created has made a run of its own, and nothing was done with the
others. -/
structure Projects (labels : List Label) (σ : State) (tr : List Event) : Prop where
  length : (created labels).length = σ.count
  run : ∀ i < σ.count, ∃ settings, (created labels)[i]? = some settings ∧
    HttpRequest.Run settings (labels.filterMap (Label.of i)) (σ.requests i) (eventsOf i tr)
  fresh : ∀ i, σ.count ≤ i → labels.filterMap (Label.of i) = [] ∧ eventsOf i tr = []

theorem Projects.step {labels : List Label} {σ σ' : State} {tr es : List Event} {l : Label}
    (hi : Projects labels σ tr) (h : Step σ l σ' es) :
    Projects (labels ++ [l]) σ' (tr ++ es) := by
  cases h with
  | @createRequest settings hlive =>
    have hcreated : created (labels ++ [.createRequest settings]) =
        created labels ++ [settings] := by simp [created]
    have hlabels : ∀ i, (labels ++ [Label.createRequest settings]).filterMap (Label.of i) =
        labels.filterMap (Label.of i) := fun i => by simp [Label.of]
    refine ⟨by rw [hcreated, List.length_append, hi.length]; rfl, fun i hlt => ?_, fun i hle => ?_⟩
    · rw [hcreated, hlabels, List.append_nil]
      rcases Nat.lt_succ_iff_lt_or_eq.mp hlt with hold | rfl
      · rw [List.getElem?_append_left (by rw [hi.length]; exact hold)]
        simpa [Nat.ne_of_lt hold] using hi.run i hold
      · refine ⟨settings, ?_, ?_⟩
        · rw [List.getElem?_append_right (Nat.le_of_eq hi.length), hi.length, Nat.sub_self]
          rfl
        · obtain ⟨hnone, hevents⟩ := hi.fresh σ.count le_rfl
          rw [hnone, hevents]
          simp only [Function.update_self]
          rfl
    · rw [hlabels, List.append_nil]
      exact hi.fresh i (Nat.le_of_succ_le hle)
  | @request j l x es hlive hj hfree hstep =>
    have hcreated : created (labels ++ [.request j l]) = created labels := by simp [created]
    refine ⟨by rw [hcreated, hi.length], fun i hlt => ?_, fun i hle => ?_⟩
    · obtain ⟨settings, hsettings, hrun⟩ := hi.run i hlt
      refine ⟨settings, by rw [hcreated, hsettings], ?_⟩
      rw [List.filterMap_append, eventsOf_append, eventsOf_map]
      by_cases hji : j = i
      · subst hji
        simpa [Label.of] using exec_snoc.mpr ⟨_, _, _, hrun, hstep, rfl⟩
      · simpa [Label.of, hji, Ne.symm hji] using hrun
    · have hji : j ≠ i := Nat.ne_of_lt (Nat.lt_of_lt_of_le hj hle)
      obtain ⟨hnone, hevents⟩ := hi.fresh i hle
      rw [List.filterMap_append, eventsOf_append, eventsOf_map, hnone, hevents]
      simp [Label.of, hji]

/-- What a run of the client does with one request is a run of that request. -/
theorem Run.projects {labels : List Label} {σ : State} {tr : List Event}
    (h : Run labels σ tr) : Projects labels σ tr := by
  have hnew : Projects [] State.init [] :=
    ⟨rfl, fun i hi => absurd hi (Nat.not_lt_zero i), fun _ _ => ⟨rfl, rfl⟩⟩
  exact exec_induction (P := Projects) hnew (fun _ hi hs => hi.step (step_cases hs)) h

/-- The client as a system that its one thread serves. -/
def served : Served State Label Event where
  step := step
  dispatch
    | .request _ (.deliver _ _) => some 0
    | _ => none
  busy σ _ := σ.running.isSome
  working σ := σ.running.isSome || (List.range σ.count).any fun i =>
    match (σ.requests i).point with
    | .pending _ _ => true
    | _ => false

/-- A run of the client and of its thread, from the constructor on. -/
abbrev ClientRun (labels : List (PoolLabel Label)) (p : Pool State) (tr : List Event) : Prop :=
  PoolRun served 1 State.init labels p tr

theorem dispatch_eq_none {i : RequestId} {l : HttpRequest.Label}
    (h : served.dispatch (.request i l) = none) : l.delivers = false := by
  cases l <;> simp_all [served, HttpRequest.Label.delivers]

/-- A request is inside a handler exactly where `m_thread` runs it, and one that has started
an operation is pending, over, or there. -/
structure Serial (σ : State) (tr : List Event) : Prop where
  outside : ∀ i, σ.running ≠ some i → (σ.requests i).point.outside = true
  inside : ∀ i, σ.running = some i → (σ.requests i).point.settled = false
  started : ∀ i op, (i, .started op) ∈ tr →
    σ.running = some i ∨ (σ.requests i).point.settled = true
  created : ∀ i, σ.running = some i → i < σ.count

theorem Serial.init : Serial State.init [] where
  outside i _ := rfl
  inside i h := by cases h
  started i op h := by cases h
  created i h := by cases h

/-- Only the request that moves comes to `m_thread`, or leaves it. -/
theorem State.next_eq_iff {σ : State} {i j : RequestId} {l : HttpRequest.Label}
    {x : HttpRequest.State} (hij : i ≠ j) (hfree : l.delivers = true → σ.running = none) :
    σ.next j l x = some i ↔ σ.running = some i := by
  unfold State.next
  split
  · next hl => simp [hfree hl, Ne.symm hij]
  · split
    · next hr => simp [hr.1, Ne.symm hij]
    · rfl

/-- A request that moves is behind its step inside a handler that goes on, or outside of its
handlers, and pending or over if it has started an operation. -/
theorem Serial.moved {σ : State} {tr : List Event} (hi : Serial σ tr) {j : RequestId}
    {l : HttpRequest.Label} {x : HttpRequest.State} {es : List HttpRequest.Event}
    (hs : HttpRequest.Step (σ.requests j) l x es) :
    (σ.next j l x = some j ∧ x.point.settled = false) ∨
      σ.next j l x ≠ some j ∧ x.point.outside = true ∧
        ∀ op, (j, .started op) ∈ tr ∨ .started op ∈ es → x.point.settled = true := by
  cases hl : l.delivers with
  | true =>
    refine Or.inl ⟨by simp [State.next, hl], ?_⟩
    cases hs <;> simp_all [HttpRequest.Label.delivers, HttpRequest.Point.settled]
  | false =>
    by_cases hr : σ.running = some j
    · cases hx : x.point.settled with
      | true =>
        refine Or.inr ⟨by simp [State.next, hl, hr, hx], ?_, fun _ _ => rfl⟩
        generalize x.point = point at hx ⊢
        cases point <;> simp_all [HttpRequest.Point.settled, HttpRequest.Point.outside]
      | false => exact Or.inl ⟨by simp [State.next, hl, hr, hx], rfl⟩
    · refine Or.inr ⟨by simp [State.next, hl, hr], (hs.outside (hi.outside j hr) hl).1,
        fun op hop => ?_⟩
      rcases hop with hold | hnew
      · exact hs.settled ((hi.started j op hold).resolve_left hr) hl
      · exact hs.settled_of_started hnew

theorem Serial.step {labels : List Label} {σ σ' : State} {tr es : List Event} {l : Label}
    (hi : Serial σ tr) (hrun : Run labels σ tr) (h : Step σ l σ' es) : Serial σ' (tr ++ es) := by
  cases h with
  | @createRequest settings hlive =>
    refine ⟨fun i hr => ?_, fun i hr => ?_, fun i op hm => ?_, fun i hr => ?_⟩
    · by_cases hic : i = σ.count
      · simp [hic, HttpRequest.State.new, HttpRequest.Point.outside]
      · simpa [hic] using hi.outside i hr
    · simpa [Nat.ne_of_lt (hi.created i hr)] using hi.inside i hr
    · rw [List.append_nil] at hm
      have hne : i ≠ σ.count := by
        rintro rfl
        have hnone := (hrun.projects.fresh _ le_rfl).2
        rw [← mem_eventsOf, hnone] at hm
        cases hm
      simpa [hne] using hi.started i op hm
    · exact Nat.lt_succ_of_lt (hi.created i hr)
  | @request j l x es hlive hj hfree hstep =>
    have hmoved := hi.moved (HttpRequest.step_cases hstep)
    refine ⟨fun i hr => ?_, fun i hr => ?_, fun i op hm => ?_, fun i hr => ?_⟩
    · by_cases hij : i = j
      · subst hij
        rcases hmoved with ⟨hnext, -⟩ | ⟨-, hout, -⟩
        · exact absurd hnext hr
        · simpa using hout
      · simpa [hij] using hi.outside i (mt (State.next_eq_iff hij hfree).mpr hr)
    · by_cases hij : i = j
      · subst hij
        rcases hmoved with ⟨-, hsettled⟩ | ⟨hnext, -⟩
        · simpa using hsettled
        · exact absurd hr hnext
      · simpa [hij] using hi.inside i ((State.next_eq_iff hij hfree).mp hr)
    · by_cases hij : i = j
      · subst hij
        rcases hmoved with ⟨hnext, -⟩ | ⟨-, -, hstarted⟩
        · exact Or.inl hnext
        · refine Or.inr ?_
          simpa using hstarted op (by simpa using hm)
      · have hold := hi.started i op (by simpa [Ne.symm hij] using hm)
        simpa [hij] using hold.imp_left (State.next_eq_iff hij hfree).mpr
    · by_cases hij : i = j
      · exact hij ▸ hj
      · exact hi.created i ((State.next_eq_iff hij hfree).mp hr)

theorem Run.serial {labels : List Label} {σ : State} {tr : List Event} (h : Run labels σ tr) :
    Serial σ tr :=
  exec_induction (P := fun _ σ tr => Serial σ tr) .init
    (fun hrun hi hs => hi.step hrun (step_cases hs)) h

/-- Without a completion to run, `m_thread` stays idle, and no callback is invoked. -/
theorem exec_idle {before labels : List Label} {σ σ' : State} {tr es : List Event}
    (hrun : Run before σ tr) (h : exec step σ labels = some (σ', es)) (hidle : σ.running = none)
    (hnone : ∀ l ∈ labels, served.dispatch l = none) :
    σ'.running = none ∧ ∀ i, HttpRequest.callbacks (eventsOf i es) = [] := by
  revert hnone
  refine exec_induction (P := fun labels σ' es => (∀ l ∈ labels, served.dispatch l = none) →
    σ'.running = none ∧ ∀ i, HttpRequest.callbacks (eventsOf i es) = [])
    (fun _ => ⟨hidle, fun i => rfl⟩) ?_ h
  intro labels ρ fs l ρ' gs hexec ih hstep hnone
  obtain ⟨hρ, hcalls⟩ := ih fun m hm => hnone m (List.mem_append_left _ hm)
  have hl := hnone l (List.mem_append_right _ (List.mem_singleton_self l))
  have hserial := Run.serial (exec_append_iff.mpr ⟨σ, tr, fs, hrun, hexec, rfl⟩)
  cases step_cases hstep with
  | createRequest => exact ⟨hρ, fun i => by simpa using hcalls i⟩
  | @request j l x es hlive hj hfree hinner =>
    have hquiet := dispatch_eq_none hl
    refine ⟨by simp [State.next, hquiet, hρ], fun i => ?_⟩
    have hout := (HttpRequest.step_cases hinner).outside (hserial.outside j (by simp [hρ])) hquiet
    rw [eventsOf_append, eventsOf_map, HttpRequest.callbacks_append, hcalls i, List.nil_append]
    split
    · exact hout.2
    · rfl

/-- What is over stays over and reports nothing more. -/
theorem exec_ended {labels : List Label} {σ σ' : State} {es : List Event} {i : RequestId}
    (h : exec step σ labels = some (σ', es)) (hi : i < σ.count)
    (hended : (σ.requests i).point = .ended) :
    i < σ'.count ∧ (σ'.requests i).point = .ended ∧ HttpRequest.reports (eventsOf i es) = [] := by
  refine exec_induction (P := fun _ σ' es => i < σ'.count ∧ (σ'.requests i).point = .ended ∧
    HttpRequest.reports (eventsOf i es) = []) ⟨hi, hended, rfl⟩ ?_ h
  rintro labels ρ fs l ρ' gs - ⟨hlt, hρ, hnone⟩ hstep
  rw [eventsOf_append, HttpRequest.reports_append, hnone, List.nil_append]
  cases step_cases hstep with
  | createRequest => exact ⟨Nat.lt_succ_of_lt hlt, by simpa [Nat.ne_of_lt hlt] using hρ, rfl⟩
  | @request j l x es hlive hj hfree hinner =>
    refine ⟨hlt, ?_⟩
    rw [eventsOf_map]
    by_cases hij : i = j
    · subst hij
      rcases (HttpRequest.step_cases hinner).reports_cases with ⟨ec, hpoint, -⟩ | ⟨hiff, hquiet⟩
      · rw [hρ] at hpoint
        cases hpoint
      · simpa using ⟨hiff.mpr hρ, hquiet⟩
    · simpa [hij, Ne.symm hij] using ⟨hρ, rfl⟩

/-- Where nothing is left to do, every request that has started an operation is over. -/
theorem ended_of_not_working {labels : List Label} {σ : State} {tr : List Event}
    (h : Run labels σ tr) (hdone : served.working σ = false) {i : RequestId}
    {op : HttpRequest.Operation} (hm : (i, .started op) ∈ tr) :
    i < σ.count ∧ (σ.requests i).point = .ended := by
  simp only [served, Bool.or_eq_false_iff, Option.isSome_eq_false_iff, Option.isNone_iff_eq_none,
    List.any_eq_false, List.mem_range] at hdone
  have hlt : i < σ.count := by
    by_contra hle
    rw [← mem_eventsOf, (h.projects.fresh i (Nat.le_of_not_lt hle)).2] at hm
    cases hm
  have hsettled := (h.serial.started i op hm).resolve_left (by simp [hdone.1])
  have hpending := hdone.2 i hlt
  refine ⟨hlt, ?_⟩
  generalize (σ.requests i).point = point at hsettled hpending ⊢
  cases point <;> simp_all [HttpRequest.Point.settled]

/-- `Execute` of this request has returned: it has started the first operation, or it has found
the request cancelled and reported that. -/
def Executed (σ : State) (tr : List Event) (i : RequestId) : Prop :=
  (∃ op, (i, .started op) ∈ tr) ∨ i < σ.count ∧ (σ.requests i).point = .ended

/-- When `Close` has returned, every request whose `Execute` had returned before is over, has
reported the one code that its history decides on, and has invoked its callback exactly if that
is a success; it reports nothing more. No callback is invoked any more for any request. -/
theorem close_settles {before after : List (PoolLabel Label)} {q p : Pool State}
    {tr₀ tr : List Event} (hbefore : ClientRun before q tr₀)
    (h : ClientRun (before ++ .close :: after) p tr) (hclosed : p.joined = some 1) :
    (∀ i, Executed q.inner tr₀ i → (p.inner.requests i).point = .ended ∧
      (∃ ec, HttpRequest.outcome (eventsOf i tr) = some ec ∧
        HttpRequest.reports (eventsOf i tr) = [ec] ∧
        HttpRequest.callbacks (eventsOf i tr) = HttpRequest.notified ec) ∧
      ∀ more p' es, exec (served.poolStep 1) p more = some (p', es) →
        (p'.inner.requests i).point = .ended ∧ HttpRequest.reports (eventsOf i es) = []) ∧
    ∀ more p' es, exec (served.poolStep 1) p more = some (p', es) →
      ∀ i, HttpRequest.callbacks (eventsOf i es) = [] := by
  have hrun : Run (innerLabels (before ++ .close :: after)) p.inner tr := exec_innerLabels h
  obtain ⟨front, back, ρ, es, fs, hlabels, rfl, hfront, hback, hdone, hnone⟩ :=
    PoolRun.close_moment (by decide) hbefore h hclosed
  have hρ : Run (innerLabels before ++ front) ρ (tr₀ ++ es) :=
    exec_append_iff.mpr ⟨_, _, _, exec_innerLabels hbefore, hfront, rfl⟩
  refine ⟨fun i hi => ?_, fun more p' gs hmore i => ?_⟩
  · have hover : i < ρ.count ∧ (ρ.requests i).point = .ended := by
      rcases hi with ⟨op, hop⟩ | ⟨hlt, hended⟩
      · exact ended_of_not_working hρ hdone (List.mem_append_left _ hop)
      · obtain ⟨hlt, hended, -⟩ := exec_ended hfront hlt hended
        exact ⟨hlt, hended⟩
    obtain ⟨hlt, hended, -⟩ := exec_ended hback hover.1 hover.2
    obtain ⟨settings, -, hproject⟩ := hrun.projects.run i hlt
    obtain ⟨ec, hout, hreports⟩ := hproject.reports.2 hended
    obtain ⟨code, hcode, hcalls⟩ := hproject.tracks.finished hended
    obtain rfl := Option.some.inj (hout.symm.trans hcode)
    exact ⟨hended, ⟨ec, hout, hreports, hcalls⟩, fun more p' gs hmore =>
      (exec_ended (exec_innerLabels hmore) hlt hended).2⟩
  · have hidle : ρ.running = none := by
      simp only [served, Bool.or_eq_false_iff, Option.isSome_eq_false_iff,
        Option.isNone_iff_eq_none] at hdone
      exact hdone.1
    have hend := exec_idle hρ hback hidle hnone
    have hstopped := exec_stopped hmore (PoolRun.stopped_of_closed h (by decide) hclosed)
    exact (exec_idle hrun (exec_innerLabels hmore) hend.1 hstopped.2).2 i

/-- One request that succeeds, with `Close` called while its host is resolved. -/
def closeSchedule : List (PoolLabel Label) :=
  (.inner (.createRequest HttpRequest.plainSettings) ::
    (HttpRequest.successSchedule.take 5).map fun l => .inner (.request 0 l)) ++
    .close :: ((HttpRequest.successSchedule.drop 5).map (fun l => .inner (.request 0 l)) ++
      [.leave 0, .join])

set_option maxRecDepth 4000 in
/-- `Close` returns behind the callback of the request. -/
theorem closeSchedule_settles : ∃ p tr, ClientRun closeSchedule p tr ∧ p.joined = some 1 ∧
    ∃ ec, HttpRequest.reports (eventsOf 0 tr) = [ec] := by
  obtain ⟨q, tr₀, p, tr, hq, hp, hstarted, hclosed⟩ : ∃ q tr₀ p tr,
      ClientRun (.inner (.createRequest HttpRequest.plainSettings) ::
        (HttpRequest.successSchedule.take 5).map fun l => .inner (.request 0 l)) q tr₀ ∧
        ClientRun closeSchedule p tr ∧
        (0, .started (.asyncResolve (ascii "h") (ascii "80"))) ∈ tr₀ ∧ p.joined = some 1 :=
    ⟨_, _, _, _, rfl, rfl, .head _, rfl⟩
  obtain ⟨-, ⟨ec, -, hreports, -⟩, -⟩ := (close_settles hq hp hclosed).1 0 (.inl ⟨_, hstarted⟩)
  exact ⟨p, tr, hp, hclosed, ec, hreports⟩

end BoostAsio.HttpClient

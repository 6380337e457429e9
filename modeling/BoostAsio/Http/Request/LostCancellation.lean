import BoostAsio.Http.Request.Notification
import BoostAsio.Http.Request.Schedule

/-!
# The window between the check and the start

`IsCancelled` releases the mutex before the operation behind it is started. A `Cancel`
that runs in between finds nothing to cancel, and the operation is started all the same.
Every other cancellation reaches whatever is pending when it returns.
-/

namespace BoostAsio.HttpRequest

open BoostAsio.System

/-- The call of `Cancel` that reaches an operation of this stage. -/
def Stage.canceller : Stage → CancelPoint
  | .resolve => .cancelResolver
  | .connect | .write | .statusLine | .headers | .body => .cancelSocket

/-- The point behind a step of `Cancel`. -/
def CancelPoint.next : CancelPoint → CancelPoint
  | .idle | .unlock => .idle
  | .lock => .setFlag
  | .setFlag => .cancelResolver
  | .cancelResolver => .cancelSocket
  | .cancelSocket => .unlock

/-- What a handler reads lets it start the next operation. -/
def State.Starts (σ : State) : Stage → Prop
  | .resolve | .connect | .write | .statusLine => True
  | .headers => ∃ m, readStatusLine σ.response = .ok m
  | .body => ∃ fuel m, readHeaders fuel σ.response = some m

/-- Points behind the start of the connect, which opens the socket. -/
def Point.connected : Point → Bool
  | .execute | .abortUnlock | .ended | .finish _ | .thrown _ => false
  | .checkLock next | .checkFlag next | .checkUnlock next | .start next =>
    next ≠ .resolve ∧ next ≠ .connect
  | .pending stage _ | .handler stage _ => stage ≠ .resolve

/-- An operation is pending that neither a `cancel` nor a completion has reached. -/
def Escapes (x : Scheduled) (stage : Stage) : Prop :=
  x.request.point = .pending stage false ∧ x.queued = none

/-- `Cancel` calls the `cancel` for an operation that is still going to be started. -/
def Misses (x : Scheduled) (c : Choice) : Prop :=
  ∃ t next, c = .request (.runCancel t) ∧ x.request.cancels t = next.canceller ∧
    x.request.point = .start next ∧ x.request.Starts next

section

variable {σ σ' : State} {l : Label} {es : List Event} {stage : Stage}

/-- Where `cancel` has not reached a pending operation the request stands where it stood. -/
theorem State.point_of_cancelPending {on : Stage → Bool} {p : Point}
    (hp : (σ.cancelPending on).point = p) (hne : ∀ r, p ≠ .pending r true) : σ.point = p := by
  rcases σ.point_cancelPending on with he | ⟨r, cancelled, -, he⟩
  · exact he.symm.trans hp
  · exact absurd (hp.symm.trans he) (hne r)

/-- The flag is checked in front of every start. -/
theorem Step.new_start (h : Step σ l σ' es) (hp : σ'.point = .start stage) :
    σ.point = .start stage ∧ σ'.response = σ.response ∨ σ.point = .checkUnlock stage := by
  cases h with
  | cancelResolver | cancelSocket =>
    exact Or.inl ⟨State.point_of_cancelPending hp (by simp), by simp⟩
  | cancel | cancelLock | cancelSetFlag | cancelClosed | cancelUnlock => exact Or.inl ⟨hp, rfl⟩
  | checkUnlock hpoint =>
    obtain rfl := Point.start.inj hp
    exact Or.inr hpoint
  | _ => simp at hp

/-- An operation is pending from its start on. -/
theorem Step.new_pending (h : Step σ l σ' es) (hp : σ'.point = .pending stage false) :
    σ.point = .pending stage false ∨ σ.point = .start stage ∧ σ.Starts stage := by
  cases h with
  | cancelResolver | cancelSocket =>
    exact Or.inl (State.point_of_cancelPending hp (by simp))
  | cancel | cancelLock | cancelSetFlag | cancelClosed | cancelUnlock => exact Or.inl hp
  | startResolve hpoint | startConnect hpoint | startWrite hpoint | startStatusLine hpoint =>
    obtain ⟨rfl, -⟩ := Point.pending.inj hp
    exact Or.inr ⟨hpoint, trivial⟩
  | startHeaders hpoint hread =>
    obtain ⟨rfl, -⟩ := Point.pending.inj hp
    exact Or.inr ⟨hpoint, _, hread⟩
  | startBody hpoint hread =>
    obtain ⟨rfl, -⟩ := Point.pending.inj hp
    exact Or.inr ⟨hpoint, _, _, hread⟩
  | _ => simp at hp

/-- The check is passed with a clear flag only. -/
theorem Step.new_checkUnlock (h : Step σ l σ' es) (hp : σ'.point = .checkUnlock stage) :
    σ.point = .checkUnlock stage ∨ σ.wasCancelled = false := by
  cases h with
  | cancelResolver | cancelSocket =>
    exact Or.inl (State.point_of_cancelPending hp (by simp))
  | cancel | cancelLock | cancelSetFlag | cancelClosed | cancelUnlock => exact Or.inl hp
  | checkPassed hpoint hflag => exact Or.inr hflag
  | _ => simp at hp

/-- The socket is open from the start of the connect on. -/
theorem Step.connected (h : Step σ l σ' es)
    (hi : σ.point.connected = true → σ.sockOpen = true) :
    σ'.point.connected = true → σ'.sockOpen = true := by
  intro hp
  cases h with
  | cancelResolver | cancelSocket =>
    rw [State.sockOpen_cancelGoto, State.sockOpen_cancelPending]
    rw [State.point_cancelGoto] at hp
    rcases σ.point_cancelPending _ with he | ⟨r, cancelled, hpoint, he⟩
    · exact hi (he ▸ hp)
    · rw [he] at hp
      exact hi (hpoint ▸ hp)
  | cancel | cancelLock | cancelSetFlag | cancelClosed | cancelUnlock => exact hi hp
  | @handlerNext n r next ec hpoint hnext =>
    refine hi ?_
    cases r <;> simp_all [Point.connected, Stage.next]
  | _ => simp_all [Point.connected]

/-- A thread moves on inside `Cancel` by its own steps. -/
theorem Step.new_cancelPoint (h : Step σ l σ' es) {t : ThreadId} {c : CancelPoint}
    (ht : σ'.cancels t = c) :
    σ.cancels t = c ∨ c = .lock ∨ l = .runCancel t ∧ (σ.cancels t).next = c := by
  cases h with
  | @cancel u hu | @cancelLock u hu | @cancelSetFlag u hu | @cancelResolver u hu
  | @cancelSocket u hu | @cancelClosed u hu | @cancelUnlock u hu =>
    by_cases htu : t = u <;> simp_all [CancelPoint.next]
  | _ => exact Or.inl ht

/-- `cancel` leaves nothing pending of what it reaches. -/
theorem State.point_cancelPending_ne (σ : State) {on : Stage → Bool} (hon : on stage = true) :
    (σ.cancelPending on).point ≠ .pending stage false := by
  intro hp
  cases hpoint : σ.point with
  | pending r cancelled => by_cases hr : on r <;> simp_all [State.cancelPending]
  | _ => simp [State.cancelPending, hpoint] at hp

/-- A call of `Cancel` reaches the operations that it is made for. -/
theorem Step.reaches (h : Step σ l σ' es) {t : ThreadId} (hl : l = .runCancel t)
    (ht : σ.cancels t = stage.canceller)
    (hopen : σ.point.connected = true → σ.sockOpen = true)
    (hp : σ.point = .pending stage false) : σ'.point ≠ .pending stage false := by
  cases h with
  | cancelResolver hu =>
    obtain rfl := Label.runCancel.inj hl
    refine σ.point_cancelPending_ne (decide_eq_true ?_)
    cases stage <;> simp_all [Stage.canceller]
  | cancelSocket hu =>
    obtain rfl := Label.runCancel.inj hl
    refine σ.point_cancelPending_ne (decide_eq_true ?_)
    cases stage <;> simp_all [Stage.canceller]
  | cancelClosed hu hclosed =>
    obtain rfl := Label.runCancel.inj hl
    have hresolve : stage ≠ .resolve := by
      rintro rfl
      simp [hu, Stage.canceller] at ht
    rw [hopen (by simp [hp, Point.connected, hresolve])] at hclosed
    cases hclosed
  | _ => cases stage <;> simp_all [Stage.canceller]

theorem State.starts_congr (h : σ'.response = σ.response) : σ'.Starts stage ↔ σ.Starts stage := by
  cases stage <;> simp [State.Starts, h]

end

/-- No operation of this stage escapes, now or by the start that the request stands at. -/
structure Clear (x : Scheduled) (stage : Stage) : Prop where
  start : x.request.point = .start stage → ¬x.request.Starts stage
  pending : ¬Escapes x stage

/-- What the calls of `Cancel` have reached. -/
structure Reached (x : Scheduled) : Prop where
  connected : x.request.point.connected = true → x.request.sockOpen = true
  resolver : ∀ t, x.request.cancels t = .cancelSocket → Clear x .resolve
  socket : ∀ t, x.request.cancels t = .unlock → ∀ stage, Clear x stage
  returned : x.returned = true → ∀ stage, Clear x stage ∧ x.request.point ≠ .checkUnlock stage

section

variable {x y : Scheduled} {c : Choice} {es : List Event} {stage : Stage} {t : ThreadId}

/-- Behind the checks nothing of the stage is started. -/
theorem Clear.step (hi : Clear x stage) (hcheck : x.request.point ≠ .checkUnlock stage)
    (h : ScheduledStep x c y es) : Clear y stage where
  start hp := by
    cases h with
    | request hs hl =>
      rcases hs.new_start hp with ⟨hold, hresponse⟩ | hnew
      · rw [State.starts_congr hresponse]
        exact hi.start hold
      · exact absurd hnew hcheck
    | complete => exact hi.start hp
    | dispatch => simp at hp
  pending := by
    rintro ⟨hp, hq⟩
    cases h with
    | request hs hl =>
      rcases hs.new_pending hp with hold | ⟨hstart, hstarts⟩
      · exact hi.pending ⟨hold, hq⟩
      · exact hi.start hstart hstarts
    | complete => cases hq
    | dispatch => simp at hp

/-- A thread moves on inside `Cancel` by its own choices. -/
theorem ScheduledStep.new_cancelPoint (h : ScheduledStep x c y es) {p : CancelPoint}
    (ht : y.request.cancels t = p) (hp : p ≠ .lock) :
    x.request.cancels t = p ∨
      c = .request (.runCancel t) ∧ (x.request.cancels t).next = p := by
  cases h with
  | request hs hl =>
    rcases hs.new_cancelPoint ht with hold | he | ⟨rfl, hnext⟩
    · exact Or.inl hold
    · exact absurd he hp
    · exact Or.inr ⟨rfl, hnext⟩
  | complete => exact Or.inl ht
  | dispatch => exact Or.inl ht

/-- A `Cancel` behind its lock keeps the request out of `IsCancelled`. -/
theorem Locking.not_checkUnlock {σ : State} (hi : Locking σ)
    (ht : (σ.cancels t).holdsMux = true) (stage : Stage) : σ.point ≠ .checkUnlock stage := by
  intro he
  have hout := hi.not_both ht
  simp [he, Point.holdsMux] at hout

/-- A call of `Cancel` that is not made for a later start clears the stages it is made for. -/
theorem Reached.clear (hi : Reached x) (hl : Locking x.request) (h : ScheduledStep x c y es)
    (hc : c = .request (.runCancel t)) (ht : x.request.cancels t = stage.canceller)
    (hmiss : ¬Misses x c) : Clear y stage := by
  have hcheck : x.request.point ≠ .checkUnlock stage :=
    hl.not_checkUnlock (t := t) (by rw [ht]; cases stage <;> rfl) stage
  have hstart : x.request.point = .start stage → ¬x.request.Starts stage :=
    fun hp hs => hmiss ⟨t, stage, hc, ht, hp, hs⟩
  subst hc
  cases h with
  | request hs =>
    constructor
    · intro hp
      rcases hs.new_start hp with ⟨hold, hresponse⟩ | hnew
      · rw [State.starts_congr hresponse]
        exact hstart hold
      · exact absurd hnew hcheck
    · rintro ⟨hp, -⟩
      rcases hs.new_pending hp with hold | ⟨hp', hs'⟩
      · exact hs.reaches rfl ht hi.connected hold hp
      · exact hstart hp' hs'

/-- What was reached stays reached, and a `Cancel` that misses nothing reaches the rest. -/
theorem Reached.step (hi : Reached x) (hf : Flagged x) (h : ScheduledStep x c y es)
    (hmiss : ¬Misses x c) : Reached y where
  connected := by
    rcases h.request_step with ⟨l, hl⟩ | ⟨he, -⟩
    · exact hl.connected hi.connected
    · rw [he]
      exact hi.connected
  resolver t ht := by
    rcases h.new_cancelPoint ht (by simp) with hold | ⟨hc, hnext⟩
    · have hout := hf.locking.not_checkUnlock (t := t) (by rw [hold]; rfl) .resolve
      exact (hi.resolver t hold).step hout h
    · refine hi.clear hf.locking h hc ?_ hmiss
      cases hp : x.request.cancels t <;> simp_all [CancelPoint.next, Stage.canceller]
  socket t ht stage := by
    rcases h.new_cancelPoint ht (by simp) with hold | ⟨hc, hnext⟩
    · have hout := hf.locking.not_checkUnlock (t := t) (by rw [hold]; rfl) stage
      exact (hi.socket t hold stage).step hout h
    · have hold : x.request.cancels t = .cancelSocket := by
        cases hp : x.request.cancels t <;> simp_all [CancelPoint.next]
      have hout := hf.locking.not_checkUnlock (t := t) (by rw [hold]; rfl) stage
      -- The resolve was reached by the call before.
      by_cases hs : stage = .resolve
      · subst hs
        exact (hi.resolver t hold).step hout h
      · refine hi.clear hf.locking h hc ?_ hmiss
        cases stage <;> simp_all [Stage.canceller]
  returned hret stage := by
    obtain ⟨hclear, hcheck, hflag⟩ : Clear x stage ∧ x.request.point ≠ .checkUnlock stage ∧
        x.request.wasCancelled = true := by
      have hold : x.returned = true → Clear x stage ∧ x.request.point ≠ .checkUnlock stage ∧
          x.request.wasCancelled = true := fun hr =>
        ⟨(hi.returned hr stage).1, (hi.returned hr stage).2, hf.returned hr⟩
      cases h with
      | @request l τ es hs hl =>
        rcases Bool.or_eq_true_iff.mp hret with hr | hnew
        · exact hold hr
        · cases l with
          | runCancel t =>
            have ht : x.request.cancels t = .unlock := by simpa [returns] using hnew
            exact ⟨hi.socket t ht stage,
              hf.locking.not_checkUnlock (t := t) (by rw [ht]; rfl) stage,
              hf.locking.flagged t (by rw [ht]; rfl)⟩
          | _ => cases hnew
      | complete => exact hold hret
      | dispatch => exact hold hret
    refine ⟨hclear.step hcheck h, fun hp => ?_⟩
    rcases h.request_step with ⟨l, hl⟩ | ⟨he, -⟩
    · rcases hl.new_checkUnlock hp with hpoint | hnot
      · exact hcheck hpoint
      · rw [hflag] at hnot
        cases hnot
    · exact hcheck (he ▸ hp)

end

theorem Reached.new (settings : Settings) : Reached (.new settings) where
  connected h := by cases h
  resolver t h := by cases h
  socket t h := by cases h
  returned h := by cases h

/-- After a `Cancel` has returned, no operation is pending that escaped it. -/
def NothingEscapes (settings : Settings) (choices : List Choice) : Prop :=
  ∀ pre x tr, pre <+: choices → ScheduledRun settings pre x tr → x.returned = true →
    ∀ stage, ¬Escapes x stage

/-- A run in which no `Cancel` misses a start reaches everything that is pending. -/
theorem ScheduledRun.reached {settings : Settings} {choices : List Choice} {x : Scheduled}
    {tr : List Event} (h : ScheduledRun settings choices x tr)
    (hmiss : ∀ x c, StepOnRun schedule (.new settings) choices x c → ¬Misses x c) :
    Reached x := by
  revert hmiss
  refine exec_induction (P := fun choices x _ =>
    (∀ x c, StepOnRun schedule (.new settings) choices x c → ¬Misses x c) → Reached x) ?_ ?_ h
  · intro _
    exact .new settings
  · intro choices x tr c y es hrun ih hs hmiss
    refine (ih fun z b hz => hmiss z b (stepOnRun_snoc.mpr (Or.inl hz))).step
      (ScheduledRun.flagged hrun) (schedule_cases hs) ?_
    exact hmiss x c (stepOnRun_snoc.mpr (Or.inr ⟨rfl, tr, hrun⟩))

/-- Only Asio takes a request away from its pending operation. -/
theorem Step.stays_pending {σ σ' : State} {l : Label} {es : List Event} {stage : Stage}
    {cancelled : Bool} (h : Step σ l σ' es) (hp : σ.point = .pending stage cancelled)
    (hl : ∀ ec received, l ≠ .deliver ec received) :
    ∃ cancelled', σ'.point = .pending stage cancelled' := by
  cases h with
  | cancelResolver | cancelSocket =>
    rw [State.point_cancelGoto]
    rcases σ.point_cancelPending _ with he | ⟨r, c, hpoint, he⟩
    · exact ⟨cancelled, he.trans hp⟩
    · obtain ⟨rfl, -⟩ := Point.pending.inj (hpoint.symm.trans hp)
      exact ⟨true, he⟩
  | cancel | cancelLock | cancelSetFlag | cancelClosed | cancelUnlock => exact ⟨cancelled, hp⟩
  | deliver => exact absurd rfl (hl _ _)
  | _ => simp_all

/-- A completion is queued for a pending operation only. -/
theorem ScheduledRun.pending_of_queued {settings : Settings} {choices : List Choice}
    {x : Scheduled} {tr : List Event} (h : ScheduledRun settings choices x tr)
    (hq : x.queued ≠ none) : ∃ stage cancelled, x.request.point = .pending stage cancelled := by
  refine ScheduledRun.induction (P := fun x _ => x.queued ≠ none →
    ∃ stage cancelled, x.request.point = .pending stage cancelled) ?_ ?_ h hq
  · intro hq
    exact absurd rfl hq
  · rintro choices x tr c y es - hi hs hq
    cases hs with
    | request hs hl =>
      obtain ⟨stage, cancelled, hp⟩ := hi hq
      exact ⟨stage, hs.stays_pending hp hl⟩
    | @complete ec received hnone hec =>
      cases hp : x.request.point with
      | pending stage cancelled => exact ⟨stage, cancelled, rfl⟩
      | _ => simp [State.completes, hp] at hec
    | dispatch => exact absurd rfl hq

/-- The call of `Cancel` that a thread is in returns and leaves the request where it stands
to start an operation. -/
def Passes (x : Scheduled) (t : ThreadId) (next : Stage) : Prop :=
  ∃ post y, exec schedule x (.request (.runCancel t) :: post) = some (y, []) ∧
    y.returned = true ∧ y.queued = x.queued ∧ y.request.point = .start next ∧
    y.request.response = x.request.response

section

variable {x : Scheduled} {next : Stage} {t : ThreadId}

/-- A step of the call, with the state that it leads to. -/
theorem schedule_runCancel {τ : State} (hs : Step x.request (.runCancel t) τ []) :
    schedule x (.request (.runCancel t)) =
      some ({ x with request := τ, returned := x.returned || returns x.request (.runCancel t) },
        []) := by
  simp [schedule, hs.eq_some]

/-- A step of the call in front of the rest of it. -/
theorem Passes.head {τ : State} (hs : Step x.request (.runCancel t) τ [])
    (hresponse : τ.response = x.request.response)
    (h : Passes { x with request := τ, returned := x.returned || returns x.request (.runCancel t) }
      t next) : Passes x t next := by
  obtain ⟨post, y, hrun, hret, hq, hp, hr⟩ := h
  exact ⟨_, y, exec_cons.mpr ⟨_, _, _, schedule_runCancel hs, hrun, rfl⟩, hret, hq, hp,
    hr.trans hresponse⟩

theorem passes_of_unlock (hp : x.request.point = .start next)
    (ht : x.request.cancels t = .unlock) : Passes x t next := by
  refine ⟨[], _, exec_cons.mpr ⟨_, _, _, schedule_runCancel (.cancelUnlock ht), rfl, rfl⟩, ?_,
    rfl, hp, rfl⟩
  simp [returns, ht]

theorem passes_of_cancelSocket (hp : x.request.point = .start next)
    (ht : x.request.cancels t = .cancelSocket) : Passes x t next := by
  cases hopen : x.request.sockOpen with
  | true =>
    refine Passes.head (.cancelSocket ht hopen) (by simp) (passes_of_unlock ?_ (by simp))
    simp [State.cancelPending, hp]
  | false => exact Passes.head (.cancelClosed ht hopen) rfl (passes_of_unlock hp (by simp))

theorem passes_of_cancelResolver (hp : x.request.point = .start next)
    (ht : x.request.cancels t = .cancelResolver) : Passes x t next := by
  refine Passes.head (.cancelResolver ht) (by simp) (passes_of_cancelSocket ?_ (by simp))
  simp [State.cancelPending, hp]

/-- The operation is started however late. -/
theorem Step.of_starts {σ : State} (hp : σ.point = .start next) (hs : σ.Starts next) :
    ∃ fuel σ' es, Step σ (.run fuel) σ' es ∧ σ'.point = .pending next false := by
  cases next with
  | resolve => exact ⟨0, _, _, .startResolve hp, rfl⟩
  | connect => exact ⟨0, _, _, .startConnect hp, rfl⟩
  | write => exact ⟨0, _, _, .startWrite hp, rfl⟩
  | statusLine => exact ⟨0, _, _, .startStatusLine hp, rfl⟩
  | headers =>
    obtain ⟨m, hm⟩ := hs
    exact ⟨0, _, _, .startHeaders hp hm, rfl⟩
  | body =>
    obtain ⟨fuel, m, hm⟩ := hs
    exact ⟨fuel, _, _, .startBody hp hm, rfl⟩

/-- From a missed start the request can come to a pending operation that escapes. -/
theorem Misses.escapes {c : Choice} (h : Misses x c) (hq : x.queued = none) :
    ∃ post y es, exec schedule x (c :: post) = some (y, es) ∧ y.returned = true ∧
      ∃ stage, Escapes y stage := by
  obtain ⟨t, next, rfl, ht, hp, hstarts⟩ := h
  have hpasses : Passes x t next := by
    cases next with
    | resolve => exact passes_of_cancelResolver hp ht
    | connect | write | statusLine | headers | body => exact passes_of_cancelSocket hp ht
  obtain ⟨post, y, hrun, hret, hqy, hpy, hresponse⟩ := hpasses
  obtain ⟨fuel, τ, es, hs, hpending⟩ :=
    Step.of_starts hpy ((State.starts_congr hresponse).mpr hstarts)
  refine ⟨post ++ [.request (.run fuel)], { y with request := τ }, es, ?_, hret, next, hpending,
    hqy.trans hq⟩
  rw [← List.cons_append]
  refine exec_snoc.mpr ⟨y, [], es, hrun, ?_, rfl⟩
  simp [schedule, hs.eq_some, returns, hret]

/-- A run in which no `Cancel` misses a start keeps its cancellations, and whenever one does
the run can go on to an operation that escapes. -/
theorem cancellation_kept (settings : Settings) (choices : List Choice) :
    ((∀ x c, StepOnRun schedule (.new settings) choices x c → ¬Misses x c) →
        NothingEscapes settings choices) ∧
      ∀ x c, StepOnRun schedule (.new settings) choices x c → Misses x c →
        ∃ pre post y tr, pre ++ [c] <+: choices ∧
          ScheduledRun settings (pre ++ c :: post) y tr ∧
          ¬NothingEscapes settings (pre ++ c :: post) := by
  constructor
  · intro hmiss pre x tr hpre hrun hret stage
    refine ((ScheduledRun.reached hrun fun z c hz => hmiss z c ?_).returned hret stage).1.pending
    obtain ⟨front, hfront, htr⟩ := hz
    exact ⟨front, hfront.trans hpre, htr⟩
  · rintro x c ⟨pre, hpre, tr, hrun⟩ hmiss
    have hq : x.queued = none := by
      by_contra hq
      obtain ⟨stage, cancelled, hpending⟩ := ScheduledRun.pending_of_queued hrun hq
      obtain ⟨t, next, -, -, hp, -⟩ := hmiss
      simp [hp] at hpending
    obtain ⟨post, y, es, hpost, hret, stage, hescapes⟩ := hmiss.escapes hq
    have hall : ScheduledRun settings (pre ++ c :: post) y (tr ++ es) :=
      exec_append_iff.mpr ⟨x, tr, es, hrun, hpost, rfl⟩
    exact ⟨pre, post, y, tr ++ es, hpre, hall, fun hnone =>
      hnone _ y _ List.prefix_rfl hall hret stage hescapes⟩

end

/-- `Execute` has found the flag clear, and a `Cancel` is about to cancel the resolver. -/
def windowSchedule : List Choice :=
  List.replicate 4 (.request (.run 0)) ++ [.request (.cancel 0)] ++
    List.replicate 2 (.request (.runCancel 0))

/-- Whatever else it does, the call can be lost now. -/
theorem windowSchedule_lost : ∃ pre post y tr,
    pre ++ [.request (.runCancel 0)] <+: windowSchedule ++ [.request (.runCancel 0)] ∧
      ScheduledRun plainSettings (pre ++ .request (.runCancel 0) :: post) y tr ∧
      ¬NothingEscapes plainSettings (pre ++ .request (.runCancel 0) :: post) := by
  obtain ⟨x, tr, hrun, ht, hp⟩ : ∃ x tr, ScheduledRun plainSettings windowSchedule x tr ∧
      x.request.cancels 0 = .cancelResolver ∧ x.request.point = .start .resolve :=
    ⟨_, _, rfl, rfl, rfl⟩
  exact (cancellation_kept plainSettings (windowSchedule ++ [.request (.runCancel 0)])).2 x _
    ⟨_, List.prefix_rfl, tr, hrun⟩ ⟨0, .resolve, rfl, ht, hp, trivial⟩

/-- The `Cancel` returns, and `Execute` starts to resolve the name of the host. -/
def lostSchedule : List Choice :=
  windowSchedule ++ List.replicate 3 (.request (.runCancel 0)) ++ [.request (.run 0)]

/-- The resolve is pending, and no `cancel` has reached it. -/
theorem lostSchedule_escapes : ∃ x tr, ScheduledRun plainSettings lostSchedule x tr ∧
    ¬NothingEscapes plainSettings lostSchedule := by
  obtain ⟨x, tr, hrun, hret, hp, hq⟩ : ∃ x tr, ScheduledRun plainSettings lostSchedule x tr ∧
      x.returned = true ∧ x.request.point = .pending .resolve false ∧ x.queued = none :=
    ⟨_, _, rfl, rfl, rfl, rfl⟩
  exact ⟨x, tr, hrun, fun hnone => hnone _ x tr List.prefix_rfl hrun hret .resolve ⟨hp, hq⟩⟩

end BoostAsio.HttpRequest

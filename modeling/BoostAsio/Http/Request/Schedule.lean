import BoostAsio.Http.Request.Locking

/-!
# Completions between Asio and the handlers

Asio completes a pending operation and queues its handler; a pool thread runs the handler
later. `cancel` reaches an operation only until it is completed, and then decides its
result. Around the steps of the request this machine keeps the queued completion, and it
remembers whether a call of `Cancel` has returned.
-/

namespace BoostAsio.HttpRequest

open BoostAsio.System

/-- The result of an operation and the bytes that it has received. -/
structure Completion where
  ec : ErrorCode
  received : Bytes
  deriving DecidableEq, Repr

/-- The request with Asio's queue. -/
structure Scheduled where
  request : State
  /-- The completion of the pending operation whose handler has not been run yet. -/
  queued : Option Completion
  /-- Whether a call of `Cancel` has returned. -/
  returned : Bool

/-- The choices of the scheduler, of Asio and of the environment. -/
inductive Choice
  /-- A step of the request or of a cancelling thread. -/
  | request (l : Label)
  /-- Asio completes the pending operation and queues its handler. -/
  | complete (ec : ErrorCode) (received : Bytes)
  /-- A pool thread runs the queued handler. -/
  | dispatch
  deriving DecidableEq, Repr

/-- Nothing is queued before `Execute`. -/
def Scheduled.new (settings : Settings) : Scheduled := ⟨.new settings, none, false⟩

/-- Whether the step ends a call of `Cancel`. -/
def returns (σ : State) : Label → Bool
  | .runCancel t => σ.cancels t = .unlock
  | _ => false

/-- Whether the result is one with which Asio may complete what is pending. -/
def State.completes (σ : State) (ec : ErrorCode) : Bool :=
  match σ.point with
  | .pending _ cancelled => !cancelled || ec = .operationAborted
  | _ => false

/-- One choice. A handler is given the queued completion and no other. -/
def schedule (x : Scheduled) : Choice → Option (Scheduled × List Event)
  | .request (.deliver _ _) => none
  | .request l =>
    (step x.request l).map fun next =>
      ({ x with request := next.1, returned := x.returned || returns x.request l }, next.2)
  | .complete ec received =>
    if x.queued = none ∧ x.request.completes ec = true then
      some ({ x with queued := some ⟨ec, received⟩ }, [])
    else none
  | .dispatch =>
    match x.queued with
    | some c =>
      (step x.request (.deliver c.ec c.received)).map fun next =>
        ({ x with request := next.1, queued := none }, next.2)
    | none => none

/-- A run from before `Execute`. -/
abbrev ScheduledRun (settings : Settings) (choices : List Choice) (x : Scheduled)
    (tr : List Event) : Prop :=
  exec schedule (.new settings) choices = some (x, tr)

/-- Every executable choice. -/
inductive ScheduledStep (x : Scheduled) : Choice → Scheduled → List Event → Prop
  | request {l τ es} (hs : Step x.request l τ es) (hl : ∀ ec received, l ≠ .deliver ec received) :
      ScheduledStep x (.request l)
        { x with request := τ, returned := x.returned || returns x.request l } es
  | complete {ec received} (hnone : x.queued = none) (hec : x.request.completes ec = true) :
      ScheduledStep x (.complete ec received) { x with queued := some ⟨ec, received⟩ } []
  | dispatch {c stage cancelled} (hc : x.queued = some c)
      (hpoint : x.request.point = .pending stage cancelled) :
      ScheduledStep x .dispatch
        { x with request := x.request.complete stage c.ec c.received, queued := none }
        [.delivered stage c.ec]

/-- The executable choice does nothing else. -/
theorem schedule_cases {x y : Scheduled} {c : Choice} {es : List Event}
    (h : schedule x c = some (y, es)) : ScheduledStep x c y es := by
  cases c with
  | request l =>
    cases l with
    | deliver ec received => cases h
    | _ =>
      obtain ⟨next, hnext, he⟩ := Option.map_eq_some_iff.mp h
      cases he
      exact .request (step_cases hnext) (by simp)
  | complete ec received =>
    simp only [schedule, Option.ite_none_right_eq_some, Option.some.injEq, Prod.mk.injEq] at h
    obtain ⟨⟨hnone, hec⟩, rfl, rfl⟩ := h
    exact .complete hnone hec
  | dispatch =>
    simp only [schedule] at h
    split at h
    · next c hc =>
      obtain ⟨⟨τ, fs⟩, hnext, he⟩ := Option.map_eq_some_iff.mp h
      cases he
      cases step_cases hnext with
      | deliver hpoint => exact .dispatch hc hpoint
    · cases h

section

variable {settings : Settings} {choices : List Choice} {x y : Scheduled} {c : Choice}
  {tr es : List Event}

/-- A choice is a step of the request or leaves it as it is. -/
theorem ScheduledStep.request_step (h : ScheduledStep x c y es) :
    (∃ l, Step x.request l y.request es) ∨ y.request = x.request ∧ es = [] := by
  cases h with
  | request hs => exact Or.inl ⟨_, hs⟩
  | complete => exact Or.inr ⟨rfl, rfl⟩
  | dispatch hc hpoint => exact Or.inl ⟨_, .deliver hpoint⟩

/-- What the choices preserve holds after every run. -/
theorem ScheduledRun.induction {P : Scheduled → List Event → Prop} (init : P (.new settings) [])
    (hstep : ∀ {choices x tr c y es}, ScheduledRun settings choices x tr → P x tr →
      ScheduledStep x c y es → P y (tr ++ es))
    (h : ScheduledRun settings choices x tr) : P x tr :=
  exec_induction (P := fun _ => P) init
    (fun hrun hp hs => hstep hrun hp (schedule_cases hs)) h

/-- The request runs as it does without the queue. -/
theorem ScheduledRun.request (h : ScheduledRun settings choices x tr) :
    ∃ labels, Run settings labels x.request tr := by
  refine ScheduledRun.induction (P := fun x tr => ∃ labels, Run settings labels x.request tr)
    ⟨[], rfl⟩ ?_ h
  rintro choices x tr c y es - ⟨labels, hrun⟩ hs
  rcases hs.request_step with ⟨l, hl⟩ | ⟨he, rfl⟩
  · exact ⟨labels ++ [l], exec_snoc.mpr ⟨_, _, _, hrun, hl.eq_some, rfl⟩⟩
  · exact ⟨labels, by rw [he, List.append_nil]; exact hrun⟩

end

/-- The mutex is treated properly, and a `Cancel` that has returned has set the flag. -/
structure Flagged (x : Scheduled) : Prop where
  locking : Locking x.request
  returned : x.returned = true → x.request.wasCancelled = true

theorem Flagged.new (settings : Settings) : Flagged (.new settings) :=
  ⟨.new settings, fun h => by cases h⟩

theorem Flagged.step {x y : Scheduled} {c : Choice} {es : List Event} (hi : Flagged x)
    (h : ScheduledStep x c y es) : Flagged y := by
  cases h with
  | @request l τ es hs hl =>
    refine ⟨hi.locking.step hs, fun hr => ?_⟩
    rcases Bool.or_eq_true_iff.mp hr with hold | hnew
    · exact hs.wasCancelled_mono (hi.returned hold)
    · cases l with
      | runCancel t =>
        have ht : x.request.cancels t = .unlock := by simpa [returns] using hnew
        refine hs.wasCancelled_mono (hi.locking.flagged t ?_)
        rw [ht]
        rfl
      | _ => cases hnew
  | complete hnone hec => exact ⟨hi.locking, hi.returned⟩
  | dispatch hc hpoint => exact ⟨hi.locking.step (.deliver hpoint), hi.returned⟩

/-- Every run sets the flag before a `Cancel` returns. -/
theorem ScheduledRun.flagged {settings : Settings} {choices : List Choice} {x : Scheduled}
    {tr : List Event} (h : ScheduledRun settings choices x tr) : Flagged x :=
  ScheduledRun.induction (P := fun x _ => Flagged x) (.new settings)
    (fun _ hi hs => hi.step hs) h

end BoostAsio.HttpRequest

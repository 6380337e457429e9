import BoostAsio.Core.System.Ranking
import BoostAsio.Http.Request.Reuse

/-!
# Requests come to an end

Every step of a request brings it closer to `OnFinish`, and no call of `Cancel` throws it back
or keeps `m_cancel_mux` for good. Only the header loop can keep a request from its end.
-/

namespace BoostAsio.HttpRequest

open BoostAsio.System

/-- A bound on the steps from the handler of a stage to the end. -/
def Stage.rank : Stage → Nat
  | .resolve => 32
  | .connect => 26
  | .write => 20
  | .statusLine => 14
  | .headers => 8
  | .body => 2

/-- A bound on the steps that a request has left. -/
def Point.rank : Point → Nat
  | .execute => 38
  | .checkLock stage => stage.rank + 5
  | .checkFlag stage => stage.rank + 4
  | .checkUnlock stage => stage.rank + 3
  | .start stage => stage.rank + 2
  | .pending stage _ => stage.rank + 1
  | .handler stage _ => stage.rank
  | .abortUnlock => 2
  | .finish _ => 1
  | .thrown _ | .ended => 0

theorem Stage.two_le_rank (stage : Stage) : 2 ≤ stage.rank := by cases stage <;> decide

theorem Stage.rank_next {stage next : Stage} (h : stage.next = some next) :
    next.rank + 6 = stage.rank := by
  cases stage <;> cases h <;> rfl

section

variable {settings : Settings} {labels : List Label} {σ σ' : State} {l : Label}
  {tr es : List Event}

theorem State.rank_cancelPending (σ : State) (on : Stage → Bool) :
    (σ.cancelPending on).point.rank = σ.point.rank := by
  rcases σ.point_cancelPending on with he | ⟨stage, cancelled, hpoint, he⟩
  · rw [he]
  · rw [he, hpoint]
    rfl

/-- Every step of its own brings the request closer to its end, and `Cancel` leaves it there. -/
theorem Step.rank (h : Step σ l σ' es) :
    (l.cancels = false → σ'.point.rank < σ.point.rank) ∧
      (l.cancels = true → σ'.point.rank = σ.point.rank) := by
  cases h with
  | cancel | cancelLock | cancelSetFlag | cancelClosed | cancelUnlock =>
    exact ⟨nofun, fun _ => rfl⟩
  | cancelResolver | cancelSocket => exact ⟨nofun, fun _ => σ.rank_cancelPending _⟩
  | @handlerNext _ stage next _ hpoint hnext =>
    refine ⟨fun _ => ?_, nofun⟩
    have hrank := Stage.rank_next hnext
    rw [hpoint]
    simp only [State.point_goto, Point.rank]
    omega
  | @handlerFailed _ stage _ _ hpoint | @handlerLast _ stage _ hpoint
  | @checkCancelled _ stage hpoint =>
    refine ⟨fun _ => ?_, nofun⟩
    have hrank := stage.two_le_rank
    rw [hpoint]
    simp only [State.point_goto, Point.rank]
    omega
  | executeThrows hpoint | execute hpoint | startResolve hpoint | startConnect hpoint
  | startWrite hpoint | startStatusLine hpoint | shutdownThrows hpoint | startHeaders hpoint
  | rejected hpoint | startBody hpoint | abortUnlock hpoint | print hpoint | callback hpoint =>
    refine ⟨fun _ => ?_, nofun⟩
    rw [hpoint]
    exact Nat.le_of_ble_eq_true rfl
  | checkLock hpoint | checkPassed hpoint | checkUnlock hpoint | deliver hpoint =>
    refine ⟨fun _ => ?_, nofun⟩
    rw [hpoint]
    exact Nat.lt_succ_self _

theorem Run.locking (h : Run settings labels σ tr) : Locking σ :=
  exec_induction (P := fun _ σ _ => Locking σ) (.new settings)
    (fun _ hi hs => hi.step (step_cases hs)) h

/-- A `Cancel` that holds the mutex goes on. -/
theorem isSome_advanceCancel {t : ThreadId} {c : CancelPoint} (h : c.holdsMux = true) :
    (advanceCancel σ t c).isSome := by
  cases c with
  | idle | lock => cases h
  | setFlag | cancelResolver | cancelSocket | unlock => rfl

/-- A request that waits for the mutex waits for a `Cancel` that goes on. -/
theorem Locking.free_or_runs (h : Locking σ) (hout : σ.point.holdsMux = false) :
    σ.cancelMux = none ∨ ∃ t, (HttpRequest.step σ (.runCancel t)).isSome := by
  cases hmux : σ.cancelMux with
  | none => exact Or.inl rfl
  | some owner =>
    have hholds := (h.owns owner).mp hmux
    cases owner with
    | request =>
      rw [State.holdsMux, hout] at hholds
      cases hholds
    | canceller t =>
      refine Or.inr ⟨t, ?_⟩
      rw [HttpRequest.step, Option.isSome_map]
      exact isSome_advanceCancel hholds

/-- A request that can take no step waits for Asio or for the mutex, is over, or is in the header
loop. -/
theorem stuck_cases (hfree : σ.cancelMux = none ∨ σ.point.holdsMux = true)
    (hstuck : ∀ n, step σ (.run n) = none) :
    (∃ stage cancelled, σ.point = .pending stage cancelled) ∨ σ.point.over = true ∨
      σ.point = .start .body ∧ ∀ n, readHeaders n σ.response = none := by
  simp only [step] at hstuck
  cases hpoint : σ.point with
  | pending stage cancelled => exact Or.inl ⟨stage, cancelled, rfl⟩
  | thrown | ended => exact Or.inr (Or.inl rfl)
  | start stage =>
    rw [hpoint] at hstuck
    cases stage with
    | body => exact Or.inr (Or.inr ⟨rfl, fun n => Option.map_eq_none_iff.mp (hstuck n)⟩)
    | headers =>
      have hnone := hstuck 0
      simp only [advance, start] at hnone
      split at hnone <;> cases hnone
    | resolve | connect | write | statusLine => cases hstuck 0
  | checkLock stage =>
    rw [hpoint] at hfree hstuck
    have hmux := hfree.resolve_right Bool.false_ne_true
    have hnone := hstuck 0
    rw [advance, if_pos hmux] at hnone
    cases hnone
  | execute =>
    rw [hpoint] at hstuck
    have hnone := hstuck 0
    simp only [advance] at hnone
    split at hnone <;> cases hnone
  | checkFlag stage =>
    rw [hpoint] at hstuck
    have hnone := hstuck 0
    simp only [advance] at hnone
    split at hnone <;> cases hnone
  | checkUnlock | abortUnlock | handler | finish =>
    rw [hpoint] at hstuck
    cases hstuck 0

theorem Point.not_holdsMux_of_over {p : Point} (h : p.over = true) : p.holdsMux = false := by
  cases p with
  | thrown | ended => rfl
  | _ => cases h

/-- Where the request does not hold the mutex, nobody does, and no call of `Cancel` is left that
can take no step. -/
theorem Locking.free_of_stuck (h : Locking σ) (hout : σ.point.holdsMux = false)
    (hstuck : ∀ t, HttpRequest.step σ (.runCancel t) = none) :
    σ.cancelMux = none ∧ ∀ t, σ.cancels t = .idle := by
  have hmux : σ.cancelMux = none := by
    refine (h.free_or_runs hout).resolve_right ?_
    rintro ⟨t, hsome⟩
    rw [hstuck t] at hsome
    cases hsome
  refine ⟨hmux, fun t => ?_⟩
  have hnone := hstuck t
  simp only [HttpRequest.step, Option.map_eq_none_iff] at hnone
  cases hpoint : σ.cancels t with
  | idle => rfl
  | lock =>
    rw [hpoint, advanceCancel, if_pos hmux] at hnone
    cases hnone
  | setFlag | cancelResolver | cancelSocket | unlock =>
    rw [hpoint] at hnone
    cases hnone

/-- A request takes no more than 38 steps, with the completions of its operations. Whatever calls
of `Cancel` there are, they come to their end, and the request does not stop before it is over,
unless its header loop does not end. -/
theorem ends_or_loops (h : Run settings labels σ tr) :
    labels.countP (fun l => !l.cancels) ≤ 38 ∧
      ((∀ l, (∀ t, l ≠ .cancel t) → step σ l = none) →
        (∀ t, σ.cancels t = .idle) ∧
          (σ.point.over = true ∨
            σ.point = .start .body ∧ ∀ n, readHeaders n σ.response = none)) := by
  constructor
  · have hlower : ∀ {σ σ' : State} {l es}, True → (!l.cancels) = true →
        step σ l = some (σ', es) → True ∧ σ'.point.rank < σ.point.rank :=
      fun _ hl hs => ⟨trivial, (step_cases hs).rank.1 (by simpa using hl)⟩
    have hkeep : ∀ {σ σ' : State} {l es}, True → (!l.cancels) = false →
        step σ l = some (σ', es) → True ∧ σ'.point.rank ≤ σ.point.rank :=
      fun _ hl hs => ⟨trivial, Nat.le_of_eq ((step_cases hs).rank.2 (by simpa using hl))⟩
    have hcount := (exec_countP hlower hkeep trivial h).2
    exact Nat.le_trans (Nat.le_add_right _ _) hcount
  · intro hstuck
    have hcancels : ∀ t, step σ (.runCancel t) = none := fun t => hstuck (.runCancel t) nofun
    have hmux : σ.cancelMux = none ∨ σ.point.holdsMux = true := by
      cases hout : σ.point.holdsMux with
      | true => exact Or.inr rfl
      | false => exact Or.inl (h.locking.free_of_stuck hout hcancels).1
    rcases stuck_cases hmux fun n => hstuck (.run n) nofun with ⟨stage, cancelled, hp⟩ | hend
    · have hnone := hstuck (.deliver .success []) nofun
      simp only [step, hp] at hnone
      cases hnone
    · refine ⟨(h.locking.free_of_stuck ?_ hcancels).2, hend⟩
      rcases hend with hover | ⟨hpoint, -⟩
      · exact Point.not_holdsMux_of_over hover
      · rw [hpoint]
        rfl

end

/-- The request whose host was not resolved is over when nobody can take a step. -/
theorem unresolvedSchedule_ends : ∃ σ tr, Run plainSettings unresolvedSchedule σ tr ∧
    σ.point.over = true := by
  obtain ⟨σ, tr, hrun, hended, hidle⟩ : ∃ σ tr, Run plainSettings unresolvedSchedule σ tr ∧
      σ.point = .ended ∧ ∀ t, σ.cancels t = .idle := ⟨_, _, rfl, rfl, fun _ => rfl⟩
  have hstuck : ∀ l, (∀ t, l ≠ .cancel t) → step σ l = none := by
    intro l hl
    cases l with
    | cancel t => exact absurd rfl (hl t)
    | runCancel t => simp [step, hidle, advanceCancel]
    | run | deliver | shutdownThrows => simp [step, hended, advance]
  refine ⟨σ, tr, hrun, ((ends_or_loops hrun).2 hstuck).2.resolve_right fun hloops => ?_⟩
  rw [hended] at hloops
  cases hloops.1

end BoostAsio.HttpRequest

import Mathlib.Algebra.Group.Action.Defs
import Mathlib.Algebra.Order.BigOperators.Group.Finset
import BoostAsio.Core.System.Ranking
import BoostAsio.Server.Async.Shutdown

/-!
# Stop returns

Behind `m_ios.stop()` no completion is handed to the pool any more, so every thread finishes
the handler that it is in and leaves. Neither the clients nor what Asio still sends can keep
`Server::Stop` waiting.
-/

namespace BoostAsio.AsyncTcpServer

open BoostAsio.System

/-- A bound on the steps that a thread has left once the `io_service` is stopped. -/
def Frame.rank : Frame → Nat
  | .exited => 0
  | .idle => 1
  | .unborn | .initAccept | .closeAcceptor | .startWrite _ | .onFinish _ => 2
  | .testStopped | .onRequestReceived _ _ | .onResponseSent _ _ => 3
  | .onAccept _ _ => 4

/-- The steps of `Server::Start` in front of the threads. -/
def StartPoint.rank : StartPoint → Nat
  | .listen => 2
  | .initAccept => 1
  | .createThreads => 0

/-- The steps that `Server::Stop` has left. -/
def StopPoint.rank : StopPoint → Nat
  | .stopAcceptor => 3
  | .stopService => 2
  | .join => 1
  | .returned => 0

/-- A bound on the steps that are left to a pool of this size. -/
def State.rank (size : Nat) (σ : State) : Nat :=
  ∑ t ∈ Finset.range size, (σ.threads t).rank + σ.starter.rank + σ.stopper.rank

/-- A step of one of the threads. -/
def Label.moves : Label → Bool
  | .transmit _ _ _ => false
  | .start | .stop | .accept _ _ _ | .deliver _ _ _ _ _ | .run _ => true

section

variable {size : Nat} {labels : List Label} {σ σ' : State} {l : Label} {tr es : List Event}
  {t : ThreadId}

theorem Frame.rank_le (f : Frame) : f.rank ≤ 4 := by
  cases f <;> simp only [Frame.rank] <;> omega

/-- A thread that comes to a point of lower rank. -/
theorem State.rank_goto {f : Frame} (ht : t < size) (hthreads : ∀ u, σ'.threads u =
    (σ.goto t f).threads u) (hrank : f.rank < (σ.threads t).rank)
    (hstarter : σ'.starter = σ.starter) (hstopper : σ'.stopper = σ.stopper) :
    σ'.rank size < σ.rank size := by
  have hsum := sum_range_change (f := fun u => (σ.threads u).rank)
    (g := fun u => (σ'.threads u).rank) ht fun u hu => by simp [hthreads, hu]
  simp only [hthreads t, State.goto_threads, if_pos] at hsum
  unfold State.rank
  rw [hstarter, hstopper]
  omega

/-- There are no more threads than were asked for, and all of them exist. -/
structure Pooled (size : Nat) (σ : State) : Prop where
  le : σ.pool ≤ size
  born : ∀ t < σ.pool, σ.threads t ≠ .unborn

theorem Step.pooled (h : Step size σ l σ' es) (hi : Pooled size σ) : Pooled size σ' := by
  have hgoto : ∀ {t f}, f ≠ .unborn → ∀ u < σ.pool, (σ.goto t f).threads u ≠ .unborn := by
    intro t f hf u hu
    rw [State.goto_threads]
    split
    · exact hf
    · exact hi.born u hu
  cases h with
  | listen | firstAccept | stopAcceptor | stopService | join => exact ⟨hi.le, hi.born⟩
  | transmit => exact ⟨hi.le, hi.born⟩
  | createThread _ hpool =>
    refine ⟨hpool, fun u hu => ?_⟩
    simp only [State.goto_threads]
    split
    · exact nofun
    · next hne => exact hi.born u (Nat.lt_of_le_of_ne (Nat.le_of_lt_succ hu) hne)
  | @deliver t s op ec =>
    refine ⟨hi.le, hgoto ?_⟩
    cases op <;> rintro ⟨⟩
  | accept | exit | serve | acceptFailed | goOn | giveUp | initAccept | close | readFailed
  | respond | startWrite | responseSent | finish =>
    refine ⟨hi.le, hgoto ?_⟩
    exact nofun

theorem Run.pooled (h : Run size labels σ tr) : Pooled size σ :=
  exec_induction (P := fun _ σ _ => Pooled size σ)
    ⟨Nat.zero_le _, fun t ht => absurd ht (Nat.not_lt_zero t)⟩
    (fun _ hi hs => (step_cases hs).pooled hi) h

/-- A thread that is at work is one of the pool. -/
theorem Run.lt_size (h : Run size labels σ tr) {f : Frame} (ht : σ.threads t = f)
    (hf : f ≠ .unborn) : t < size := by
  by_contra hle
  have hunborn := h.owned.unborn t (h.pooled.le.trans (Nat.not_lt.mp hle))
  rw [ht] at hunborn
  exact hf hunborn

/-- Once the `io_service` is stopped, every step of a thread lowers the rank. -/
theorem Step.rank_lt (h : Step size σ l σ' es) (hrun : Run size labels σ tr)
    (hios : σ.iosStopped = true) (hl : l.moves = true) : σ'.rank size < σ.rank size := by
  cases h with
  | listen hs | firstAccept hs =>
    simp only [State.rank, hs, StartPoint.rank, State.initAccept_threads,
      State.initAccept_stopper]
    omega
  | createThread hs hpool =>
    refine State.rank_goto hpool (fun _ => rfl) ?_ rfl rfl
    rw [hrun.owned.unborn σ.pool le_rfl]
    decide
  | stopAcceptor hs | stopService hs | join hs =>
    simp only [State.rank, hs, StopPoint.rank]
    omega
  | accept ht hrunning | deliver ht hrunning =>
    rw [hios] at hrunning
    cases hrunning
  | transmit => cases hl
  | exit ht | serve ht | acceptFailed ht | goOn ht | giveUp ht | initAccept ht | close ht
  | readFailed ht | respond ht | startWrite ht | responseSent ht | finish ht =>
    refine State.rank_goto (hrun.lt_size ht nofun) (fun _ => rfl) ?_ rfl rfl
    rw [ht]
    simp only [Frame.rank]
    omega

/-- A server whose `io_service` is stopped. -/
structure Stopping (size : Nat) (σ : State) : Prop where
  reached : ∃ labels tr, Run size labels σ tr
  iosStopped : σ.iosStopped = true

theorem Stopping.step (hi : Stopping size σ) (h : step size σ l = some (σ', es)) :
    Stopping size σ' := by
  obtain ⟨labels, tr, hrun⟩ := hi.reached
  refine ⟨⟨_, _, exec_snoc.mpr ⟨σ, tr, es, hrun, h, rfl⟩⟩, ?_⟩
  rcases (step_cases h).iosStopped with ⟨-, -, hios, -⟩ | ⟨-, hios, -⟩
  · exact hios
  · rw [hios, hi.iosStopped]

/-- A thread of the pool that has not left can take a step. -/
theorem isSome_advance {f : Frame} (hborn : f ≠ .unborn) (hleft : f ≠ .exited)
    (hios : σ.iosStopped = true) : (advance σ t f).isSome := by
  cases f with
  | unborn => exact absurd rfl hborn
  | exited => exact absurd rfl hleft
  | idle => simp [advance, hios]
  | onAccept ec sock => by_cases hec : ec.value = 0 <;> simp [advance, hec]
  | onRequestReceived ec s => by_cases hec : ec.value = 0 <;> simp [advance, hec]
  | testStopped | initAccept | closeAcceptor | startWrite | onResponseSent | onFinish => rfl

/-- Until `Server::Stop` has returned, a thread of the pool or `Stop` itself can take a step. -/
theorem Stopping.progress (hi : Stopping size σ) (hstop : σ.stopper ≠ .returned) :
    ∃ l, l.moves = true ∧ (AsyncTcpServer.step size σ l).isSome := by
  obtain ⟨labels, tr, hrun⟩ := hi.reached
  have hjoin : σ.stopper = .join := (hrun.drained.1.mp hi.iosStopped).resolve_right hstop
  by_cases hpool : ∀ t < σ.pool, σ.threads t = .exited
  · refine ⟨.stop, rfl, ?_⟩
    simp only [AsyncTcpServer.step, hjoin, stopStep, if_pos hpool]
    rfl
  · simp only [not_forall] at hpool
    obtain ⟨t, ht, hleft⟩ := hpool
    exact ⟨.run t, rfl, isSome_advance (hrun.pooled.born t ht) hleft hi.iosStopped⟩

/-- What is left to a server that is being stopped. -/
theorem Stopping.rank_le (hi : Stopping size σ) : σ.rank size ≤ 4 * size + 3 := by
  obtain ⟨labels, tr, hrun⟩ := hi.reached
  have hframes : ∑ t ∈ Finset.range size, (σ.threads t).rank ≤ 4 * size := by
    have hsum := Finset.sum_le_card_nsmul (Finset.range size) (fun t => (σ.threads t).rank) 4
      fun t _ => (σ.threads t).rank_le
    rw [Finset.card_range, smul_eq_mul] at hsum
    omega
  have hstart : σ.starter.rank ≤ 2 := by cases σ.starter <;> decide
  have hstop : σ.stopper.rank ≤ 1 := by
    rcases hrun.drained.1.mp hi.iosStopped with hs | hs <;> rw [hs] <;> decide
  unfold State.rank
  omega

theorem terminating_stop (size : Nat) : Terminating (step size) (fun l => l.moves = true)
    (Stopping size) (fun σ => σ.stopper = .returned) (State.rank size) where
  decreases := by
    intro σ l σ' es hi hl h
    obtain ⟨labels, tr, hrun⟩ := hi.reached
    exact ⟨hi.step h, (step_cases h).rank_lt hrun hi.iosStopped hl⟩
  progress := fun hi hstop => hi.progress hstop

end

/-- `Stop` returns: behind `m_ios.stop()` the threads take four steps each and three more at
most, whatever Asio sends meanwhile, and where none of them can take a step any more `Stop` has
returned, which is always within reach. -/
theorem stop_returns {size : Nat} {labels : List Label} {σ : State} {tr : List Event}
    (h : Run size labels σ tr) (hios : σ.iosStopped = true) :
    (∀ more τ es, exec (step size) σ more = some (τ, es) →
      more.countP Label.moves ≤ 4 * size + 3 ∧
        ((∀ l, l.moves = true → step size τ l = none) → τ.stopper = .returned)) ∧
    ∃ more τ es, exec (step size) σ more = some (τ, es) ∧ τ.stopper = .returned := by
  have hi : Stopping size σ := ⟨⟨labels, tr, h⟩, hios⟩
  refine ⟨fun more τ es hrun => ?_, ?_⟩
  · have hother : ∀ {σ : State} {l : Label} {σ' : State} {es : List Event}, Stopping size σ →
        l.moves = false → step size σ l = some (σ', es) →
          Stopping size σ' ∧ σ'.rank size ≤ σ.rank size := by
      intro σ l σ' es hi hl hstep
      refine ⟨hi.step hstep, ?_⟩
      cases step_cases hstep with
      | transmit => exact Nat.le_refl _
      | _ => cases hl
    obtain ⟨hlast, hcount⟩ := exec_countP (terminating_stop size).decreases hother hi hrun
    have hbound := hi.rank_le
    refine ⟨Nat.le_trans (Nat.le_add_right _ _) (hcount.trans hbound), fun hmax => ?_⟩
    by_contra hstop
    obtain ⟨l, hl, hsome⟩ := hlast.progress hstop
    rw [hmax l hl] at hsome
    cases hsome
  · obtain ⟨more, τ, es, -, hrun, hgoal⟩ := (terminating_stop size).exists_goal hi
    exact ⟨more, τ, es, hrun, hgoal⟩

/-- Two clients are connected and silent when the server is stopped. -/
def silentClientsSchedule : List Label :=
  [.start, .start, .start, .start, .accept 0 0 .success, .run 0, .run 0, .run 0,
    .accept 1 1 .success, .run 1, .stop, .stop]

/-- They do not keep `Stop` waiting. -/
theorem silentClientsSchedule_returns : ∃ σ tr, Run 2 silentClientsSchedule σ tr ∧
    ∃ more τ es, exec (step 2) σ more = some (τ, es) ∧ τ.stopper = .returned := by
  obtain ⟨σ, tr, hrun, hios⟩ : ∃ σ tr, Run 2 silentClientsSchedule σ tr ∧
      σ.iosStopped = true := ⟨_, _, rfl, rfl⟩
  exact ⟨σ, tr, hrun, (stop_returns hrun hios).2⟩

end BoostAsio.AsyncTcpServer

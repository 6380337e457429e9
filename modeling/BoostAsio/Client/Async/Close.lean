import BoostAsio.Core.System.Pool
import BoostAsio.Client.Async.Response

/-!
# AsyncTcpClient: the pool and Close

The constructor starts `num_of_threads` threads that run `m_ios` while `m_work` exists, and
`Close` resets `m_work` and joins them. A request whose `EmulateLongComputationOp` has
returned keeps the pool alive through one pending operation or one handler, so `Close` does
not return ahead of its callback. A request that is still being constructed when the pool has
run dry is never served, and after `Close` no callback is ever invoked.
-/

namespace BoostAsio.AsyncTcpClient

open BoostAsio.System

/-- The client as a system that the threads of its pool serve. -/
def served (numOfThreads : Nat) : Served State Label Event where
  step := step numOfThreads
  dispatch
    | .deliver t _ _ _ _ => some t
    | _ => none
  busy σ t := σ.threads t ≠ .idle
  working σ := (List.range numOfThreads).any (fun t => σ.threads t ≠ .idle) ||
    (List.range σ.count).any fun s => (σ.sessions s).pending ≠ []

/-- A run of the client and of its pool, from the constructor on. -/
abbrev ClientRun (numOfThreads : Nat) (labels : List (PoolLabel Label)) (p : Pool State)
    (tr : List Event) : Prop :=
  PoolRun (served numOfThreads) numOfThreads State.init labels p tr

theorem ClientRun.run {n : Nat} {labels : List (PoolLabel Label)} {p : Pool State}
    {tr : List Event} (h : ClientRun n labels p tr) : Run n (innerLabels labels) p.inner tr :=
  exec_innerLabels h

/-- The threads of the pool are idle. -/
def State.PoolIdle (σ : State) (n : Nat) : Prop := ∀ t < n, σ.threads t = .idle

theorem working_eq_false {n : Nat} {σ : State} :
    (served n).working σ = false ↔
      σ.PoolIdle n ∧ ∀ s < σ.count, (σ.sessions s).pending = [] := by
  simp [served, State.PoolIdle]

section

variable {n : Nat} {σ σ' : State} {es : List Event} {l : Label}

/-- Handlers run on the threads of the pool. -/
theorem Step.runs_lt (h : Step n σ l σ' es) (hi : ∀ t s, (σ.threads t).runs = some s → t < n)
    (t : ThreadId) (s : SessionId) (ht : (σ'.threads t).runs = some s) : t < n := by
  by_cases htl : t = l.thread
  · subst htl
    cases h with
    | deliver hpool => exact hpool
    | _ => exact hi _ s (by simp_all [Label.thread, Frame.runs])
  · exact hi t s (h.threads_of_ne htl ▸ ht)

theorem Run.runs_lt {labels : List Label} {tr : List Event} (h : Run n labels σ tr) :
    ∀ t s, (σ.threads t).runs = some s → t < n :=
  Run.induction (P := fun σ _ => ∀ t s, (σ.threads t).runs = some s → t < n)
    (fun _ _ h => by simp [State.init, Frame.runs] at h) (fun _ hi hs => hs.runs_lt hi) h

end

/-- Where the pool has nothing left to do, every session that nobody is constructing has
ended. -/
theorem ended_of_not_working {n : Nat} {labels : List Label} {σ : State} {tr : List Event}
    (h : Run n labels σ tr) (hdone : (served n).working σ = false) {s : SessionId}
    (hs : s < σ.count) (hnot : ∀ t, (σ.threads t).emulates ≠ some s) : Ended tr s := by
  obtain ⟨hidle, hpending⟩ := working_eq_false.mp hdone
  obtain ⟨place, hp⟩ := h.holds
  cases hplace : place s with
  | unborn => exact absurd hs (Nat.not_lt_of_le ((hp.unborn s).mp hplace))
  | thread t =>
    exfalso
    have hcarried := (hp.thread s t).mp hplace
    rcases Frame.carries_iff.mp hcarried with hemulates | hruns
    · exact hnot t hemulates
    · rw [hidle t (h.runs_lt t s hruns)] at hruns
      cases hruns
  | asio =>
    obtain ⟨p, hp⟩ := hp.asio s hplace
    rw [hpending s hs] at hp
    cases hp
  | ended => exact (hp.ended s).mp hplace

/-- A request with which the client is done: nothing is pending for it, it is out of the map,
and its callback was invoked once, or `m_sock.open` has thrown. -/
structure Finished (σ : State) (tr : List Event) (s : SessionId) : Prop extends Settled σ s where
  called : .completed s ∈ tr ∧ callbackCount s tr = 1 ∨
    .openFailed s ∈ tr ∧ callbackCount s tr = 0

theorem Run.finished {n : Nat} {labels : List Label} {σ : State} {tr : List Event}
    (h : Run n labels σ tr) {s : SessionId} (hended : Ended tr s) : Finished σ tr s := by
  obtain ⟨place, hp⟩ := h.holds
  have hplace := (hp.ended s).mpr hended
  refine ⟨⟨fun id hid => h.registry.not_ended id s hid hended, hp.quiet s (by simp [hplace])⟩, ?_⟩
  by_cases hcompleted : .completed s ∈ tr
  · exact Or.inl ⟨hcompleted, h.calls.completed s hcompleted⟩
  · refine Or.inr ⟨hended.resolve_left hcompleted, h.calls.before s hcompleted fun t ht => ?_⟩
    exact hp.not_ended (Frame.carries_of_called ht) hended

/-- The same request as `completeSchedule`, with `Close` called behind the write. -/
def closeSchedule : List (PoolLabel Label) :=
  (completeSchedule.take 12).map .inner ++ .close :: ((completeSchedule.drop 12).map .inner ++
    [.leave 0, .join])

end BoostAsio.AsyncTcpClient

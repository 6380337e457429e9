import BoostAsio.Client.Async.Locking

/-!
# Circular waiting on the client's mutexes

Only two program points hold one mutex while they wait for another: `CancelRequest`
asks for `m_cancel_guard` under the map's guard, and `OnRequestComplete`, called on the
cancelled branch of a handler, asks for the map's guard under `m_cancel_guard`. A
deadlock is exactly a pair of threads at these two points of one session.
-/

namespace BoostAsio.AsyncTcpClient

/-- The mutexes of the client. -/
inductive Mutex
  | activeSessions
  | cancel (s : SessionId)
  deriving DecidableEq, Repr

/-- The thread that holds a mutex. -/
def State.holder (σ : State) : Mutex → Option ThreadId
  | .activeSessions => σ.activeSessionsGuard
  | .cancel s => (σ.sessions s).cancelGuard

/-- The mutex whose lock is the thread's next step. -/
def Frame.wants : Frame → Option Mutex
  | .registerLock _ | .cancelLock _ | .complete .lockActive _ _ => some .activeSessions
  | .cancelLockGuard s | .lockGuard _ s => some (.cancel s)
  | _ => none

/-- Threads that are blocked on a mutex and a thread that holds it. -/
abbrev State.WaitsFor (σ : State) : ThreadId → ThreadId → Prop :=
  System.WaitsFor (fun t => (σ.threads t).wants) σ.holder

/-- Some threads are blocked in a cycle. -/
abbrev State.Deadlocked (σ : State) : Prop :=
  System.Deadlocked (fun t => (σ.threads t).wants) σ.holder

/-- A thread that waits while holding a mutex is at one of the two nested points. -/
theorem Locking.nested_point {σ : State} (hi : Locking σ) {t u v : ThreadId}
    (htu : σ.WaitsFor t u) (huv : σ.WaitsFor u v) :
    (∃ s, σ.threads u = .cancelLockGuard s) ∨
      ∃ s, σ.threads u = .complete .lockActive s true := by
  obtain ⟨m, -, hheld⟩ := htu
  obtain ⟨m', hwant, -⟩ := huv
  cases m with
  | activeSessions =>
    have hh := (hi.active u).mp hheld
    cases hu : σ.threads u with
    | complete point s guarded => cases point <;> simp_all [Frame.wants, Frame.holdsActive]
    | cancelLockGuard s => exact Or.inl ⟨s, rfl⟩
    | _ => simp_all [Frame.wants, Frame.holdsActive]
  | cancel s =>
    have hh := (hi.cancel s u).mp hheld
    cases hu : σ.threads u with
    | complete point r guarded =>
      cases point <;> cases guarded <;> simp_all [Frame.wants, Frame.holdsCancel]
    | _ => simp_all [Frame.wants, Frame.holdsCancel]

/-- A thread that waits for `m_cancel_guard` waits for a holder of the same session's. -/
theorem Locking.holder_of_cancelLockGuard {σ : State} (hi : Locking σ) {t u : ThreadId}
    {s : SessionId} (ht : σ.threads t = .cancelLockGuard s) (htu : σ.WaitsFor t u) :
    (σ.threads u).holdsCancel s = true := by
  obtain ⟨m, hwant, hheld⟩ := htu
  simp only [ht, Frame.wants, Option.some.injEq] at hwant
  subst hwant
  exact (hi.cancel s u).mp hheld

/-- A thread that waits for the map's guard waits for a thread inside its scope. -/
theorem Locking.holder_of_lockActive {σ : State} (hi : Locking σ) {t u : ThreadId}
    {s : SessionId} {guarded : Bool} (ht : σ.threads t = .complete .lockActive s guarded)
    (htu : σ.WaitsFor t u) : (σ.threads u).holdsActive = true := by
  obtain ⟨m, hwant, hheld⟩ := htu
  simp only [ht, Frame.wants, Option.some.injEq] at hwant
  subst hwant
  exact (hi.active u).mp hheld

/-- `CancelRequest` waits for the `m_cancel_guard` of a session whose handler, on its
cancelled branch, waits for the map's guard that `CancelRequest` holds. -/
def State.CrossedLocks (σ : State) : Prop :=
  ∃ t u s, σ.threads t = .cancelLockGuard s ∧ σ.threads u = .complete .lockActive s true

/-- Circular waiting of any length comes down to one crossed pair. -/
theorem Locking.deadlocked_iff {σ : State} (hi : Locking σ) :
    σ.Deadlocked ↔ σ.CrossedLocks := by
  constructor
  · intro hd
    obtain ⟨t, u, v, w, x, htu, huv, hvw, hwx⟩ := hd.exists_chain
    have hclose : ∀ {a b c : ThreadId} {s : SessionId}, σ.WaitsFor a b → σ.WaitsFor b c →
        σ.threads a = .cancelLockGuard s → σ.CrossedLocks := by
      intro a b c s hab hbc ha
      have hheld := hi.holder_of_cancelLockGuard ha hab
      rcases hi.nested_point hab hbc with ⟨r, hb⟩ | ⟨r, hb⟩
      · simp [hb, Frame.holdsCancel] at hheld
      · have hr : r = s := by simpa [hb, Frame.holdsCancel] using hheld
        exact ⟨a, b, s, ha, hr ▸ hb⟩
    rcases hi.nested_point htu huv with ⟨s, hu⟩ | ⟨s, hu⟩
    · exact hclose huv hvw hu
    · have hheld := hi.holder_of_lockActive hu huv
      rcases hi.nested_point huv hvw with ⟨r, hv⟩ | ⟨r, hv⟩
      · exact hclose hvw hwx hv
      · simp [hv, Frame.holdsActive] at hheld
  · rintro ⟨t, u, s, ht, hu⟩
    refine System.deadlocked_of_pair (t := t) (u := u)
      ⟨.cancel s, by simp [ht, Frame.wants], ?_⟩ ⟨.activeSessions, by simp [hu, Frame.wants], ?_⟩
    · exact (hi.cancel s u).mpr (by simp [hu, Frame.holdsCancel])
    · exact (hi.active t).mpr (by simp [ht, Frame.holdsActive])

/-- The steps that close the circle: `CancelRequest` finds a session whose handler waits
for the map's guard on its cancelled branch, or such a handler comes to wait for it
while a `CancelRequest` that found the session waits for its `m_cancel_guard`. -/
def Crosses (σ : State) : Label → Prop
  | .run t =>
    (∃ id s u, σ.threads t = .cancelFind id ∧ σ.activeSessions id = some s ∧
      σ.threads u = .complete .lockActive s true) ∨
    ∃ s u, σ.threads t = .complete .shutdown s true ∧ σ.threads u = .cancelLockGuard s
  | _ => False

/-- `CancelRequest` comes to wait for a `m_cancel_guard` by finding its session. -/
theorem Step.new_cancelLockGuard {n : Nat} {σ σ' : State} {l : Label} {es : List Event}
    (h : Step n σ l σ' es) {t : ThreadId} {s : SessionId}
    (ht : σ'.threads t = .cancelLockGuard s) :
    σ.threads t = .cancelLockGuard s ∨
      l = .run t ∧ ∃ id, σ.threads t = .cancelFind id ∧ σ.activeSessions id = some s := by
  by_cases htl : t = l.thread
  · subst htl
    cases h <;> simp_all [Label.thread]
  · exact Or.inl (h.threads_of_ne htl ▸ ht)

/-- `OnRequestComplete` comes to wait for the map's guard after the shutdown. -/
theorem Step.new_lockActive {n : Nat} {σ σ' : State} {l : Label} {es : List Event}
    (h : Step n σ l σ' es) {t : ThreadId} {s : SessionId} {guarded : Bool}
    (ht : σ'.threads t = .complete .lockActive s guarded) :
    σ.threads t = .complete .lockActive s guarded ∨
      l = .run t ∧ σ.threads t = .complete .shutdown s guarded := by
  by_cases htl : t = l.thread
  · subst htl
    cases h <;> simp_all [Label.thread]
  · exact Or.inl (h.threads_of_ne htl ▸ ht)

/-- From a state without a crossed pair, exactly these steps lead to one. -/
theorem crossedLocks_step_iff {n : Nat} {σ σ' : State} {l : Label} {es : List Event}
    (hfree : ¬σ.CrossedLocks) (h : Step n σ l σ' es) : σ'.CrossedLocks ↔ Crosses σ l := by
  constructor
  · rintro ⟨a, b, s, ha, hb⟩
    rcases h.new_cancelLockGuard ha with ha | ⟨rfl, id, ha, hentry⟩
    · rcases h.new_lockActive hb with hb | ⟨rfl, hb⟩
      · exact absurd ⟨a, b, s, ha, hb⟩ hfree
      · exact Or.inr ⟨s, a, hb, ha⟩
    · rcases h.new_lockActive hb with hb | ⟨hab, hb⟩
      · exact Or.inl ⟨id, s, b, ha, hentry, hb⟩
      · -- One thread cannot take both steps at once.
        obtain rfl := Label.run.inj hab
        simp [ha] at hb
  · intro hc
    cases l with
    | run t =>
      rcases hc with ⟨id, s, u, ht, hentry, hu⟩ | ⟨s, u, ht, hu⟩
      · have hut : u ≠ t := by rintro rfl; simp [ht] at hu
        cases h with
        | cancelFound ht' hentry' =>
          obtain rfl : id = _ := by simpa [ht] using ht'
          obtain rfl : s = _ := by simpa [hentry] using hentry'
          exact ⟨t, u, s, by simp, by simpa [hut] using hu⟩
        | _ => simp_all
      · have hut : u ≠ t := by rintro rfl; simp [ht] at hu
        cases h with
        | shutdown ht' =>
          obtain ⟨rfl, rfl⟩ : s = _ ∧ true = _ := by simpa [ht] using ht'
          exact ⟨u, t, s, by simpa [hut] using hu, by simp⟩
        | _ => simp_all
    | _ => exact hc.elim

/-- A run is free of deadlocks exactly when none of its steps closes the circle. -/
theorem deadlock_free_iff {n : Nat} {labels : List Label} {σ : State} {tr : List Event}
    (h : Run n labels σ tr) :
    (∀ ρ, System.OnRun (step n) State.init labels ρ → ¬ρ.Deadlocked) ↔
      ∀ ρ l, System.StepOnRun (step n) State.init labels ρ l → ¬Crosses ρ l := by
  have hlock : ∀ {ρ}, System.OnRun (step n) State.init labels ρ → Locking ρ :=
    fun ⟨_, _, _, hρ⟩ => Run.locking hρ
  constructor
  · intro hd ρ l hs hc
    obtain ⟨ρ', es, hstep, hρ'⟩ := hs.target h
    have hρ : System.OnRun (step n) State.init labels ρ := hs.source
    have hfree : ¬ρ.CrossedLocks := fun hx => hd ρ hρ ((hlock hρ).deadlocked_iff.mpr hx)
    exact hd ρ' hρ' ((hlock hρ').deadlocked_iff.mpr
      ((crossedLocks_step_iff hfree (step_cases hstep)).mpr hc))
  · intro hc ρ hρ hd
    refine absurd ((hlock hρ).deadlocked_iff.mp hd) ?_
    refine System.onRun_induction (P := fun ρ => ¬ρ.CrossedLocks) ?_ ?_ hρ
    · rintro ⟨t, u, s, ht, -⟩
      simp [State.init] at ht
    · intro ρ l ρ' es hs hfree hstep hx
      exact hc ρ l hs ((crossedLocks_step_iff hfree (step_cases hstep)).mp hx)

/-- Two cancellations of one request and its connect handler, on one pool thread. -/
def crossedSchedule : List Label :=
  .emulate 1 10 1 :: List.replicate 5 (.run 1) ++
    .cancelRequest 1 1 :: List.replicate 7 (.run 1) ++
    .deliver 0 0 ⟨.connect, true⟩ .success [] :: List.replicate 4 (.run 0) ++
    .cancelRequest 1 1 :: List.replicate 2 (.run 1)

private theorem crossedSchedule_run :
    ∃ σ tr, Run 1 crossedSchedule σ tr ∧ σ.CrossedLocks := by
  obtain ⟨σ, tr, hrun, h0, h1⟩ : ∃ σ tr, Run 1 crossedSchedule σ tr ∧
      σ.threads 0 = .complete .lockActive 0 true ∧ σ.threads 1 = .cancelLockGuard 0 :=
    ⟨_, _, rfl, by decide, by decide⟩
  exact ⟨σ, tr, hrun, 1, 0, 0, h1, h0⟩

/-- The cancelled handler and the second cancellation end up waiting for each other. -/
theorem crossedSchedule_deadlocks :
    ∃ σ tr, Run 1 crossedSchedule σ tr ∧ σ.Deadlocked := by
  obtain ⟨σ, tr, hrun, hcrossed⟩ := crossedSchedule_run
  exact ⟨σ, tr, hrun, hrun.locking.deadlocked_iff.mpr hcrossed⟩

/-- The schedule contains a step that closes the circle. -/
theorem crossedSchedule_crosses :
    ∃ ρ l, System.StepOnRun (step 1) State.init crossedSchedule ρ l ∧ Crosses ρ l := by
  obtain ⟨σ, tr, hrun, hcrossed⟩ := crossedSchedule_run
  by_contra hnone
  refine (deadlock_free_iff hrun).mpr (fun ρ l hs hc => hnone ⟨ρ, l, hs, hc⟩) σ
    (System.onRun_last hrun) ?_
  exact hrun.locking.deadlocked_iff.mpr hcrossed

end BoostAsio.AsyncTcpClient

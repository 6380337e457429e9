import BoostAsio.Client.Async.Step
import BoostAsio.Core.System.Mutex

/-!
# Lock ownership

The program point of a thread determines the mutexes it holds. Every step keeps the
two in agreement, so a mutex never has two holders and each holder is the thread
inside its scope.
-/

namespace BoostAsio.AsyncTcpClient

/-- Points inside a scope of `m_active_sessions_guard`. -/
def Frame.holdsActive : Frame → Bool
  | .cancelUnlock | .registerInsert _ | .registerUnlock _ | .cancelFind _ | .cancelLockGuard _
  | .cancelSetFlag _ | .cancelSocket _ | .cancelUnlockGuard _
  | .complete .erase _ _ | .complete .unlockActive _ _ => true
  | _ => false

/-- Points inside a scope of the session's `m_cancel_guard`. -/
def Frame.holdsCancel (s : SessionId) : Frame → Bool
  | .cancelSetFlag r | .cancelSocket r | .cancelUnlockGuard r
  | .checkFlag _ r | .startNext _ r | .leave r => r = s
  | .complete _ r guarded => guarded && r = s
  | _ => false

theorem Frame.session_of_holdsCancel {f : Frame} {s : SessionId}
    (h : f.holdsCancel s = true) : f.session = some s := by
  cases f with
  | complete point r guarded => cases guarded <;> simp_all [Frame.holdsCancel, Frame.session]
  | _ => simp_all [Frame.holdsCancel, Frame.session]

/-- Mutex owners are exactly the threads inside the mutex's scopes. -/
structure Locking (σ : State) : Prop where
  active : ∀ t, σ.activeSessionsGuard = some t ↔ (σ.threads t).holdsActive = true
  cancel : ∀ s t, (σ.sessions s).cancelGuard = some t ↔ (σ.threads t).holdsCancel s = true

theorem Locking.init : Locking State.init :=
  ⟨fun _ => by simp [State.init, Frame.holdsActive],
    fun _ _ => by simp [State.init, Session.new, Frame.holdsCancel]⟩

/-- `m_active_sessions_guard` is taken and released with its scopes. -/
theorem Step.active_mutex {n : Nat} {σ σ' : State} {l : Label} {es : List Event}
    (h : Step n σ l σ' es) :
    System.MutexStep σ.activeSessionsGuard (fun t => (σ.threads t).holdsActive)
      σ'.activeSessionsGuard (fun t => (σ'.threads t).holdsActive) := by
  cases h with
  | @registerLock t s ht hfree | @cancelLock t id ht hfree | @lockActive t s guarded ht hfree =>
    refine .take t hfree rfl ?_ fun u hu => ?_
    · simp [Frame.holdsActive]
    · simp [hu]
  | @registerUnlock t s ht | @cancelUnlock t ht | @unlockActive t s guarded ht =>
    refine .release t ?_ rfl ?_ fun u hu => ?_
    · simp [ht, Frame.holdsActive]
    · simp [Frame.holdsActive]
    · simp [hu]
  | emulate hpool ht =>
    exact .keep rfl (State.threads_keep _ (fun u => State.threads_create ..)
      (by simp [ht, Frame.holdsActive]))
  | _ =>
    refine .keep rfl (State.threads_keep _ (fun u => State.threads_goto ..) ?_)
    simp [*, Frame.holdsActive]

/-- The guards of the sessions are taken and released with their scopes. -/
theorem Step.cancel_mutex {n : Nat} {σ σ' : State} {l : Label} {es : List Event}
    (h : Step n σ l σ' es) (hfresh : (σ.sessions σ.count).cancelGuard = none) (s : SessionId) :
    System.MutexStep (σ.sessions s).cancelGuard (fun t => (σ.threads t).holdsCancel s)
      (σ'.sessions s).cancelGuard (fun t => (σ'.threads t).holdsCancel s) := by
  cases h with
  | @cancelLockGuard t r ht hfree | @lockGuard t next r ht hfree =>
    by_cases hr : s = r
    · subst hr
      refine .take t hfree (by simp [Session.setGuard]) ?_ fun u hu => ?_
      · simp [Frame.holdsCancel]
      · simp [hu]
    · refine .keep (by simp [hr]) (State.threads_keep _ (fun u => State.threads_goto ..) ?_)
      simp [ht, Frame.holdsCancel, Ne.symm hr]
  | @cancelUnlockGuard t r ht | @leave t r ht =>
    by_cases hr : s = r
    · subst hr
      refine .release t ?_ (by simp [Session.setGuard]) ?_ fun u hu => ?_
      · simp [ht, Frame.holdsCancel]
      · simp [Frame.holdsCancel]
      · simp [hu]
    · refine .keep (by simp [hr]) (State.threads_keep _ (fun u => State.threads_goto ..) ?_)
      simp [ht, Frame.holdsCancel, Ne.symm hr]
  | emulate hpool ht =>
    refine .keep ?_ (State.threads_keep _ (fun u => State.threads_create ..)
      (by simp [ht, Frame.holdsCancel]))
    by_cases hs : s = σ.count
    · simp [hs, hfresh, Session.new]
    · simp [hs]
  | _ =>
    refine .keep ?_ (State.threads_keep _ (fun u => State.threads_goto ..) ?_)
    · simp only [State.sessions_goto, State.sessions_modify, State.sessions_setGuard,
        State.sessions_setActive]
      try split <;> simp_all [Session.start, Session.finish, Session.cancelSocket,
        Session.getResponse]
    · simp [*, Frame.holdsCancel]

/-- A session that does not exist yet has a free guard. -/
theorem Locking.fresh {σ : State} (hi : Locking σ) (hs : Scoped σ) :
    (σ.sessions σ.count).cancelGuard = none := by
  refine Option.eq_none_iff_forall_not_mem.mpr fun t ht => ?_
  have hsession := Frame.session_of_holdsCancel ((hi.cancel _ t).mp ht)
  exact absurd (hs.threads t _ hsession) (lt_irrefl _)

/-- Locking and unlocking follow the scopes at every step. -/
theorem Locking.step {n : Nat} {σ σ' : State} {l : Label} {es : List Event}
    (hi : Locking σ) (hs : Scoped σ) (h : Step n σ l σ' es) : Locking σ' where
  active := System.Owns.step hi.active h.active_mutex
  cancel s := System.Owns.step (hi.cancel s) (h.cancel_mutex (hi.fresh hs) s)

/-- Every run keeps the ownership of the mutexes. -/
theorem Run.locking {n : Nat} {labels : List Label} {σ : State} {tr : List Event}
    (h : Run n labels σ tr) : Locking σ :=
  Run.induction (P := fun σ _ => Locking σ) .init
    (fun hrun hi hs => hi.step hrun.scoped hs) h

end BoostAsio.AsyncTcpClient

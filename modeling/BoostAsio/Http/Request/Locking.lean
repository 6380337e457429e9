import BoostAsio.Core.System.Mutex
import BoostAsio.Http.Request.Step

/-!
# The scopes of `m_cancel_mux`

`IsCancelled` and `Cancel` are the two scopes of the mutex. A request that reads the
flag is alone with it, and a `Cancel` that has set the flag leaves it set.
-/

namespace BoostAsio.HttpRequest

open BoostAsio.System

/-- Points of the request inside `IsCancelled`. -/
def Point.holdsMux : Point → Bool
  | .abortUnlock | .checkFlag _ | .checkUnlock _ => true
  | _ => false

/-- Points of `Cancel` behind its lock. -/
def CancelPoint.holdsMux : CancelPoint → Bool
  | .idle | .lock => false
  | .setFlag | .cancelResolver | .cancelSocket | .unlock => true

/-- Points of `Cancel` behind the store to the flag. -/
def CancelPoint.flagged : CancelPoint → Bool
  | .idle | .lock | .setFlag => false
  | .cancelResolver | .cancelSocket | .unlock => true

/-- Who is inside a scope of the mutex. -/
def State.holdsMux (σ : State) : Owner → Bool
  | .request => σ.point.holdsMux
  | .canceller t => (σ.cancels t).holdsMux

section

variable {σ σ' : State} {l : Label} {es : List Event} {t : ThreadId}

/-- A cancelled operation is outside of the scopes. -/
theorem State.holdsMux_cancelPending (σ : State) (on : Stage → Bool) :
    (σ.cancelPending on).point.holdsMux = σ.point.holdsMux := by
  rcases σ.point_cancelPending on with he | ⟨stage, cancelled, hpoint, he⟩
  · rw [he]
  · rw [he, hpoint]
    rfl

private theorem holds_keep (hpoint : σ'.point.holdsMux = σ.point.holdsMux)
    (hcancels : ∀ t, (σ'.cancels t).holdsMux = (σ.cancels t).holdsMux) (u : Owner) :
    σ'.holdsMux u = σ.holdsMux u := by
  cases u with
  | request => exact hpoint
  | canceller t => exact hcancels t

private theorem holds_request (hcancels : ∀ t, (σ'.cancels t).holdsMux = (σ.cancels t).holdsMux)
    (u : Owner) (hu : u ≠ .request) : σ'.holdsMux u = σ.holdsMux u := by
  cases u with
  | request => exact absurd rfl hu
  | canceller t => exact hcancels t

private theorem holds_canceller (hpoint : σ'.point.holdsMux = σ.point.holdsMux)
    (hcancels : ∀ u, u ≠ t → (σ'.cancels u).holdsMux = (σ.cancels u).holdsMux) (u : Owner)
    (hu : u ≠ .canceller t) : σ'.holdsMux u = σ.holdsMux u := by
  cases u with
  | request => exact hpoint
  | canceller v => exact hcancels v fun hv => hu (congrArg Owner.canceller hv)

/-- The mutex is taken and released with its scopes. -/
theorem Step.mux (h : Step σ l σ' es) :
    MutexStep σ.cancelMux σ.holdsMux σ'.cancelMux σ'.holdsMux := by
  cases h with
  | checkLock hpoint hfree =>
    exact .take .request hfree rfl rfl (holds_request fun t => rfl)
  | checkUnlock hpoint | abortUnlock hpoint =>
    exact .release .request (by simp [State.holdsMux, hpoint, Point.holdsMux]) rfl rfl
      (holds_request fun t => rfl)
  | @cancelLock t ht hfree =>
    refine .take (.canceller t) hfree rfl ?_ (holds_canceller rfl fun u hu => ?_)
    · simp [State.holdsMux, CancelPoint.holdsMux]
    · simp [hu]
  | @cancelUnlock t ht =>
    refine .release (.canceller t) ?_ rfl ?_ (holds_canceller rfl fun u hu => ?_)
    · simp [State.holdsMux, ht, CancelPoint.holdsMux]
    · simp [State.holdsMux, CancelPoint.holdsMux]
    · simp [hu]
  | @cancel t ht | @cancelSetFlag t ht | @cancelClosed t ht =>
    refine .keep rfl (holds_keep rfl fun u => ?_)
    by_cases hu : u = t <;> simp [hu, ht, CancelPoint.holdsMux]
  | @cancelResolver t ht | @cancelSocket t ht =>
    refine .keep (by simp) (holds_keep (σ.holdsMux_cancelPending _) fun u => ?_)
    by_cases hu : u = t <;> simp [hu, ht, CancelPoint.holdsMux]
  | _ hpoint => exact .keep rfl (holds_keep (by simp [hpoint, Point.holdsMux]) fun t => rfl)

/-- The flag stays set. -/
theorem Step.wasCancelled_mono (h : Step σ l σ' es) (hf : σ.wasCancelled = true) :
    σ'.wasCancelled = true := by
  cases h <;> simp [hf]

/-- A thread is behind the store because it was, or because it has just set the flag. -/
theorem Step.new_flagged (h : Step σ l σ' es) (ht : (σ'.cancels t).flagged = true) :
    (σ.cancels t).flagged = true ∨ σ'.wasCancelled = true := by
  cases h with
  | @cancel u hu | @cancelLock u hu | @cancelSetFlag u hu | @cancelResolver u hu
  | @cancelSocket u hu | @cancelClosed u hu | @cancelUnlock u hu =>
    by_cases htu : t = u <;> simp_all [CancelPoint.flagged]
  | _ => exact Or.inl ht

end

/-- The mutex is held from inside its scopes, and a flag that was set stays set. -/
structure Locking (σ : State) : Prop where
  owns : Owns σ.cancelMux σ.holdsMux
  flagged : ∀ t, (σ.cancels t).flagged = true → σ.wasCancelled = true

theorem Locking.new (settings : Settings) : Locking (.new settings) where
  owns u := by cases u <;> simp [State.new, State.holdsMux, Point.holdsMux, CancelPoint.holdsMux]
  flagged t h := by simp [State.new, CancelPoint.flagged] at h

theorem Locking.step {σ σ' : State} {l : Label} {es : List Event} (hi : Locking σ)
    (h : Step σ l σ' es) : Locking σ' where
  owns := hi.owns.step h.mux
  flagged t ht := (h.new_flagged ht).elim (fun hold => h.wasCancelled_mono (hi.flagged t hold)) id

/-- A request inside `IsCancelled` keeps every `Cancel` outside. -/
theorem Locking.not_both {σ : State} (hi : Locking σ) {t : ThreadId}
    (ht : (σ.cancels t).holdsMux = true) : σ.point.holdsMux = false := by
  refine Bool.eq_false_iff.mpr fun hp => ?_
  cases hi.owns.unique (t := .request) (u := .canceller t) hp ht

end BoostAsio.HttpRequest

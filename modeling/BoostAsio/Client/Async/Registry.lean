import BoostAsio.Client.Async.Custody

/-!
# The map of active sessions

An entry always names a session of its own id that has not passed the erase of
`OnRequestComplete`. Erasing removes whatever stands under the id, so afterwards the
session is nowhere in the map, whichever session the id belonged to last.
-/

namespace BoostAsio.AsyncTcpClient

/-- Points of a session's chain before its registration or after its erase. -/
def Frame.unregistered : Frame → Option SessionId
  | .openSocket s | .registerLock s | .registerInsert s
  | .complete .unlockActive s _ | .complete .verdict s _ | .complete (.callback _) s _
  | .complete .inCallback s _ => some s
  | _ => none

theorem Frame.carries_of_unregistered {f : Frame} {s : SessionId}
    (h : f.unregistered = some s) : f.carries = some s := by
  cases f with
  | complete point r guarded => cases point <;> simp_all [Frame.unregistered, Frame.carries]
  | _ => simp_all [Frame.unregistered, Frame.carries]

/-- Entries stand under their own id and name sessions whose chain still needs them. -/
structure Registry (σ : State) (tr : List Event) : Prop where
  own_id : ∀ id s, σ.activeSessions id = some s → (σ.sessions s).id = id
  not_ended : ∀ id s, σ.activeSessions id = some s → ¬Ended tr s
  absent : ∀ t s id, (σ.threads t).unregistered = some s → σ.activeSessions id ≠ some s

theorem Registry.init : Registry State.init [] :=
  ⟨fun _ _ h => by simp [State.init] at h, fun _ _ h => by simp [State.init] at h,
    fun _ _ _ h => by simp [State.init, Frame.unregistered] at h⟩

section

variable {n : Nat} {σ σ' : State} {es : List Event} {l : Label} {t : ThreadId} {s : SessionId}

/-- A chain ends on the thread that carries it, outside the registration. -/
theorem Step.ended (h : Step n σ l σ' es) (he : Ended es s) :
    ∃ t, (σ.threads t).unregistered = some s ∧ (σ'.threads t).carries = none := by
  cases h with
  | @openThrows t r ht | @returnGuarded t r ht | @returnUnguarded t r ht =>
    obtain rfl : s = r := by simpa [Ended] using he
    exact ⟨t, by simp [ht, Frame.unregistered], by simp [Frame.carries]⟩
  | _ => simp [Ended] at he

/-- A session becomes unregistered by its creation or by the erase of its id. -/
theorem Step.new_unregistered (h : Step n σ l σ' es)
    (ht : (σ'.threads t).unregistered = some s) :
    (σ.threads t).unregistered = some s ∨ s = σ.count ∨
      σ'.activeSessions (σ.sessions s).id = none := by
  by_cases htl : t = l.thread
  · subst htl
    cases h <;> simp_all [Label.thread, Frame.unregistered]
  · exact Or.inl (h.threads_of_ne htl ▸ ht)

end

/-- Registration, overwriting and erasing keep the map's entries meaningful. -/
theorem Registry.step {n : Nat} {σ σ' : State} {tr es : List Event} {l : Label}
    {place : SessionId → Custody} (hi : Registry σ tr) (hp : Holds σ tr place)
    (hs : Scoped σ) (h : Step n σ l σ' es) : Registry σ' (tr ++ es) where
  own_id id s hid := by
    rcases h.new_entry hid with hold | ⟨t, ht, -, hnew⟩
    · rw [h.id_eq (hs.active id s hold), hi.own_id id s hold]
    · rw [h.id_eq (hs.threads t s (by simp [ht, Frame.session])), hnew]
  not_ended id s hid := by
    rw [ended_append, not_or]
    rcases h.new_entry hid with hold | ⟨t, ht, ht', -⟩
    · refine ⟨hi.not_ended id s hold, fun he => ?_⟩
      obtain ⟨t, ht, -⟩ := h.ended he
      exact hi.absent t s id ht hold
    · have hcarried : (σ.threads t).carries = some s := by simp [ht, Frame.carries]
      refine ⟨hp.not_ended hcarried, fun he => ?_⟩
      obtain ⟨u, hu, hnone⟩ := h.ended he
      obtain rfl := hp.unique hcarried (Frame.carries_of_unregistered hu)
      simp [ht', Frame.carries] at hnone
  absent t s id ht hid := by
    rcases h.new_entry hid with hold | ⟨u, -, hu, -⟩
    · rcases h.new_unregistered ht with hunregistered | rfl | hnone
      · exact hi.absent t s id hunregistered hold
      · exact absurd (hs.active id _ hold) (lt_irrefl _)
      · rw [hi.own_id id s hold, hid] at hnone
        cases hnone
    · obtain ⟨place', hp'⟩ := hp.step h
      have hcarried : (σ'.threads u).carries = some s := by simp [hu, Frame.carries]
      obtain rfl := hp'.unique hcarried (Frame.carries_of_unregistered ht)
      simp [hu, Frame.unregistered] at ht

/-- Every run keeps the map's entries meaningful. -/
theorem Run.registry {n : Nat} {labels : List Label} {σ : State} {tr : List Event}
    (h : Run n labels σ tr) : Registry σ tr := by
  refine Run.induction .init (fun hrun hi hs => ?_) h
  obtain ⟨place, hp⟩ := hrun.holds
  exact hi.step hp hrun.scoped hs

end BoostAsio.AsyncTcpClient

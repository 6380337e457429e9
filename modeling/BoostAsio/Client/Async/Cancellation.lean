import BoostAsio.Client.Async.Completion

/-!
# Sessions found by a cancellation

`CancelRequest` sets the flag of the session it found before it releases the map's
guard, so a session that has passed its erase was either flagged or never found.
-/

namespace BoostAsio.AsyncTcpClient

/-- Points of `CancelRequest` between the lookup and the flag. -/
def Frame.flags : Frame → Option SessionId
  | .cancelLockGuard s | .cancelSetFlag s => some s
  | _ => none

theorem Frame.holdsActive_of_flags {f : Frame} {s : SessionId} (h : f.flags = some s) :
    f.holdsActive = true := by
  cases f <;> simp_all [Frame.flags, Frame.holdsActive]

/-- Points of `OnRequestComplete` on the cancelled branch of a handler. -/
def Frame.aborting : Frame → Option SessionId
  | .complete _ s guarded => if guarded then some s else none
  | _ => none

section

variable {n : Nat} {σ σ' : State} {es : List Event} {l : Label} {t : ThreadId} {s : SessionId}

/-- The flag of a session is set by the thread that found it. -/
theorem Step.wasCancelled_cases (h : Step n σ l σ' es)
    (hf : (σ'.sessions s).wasCancelled = true) :
    (σ.sessions s).wasCancelled = true ∨ ∃ u, σ.threads u = .cancelSetFlag s := by
  cases h with
  | @cancelSetFlag u r hu =>
    by_cases hr : s = r
    · exact Or.inr ⟨u, hr ▸ hu⟩
    · exact Or.inl (by simpa [hr] using hf)
  | emulate =>
    by_cases hs : s = σ.count
    · simp [hs, Session.new] at hf
    · exact Or.inl (by simpa [hs] using hf)
  | asyncConnect | cancelLockGuard | cancelSocket | cancelUnlockGuard | deliver | handlerFailed
  | lockGuard | startNext | getResponse | leave =>
    rw [State.sessions_goto, State.sessions_modify_keep Session.wasCancelled rfl] at hf
    exact Or.inl hf
  | _ => exact Or.inl hf

/-- The flag of a session stays set. -/
theorem Step.wasCancelled_mono (h : Step n σ l σ' es) (hs : s < σ.count)
    (hf : (σ.sessions s).wasCancelled = true) : (σ'.sessions s).wasCancelled = true := by
  cases h with
  | emulate =>
    have hne : s ≠ σ.count := Nat.ne_of_lt hs
    simpa [hne] using hf
  | @cancelSetFlag t r ht =>
    by_cases hr : s = r
    · simp [hr]
    · simpa [hr] using hf
  | asyncConnect | cancelLockGuard | cancelSocket | cancelUnlockGuard | deliver | handlerFailed
  | lockGuard | startNext | getResponse | leave =>
    rw [State.sessions_goto, State.sessions_modify_keep Session.wasCancelled rfl]
    exact hf
  | _ => exact hf

/-- Entries change only under the map's guard, by a registration or an erase. -/
theorem Step.entry_cases (h : Step n σ l σ' es) {id : UInt32}
    (hid : σ.activeSessions id = some s) :
    σ'.activeSessions id = some s ∨
      ∃ u, (σ.threads u).holdsActive = true ∧ (σ.threads u).flags = none := by
  cases h with
  | @registerInsert t r ht =>
    by_cases heq : id = (σ.sessions r).id
    · exact Or.inr ⟨t, by simp [ht, Frame.holdsActive, Frame.flags]⟩
    · exact Or.inl (by simpa [heq] using hid)
  | @erase t r guarded ht =>
    by_cases heq : id = (σ.sessions r).id
    · exact Or.inr ⟨t, by simp [ht, Frame.holdsActive, Frame.flags]⟩
    · exact Or.inl (by simpa [heq] using hid)
  | _ => exact Or.inl hid

/-- A thread comes to flag the session that it has just found. -/
theorem Step.new_flags (h : Step n σ l σ' es) (ht : (σ'.threads t).flags = some s) :
    (σ.threads t).flags = some s ∨ .found s ∈ es ∧ ∃ id, σ.activeSessions id = some s ∧
      σ'.activeSessions id = some s := by
  by_cases htl : t = l.thread
  · subst htl
    cases h with
    | cancelFound hu hentry =>
      obtain rfl : _ = s := by simpa [Label.thread, Frame.flags] using ht
      exact Or.inr ⟨by simp, _, hentry, hentry⟩
    | _ => simp_all [Label.thread, Frame.flags]
  · exact Or.inl (h.threads_of_ne htl ▸ ht)

/-- A thread goes on to flag the session until the flag is set. -/
theorem Step.flags_cases (h : Step n σ l σ' es) (ht : (σ.threads t).flags = some s) :
    (σ'.threads t).flags = some s ∨ (σ'.sessions s).wasCancelled = true := by
  by_cases htl : t = l.thread
  · subst htl
    cases h <;> simp_all [Label.thread, Frame.flags]
  · exact Or.inl (h.threads_of_ne htl ▸ ht)

/-- A step finds a session that is in the map, and its thread goes on to flag it. -/
theorem Step.mem_found (h : Step n σ l σ' es) (hm : .found s ∈ es) :
    (∃ id, σ.activeSessions id = some s) ∧ ∃ u, (σ'.threads u).flags = some s := by
  cases h with
  | @cancelFound u id r hu hentry =>
    obtain rfl := Event.found.inj (List.mem_singleton.mp hm)
    exact ⟨⟨id, hentry⟩, u, by simp [Frame.flags]⟩
  | _ => simp at hm

/-- The cancelled branch is taken on a set flag. -/
theorem Step.new_aborting (h : Step n σ l σ' es) (ht : (σ'.threads t).aborting = some s) :
    (σ.threads t).aborting = some s ∨ (σ.sessions s).wasCancelled = true := by
  by_cases htl : t = l.thread
  · subst htl
    cases h <;> simp_all [Label.thread, Frame.aborting]
  · exact Or.inl (h.threads_of_ne htl ▸ ht)

end

/-- A found session is flagged, or the thread that found it is about to flag it while it
keeps the session's entry in the map. -/
structure Flagging (σ : State) (tr : List Event) : Prop where
  created : ∀ s, .found s ∈ tr → s < σ.count
  flagged : ∀ s, (σ.sessions s).wasCancelled = true → .found s ∈ tr
  flagging : ∀ t s, (σ.threads t).flags = some s →
    .found s ∈ tr ∧ σ.activeSessions (σ.sessions s).id = some s
  found : ∀ s, .found s ∈ tr →
    (σ.sessions s).wasCancelled = true ∨ ∃ t, (σ.threads t).flags = some s
  aborting : ∀ t s, (σ.threads t).aborting = some s → (σ.sessions s).wasCancelled = true

theorem Flagging.init : Flagging State.init [] where
  created s h := by simp at h
  flagged s h := by simp [State.init, Session.new] at h
  flagging t s h := by simp [State.init, Frame.flags] at h
  found s h := by simp at h
  aborting t s h := by simp [State.init, Frame.aborting] at h

/-- Two threads inside the scope of the map's guard are the same thread. -/
theorem Locking.active_unique {σ : State} (hi : Locking σ) {t u : ThreadId}
    (ht : (σ.threads t).holdsActive = true) (hu : (σ.threads u).holdsActive = true) : t = u := by
  have hheld := (hi.active t).mpr ht
  rw [(hi.active u).mpr hu] at hheld
  exact (Option.some.inj hheld).symm

/-- The map's guard keeps the entry from the lookup to the flag. -/
theorem Flagging.step {n : Nat} {σ σ' : State} {tr es : List Event} {l : Label}
    (hi : Flagging σ tr) (hs : Scoped σ) (hl : Locking σ) (hr : Registry σ tr)
    (h : Step n σ l σ' es) : Flagging σ' (tr ++ es) where
  created s hm := by
    rcases List.mem_append.mp hm with hold | hnew
    · exact (hi.created s hold).trans_le h.count_le
    · obtain ⟨⟨id, hid⟩, -⟩ := h.mem_found hnew
      exact (hs.active id s hid).trans_le h.count_le
  flagged s hf := by
    rcases h.wasCancelled_cases hf with hold | ⟨t, ht⟩
    · exact List.mem_append_left _ (hi.flagged s hold)
    · exact List.mem_append_left _ (hi.flagging t s (by rw [ht]; rfl)).1
  flagging t s ht := by
    rcases h.new_flags ht with hold | ⟨hm, id, hid, hid'⟩
    · obtain ⟨hm, hid⟩ := hi.flagging t s hold
      refine ⟨List.mem_append_left _ hm, ?_⟩
      rw [h.id_eq (hi.created s hm)]
      rcases h.entry_cases hid with hkept | ⟨u, hu, hnone⟩
      · exact hkept
      · obtain rfl := hl.active_unique hu (Frame.holdsActive_of_flags hold)
        simp [hold] at hnone
    · refine ⟨List.mem_append_right _ hm, ?_⟩
      rw [h.id_eq (hs.active id s hid), hr.own_id id s hid]
      exact hid'
  found s hm := by
    rcases List.mem_append.mp hm with hold | hnew
    · rcases hi.found s hold with hf | ⟨t, ht⟩
      · exact Or.inl (h.wasCancelled_mono (hi.created s hold) hf)
      · exact (h.flags_cases ht).symm.imp_right fun ht' => ⟨t, ht'⟩
    · exact Or.inr (h.mem_found hnew).2
  aborting t s ht := by
    have hf : (σ.sessions s).wasCancelled = true :=
      (h.new_aborting ht).elim (hi.aborting t s) id
    exact h.wasCancelled_mono (hi.created s (hi.flagged s hf)) hf

/-- Every run flags the sessions that were found before they pass the erase. -/
theorem Run.flagging {n : Nat} {labels : List Label} {σ : State} {tr : List Event}
    (h : Run n labels σ tr) : Flagging σ tr :=
  Run.induction .init
    (fun hrun hi hs => hi.step hrun.scoped hrun.locking hrun.registry hs) h

end BoostAsio.AsyncTcpClient

import BoostAsio.Client.Async.History
import BoostAsio.Client.Async.Cancellation

/-!
# Cancellations that reach nothing

`m_sock.cancel()` affects the operations that are pending when it is called. The write
and the read are started under `m_cancel_guard`, on a flag that the guard keeps clear.
The connect is started on a session that other threads already find in the map.
-/

namespace BoostAsio.AsyncTcpClient

/-- The session a program point is about to start an operation of. -/
def Frame.starts : Frame → Option SessionId
  | .asyncConnect s | .startNext _ s => some s
  | _ => none

/-- The session of a later stage whose flag has been checked. -/
def Frame.checked : Frame → Option SessionId
  | .startNext _ s => some s
  | _ => none

/-- The session that `CancelRequest` has flagged and not yet cancelled. -/
def Frame.cancels : Frame → Option SessionId
  | .cancelSocket s => some s
  | _ => none

theorem Frame.session_of_cancels {f : Frame} {s : SessionId} (h : f.cancels = some s) :
    f.session = some s := by
  cases f <;> simp_all [Frame.cancels, Frame.session]

theorem Frame.holdsCancel_of_checked {f : Frame} {s : SessionId} (h : f.checked = some s) :
    f.holdsCancel s = true := by
  cases f <;> simp_all [Frame.checked, Frame.holdsCancel]

section

variable {n : Nat} {σ σ' : State} {es : List Event} {l : Label} {t : ThreadId} {s : SessionId}

/-- A write or a read is about to be started after the flag was found clear. -/
theorem Step.new_checked (h : Step n σ l σ' es) (ht : (σ'.threads t).checked = some s) :
    (σ.threads t).checked = some s ∨
      (σ.sessions s).wasCancelled = false ∧ (σ'.sessions s).wasCancelled = false := by
  by_cases htl : t = l.thread
  · subst htl
    cases h <;> simp_all [Label.thread, Frame.checked]
  · exact Or.inl (h.threads_of_ne htl ▸ ht)

/-- The socket is about to be cancelled after the flag was set. -/
theorem Step.new_cancels (h : Step n σ l σ' es) (ht : (σ'.threads t).cancels = some s) :
    (σ.threads t).cancels = some s ∨ (σ'.sessions s).wasCancelled = true := by
  by_cases htl : t = l.thread
  · subst htl
    cases h <;> simp_all [Label.thread, Frame.cancels]
  · exact Or.inl (h.threads_of_ne htl ▸ ht)

/-- What is pending was pending before, was cancelled, or is started by this step. -/
theorem Step.pending_cases (h : Step n σ l σ' es) {p : Pending}
    (hp : p ∈ (σ'.sessions s).pending) :
    p ∈ (σ.sessions s).pending ∨ p.cancelled = true ∨
      ∃ t, l = .run t ∧ (σ.threads t).starts = some s := by
  cases h with
  | @asyncConnect t r ht | @startNext t next r ht =>
    by_cases hr : s = r
    · exact Or.inr (Or.inr ⟨t, rfl, by simp [ht, hr, Frame.starts]⟩)
    · exact Or.inl (by simpa [hr] using hp)
  | @cancelSocket t r ht =>
    by_cases hr : s = r
    · simp only [State.sessions_goto, State.sessions_modify, if_pos hr, Session.cancelSocket,
        List.mem_map] at hp
      obtain ⟨q, -, rfl⟩ := hp
      exact Or.inr (Or.inl rfl)
    · exact Or.inl (by simpa [hr] using hp)
  | @deliver t r q ec received hpool ht hq =>
    by_cases hr : s = r
    · subst hr
      simp only [State.sessions_goto, State.sessions_modify, if_true, Session.finish] at hp
      exact Or.inl (List.mem_of_mem_erase hp)
    · exact Or.inl (by simpa [hr] using hp)
  | emulate hpool ht =>
    by_cases hs : s = σ.count
    · simp [hs, Session.new] at hp
    · exact Or.inl (by simpa [hs] using hp)
  | cancelLockGuard | cancelSetFlag | cancelUnlockGuard | handlerFailed | lockGuard | getResponse
  | leave =>
    rw [State.sessions_goto, State.sessions_modify_keep Session.pending rfl] at hp
    exact Or.inl hp
  | _ => exact Or.inl hp

/-- The socket of a session is cancelled by the thread that stands at the call. -/
theorem Step.mem_note_cancelled (h : Step n σ l σ' es) (hm : .cancelled t s ∈ note σ l) :
    (σ.threads t).cancels = some s ∧ ∀ p ∈ (σ'.sessions s).pending, p.cancelled = true := by
  cases h with
  | @cancelSocket u r hu =>
    simp only [note, hu, List.mem_singleton, Note.cancelled.injEq] at hm
    obtain ⟨rfl, rfl⟩ := hm
    refine ⟨by simp [hu, Frame.cancels], fun p hp => ?_⟩
    simp only [State.sessions_goto, State.sessions_modify, if_true, Session.cancelSocket,
      List.mem_map] at hp
    obtain ⟨q, -, rfl⟩ := hp
    rfl
  | _ => simp_all [note]

end

/-- The guard keeps the flag clear between its check and the start of the operation, and
the flag is set before the socket is cancelled. -/
structure Guarding (σ : State) : Prop where
  checked : ∀ t s, (σ.threads t).checked = some s → (σ.sessions s).wasCancelled = false
  cancels : ∀ t s, (σ.threads t).cancels = some s → (σ.sessions s).wasCancelled = true

theorem Guarding.init : Guarding State.init where
  checked t s h := by simp [State.init, Frame.checked] at h
  cancels t s h := by simp [State.init, Frame.cancels] at h

theorem Guarding.step {n : Nat} {σ σ' : State} {es : List Event} {l : Label}
    (hi : Guarding σ) (hs : Scoped σ) (hl : Locking σ) (h : Step n σ l σ' es) :
    Guarding σ' where
  checked t s ht := by
    rcases h.new_checked ht with hold | ⟨-, hf⟩
    · -- A thread that sets the flag would be inside the same scope.
      refine Bool.eq_false_iff.mpr fun hf => ?_
      rcases h.wasCancelled_cases hf with hold' | ⟨u, hu⟩
      · rw [hi.checked t s hold] at hold'
        cases hold'
      · have hheld : (σ.threads u).holdsCancel s = true := by simp [hu, Frame.holdsCancel]
        obtain rfl := System.Owns.unique (hl.cancel s) (Frame.holdsCancel_of_checked hold) hheld
        simp [hu, Frame.checked] at hold
    · exact hf
  cancels t s ht := by
    rcases h.new_cancels ht with hold | hf
    · have hlt := hs.threads t s (Frame.session_of_cancels hold)
      exact h.wasCancelled_mono hlt (hi.cancels t s hold)
    · exact hf

/-- Every run keeps the flags of checked sessions clear. -/
theorem Run.guarding {n : Nat} {labels : List Label} {σ : State} {tr : List Event}
    (h : Run n labels σ tr) : Guarding σ :=
  Run.induction (P := fun σ _ => Guarding σ) .init
    (fun hrun hi hs => hi.step hrun.scoped hrun.locking hs) h

/-- A cancelled session is flagged, and nothing of it is pending that was not cancelled. -/
def Cancelled (σ : State) (h : List Note) : Prop :=
  ∀ t s, .cancelled t s ∈ h → s < σ.count ∧ (σ.sessions s).wasCancelled = true ∧
    ∀ p ∈ (σ.sessions s).pending, p.cancelled = true

/-- `EmulateLongComputationOp` starts the connect of a session that is already flagged. -/
def Late (σ : State) (l : Label) : Prop :=
  ∃ t s, l = .run t ∧ σ.threads t = .asyncConnect s ∧ (σ.sessions s).wasCancelled = true

/-- Only a late connect starts an operation of a cancelled session. -/
theorem Cancelled.step {n : Nat} {σ σ' : State} {es : List Event} {l : Label} {h : List Note}
    (hi : Cancelled σ h) (hc : Scoped σ) (hg : Guarding σ) (hs : Step n σ l σ' es)
    (hlate : ¬Late σ l) : Cancelled σ' (h ++ note σ l) := by
  intro t s hm
  rcases List.mem_append.mp hm with hold | hnew
  · obtain ⟨hlt, hf, hall⟩ := hi t s hold
    refine ⟨hlt.trans_le hs.count_le, hs.wasCancelled_mono hlt hf, fun p hp => ?_⟩
    rcases hs.pending_cases hp with hp | hp | ⟨u, rfl, hu⟩
    · exact hall p hp
    · exact hp
    · exfalso
      cases hframe : σ.threads u with
      | asyncConnect r =>
        obtain rfl : r = s := by simpa [hframe, Frame.starts] using hu
        exact hlate ⟨u, r, rfl, hframe, hf⟩
      | startNext next r =>
        obtain rfl : r = s := by simpa [hframe, Frame.starts] using hu
        rw [hg.checked u r (by simp [hframe, Frame.checked])] at hf
        cases hf
      | _ => simp [hframe, Frame.starts] at hu
  · obtain ⟨ht, hall⟩ := hs.mem_note_cancelled hnew
    have hlt := hc.threads t s (Frame.session_of_cancels ht)
    exact ⟨hlt.trans_le hs.count_le, hs.wasCancelled_mono hlt (hg.cancels t s ht), hall⟩

/-- A `CancelRequest` that found the session has returned. -/
def CancelReturned (h : List Note) (s : SessionId) : Prop :=
  ∃ t before after, h = before ++ .cancelled t s :: after ∧ .returned t ∈ after

/-- No operation that escaped its cancellation is pending after a cancellation returned. -/
def NothingEscapes (n : Nat) (labels : List Label) : Prop :=
  ∀ pre σ tr, pre <+: labels → Run n pre σ tr → ∀ s, CancelReturned (notes n pre) s →
    ∀ p ∈ (σ.sessions s).pending, p.cancelled = true

/-- No operation of a session is started once its flag is set. -/
def StartsUnflagged (n : Nat) (labels : List Label) : Prop :=
  ∀ σ t s, System.StepOnRun (step n) State.init labels σ (.run t) →
    (σ.threads t).starts = some s → (σ.sessions s).wasCancelled = false

/-- Cancellations of a run are not lost exactly when no connect is started late: the write
and the read never are. -/
theorem cancellation_kept_iff (n : Nat) (labels : List Label) :
    NothingEscapes n labels ∧ StartsUnflagged n labels ↔
      ∀ σ l, System.StepOnRun (step n) State.init labels σ l → ¬Late σ l := by
  constructor
  · rintro ⟨-, hstarts⟩ σ l hstep ⟨t, s, rfl, ht, hf⟩
    rw [hstarts σ t s hstep (by simp [ht, Frame.starts])] at hf
    cases hf
  · intro hlate
    constructor
    · rintro pre σ tr hpre hrun s ⟨t, before, after, hh, -⟩
      have hcancelled : Cancelled σ (notes n pre) := by
        revert hpre
        refine Run.induction_notes (P := fun as σ _ h => as <+: labels → Cancelled σ h) ?_ ?_ hrun
        · intro _ t s hm
          simp at hm
        · intro as ρ tr l ρ' es hrun ih hs hpre
          refine (ih ((List.prefix_append ..).trans hpre)).step hrun.scoped hrun.guarding hs ?_
          exact hlate ρ l ⟨as, hpre, tr, hrun⟩
      exact (hcancelled t s (by simp [hh])).2.2
    · rintro σ t s ⟨pre, hpre, tr, hrun⟩ ht
      cases hframe : σ.threads t with
      | asyncConnect r =>
        obtain rfl : r = s := by simpa [hframe, Frame.starts] using ht
        refine Bool.eq_false_iff.mpr fun hf => ?_
        exact hlate σ _ ⟨pre, hpre, tr, hrun⟩ ⟨t, r, rfl, hframe, hf⟩
      | startNext next r =>
        obtain rfl : r = s := by simpa [hframe, Frame.starts] using ht
        exact (Run.guarding hrun).checked t r (by simp [hframe, Frame.checked])
      | _ => simp [hframe, Frame.starts] at ht

/-- The request is cancelled between its registration and the start of its connect. -/
def earlyCancelSchedule : List Label :=
  .emulate 1 10 1 :: List.replicate 4 (.run 1) ++
    .cancelRequest 2 1 :: List.replicate 7 (.run 2) ++ [.run 1]

/-- The connect is pending as if nobody had cancelled the request. -/
theorem earlyCancelSchedule_escapes : ∃ σ tr, Run 1 earlyCancelSchedule σ tr ∧
    ¬(NothingEscapes 1 earlyCancelSchedule ∧ StartsUnflagged 1 earlyCancelSchedule) := by
  obtain ⟨σ, tr, hrun, hnotes, hpending⟩ : ∃ σ tr, Run 1 earlyCancelSchedule σ tr ∧
      notes 1 earlyCancelSchedule = [.registered 1 0] ++ .cancelled 2 0 :: [.returned 2] ∧
      (σ.sessions 0).pending = [⟨.connect, false⟩] :=
    ⟨_, _, rfl, by decide, by decide⟩
  refine ⟨σ, tr, hrun, fun ⟨hescapes, _⟩ => ?_⟩
  have hall := hescapes _ σ tr List.prefix_rfl hrun 0 ⟨2, _, _, hnotes, by simp⟩
  rw [hpending] at hall
  exact absurd (hall _ (List.mem_singleton_self _)) Bool.false_ne_true

end BoostAsio.AsyncTcpClient

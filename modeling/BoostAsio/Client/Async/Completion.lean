import BoostAsio.Client.Async.Registry
import BoostAsio.Client.Async.Locking

/-!
# Exactly-once completion of the sessions

The callback of a session is invoked by the thread that carries it, at one point of
its chain. Counting the invocations along the custody of the session gives exactly
one of them in every completed chain and none before the callback line is reached.
-/

namespace BoostAsio.AsyncTcpClient

/-- Whether an event is an invocation of the session's callback. -/
def Event.isCallback (s : SessionId) : Event → Bool
  | .callback r _ _ _ => r = s
  | _ => false

/-- The invocations of a session's callback in a trace. -/
def callbackCount (s : SessionId) (tr : List Event) : Nat := tr.countP (Event.isCallback s)

@[simp] theorem callbackCount_nil (s : SessionId) : callbackCount s [] = 0 := rfl

@[simp] theorem callbackCount_append (s : SessionId) (tr es : List Event) :
    callbackCount s (tr ++ es) = callbackCount s tr + callbackCount s es :=
  List.countP_append

@[simp] theorem callbackCount_singleton (s : SessionId) (e : Event) :
    callbackCount s [e] = if e.isCallback s then 1 else 0 := by
  simp [callbackCount, List.countP_cons]

/-- Points of `EmulateLongComputationOp` after the session was created. -/
def Frame.emulates : Frame → Option SessionId
  | .openSocket s | .registerLock s | .registerInsert s | .registerUnlock s
  | .asyncConnect s => some s
  | _ => none

/-- Points of a handler and of `OnRequestComplete` that carry the session on. -/
def Frame.runs : Frame → Option SessionId
  | .handler _ _ s | .lockGuard _ s | .checkFlag _ s | .startNext _ s | .getResponse s
  | .complete _ s _ => some s
  | _ => none

/-- Points inside the body of a handler, the end of its scope included. -/
def Frame.inHandler : Frame → Option SessionId
  | .leave s => some s
  | f => f.runs

/-- The point inside the user callback. -/
def Frame.called : Frame → Option SessionId
  | .complete .inCallback s _ => some s
  | _ => none

theorem Frame.carries_of_emulates {f : Frame} {s : SessionId}
    (h : f.emulates = some s) : f.carries = some s := by
  cases f <;> simp_all [Frame.emulates, Frame.carries]

theorem Frame.carries_of_called {f : Frame} {s : SessionId}
    (h : f.called = some s) : f.carries = some s := by
  cases f with
  | complete point r guarded => cases point <;> simp_all [Frame.called, Frame.carries]
  | _ => simp_all [Frame.called]

theorem Frame.carries_iff {f : Frame} {s : SessionId} :
    f.carries = some s ↔ f.emulates = some s ∨ f.runs = some s := by
  cases f <;> simp [Frame.emulates, Frame.runs, Frame.carries]

theorem Frame.not_emulates_and_runs {f : Frame} {s : SessionId}
    (he : f.emulates = some s) (hr : f.runs = some s) : False := by
  cases f <;> simp_all [Frame.emulates, Frame.runs]

section

variable {n : Nat} {σ σ' : State} {es : List Event} {l : Label} {t : ThreadId} {s : SessionId}

/-- A step invokes at most one callback of a session, on the thread that carries it. -/
theorem Step.callbackCount_cases (h : Step n σ l σ' es) (s : SessionId) :
    callbackCount s es = 0 ∨ callbackCount s es = 1 ∧ ∃ t, (σ.threads t).carries = some s ∧
      (σ.threads t).called = none ∧ (σ'.threads t).called = some s := by
  cases h with
  | @callback t r guarded ec ht =>
    by_cases hr : r = s
    · exact Or.inr ⟨by simp [Event.isCallback, hr], t,
        by simp [ht, hr, Frame.carries, Frame.called]⟩
    · exact Or.inl (by simp [Event.isCallback, hr])
  | _ => exact Or.inl (by simp [Event.isCallback])

/-- A thread enters the callback by invoking it. -/
theorem Step.new_called (h : Step n σ l σ' es) (ht : (σ'.threads t).called = some s) :
    (σ.threads t).called = some s ∨ callbackCount s es = 1 ∧ (σ.threads t).carries = some s ∧
      (σ.threads t).called = none := by
  by_cases htl : t = l.thread
  · subst htl
    cases h <;> simp_all [Label.thread, Frame.called, Frame.carries, Event.isCallback]
  · exact Or.inl (h.threads_of_ne htl ▸ ht)

/-- A thread stays in the callback until it completes the session. -/
theorem Step.called_cases (h : Step n σ l σ' es) (ht : (σ.threads t).called = some s) :
    (σ'.threads t).called = some s ∨ .completed s ∈ es := by
  by_cases htl : t = l.thread
  · subst htl
    cases h <;> simp_all [Label.thread, Frame.called]
  · exact Or.inl (h.threads_of_ne htl ▸ ht)

/-- A session is completed on the return from its callback. -/
theorem Step.mem_completed (h : Step n σ l σ' es) (hm : .completed s ∈ es) :
    callbackCount s es = 0 ∧ ∃ t, (σ.threads t).called = some s := by
  cases h with
  | @returnGuarded t r ht | @returnUnguarded t r ht =>
    obtain rfl := Event.completed.inj (List.mem_singleton.mp hm)
    exact ⟨by simp [Event.isCallback], t, by simp [ht, Frame.called]⟩
  | _ => simp at hm

/-- A thread goes on with the construction of its session or starts one. -/
theorem Step.new_emulates (h : Step n σ l σ' es) (ht : (σ'.threads t).emulates = some s) :
    (σ.threads t).emulates = some s ∨ s = σ.count := by
  by_cases htl : t = l.thread
  · subst htl
    cases h <;> simp_all [Label.thread, Frame.emulates]
  · exact Or.inl (h.threads_of_ne htl ▸ ht)

/-- `EmulateLongComputationOp` returns on the thread that carries its session. -/
theorem Step.mem_emulated (h : Step n σ l σ' es) (hm : .emulated s ∈ es) :
    .openFailed s ∉ es ∧ ∃ t, (σ.threads t).emulates = some s ∧ (σ'.threads t).emulates = none := by
  cases h with
  | @asyncConnect t r ht =>
    obtain rfl := Event.emulated.inj (List.mem_singleton.mp hm)
    exact ⟨by simp, t, by simp [ht, Frame.emulates]⟩
  | _ => simp at hm

/-- A socket is refused while `EmulateLongComputationOp` runs. -/
theorem Step.mem_openFailed (h : Step n σ l σ' es) (hm : .openFailed s ∈ es) :
    ∃ t, (σ.threads t).emulates = some s := by
  cases h with
  | @openThrows t r ht =>
    obtain rfl := Event.openFailed.inj (List.mem_singleton.mp hm)
    exact ⟨t, by simp [ht, Frame.emulates]⟩
  | _ => simp at hm

end

/-- How often the callback was invoked, and when `EmulateLongComputationOp` returned. -/
structure Calls (σ : State) (tr : List Event) : Prop where
  completed : ∀ s, .completed s ∈ tr → callbackCount s tr = 1
  called : ∀ t s, (σ.threads t).called = some s → callbackCount s tr = 1
  before : ∀ s, .completed s ∉ tr → (∀ t, (σ.threads t).called ≠ some s) →
    callbackCount s tr = 0
  emulated : ∀ t s, (σ.threads t).emulates = some s → .emulated s ∉ tr
  returned : ∀ s, .emulated s ∈ tr → s < σ.count ∧ .openFailed s ∉ tr

theorem Calls.init : Calls State.init [] where
  completed s h := by simp at h
  called t s h := by simp [State.init, Frame.called] at h
  before s _ _ := rfl
  emulated t s h := by simp
  returned s h := by simp at h

/-- The callback is invoked only by the carrying thread and only at its callback line. -/
theorem Calls.step {n : Nat} {σ σ' : State} {tr es : List Event} {l : Label}
    {place : SessionId → Custody} (hi : Calls σ tr) (hp : Holds σ tr place)
    (h : Step n σ l σ' es) : Calls σ' (tr ++ es) where
  completed s hm := by
    rw [callbackCount_append]
    rcases List.mem_append.mp hm with hold | hnew
    · rcases h.callbackCount_cases s with hnone | ⟨-, t, ht, -⟩
      · rw [hi.completed s hold, hnone]
      · exact absurd (Or.inl hold) (hp.not_ended ht)
    · obtain ⟨hnone, t, ht⟩ := h.mem_completed hnew
      rw [hi.called t s ht, hnone]
  called t s ht := by
    rw [callbackCount_append]
    rcases h.new_called ht with hold | ⟨hone, hcarried, hnot⟩
    · rcases h.callbackCount_cases s with hnone | ⟨-, u, hu, hnot, -⟩
      · rw [hi.called t s hold, hnone]
      · obtain rfl := hp.unique hu (Frame.carries_of_called hold)
        simp [hold] at hnot
    · have hrunning : .completed s ∉ tr := fun hc => hp.not_ended hcarried (Or.inl hc)
      rw [hone, hi.before s hrunning fun u hu => ?_]
      obtain rfl := hp.unique hcarried (Frame.carries_of_called hu)
      simp [hu] at hnot
  before s hm hnone := by
    rw [List.mem_append, not_or] at hm
    have hzero := hi.before s hm.1 fun t ht => (h.called_cases ht).elim (hnone t) hm.2
    rcases h.callbackCount_cases s with hes | ⟨-, t, -, -, ht⟩
    · rw [callbackCount_append, hzero, hes]
    · exact absurd ht (hnone t)
  emulated t s ht := by
    have hes : .emulated s ∉ es := fun hm => by
      obtain ⟨-, u, hu, hnone⟩ := h.mem_emulated hm
      rcases h.new_emulates ht with hold | rfl
      · obtain rfl := hp.unique (Frame.carries_of_emulates hu) (Frame.carries_of_emulates hold)
        simp [ht] at hnone
      · exact absurd (hp.lt_count (Frame.carries_of_emulates hu)) (lt_irrefl _)
    have htr : .emulated s ∉ tr := by
      rcases h.new_emulates ht with hold | rfl
      · exact hi.emulated t s hold
      · exact fun hm => absurd (hi.returned _ hm).1 (lt_irrefl _)
    exact fun hm => (List.mem_append.mp hm).elim htr hes
  returned s hm := by
    rcases List.mem_append.mp hm with hold | hnew
    · obtain ⟨hs, hopen⟩ := hi.returned s hold
      refine ⟨hs.trans_le h.count_le, fun hm => (List.mem_append.mp hm).elim hopen fun hes => ?_⟩
      obtain ⟨t, ht⟩ := h.mem_openFailed hes
      exact hi.emulated t s ht hold
    · obtain ⟨hes, t, ht, -⟩ := h.mem_emulated hnew
      have hcarried := Frame.carries_of_emulates ht
      refine ⟨(hp.lt_count hcarried).trans_le h.count_le, fun hm => ?_⟩
      exact (List.mem_append.mp hm).elim (fun hf => hp.not_ended hcarried (Or.inr hf)) hes

/-- Every run counts the invocations along the custody of the sessions. -/
theorem Run.calls {n : Nat} {labels : List Label} {σ : State} {tr : List Event}
    (h : Run n labels σ tr) : Calls σ tr := by
  refine Run.induction .init (fun hrun hi hs => ?_) h
  obtain ⟨place, hp⟩ := hrun.holds
  exact hi.step hp hs

/-- One of three conditions holds and the other two do not. -/
def ExactlyOne (p q r : Prop) : Prop := p ∧ ¬q ∧ ¬r ∨ ¬p ∧ q ∧ ¬r ∨ ¬p ∧ ¬q ∧ r

/-- The first operation is about to be started, or exactly one is pending. -/
def State.Waiting (σ : State) (s : SessionId) : Prop :=
  (∃ t, (σ.threads t).emulates = some s) ∨ ∃ p, (σ.sessions s).pending = [p]

/-- A thread that carries a session excludes every other condition of the session. -/
theorem Holds.not_waiting_of_runs {σ : State} {tr : List Event} {place : SessionId → Custody}
    (hp : Holds σ tr place) {t : ThreadId} {s : SessionId}
    (ht : (σ.threads t).runs = some s) : ¬σ.Waiting s := by
  have hcarried := Frame.carries_iff.mpr (Or.inr ht)
  rintro (⟨u, hu⟩ | ⟨p, hpending⟩)
  · obtain rfl := hp.unique hcarried (Frame.carries_of_emulates hu)
    exact Frame.not_emulates_and_runs hu ht
  · simp [hp.pending_of_carried hcarried] at hpending

/-- The place of a session's token decides which of its three conditions holds. -/
theorem Holds.exactlyOne {σ : State} {tr : List Event} {place : SessionId → Custody}
    (hp : Holds σ tr place) {s : SessionId} (hs : s < σ.count) (hopen : .openFailed s ∉ tr) :
    ExactlyOne (σ.Waiting s) (∃! t, (σ.threads t).runs = some s) (.completed s ∈ tr) := by
  have hnone : (∀ t, place s ≠ .thread t) → ∀ t, (σ.threads t).carries ≠ some s :=
    fun hplace t ht => hplace t ((hp.thread s t).mpr ht)
  cases hplace : place s with
  | unborn =>
    exact absurd hs (Nat.not_lt.mpr ((hp.unborn s).mp hplace))
  | thread t =>
    have hcarried := (hp.thread s t).mp hplace
    have hrunning : .completed s ∉ tr := fun hc => hp.not_ended hcarried (Or.inl hc)
    rcases Frame.carries_iff.mp hcarried with ht | ht
    · refine Or.inl ⟨Or.inl ⟨t, ht⟩, ?_, hrunning⟩
      rintro ⟨u, hu, -⟩
      exact hp.not_waiting_of_runs hu (Or.inl ⟨t, ht⟩)
    · refine Or.inr (Or.inl ⟨hp.not_waiting_of_runs ht, ⟨t, ht, fun u hu => ?_⟩, hrunning⟩)
      exact hp.unique (Frame.carries_iff.mpr (Or.inr hu)) hcarried
  | asio =>
    have hidle := hnone (by simp [hplace])
    refine Or.inl ⟨Or.inr (hp.asio s hplace), ?_, fun hc => ?_⟩
    · rintro ⟨u, hu, -⟩
      exact hidle u (Frame.carries_iff.mpr (Or.inr hu))
    · have := (hp.ended s).mpr (Or.inl hc)
      simp [hplace] at this
  | ended =>
    have hidle := hnone (by simp [hplace])
    have hcompleted := ((hp.ended s).mp hplace).resolve_right hopen
    refine Or.inr (Or.inr ⟨?_, ?_, hcompleted⟩)
    · rintro (⟨u, hu⟩ | ⟨p, hpending⟩)
      · exact hidle u (Frame.carries_of_emulates hu)
      · simp [hp.quiet s (by simp [hplace])] at hpending
    · rintro ⟨u, hu, -⟩
      exact hidle u (Frame.carries_iff.mpr (Or.inr hu))

/-- At most one handler of a session is still leaving its scope. -/
theorem Locking.leave_unique {σ : State} (hi : Locking σ) {t u : ThreadId} {s : SessionId}
    (ht : σ.threads t = .leave s) (hu : σ.threads u = .leave s) : t = u := by
  have hheld := (hi.cancel s t).mpr (by simp [ht, Frame.holdsCancel])
  rw [(hi.cancel s u).mpr (by simp [hu, Frame.holdsCancel])] at hheld
  exact (Option.some.inj hheld).symm

/-- No callback is missed or repeated, before, during and after completion. -/
theorem Calls.callbackCount_le {σ : State} {tr : List Event} (hi : Calls σ tr)
    (s : SessionId) : callbackCount s tr ≤ 1 := by
  by_cases hc : .completed s ∈ tr
  · exact (hi.completed s hc).le
  · by_cases hcalled : ∃ t, (σ.threads t).called = some s
    · obtain ⟨t, ht⟩ := hcalled
      exact (hi.called t s ht).le
    · simp [hi.before s hc fun t ht => hcalled ⟨t, ht⟩]

/-- Every session that was not refused a socket waits for one operation, is carried by
one handler or completion, or is completed. Its callback is invoked once, inside its
completion, and the map is empty as soon as no session is unfinished. -/
theorem exactly_once {n : Nat} {labels : List Label} {σ : State} {tr : List Event}
    (h : Run n labels σ tr) :
    (∀ s < σ.count, .openFailed s ∉ tr →
      ExactlyOne (σ.Waiting s) (∃! t, (σ.threads t).runs = some s) (.completed s ∈ tr) ∧
      (σ.sessions s).pending.length ≤ 1 ∧
      (∀ t u, (σ.threads t).runs = some s → (σ.threads u).runs = some s → t = u) ∧
      (∀ t u, σ.threads t = .leave s → σ.threads u = .leave s → t = u) ∧
      callbackCount s tr ≤ 1 ∧
      (.completed s ∈ tr → callbackCount s tr = 1) ∧
      (.completed s ∉ tr → (∀ t, (σ.threads t).called ≠ some s) → callbackCount s tr = 0)) ∧
    ((∀ s < σ.count, Ended tr s) → ∀ id, σ.activeSessions id = none) := by
  obtain ⟨place, hp⟩ := h.holds
  have hcalls := h.calls
  refine ⟨fun s hs hopen => ⟨hp.exactlyOne hs hopen, hp.length_pending_le s, ?_, ?_,
    hcalls.callbackCount_le s, hcalls.completed s, hcalls.before s⟩, fun hall id => ?_⟩
  · exact fun t u ht hu =>
      hp.unique (Frame.carries_iff.mpr (Or.inr ht)) (Frame.carries_iff.mpr (Or.inr hu))
  · exact fun t u ht hu => h.locking.leave_unique ht hu
  · refine Option.eq_none_iff_forall_not_mem.mpr fun s hs => ?_
    exact h.registry.not_ended id s hs (hall s (h.scoped.active id s hs))

/-- One request on one pool thread, from its call to its completion. -/
def completeSchedule : List Label :=
  .emulate 1 10 1 :: List.replicate 5 (.run 1) ++
    .deliver 0 0 ⟨.connect, false⟩ .success [] :: List.replicate 5 (.run 0) ++
    .deliver 0 0 ⟨.write, false⟩ .success [] :: List.replicate 5 (.run 0) ++
    .deliver 0 0 ⟨.read, false⟩ .success (ascii "OK\n") :: List.replicate 9 (.run 0)

/-- The request of `completeSchedule` is completed with one callback and leaves no entry. -/
theorem completeSchedule_completes :
    ∃ σ tr, Run 1 completeSchedule σ tr ∧ .completed 0 ∈ tr ∧ callbackCount 0 tr = 1 ∧
      ∀ id, σ.activeSessions id = none := by
  obtain ⟨σ, tr, hrun, hcompleted, hcount, hopen⟩ : ∃ σ tr, Run 1 completeSchedule σ tr ∧
      .completed 0 ∈ tr ∧ σ.count = 1 ∧ .openFailed 0 ∉ tr :=
    ⟨_, _, rfl, by decide, rfl, by decide⟩
  obtain ⟨hsession, hempty⟩ := exactly_once hrun
  refine ⟨σ, tr, hrun, hcompleted, (hsession 0 (by omega) hopen).2.2.2.2.2.1 hcompleted, ?_⟩
  apply hempty
  intro s hs
  obtain rfl : s = 0 := by omega
  exact Or.inl hcompleted

/-- The connect handler has started the write and not yet returned when the handler of
the write runs on the other pool thread. -/
def overlapSchedule : List Label :=
  .emulate 2 10 1 :: List.replicate 5 (.run 2) ++
    .deliver 0 0 ⟨.connect, false⟩ .success [] :: List.replicate 4 (.run 0) ++
    [.deliver 1 0 ⟨.write, false⟩ .success []]

/-- Two handlers of one session run at the same time, and nothing of it is pending. -/
theorem overlapSchedule_overlaps :
    ∃ σ tr, Run 2 overlapSchedule σ tr ∧ .emulated 0 ∈ tr ∧
      ¬ExactlyOne (σ.Waiting 0) (∃! t, (σ.threads t).inHandler = some 0)
        (.completed 0 ∈ tr) := by
  obtain ⟨σ, tr, hrun, hemulated, h0, h1, hcompleted⟩ : ∃ σ tr, Run 2 overlapSchedule σ tr ∧
      .emulated 0 ∈ tr ∧ σ.threads 0 = .leave 0 ∧
      σ.threads 1 = .handler .write .success 0 ∧ .completed 0 ∉ tr :=
    ⟨_, _, rfl, by decide, by decide, by decide, by decide⟩
  obtain ⟨place, hp⟩ := hrun.holds
  have hwaiting : ¬σ.Waiting 0 := hp.not_waiting_of_runs (t := 1) (by simp [h1, Frame.runs])
  have hrunning : ¬∃! t, (σ.threads t).inHandler = some 0 := by
    rintro ⟨t, -, hunique⟩
    have ht0 := hunique 0 (by simp [h0, Frame.inHandler])
    have ht1 := hunique 1 (by simp [h1, Frame.inHandler, Frame.runs])
    exact absurd (ht0.trans ht1.symm) (by decide)
  refine ⟨σ, tr, hrun, hemulated, ?_⟩
  rintro (⟨hw, -⟩ | ⟨-, hr, -⟩ | ⟨-, -, hc⟩)
  · exact hwaiting hw
  · exact hrunning hr
  · exact hcompleted hc

end BoostAsio.AsyncTcpClient

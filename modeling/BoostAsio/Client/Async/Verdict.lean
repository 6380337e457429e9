import BoostAsio.Client.Async.Cancellation
import BoostAsio.Client.Async.Results

/-!
# The verdict passed to the callback

When `OnRequestComplete` reads the flag, its session has left the map, so no further
cancellation finds it and every earlier one has set the flag. The code is fixed from
there on: it is the stored failure, or an abort, or success of all operations.
-/

namespace BoostAsio.AsyncTcpClient

/-- What a callback's code says about the history of its session. -/
structure Verdict (tr : List Event) (s : SessionId) (ec : ErrorCode) : Prop where
  cancelled : .found s ∈ tr → ec.value ≠ 0
  succeeded : .found s ∉ tr → ec.value = 0 → ∀ op, Succeeded tr s op
  failed : ec.value ≠ 0 → (∃ op, .delivered s op ec ∈ tr) ∨
    .found s ∈ tr ∧ ec = .operationAborted ∧ ∀ op e, .delivered s op e ∈ tr → e.value = 0
  only : .found s ∉ tr → ∀ op e, .delivered s op e ∈ tr → e.value ≠ 0 → ec = e

/-- Nothing more can be found of a session, or delivered for it. -/
structure Settled (σ : State) (s : SessionId) : Prop where
  absent : ∀ id, σ.activeSessions id ≠ some s
  quiet : (σ.sessions s).pending = []

/-- The history that a verdict speaks of is complete for a settled session. -/
theorem Verdict.step {n : Nat} {σ σ' : State} {tr es : List Event} {l : Label} {s : SessionId}
    {ec : ErrorCode} (hv : Verdict tr s ec) (hq : Settled σ s) (h : Step n σ l σ' es) :
    Verdict (tr ++ es) s ec := by
  have hfound : .found s ∉ es := fun hm =>
    let ⟨id, hid⟩ := (h.mem_found hm).1
    hq.absent id hid
  have hdelivered : ∀ op e, .delivered s op e ∉ es := by
    intro op e hm
    obtain ⟨⟨p, hp, -⟩, -⟩ := h.mem_delivered hm
    simp [hq.quiet] at hp
  have hsame : .found s ∈ tr ++ es ↔ .found s ∈ tr := by simp [hfound]
  refine ⟨fun hf => hv.cancelled (hsame.mp hf), fun hf h0 op => ?_, fun hec => ?_,
    fun hf op e hm => ?_⟩
  · exact (hv.succeeded (fun hm => hf (hsame.mpr hm)) h0 op).append es
  · rcases hv.failed hec with ⟨op, hop⟩ | ⟨hf, haborted, hall⟩
    · exact Or.inl ⟨op, List.mem_append_left _ hop⟩
    · exact Or.inr ⟨hsame.mpr hf, haborted,
        fun op e hm => hall op e (by simpa [hdelivered] using hm)⟩
  · exact hv.only (fun hm => hf (hsame.mpr hm)) op e (by simpa [hdelivered] using hm)

/-- The code that a thread is about to pass, or has passed, to the callback. -/
structure Verdicts (σ : State) (tr : List Event) : Prop where
  ready : ∀ t s ec guarded, σ.threads t = .complete (.callback ec) s guarded → Verdict tr s ec
  called : ∀ s id response ec, .callback s id response ec ∈ tr → Verdict tr s ec

theorem Verdicts.init : Verdicts State.init [] where
  ready t s ec guarded h := by simp [State.init] at h
  called s id response ec h := by simp at h

/-- A completion past its erase is settled. -/
theorem settled_of_unregistered {σ : State} {tr : List Event} {place : SessionId → Custody}
    (hp : Holds σ tr place) (hr : Registry σ tr) {t : ThreadId} {s : SessionId}
    (ht : (σ.threads t).unregistered = some s) : Settled σ s :=
  ⟨fun id => hr.absent t s id ht, hp.pending_of_carried (Frame.carries_of_unregistered ht)⟩

/-- A session whose callback was invoked is settled. -/
theorem settled_of_callback {n : Nat} {labels : List Label} {σ : State} {tr : List Event}
    (h : Run n labels σ tr) {s : SessionId} {id : UInt32} {response : Bytes} {ec : ErrorCode}
    (hm : .callback s id response ec ∈ tr) : Settled σ s := by
  obtain ⟨place, hp⟩ := h.holds
  have hcount : callbackCount s tr ≠ 0 := by
    refine fun h0 => ?_
    exact absurd (List.countP_eq_zero.mp h0 _ hm) (by simp [Event.isCallback])
  by_cases hc : .completed s ∈ tr
  · have hplace := (hp.ended s).mpr (Or.inl hc)
    exact ⟨fun id hid => h.registry.not_ended id s hid (Or.inl hc),
      hp.quiet s (by simp [hplace])⟩
  · by_contra hnot
    refine hcount (h.calls.before s hc fun t ht => hnot ?_)
    refine settled_of_unregistered hp h.registry (t := t) ?_
    generalize σ.threads t = f at ht
    cases f with
    | complete point r guarded => cases point <;> simp_all [Frame.called, Frame.unregistered]
    | _ => simp [Frame.called] at ht

/-- The code is read off a settled session, so it agrees with the whole history. -/
theorem verdict_of_point {n : Nat} {labels : List Label} {σ : State} {tr : List Event}
    (h : Run n labels σ tr) {t : ThreadId} {s : SessionId} {guarded : Bool}
    (ht : σ.threads t = .complete .verdict s guarded) :
    Verdict tr s (σ.sessions s).verdict := by
  obtain ⟨place, hp⟩ := h.holds
  have hflagging := h.flagging
  have hresults := h.results
  have hcarried : (σ.threads t).carries = some s := by simp [ht, Frame.carries]
  have habsent := h.registry.absent t s (σ.sessions s).id (by simp [ht, Frame.unregistered])
  have hflag : .found s ∈ tr ↔ (σ.sessions s).wasCancelled = true := by
    refine ⟨fun hf => ?_, hflagging.flagged s⟩
    rcases hflagging.found s hf with hflag | ⟨u, hu⟩
    · exact hflag
    · exact absurd (hflagging.flagging u s hu).2 habsent
  have hverdict : .found s ∉ tr → (σ.sessions s).verdict = (σ.sessions s).ec := by
    intro hf
    rw [hflag] at hf
    simp [Session.verdict, hf]
  have hstored : ∀ op e, .delivered s op e ∈ tr → e.value ≠ 0 → (σ.sessions s).ec = e := by
    intro op e hm he
    rcases hresults.stored s op e hm with h0 | ⟨u, hu⟩ | hec
    · exact absurd h0 he
    · obtain rfl := hp.unique hcarried (Frame.carries_of_handler hu)
      simp [ht] at hu
    · exact hec
  refine ⟨fun hf => ?_, fun hf h0 op => ?_, fun hec => ?_, fun hf op e hm he => ?_⟩
  · by_cases hec : (σ.sessions s).ec.value = 0
    · simp [Session.verdict, hec, hflag.mp hf, ErrorCode.operationAborted]
    · simp [Session.verdict, hec]
  · rw [hverdict hf] at h0
    have hunguarded : guarded = false := by
      by_contra hg
      have := hflagging.aborting t s (by simp [ht, hg, Frame.aborting])
      exact hf (hflagging.flagged s this)
    exact hresults.succeeded t s (by simp [ht, hunguarded, Frame.completing]) h0 op
  · by_cases h0 : (σ.sessions s).ec.value = 0
    · have hset : (σ.sessions s).wasCancelled = true := by
        by_contra hset
        exact hec (by simp [Session.verdict, hset, h0])
      refine Or.inr ⟨hflag.mpr hset, by simp [Session.verdict, hset, h0], fun op e hm => ?_⟩
      by_contra he
      rw [hstored op e hm he] at h0
      exact he h0
    · have hsame : (σ.sessions s).verdict = (σ.sessions s).ec := by simp [Session.verdict, h0]
      rw [hsame]
      exact Or.inl (hresults.failed s h0).1
  · rw [hverdict hf]
    exact hstored op e hm he

/-- A thread comes to the callback line with the verdict it has just read. -/
theorem Step.new_verdict {n : Nat} {σ σ' : State} {es : List Event} {l : Label}
    (h : Step n σ l σ' es) {t : ThreadId} {s : SessionId} {ec : ErrorCode} {guarded : Bool}
    (ht : σ'.threads t = .complete (.callback ec) s guarded) :
    σ.threads t = .complete (.callback ec) s guarded ∨
      σ.threads t = .complete .verdict s guarded ∧ ec = (σ.sessions s).verdict := by
  by_cases htl : t = l.thread
  · subst htl
    cases h with
    | verdict hu =>
      simp only [Label.thread, State.threads_goto, ite_true, Frame.complete.injEq,
        CompletePoint.callback.injEq] at ht
      obtain ⟨rfl, rfl, rfl⟩ := ht
      exact Or.inr ⟨hu, rfl⟩
    | _ => simp_all [Label.thread]
  · exact Or.inl (h.threads_of_ne htl ▸ ht)

/-- The callback is invoked with the verdict of its thread. -/
theorem Step.mem_callback {n : Nat} {σ σ' : State} {es : List Event} {l : Label}
    (h : Step n σ l σ' es) {s : SessionId} {id : UInt32} {response : Bytes} {ec : ErrorCode}
    (hm : .callback s id response ec ∈ es) :
    ∃ t guarded, σ.threads t = .complete (.callback ec) s guarded := by
  cases h with
  | @callback t r guarded ec' ht =>
    simp only [List.mem_singleton, Event.callback.injEq] at hm
    obtain ⟨rfl, -, -, rfl⟩ := hm
    exact ⟨t, guarded, ht⟩
  | _ => simp at hm

/-- Every run keeps the verdicts in agreement with the whole history. -/
theorem Run.verdicts {n : Nat} {labels : List Label} {σ : State} {tr : List Event}
    (h : Run n labels σ tr) : Verdicts σ tr := by
  refine Run.induction .init (fun {as σ tr l σ' es} hrun hi hs => ?_) h
  obtain ⟨place, hp⟩ := hrun.holds
  have hsettled : ∀ {t s}, (σ.threads t).unregistered = some s → Settled σ s :=
    fun ht => settled_of_unregistered hp hrun.registry ht
  refine ⟨fun t s ec guarded ht => ?_, fun s id response ec hm => ?_⟩
  · rcases hs.new_verdict ht with hold | ⟨hpoint, rfl⟩
    · exact (hi.ready t s ec guarded hold).step (hsettled (by rw [hold]; rfl)) hs
    · exact (verdict_of_point hrun hpoint).step (hsettled (by rw [hpoint]; rfl)) hs
  · rcases List.mem_append.mp hm with hold | hnew
    · exact (hi.called s id response ec hold).step (settled_of_callback hrun hold) hs
    · obtain ⟨t, guarded, ht⟩ := hs.mem_callback hnew
      exact (hi.ready t s ec guarded ht).step (hsettled (by rw [ht]; rfl)) hs

/-- A session that a cancellation found is called back with a failure. One that was never
found is called back with success exactly when none of its operations failed, and all
three have then succeeded; otherwise with the failure of the one that did. -/
theorem cancellation_verdict {n : Nat} {labels : List Label} {σ : State} {tr : List Event}
    (h : Run n labels σ tr) {s : SessionId} {id : UInt32} {response : Bytes} {ec : ErrorCode}
    (hcall : .callback s id response ec ∈ tr) :
    (.found s ∈ tr → ec.value ≠ 0) ∧
    (.found s ∉ tr →
      (ec.value = 0 ↔ ∀ op e, .delivered s op e ∈ tr → e.value = 0) ∧
      (ec.value = 0 → ∀ op, ∃ e, .delivered s op e ∈ tr) ∧
      (∀ op e, .delivered s op e ∈ tr → e.value ≠ 0 → ec = e)) := by
  have hv := h.verdicts.called s id response ec hcall
  refine ⟨hv.cancelled, fun hf => ⟨⟨fun h0 op e hm => ?_, fun hall => ?_⟩, fun h0 op => ?_,
    hv.only hf⟩⟩
  · by_contra he
    exact he (hv.only hf op e hm he ▸ h0)
  · by_contra hec
    rcases hv.failed hec with ⟨op, hop⟩ | ⟨hfound, -⟩
    · exact hec (hall op ec hop)
    · exact hf hfound
  · obtain ⟨e, hm, -⟩ := hv.succeeded hf h0 op
    exact ⟨e, hm⟩

/-- A cancellation finds the request while its write is pending, and the read succeeds. -/
def lateCancelSchedule : List Label :=
  .emulate 1 10 1 :: List.replicate 5 (.run 1) ++
    .deliver 0 0 ⟨.connect, false⟩ .success [] :: List.replicate 5 (.run 0) ++
    .deliver 0 0 ⟨.write, false⟩ .success [] :: List.replicate 5 (.run 0) ++
    .cancelRequest 1 1 :: List.replicate 7 (.run 1) ++
    .deliver 0 0 ⟨.read, true⟩ .success (ascii "OK\n") :: List.replicate 9 (.run 0)

/-- The cancelled request is called back with a failure although its operations succeed. -/
theorem lateCancelSchedule_aborted :
    ∃ σ tr ec, Run 1 lateCancelSchedule σ tr ∧ .found 0 ∈ tr ∧
      .callback 0 1 (ascii "OK") ec ∈ tr ∧ ec.value ≠ 0 := by
  obtain ⟨σ, tr, hrun, hfound, hcall⟩ : ∃ σ tr, Run 1 lateCancelSchedule σ tr ∧
      .found 0 ∈ tr ∧ .callback 0 1 (ascii "OK") .operationAborted ∈ tr :=
    ⟨_, _, rfl, by decide, by decide⟩
  exact ⟨σ, tr, _, hrun, hfound, hcall, (cancellation_verdict hrun hcall).1 hfound⟩

end BoostAsio.AsyncTcpClient

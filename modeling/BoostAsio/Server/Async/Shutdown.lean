import BoostAsio.Server.Async.Acceptor

/-!
# What `Server::Stop` leaves behind

A stopped `io_service` runs no further completion, so a service is deleted only if its last
handler was already running. Whether anything is left when `Stop` returns is decided at the
moment of `m_ios.stop()`.
-/

namespace BoostAsio.AsyncTcpServer

open BoostAsio.System

/-- The service that a thread deletes without another completion. -/
def Frame.closing : Frame → Option ServiceId
  | .unborn | .idle | .exited | .testStopped | .initAccept | .closeAcceptor => none
  | .onRequestReceived ec s => if ec.value = 0 then none else some s
  | .onResponseSent _ s | .onFinish s => some s
  | .onAccept _ _ | .startWrite _ => none

/-- A thread that is in no handler. -/
def Frame.resting : Frame → Bool
  | .unborn | .idle | .exited => true
  | .testStopped | .initAccept | .closeAcceptor => false
  | .onAccept _ _ | .onRequestReceived _ _ | .startWrite _ | .onResponseSent _ _
  | .onFinish _ => false

/-- Every service was deleted or is in its last handler, and none is about to be created. -/
structure Drained (σ : State) : Prop where
  services : ∀ s < σ.count, (σ.services s).deletions = 1 ∨ ∃ t, (σ.threads t).closing = some s
  serving : ∀ sock, ¬Serving σ sock

theorem Frame.service_of_closing {f : Frame} {s : ServiceId} (h : f.closing = some s) :
    f.service = some s := by
  cases f with
  | onRequestReceived ec r =>
    simp only [Frame.closing, Option.ite_none_left_eq_some] at h
    exact h.2
  | onResponseSent ec r | onFinish r => exact h
  | _ => cases h

section

variable {size : Nat} {labels : List Label} {σ σ' : State} {l : Label} {tr es : List Event}

/-- What changes neither services, nor their last handlers, nor what is to be served. -/
theorem drained_congr (hcount : σ'.count = σ.count)
    (hdeletions : ∀ s, (σ'.services s).deletions = (σ.services s).deletions)
    (hclosing : ∀ t, (σ'.threads t).closing = (σ.threads t).closing)
    (hserving : ∀ sock, Serving σ' sock ↔ Serving σ sock) : Drained σ' ↔ Drained σ := by
  constructor
  · rintro ⟨hservices, hnone⟩
    exact ⟨by simpa only [hcount, hdeletions, hclosing] using hservices,
      by simpa only [hserving] using hnone⟩
  · rintro ⟨hservices, hnone⟩
    exact ⟨by simpa only [hcount, hdeletions, hclosing] using hservices,
      by simpa only [hserving] using hnone⟩

/-- A thread that moves between points of one kind changes nothing either. -/
theorem drained_goto {t : ThreadId} {f g : Frame} (hcount : σ'.count = σ.count)
    (hdeletions : ∀ s, (σ'.services s).deletions = (σ.services s).deletions)
    (hthreads : ∀ u, σ'.threads u = (σ.goto t f).threads u) (ht : σ.threads t = g)
    (hclosing : f.closing = g.closing) (hg : g.NotServing) (hf : f.NotServing) :
    Drained σ' ↔ Drained σ := by
  refine drained_congr hcount hdeletions (fun u => ?_) fun sock => ?_
  · rw [hthreads]
    by_cases hu : u = t
    · simp [hu, ht, hclosing]
    · simp [hu]
  · rw [← serving_goto ht hg hf]
    simp only [Serving, hthreads]

/-- The end of the last handler is the deletion. -/
theorem drained_finish (hi : Owned σ) {t : ThreadId} {s : ServiceId}
    (ht : σ.threads t = .onFinish s) :
    Drained ((σ.modify s (σ.services s).delete).goto t .idle) ↔ Drained σ := by
  have hdeletions := (hi.running ht rfl).2.2.1
  have hserving := serving_goto (σ := σ.modify s (σ.services s).delete) (f := .idle) ht nofun nofun
  have hclosing : ∀ r, r ≠ s → ((∃ u, (((σ.modify s (σ.services s).delete).goto t .idle).threads
      u).closing = some r) ↔ ∃ u, (σ.threads u).closing = some r) := by
    intro r hr
    apply exists_congr
    intro u
    by_cases hu : u = t
    · simp [hu, ht, Frame.closing, hr.symm]
    · simp [hu]
  constructor
  · rintro ⟨hservices, hnone⟩
    refine ⟨fun r hr => ?_, fun sock h => hnone sock ((hserving sock).mpr h)⟩
    by_cases hrs : r = s
    · exact Or.inr ⟨t, by rw [ht, hrs]; rfl⟩
    · exact (hservices r hr).imp (by simp [hrs]) (hclosing r hrs).mp
  · rintro ⟨hservices, hnone⟩
    refine ⟨fun r hr => ?_, fun sock h => hnone sock ((hserving sock).mp h)⟩
    by_cases hrs : r = s
    · exact Or.inl (by simp [hrs, hdeletions])
    · exact (hservices r hr).imp (by simp [hrs]) (hclosing r hrs).mpr

/-- A service that is created behind the stop is never deleted. -/
theorem not_drained_serve (hi : Owned σ) {t : ThreadId} {sock : SocketId} :
    ¬Drained ((σ.create sock).goto t .testStopped) := by
  rintro ⟨hservices, -⟩
  rcases hservices σ.count (Nat.lt_succ_self _) with hone | ⟨u, hu⟩
  · simp at hone
  · by_cases hut : u = t
    · simp [hut, Frame.closing] at hu
    · rw [State.goto_threads, if_neg hut] at hu
      exact absurd (hi.running rfl (Frame.service_of_closing hu)).1 (Nat.lt_irrefl _)

/-- Once the `io_service` was stopped, nothing decides about a service any more. -/
theorem Step.drained_iff (h : Step size σ l σ' es) (hi : Owned σ) (hios : σ.iosStopped = true) :
    Drained σ' ↔ Drained σ := by
  cases h with
  | accept ht hrunning | deliver ht hrunning =>
    rw [hios] at hrunning
    cases hrunning
  | @serve t ec sock ht hec =>
    exact iff_of_false (not_drained_serve hi) fun h => h.serving sock ⟨t, ec, ht, hec⟩
  | finish ht => exact drained_finish hi ht
  | listen | firstAccept | stopAcceptor | stopService | join =>
    exact drained_congr rfl (fun _ => rfl) (fun _ => rfl) fun _ => Iff.rfl
  | @transmit s =>
    refine drained_congr rfl (fun r => ?_) (fun _ => rfl) fun _ => Iff.rfl
    by_cases hr : r = s <;> simp [hr]
  | createThread =>
    exact drained_goto rfl (fun _ => rfl) (fun _ => rfl) (hi.unborn σ.pool le_rfl) rfl nofun nofun
  | acceptFailed ht hec =>
    refine drained_goto rfl (fun _ => rfl) (fun _ => rfl) ht rfl ?_ nofun
    rintro _ _ ⟨⟩
    exact hec
  | initAccept ht | close ht | exit ht | goOn ht | giveUp ht | responseSent ht =>
    exact drained_goto rfl (fun _ => rfl) (fun _ => rfl) ht rfl nofun nofun
  | readFailed ht hec =>
    exact drained_goto rfl (fun _ => rfl) (fun _ => rfl) ht (by simp [Frame.closing, hec])
      nofun nofun
  | @respond t ec s ht hec =>
    refine drained_goto rfl (fun r => ?_) (fun _ => rfl) ht (by simp [Frame.closing, hec])
      nofun nofun
    by_cases hr : r = s <;> simp [hr]
  | @startWrite t s ht =>
    refine drained_goto rfl (fun r => ?_) (fun _ => rfl) ht rfl nofun nofun
    by_cases hr : r = s <;> simp [hr]

/-- Only `m_ios.stop()` stops the `io_service`, and `Server::Stop` goes on behind it. -/
theorem Step.iosStopped (h : Step size σ l σ' es) :
    l = .stop ∧ σ.stopper = .stopService ∧ σ'.iosStopped = true ∧ σ'.stopper = .join ∧
        (Drained σ' ↔ Drained σ) ∨
      (l = .stop → σ.stopper ≠ .stopService) ∧ σ'.iosStopped = σ.iosStopped ∧
        ((σ'.stopper = .join ∨ σ'.stopper = .returned) ↔
          (σ.stopper = .join ∨ σ.stopper = .returned)) := by
  cases h with
  | stopService hs =>
    exact Or.inl ⟨rfl, hs, rfl, rfl, drained_congr rfl (fun _ => rfl) (fun _ => rfl)
      fun _ => Iff.rfl⟩
  | stopAcceptor hs | join hs => exact Or.inr ⟨fun _ => by simp [hs], rfl, by simp [hs]⟩
  | _ => exact Or.inr ⟨nofun, rfl, Iff.rfl⟩

/-- `m_ios.stop()` is executed in this state of the run. -/
def StoppedAt (size : Nat) (labels : List Label) (ρ : State) : Prop :=
  StepOnRun (step size) .new labels ρ .stop ∧ ρ.stopper = .stopService

/-- A further step is the stop itself, or adds no stop. -/
theorem stoppedAt_snoc (h : Run size labels σ tr) (l : Label) (ρ : State) :
    StoppedAt size (labels ++ [l]) ρ ↔
      StoppedAt size labels ρ ∨ l = .stop ∧ ρ = σ ∧ σ.stopper = .stopService := by
  unfold StoppedAt
  rw [stepOnRun_snoc, or_and_right]
  refine or_congr_right ⟨?_, ?_⟩
  · rintro ⟨⟨rfl, tr', htr'⟩, hρ⟩
    obtain ⟨rfl, -⟩ := Prod.mk.inj (Option.some.inj (h.symm.trans htr'))
    exact ⟨rfl, rfl, hρ⟩
  · rintro ⟨rfl, rfl, hρ⟩
    exact ⟨⟨rfl, tr, h⟩, hρ⟩

/-- What is left behind is decided at `m_ios.stop()`. -/
theorem Run.drained (h : Run size labels σ tr) :
    (σ.iosStopped = true ↔ σ.stopper = .join ∨ σ.stopper = .returned) ∧
      (σ.iosStopped = false → ∀ ρ, ¬StoppedAt size labels ρ) ∧
      (σ.iosStopped = true → (Drained σ ↔ ∀ ρ, StoppedAt size labels ρ → Drained ρ)) := by
  refine exec_induction (P := fun labels σ _ =>
    (σ.iosStopped = true ↔ σ.stopper = .join ∨ σ.stopper = .returned) ∧
      (σ.iosStopped = false → ∀ ρ, ¬StoppedAt size labels ρ) ∧
      (σ.iosStopped = true → (Drained σ ↔ ∀ ρ, StoppedAt size labels ρ → Drained ρ)))
    ⟨by simp, fun _ ρ hρ => ?_, by simp⟩ ?_ h
  · obtain ⟨⟨pre, hpre, -⟩, -⟩ := hρ
    simp at hpre
  · intro as m tr₀ l σ' es hexec ⟨hstopper, hbefore, hbehind⟩ hs
    have hsnoc := stoppedAt_snoc hexec l
    have hstep := step_cases hs
    rcases hstep.iosStopped with ⟨rfl, hstop, hios', hstop', hsame⟩ | ⟨hno, hios', hstop'⟩
    · have hios : m.iosStopped = false := by
        apply Bool.eq_false_iff.mpr
        intro hios
        rcases hstopper.mp hios with he | he <;> simp [hstop] at he
      refine ⟨by simp [hios', hstop'], by simp [hios'], fun _ => hsame.trans ⟨?_, ?_⟩⟩
      · intro hm ρ hρ
        rcases (hsnoc ρ).mp hρ with hearlier | ⟨-, rfl, -⟩
        · exact absurd hearlier (hbefore hios ρ)
        · exact hm
      · exact fun hall => hall m ((hsnoc m).mpr (Or.inr ⟨rfl, rfl, hstop⟩))
    · have hsnoc' : ∀ ρ, StoppedAt size (as ++ [l]) ρ ↔ StoppedAt size as ρ := fun ρ =>
        (hsnoc ρ).trans (or_iff_left fun ⟨hl, _, hstop⟩ => hno hl hstop)
      simp only [hsnoc', hios', hstop']
      exact ⟨hstopper, hbefore, fun hios =>
        (hstep.drained_iff (Run.owned hexec) hios).trans (hbehind hios)⟩

theorem resting_goto (hi : ∀ u, (σ.threads u).resting = true) (t : ThreadId) {f : Frame}
    (hf : f.resting = true) (u : ThreadId) : ((σ.goto t f).threads u).resting = true := by
  rw [State.goto_threads]
  split
  · exact hf
  · exact hi u

/-- Behind the joins no thread comes into a handler. -/
theorem Step.resting (h : Step size σ l σ' es) (hi : Owned σ)
    (hrest : σ.stopper = .returned → σ.iosStopped = true ∧ ∀ t, (σ.threads t).resting = true)
    (hs : σ'.stopper = .returned) : ∀ t, (σ'.threads t).resting = true := by
  cases h with
  | join hjoin hpool =>
    intro t
    by_cases ht : t < σ.pool
    · exact congrArg Frame.resting (hpool t ht)
    · exact congrArg Frame.resting (hi.unborn t (Nat.not_lt.mp ht))
  | stopAcceptor | stopService => cases hs
  | accept ht hios | deliver ht hios =>
    rw [(hrest hs).1] at hios
    cases hios
  | createThread => exact resting_goto (hrest hs).2 σ.pool rfl
  | @exit t => exact resting_goto (hrest hs).2 t rfl
  | listen | firstAccept | transmit => exact (hrest hs).2
  | @serve t _ _ ht | @acceptFailed t _ _ ht | @goOn t ht | @giveUp t ht | @initAccept t ht
  | @close t ht | @readFailed t _ _ ht | @respond t _ _ ht | @startWrite t _ ht
  | @responseSent t _ _ ht | @finish t _ ht =>
    have hr := (hrest hs).2 t
    rw [ht] at hr
    cases hr

/-- When `Server::Stop` has returned, no thread is in a handler. -/
theorem Run.resting (h : Run size labels σ tr) (hs : σ.stopper = .returned) :
    ∀ t, (σ.threads t).resting = true := by
  revert hs
  refine exec_induction (P := fun _ σ _ => σ.stopper = .returned →
    ∀ t, (σ.threads t).resting = true) nofun ?_ h
  intro as m tr₀ l σ' es hexec ih hs hreturned
  exact (step_cases hs).resting (Run.owned hexec)
    (fun hm => ⟨(Run.drained hexec).1.mpr (Or.inr hm), ih hm⟩) hreturned

theorem Frame.closing_of_resting {f : Frame} (h : f.resting = true) : f.closing = none := by
  cases f with
  | unborn | idle | exited => rfl
  | _ => cases h

/-- When no thread is in a handler, only deleted services are drained. -/
theorem drained_iff_of_resting (hrest : ∀ t, (σ.threads t).resting = true) :
    Drained σ ↔ ∀ s < σ.count, (σ.services s).deletions = 1 := by
  constructor
  · intro h s hs
    refine (h.services s hs).resolve_right fun ⟨t, ht⟩ => ?_
    rw [Frame.closing_of_resting (hrest t)] at ht
    cases ht
  · refine fun h => ⟨fun s hs => Or.inl (h s hs), ?_⟩
    rintro sock ⟨t, ec, ht, -⟩
    have hr := hrest t
    rw [ht] at hr
    cases hr

end

/-- When `Server::Stop` has returned, every service was deleted exactly if at the moment of
`m_ios.stop()` each was deleted or in its last handler. -/
theorem released_iff {size : Nat} {labels : List Label} {σ : State} {tr : List Event}
    (h : Run size labels σ tr) (hs : σ.stopper = .returned) :
    (∀ s < σ.count, (σ.services s).deletions = 1) ↔
      ∀ ρ, StoppedAt size labels ρ → Drained ρ := by
  obtain ⟨hios, -, hdrained⟩ := h.drained
  rw [← drained_iff_of_resting (h.resting hs)]
  exact hdrained (hios.mpr (Or.inr hs))

/-- A client is being answered when the server is stopped. -/
def servedSchedule : List Label :=
  [.start, .start, .start, .accept 0 0 .success, .run 0, .run 0, .run 0,
    .deliver 0 0 .read .success (ascii "Request\n"), .run 0, .run 0, .transmit 0 0 9,
    .deliver 0 0 (.write 9) .success [], .stop, .stop, .run 0, .run 0, .run 0, .stop]

/-- Its service is deleted. -/
theorem servedSchedule_released : ∃ σ tr, Run 1 servedSchedule σ tr ∧ σ.stopper = .returned ∧
    σ.count = 1 ∧ ∀ ρ, StoppedAt 1 servedSchedule ρ → Drained ρ :=
  ⟨_, _, rfl, rfl, rfl,
    (released_iff (show Run 1 servedSchedule _ _ from rfl) rfl).mp (by decide)⟩

/-- A client has sent nothing yet when the server is stopped. -/
def waitingSchedule : List Label :=
  [.start, .start, .start, .accept 0 0 .success, .run 0, .run 0, .run 0, .stop, .stop, .run 0,
    .stop]

/-- Its service is never deleted. -/
theorem waitingSchedule_leaks : ∃ σ tr, Run 1 waitingSchedule σ tr ∧ σ.stopper = .returned ∧
    ∃ s < σ.count, (σ.services s).deletions = 0 ∧ (σ.services s).pending = [.read] :=
  ⟨_, _, rfl, rfl, 0, by decide, rfl, rfl⟩

end BoostAsio.AsyncTcpServer

import BoostAsio.Core.System.History
import BoostAsio.Server.Async.Connection

/-!
# The life of a service

Each service waits for one completion, is in one handler, or has been deleted, whatever the
others do. Nothing of it happens behind its deletion, it writes once at most and behind its
own read, and every connection is sent the response of its own service only.
-/

namespace BoostAsio.AsyncTcpServer

open BoostAsio.System

/-- The service that an event is about. -/
def Event.service : Event → Option ServiceId
  | .closed | .stopSet => none
  | .created s _ | .readStarted s | .writeStarted s | .delivered s _ _ | .sent s _
  | .deleted s => some s
  | .acceptStarted _ | .accepted _ _ => none

section

variable {size : Nat} {labels : List Label} {σ σ' : State} {l : Label} {tr es : List Event}
  {s : ServiceId}

/-- A deleted service stays deleted and takes no part in a step. -/
theorem Step.of_deleted (h : Step size σ l σ' es) (hi : Owned σ)
    (hs : (σ.services s).deletions ≠ 0) :
    (σ'.services s).deletions ≠ 0 ∧ ∀ e ∈ es, e.service ≠ some s := by
  obtain ⟨hborn, hpending, hthreads⟩ := hi.deleted hs
  cases h with
  | @serve t ec sock ht =>
    refine ⟨by simpa [hborn.ne] using hs, fun e he => ?_⟩
    rcases List.mem_pair.mp he with rfl | rfl <;> simp [Event.service, hborn.ne']
  | @deliver t r op ec received ht hios hop | @transmit r sent n bytes hop hbytes =>
    have hne : s ≠ r := by
      rintro rfl
      simp [hpending] at hop
    refine ⟨by simpa [hne] using hs, fun e he => ?_⟩
    simp [List.mem_singleton.mp he, Event.service, hne.symm]
  | @respond t ec r ht hec =>
    have hne : s ≠ r := fun he => hthreads t (by rw [ht, he]; rfl)
    exact ⟨by simpa [hne] using hs, by simp⟩
  | @startWrite t r ht | @finish t r ht =>
    have hne : s ≠ r := fun he => hthreads t (by rw [ht, he]; rfl)
    refine ⟨by simpa [hne] using hs, fun e he => ?_⟩
    simp [List.mem_singleton.mp he, Event.service, hne.symm]
  | _ => exact ⟨hs, by simp [Event.service]⟩

/-- The deletion is the last that is visible of its step. -/
theorem Step.deleting (h : Step size σ l σ' es) {front after : List Event}
    (hes : es = front ++ .deleted s :: after) :
    (σ'.services s).deletions ≠ 0 ∧ after = [] := by
  have hmem : .deleted s ∈ es := hes ▸ List.mem_append_right _ List.mem_cons_self
  cases h with
  | @finish t r ht =>
    obtain ⟨he, -, rfl⟩ := singleton_cut hes
    cases he
    exact ⟨by simp, rfl⟩
  | _ => simp at hmem

/-- Nothing of a service happens behind its deletion. -/
theorem Run.deleted_last (h : Run size labels σ tr) {before after : List Event}
    (htr : tr = before ++ .deleted s :: after) : ∀ e ∈ after, e.service ≠ some s := by
  have hsince : (σ.services s).deletions ≠ 0 ∧ ∀ e ∈ after, e.service ≠ some s := by
    refine exec_since (P := fun _ σ after => (σ.services s).deletions ≠ 0 ∧
      ∀ e ∈ after, e.service ≠ some s) ?_ ?_ h htr
    · intro as m tr₀ l σ' es front after _ hs hes
      obtain ⟨hdeleted, rfl⟩ := (step_cases hs).deleting hes
      exact ⟨hdeleted, fun _ he => absurd he List.not_mem_nil⟩
    · intro as m tr₀ l σ' es _ after hexec ⟨hdeleted, hafter⟩ hs
      obtain ⟨hdeleted', hes⟩ := (step_cases hs).of_deleted (Run.owned hexec) hdeleted
      exact ⟨hdeleted', fun e he => (List.mem_append.mp he).elim (hafter e) (hes e)⟩
  exact hsince.2

/-- Every socket is silent or sends the response of the one service that owns it. -/
theorem Run.sent_own (h : Run size labels σ tr) (sock : SocketId) :
    σ.sent sock = [] ∨ ∃ s < σ.count, σ.sock s = sock ∧
      (∀ r < σ.count, σ.sock r = sock → r = s) ∧
        σ.sent sock <+: (σ.services s).response := by
  by_cases hsock : ∃ s < σ.count, σ.sock s = sock
  · obtain ⟨s, hs, rfl⟩ := hsock
    exact Or.inr ⟨s, hs, rfl, fun r hr he => h.wired.distinct r hr s hs he,
      (h.answering s hs).sent⟩
  · push Not at hsock
    exact Or.inl (h.wired.unsent sock hsock)

end

/-- What every service keeps. -/
structure ServicesSound (σ : State) (tr : List Event) : Prop where
  /-- A service waits for one operation, is in one handler, or was deleted once. -/
  inOnePlace : ∀ s < σ.count, (serviceReadings σ).InOnePlace s
  /-- No handler of it runs behind its deletion. -/
  deleted_last : ∀ s before after, tr = before ++ .deleted s :: after →
    ∀ e ∈ after, e.service ≠ some s
  one_write : ∀ s, tr.count (.writeStarted s) ≤ 1
  /-- The write is started behind a completion of the read without an error. -/
  write_after_read : ∀ s before after, tr = before ++ .writeStarted s :: after →
    ∃ ec, .delivered s .read ec ∈ before ∧ ec.value = 0
  /-- A connection is sent the response of its own service, from its beginning. -/
  sent_own : ∀ sock, σ.sent sock = [] ∨ ∃ s < σ.count, σ.sock s = sock ∧
    (∀ r < σ.count, σ.sock r = sock → r = s) ∧ σ.sent sock <+: (σ.services s).response

/-- The services keep it in every run. -/
theorem servicesSound_of_run {size : Nat} {labels : List Label} {σ : State} {tr : List Event}
    (h : Run size labels σ tr) : ServicesSound σ tr where
  inOnePlace _ hs := h.owned.services.elim fun _ hplace => hplace.inOnePlace hs
  deleted_last _ _ _ := h.deleted_last
  one_write s := (h.one_write s).1
  write_after_read _ _ _ := h.write_after_read
  sent_own := h.sent_own

/-- Two connections are served by two threads; one client sends nothing. -/
def twoClients : List Label :=
  [.start, .start, .start, .start, .accept 0 0 .success, .run 0, .run 0, .run 0,
    .accept 1 1 .success, .deliver 0 0 .read .success (ascii "Request\n"), .run 1, .run 0,
    .run 0, .run 1, .transmit 0 0 4, .run 1, .deliver 0 1 .read .eof [], .transmit 0 4 9,
    .run 0, .run 0, .deliver 1 0 (.write 9) .success [], .run 1, .run 1]

/-- Both services are deleted, and only the first one has answered. -/
theorem twoClients_sound : ∃ σ tr, Run 2 twoClients σ tr ∧ (σ.services 0).deletions = 1 ∧
    (σ.services 1).deletions = 1 ∧ σ.sent 0 = ascii "Response\n" ∧ σ.sent 1 = [] ∧
      ServicesSound σ tr :=
  ⟨_, _, rfl, rfl, rfl, rfl, rfl, servicesSound_of_run (show Run 2 twoClients _ _ from rfl)⟩

end BoostAsio.AsyncTcpServer

import BoostAsio.Core.System.History
import BoostAsio.Server.Async.Ownership

/-!
# The write of a service

A service is before its write as long as its read is to be completed or the handler of it
has not started the write. It never comes back there, so it writes once at most, and its
handler comes there with the completion of the read.
-/

namespace BoostAsio.AsyncTcpServer

open BoostAsio.System

/-- The service whose handler stands before its write. -/
def Frame.unanswered : Frame → Option ServiceId
  | .unborn | .idle | .exited | .testStopped | .initAccept | .closeAcceptor => none
  | .onRequestReceived _ s | .startWrite s => some s
  | .onAccept _ _ | .onResponseSent _ _ | .onFinish _ => none

/-- The read of a service is still to be completed, or its handler stands before the write. -/
def BeforeWrite (σ : State) (s : ServiceId) : Prop :=
  .read ∈ (σ.services s).pending ∨ ∃ t, (σ.threads t).unanswered = some s

theorem Frame.service_of_unanswered {f : Frame} {s : ServiceId} (h : f.unanswered = some s) :
    f.service = some s := by
  cases f <;> first | exact h | cases h

section

variable {size : Nat} {labels : List Label} {σ σ' : State} {l : Label} {tr es : List Event}
  {s : ServiceId}

/-- A thread that does not come before a write opens nothing. -/
theorem BeforeWrite.of_goto {t : ThreadId} {f g : Frame} (h : BeforeWrite (σ.goto t f) s)
    (ht : σ.threads t = g) (hf : f.unanswered = some s → g.unanswered = some s) :
    BeforeWrite σ s := by
  apply h.imp_right
  rintro ⟨u, hu⟩
  refine ⟨u, ?_⟩
  by_cases hut : u = t
  · subst hut
    rw [ht]
    exact hf (by simpa using hu)
  · simpa [hut] using hu

/-- Neither does a change of a service that adds no read. -/
theorem BeforeWrite.of_modify {r : ServiceId} {v : Service}
    (h : BeforeWrite (σ.modify r v) s)
    (hv : .read ∈ v.pending → .read ∈ (σ.services r).pending) : BeforeWrite σ s := by
  apply h.imp_left
  intro hread
  by_cases hs : s = r
  · subst hs
    exact hv (by simpa using hread)
  · simpa [hs] using hread

/-- Only its creation brings a service before its write. -/
theorem Step.before_write (h : Step size σ l σ' es) (hi : Owned σ) (hs : s < σ.count)
    (hbefore : BeforeWrite σ' s) : BeforeWrite σ s := by
  cases h with
  | @serve t ec sock ht =>
    rcases hbefore.of_goto (σ := σ.create sock) ht nofun with hread | hthread
    · exact Or.inl (by simpa [hs.ne] using hread)
    · exact Or.inr hthread
  | @deliver t r op ec received ht hios hop =>
    by_cases hopen : op = .read ∧ s = r
    · obtain ⟨rfl, rfl⟩ := hopen
      exact Or.inl hop
    · refine (hbefore.of_goto (σ := σ.modify r _) ht fun hf => ?_).of_modify
        List.mem_of_mem_erase
      cases op with
      | read => exact absurd ⟨rfl, (Option.some.inj hf).symm⟩ hopen
      | write => cases hf
  | @transmit r sent n bytes hop hbytes =>
    have hmodify : BeforeWrite (σ.modify r ((σ.services r).advance sent bytes.length)) s := hbefore
    refine hmodify.of_modify fun hread => ?_
    rcases List.mem_append.mp hread with hread | hread
    · exact List.mem_of_mem_erase hread
    · simp at hread
  | @respond t ec r ht hec => exact (hbefore.of_goto (σ := σ.modify r _) ht id).of_modify id
  | @startWrite t r ht =>
    refine (hbefore.of_goto (σ := σ.modify r _) ht nofun).of_modify fun hread => ?_
    simpa using hread
  | @finish t r ht => exact (hbefore.of_goto (σ := σ.modify r _) ht nofun).of_modify id
  | listen | firstAccept | stopAcceptor | stopService | join => exact hbefore
  | createThread => exact hbefore.of_goto (hi.unborn σ.pool le_rfl) nofun
  | @accept t sock ec ht => exact hbefore.of_goto (σ := σ.takeAccept sock) ht nofun
  | @initAccept t ht => exact hbefore.of_goto (σ := σ.initAccept) ht nofun
  | @close t ht => exact hbefore.of_goto (σ := σ.close) ht nofun
  | exit ht | acceptFailed ht | goOn ht | giveUp ht | readFailed ht | responseSent ht =>
    exact hbefore.of_goto ht nofun

/-- No write of the service has been started. -/
def Unwritten (σ : State) (s : ServiceId) : Prop := σ.count ≤ s ∨ BeforeWrite σ s

/-- Services are only added. -/
theorem Step.count_le (h : Step size σ l σ' es) : σ.count ≤ σ'.count := by
  cases h with
  | serve => exact Nat.le_succ _
  | _ => exact le_rfl

theorem Step.unwritten (h : Step size σ l σ' es) (hi : Owned σ) (hs : Unwritten σ' s) :
    Unwritten σ s := by
  by_cases hborn : s < σ.count
  · refine Or.inr (h.before_write hi hborn (hs.resolve_left fun hle => ?_))
    exact absurd (h.count_le.trans hle) (Nat.not_le.mpr hborn)
  · exact Or.inl (Nat.not_lt.mp hborn)

/-- The write is started behind `m_response = ProcessRequest(m_request)`, and only there. -/
theorem Step.writeStarted (h : Step size σ l σ' es) (hi : Owned σ)
    (hmem : .writeStarted s ∈ es) : es = [.writeStarted s] ∧
      (∃ t, σ.threads t = .startWrite s) ∧ Unwritten σ s ∧ ¬Unwritten σ' s := by
  cases h with
  | @startWrite t r ht =>
    obtain rfl : s = r := by simpa using hmem
    obtain ⟨hborn, hpending, -, hunique⟩ := hi.running ht rfl
    refine ⟨rfl, ⟨t, ht⟩, Or.inr (Or.inr ⟨t, by rw [ht]; rfl⟩), ?_⟩
    rintro (hle | hread | ⟨u, hu⟩)
    · exact absurd hle (Nat.not_le.mpr hborn)
    · simp [hpending] at hread
    · by_cases hut : u = t
      · simp [hut, Frame.unanswered] at hu
      · rw [State.goto_threads, if_neg hut] at hu
        exact hut (hunique u (Frame.service_of_unanswered hu))
  | _ => simp at hmem

/-- A write is started once at most. -/
theorem Run.one_write (h : Run size labels σ tr) (s : ServiceId) :
    tr.count (.writeStarted s) ≤ 1 ∧ (Unwritten σ s → .writeStarted s ∉ tr) := by
  refine exec_induction (P := fun _ σ tr => tr.count (.writeStarted s) ≤ 1 ∧
    (Unwritten σ s → .writeStarted s ∉ tr)) ⟨Nat.zero_le 1, fun _ => List.not_mem_nil⟩ ?_ h
  intro as m tr₀ l σ' es hexec ⟨hcount, hnone⟩ hs
  have hi := Run.owned hexec
  by_cases hmem : .writeStarted s ∈ es
  · obtain ⟨rfl, -, hbefore, hnot⟩ := (step_cases hs).writeStarted hi hmem
    refine ⟨?_, fun h => absurd h hnot⟩
    simp [List.count_append, List.count_eq_zero_of_not_mem (hnone hbefore)]
  · refine ⟨by simpa [List.count_append, List.count_eq_zero_of_not_mem hmem] using hcount,
      fun hunwritten => ?_⟩
    simp [hmem, hnone ((step_cases hs).unwritten hi hunwritten)]

/-- The read whose handler a thread runs has been completed, without an error once the
response is there. -/
def Frame.Received (tr : List Event) : Frame → Prop
  | .unborn | .idle | .exited | .testStopped | .initAccept | .closeAcceptor => True
  | .onRequestReceived ec s => .delivered s .read ec ∈ tr
  | .startWrite s => ∃ ec, .delivered s .read ec ∈ tr ∧ ec.value = 0
  | .onAccept _ _ | .onResponseSent _ _ | .onFinish _ => True

theorem Frame.Received.append {f : Frame} (h : f.Received tr) (es : List Event) :
    f.Received (tr ++ es) := by
  cases f with
  | onRequestReceived ec s => exact List.mem_append_left _ h
  | startWrite s => exact h.imp fun ec hec => ⟨List.mem_append_left _ hec.1, hec.2⟩
  | _ => trivial

theorem received_goto (hi : ∀ u, (σ.threads u).Received tr) (t : ThreadId) {f : Frame}
    (hf : f.Received (tr ++ es)) (u : ThreadId) :
    ((σ.goto t f).threads u).Received (tr ++ es) := by
  rw [State.goto_threads]
  split
  · exact hf
  · exact (hi u).append es

/-- Every step keeps it. -/
theorem Step.received (h : Step size σ l σ' es) (hi : ∀ u, (σ.threads u).Received tr) :
    ∀ u, (σ'.threads u).Received (tr ++ es) := by
  cases h with
  | @deliver t s op ec received ht =>
    refine received_goto (σ := σ.modify s _) hi t ?_
    cases op with
    | read => exact List.mem_append_right _ (List.mem_singleton.mpr rfl)
    | write => trivial
  | @respond t ec s ht hec =>
    have hread := hi t
    rw [ht] at hread
    exact received_goto (σ := σ.modify s _) hi t ⟨ec, List.mem_append_left _ hread, hec⟩
  | listen | firstAccept | stopAcceptor | stopService | join | transmit =>
    exact fun u => (hi u).append _
  | createThread => exact received_goto hi σ.pool trivial
  | @accept t sock => exact received_goto (σ := σ.takeAccept sock) hi t trivial
  | @serve t ec sock => exact received_goto (σ := σ.create sock) hi t trivial
  | @initAccept t => exact received_goto (σ := σ.initAccept) hi t trivial
  | @close t => exact received_goto (σ := σ.close) hi t trivial
  | @startWrite t s | @finish t s => exact received_goto (σ := σ.modify s _) hi t trivial
  | @exit t | @acceptFailed t | @goOn t | @giveUp t | @readFailed t | @responseSent t =>
    exact received_goto hi t trivial

theorem Run.received (h : Run size labels σ tr) : ∀ u, (σ.threads u).Received tr :=
  exec_induction (P := fun _ σ tr => ∀ u, (σ.threads u).Received tr) (fun _ => trivial)
    (fun _ hi hs => (step_cases hs).received hi) h

/-- A write is started only behind a completion of the read without an error. -/
theorem Run.write_after_read (h : Run size labels σ tr) {before after : List Event}
    (htr : tr = before ++ .writeStarted s :: after) :
    ∃ ec, .delivered s .read ec ∈ before ∧ ec.value = 0 := by
  obtain ⟨pre, l, m, tr₀, σ', es, es₁, es₂, -, hexec, hs, hes, rfl⟩ := exec_event h htr
  obtain ⟨rfl, ⟨t, ht⟩, -⟩ := (step_cases hs).writeStarted (Run.owned hexec)
    (hes ▸ List.mem_append_right _ List.mem_cons_self)
  have hread := Run.received hexec t
  rw [ht] at hread
  obtain ⟨ec, hmem, hec⟩ := hread
  exact ⟨ec, List.mem_append_left _ hmem, hec⟩

end

end BoostAsio.AsyncTcpServer

import BoostAsio.Core.System.Ownership
import BoostAsio.Server.Async.Step

/-!
# What the handlers own

The accept loop and every service own themselves: each is kept by the operation that it
waits for or by the pool thread that runs its handler. The accept loop ends when the
acceptor is closed, a service when it is deleted.
-/

namespace BoostAsio.AsyncTcpServer

open BoostAsio.System

/-- Points of the accept loop. -/
def Frame.accepting : Frame → Bool
  | .testStopped | .initAccept | .closeAcceptor => true
  | .onAccept _ _ => true
  | .unborn | .idle | .exited => false
  | .onRequestReceived _ _ | .startWrite _ | .onResponseSent _ _ | .onFinish _ => false

/-- The accept loop, for a thread that runs it. -/
def Frame.acceptLoop (f : Frame) : Option Unit := if f.accepting then some () else none

/-- The service whose handler a thread runs. -/
def Frame.service : Frame → Option ServiceId
  | .unborn | .idle | .exited | .testStopped | .initAccept | .closeAcceptor => none
  | .onAccept _ _ => none
  | .onRequestReceived _ s | .startWrite s | .onResponseSent _ s | .onFinish s => some s

@[simp] theorem acceptLoop_handler (op : Operation) (ec : ErrorCode) (s : ServiceId) :
    (op.handler ec s).acceptLoop = none := by
  cases op <;> rfl

@[simp] theorem service_handler (op : Operation) (ec : ErrorCode) (s : ServiceId) :
    (op.handler ec s).service = some s := by
  cases op <;> rfl

/-- The accept loop as an object that owns itself. -/
def acceptReadings (σ : State) : Readings Unit ThreadId where
  born _ := σ.starter = .createThreads
  pending _ := σ.accepts.length
  carries t := (σ.threads t).acceptLoop
  deletions _ := if σ.closed then 1 else 0

/-- The services as objects that own themselves. -/
def serviceReadings (σ : State) : Readings ServiceId ThreadId where
  born s := s < σ.count
  pending s := (σ.services s).pending.length
  carries t := (σ.threads t).service
  deletions s := (σ.services s).deletions

section

variable {α : Type*} (reading : Frame → α) (σ : State) (t : ThreadId) (f : Frame) (u : ThreadId)

/-- Only the thread that moves is read differently. -/
theorem reading_goto : reading ((σ.goto t f).threads u) =
    if u = t then reading f else reading (σ.threads u) := by
  rw [State.goto_threads]
  exact apply_ite reading ..

variable {σ t f} {g : Frame}

/-- A thread that moves between points of one reading changes nothing. -/
theorem reading_keep (ht : σ.threads t = g) (hf : reading f = reading g) :
    reading ((σ.goto t f).threads u) = reading (σ.threads u) := by
  rw [reading_goto reading]
  split
  · next hu => rw [hu, ht, hf]
  · rfl

end

/-- The accept loop and every service are in one place, and threads that were not created
are not in a handler. -/
structure Owned (σ : State) : Prop where
  acceptLoop : ∃ place, (acceptReadings σ).Placed place
  services : ∃ place, (serviceReadings σ).Placed place
  unborn : ∀ t, σ.pool ≤ t → σ.threads t = .unborn

section

variable {size : Nat} {σ σ' : State} {l : Label} {tr es : List Event} {t u : ThreadId}

theorem carries_of_accepting {f : Frame} (ht : σ.threads t = f) (hf : f.accepting = true) :
    (acceptReadings σ).carries t = some () := by
  simp [acceptReadings, Frame.acceptLoop, ht, hf]

theorem not_accepting_of_carries (ht : (acceptReadings σ).carries t ≠ some ()) :
    (σ.threads t).accepting = false :=
  Bool.eq_false_iff.mpr fun hf => ht (carries_of_accepting rfl hf)

/-- What is known while a thread is in the accept loop. -/
theorem Owned.accepting (h : Owned σ) {f : Frame} (ht : σ.threads t = f)
    (hf : f.accepting = true) : σ.starter = .createThreads ∧ σ.accepts = [] ∧ σ.closed = false ∧
      ∀ u, (σ.threads u).accepting = true → u = t := by
  obtain ⟨place, hplace⟩ := h.acceptLoop
  obtain ⟨hborn, hpending, hclosed, hunique⟩ := hplace.of_carries (carries_of_accepting ht hf)
  exact ⟨hborn, List.length_eq_zero_iff.mp hpending, by simpa [acceptReadings] using hclosed,
    fun u hu => hunique u (carries_of_accepting rfl hu)⟩

/-- What is known while an accept is outstanding. -/
theorem Owned.outstanding (h : Owned σ) (ha : σ.accepts ≠ []) :
    σ.starter = .createThreads ∧ σ.closed = false ∧
      ∀ t, (σ.threads t).accepting = false := by
  obtain ⟨place, hplace⟩ := h.acceptLoop
  obtain ⟨hborn, -, hclosed, hcarries⟩ := hplace.of_pending (i := ())
    (fun hnone => ha (List.length_eq_zero_iff.mp hnone))
  exact ⟨hborn, by simpa [acceptReadings] using hclosed,
    fun t => not_accepting_of_carries (hcarries t)⟩

/-- What is known before the first accept. -/
theorem Owned.not_started (h : Owned σ) (hs : σ.starter ≠ .createThreads) :
    σ.accepts = [] ∧ σ.closed = false ∧ ∀ t, (σ.threads t).accepting = false := by
  obtain ⟨place, hplace⟩ := h.acceptLoop
  obtain ⟨hpending, hclosed, hcarries⟩ := hplace.of_not_born (i := ()) hs
  exact ⟨List.length_eq_zero_iff.mp hpending, by simpa [acceptReadings] using hclosed,
    fun t => not_accepting_of_carries (hcarries t)⟩

/-- What is known of a closed acceptor. -/
theorem Owned.closed (h : Owned σ) (hc : σ.closed = true) :
    σ.starter = .createThreads ∧ σ.accepts = [] ∧ ∀ t, (σ.threads t).accepting = false := by
  obtain ⟨place, hplace⟩ := h.acceptLoop
  obtain ⟨hborn, hpending, -, hcarries⟩ := hplace.of_deletions (i := ())
    (by simp [acceptReadings, hc])
  exact ⟨hborn, List.length_eq_zero_iff.mp hpending,
    fun t => not_accepting_of_carries (hcarries t)⟩

/-- There is one `async_accept` at most. -/
theorem Owned.accepts_length_le (h : Owned σ) : σ.accepts.length ≤ 1 := by
  obtain ⟨place, hplace⟩ := h.acceptLoop
  by_cases ha : σ.accepts.length = 0
  · omega
  · exact (hplace.of_pending (i := ()) ha).2.1.le

/-- What is known while a thread runs a handler of a service. -/
theorem Owned.running (h : Owned σ) {f : Frame} {s : ServiceId} (ht : σ.threads t = f)
    (hf : f.service = some s) : s < σ.count ∧ (σ.services s).pending = [] ∧
      (σ.services s).deletions = 0 ∧ ∀ u, (σ.threads u).service = some s → u = t := by
  subst ht
  obtain ⟨place, hplace⟩ := h.services
  obtain ⟨hborn, hpending, hdeletions, hunique⟩ := hplace.of_carries (i := s) hf
  exact ⟨hborn, List.length_eq_zero_iff.mp hpending, hdeletions, hunique⟩

/-- What is known while an operation of a service is pending. -/
theorem Owned.waiting (h : Owned σ) {op : Operation} {s : ServiceId}
    (hop : op ∈ (σ.services s).pending) :
    s < σ.count ∧ (σ.services s).pending = [op] ∧ ∀ t, (σ.threads t).service ≠ some s := by
  obtain ⟨place, hplace⟩ := h.services
  obtain ⟨hborn, hone, -, hcarries⟩ := hplace.of_pending (i := s) (List.length_pos_of_mem hop).ne'
  obtain ⟨op', hpending⟩ := List.length_eq_one_iff.mp hone
  obtain rfl : op = op' := by simpa [hpending] using hop
  exact ⟨hborn, hpending, hcarries⟩

/-- What is known of a deleted service. -/
theorem Owned.deleted (h : Owned σ) {s : ServiceId} (hs : (σ.services s).deletions ≠ 0) :
    s < σ.count ∧ (σ.services s).pending = [] ∧ ∀ t, (σ.threads t).service ≠ some s := by
  obtain ⟨place, hplace⟩ := h.services
  obtain ⟨hborn, hpending, -, hcarries⟩ := hplace.of_deletions (i := s) hs
  exact ⟨hborn, List.length_eq_zero_iff.mp hpending, hcarries⟩

/-- Every step hands the accept loop over. -/
theorem Step.acceptHandover (h : Step size σ l σ' es) (hi : Owned σ) :
    Handover (acceptReadings σ) (acceptReadings σ') := by
  cases h with
  | firstAccept hs =>
    obtain ⟨haccepts, hclosed, -⟩ := hi.not_started (by rw [hs]; nofun)
    refine .create () (by simp [acceptReadings, hs]) (fun _ => ?_) (fun _ => ?_) (fun _ => rfl)
      fun _ => ?_
    · simp [acceptReadings]
    · simp [acceptReadings, haccepts]
    · simp [acceptReadings, hclosed]
  | @accept t sock ec ht hios hsock =>
    refine .deliver t () (by simp [acceptReadings, ht, Frame.acceptLoop, Frame.accepting]) ?_
      (fun _ => Iff.rfl) (fun _ => ?_)
      (fun u => reading_goto Frame.acceptLoop (σ.takeAccept sock) t _ u) fun _ => rfl
    · exact (List.length_pos_of_mem hsock).ne'
    · simp [acceptReadings, List.length_erase_of_mem hsock]
  | @initAccept t ht =>
    exact .start t () (by simp [acceptReadings, ht, Frame.acceptLoop, Frame.accepting])
      (fun _ => Iff.rfl) (fun _ => by simp [acceptReadings])
      (fun u => reading_goto Frame.acceptLoop σ.initAccept t _ u) fun _ => rfl
  | @close t ht =>
    obtain ⟨-, -, hclosed, -⟩ := hi.accepting ht rfl
    exact .delete t () (by simp [acceptReadings, ht, Frame.acceptLoop, Frame.accepting])
      (fun _ => Iff.rfl) (fun _ => rfl) (fun u => reading_goto Frame.acceptLoop σ.close t _ u)
      fun _ => by simp [acceptReadings, hclosed]
  | listen hs =>
    exact .keep (fun _ => by simp [acceptReadings, hs]) (fun _ => rfl) (fun _ => rfl) fun _ => rfl
  | stopAcceptor | stopService | join | transmit =>
    exact .keep (fun _ => Iff.rfl) (fun _ => rfl) (fun _ => rfl) fun _ => rfl
  | createThread hs hpool =>
    have ht := hi.unborn σ.pool le_rfl
    exact .keep (fun _ => Iff.rfl) (fun _ => rfl)
      (fun u => reading_keep Frame.acceptLoop u ht rfl) fun _ => rfl
  | @deliver t s op ec received ht =>
    exact .keep (fun _ => Iff.rfl) (fun _ => rfl)
      (fun u => reading_keep Frame.acceptLoop (σ := σ.modify s _) u ht (acceptLoop_handler ..))
      fun _ => rfl
  | @serve t ec sock ht =>
    exact .keep (fun _ => Iff.rfl) (fun _ => rfl)
      (fun u => reading_keep Frame.acceptLoop (σ := σ.create sock) u ht rfl)
      fun _ => rfl
  | @respond t ec s ht | @startWrite t s ht | @finish t s ht =>
    exact .keep (fun _ => Iff.rfl) (fun _ => rfl)
      (fun u => reading_keep Frame.acceptLoop (σ := σ.modify s _) u ht rfl)
      fun _ => rfl
  | exit ht | acceptFailed ht | goOn ht | giveUp ht | readFailed ht | responseSent ht =>
    exact .keep (fun _ => Iff.rfl) (fun _ => rfl)
      (fun u => reading_keep Frame.acceptLoop u ht rfl) fun _ => rfl

/-- What a change of one service shows of all of them. -/
theorem modify_reading {α : Type*} (g : Service → α) (s : ServiceId) (v : Service)
    (r : ServiceId) : g ((σ.modify s v).services r) =
      if r = s then g v else g (σ.services r) := by
  rw [State.modify_services]
  exact apply_ite g ..

/-- Every step hands the services over. -/
theorem Step.serviceHandover (h : Step size σ l σ' es) (hi : Owned σ) :
    Handover (serviceReadings σ) (serviceReadings σ') := by
  cases h with
  | @serve t ec sock ht hec =>
    exact .create σ.count (by simp [serviceReadings])
      (fun _ => Nat.lt_succ_iff_lt_or_eq)
      (fun r => modify_reading (List.length ∘ Service.pending) σ.count _ r)
      (fun u => reading_keep Frame.service (σ := σ.create sock) u ht rfl)
      fun r => modify_reading Service.deletions σ.count _ r
  | @deliver t s op ec received ht hios hop =>
    refine .deliver t s (by simp [serviceReadings, ht, Frame.service]) ?_ (fun _ => Iff.rfl)
      (fun r => ?_) (fun u => ?_) fun r => ?_
    · exact (List.length_pos_of_mem hop).ne'
    · by_cases hr : r = s <;> simp [serviceReadings, hr, List.length_erase_of_mem hop]
    · rw [← service_handler op ec s]
      exact reading_goto Frame.service _ t _ u
    · by_cases hr : r = s <;> simp [serviceReadings, hr]
  | @startWrite t s ht =>
    refine .start t s (by simp [serviceReadings, ht, Frame.service]) (fun _ => Iff.rfl)
      (fun r => ?_) (fun u => reading_goto Frame.service (σ.modify s _) t _ u) fun r => ?_
    · by_cases hr : r = s <;> simp [serviceReadings, hr]
    · by_cases hr : r = s <;> simp [serviceReadings, hr]
  | @finish t s ht =>
    refine .delete t s (by simp [serviceReadings, ht, Frame.service]) (fun _ => Iff.rfl)
      (fun r => ?_) (fun u => reading_goto Frame.service (σ.modify s _) t _ u) fun r => ?_
    · by_cases hr : r = s <;> simp [serviceReadings, hr]
    · by_cases hr : r = s <;> simp [serviceReadings, hr]
  | @transmit s sent n bytes hop hbytes =>
    refine .keep (fun _ => Iff.rfl) (fun r => ?_) (fun _ => rfl) fun r => ?_
    · have hpos := List.length_pos_of_mem hop
      by_cases hr : r = s
      · simp [serviceReadings, hr, List.length_erase_of_mem hop]
        omega
      · simp [serviceReadings, hr]
    · by_cases hr : r = s <;> simp [serviceReadings, hr]
  | @respond t ec s ht hec =>
    refine .keep (fun _ => Iff.rfl) (fun r => ?_)
      (fun u => reading_keep Frame.service (σ := σ.modify s _) u ht rfl)
      fun r => ?_
    · by_cases hr : r = s <;> simp [serviceReadings, hr]
    · by_cases hr : r = s <;> simp [serviceReadings, hr]
  | listen | firstAccept | stopAcceptor | stopService | join =>
    exact .keep (fun _ => Iff.rfl) (fun _ => rfl) (fun _ => rfl) fun _ => rfl
  | createThread hs hpool =>
    have ht := hi.unborn σ.pool le_rfl
    exact .keep (fun _ => Iff.rfl) (fun _ => rfl)
      (fun u => reading_keep Frame.service u ht rfl) fun _ => rfl
  | @accept t sock ec ht =>
    exact .keep (fun _ => Iff.rfl) (fun _ => rfl)
      (fun u => reading_keep Frame.service (σ := σ.takeAccept sock) u ht rfl)
      fun _ => rfl
  | @initAccept t ht =>
    exact .keep (fun _ => Iff.rfl) (fun _ => rfl)
      (fun u => reading_keep Frame.service (σ := σ.initAccept) u ht rfl)
      fun _ => rfl
  | @close t ht =>
    exact .keep (fun _ => Iff.rfl) (fun _ => rfl)
      (fun u => reading_keep Frame.service (σ := σ.close) u ht rfl)
      fun _ => rfl
  | exit ht | acceptFailed ht | goOn ht | giveUp ht | readFailed ht | responseSent ht =>
    exact .keep (fun _ => Iff.rfl) (fun _ => rfl)
      (fun u => reading_keep Frame.service u ht rfl) fun _ => rfl

/-- A thread that was not created does not move. -/
theorem Step.unborn (h : Step size σ l σ' es) (hi : ∀ t, σ.pool ≤ t → σ.threads t = .unborn) :
    ∀ t, σ'.pool ≤ t → σ'.threads t = .unborn := by
  intro u hu
  cases h with
  | createThread hs hpool =>
    have hlt : σ.pool < u := hu
    simp [hlt.ne', hi u hlt.le]
  | listen | firstAccept | stopAcceptor | stopService | join | transmit => exact hi u hu
  | @accept t _ _ ht | @deliver t _ _ _ _ ht | @exit t ht | @serve t _ _ ht
  | @acceptFailed t _ _ ht | @goOn t ht | @giveUp t ht | @initAccept t ht | @close t ht
  | @readFailed t _ _ ht | @respond t _ _ ht | @startWrite t _ ht | @responseSent t _ _ ht
  | @finish t _ ht =>
    have hborn := hi u hu
    have hne : u ≠ t := by
      rintro rfl
      rw [ht] at hborn
      cases hborn
    simpa [hne] using hborn

theorem owned_new : Owned .new where
  acceptLoop := ⟨fun _ => .unborn, by simp [acceptReadings, Place.born], fun _ => rfl,
    by simp [Matches, acceptReadings, Place.holder, Frame.acceptLoop, Frame.accepting],
    fun _ => rfl⟩
  services := ⟨fun _ => .unborn, by simp [serviceReadings, Place.born], fun _ => rfl,
    by simp [Matches, serviceReadings, Place.holder, Frame.service], fun _ => rfl⟩
  unborn _ _ := rfl

theorem Step.owned (h : Step size σ l σ' es) (hi : Owned σ) : Owned σ' where
  acceptLoop := hi.acceptLoop.elim fun _ hplace => hplace.handover (h.acceptHandover hi)
  services := hi.services.elim fun _ hplace => hplace.handover (h.serviceHandover hi)
  unborn := h.unborn hi.unborn

/-- In every run the accept loop and the services are in one place. -/
theorem Run.owned {labels : List Label} (h : Run size labels σ tr) : Owned σ :=
  exec_induction (P := fun _ σ _ => Owned σ) owned_new
    (fun _ hi hs => (step_cases hs).owned hi) h

end

end BoostAsio.AsyncTcpServer

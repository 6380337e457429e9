import BoostAsio.Core.System.History
import BoostAsio.Core.System.Ownership
import BoostAsio.Http.Service.HeaderLoop
import BoostAsio.Http.Service.State

/-!
# The life of a service

The service waits for one completion, is in one handler, or has been deleted. Every exit of
every handler keeps it so, with one response at most, unless it is an exception: then nothing
is pending and nobody deletes the object any more.
-/

namespace BoostAsio.HttpService

open BoostAsio.System

/-- The service as an object that owns itself. -/
def readings (σ : State) : Readings Unit ThreadId where
  born _ := True
  pending _ := σ.pending.length
  carries t := if σ.threads t = .idle then none else some ()
  deletions _ := σ.deletions

/-- Points from which no response is sent any more. -/
def Frame.answered : Frame → Bool
  | .idle | .handler .writeResponse _ | .sentShutdown | .onFinish => true
  | .handler .readRequestLine _ | .handler .readHeaders _ | .sendShutdown | .sendResponse => false

/-- Whether an event is the write of a response. -/
def Event.isResponse : Event → Bool
  | .responded _ => true
  | .started _ | .delivered _ _ | .lookupFailed | .thrown | .deleted => false

/-- The number of responses that were written. -/
def responses (tr : List Event) : Nat := tr.countP Event.isResponse

theorem responses_append (tr es : List Event) :
    responses (tr ++ es) = responses tr + responses es := List.countP_append

/-- The status code is one for which the table has a line. -/
def Answerable (s : HttpService) : Prop :=
  (httpStatusTable.lookup s.responseStatusCode).isSome = true

theorem answerable_new : Answerable .new := rfl

/-- The status codes that are set are in the table. -/
theorem onErrorWithRes_answerable {s : HttpService} (hs : Answerable s) {ec : ErrorCode}
    {next : HttpService × Next} (h : onErrorWithRes s ec .notFound 413 = some next) :
    Answerable next.1 := by
  unfold onErrorWithRes at h
  split_ifs at h <;> cases h
  · rfl
  · exact hs

theorem readRequestLine_answerable (s : HttpService) : Answerable s.readRequestLine.1 := by
  simp only [readRequestLine]
  split <;> rfl

theorem onRequestLineReceived_answerable {s : HttpService} (hs : Answerable s) (ec : ErrorCode) :
    Answerable (onRequestLineReceived ec s).1 := by
  unfold onRequestLineReceived
  split
  · next next h => exact onErrorWithRes_answerable hs h
  · exact readRequestLine_answerable s

theorem processRequest_answerable {s : HttpService} (hs : Answerable s) (files : Files) :
    Answerable (s.processRequest files) := by
  unfold processRequest
  simp only
  split
  · rfl
  · split
    · rfl
    · exact hs

theorem readHeaders_answerable {fuel : Nat} {s s' : HttpService} (hs : Answerable s)
    (h : readHeaders fuel s = some s') : Answerable s' := by
  obtain ⟨x, -, rfl⟩ := Option.map_eq_some_iff.mp h
  exact hs

theorem onHeadersReceived_answerable {fuel : Nat} {ec : ErrorCode} {files : Files}
    {s : HttpService} {next : HttpService × Next} (hs : Answerable s)
    (h : onHeadersReceived fuel ec files s = some next) : Answerable next.1 := by
  unfold onHeadersReceived at h
  split at h
  · next next' hres =>
    cases h
    exact onErrorWithRes_answerable hs hres
  · obtain ⟨s', hs', rfl⟩ := Option.map_eq_some_iff.mp h
    exact processRequest_answerable (readHeaders_answerable hs hs') files

theorem handle_answerable {fuel : Nat} {files : Files} {op : Operation} {ec : ErrorCode}
    {s : HttpService} {next : HttpService × Next} (hs : Answerable s)
    (h : handle fuel files op ec s = some next) : Answerable next.1 := by
  cases op with
  | readRequestLine =>
    obtain rfl := Option.some.inj h
    exact onRequestLineReceived_answerable hs ec
  | readHeaders => exact onHeadersReceived_answerable hs h
  | writeResponse => cases h

/-- The lookup succeeds, and the status code stays. -/
theorem sendResponse_answerable {s : HttpService} (hs : Answerable s) :
    ∃ s' buffers, s.sendResponse = some (s', buffers) := by
  obtain ⟨line, hline⟩ := Option.isSome_iff_exists.mp hs
  exact ⟨_, _, by rw [sendResponse, hline]; rfl⟩

theorem answerable_of_sendResponse {s s' : HttpService} {buffers : List Bytes}
    (hs : Answerable s) (h : s.sendResponse = some (s', buffers)) : Answerable s' := by
  obtain ⟨line, -, he⟩ := Option.map_eq_some_iff.mp h
  cases he
  exact hs

section

variable {σ σ' : State} {l : Label} {tr es : List Event}

/-- Every step keeps a code from the table. -/
theorem Step.answerable (h : Step σ l σ' es) (hi : Answerable σ.service) :
    Answerable σ'.service := by
  cases h with
  | @deliver t op ec received ht hop =>
    cases op <;> exact hi
  | readHeaders ht hop hs | respond ht hop hs | close ht hop hs => exact handle_answerable hi hs
  | sendResponse ht hs => exact answerable_of_sendResponse hi hs
  | processThrows ht hec hs => exact readHeaders_answerable hi hs
  | responseSent | sendShutdown | lookupFails | sentShutdown | onFinish | shutdownThrows =>
    exact hi

/-- A step without an exception hands the object over. -/
theorem Step.handover (h : Step σ l σ' es) (hl : l.throws = false)
    (hlookup : .lookupFailed ∉ es) : Handover (readings σ) (readings σ') := by
  cases h with
  | @deliver t op ec received ht hop =>
    refine .deliver t () (by simp [readings, ht]) ?_ (fun _ => Iff.rfl) (fun _ => ?_)
      (fun u => ?_) fun _ => rfl
    · exact List.length_pos_iff.mpr (List.ne_nil_of_mem hop) |>.ne'
    · simp [readings, List.length_erase_of_mem hop]
    · by_cases hu : u = t <;> simp [readings, hu]
  | @readHeaders t fuel files op ec s ht | @sendResponse t fuel files s buffers ht =>
    refine .start t () (by simp [readings, ht]) (fun _ => Iff.rfl) (fun _ => ?_)
      (fun u => ?_) fun _ => rfl
    · simp [readings]
    · by_cases hu : u = t <;> simp [readings, hu]
  | @onFinish t fuel files ht =>
    refine .delete t () (by simp [readings, ht]) (fun _ => Iff.rfl) (fun _ => rfl)
      (fun u => ?_) fun _ => ?_
    · by_cases hu : u = t <;> simp [readings, hu]
    · simp [readings]
  | @respond t fuel files op ec s ht | @close t fuel files op ec s ht
  | @responseSent t fuel files ec ht | @sendShutdown t fuel files ht
  | @sentShutdown t fuel files ht =>
    refine .keep (fun _ => Iff.rfl) (fun _ => rfl) (fun u => ?_) fun _ => rfl
    by_cases hu : u = t <;> simp [readings, hu, ht]
  | lookupFails => simp at hlookup
  | shutdownThrows => cases hl
  | processThrows => cases hl

end

section

variable {fuel : Nat} {files : Files} {t : ThreadId} {σ σ' : State} {es : List Event}

/-- Left alone, the thread comes to the end of its handler. -/
def Finishes (fuel : Nat) (files : Files) (t : ThreadId) (σ : State) : Prop :=
  ∃ n ρ es, exec step σ (List.replicate n (.run t fuel files)) = some (ρ, es) ∧
    ρ.threads t = .idle

theorem Finishes.of_idle (ht : σ.threads t = .idle) : Finishes fuel files t σ :=
  ⟨0, σ, [], rfl, ht⟩

theorem Finishes.head (hs : step σ (.run t fuel files) = some (σ', es))
    (h : Finishes fuel files t σ') : Finishes fuel files t σ := by
  obtain ⟨n, ρ, fs, hexec, ht⟩ := h
  exact ⟨n + 1, ρ, es ++ fs, exec_cons.mpr ⟨σ', es, fs, hs, hexec, rfl⟩, ht⟩

theorem finishes_onFinish (ht : σ.threads t = .onFinish) : Finishes fuel files t σ :=
  .head (by rw [step, ht]; rfl) (.of_idle (by simp))

theorem finishes_sentShutdown (ht : σ.threads t = .sentShutdown) : Finishes fuel files t σ :=
  .head (by rw [step, ht]; rfl) (finishes_onFinish (by simp))

theorem finishes_sendResponse (hs : Answerable σ.service) (ht : σ.threads t = .sendResponse) :
    Finishes fuel files t σ := by
  obtain ⟨s, buffers, hsend⟩ := sendResponse_answerable hs
  exact .head (by rw [step, ht, advance, hsend]) (.of_idle (by simp))

theorem finishes_sendShutdown (hs : Answerable σ.service) (ht : σ.threads t = .sendShutdown) :
    Finishes fuel files t σ :=
  .head (by rw [step, ht]; rfl) (finishes_sendResponse (by exact hs) (by simp))

/-- Enough iterations complete the handler of a read. -/
theorem exists_handle {op : Operation} (hop : op ≠ .writeResponse) (files : Files)
    (ec : ErrorCode) (s : HttpService) : ∃ fuel next, handle fuel files op ec s = some next := by
  cases op with
  | readRequestLine => exact ⟨0, _, rfl⟩
  | readHeaders =>
    obtain ⟨n, x, -, hiterations⟩ :=
      HeaderLoop.exists_iterations (x := .start s) (IStream.reads_ofBuf s.request)
    refine ⟨n + 1, ?_⟩
    rw [handle, onHeadersReceived, HttpService.readHeaders, hiterations.run]
    cases s.onErrorWithRes ec .notFound 413 with
    | some next => exact ⟨next, rfl⟩
    | none => exact ⟨_, rfl⟩
  | writeResponse => exact absurd rfl hop

/-- With enough iterations every handler comes to its end. -/
theorem exists_finishes (hs : Answerable σ.service) (files : Files) (t : ThreadId) :
    ∃ fuel, Finishes fuel files t σ := by
  cases ht : σ.threads t with
  | idle => exact ⟨0, .of_idle ht⟩
  | sendShutdown => exact ⟨0, finishes_sendShutdown hs ht⟩
  | sendResponse => exact ⟨0, finishes_sendResponse hs ht⟩
  | sentShutdown => exact ⟨0, finishes_sentShutdown ht⟩
  | onFinish => exact ⟨0, finishes_onFinish ht⟩
  | handler op ec =>
    by_cases hop : op = .writeResponse
    · subst hop
      exact ⟨0, .head (by rw [step, ht]; rfl) (finishes_sentShutdown (by simp))⟩
    · obtain ⟨fuel, ⟨s, next⟩, hnext⟩ := exists_handle hop files ec σ.service
      have hs' : Answerable s := handle_answerable hs hnext
      refine ⟨fuel, .head (by rw [step, ht, advance, if_neg hop, hnext]; rfl) ?_⟩
      cases next with
      | readHeaders => exact .of_idle (by simp)
      | sendResponse => exact finishes_sendShutdown hs' (by simp)
      | finish => exact finishes_onFinish (by simp)

end

/-- One operation is pending, one thread is in a handler, or the object was deleted. -/
theorem place_cases {σ : State} (h : (readings σ).InOnePlace ()) :
    (σ.pending.length = 1 ∧ (∀ t, σ.threads t = .idle) ∧ σ.deletions = 0) ∨
      (σ.pending = [] ∧ (∃ t, σ.threads t ≠ .idle ∧ ∀ u, σ.threads u ≠ .idle → u = t) ∧
        σ.deletions = 0) ∨
      σ.pending = [] ∧ (∀ t, σ.threads t = .idle) ∧ σ.deletions = 1 := by
  simpa [Readings.InOnePlace, readings] using h

/-- A read is still to be completed, or a thread still stands before the response. -/
def BeforeResponse (σ : State) : Prop :=
  (∃ op ∈ σ.pending, op ≠ .writeResponse) ∨ ∃ t, (σ.threads t).answered = false

/-- What holds along the runs without exceptions. -/
structure Intact (σ : State) (tr : List Event) : Prop where
  placed : ∃ place, (readings σ).Placed place
  answerable : Answerable σ.service
  found : .lookupFailed ∉ tr
  deleted : .deleted ∈ tr → σ.deletions ≠ 0
  last : ∀ before after, tr = before ++ .deleted :: after → after = []
  one_response : responses tr ≤ 1
  before_response : BeforeResponse σ → responses tr = 0

section

variable {σ σ' : State} {l : Label} {tr es : List Event}

theorem Intact.inOnePlace (h : Intact σ tr) : (readings σ).InOnePlace () := by
  obtain ⟨place, hplace⟩ := h.placed
  exact hplace.inOnePlace trivial

/-- During a handler nothing is pending, the object is there and no other handler runs. -/
theorem Intact.alone (h : Intact σ tr) {t : ThreadId} (ht : σ.threads t ≠ .idle) :
    σ.pending = [] ∧ σ.deletions = 0 ∧ ∀ u, σ.threads u ≠ .idle → u = t := by
  rcases place_cases h.inOnePlace with ⟨-, hidle, -⟩ | ⟨hpending, ⟨u, -, hu⟩, hdeletions⟩ |
    ⟨-, hidle, -⟩
  · exact absurd (hidle t) ht
  · exact ⟨hpending, hdeletions, fun v hv => (hu v hv).trans (hu t ht).symm⟩
  · exact absurd (hidle t) ht

/-- A step is the completion of what is pending, or it is in a handler. -/
theorem Step.source (h : Step σ l σ' es) : σ.pending ≠ [] ∨ ∃ t, σ.threads t ≠ .idle := by
  cases h with
  | deliver ht hop => exact Or.inl (List.ne_nil_of_mem hop)
  | shutdownThrows ht => rcases ht with ht | ht <;> exact Or.inr ⟨_, by rw [ht]; nofun⟩
  | readHeaders ht | respond ht | close ht | responseSent ht | sendShutdown ht
  | sendResponse ht | lookupFails ht | sentShutdown ht | onFinish ht | processThrows ht =>
    exact Or.inr ⟨_, by rw [ht]; nofun⟩

/-- A deleted object takes no step. -/
theorem Intact.present (hi : Intact σ tr) (h : Step σ l σ' es) : σ.deletions = 0 := by
  rcases place_cases hi.inOnePlace with ⟨-, -, hdeletions⟩ | ⟨-, -, hdeletions⟩ |
    ⟨hpending, hidle, -⟩
  · exact hdeletions
  · exact hdeletions
  · rcases h.source with hne | ⟨t, ht⟩
    · exact absurd hpending hne
    · exact absurd (hidle t) ht

/-- A step shows at most one event. -/
theorem Step.events_length (h : Step σ l σ' es) : es.length ≤ 1 := by
  cases h <;> simp

/-- A deletion is counted. -/
theorem Step.deleted (h : Step σ l σ' es) :
    σ.deletions ≤ σ'.deletions ∧ (.deleted ∈ es → σ'.deletions ≠ 0) := by
  cases h <;> simp

/-- The lookup of a code from the table succeeds. -/
theorem Step.found (h : Step σ l σ' es) (hs : Answerable σ.service) : .lookupFailed ∉ es := by
  cases h with
  | lookupFails ht hnone =>
    obtain ⟨s, buffers, hsome⟩ := sendResponse_answerable hs
    rw [hsome] at hnone
    cases hnone
  | _ => simp

theorem Frame.answered_handler {op : Operation} (hop : op ≠ .writeResponse) (ec : ErrorCode) :
    (Frame.handler op ec).answered = false := by
  cases op with
  | writeResponse => exact absurd rfl hop
  | readRequestLine | readHeaders => rfl

/-- A thread that goes on behind the response opens nothing. -/
theorem BeforeResponse.of_goto {t : ThreadId} {f : Frame} (hf : f.answered = true)
    (h : BeforeResponse (σ.goto t f)) : BeforeResponse σ := by
  apply h.imp_right
  rintro ⟨u, hu⟩
  refine ⟨u, ?_⟩
  by_cases hut : u = t
  · simp [hut, hf] at hu
  · simpa [hut] using hu

/-- The step that writes a response is the last one before it. -/
theorem Step.before_response (h : Step σ l σ' es) (hi : Intact σ tr) :
    responses es = 0 ∧ (BeforeResponse σ' → BeforeResponse σ) ∨
      responses es = 1 ∧ BeforeResponse σ ∧ ¬BeforeResponse σ' := by
  cases h with
  | @sendResponse t fuel files s buffers ht hs =>
    obtain ⟨hpending, -, hother⟩ := hi.alone (t := t) (by rw [ht]; nofun)
    refine Or.inr ⟨rfl, Or.inr ⟨t, by rw [ht]; rfl⟩, ?_⟩
    rintro (⟨op, hop, hne⟩ | ⟨u, hu⟩)
    · simp [hpending, hne] at hop
    · by_cases hut : u = t
      · simp [hut, Frame.answered] at hu
      · have hidle : σ.threads u = .idle := not_not.mp fun h => hut (hother u h)
        simp [hut, hidle, Frame.answered] at hu
  | @deliver t op ec received ht hop =>
    refine Or.inl ⟨rfl, ?_⟩
    rintro (⟨op', hop', hne⟩ | ⟨u, hu⟩)
    · exact Or.inl ⟨op', List.mem_of_mem_erase hop', hne⟩
    · by_cases hut : u = t
      · refine Or.inl ⟨op, hop, ?_⟩
        rintro rfl
        simp [hut, Frame.answered] at hu
      · exact Or.inr ⟨u, by simpa [hut] using hu⟩
  | readHeaders ht hop | respond ht hop | close ht hop =>
    exact Or.inl ⟨rfl, fun _ => Or.inr ⟨_, by rw [ht]; exact Frame.answered_handler hop _⟩⟩
  | sendShutdown ht | lookupFails ht | processThrows ht =>
    exact Or.inl ⟨rfl, fun _ => Or.inr ⟨_, by rw [ht]; rfl⟩⟩
  | responseSent | sentShutdown | shutdownThrows =>
    exact Or.inl ⟨rfl, BeforeResponse.of_goto rfl⟩
  | onFinish => exact Or.inl ⟨rfl, fun h => h.of_goto (σ := σ.delete) rfl⟩

/-- A step without an exception keeps it. -/
theorem Intact.step (hi : Intact σ tr) (hl : l.throws = false)
    (h : HttpService.step σ l = some (σ', es)) : Intact σ' (tr ++ es) := by
  have hs := step_cases h
  have hfound := hs.found hi.answerable
  have hpresent := hi.present hs
  have hnot : .deleted ∉ tr := fun hmem => hi.deleted hmem hpresent
  obtain ⟨place, hplace⟩ := hi.placed
  refine ⟨hplace.handover (hs.handover hl hfound), hs.answerable hi.answerable, ?_, ?_, ?_, ?_, ?_⟩
  · simp [hi.found, hfound]
  · intro hmem
    exact hs.deleted.2 ((List.mem_append.mp hmem).resolve_left hnot)
  · intro before after he
    have hlength := hs.events_length
    rcases append_cut he with ⟨rest, htr, -⟩ | ⟨front, rfl, -⟩
    · exact absurd (htr ▸ List.mem_append_right _ List.mem_cons_self) hnot
    · simp only [List.length_append, List.length_cons] at hlength
      exact List.length_eq_zero_iff.mp (by omega)
  · rw [responses_append]
    rcases hs.before_response hi with ⟨hnone, -⟩ | ⟨hone, hbefore, -⟩
    · rw [hnone]
      exact hi.one_response
    · rw [hone, hi.before_response hbefore]
  · intro hbefore
    rw [responses_append]
    rcases hs.before_response hi with ⟨hnone, hkeep⟩ | ⟨-, -, hnot⟩
    · rw [hnone, hi.before_response (hkeep hbefore)]
    · exact absurd hbefore hnot

theorem intact_startHandling : Intact .startHandling [] where
  placed := ⟨fun _ => .pending, fun _ => Iff.rfl.trans (by simp [Place.born, readings]),
    fun _ => rfl, fun _ _ => by simp [Place.holder, readings, State.startHandling], fun _ => rfl⟩
  answerable := answerable_new
  found := List.not_mem_nil
  deleted h := absurd h List.not_mem_nil
  last before after h := by simp at h
  one_response := Nat.zero_le 1
  before_response _ := rfl

/-- A run without exceptions keeps it. -/
theorem Run.intact {labels : List Label} (h : Run labels σ tr)
    (hlabels : ∀ l ∈ labels, l.throws = false) : Intact σ tr := by
  revert hlabels
  refine System.exec_induction (P := fun labels σ tr =>
    (∀ l ∈ labels, l.throws = false) → Intact σ tr) (fun _ => intact_startHandling) ?_ h
  intro labels σ tr l σ' es _ ih hs hlabels
  exact (ih fun k hk => hlabels k (List.mem_append_left _ hk)).step
    (hlabels l (List.mem_append_right _ (List.mem_singleton.mpr rfl))) hs

end

/-- The object owns itself until it is deleted, and answers once at most. -/
structure Sound (σ : State) (tr : List Event) : Prop where
  /-- Between the handlers one operation is pending or the object was deleted, once. -/
  settled : (∀ t, σ.threads t = .idle) →
    σ.pending.length = 1 ∧ σ.deletions = 0 ∨ σ.pending = [] ∧ σ.deletions = 1
  /-- During a handler neither holds, and no other one runs. -/
  alone : ∀ t, σ.threads t ≠ .idle →
    σ.pending = [] ∧ σ.deletions = 0 ∧ ∀ u, σ.threads u ≠ .idle → u = t
  /-- Every handler comes to its end. -/
  ends : ∀ t files, ∃ fuel, Finishes fuel files t σ
  one_response : responses tr ≤ 1
  found : .lookupFailed ∉ tr
  /-- No handler runs after the deletion. -/
  last : ∀ before after, tr = before ++ .deleted :: after → after = []

section

variable {labels : List Label} {σ σ' : State} {l : Label} {tr es : List Event}

theorem Intact.sound (h : Intact σ tr) : Sound σ tr where
  settled hidle := by
    rcases place_cases h.inOnePlace with ⟨hpending, -, hdeletions⟩ | ⟨-, ⟨t, ht, -⟩, -⟩ |
      ⟨hpending, -, hdeletions⟩
    · exact Or.inl ⟨hpending, hdeletions⟩
    · exact absurd (hidle t) ht
    · exact Or.inr ⟨hpending, hdeletions⟩
  alone _ ht := h.alone ht
  ends t files := exists_finishes h.answerable files t
  one_response := h.one_response
  found := h.found
  last := h.last

/-- An exception leaves the handler at once, and everything else as it is. -/
theorem Step.thrown (h : Step σ l σ' es) (hl : l.throws = true) :
    ∃ t, σ.threads t ≠ .idle ∧ (∀ u, σ'.threads u = if u = t then .idle else σ.threads u) ∧
      σ'.pending = σ.pending ∧ σ'.deletions = σ.deletions := by
  cases h with
  | @shutdownThrows t ht =>
    refine ⟨t, ?_, by simp, rfl, rfl⟩
    rcases ht with ht | ht <;> rw [ht] <;> nofun
  | @processThrows t fuel ec s ht => exact ⟨t, by rw [ht]; nofun, by simp, rfl, rfl⟩
  | _ => cases hl

/-- Behind an exception nobody has the object, and it has not been deleted. -/
theorem Intact.lost (hi : Intact σ tr) (h : Step σ l σ' es) (hl : l.throws = true) :
    (∀ t, σ'.threads t = .idle) ∧ σ'.pending = [] ∧ σ'.deletions = 0 := by
  obtain ⟨t, ht, hthreads, hpending, hdeletions⟩ := h.thrown hl
  obtain ⟨hnone, hpresent, hother⟩ := hi.alone ht
  refine ⟨fun u => ?_, hpending.trans hnone, hdeletions.trans hpresent⟩
  rw [hthreads]
  split
  · rfl
  · next hut => exact not_not.mp fun h => hut (hother u h)

theorem not_sound_of_lost (h : (∀ t, σ.threads t = .idle) ∧ σ.pending = [] ∧ σ.deletions = 0) :
    ¬Sound σ tr := by
  obtain ⟨hidle, hpending, hdeletions⟩ := h
  intro hsound
  rcases hsound.settled hidle with ⟨hone, -⟩ | ⟨-, hone⟩
  · rw [hpending] at hone
    cases hone
  · rw [hdeletions] at hone
    cases hone

/-- The service owns itself along a run exactly when no call of its handlers throws. -/
theorem lifecycle_sound_iff (h : Run labels σ tr) :
    (∀ pre ρ es, pre <+: labels → Run pre ρ es → Sound ρ es) ↔
      ∀ l ∈ labels, l.throws = false := by
  constructor
  · refine System.exec_induction (P := fun labels _ _ =>
      (∀ pre ρ es, pre <+: labels → Run pre ρ es → Sound ρ es) →
        ∀ l ∈ labels, l.throws = false) (fun _ l hl => absurd hl List.not_mem_nil) ?_ h
    intro labels σ tr l σ' es hexec ih hs hsound
    have hearlier := ih fun pre ρ es hpre => hsound pre ρ es (hpre.trans (List.prefix_append ..))
    have hlast : l.throws = false := by
      by_contra hl
      have hi := Run.intact hexec hearlier
      exact not_sound_of_lost (hi.lost (step_cases hs) (Bool.of_not_eq_false hl))
        (hsound _ _ _ List.prefix_rfl (System.exec_snoc.mpr ⟨σ, tr, es, hexec, hs, rfl⟩))
    intro k hk
    rcases List.mem_append.mp hk with hk | hk
    · exact hearlier k hk
    · rw [List.mem_singleton.mp hk]
      exact hlast
  · intro hlabels pre ρ es hpre hrun
    exact (Run.intact hrun fun l hl => hlabels l (hpre.subset hl)).sound

/-- An empty file system. -/
def noFiles : Files := ⟨fun _ => false, fun _ => none⟩

/-- A request that is answered with an error. -/
def answeredSchedule : List Label :=
  [.deliver 0 .readRequestLine .success (ascii "GET / HTTP/1.1\r\n\r\n"), .run 0 0 noFiles,
    .run 0 0 noFiles, .run 0 0 noFiles, .deliver 1 .writeResponse .success [],
    .run 1 0 noFiles, .run 1 0 noFiles, .run 1 0 noFiles]

/-- The service is deleted behind its response. -/
theorem answeredSchedule_sound : ∃ σ tr, Run answeredSchedule σ tr ∧ σ.deletions = 1 ∧
    ∀ pre ρ es, pre <+: answeredSchedule → Run pre ρ es → Sound ρ es :=
  ⟨_, _, rfl, rfl, (lifecycle_sound_iff rfl).mpr (by simp [answeredSchedule, Label.throws])⟩

/-- The client has closed its connection before the service shuts its side down. -/
def closedSchedule : List Label :=
  [.deliver 0 .readRequestLine .success (ascii "POST / HTTP/1.1\r\n\r\n"), .run 0 0 noFiles] ++
    [.shutdownThrows 0]

/-- Then nothing is pending and nobody deletes the service. -/
theorem closedSchedule_abandons : ∃ σ tr, Run closedSchedule σ tr ∧
    (∀ t, σ.threads t = .idle) ∧ σ.pending = [] ∧ σ.deletions = 0 ∧ ¬Sound σ tr := by
  obtain ⟨σ, tr, hrun⟩ : ∃ σ tr, Run closedSchedule σ tr := ⟨_, _, rfl⟩
  obtain ⟨ρ, fs, es, hpre, hs, -⟩ := System.exec_snoc.mp hrun
  have hi := Run.intact hpre (by simp [Label.throws])
  have hlost := hi.lost (step_cases hs) rfl
  exact ⟨σ, tr, hrun, hlost.1, hlost.2.1, hlost.2.2, not_sound_of_lost hlost⟩

end

end BoostAsio.HttpService

import BoostAsio.Http.Request.StatusLine
import BoostAsio.Http.Request.Step

/-!
# Who is told how a request ended

The history of a run decides on one code: the failure of a stage, an abort, an invalid
response, or success when the body has ended. Every exit passes this code to `OnFinish`,
which keeps it from the callback unless it is a success. Hence the callback is invoked as
promised exactly in the runs in which no step leaves the path to success.
-/

namespace BoostAsio.HttpRequest

open BoostAsio.System

/-- The code that a stage's result decides on, unless the request goes on. -/
def Stage.decision (stage : Stage) (ec : ErrorCode) : Option ErrorCode :=
  if stage = .body then some (if ec = .eof then .success else ec)
  else if ec.value = 0 then none
  else some ec

/-- The code that an event decides on. -/
def Event.decision : Event → Option ErrorCode
  | .delivered stage ec => stage.decision ec
  | .stopped => some .operationAborted
  | .rejected => some .invalidResponse
  | .started _ | .printed _ | .callback _ _ => none

/-- The code that the user is owed after this history. -/
def outcome (tr : List Event) : Option ErrorCode := tr.findSome? Event.decision

/-- The code of an invocation of the callback. -/
def Event.called : Event → Option ErrorCode
  | .callback _ ec => some ec
  | .started _ | .delivered _ _ | .stopped | .rejected | .printed _ => none

/-- The codes with which the callback was invoked. -/
def callbacks (tr : List Event) : List ErrorCode := tr.filterMap Event.called

theorem outcome_append (tr es : List Event) :
    outcome (tr ++ es) = (outcome tr).or (outcome es) := List.findSome?_append

theorem callbacks_append (tr es : List Event) :
    callbacks (tr ++ es) = callbacks tr ++ callbacks es := List.filterMap_append

/-- The code that has been decided on where the request stands, before `OnFinish`. -/
def Point.decision : Point → Option ErrorCode
  | .handler stage ec => stage.decision ec
  | .abortUnlock => some .operationAborted
  | .finish ec => some ec
  | _ => none

/-- What `OnFinish` makes of a code. -/
def notified (ec : ErrorCode) : List ErrorCode := if ec.value = 0 then [ec] else []

/-- A stage with a successor decides only on its failure. -/
theorem Stage.decision_of_next {stage next : Stage} (h : stage.next = some next)
    (ec : ErrorCode) : stage.decision ec = if ec.value = 0 then none else some ec := by
  have hbody : stage ≠ .body := by
    rintro rfl
    cases h
  rw [Stage.decision, if_neg hbody]

/-- The last stage decides on what its handler passes on. -/
theorem Stage.decision_of_last {stage : Stage} (h : stage.next = none) (ec : ErrorCode) :
    stage.decision ec = some (onResponseBodyReceived ec) := by
  cases stage with
  | body => rfl
  | resolve | connect | write | statusLine | headers => cases h

/-- A step either finishes the request, or carries on what has been decided. -/
theorem Step.decides {σ σ' : State} {l : Label} {es : List Event} (h : Step σ l σ' es) :
    (∃ ec, σ.point = .finish ec ∧ σ'.point = .ended ∧ outcome es = none ∧
      callbacks es = notified ec) ∨
    (σ'.point = .ended ↔ σ.point = .ended) ∧
      σ'.point.decision = σ.point.decision.or (outcome es) ∧ callbacks es = [] ∧
      (σ.point = .ended → es = []) := by
  cases h with
  | print hpoint hec => exact Or.inl ⟨_, hpoint, rfl, rfl, by simp [notified, hec]; rfl⟩
  | callback hpoint hec => exact Or.inl ⟨_, hpoint, rfl, rfl, by simp [notified, hec]; rfl⟩
  | rejected hpoint hread =>
    right
    simp [hpoint, readStatusLine_error hread, Point.decision, outcome, callbacks, Event.decision,
      Event.called]
  | handlerFailed hpoint hnext hec =>
    right
    simp [hpoint, Point.decision, Stage.decision_of_next hnext, hec, outcome, callbacks]
  | handlerNext hpoint hnext hec =>
    right
    simp [hpoint, Point.decision, Stage.decision_of_next hnext, hec, outcome, callbacks]
  | handlerLast hpoint hnext =>
    right
    simp [hpoint, Point.decision, Stage.decision_of_last hnext, outcome, callbacks]
  | cancelResolver | cancelSocket =>
    right
    rw [State.point_cancelGoto]
    rcases σ.point_cancelPending _ with he | ⟨stage, cancelled, hpoint, he⟩
    · rw [he]
      exact ⟨Iff.rfl, by simp [outcome], rfl, fun _ => rfl⟩
    · rw [he, hpoint]
      exact ⟨by simp, rfl, rfl, fun _ => rfl⟩
  | cancel | cancelLock | cancelSetFlag | cancelClosed | cancelUnlock =>
    right
    exact ⟨Iff.rfl, by simp [outcome], rfl, fun _ => rfl⟩
  | executeThrows hpoint | execute hpoint | checkLock hpoint | checkCancelled hpoint
  | checkPassed hpoint | checkUnlock hpoint | abortUnlock hpoint | startResolve hpoint
  | startConnect hpoint | startWrite hpoint | startStatusLine hpoint | shutdownThrows hpoint
  | startHeaders hpoint | startBody hpoint | deliver hpoint =>
    right
    simp [hpoint, Point.decision, outcome, callbacks, Event.decision, Event.called]

/-- What the history says of the point that the request stands at. -/
structure Tracks (σ : State) (tr : List Event) : Prop where
  running : σ.point ≠ .ended → outcome tr = σ.point.decision ∧ callbacks tr = []
  finished : σ.point = .ended → ∃ ec, outcome tr = some ec ∧ callbacks tr = notified ec

theorem Tracks.new (settings : Settings) : Tracks (.new settings) [] where
  running _ := ⟨rfl, rfl⟩
  finished h := by cases h

theorem Tracks.step {σ σ' : State} {tr es : List Event} {l : Label} (ht : Tracks σ tr)
    (h : Step σ l σ' es) : Tracks σ' (tr ++ es) := by
  rcases h.decides with ⟨ec, hpoint, hended, hout, hcall⟩ | ⟨hended, hdec, hcall, hlast⟩
  · obtain ⟨hprev, hnone⟩ := ht.running (by simp [hpoint])
    refine ⟨fun hne => absurd hended hne, fun _ => ⟨ec, ?_, ?_⟩⟩
    · simp [outcome_append, hprev, hpoint, Point.decision]
    · rw [callbacks_append, hnone, hcall, List.nil_append]
  · refine ⟨fun hne => ?_, fun heq => ?_⟩
    · obtain ⟨hprev, hnone⟩ := ht.running (fun heq => hne (hended.mpr heq))
      rw [outcome_append, callbacks_append, hprev, hnone, hdec, hcall]
      exact ⟨rfl, rfl⟩
    · rw [hlast (hended.mp heq), List.append_nil]
      exact ht.finished (hended.mp heq)

/-- Every run carries its decision to `OnFinish` and no further than it allows. -/
theorem Run.tracks {settings : Settings} {labels : List Label} {σ : State} {tr : List Event}
    (h : Run settings labels σ tr) : Tracks σ tr :=
  exec_induction (P := fun _ σ tr => Tracks σ tr) (.new settings)
    (fun _ ht hs => ht.step (step_cases hs)) h

/-- The steps that lead away from success: a failure is delivered, the flag is found set,
or the status line cannot be read. -/
inductive Diverts (σ : State) : Label → Prop
  | failed {stage cancelled ec received} (hpoint : σ.point = .pending stage cancelled)
      (hec : ec.value ≠ 0) (hend : stage = .body → ec ≠ .eof) :
      Diverts σ (.deliver ec received)
  | cancelled {n next} (hpoint : σ.point = .checkFlag next) (hflag : σ.wasCancelled = true) :
      Diverts σ (.run n)
  | rejected {n code} (hpoint : σ.point = .start .headers)
      (hread : readStatusLine σ.response = .error code) : Diverts σ (.run n)

theorem Stage.decision_failed_iff (stage : Stage) (ec : ErrorCode) :
    (∃ code, stage.decision ec = some code ∧ code.value ≠ 0) ↔
      ec.value ≠ 0 ∧ (stage = .body → ec ≠ .eof) := by
  by_cases hs : stage = .body <;> by_cases he : ec = .eof <;> by_cases h0 : ec.value = 0 <;>
    simp_all [Stage.decision, ErrorCode.success]

/-- A step leads away from success exactly when it decides on a failure. -/
theorem diverts_iff {σ σ' : State} {l : Label} {es : List Event}
    (h : step σ l = some (σ', es)) :
    Diverts σ l ↔ ∃ ec, outcome es = some ec ∧ ec.value ≠ 0 := by
  constructor
  · intro hd
    cases hd with
    | @failed stage cancelled ec received hpoint hec hend =>
      simp only [step, hpoint] at h
      cases h
      simpa [outcome, Event.decision] using (stage.decision_failed_iff ec).mpr ⟨hec, hend⟩
    | cancelled hpoint hflag =>
      simp only [step, hpoint, advance, isCancelled, hflag, if_true] at h
      cases h
      exact ⟨_, rfl, by decide⟩
    | rejected hpoint hread =>
      simp only [step, hpoint, advance, start, hread] at h
      cases h
      exact ⟨_, rfl, by decide⟩
  · rintro ⟨code, hcode, hne⟩
    cases step_cases h with
    | @deliver stage cancelled ec received hpoint =>
      have hdec : stage.decision ec = some code := by simpa [outcome, Event.decision] using hcode
      obtain ⟨hec, hend⟩ := (stage.decision_failed_iff ec).mp ⟨code, hdec, hne⟩
      exact .failed hpoint hec hend
    | checkCancelled hpoint hflag => exact .cancelled hpoint hflag
    | rejected hpoint hread => exact .rejected hpoint hread
    | _ => simp [outcome, Event.decision] at hcode

/-- Nothing is decided on twice. -/
theorem Step.undecided {σ σ' : State} {l : Label} {es : List Event} (h : Step σ l σ' es)
    (hes : outcome es ≠ none) : σ.point.decision = none ∧ σ.point ≠ .ended := by
  cases h with
  | checkCancelled hpoint => simp [hpoint, Point.decision]
  | rejected hpoint => simp [hpoint, Point.decision]
  | deliver hpoint => simp [hpoint, Point.decision]
  | _ => simp [outcome, Event.decision] at hes

/-- A run has left the path to success exactly when its history decides on a failure. -/
theorem Run.diverted_iff {settings : Settings} {labels : List Label} {σ : State}
    {tr : List Event} (h : Run settings labels σ tr) :
    (∃ ρ l, StepOnRun step (.new settings) labels ρ l ∧ Diverts ρ l) ↔
      ∃ ec, outcome tr = some ec ∧ ec.value ≠ 0 := by
  refine exec_induction (P := fun labels _ tr =>
    (∃ ρ l, StepOnRun step (.new settings) labels ρ l ∧ Diverts ρ l) ↔
      ∃ ec, outcome tr = some ec ∧ ec.value ≠ 0) ?_ ?_ h
  · constructor
    · rintro ⟨ρ, l, ⟨pre, hpre, -⟩, -⟩
      simp at hpre
    · rintro ⟨ec, hec, -⟩
      cases hec
  · intro labels σ tr l σ' es hrun ih hs
    have hlast : (∃ ρ b, StepOnRun step (.new settings) (labels ++ [l]) ρ b ∧ Diverts ρ b) ↔
        (∃ ρ b, StepOnRun step (.new settings) labels ρ b ∧ Diverts ρ b) ∨ Diverts σ l := by
      constructor
      · rintro ⟨ρ, b, hon, hd⟩
        rcases stepOnRun_snoc.mp hon with hold | ⟨rfl, tr', hρ⟩
        · exact Or.inl ⟨ρ, b, hold, hd⟩
        · obtain ⟨rfl, -⟩ := Prod.mk.inj (Option.some.inj (hρ.symm.trans hrun))
          exact Or.inr hd
      · rintro (⟨ρ, b, hon, hd⟩ | hd)
        · exact ⟨ρ, b, stepOnRun_snoc.mpr (Or.inl hon), hd⟩
        · exact ⟨σ, l, stepOnRun_snoc.mpr (Or.inr ⟨rfl, tr, hrun⟩), hd⟩
    rw [hlast, ih, diverts_iff hs, outcome_append]
    by_cases hes : outcome es = none
    · simp [hes]
    · obtain ⟨hpoint, hended⟩ := (step_cases hs).undecided hes
      have hnone : outcome tr = none := by rw [((Run.tracks hrun).running hended).1, hpoint]
      simp [hnone]

/-- A request that an exception has left, as that of `m_sock.shutdown` in `OnRequestSent`, owes no
code, has not invoked its callback, and never goes on. -/
theorem unnotified_of_thrown {settings : Settings} {labels : List Label} {σ : State}
    {tr : List Event} (h : Run settings labels σ tr) {e : Exception}
    (hthrown : σ.point = .thrown e) :
    outcome tr = none ∧ callbacks tr = [] ∧ ∀ n, step σ (.run n) = none := by
  obtain ⟨hout, hcall⟩ := h.tracks.running (by rw [hthrown]; exact fun he => by cases he)
  rw [hthrown] at hout
  exact ⟨hout, hcall, fun n => by rw [step, hthrown, advance]⟩

/-- A request that has come to its end, and was not left by an exception, has invoked its callback
once, with the code that the user is owed, exactly when no step of the run has led away from
success. -/
theorem notified_iff {settings : Settings} {labels : List Label} {σ : State} {tr : List Event}
    (h : Run settings labels σ tr) (hended : σ.point = .ended) :
    (∃ code, outcome tr = some code ∧ callbacks tr = [code]) ↔
      ∀ ρ l, StepOnRun step (.new settings) labels ρ l → ¬Diverts ρ l := by
  obtain ⟨ec, hout, hcall⟩ := h.tracks.finished hended
  have hsuccess : (∃ code, outcome tr = some code ∧ callbacks tr = [code]) ↔ ec.value = 0 := by
    rw [hout, hcall, notified]
    by_cases h0 : ec.value = 0 <;> simp [h0]
  have hdiverted : (∃ ρ l, StepOnRun step (.new settings) labels ρ l ∧ Diverts ρ l) ↔
      ec.value ≠ 0 := by
    rw [h.diverted_iff, hout]
    simp
  rw [hsuccess]
  constructor
  · intro h0 ρ l hon hd
    exact hdiverted.mp ⟨ρ, l, hon, hd⟩ h0
  · intro hnone
    by_contra hne
    obtain ⟨ρ, l, hon, hd⟩ := hdiverted.mpr hne
    exact hnone ρ l hon hd

/-- A request for `/` of a host. -/
def plainSettings : Settings :=
  { Settings.new with host := ascii "h", uri := ascii "/", hasCallback := true }

/-- Asio delivers this result to the handler of the next stage, which passes its check. -/
def passSchedule (ec : ErrorCode) (received : Bytes) : List Label :=
  .deliver ec received :: List.replicate 5 (.run 2)

/-- Every stage succeeds and the server closes behind the body. -/
def successSchedule : List Label :=
  List.replicate 5 (.run 2) ++ passSchedule .success [] ++ passSchedule .success [] ++
    passSchedule .success [] ++ passSchedule .success (ascii "HTTP/1.1 200 OK\r\n") ++
    passSchedule .success (ascii "\r\n\r\n") ++
    [.deliver .eof (ascii "body"), .run 2, .run 2]

set_option maxRecDepth 4000 in
/-- The successful request has invoked its callback, and no step has led away from that. -/
theorem successSchedule_notified : ∃ σ tr, Run plainSettings successSchedule σ tr ∧
    callbacks tr = [.success] ∧
    ∀ ρ l, StepOnRun step (.new plainSettings) successSchedule ρ l → ¬Diverts ρ l := by
  obtain ⟨σ, tr, hrun, hended, hout, hcall⟩ : ∃ σ tr, Run plainSettings successSchedule σ tr ∧
      σ.point = .ended ∧ outcome tr = some .success ∧ callbacks tr = [.success] :=
    ⟨_, _, rfl, rfl, rfl, rfl⟩
  exact ⟨σ, tr, hrun, hcall, (notified_iff hrun hended).mp ⟨_, hout, hcall⟩⟩

/-- The name of the host cannot be resolved. -/
def unresolvedSchedule : List Label :=
  List.replicate 5 (.run 0) ++ [.deliver ⟨1, .netdb⟩ [], .run 0, .run 0]

/-- The request is over, its callback is owed the failure, and it is not invoked. -/
theorem unresolvedSchedule_unnotified : ∃ σ tr, Run plainSettings unresolvedSchedule σ tr ∧
    σ.point = .ended ∧ ¬∃ code, outcome tr = some code ∧ callbacks tr = [code] := by
  obtain ⟨σ, tr, hrun, hended, hcall⟩ : ∃ σ tr, Run plainSettings unresolvedSchedule σ tr ∧
      σ.point = .ended ∧ callbacks tr = [] := ⟨_, _, rfl, rfl, rfl⟩
  refine ⟨σ, tr, hrun, hended, ?_⟩
  rintro ⟨code, -, hcode⟩
  rw [hcall] at hcode
  cases hcode

end BoostAsio.HttpRequest

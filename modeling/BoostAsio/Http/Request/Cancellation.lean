import BoostAsio.Http.Request.Notification
import BoostAsio.Http.Request.Schedule

/-!
# No success behind a cancellation

Every handler but the last reads the flag before it goes on, so once the flag is set it
leads to an abort or passes on a failure. The last handler does not read the flag. A
request that was cancelled in time ends in success exactly by a last completion that was
queued before and is handled after the call has returned.
-/

namespace BoostAsio.HttpRequest

open BoostAsio.System

/-- Points from which a flagged request does not come to a success. -/
def Point.doomed : Point → Prop
  | .abortUnlock | .ended | .checkLock _ | .checkFlag _ | .thrown _ => True
  | .handler stage ec => stage = .body → (onResponseBodyReceived ec).value ≠ 0
  | .finish ec => ec.value ≠ 0
  | _ => False

/-- The flag is set, and the request stands where it is still going to be read. -/
structure Doomed (σ : State) : Prop where
  flag : σ.wasCancelled = true
  point : σ.point.doomed

/-- None of these events invokes the callback with success. -/
def Unsuccessful (es : List Event) : Prop := ∀ ec ∈ callbacks es, ec.value ≠ 0

theorem unsuccessful_nil : Unsuccessful [] := fun ec hm => by simp [callbacks] at hm

theorem unsuccessful_append {es fs : List Event} :
    Unsuccessful (es ++ fs) ↔ Unsuccessful es ∧ Unsuccessful fs := by
  simp only [Unsuccessful, callbacks_append, List.forall_mem_append]

section

variable {σ σ' : State} {l : Label} {x y : Scheduled} {c : Choice} {tr es : List Event}

theorem Stage.eq_body_of_last {stage : Stage} (h : stage.next = none) : stage = .body := by
  cases stage with
  | body => rfl
  | resolve | connect | write | statusLine | headers => cases h

/-- A doomed request aborts or passes on a failure, and starts no operation. -/
theorem Step.doomed (h : Step σ l σ' es) (hi : Doomed σ) : Doomed σ' := by
  obtain ⟨hflag, hpoint⟩ := hi
  refine ⟨h.wasCancelled_mono hflag, ?_⟩
  cases h with
  | handlerLast hp hnext =>
    rw [hp] at hpoint
    exact hpoint (Stage.eq_body_of_last hnext)
  | handlerFailed hp hnext hec => exact hec
  | abortUnlock hp => simp [Point.doomed, ErrorCode.operationAborted]
  | checkPassed hp hclear =>
    rw [hflag] at hclear
    cases hclear
  | executeThrows | checkLock | checkCancelled | handlerNext | shutdownThrows | print
  | callback => trivial
  | execute hp | checkUnlock hp | startResolve hp | startConnect hp | startWrite hp
  | startStatusLine hp | startHeaders hp | rejected hp | startBody hp | deliver hp =>
    rw [hp] at hpoint
    exact hpoint.elim
  | cancelResolver | cancelSocket =>
    rw [State.point_cancelGoto]
    rcases σ.point_cancelPending _ with he | ⟨stage, cancelled, hp, -⟩
    · rw [he]
      exact hpoint
    · rw [hp] at hpoint
      exact hpoint.elim
  | cancel | cancelLock | cancelSetFlag | cancelClosed | cancelUnlock => exact hpoint

/-- A doomed request does not succeed. -/
theorem Step.unsuccessful (h : Step σ l σ' es) (hi : Doomed σ) : Unsuccessful es := by
  cases h with
  | callback hp hec =>
    have hpoint := hi.point
    rw [hp] at hpoint
    exact absurd hec hpoint
  | _ => simp [Unsuccessful, callbacks, Event.called]

/-- Whatever is chosen, a doomed request stays doomed and does not succeed. -/
theorem ScheduledStep.doomed (h : ScheduledStep x c y es) (hi : Doomed x.request) :
    Doomed y.request ∧ Unsuccessful es := by
  rcases h.request_step with ⟨l, hl⟩ | ⟨he, rfl⟩
  · exact ⟨hl.doomed hi, hl.unsuccessful hi⟩
  · rw [he]
    exact ⟨hi, unsuccessful_nil⟩

/-- A run that starts with a doomed request does not succeed. -/
theorem Doomed.run {choices : List Choice} (hi : Doomed x.request)
    (h : exec schedule x choices = some (y, es)) : Unsuccessful es := by
  refine (exec_induction (P := fun _ y es => Doomed y.request ∧ Unsuccessful es) ?_ ?_ h).2
  · exact ⟨hi, unsuccessful_nil⟩
  · rintro as s tr a t es - ⟨hs, htr⟩ hstep
    obtain ⟨ht, hes⟩ := (schedule_cases hstep).doomed hs
    exact ⟨ht, unsuccessful_append.mpr ⟨htr, hes⟩⟩

end

/-- No handler that starts after a `Cancel` has returned, and none after it, invokes the
callback with success. -/
def NeverSucceedsCancelled (settings : Settings) (choices : List Choice) : Prop :=
  ∀ pre post x y tr es, choices = pre ++ .dispatch :: post → ScheduledRun settings pre x tr →
    x.returned = true → exec schedule x (.dispatch :: post) = some (y, es) → Unsuccessful es

/-- After a `Cancel` has returned, the last handler is run on the completion of the whole
body that was queued before. -/
def Late (x : Scheduled) (c : Choice) : Prop :=
  c = .dispatch ∧ x.returned = true ∧ ∃ cancelled q, x.request.point = .pending .body cancelled ∧
    x.queued = some q ∧ (q.ec = .eof ∨ q.ec.value = 0)

/-- The last handler passes on a success for these results only. -/
theorem onResponseBodyReceived_success_iff {ec : ErrorCode} :
    (onResponseBodyReceived ec).value = 0 ↔ ec = .eof ∨ ec.value = 0 := by
  by_cases he : ec = .eof
  · simp [onResponseBodyReceived, he, ErrorCode.success]
  · simp [onResponseBodyReceived, he]

/-- A handler that starts after a `Cancel` has returned finds or leaves the request doomed. -/
theorem ScheduledStep.doomed_of_not_late {x y : Scheduled} {es : List Event} (hi : Flagged x)
    (hret : x.returned = true) (h : ScheduledStep x .dispatch y es)
    (hlate : ¬Late x .dispatch) : Doomed y.request ∧ Unsuccessful es := by
  cases h with
  | @dispatch q stage cancelled hq hpoint =>
    refine ⟨⟨hi.returned hret, fun hbody => ?_⟩, by simp [Unsuccessful, callbacks, Event.called]⟩
    subst hbody
    intro hsuccess
    have hec := onResponseBodyReceived_success_iff.mp hsuccess
    exact hlate ⟨rfl, hret, cancelled, q, hpoint, hq, hec⟩

/-- The last handler has a success to pass on, or has passed it on. -/
def Succeeding (σ : State) (tr : List Event) : Prop :=
  (∃ ec, σ.point = .handler .body ec ∧ (onResponseBodyReceived ec).value = 0) ∨
    (∃ ec, σ.point = .finish ec ∧ ec.value = 0) ∨ ¬Unsuccessful tr

theorem Succeeding.step {σ σ' : State} {l : Label} {tr es : List Event}
    (hi : Succeeding σ tr) (h : Step σ l σ' es) : Succeeding σ' (tr ++ es) := by
  rcases hi with ⟨ec, hpoint, hec⟩ | ⟨ec, hpoint, hec⟩ | hdone
  · have hcases : σ'.point = σ.point ∨ σ'.point = .finish (onResponseBodyReceived ec) := by
      cases h with
      | cancelResolver | cancelSocket =>
        rcases σ.point_cancelPending _ with he | ⟨stage, cancelled, hp, -⟩
        · exact Or.inl he
        · simp [hpoint] at hp
      | _ => simp_all [Stage.next]
    rcases hcases with he | he
    · exact Or.inl ⟨ec, he.trans hpoint, hec⟩
    · exact Or.inr (Or.inl ⟨_, he, hec⟩)
  · have hcases : σ'.point = σ.point ∨ callbacks es = [ec] := by
      cases h with
      | cancelResolver | cancelSocket =>
        rcases σ.point_cancelPending _ with he | ⟨stage, cancelled, hp, -⟩
        · exact Or.inl he
        · simp [hpoint] at hp
      | _ => simp_all [callbacks, Event.called]
    rcases hcases with he | hcall
    · exact Or.inr (Or.inl ⟨ec, he.trans hpoint, hec⟩)
    · refine Or.inr (Or.inr fun hnone => ?_)
      exact (unsuccessful_append.mp hnone).2 ec (by simp [hcall]) hec
  · exact Or.inr (Or.inr fun hnone => hdone (unsuccessful_append.mp hnone).1)

/-- A run that goes on from a late completion to its end invokes the callback with success. -/
theorem Late.succeeds {x y : Scheduled} {choices : List Choice} {es : List Event}
    (hlate : Late x .dispatch) (h : exec schedule x (.dispatch :: choices) = some (y, es))
    (hended : y.request.point = .ended) : ¬Unsuccessful es := by
  obtain ⟨-, -, cancelled, q, hpoint, hq, hec⟩ := hlate
  obtain ⟨m, fs, gs, hm, hrest, rfl⟩ := exec_cons.mp h
  have hfirst : Succeeding m.request fs := by
    cases schedule_cases hm with
    | dispatch hq' hpoint' =>
      obtain rfl := Option.some.inj (hq.symm.trans hq')
      obtain ⟨rfl, -⟩ := Point.pending.inj (hpoint.symm.trans hpoint')
      exact Or.inl ⟨q.ec, rfl, onResponseBodyReceived_success_iff.mpr hec⟩
  have hlast : Succeeding y.request (fs ++ gs) := by
    refine exec_induction (P := fun _ y gs => Succeeding y.request (fs ++ gs)) ?_ ?_ hrest
    · rwa [List.append_nil]
    · rintro as s tr a t es - hs hstep
      rw [← List.append_assoc]
      rcases (schedule_cases hstep).request_step with ⟨l, hl⟩ | ⟨he, rfl⟩
      · exact hs.step hl
      · rwa [he, List.append_nil]
  rcases hlast with ⟨ec, he, -⟩ | ⟨ec, he, -⟩ | hdone
  · simp [hended] at he
  · simp [hended] at he
  · exact hdone

/-- A run does not report success after its cancellation unless the last handler is late,
and a run that is over and has a late handler does. -/
theorem never_succeeds_iff {settings : Settings} {choices : List Choice} {x : Scheduled}
    {tr : List Event} (h : ScheduledRun settings choices x tr) :
    ((∀ y c, StepOnRun schedule (.new settings) choices y c → ¬Late y c) →
        NeverSucceedsCancelled settings choices) ∧
      (x.request.point = .ended → NeverSucceedsCancelled settings choices →
        ∀ y c, StepOnRun schedule (.new settings) choices y c → ¬Late y c) := by
  constructor
  · rintro hlate pre post y z tr' es rfl hpre hret hpost
    have hnot : ¬Late y .dispatch := hlate y _ ⟨pre, by simp, tr', hpre⟩
    obtain ⟨m, fs, gs, hm, hrest, rfl⟩ := exec_cons.mp hpost
    obtain ⟨hdoomed, hfs⟩ := (schedule_cases hm).doomed_of_not_late hpre.flagged hret hnot
    exact unsuccessful_append.mpr ⟨hfs, hdoomed.run hrest⟩
  · rintro hended hnever y c ⟨pre, ⟨post, hchoices⟩, tr', hpre⟩ hlate
    obtain rfl : c = .dispatch := hlate.1
    have hcut : choices = pre ++ .dispatch :: post := by simpa using hchoices.symm
    rw [ScheduledRun, hcut] at h
    obtain ⟨m, es, fs, hm, hrest, -⟩ := exec_append_iff.mp h
    obtain ⟨rfl, rfl⟩ := Prod.mk.inj (Option.some.inj (hm.symm.trans hpre))
    exact hlate.succeeds hrest hended
      (hnever pre post m x es fs hcut hpre hlate.2.1 hrest)

/-- The steps of the request up to the start of the next operation. -/
def runTimes (n : Nat) : List Choice := List.replicate n (.request (.run 2))

/-- Asio completes the pending operation, its handler is run and passes its check. -/
def passChoices (ec : ErrorCode) (received : Bytes) : List Choice :=
  .complete ec received :: .dispatch :: runTimes 5

/-- A call of `Cancel` from its beginning to its end. -/
def cancelChoices (t : ThreadId) : List Choice :=
  .request (.cancel t) :: List.replicate 5 (.request (.runCancel t))

/-- A run whose whole trace shows no success keeps the promise. -/
theorem never_succeeds_of_trace {settings : Settings} {choices : List Choice} {x : Scheduled}
    {tr : List Event} (h : ScheduledRun settings choices x tr) (hnone : Unsuccessful tr) :
    NeverSucceedsCancelled settings choices := by
  rintro pre post y z tr' es rfl hpre - hpost
  obtain ⟨m, fs, gs, hm, hrest, rfl⟩ := exec_append_iff.mp h
  obtain ⟨rfl, rfl⟩ := Prod.mk.inj (Option.some.inj (hm.symm.trans hpre))
  obtain ⟨-, rfl⟩ := Prod.mk.inj (Option.some.inj (hrest.symm.trans hpost))
  exact (unsuccessful_append.mp hnone).2

/-- The request is cancelled while the name of the host is being resolved. -/
def abortedSchedule : List Choice :=
  runTimes 5 ++ cancelChoices 0 ++ [.complete .operationAborted [], .dispatch] ++ runTimes 2

/-- The cancelled request has ended without success, and no handler of it was late. -/
theorem abortedSchedule_never_succeeds : ∃ x tr,
    ScheduledRun plainSettings abortedSchedule x tr ∧ x.returned = true ∧
      ∀ y c, StepOnRun schedule (.new plainSettings) abortedSchedule y c → ¬Late y c := by
  obtain ⟨x, tr, hrun, hret, hended, hcall⟩ : ∃ x tr,
      ScheduledRun plainSettings abortedSchedule x tr ∧ x.returned = true ∧
        x.request.point = .ended ∧ callbacks tr = [] := ⟨_, _, rfl, rfl, rfl, rfl⟩
  have hnever := never_succeeds_of_trace hrun (by simp [Unsuccessful, hcall])
  exact ⟨x, tr, hrun, hret, (never_succeeds_iff hrun).2 hended hnever⟩

/-- Every stage has succeeded, and the request is cancelled while its last handler is
queued. -/
def queuedSchedule : List Choice :=
  runTimes 5 ++ passChoices .success [] ++ passChoices .success [] ++ passChoices .success [] ++
    passChoices .success (ascii "HTTP/1.1 200 OK\r\n") ++
    passChoices .success (ascii "\r\n\r\n") ++
    .complete .eof (ascii "body") :: cancelChoices 0

set_option maxRecDepth 4000 in
/-- The handler then reports success. -/
theorem queuedSchedule_succeeds : ∃ x tr,
    ScheduledRun plainSettings (queuedSchedule ++ .dispatch :: runTimes 2) x tr ∧
      ¬NeverSucceedsCancelled plainSettings (queuedSchedule ++ .dispatch :: runTimes 2) := by
  obtain ⟨x, tr, hpre, hret, y, es, hpost, hcall⟩ : ∃ x tr,
      ScheduledRun plainSettings queuedSchedule x tr ∧ x.returned = true ∧
        ∃ y es, exec schedule x (.dispatch :: runTimes 2) = some (y, es) ∧
          callbacks es = [.success] := ⟨_, _, rfl, rfl, _, _, rfl, rfl⟩
  refine ⟨y, tr ++ es, exec_append_iff.mpr ⟨x, tr, es, hpre, hpost, rfl⟩, fun hnever => ?_⟩
  exact hnever _ _ x y tr es rfl hpre hret hpost .success (by simp [hcall]) rfl

end BoostAsio.HttpRequest

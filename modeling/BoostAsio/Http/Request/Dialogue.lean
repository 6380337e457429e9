import BoostAsio.Http.Request.Cancellation
import BoostAsio.Http.Request.RequestText

/-!
# What a request asks of Asio

A request and Asio take turns: an operation is started, its completion is delivered, and the
next one is started. In every run, whatever is cancelled and whatever fails, this is a first
part of one fixed dialogue. A failed completion is the last word of it, and the callback is
invoked behind the whole of it.
-/

namespace BoostAsio.HttpRequest

open BoostAsio.System

/-- The operation of a stage. -/
def Settings.operation (x : Settings) : Stage → Operation
  | .resolve => .asyncResolve x.host (decimal x.port.toNat)
  | .connect => .asyncConnect
  | .write => .asyncWrite x.encode
  | .statusLine => .asyncReadUntil (ascii "\r\n")
  | .headers => .asyncReadUntil (ascii "\r\n\r\n")
  | .body => .asyncRead

/-- What the request or Asio says. -/
inductive Remark
  | starts (op : Operation)
  | completes (stage : Stage)
  deriving DecidableEq, Repr

/-- The whole dialogue. -/
def Settings.dialogue (x : Settings) : List Remark :=
  [Stage.resolve, .connect, .write, .statusLine, .headers, .body].flatMap fun stage =>
    [.starts (x.operation stage), .completes stage]

/-- What an event says. -/
def Event.remark : Event → Option Remark
  | .started op => some (.starts op)
  | .delivered stage _ => some (.completes stage)
  | .stopped | .rejected | .printed _ | .callback _ _ => none

/-- What was said in a run. -/
def remarks (tr : List Event) : List Remark := tr.filterMap Event.remark

theorem remarks_append (tr es : List Event) : remarks (tr ++ es) = remarks tr ++ remarks es :=
  List.filterMap_append

/-- The number of stages in front of a stage. -/
def Stage.index : Stage → Nat
  | .resolve => 0
  | .connect => 1
  | .write => 2
  | .statusLine => 3
  | .headers => 4
  | .body => 5

/-- How much has been said where the request stands; nothing more is said behind the others. -/
def Point.said : Point → Option Nat
  | .execute => some 0
  | .checkLock stage | .checkFlag stage | .checkUnlock stage | .start stage =>
    some (2 * stage.index)
  | .pending stage _ => some (2 * stage.index + 1)
  | .handler stage _ => some (2 * stage.index + 2)
  | .abortUnlock | .finish _ | .thrown _ | .ended => none

theorem Stage.index_next {stage next : Stage} (h : stage.next = some next) :
    next.index = stage.index + 1 := by
  cases stage <;> cases h <;> rfl

/-- A stage is started and completed at its place. -/
theorem Settings.dialogue_getElem (x : Settings) (stage : Stage) :
    x.dialogue[2 * stage.index]? = some (.starts (x.operation stage)) ∧
      x.dialogue[2 * stage.index + 1]? = some (.completes stage) := by
  cases stage <;> exact ⟨rfl, rfl⟩

section

variable {settings : Settings} {labels : List Label} {σ σ' : State} {l : Label}
  {tr es : List Event} {stage : Stage} {ec : ErrorCode}

/-- A step says nothing, or what is next. -/
inductive Step.Speaks (σ σ' : State) (es : List Event) : Prop
  | silent (hsaid : σ'.point.said = none ∨ σ'.point.said = σ.point.said) (hes : remarks es = [])
  | next {n : Nat} {r : Remark} (hsaid : σ.point.said = some n)
      (hsaid' : σ'.point.said = some (n + 1)) (hr : σ.settings.dialogue[n]? = some r)
      (hes : remarks es = [r])

/-- A cancelled operation stays where it is in the dialogue. -/
theorem State.said_cancelPending (σ : State) (on : Stage → Bool) :
    (σ.cancelPending on).point.said = σ.point.said := by
  rcases σ.point_cancelPending on with he | ⟨stage, cancelled, hpoint, he⟩
  · rw [he]
  · rw [he, hpoint]
    rfl

theorem Step.speaks (h : Step σ l σ' es) (hbuf : σ.point.ahead = true → σ.requestBuf = []) :
    Step.Speaks σ σ' es := by
  have hstart : ∀ stage, σ.point = .start stage → σ'.point = .pending stage false →
      es = [.started (σ.settings.operation stage)] → Step.Speaks σ σ' es := by
    rintro stage hpoint hpoint' rfl
    exact .next (by rw [hpoint, Point.said]) (by rw [hpoint', Point.said])
      (σ.settings.dialogue_getElem stage).1 rfl
  cases h with
  | execute hpoint | checkLock hpoint | checkPassed hpoint | checkUnlock hpoint =>
    refine .silent (Or.inr ?_) rfl
    rw [hpoint]
    rfl
  | executeThrows | checkCancelled | abortUnlock | shutdownThrows | rejected | handlerFailed
  | handlerLast | print | callback => exact .silent (Or.inl rfl) rfl
  | startResolve hpoint => exact hstart .resolve hpoint rfl rfl
  | startConnect hpoint => exact hstart .connect hpoint rfl rfl
  | startWrite hpoint =>
    refine hstart .write hpoint rfl ?_
    rw [State.encodeRequest, hbuf (by rw [hpoint]; rfl)]
    rfl
  | startStatusLine hpoint => exact hstart .statusLine hpoint rfl rfl
  | startHeaders hpoint => exact hstart .headers hpoint rfl rfl
  | startBody hpoint => exact hstart .body hpoint rfl rfl
  | @deliver stage cancelled ec received hpoint =>
    exact .next (by rw [hpoint, Point.said]) rfl (σ.settings.dialogue_getElem stage).2 rfl
  | handlerNext hpoint hnext =>
    refine .silent (Or.inr ?_) rfl
    rw [hpoint, State.point_goto, Point.said, Point.said, Stage.index_next hnext, Nat.mul_add]
  | cancel | cancelLock | cancelSetFlag | cancelClosed | cancelUnlock =>
    exact .silent (Or.inr rfl) rfl
  | cancelResolver | cancelSocket =>
    exact .silent (Or.inr (σ.said_cancelPending _)) rfl

/-- A run has said what its point tells, in the order of the dialogue. -/
structure Speaking (settings : Settings) (σ : State) (tr : List Event) : Prop where
  within : remarks tr <+: settings.dialogue
  said : ∀ n ∈ σ.point.said, (remarks tr).length = n

theorem Speaking.step (hi : Speaking settings σ tr) (hs : Step.Speaks σ σ' es)
    (hsettings : σ.settings = settings) : Speaking settings σ' (tr ++ es) := by
  cases hs with
  | silent hsaid hes =>
    have hsame : remarks (tr ++ es) = remarks tr := by rw [remarks_append, hes, List.append_nil]
    refine ⟨hsame ▸ hi.within, fun n hn => hsame ▸ ?_⟩
    rcases hsaid with hnone | hkeep
    · rw [hnone] at hn
      cases hn
    · exact hi.said n (hkeep ▸ hn)
  | @next n r hsaid hsaid' hr hes =>
    have hlen := hi.said n hsaid
    have hmore : remarks (tr ++ es) = remarks tr ++ [r] := by rw [remarks_append, hes]
    refine ⟨?_, fun m hm => ?_⟩
    · rw [hsettings] at hr
      have htake := List.prefix_iff_eq_take.mp hi.within
      rw [hlen] at htake
      rw [hmore, htake]
      have hnext : settings.dialogue.take (n + 1) = settings.dialogue.take n ++ [r] := by
        rw [List.take_add_one, hr]
        rfl
      exact hnext ▸ List.take_prefix (n + 1) settings.dialogue
    · rw [hsaid'] at hm
      obtain rfl := Option.some.inj hm
      rw [hmore, List.length_append, hlen, List.length_singleton]

/-- The request has a failed completion to handle, or has nothing more to say. -/
def Point.Failing (p : Point) (stage : Stage) (ec : ErrorCode) : Prop :=
  p = .handler stage ec ∨ p.said = none

/-- Who has nothing more to say says nothing more. -/
theorem Step.Speaks.of_none (hs : Step.Speaks σ σ' es) (hnone : σ.point.said = none) :
    σ'.point.said = none ∧ remarks es = [] := by
  cases hs with
  | silent hsaid hes => exact ⟨hsaid.elim id (·.trans hnone), hes⟩
  | next hsome =>
    rw [hnone] at hsome
    cases hsome

/-- Behind a failed completion nothing is said. -/
theorem Step.of_failing (h : Step σ l σ' es) (hs : Step.Speaks σ σ' es)
    (hpoint : σ.point.Failing stage ec) (hec : ec.value ≠ 0) :
    σ'.point.Failing stage ec ∧ remarks es = [] := by
  rcases hpoint with hpoint | hnone
  · cases h with
    | handlerFailed | handlerLast => exact ⟨Or.inr rfl, rfl⟩
    | handlerNext hp hnext hok =>
      obtain ⟨-, rfl⟩ := Point.handler.inj (hp.symm.trans hpoint)
      exact absurd hok hec
    | cancel | cancelLock | cancelSetFlag | cancelClosed | cancelUnlock =>
      exact ⟨Or.inl hpoint, rfl⟩
    | cancelResolver | cancelSocket =>
      refine ⟨Or.inl ?_, rfl⟩
      rw [State.point_cancelGoto]
      rcases σ.point_cancelPending _ with he | ⟨stage, cancelled, hp, -⟩
      · rw [he, hpoint]
      · cases hp.symm.trans hpoint
    | _ hp => cases hp.symm.trans hpoint
  · obtain ⟨hnone', hes⟩ := hs.of_none hnone
    exact ⟨Or.inr hnone', hes⟩

/-- A step delivers one completion, or none. -/
theorem Step.delivered (h : Step σ l σ' es) :
    (∃ stage ec, es = [.delivered stage ec] ∧ σ'.point = .handler stage ec) ∨
      ∀ stage ec, .delivered stage ec ∉ es := by
  cases h with
  | deliver => exact Or.inl ⟨_, _, rfl, rfl⟩
  | _ => exact Or.inr (by simp)

/-- A failed completion is the last that was said. -/
def Silenced (σ : State) (tr : List Event) : Prop :=
  ∀ stage ec, .delivered stage ec ∈ tr → ec.value ≠ 0 →
    σ.point.Failing stage ec ∧ (remarks tr).getLast? = some (.completes stage)

theorem Silenced.step (hi : Silenced σ tr) (h : Step σ l σ' es) (hs : Step.Speaks σ σ' es) :
    Silenced σ' (tr ++ es) := by
  intro stage ec hmem hec
  rw [remarks_append]
  rcases List.mem_append.mp hmem with hold | hnew
  · obtain ⟨hfailing, hlast⟩ := hi stage ec hold hec
    obtain ⟨hfailing', hes⟩ := h.of_failing hs hfailing hec
    refine ⟨hfailing', ?_⟩
    rw [hes, List.append_nil]
    exact hlast
  · rcases h.delivered with ⟨stage', ec', rfl, hpoint⟩ | hnone
    · obtain ⟨rfl, rfl⟩ := Event.delivered.inj (List.mem_singleton.mp hnew)
      exact ⟨Or.inl hpoint, List.getLast?_concat⟩
    · exact absurd hnew (hnone stage ec)

/-- The callback is owed or was invoked, and everything has been said. -/
structure Concluding (settings : Settings) (σ : State) (tr : List Event) : Prop where
  finish : ∀ ec, σ.point = .finish ec → ec.value = 0 → remarks tr = settings.dialogue
  called : ∀ m ec, .callback m ec ∈ tr → remarks tr = settings.dialogue ∧ σ.point.said = none

/-- Only the handler of the body comes to success. -/
theorem Step.to_success (h : Step σ l σ' es) (hpoint : σ'.point = .finish ec)
    (hec : ec.value = 0) :
    remarks es = [] ∧ (σ.point = .finish ec ∨ σ.point.said = some 12) := by
  cases h with
  | abortUnlock =>
    obtain rfl := Point.finish.inj hpoint
    cases hec
  | rejected _ hread =>
    obtain rfl := Point.finish.inj hpoint
    rw [readStatusLine_error hread] at hec
    cases hec
  | handlerFailed _ _ hfailed =>
    obtain rfl := Point.finish.inj hpoint
    exact absurd hec hfailed
  | handlerLast hp hnext =>
    refine ⟨rfl, Or.inr ?_⟩
    rw [hp, Stage.eq_body_of_last hnext]
    rfl
  | cancel | cancelLock | cancelSetFlag | cancelClosed | cancelUnlock =>
    exact ⟨rfl, Or.inl hpoint⟩
  | cancelResolver | cancelSocket =>
    rw [State.point_cancelGoto] at hpoint
    rcases σ.point_cancelPending _ with he | ⟨stage, cancelled, -, he⟩
    · exact ⟨rfl, Or.inl (he ▸ hpoint)⟩
    · rw [he] at hpoint
      cases hpoint
  | _ => cases hpoint

/-- `OnFinish` invokes the callback with success only, and is the last step. -/
theorem Step.calls (h : Step σ l σ' es) {m : HttpMessage} (hmem : .callback m ec ∈ es) :
    σ.point = .finish ec ∧ ec.value = 0 ∧ remarks es = [] ∧ σ'.point.said = none := by
  cases h with
  | callback hpoint hec =>
    obtain ⟨-, rfl⟩ := Event.callback.inj (List.mem_singleton.mp hmem)
    exact ⟨hpoint, hec, rfl, rfl⟩
  | _ => simp at hmem

theorem Concluding.step (hi : Concluding settings σ tr) (hspeaking : Speaking settings σ tr)
    (h : Step σ l σ' es) (hs : Step.Speaks σ σ' es) : Concluding settings σ' (tr ++ es) := by
  have hkeep : remarks es = [] → remarks tr = settings.dialogue →
      remarks (tr ++ es) = settings.dialogue := by
    intro hes hall
    rw [remarks_append, hes, List.append_nil, hall]
  refine ⟨fun ec hpoint hec => ?_, fun m ec hmem => ?_⟩
  · obtain ⟨hes, hfinish | hsaid⟩ := h.to_success hpoint hec
    · exact hkeep hes (hi.finish ec hfinish hec)
    · exact hkeep hes (hspeaking.within.eq_of_length (hspeaking.said 12 hsaid))
  · rcases List.mem_append.mp hmem with hold | hnew
    · obtain ⟨hall, hnone⟩ := hi.called m ec hold
      obtain ⟨hnone', hes⟩ := hs.of_none hnone
      exact ⟨hkeep hes hall, hnone'⟩
    · obtain ⟨hpoint, hec, hes, hnone⟩ := h.calls hnew
      exact ⟨hkeep hes (hi.finish ec hpoint hec), hnone⟩

/-- What every run has said. -/
structure Spoken (settings : Settings) (σ : State) (tr : List Event) : Prop where
  speaking : Speaking settings σ tr
  silenced : Silenced σ tr
  concluding : Concluding settings σ tr

theorem Run.spoken (h : Run settings labels σ tr) : Spoken settings σ tr := by
  refine exec_induction (P := fun labels σ tr => Run settings labels σ tr → Spoken settings σ tr)
    (fun _ => ⟨⟨List.nil_prefix, ?_⟩, nofun, ⟨?_, nofun⟩⟩) ?_ h h
  · intro n hn
    exact Option.some.inj hn
  · intro ec hpoint
    cases hpoint
  · intro as σ tr l σ' es hrun hi hstep _
    have hwrites := Run.writesEncoding hrun
    have h := step_cases hstep
    have hs := h.speaks hwrites.ahead
    have hspoken := hi hrun
    exact ⟨hspoken.speaking.step hs hwrites.settings, hspoken.silenced.step h hs,
      hspoken.concluding.step hspoken.speaking h hs⟩

/-- In every run the request and Asio have come to some point of their dialogue. Behind a failed
completion nothing more is said, and the callback is invoked behind the whole dialogue. -/
theorem dialogue_of_run (h : Run settings labels σ tr) :
    remarks tr <+: settings.dialogue ∧
      (∀ stage ec, .delivered stage ec ∈ tr → ec.value ≠ 0 →
        (remarks tr).getLast? = some (.completes stage)) ∧
      ∀ m ec, .callback m ec ∈ tr → remarks tr = settings.dialogue := by
  have hspoken := h.spoken
  exact ⟨hspoken.speaking.within,
    fun stage ec hmem hec => (hspoken.silenced stage ec hmem hec).2,
    fun m ec hmem => (hspoken.concluding.called m ec hmem).1⟩

end

/-- Of the run in which everything succeeds the callback tells the whole dialogue. -/
theorem successSchedule_dialogue : ∃ σ tr, Run plainSettings successSchedule σ tr ∧
    remarks tr = plainSettings.dialogue := by
  obtain ⟨σ, tr, m, hrun, hcalled⟩ : ∃ σ tr m, Run plainSettings successSchedule σ tr ∧
      .callback m .success ∈ tr :=
    ⟨_, _, _, rfl, List.getLast_mem (List.cons_ne_nil _ _)⟩
  obtain ⟨-, -, hwhole⟩ := dialogue_of_run hrun
  exact ⟨σ, tr, hrun, hwhole m .success hcalled⟩

end BoostAsio.HttpRequest

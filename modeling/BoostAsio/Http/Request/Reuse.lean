import BoostAsio.Http.Request.Notification
import BoostAsio.Http.Request.Locking

/-!
# Several runs of one request object

`Execute` resets nothing. The text of the request is appended to what the buffer holds,
and the response keeps what the last run has left in it. Both are touched from the start
of the write on, so the runs of one object are independent as long as only one of them
comes to its write.
-/

namespace BoostAsio.HttpRequest

open BoostAsio.System

/-- What was set before an `Execute`, and what happens until the run that it starts is over. -/
structure Turn where
  settings : Settings
  labels : List Label

/-- Whether a label belongs to a call of `Cancel`. -/
def Label.cancels : Label → Bool
  | .cancel _ | .runCancel _ => true
  | .run _ | .deliver _ _ | .shutdownThrows _ => false

/-- Nothing of a run is left to happen. -/
def Point.over : Point → Bool
  | .ended | .thrown _ => true
  | _ => false

/-- An object that was constructed and not executed yet. -/
def State.constructed : State := { State.new .new with point := .ended }

/-- The setters and the call of `Execute`. -/
def State.execute (σ : State) (settings : Settings) : State :=
  { σ with settings := settings, point := .execute }

/-- One uncancelled run of the object, made after the previous one is over. -/
def turn (σ : State) (x : Turn) : Option (State × List (Turn × List Event)) :=
  if σ.point.over = true ∧ x.labels.all (!·.cancels) = true then
    (exec step (σ.execute x.settings) x.labels).map fun last => (last.1, [(x, last.2)])
  else none

/-- A sequence of runs of one object, each with what it makes visible. -/
abbrev Reuse (turns : List Turn) (σ : State) (tr : List (Turn × List Event)) : Prop :=
  exec turn .constructed turns = some (σ, tr)

/-- What an event says to have been written. -/
def Event.written : Event → Option Bytes
  | .started (.asyncWrite buf) => some buf
  | _ => none

/-- The buffers that were written. -/
def writes (es : List Event) : List Bytes := es.filterMap Event.written

theorem writes_append (es fs : List Event) : writes (es ++ fs) = writes es ++ writes fs :=
  List.filterMap_append

/-- A run writes one request, built from its own settings, unless it ends before, and
everything that it shows is what an object of its own shows under the same circumstances. -/
structure Independent (x : Turn) (es : List Event) : Prop where
  written : writes es = [] ∨ writes es = [x.settings.encode]
  fresh : ∃ τ, Run x.settings x.labels τ es

/-- Stages up to the write. -/
def Stage.ahead : Stage → Bool
  | .resolve | .connect | .write => true
  | .statusLine | .headers | .body => false

/-- Points in front of the write of a run. -/
def Point.ahead : Point → Bool
  | .execute => true
  | .checkLock next | .checkFlag next | .checkUnlock next | .start next => next.ahead
  | .pending stage _ | .handler stage _ => stage.next.any (·.ahead)
  | _ => false

/-- Points that a run can come to without having written. -/
def Point.early : Point → Bool
  | .ended | .abortUnlock | .thrown _ => true
  | .finish ec => ec.value ≠ 0
  | p => p.ahead

section

variable {σ σ' σ₀ : State} {l : Label} {es tr : List Event}

theorem Step.settings_eq (h : Step σ l σ' es) : σ'.settings = σ.settings := by
  cases h with
  | cancelResolver | cancelSocket =>
    obtain ⟨p, hp⟩ := σ.cancelPending_eq _
    rw [hp]
    rfl
  | _ => rfl

/-- A step writes what the buffer holds with the request behind it, or nothing. -/
theorem Step.write_cases (h : Step σ l σ' es) (hl : l.cancels = false) :
    (σ.point.ahead = true ∧ σ'.point.ahead = false ∧
      writes es = [σ.requestBuf ++ σ.settings.encode] ∧
      σ'.requestBuf = σ.requestBuf ++ σ.settings.encode) ∨
    (σ'.point.ahead = true → σ.point.ahead = true) ∧ writes es = [] ∧
      σ'.requestBuf = σ.requestBuf ∧
      (σ.point.early = true → σ'.point.early = true ∧ σ'.response = σ.response) := by
  cases h with
  | startWrite hpoint =>
    exact Or.inl ⟨by simp [hpoint, Point.ahead, Stage.ahead],
      by simp [Point.ahead, Stage.ahead, Stage.next], rfl, rfl⟩
  | @deliver stage cancelled ec received hpoint =>
    right
    cases stage <;>
      simp [hpoint, Point.ahead, Point.early, writes, Event.written, State.complete,
        State.setResponse, Stage.reads, Stage.next, Stage.ahead]
  | @startHeaders n m hpoint | @startBody n m hpoint =>
    right
    simp [hpoint, Point.ahead, Point.early, writes, Event.written, Stage.next, Stage.ahead]
  | handlerNext hpoint hnext hec | handlerFailed hpoint hnext hec =>
    right
    simp [hpoint, Point.ahead, Point.early, writes, hnext, hec]
  | handlerLast hpoint hnext =>
    right
    simp [hpoint, Point.ahead, Point.early, writes, hnext]
  | abortUnlock hpoint =>
    right
    simp [hpoint, Point.ahead, Point.early, writes, ErrorCode.operationAborted]
  | cancel | cancelLock | cancelSetFlag | cancelResolver | cancelSocket | cancelClosed
  | cancelUnlock => cases hl
  | _ hpoint =>
    right
    simp_all [Point.ahead, Point.early, writes, Event.written, Stage.next, Stage.ahead]

/-- Whether the socket is open is read by `Cancel` only. -/
theorem Step.of_sockOpen (h : Step σ l σ' es) (hl : l.cancels = false) (b : Bool) :
    ∃ b', Step { σ with sockOpen := b } l { σ' with sockOpen := b' } es := by
  cases h with
  | executeThrows hpoint hcheck => exact ⟨b, .executeThrows hpoint hcheck⟩
  | execute hpoint hcheck => exact ⟨b, .execute hpoint hcheck⟩
  | checkLock hpoint hfree => exact ⟨b, .checkLock hpoint hfree⟩
  | checkCancelled hpoint hflag => exact ⟨b, .checkCancelled hpoint hflag⟩
  | checkPassed hpoint hflag => exact ⟨b, .checkPassed hpoint hflag⟩
  | checkUnlock hpoint => exact ⟨b, .checkUnlock hpoint⟩
  | abortUnlock hpoint => exact ⟨b, .abortUnlock hpoint⟩
  | startResolve hpoint => exact ⟨b, .startResolve hpoint⟩
  | startConnect hpoint => exact ⟨true, .startConnect hpoint⟩
  | startWrite hpoint => exact ⟨b, .startWrite hpoint⟩
  | startStatusLine hpoint => exact ⟨b, .startStatusLine hpoint⟩
  | shutdownThrows hpoint => exact ⟨b, .shutdownThrows hpoint⟩
  | startHeaders hpoint hread => exact ⟨b, .startHeaders hpoint hread⟩
  | rejected hpoint hread => exact ⟨b, .rejected hpoint hread⟩
  | startBody hpoint hread => exact ⟨b, .startBody hpoint hread⟩
  | deliver hpoint => exact ⟨b, .deliver hpoint⟩
  | handlerFailed hpoint hnext hec => exact ⟨b, .handlerFailed hpoint hnext hec⟩
  | handlerNext hpoint hnext hec => exact ⟨b, .handlerNext hpoint hnext hec⟩
  | handlerLast hpoint hnext => exact ⟨b, .handlerLast hpoint hnext⟩
  | print hpoint hec => exact ⟨b, .print hpoint hec⟩
  | callback hpoint hec => exact ⟨b, .callback hpoint hec⟩
  | cancel | cancelLock | cancelSetFlag | cancelResolver | cancelSocket | cancelClosed
  | cancelUnlock => cases hl

/-- A run that has not written reads neither of its buffers. -/
theorem Step.of_early (h : Step σ l σ' es) (hl : l.cancels = false)
    (hearly : σ.point.early = true) (hes : writes es = []) (b : Bool) (rb : Bytes)
    (m : HttpMessage) :
    ∃ b', Step { σ with sockOpen := b, requestBuf := rb, response := m } l
      { σ' with sockOpen := b', requestBuf := rb, response := m } es := by
  cases h with
  | executeThrows hpoint hcheck => exact ⟨b, .executeThrows hpoint hcheck⟩
  | execute hpoint hcheck => exact ⟨b, .execute hpoint hcheck⟩
  | checkLock hpoint hfree => exact ⟨b, .checkLock hpoint hfree⟩
  | checkCancelled hpoint hflag => exact ⟨b, .checkCancelled hpoint hflag⟩
  | checkPassed hpoint hflag => exact ⟨b, .checkPassed hpoint hflag⟩
  | checkUnlock hpoint => exact ⟨b, .checkUnlock hpoint⟩
  | abortUnlock hpoint => exact ⟨b, .abortUnlock hpoint⟩
  | startResolve hpoint => exact ⟨b, .startResolve hpoint⟩
  | startConnect hpoint => exact ⟨true, .startConnect hpoint⟩
  | handlerFailed hpoint hnext hec => exact ⟨b, .handlerFailed hpoint hnext hec⟩
  | handlerNext hpoint hnext hec => exact ⟨b, .handlerNext hpoint hnext hec⟩
  | print hpoint hec => exact ⟨b, .print hpoint hec⟩
  | @deliver stage cancelled ec received hpoint =>
    have hreads : stage.reads = false := by
      rw [hpoint] at hearly
      cases stage <;> simp_all [Point.early, Point.ahead, Stage.next, Stage.ahead, Stage.reads]
    refine ⟨b, ?_⟩
    have hs : Step { σ with sockOpen := b, requestBuf := rb, response := m } (.deliver ec received)
        _ _ := .deliver hpoint
    simpa [State.complete, State.setResponse, State.goto, hreads] using hs
  | callback hpoint hec => simp [hpoint, Point.early, hec] at hearly
  | startWrite => simp [writes, Event.written] at hes
  | handlerLast hpoint hnext => simp [hpoint, Point.early, Point.ahead, hnext] at hearly
  | startStatusLine hpoint | shutdownThrows hpoint | startHeaders hpoint | rejected hpoint
  | startBody hpoint =>
    simp [hpoint, Point.early, Point.ahead, Stage.ahead] at hearly
  | cancel | cancelLock | cancelSetFlag | cancelResolver | cancelSocket | cancelClosed
  | cancelUnlock => cases hl

end

/-- Nobody has cancelled, and only the request itself is inside a scope of the mutex. -/
structure Quiet (σ : State) : Prop where
  flag : σ.wasCancelled = false
  mux : σ.cancelMux = if σ.point.holdsMux then some .request else none
  cancels : σ.cancels = fun _ => .idle

/-- What a run has written and what it has touched. -/
structure Written (σ₀ σ : State) (es : List Event) : Prop where
  settings : σ.settings = σ₀.settings
  ahead : σ.point.ahead = true → writes es = []
  buf : writes es = [] ∧ σ.requestBuf = σ₀.requestBuf ∧ σ.response = σ₀.response ∧
      σ.point.early = true ∨
    writes es = [σ₀.requestBuf ++ σ₀.settings.encode] ∧
      σ.requestBuf = σ₀.requestBuf ++ σ₀.settings.encode

section

variable {σ σ' σ₀ : State} {l : Label} {labels : List Label} {es tr : List Event}

theorem Quiet.step (hi : Quiet σ) (h : Step σ l σ' es) (hl : l.cancels = false) : Quiet σ' where
  flag := by
    cases h with
    | cancel | cancelLock | cancelSetFlag | cancelResolver | cancelSocket | cancelClosed
    | cancelUnlock => cases hl
    | _ => exact hi.flag
  mux := by
    have hmux := hi.mux
    cases h with
    | cancel | cancelLock | cancelSetFlag | cancelResolver | cancelSocket | cancelClosed
    | cancelUnlock => cases hl
    | _ hpoint => simp_all [Point.holdsMux]
  cancels := by
    cases h with
    | cancel | cancelLock | cancelSetFlag | cancelResolver | cancelSocket | cancelClosed
    | cancelUnlock => cases hl
    | _ => exact hi.cancels

theorem Written.step (hi : Written σ₀ σ tr) (h : Step σ l σ' es) (hl : l.cancels = false) :
    Written σ₀ σ' (tr ++ es) := by
  have hsettings := h.settings_eq.trans hi.settings
  rcases h.write_cases hl with ⟨hahead, hbehind, hes, hbuf⟩ | ⟨hahead, hes, hbuf, hearly⟩
  · have hnone := hi.ahead hahead
    have hold : σ.requestBuf = σ₀.requestBuf := by
      rcases hi.buf with ⟨-, hold, -, -⟩ | ⟨hsome, -⟩
      · exact hold
      · simp [hnone] at hsome
    rw [hold, hi.settings] at hes hbuf
    refine ⟨hsettings, fun hp => by simp [hbehind] at hp, Or.inr ⟨?_, hbuf⟩⟩
    rw [writes_append, hnone, hes, List.nil_append]
  · have hsame : writes (tr ++ es) = writes tr := by rw [writes_append, hes, List.append_nil]
    refine ⟨hsettings, fun hp => hsame.trans (hi.ahead (hahead hp)), ?_⟩
    rw [hsame, hbuf]
    rcases hi.buf with ⟨hnone, hold, hresponse, hpoint⟩ | hsome
    · exact Or.inl ⟨hnone, hold, (hearly hpoint).2.trans hresponse, (hearly hpoint).1⟩
    · exact Or.inr hsome

/-- What uncancelled steps preserve holds after an uncancelled run. -/
private theorem uncancelled_induction {P : List Label → State → List Event → Prop}
    (init : P [] σ₀ [])
    (hstep : ∀ {as σ tr l σ' es}, exec step σ₀ as = some (σ, tr) → P as σ tr → Step σ l σ' es →
      l.cancels = false → P (as ++ [l]) σ' (tr ++ es))
    (hl : labels.all (!·.cancels) = true) (h : exec step σ₀ labels = some (σ, tr)) :
    P labels σ tr := by
  revert hl
  refine exec_induction (P := fun as σ tr => as.all (!·.cancels) = true → P as σ tr) ?_ ?_ h
  · intro _
    exact init
  · intro as σ tr a t es hrun ih hs hl
    rw [List.all_append, Bool.and_eq_true] at hl
    exact hstep hrun (ih hl.1) (step_cases hs) (by simpa using hl.2)

theorem quiet_of_exec (hi : Quiet σ₀) (hl : labels.all (!·.cancels) = true)
    (h : exec step σ₀ labels = some (σ, tr)) : Quiet σ :=
  uncancelled_induction (P := fun _ σ _ => Quiet σ) hi (fun _ hi hs hl => hi.step hs hl) hl h

theorem written_of_exec (hp : σ₀.point = .execute) (hl : labels.all (!·.cancels) = true)
    (h : exec step σ₀ labels = some (σ, tr)) : Written σ₀ σ tr := by
  refine uncancelled_induction (P := fun _ σ tr => Written σ₀ σ tr) ?_
    (fun _ hi hs hl => hi.step hs hl) hl h
  exact ⟨rfl, fun _ => rfl, Or.inl ⟨rfl, rfl, rfl, by rw [hp]; rfl⟩⟩

/-- An uncancelled run does not depend on whether the socket was open before. -/
theorem exec_of_sockOpen (hl : labels.all (!·.cancels) = true)
    (h : exec step σ₀ labels = some (σ, tr)) (b : Bool) :
    ∃ b', exec step { σ₀ with sockOpen := b } labels = some ({ σ with sockOpen := b' }, tr) := by
  refine uncancelled_induction (P := fun as σ tr => ∃ b',
    exec step { σ₀ with sockOpen := b } as = some ({ σ with sockOpen := b' }, tr)) ?_ ?_ hl h
  · exact ⟨b, rfl⟩
  · rintro as σ tr l σ' es - ⟨b', hb'⟩ hs hl
    obtain ⟨b'', hb''⟩ := hs.of_sockOpen hl b'
    exact ⟨b'', exec_snoc.mpr ⟨_, _, _, hb', hb''.eq_some, rfl⟩⟩

/-- An uncancelled run that does not write does not depend on the buffers. -/
theorem exec_of_early (hp : σ₀.point = .execute) (hl : labels.all (!·.cancels) = true)
    (h : exec step σ₀ labels = some (σ, tr)) (hnone : writes tr = []) (b : Bool) (rb : Bytes)
    (m : HttpMessage) :
    ∃ b', exec step { σ₀ with sockOpen := b, requestBuf := rb, response := m } labels =
      some ({ σ with sockOpen := b', requestBuf := rb, response := m }, tr) := by
  revert hnone
  refine uncancelled_induction (P := fun as σ tr => Written σ₀ σ tr ∧ (writes tr = [] → ∃ b',
    exec step { σ₀ with sockOpen := b, requestBuf := rb, response := m } as =
      some ({ σ with sockOpen := b', requestBuf := rb, response := m }, tr))) ?_ ?_ hl h |>.2
  · exact ⟨written_of_exec hp List.all_nil (exec_nil σ₀), fun _ => ⟨b, rfl⟩⟩
  · rintro as σ tr l σ' es - ⟨hw, ih⟩ hs hl
    refine ⟨hw.step hs hl, fun hnone => ?_⟩
    obtain ⟨hold, hnew⟩ := List.append_eq_nil_iff.mp ((writes_append tr es).symm.trans hnone)
    obtain ⟨b', hb'⟩ := ih hold
    have hearly : σ.point.early = true := by
      rcases hw.buf with ⟨-, -, -, hearly⟩ | ⟨hsome, -⟩
      · exact hearly
      · simp [hold] at hsome
    obtain ⟨b'', hb''⟩ := hs.of_early hl hearly hnew b' rb m
    exact ⟨b'', exec_snoc.mpr ⟨_, _, _, hb', hb''.eq_some, rfl⟩⟩

/-- Between two runs the mutex is free. -/
theorem Quiet.execute (hi : Quiet σ) (hover : σ.point.over = true) (settings : Settings) :
    Quiet (σ.execute settings) := by
  refine ⟨hi.flag, ?_, hi.cancels⟩
  have hmux := hi.mux
  cases hp : σ.point <;> simp_all [State.execute, Point.over, Point.holdsMux]

/-- An object that nobody cancelled is a new one but for its socket and its buffers. -/
theorem Quiet.execute_eq (hi : Quiet σ) (hover : σ.point.over = true) (settings : Settings) :
    { σ.execute settings with sockOpen := false, requestBuf := [], response := .new } =
      State.new settings := by
  have hmux : σ.cancelMux = none := (hi.execute hover settings).mux
  simp [State.execute, State.new, hi.flag, hmux, hi.cancels]

end

theorem Settings.encode_ne_nil (x : Settings) : x.encode ≠ [] := by
  simp [Settings.encode, ascii]

/-- What the earlier runs have left of the object. -/
structure Left (σ : State) (tr : List (Turn × List Event)) : Prop where
  quiet : Quiet σ
  unwritten : (∀ p ∈ tr, writes p.2 = []) → σ.requestBuf = [] ∧ σ.response = .new
  written : (∃ p ∈ tr, writes p.2 ≠ []) → σ.requestBuf ≠ []

theorem Left.constructed : Left .constructed [] where
  quiet := ⟨rfl, rfl, rfl⟩
  unwritten _ := ⟨rfl, rfl⟩
  written h := by simp at h

section

variable {σ τ : State} {x : Turn} {es : List Event} {tr fs : List (Turn × List Event)}

/-- A turn is an uncancelled run of the object that is over. -/
theorem turn_cases (h : turn σ x = some (τ, fs)) : σ.point.over = true ∧
    x.labels.all (!·.cancels) = true ∧
      ∃ es, fs = [(x, es)] ∧ exec step (σ.execute x.settings) x.labels = some (τ, es) := by
  simp only [turn, Option.ite_none_right_eq_some] at h
  obtain ⟨⟨hover, hl⟩, h⟩ := h
  obtain ⟨⟨υ, es⟩, hrun, he⟩ := Option.map_eq_some_iff.mp h
  obtain ⟨rfl, rfl⟩ := Prod.mk.inj he
  exact ⟨hover, hl, es, rfl, hrun⟩

theorem Left.next (hi : Left σ tr) (hl : x.labels.all (!·.cancels) = true)
    (hover : σ.point.over = true)
    (h : exec step (σ.execute x.settings) x.labels = some (τ, es)) :
    Left τ (tr ++ [(x, es)]) := by
  have hw := written_of_exec rfl hl h
  refine ⟨quiet_of_exec (hi.quiet.execute hover _) hl h, fun hnone => ?_, fun hsome => ?_⟩
  · have hlast : writes es = [] := hnone (x, es) (by simp)
    obtain ⟨hbuf, hresponse⟩ := hi.unwritten fun p hp => hnone p (List.mem_append_left _ hp)
    rcases hw.buf with ⟨-, hbuf', hresponse', -⟩ | ⟨hsome, -⟩
    · exact ⟨hbuf'.trans hbuf, hresponse'.trans hresponse⟩
    · simp [hlast] at hsome
  · obtain ⟨p, hp, hwrites⟩ := hsome
    rcases hw.buf with ⟨hnone, hbuf, -, -⟩ | ⟨-, hbuf⟩
    · rw [hbuf]
      refine hi.written ?_
      rcases List.mem_append.mp hp with hold | hnew
      · exact ⟨p, hold, hwrites⟩
      · obtain rfl := List.mem_singleton.mp hnew
        exact absurd hnone hwrites
    · rw [hbuf]
      exact List.append_ne_nil_of_right_ne_nil _ (Settings.encode_ne_nil _)

/-- A run of an object that has not written, or that does not write itself, is independent. -/
theorem Left.independent (hi : Left σ tr) (hl : x.labels.all (!·.cancels) = true)
    (hover : σ.point.over = true)
    (h : exec step (σ.execute x.settings) x.labels = some (τ, es))
    (hclean : ∀ p ∈ tr, writes p.2 ≠ [] → writes es = []) : Independent x es := by
  have hw := written_of_exec rfl hl h
  by_cases hnone : writes es = []
  · obtain ⟨b, hb⟩ := exec_of_early rfl hl h hnone false [] .new
    rw [hi.quiet.execute_eq hover] at hb
    exact ⟨Or.inl hnone, _, hb⟩
  · obtain ⟨hbuf, hresponse⟩ := hi.unwritten fun p hp =>
      by_contra fun hp' => hnone (hclean p hp hp')
    obtain ⟨b, hb⟩ := exec_of_sockOpen hl h false
    have hnew := hi.quiet.execute_eq hover x.settings
    rw [← hbuf, ← hresponse] at hnew
    refine ⟨Or.inr ?_, _, hnew ▸ hb⟩
    rcases hw.buf with ⟨hold, -⟩ | ⟨hsome, -⟩
    · exact absurd hold hnone
    · rw [hsome]
      simp [State.execute, hbuf]

/-- A run that writes behind another one writes more than its own request. -/
theorem Left.not_independent (hi : Left σ tr) (hl : x.labels.all (!·.cancels) = true)
    (h : exec step (σ.execute x.settings) x.labels = some (τ, es))
    (hbefore : ∃ p ∈ tr, writes p.2 ≠ []) (hwrites : writes es ≠ []) : ¬Independent x es := by
  intro hind
  have hw := written_of_exec rfl hl h
  rcases hw.buf with ⟨hold, -⟩ | ⟨hsome, -⟩
  · exact hwrites hold
  · rcases hind.written with hnone | hone
    · exact hwrites hnone
    · rw [hone] at hsome
      have hself : x.settings.encode = σ.requestBuf ++ x.settings.encode :=
        List.singleton_inj.mp hsome
      exact hi.written hbefore (List.self_eq_append_left.mp hself)

end

/-- Every sequence of runs leaves the object as it says. -/
theorem Reuse.left {turns : List Turn} {σ : State} {tr : List (Turn × List Event)}
    (h : Reuse turns σ tr) : Left σ tr := by
  refine exec_induction (P := fun _ σ tr => Left σ tr) .constructed ?_ h
  intro as σ tr x τ fs _ hi hs
  obtain ⟨hover, hl, es, rfl, hrun⟩ := turn_cases hs
  exact hi.next hl hover hrun

/-- The runs of one object are independent exactly when at most one of them comes to its
write. -/
theorem independent_iff {turns : List Turn} {σ : State} {tr : List (Turn × List Event)}
    (h : Reuse turns σ tr) :
    (∀ p ∈ tr, Independent p.1 p.2) ↔
      tr.Pairwise fun p q => writes p.2 ≠ [] → writes q.2 = [] := by
  refine exec_induction (P := fun _ _ tr => (∀ p ∈ tr, Independent p.1 p.2) ↔
    tr.Pairwise fun p q => writes p.2 ≠ [] → writes q.2 = []) ?_ ?_ h
  · simp
  · intro as σ tr x τ fs hrun ih hs
    have hi : Left σ tr := Reuse.left hrun
    obtain ⟨hover, hl, es, rfl, hexec⟩ := turn_cases hs
    rw [List.pairwise_append, List.forall_mem_append, ih]
    simp only [List.forall_mem_singleton, List.pairwise_singleton, true_and]
    refine and_congr_right fun _ => ⟨fun hind p hp hwrites => ?_, fun hclean => ?_⟩
    · by_contra hne
      exact hi.not_independent hl hexec ⟨p, hp, hwrites⟩ hne hind
    · exact hi.independent hl hover hexec hclean

/-- A successful run of the object. -/
def successTurn : Turn := ⟨plainSettings, successSchedule⟩

/-- A run in which the name of the host cannot be resolved. -/
def unresolvedTurn : Turn := ⟨plainSettings, unresolvedSchedule⟩

set_option maxRecDepth 4000 in
/-- A run after a failure to resolve is as good as a first one. -/
theorem retry_independent : ∃ σ tr, Reuse [unresolvedTurn, successTurn] σ tr ∧
    ∀ p ∈ tr, Independent p.1 p.2 := by
  obtain ⟨σ, es, fs, hrun, hnone⟩ : ∃ σ es fs, Reuse [unresolvedTurn, successTurn] σ
      [(unresolvedTurn, es), (successTurn, fs)] ∧ writes es = [] := ⟨_, _, _, rfl, rfl⟩
  refine ⟨σ, _, hrun, (independent_iff hrun).mpr ?_⟩
  simp [hnone]

/-- A run up to the start of its write. -/
def writeTurn : Turn :=
  ⟨plainSettings, List.replicate 5 (.run 0) ++ passSchedule .success [] ++
    passSchedule .success []⟩

/-- The same run, whose write then fails. -/
def brokenTurn : Turn :=
  ⟨plainSettings, writeTurn.labels ++ [.deliver ⟨104, .system⟩ [], .run 0, .run 0]⟩

/-- A run after a failure to write writes the first request once more. -/
theorem retry_dependent : ∃ σ tr, Reuse [brokenTurn, writeTurn] σ tr ∧
    ¬∀ p ∈ tr, Independent p.1 p.2 := by
  obtain ⟨σ, es, fs, hrun, hfs⟩ : ∃ σ es fs, Reuse [brokenTurn, writeTurn] σ
      [(brokenTurn, es), (writeTurn, fs)] ∧
        writes fs = [plainSettings.encode ++ plainSettings.encode] := ⟨_, _, _, rfl, rfl⟩
  refine ⟨σ, _, hrun, fun hall => ?_⟩
  have hind : Independent writeTurn fs := hall (writeTurn, fs) (by simp)
  rcases hind.written with hnone | hone
  · simp [hfs] at hnone
  · rw [hfs] at hone
    have hself : plainSettings.encode ++ plainSettings.encode = plainSettings.encode :=
      List.singleton_inj.mp hone
    exact Settings.encode_ne_nil _ (List.append_right_eq_self.mp hself)

end BoostAsio.HttpRequest

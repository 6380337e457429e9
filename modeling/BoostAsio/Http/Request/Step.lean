import BoostAsio.Http.Request.State

/-!
# What one step of a request does

`Step` names every way a label can be executed, with the point it leaves, what it has
read there and the exact successor. The status line and the header lines are read by the
steps that start the next operation.
-/

namespace BoostAsio.HttpRequest

namespace State

variable (σ : State) (p : Point) (t u : ThreadId) (c : CancelPoint) (owner : Option Owner)
  (m : HttpMessage) (on : Stage → Bool)

@[simp] theorem point_goto : (σ.goto p).point = p := rfl
@[simp] theorem response_goto : (σ.goto p).response = σ.response := rfl
@[simp] theorem requestBuf_goto : (σ.goto p).requestBuf = σ.requestBuf := rfl
@[simp] theorem cancels_goto : (σ.goto p).cancels t = σ.cancels t := rfl
@[simp] theorem cancelMux_goto : (σ.goto p).cancelMux = σ.cancelMux := rfl
@[simp] theorem wasCancelled_goto : (σ.goto p).wasCancelled = σ.wasCancelled := rfl
@[simp] theorem sockOpen_goto : (σ.goto p).sockOpen = σ.sockOpen := rfl

@[simp] theorem point_cancelGoto : (σ.cancelGoto t c).point = σ.point := rfl
@[simp] theorem cancels_cancelGoto :
    (σ.cancelGoto t c).cancels u = if u = t then c else σ.cancels u := Function.update_apply ..
@[simp] theorem cancelMux_cancelGoto : (σ.cancelGoto t c).cancelMux = σ.cancelMux := rfl
@[simp] theorem wasCancelled_cancelGoto :
    (σ.cancelGoto t c).wasCancelled = σ.wasCancelled := rfl
@[simp] theorem response_cancelGoto : (σ.cancelGoto t c).response = σ.response := rfl
@[simp] theorem sockOpen_cancelGoto : (σ.cancelGoto t c).sockOpen = σ.sockOpen := rfl

@[simp] theorem point_setMux : (σ.setMux owner).point = σ.point := rfl
@[simp] theorem requestBuf_setMux : (σ.setMux owner).requestBuf = σ.requestBuf := rfl
@[simp] theorem cancels_setMux : (σ.setMux owner).cancels t = σ.cancels t := rfl
@[simp] theorem cancelMux_setMux : (σ.setMux owner).cancelMux = owner := rfl
@[simp] theorem wasCancelled_setMux : (σ.setMux owner).wasCancelled = σ.wasCancelled := rfl
@[simp] theorem response_setMux : (σ.setMux owner).response = σ.response := rfl
@[simp] theorem sockOpen_setMux : (σ.setMux owner).sockOpen = σ.sockOpen := rfl

@[simp] theorem requestBuf_setResponse : (σ.setResponse m).requestBuf = σ.requestBuf := rfl
@[simp] theorem cancels_setResponse : (σ.setResponse m).cancels t = σ.cancels t := rfl
@[simp] theorem cancelMux_setResponse : (σ.setResponse m).cancelMux = σ.cancelMux := rfl
@[simp] theorem wasCancelled_setResponse :
    (σ.setResponse m).wasCancelled = σ.wasCancelled := rfl
@[simp] theorem sockOpen_setResponse : (σ.setResponse m).sockOpen = σ.sockOpen := rfl

@[simp] theorem point_openSock : σ.openSock.point = σ.point := rfl
@[simp] theorem requestBuf_openSock : σ.openSock.requestBuf = σ.requestBuf := rfl
@[simp] theorem response_openSock : σ.openSock.response = σ.response := rfl
@[simp] theorem cancels_openSock : σ.openSock.cancels t = σ.cancels t := rfl
@[simp] theorem cancelMux_openSock : σ.openSock.cancelMux = σ.cancelMux := rfl
@[simp] theorem wasCancelled_openSock : σ.openSock.wasCancelled = σ.wasCancelled := rfl
@[simp] theorem sockOpen_openSock : σ.openSock.sockOpen = true := rfl

@[simp] theorem cancels_encodeRequest : σ.encodeRequest.cancels t = σ.cancels t := rfl
@[simp] theorem cancelMux_encodeRequest : σ.encodeRequest.cancelMux = σ.cancelMux := rfl
@[simp] theorem wasCancelled_encodeRequest :
    σ.encodeRequest.wasCancelled = σ.wasCancelled := rfl
@[simp] theorem sockOpen_encodeRequest : σ.encodeRequest.sockOpen = σ.sockOpen := rfl

/-- `cancel` changes nothing but what is pending. -/
theorem cancelPending_eq : ∃ p, σ.cancelPending on = σ.goto p := by
  unfold cancelPending
  split
  · split
    · exact ⟨_, rfl⟩
    · exact ⟨_, rfl⟩
  · exact ⟨_, rfl⟩

@[simp] theorem cancels_cancelPending : (σ.cancelPending on).cancels t = σ.cancels t := by
  obtain ⟨p, hp⟩ := σ.cancelPending_eq on
  rw [hp, cancels_goto]

@[simp] theorem cancelMux_cancelPending : (σ.cancelPending on).cancelMux = σ.cancelMux := by
  obtain ⟨p, hp⟩ := σ.cancelPending_eq on
  rw [hp, cancelMux_goto]

@[simp] theorem wasCancelled_cancelPending :
    (σ.cancelPending on).wasCancelled = σ.wasCancelled := by
  obtain ⟨p, hp⟩ := σ.cancelPending_eq on
  rw [hp, wasCancelled_goto]

@[simp] theorem response_cancelPending : (σ.cancelPending on).response = σ.response := by
  obtain ⟨p, hp⟩ := σ.cancelPending_eq on
  rw [hp, response_goto]

@[simp] theorem sockOpen_cancelPending : (σ.cancelPending on).sockOpen = σ.sockOpen := by
  obtain ⟨p, hp⟩ := σ.cancelPending_eq on
  rw [hp, sockOpen_goto]

/-- A cancelled operation stays pending. -/
theorem point_cancelPending :
    (σ.cancelPending on).point = σ.point ∨
      ∃ stage cancelled, σ.point = .pending stage cancelled ∧
        (σ.cancelPending on).point = .pending stage true := by
  cases hp : σ.point with
  | pending stage cancelled =>
    cases hon : on stage with
    | true => exact Or.inr ⟨stage, cancelled, rfl, by simp [cancelPending, hp, hon]⟩
    | false => exact Or.inl (by simp [cancelPending, hp, hon])
  | _ => exact Or.inl (by simp [cancelPending, hp])

/-- The state in which Asio leaves the request when it completes an operation. -/
def complete (stage : Stage) (ec : ErrorCode) (received : Bytes) : State :=
  (σ.setResponse (if stage.reads then
    σ.response.withBuf (σ.response.messageBuf ++ received) else σ.response)).goto
      (.handler stage ec)

section

variable (stage : Stage) (ec : ErrorCode) (received : Bytes)

@[simp] theorem point_complete : (σ.complete stage ec received).point = .handler stage ec := rfl
@[simp] theorem requestBuf_complete :
    (σ.complete stage ec received).requestBuf = σ.requestBuf := rfl
@[simp] theorem cancels_complete :
    (σ.complete stage ec received).cancels t = σ.cancels t := rfl
@[simp] theorem cancelMux_complete :
    (σ.complete stage ec received).cancelMux = σ.cancelMux := rfl
@[simp] theorem wasCancelled_complete :
    (σ.complete stage ec received).wasCancelled = σ.wasCancelled := rfl
@[simp] theorem sockOpen_complete :
    (σ.complete stage ec received).sockOpen = σ.sockOpen := rfl

end

end State

/-- Every executable step, by the point it leaves. -/
inductive Step (σ : State) : Label → State → List Event → Prop
  | executeThrows {n what} (hpoint : σ.point = .execute)
      (hcheck : σ.settings.check = .error what) :
      Step σ (.run n) (σ.goto (.thrown (.runtimeError what))) []
  | execute {n} (hpoint : σ.point = .execute) (hcheck : σ.settings.check = .ok ()) :
      Step σ (.run n) (σ.goto (.checkLock .resolve)) []
  | checkLock {n next} (hpoint : σ.point = .checkLock next) (hfree : σ.cancelMux = none) :
      Step σ (.run n) ((σ.setMux (some .request)).goto (.checkFlag next)) []
  | checkCancelled {n next} (hpoint : σ.point = .checkFlag next)
      (hflag : σ.wasCancelled = true) : Step σ (.run n) (σ.goto .abortUnlock) [.stopped]
  | checkPassed {n next} (hpoint : σ.point = .checkFlag next)
      (hflag : σ.wasCancelled = false) : Step σ (.run n) (σ.goto (.checkUnlock next)) []
  | checkUnlock {n next} (hpoint : σ.point = .checkUnlock next) :
      Step σ (.run n) ((σ.setMux none).goto (.start next)) []
  | abortUnlock {n} (hpoint : σ.point = .abortUnlock) :
      Step σ (.run n) ((σ.setMux none).goto (.finish .operationAborted)) []
  | startResolve {n} (hpoint : σ.point = .start .resolve) :
      Step σ (.run n) (σ.goto (.pending .resolve false))
        [.started (.asyncResolve σ.settings.host (decimal σ.settings.port.toNat))]
  | startConnect {n} (hpoint : σ.point = .start .connect) :
      Step σ (.run n) (σ.openSock.goto (.pending .connect false)) [.started .asyncConnect]
  | startWrite {n} (hpoint : σ.point = .start .write) :
      Step σ (.run n) (σ.encodeRequest.goto (.pending .write false))
        [.started (.asyncWrite σ.encodeRequest.requestBuf)]
  | startStatusLine {n} (hpoint : σ.point = .start .statusLine) :
      Step σ (.run n) (σ.goto (.pending .statusLine false))
        [.started (.asyncReadUntil (ascii "\r\n"))]
  | shutdownThrows {ec} (hpoint : σ.point = .start .statusLine) :
      Step σ (.shutdownThrows ec) (σ.goto (.thrown (.systemError ec))) []
  | startHeaders {n m} (hpoint : σ.point = .start .headers)
      (hread : readStatusLine σ.response = .ok m) :
      Step σ (.run n) ((σ.setResponse m).goto (.pending .headers false))
        [.started (.asyncReadUntil (ascii "\r\n\r\n"))]
  | rejected {n code} (hpoint : σ.point = .start .headers)
      (hread : readStatusLine σ.response = .error code) :
      Step σ (.run n) (σ.goto (.finish code)) [.rejected]
  | startBody {n m} (hpoint : σ.point = .start .body)
      (hread : readHeaders n σ.response = some m) :
      Step σ (.run n) ((σ.setResponse m).goto (.pending .body false)) [.started .asyncRead]
  | deliver {stage cancelled ec received} (hpoint : σ.point = .pending stage cancelled) :
      Step σ (.deliver ec received) (σ.complete stage ec received) [.delivered stage ec]
  | handlerFailed {n stage next ec} (hpoint : σ.point = .handler stage ec)
      (hnext : stage.next = some next) (hec : ec.value ≠ 0) :
      Step σ (.run n) (σ.goto (.finish ec)) []
  | handlerNext {n stage next ec} (hpoint : σ.point = .handler stage ec)
      (hnext : stage.next = some next) (hec : ec.value = 0) :
      Step σ (.run n) (σ.goto (.checkLock next)) []
  | handlerLast {n stage ec} (hpoint : σ.point = .handler stage ec)
      (hnext : stage.next = none) :
      Step σ (.run n) (σ.goto (.finish (onResponseBodyReceived ec))) []
  | print {n ec} (hpoint : σ.point = .finish ec) (hec : ec.value ≠ 0) :
      Step σ (.run n) (σ.goto .ended) [.printed ec]
  | callback {n ec} (hpoint : σ.point = .finish ec) (hec : ec.value = 0) :
      Step σ (.run n) (σ.goto .ended) [.callback σ.response ec]
  | cancel {t} (ht : σ.cancels t = .idle) : Step σ (.cancel t) (σ.cancelGoto t .lock) []
  | cancelLock {t} (ht : σ.cancels t = .lock) (hfree : σ.cancelMux = none) :
      Step σ (.runCancel t) ((σ.setMux (some (.canceller t))).cancelGoto t .setFlag) []
  | cancelSetFlag {t} (ht : σ.cancels t = .setFlag) :
      Step σ (.runCancel t) ({ σ with wasCancelled := true }.cancelGoto t .cancelResolver) []
  | cancelResolver {t} (ht : σ.cancels t = .cancelResolver) :
      Step σ (.runCancel t) ((σ.cancelPending (· = .resolve)).cancelGoto t .cancelSocket) []
  | cancelSocket {t} (ht : σ.cancels t = .cancelSocket) (hopen : σ.sockOpen = true) :
      Step σ (.runCancel t) ((σ.cancelPending (· ≠ .resolve)).cancelGoto t .unlock) []
  | cancelClosed {t} (ht : σ.cancels t = .cancelSocket) (hopen : σ.sockOpen = false) :
      Step σ (.runCancel t) (σ.cancelGoto t .unlock) []
  | cancelUnlock {t} (ht : σ.cancels t = .unlock) :
      Step σ (.runCancel t) ((σ.setMux none).cancelGoto t .idle) []

private theorem start_cases {σ σ' : State} {es : List Event} {n : Nat} {next : Stage}
    (hpoint : σ.point = .start next) (h : start n σ next = some (σ', es)) :
    Step σ (.run n) σ' es := by
  cases next with
  | resolve => cases h; exact .startResolve hpoint
  | connect => cases h; exact .startConnect hpoint
  | write => cases h; exact .startWrite hpoint
  | statusLine => cases h; exact .startStatusLine hpoint
  | headers =>
    simp only [start] at h
    split at h
    · next code hread => cases h; exact .rejected hpoint hread
    · next m hread => cases h; exact .startHeaders hpoint hread
  | body =>
    obtain ⟨m, hread, hm⟩ := Option.map_eq_some_iff.mp h
    cases hm
    exact .startBody hpoint hread

private theorem handle_cases {σ σ' : State} {es : List Event} {stage : Stage} {ec : ErrorCode}
    (hpoint : σ.point = .handler stage ec) (h : handle σ stage ec = (σ', es)) (n : Nat) :
    Step σ (.run n) σ' es := by
  cases hnext : stage.next with
  | none =>
    simp only [handle, hnext] at h
    cases h
    exact .handlerLast hpoint hnext
  | some next =>
    by_cases hec : ec.value = 0
    · simp only [handle, hnext, onError, hec, ne_eq, not_true_eq_false, if_false] at h
      cases h
      exact .handlerNext hpoint hnext hec
    · simp only [handle, hnext, onError, hec, ne_eq, not_false_eq_true, if_true] at h
      cases h
      exact .handlerFailed hpoint hnext hec

private theorem finish_cases {σ σ' : State} {es : List Event} {ec : ErrorCode}
    (hpoint : σ.point = .finish ec) (h : onFinish σ ec = (σ', es)) (n : Nat) :
    Step σ (.run n) σ' es := by
  by_cases hec : ec.value = 0
  · simp only [onFinish, hec, ne_eq, not_true_eq_false, if_false] at h
    cases h
    exact .callback hpoint hec
  · simp only [onFinish, hec, ne_eq, not_false_eq_true, if_true] at h
    cases h
    exact .print hpoint hec

private theorem run_cases {σ σ' : State} {es : List Event} {n : Nat} {p : Point}
    (hpoint : σ.point = p) (h : advance n σ p = some (σ', es)) : Step σ (.run n) σ' es := by
  cases p with
  | execute =>
    simp only [advance] at h
    split at h
    · next what hcheck => cases h; exact .executeThrows hpoint hcheck
    · next hcheck => cases h; exact .execute hpoint hcheck
  | checkLock next =>
    simp only [advance, Option.ite_none_right_eq_some] at h
    obtain ⟨hfree, h⟩ := h
    cases h
    exact .checkLock hpoint hfree
  | checkFlag next =>
    cases hflag : σ.wasCancelled with
    | true =>
      simp only [advance, isCancelled, hflag, if_true] at h
      cases h
      exact .checkCancelled hpoint hflag
    | false =>
      simp only [advance, isCancelled, hflag, Bool.false_eq_true, if_false] at h
      cases h
      exact .checkPassed hpoint hflag
  | checkUnlock next => cases h; exact .checkUnlock hpoint
  | abortUnlock => cases h; exact .abortUnlock hpoint
  | start next => exact start_cases hpoint h
  | handler stage ec => exact handle_cases hpoint (Option.some.inj h) n
  | finish ec => exact finish_cases hpoint (Option.some.inj h) n
  | pending stage cancelled => cases h
  | thrown e => cases h
  | ended => cases h

private theorem cancel_cases {σ σ' : State} {t : ThreadId} {c : CancelPoint}
    (ht : σ.cancels t = c) (h : advanceCancel σ t c = some σ') :
    Step σ (.runCancel t) σ' [] := by
  cases c with
  | idle => cases h
  | lock =>
    simp only [advanceCancel, Option.ite_none_right_eq_some] at h
    obtain ⟨hfree, h⟩ := h
    cases h
    exact .cancelLock ht hfree
  | setFlag => cases h; exact .cancelSetFlag ht
  | cancelResolver => cases h; exact .cancelResolver ht
  | cancelSocket =>
    cases hopen : σ.sockOpen with
    | true =>
      simp only [advanceCancel, hopen, if_true] at h
      cases h
      exact .cancelSocket ht hopen
    | false =>
      simp only [advanceCancel, hopen, Bool.false_eq_true, if_false] at h
      cases h
      exact .cancelClosed ht hopen
  | unlock => cases h; exact .cancelUnlock ht

/-- The executable step does nothing else. -/
theorem step_cases {σ σ' : State} {es : List Event} {l : Label}
    (h : step σ l = some (σ', es)) : Step σ l σ' es := by
  cases l with
  | run n => exact run_cases rfl h
  | deliver ec received =>
    simp only [step] at h
    split at h
    · next stage cancelled hpoint => cases h; exact .deliver hpoint
    · cases h
  | shutdownThrows ec =>
    simp only [step, Option.ite_none_right_eq_some] at h
    obtain ⟨hpoint, h⟩ := h
    cases h
    exact .shutdownThrows hpoint
  | cancel t =>
    simp only [step, Option.ite_none_right_eq_some] at h
    obtain ⟨ht, h⟩ := h
    cases h
    exact .cancel ht
  | runCancel t =>
    obtain ⟨τ, hτ, he⟩ := Option.map_eq_some_iff.mp h
    cases he
    exact cancel_cases rfl hτ

/-- The executable step does each of these. -/
theorem Step.eq_some {σ σ' : State} {es : List Event} {l : Label} (h : Step σ l σ' es) :
    step σ l = some (σ', es) := by
  cases h with
  | executeThrows hpoint hcheck | execute hpoint hcheck =>
    simp only [step, hpoint, advance, hcheck]
  | checkLock hpoint hfree => simp only [step, hpoint, advance, hfree, if_true]
  | checkCancelled hpoint hflag | checkPassed hpoint hflag =>
    simp [step, hpoint, advance, isCancelled, hflag]
  | checkUnlock hpoint | abortUnlock hpoint | startResolve hpoint | startConnect hpoint
  | startWrite hpoint | startStatusLine hpoint => simp only [step, hpoint, advance, start]
  | shutdownThrows hpoint => simp only [step, hpoint, if_true]
  | startHeaders hpoint hread | rejected hpoint hread =>
    simp only [step, hpoint, advance, start, hread]
  | startBody hpoint hread => simp only [step, hpoint, advance, start, hread, Option.map_some]
  | deliver hpoint =>
    simp only [step, hpoint]
    rfl
  | handlerFailed hpoint hnext hec | handlerNext hpoint hnext hec =>
    simp [step, hpoint, advance, handle, hnext, onError, hec]
  | handlerLast hpoint hnext => simp only [step, hpoint, advance, handle, hnext]
  | print hpoint hec | callback hpoint hec => simp [step, hpoint, advance, onFinish, hec]
  | cancel ht => simp only [step, ht, if_true]
  | cancelLock ht hfree => simp [step, ht, advanceCancel, hfree]
  | cancelSocket ht hopen | cancelClosed ht hopen => simp [step, ht, advanceCancel, hopen]
  | cancelSetFlag ht | cancelResolver ht | cancelUnlock ht =>
    simp only [step, ht, advanceCancel, Option.map_some]

end BoostAsio.HttpRequest

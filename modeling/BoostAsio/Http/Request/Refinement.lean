import BoostAsio.Http.Request.Notification
import BoostAsio.Http.Request.Stages

/-!
# The response pipeline is a run of the request

The composition of the three reads and their handlers is carried out by the request step
by step: Asio delivers what each read has received, nobody cancels, and the request ends
with the same response in its callback or the same code printed.
-/

namespace BoostAsio.HttpRequest

open BoostAsio.System

/-- How `OnFinish` shows the result of the pipeline. -/
def Shows (result : Except ErrorCode HttpMessage) (tr : List Event) : Prop :=
  match result with
  | .ok m => .callback m .success ∈ tr
  | .error code => .printed code ∈ tr

/-- The request can end with this result. -/
def Ends (σ : State) (result : Except ErrorCode HttpMessage) : Prop :=
  ∃ τ tr, Reaches step σ τ tr ∧ τ.point = .ended ∧ Shows result tr

variable {σ : State} {result : Except ErrorCode HttpMessage}

/-- A request that can take a step ends as its successor can. -/
theorem Ends.head {τ : State} {l : Label} {es : List Event} (h : Ends τ result)
    (hs : Step σ l τ es) : Ends σ result := by
  obtain ⟨υ, tr, hreach, hended, hshow⟩ := h
  refine ⟨υ, es ++ tr, hreach.head hs.eq_some, hended, ?_⟩
  cases result with
  | ok m => exact List.mem_append_right _ hshow
  | error code => exact List.mem_append_right _ hshow

/-- A failure that has come to `OnFinish` is printed. -/
theorem ends_of_finish {code : ErrorCode} (hpoint : σ.point = .finish code)
    (hcode : code.value ≠ 0) : Ends σ (.error code) :=
  ⟨_, _, (Reaches.refl _).head (Step.print (n := 0) hpoint hcode).eq_some, rfl,
    List.mem_singleton_self _⟩

/-- A failure that is delivered in front of the last stage is printed. -/
theorem ends_of_failed {stage : Stage} (next : Stage) {ec : ErrorCode}
    (hpoint : σ.point = .pending stage false) (hnext : stage.next = some next)
    (hec : ec.value ≠ 0) : Ends σ (.error ec) := by
  have hfinish : Ends ((σ.complete stage ec []).goto (.finish ec)) (.error ec) :=
    ends_of_finish rfl hec
  exact (hfinish.head (.handlerFailed (n := 0) rfl hnext hec)).head (.deliver hpoint)

/-- An uncancelled request passes the check in front of an operation. -/
theorem ends_of_check {next : Stage} (hpoint : σ.point = .checkLock next)
    (hflag : σ.wasCancelled = false) (hmux : σ.cancelMux = none)
    (h : Ends (σ.goto (.start next)) result) : Ends σ result := by
  let locked := σ.setMux (some .request)
  have hfree : (locked.setMux none).goto (.start next) = σ.goto (.start next) := by
    simp only [State.goto, State.setMux, locked, hmux]
  have hunlock : Ends (locked.goto (.checkUnlock next)) result := by
    refine Ends.head ?_ (.checkUnlock (n := 0) rfl)
    exact hfree ▸ h
  have hcheck : Ends (locked.goto (.checkFlag next)) result :=
    hunlock.head (.checkPassed (n := 0) rfl hflag)
  exact hcheck.head (.checkLock (n := 0) hpoint hmux)

/-- A success that is delivered to an uncancelled request leads to the next operation. -/
theorem ends_of_passed {stage : Stage} (next : Stage) (hpoint : σ.point = .pending stage false)
    (hnext : stage.next = some next) (hflag : σ.wasCancelled = false)
    (hmux : σ.cancelMux = none) (received : Bytes)
    (h : Ends ((σ.complete stage .success received).goto (.start next)) result) :
    Ends σ result := by
  have hcheck : Ends ((σ.complete stage .success received).goto (.checkLock next)) result :=
    ends_of_check rfl hflag hmux h
  exact (hcheck.head (.handlerNext (n := 0) rfl hnext rfl)).head (.deliver hpoint)

/-- The first read and its handler: a status line that is read leads to the second read. -/
theorem ends_of_receiveStatusLine (chunks : List Bytes)
    (hpoint : σ.point = .pending .statusLine false) (hflag : σ.wasCancelled = false)
    (hmux : σ.cancelMux = none)
    (herror : ∀ code, receiveStatusLine σ.response chunks = .error code →
      result = .error code)
    (hok : ∀ m rest, receiveStatusLine σ.response chunks = .ok (m, rest) →
      Ends ((σ.setResponse m).goto (.pending .headers false)) result) : Ends σ result := by
  by_cases hi : ascii "\r\n" <:+: σ.response.messageBuf ++ chunks.flatten
  · obtain ⟨front, rest, hread, -, ⟨received, rfl⟩, -⟩ := readUntil_success hi
    have hstage : receiveStatusLine σ.response chunks =
        (readStatusLine (σ.response.withBuf (σ.response.messageBuf ++ received))).map
          fun m => (m, rest) := by simp [receiveStatusLine, hread]
    refine ends_of_passed .headers hpoint rfl hflag hmux received ?_
    cases hline : readStatusLine (σ.response.withBuf (σ.response.messageBuf ++ received)) with
    | error code =>
      have hcode : code.value ≠ 0 := by
        rw [readStatusLine_error hline]
        decide
      rw [hline] at hstage
      rw [herror code hstage]
      exact (ends_of_finish rfl hcode).head (.rejected (n := 0) rfl hline)
    | ok m =>
      rw [hline] at hstage
      exact (hok m rest hstage).head (.startHeaders (n := 0) rfl hline)
  · rw [herror _ (receiveStatusLine_eof hi)]
    exact ends_of_failed .headers hpoint rfl eof_failed

/-- The second read and its handler: header lines that are read lead to the third read. -/
theorem ends_of_receiveHeaders {fuel : Nat} {chunks : List Bytes}
    {head : Except ErrorCode (HttpMessage × List Bytes)}
    (hpoint : σ.point = .pending .headers false) (hflag : σ.wasCancelled = false)
    (hmux : σ.cancelMux = none) (hhead : receiveHeaders fuel σ.response chunks = some head)
    (herror : ∀ code, head = .error code → result = .error code)
    (hok : ∀ m rest, head = .ok (m, rest) →
      Ends ((σ.setResponse m).goto (.pending .body false)) result) : Ends σ result := by
  by_cases hi : ascii "\r\n\r\n" <:+: σ.response.messageBuf ++ chunks.flatten
  · obtain ⟨front, rest, hread, -, ⟨received, rfl⟩, -⟩ := readUntil_success hi
    have hstage : (readHeaders fuel
        (σ.response.withBuf (σ.response.messageBuf ++ received))).map
          (fun m => Except.ok (m, rest)) = some head := by
      rw [← hhead]
      simp only [receiveHeaders, hread, onHeadersReceived_success, Option.map_map]
      rfl
    obtain ⟨m, hm, rfl⟩ := Option.map_eq_some_iff.mp hstage
    refine ends_of_passed .body hpoint rfl hflag hmux received ?_
    exact (hok m rest rfl).head (.startBody rfl hm)
  · rw [receiveHeaders_eof hi] at hhead
    rw [herror _ (Option.some.inj hhead).symm]
    exact ends_of_failed .body hpoint rfl eof_failed

/-- Whatever the pipeline makes of a response, the request can end with it. -/
theorem ends_of_respond {fuel : Nat} {chunks : List Bytes}
    (hpoint : σ.point = .pending .statusLine false) (hflag : σ.wasCancelled = false)
    (hmux : σ.cancelMux = none) (h : respond fuel σ.response chunks = some result) :
    Ends σ result := by
  obtain ⟨head, hhead, hbody⟩ := Option.map_eq_some_iff.mp h
  refine ends_of_receiveStatusLine chunks hpoint hflag hmux (fun code hstage => ?_)
    (fun m rest hstage => ?_)
  · rw [respondHead_of_error hstage] at hhead
    cases hhead
    exact hbody.symm
  · rw [respondHead_of_ok hstage] at hhead
    refine ends_of_receiveHeaders rfl hflag hmux hhead (fun code he => ?_) (fun m' rest' he => ?_)
    · subst he
      exact hbody.symm
    · subst he
      cases hbody
      let waiting := ((σ.setResponse m).setResponse m').goto (.pending .body false)
      have hcallback : Ends ((waiting.complete .body .eof rest'.flatten).goto
          (.finish (onResponseBodyReceived .eof)))
          (.ok (m'.withBuf (m'.messageBuf ++ rest'.flatten))) :=
        ⟨_, _, (Reaches.refl _).head (Step.callback (n := 0) rfl rfl).eq_some, rfl,
          List.mem_singleton_self _⟩
      exact (hcallback.head (.handlerLast (n := 0) rfl rfl)).head (.deliver rfl)

end BoostAsio.HttpRequest

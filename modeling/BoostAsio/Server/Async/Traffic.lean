import BoostAsio.Server.Async.Connection

/-!
# What the services read and send

Each step of the server in terms of the bytes that it takes from a connection and gives to it:
who reads them, which handler runs behind the read, and where a response comes from.
-/

namespace BoostAsio.AsyncTcpServer

/-- What a step reads for a service. -/
def Label.read (v : ServiceId) : Label → Bytes
  | .deliver _ r .read _ received => if r = v then received else []
  | .deliver _ _ (.write _) _ _ | .start | .stop | .accept _ _ _ | .transmit _ _ _ | .run _ => []

/-- What a step sends through a socket. -/
def Label.sends (σ : State) (sock : SocketId) : Label → Bytes
  | .transmit v sent n =>
    if σ.sock v = sock then ((σ.services v).response.drop sent).take n else []
  | .start | .stop | .accept _ _ _ | .deliver _ _ _ _ _ | .run _ => []

/-- Points at which a handler takes up the result of its operation. -/
def Frame.takesResult : Frame → Bool
  | .onAccept _ _ | .onRequestReceived _ _ | .onResponseSent _ _ => true
  | .unborn | .idle | .exited | .testStopped | .initAccept | .closeAcceptor => false
  | .startWrite _ | .onFinish _ => false

section

variable {size : Nat} {σ σ' : State} {l : Label} {es : List Event} {v : ServiceId}
  {sock : SocketId} {t : ThreadId} {ec : ErrorCode}

theorem Step.request_eq (h : Step size σ l σ' es) (hv : v < σ.count) :
    (σ'.services v).request = (σ.services v).request ++ l.read v := by
  cases h with
  | serve => simp [Label.read, hv.ne]
  | @deliver t r op ec received =>
    by_cases hr : v = r
    · subst hr
      cases op <;> simp [Label.read]
    · cases op <;> simp [Label.read, hr, Ne.symm hr]
  | @transmit r | @respond t ec r | @startWrite t r | @finish t r =>
    by_cases hr : v = r <;> simp [Label.read, hr]
  | _ => simp [Label.read]

theorem Step.sent_eq (h : Step size σ l σ' es) :
    σ'.sent sock = σ.sent sock ++ l.sends σ sock := by
  cases h with
  | @transmit v sent n bytes hop hbytes =>
    by_cases hsock : sock = (σ.services v).sock
    · simp [Label.sends, State.sock, hsock, hbytes]
    · simp [Label.sends, State.sock, hsock, Ne.symm hsock]
  | _ => simp [Label.sends]

/-- A service is created for an accept that has succeeded. -/
theorem Step.born (h : Step size σ l σ' es) (hv : v < σ'.count) :
    v < σ.count ∨ v = σ.count ∧ (σ'.services v).request = [] ∧ (σ'.services v).response = [] ∧
      ∃ t ec, σ.threads t = .onAccept ec (σ'.sock v) ∧ ec.value = 0 := by
  cases h with
  | @serve t ec sock ht hec =>
    rcases Nat.lt_succ_iff_lt_or_eq.mp hv with hlt | rfl
    · exact Or.inl hlt
    · refine Or.inr ⟨rfl, by simp, by simp, t, ec, ?_, hec⟩
      simpa [State.sock] using ht
  | _ => exact Or.inl hv

/-- A thread takes up the result of a completion that is handed to it, and comes to no such point
by another step. -/
theorem Step.new_result (h : Step size σ l σ' es) (t : ThreadId) :
    σ'.threads t = σ.threads t ∨
    (∃ sock ec, l = .accept t sock ec ∧ σ'.threads t = .onAccept ec sock) ∨
    (∃ v op ec received, l = .deliver t v op ec received ∧ σ'.threads t = op.handler ec v) ∨
    (σ'.threads t).takesResult = false := by
  cases h with
  | @accept u sock ec =>
    by_cases hu : t = u
    · exact Or.inr (Or.inl ⟨sock, ec, hu ▸ rfl, by simp [hu]⟩)
    · exact Or.inl (by simp [hu])
  | @deliver u v op ec received =>
    by_cases hu : t = u
    · exact Or.inr (Or.inr (Or.inl ⟨v, op, ec, received, hu ▸ rfl, by simp [hu]⟩))
    · exact Or.inl (by simp [hu])
  | listen | firstAccept | stopAcceptor | stopService | join | transmit => exact Or.inl rfl
  | createThread =>
    by_cases hu : t = σ.pool
    · exact Or.inr (Or.inr (Or.inr (by simp [hu, Frame.takesResult])))
    · exact Or.inl (by simp [hu])
  | @exit u | @serve u | @acceptFailed u | @goOn u | @giveUp u | @initAccept u | @close u
  | @readFailed u | @respond u | @startWrite u | @responseSent u | @finish u =>
    by_cases hu : t = u
    · exact Or.inr (Or.inr (Or.inr (by simp [hu, Frame.takesResult])))
    · exact Or.inl (by simp [hu])

/-- An accept is handled behind its completion. -/
theorem Step.new_onAccept (h : Step size σ l σ' es)
    (ht : σ'.threads t = .onAccept ec sock) :
    σ.threads t = .onAccept ec sock ∨ l = .accept t sock ec := by
  rcases h.new_result t with hsame | ⟨sock', ec', hl, hnew⟩ | ⟨v, op, ec', received, hl, hnew⟩ |
    hother
  · exact Or.inl (hsame ▸ ht)
  · obtain ⟨rfl, rfl⟩ := Frame.onAccept.inj (hnew.symm.trans ht)
    exact Or.inr hl
  · rw [ht] at hnew
    cases op <;> cases hnew
  · rw [ht] at hother
    cases hother

/-- A socket that is free was free before. -/
theorem Step.free (h : Step size σ l σ' es) (hs : sock ∈ σ'.accepts ∨ σ'.sockets ≤ sock) :
    sock ∈ σ.accepts ∨ σ.sockets ≤ sock := by
  cases h with
  | firstAccept | initAccept =>
    rcases hs with hs | hs
    · rcases List.mem_append.mp hs with hs | hs
      · exact Or.inl hs
      · exact Or.inr (List.mem_singleton.mp hs).ge
    · exact Or.inr (Nat.le_of_succ_le hs)
  | accept => exact hs.imp_left List.mem_of_mem_erase
  | _ => exact hs

/-- The handler of a read runs behind its completion. -/
theorem Step.new_onRequestReceived (h : Step size σ l σ' es)
    (ht : σ'.threads t = .onRequestReceived ec v) :
    σ.threads t = .onRequestReceived ec v ∨
      ∃ received, l = .deliver t v .read ec received := by
  rcases h.new_result t with hsame | ⟨sock, ec', hl, hnew⟩ | ⟨v', op, ec', received, hl, hnew⟩ |
    hother
  · exact Or.inl (hsame ▸ ht)
  · rw [ht] at hnew
    cases hnew
  · rw [ht] at hnew
    cases op with
    | read =>
      obtain ⟨rfl, rfl⟩ := Frame.onRequestReceived.inj hnew
      exact Or.inr ⟨received, hl⟩
    | write => cases hnew
  · rw [ht] at hother
    cases hother

/-- A response is set by the handler of a read that has succeeded. -/
theorem Step.response_cases (h : Step size σ l σ' es) (hv : v < σ.count) :
    (σ'.services v).response = (σ.services v).response ∨
      (σ'.services v).response = ascii "Response\n" ∧
        ∃ t ec, σ.threads t = .onRequestReceived ec v ∧ ec.value = 0 := by
  cases h with
  | serve => exact Or.inl (by simp [hv.ne])
  | @respond t ec r ht hec =>
    by_cases hr : v = r
    · subst hr
      exact Or.inr ⟨by simp [Service.processRequest], t, ec, ht, hec⟩
    · exact Or.inl (by simp [hr])
  | @deliver t r | @transmit r | @startWrite t r | @finish t r =>
    exact Or.inl (by by_cases hr : v = r <;> simp [hr])
  | _ => exact Or.inl rfl

end

end BoostAsio.AsyncTcpServer

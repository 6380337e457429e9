import BoostAsio.Client.Async.Completion

/-!
# Results of a session's operations

Every operation is started after the success of the ones before it. A failed result
ends the chain, so a session has at most one and it is the code its handler stored.
-/

namespace BoostAsio.AsyncTcpClient

/-- The operations that precede an operation in the chain. -/
def Operation.before : Operation → List Operation
  | .connect => []
  | .write => [.connect]
  | .read => [.connect, .write]

theorem Operation.mem_before_next {op next o : Operation} (hnext : op.next = some next)
    (ho : o ∈ next.before) : o ∈ op.before ∨ o = op := by
  cases op <;> cases hnext <;> simp_all [Operation.before]

theorem Operation.mem_before_last {op : Operation} (hnext : op.next = none) (o : Operation) :
    o ∈ op.before ∨ o = op := by
  cases op <;> cases hnext
  cases o <;> simp [Operation.before]

/-- Asio delivered success for the operation. -/
def Succeeded (tr : List Event) (s : SessionId) (op : Operation) : Prop :=
  ∃ ec, .delivered s op ec ∈ tr ∧ ec.value = 0

theorem Succeeded.append {tr : List Event} {s : SessionId} {op : Operation}
    (h : Succeeded tr s op) (es : List Event) : Succeeded (tr ++ es) s op :=
  let ⟨ec, hm, h0⟩ := h
  ⟨ec, List.mem_append_left _ hm, h0⟩

/-- The operations that must have succeeded for a thread to be at a program point. -/
def Frame.past : Frame → Option (SessionId × List Operation)
  | .handler op _ s => some (s, op.before)
  | .lockGuard next s | .checkFlag next s | .startNext next s => some (s, next.before)
  | .getResponse s => some (s, [.connect, .write, .read])
  | _ => none

/-- Points of `OnRequestComplete` outside the cancelled branch of a handler. -/
def Frame.completing : Frame → Option SessionId
  | .complete _ s guarded => if guarded then none else some s
  | _ => none

/-- Pending operations come from before the step or are started by it. -/
theorem Step.mem_pending {n : Nat} {σ σ' : State} {es : List Event} {l : Label}
    (h : Step n σ l σ' es) {s : SessionId} {p : Pending} (hp : p ∈ (σ'.sessions s).pending) :
    (∃ q ∈ (σ.sessions s).pending, q.op = p.op) ∨ p.op = .connect ∨
      ∃ t, σ.threads t = .startNext p.op s := by
  cases h with
  | @cancelSocket t r ht =>
    by_cases hs : s = r
    · subst hs
      simp only [State.sessions_goto, State.sessions_modify, ite_true, Session.cancelSocket,
        List.mem_map] at hp
      obtain ⟨q, hq, rfl⟩ := hp
      exact Or.inl ⟨q, hq, rfl⟩
    · exact Or.inl ⟨p, by simpa [hs] using hp, rfl⟩
  | @asyncConnect t r ht =>
    by_cases hs : s = r
    · subst hs
      simp only [State.sessions_goto, State.sessions_modify, ite_true, Session.start,
        List.mem_append, List.mem_singleton] at hp
      rcases hp with hold | rfl
      · exact Or.inl ⟨p, hold, rfl⟩
      · exact Or.inr (Or.inl rfl)
    · exact Or.inl ⟨p, by simpa [hs] using hp, rfl⟩
  | @startNext t next r ht =>
    by_cases hs : s = r
    · subst hs
      simp only [State.sessions_goto, State.sessions_modify, ite_true, Session.start,
        List.mem_append, List.mem_singleton] at hp
      rcases hp with hold | rfl
      · exact Or.inl ⟨p, hold, rfl⟩
      · exact Or.inr (Or.inr ⟨t, ht⟩)
    · exact Or.inl ⟨p, by simpa [hs] using hp, rfl⟩
  | @deliver t r q ec received hpool ht hq =>
    by_cases hs : s = r
    · subst hs
      exact Or.inl ⟨p, List.mem_of_mem_erase (by simpa [Session.finish] using hp), rfl⟩
    · exact Or.inl ⟨p, by simpa [hs] using hp, rfl⟩
  | emulate =>
    by_cases hs : s = σ.count
    · simp [hs, Session.new] at hp
    · exact Or.inl ⟨p, by simpa [hs] using hp, rfl⟩
  | cancelLockGuard | cancelSetFlag | cancelUnlockGuard | handlerFailed | lockGuard | getResponse
  | leave =>
    rw [State.sessions_goto, State.sessions_modify_keep Session.pending rfl] at hp
    exact Or.inl ⟨p, hp, rfl⟩
  | _ => exact Or.inl ⟨p, hp, rfl⟩

/-- A session's error changes only when a handler stores its failed result. -/
theorem Step.ec_cases {n : Nat} {σ σ' : State} {es : List Event} {l : Label}
    (h : Step n σ l σ' es) (s : SessionId) :
    (σ'.sessions s).ec = (σ.sessions s).ec ∨ (σ'.sessions s).ec = .success ∧ s = σ.count ∨
      ∃ t op, σ.threads t = .handler op (σ'.sessions s).ec s ∧
        (σ'.sessions s).ec.value ≠ 0 ∧ (σ'.threads t).completing = some s := by
  cases h with
  | @handlerFailed t op ec r ht hec =>
    by_cases hs : s = r
    · exact Or.inr (Or.inr ⟨t, op, by simp [hs, ht], by simp [hs, hec],
        by simp [hs, Frame.completing]⟩)
    · exact Or.inl (by simp [hs])
  | emulate =>
    by_cases hs : s = σ.count
    · exact Or.inr (Or.inl ⟨by simp [hs, Session.new], hs⟩)
    · exact Or.inl (by simp [hs])
  | asyncConnect | cancelLockGuard | cancelSetFlag | cancelSocket | cancelUnlockGuard | deliver
  | lockGuard | startNext | getResponse | leave =>
    refine Or.inl ?_
    rw [State.sessions_goto, State.sessions_modify_keep Session.ec rfl]
  | _ => exact Or.inl rfl

/-- A result is delivered for a pending operation, and its handler starts. -/
theorem Step.mem_delivered {n : Nat} {σ σ' : State} {es : List Event} {l : Label}
    (h : Step n σ l σ' es) {s : SessionId} {op : Operation} {ec : ErrorCode}
    (hm : .delivered s op ec ∈ es) :
    (∃ p ∈ (σ.sessions s).pending, p.op = op) ∧ ∃ t, σ'.threads t = .handler op ec s := by
  cases h with
  | @deliver t r p ec' received hpool ht hp =>
    simp only [List.mem_singleton, Event.delivered.injEq] at hm
    obtain ⟨rfl, rfl, rfl⟩ := hm
    exact ⟨⟨p, hp, rfl⟩, t, by simp⟩
  | _ => simp at hm

/-- A handler that leaves its first point either fails or has succeeded. -/
theorem Step.handler_cases {n : Nat} {σ σ' : State} {es : List Event} {l : Label}
    (h : Step n σ l σ' es) {t : ThreadId} {op : Operation} {ec : ErrorCode} {s : SessionId}
    (ht : σ.threads t = .handler op ec s) :
    σ'.threads t = .handler op ec s ∨ ec.value = 0 ∨ (σ'.sessions s).ec = ec := by
  by_cases htl : t = l.thread
  · subst htl
    cases h <;> simp_all [Label.thread]
  · exact Or.inl ((h.threads_of_ne htl).trans ht)

/-- A thread that completes a session does so until the completion has returned. -/
theorem Step.completing_cases {n : Nat} {σ σ' : State} {es : List Event} {l : Label}
    (h : Step n σ l σ' es) {t : ThreadId} {s : SessionId}
    (ht : (σ.threads t).completing = some s) :
    (σ'.threads t).completing = some s ∨ .completed s ∈ es := by
  by_cases htl : t = l.thread
  · subst htl
    cases h <;> simp_all [Label.thread, Frame.completing]
  · exact Or.inl (h.threads_of_ne htl ▸ ht)

/-- A thread starts to complete a session after a failure or with the response. -/
theorem Step.new_completing {n : Nat} {σ σ' : State} {es : List Event} {l : Label}
    (h : Step n σ l σ' es) {t : ThreadId} {s : SessionId}
    (ht : (σ'.threads t).completing = some s) :
    (σ.threads t).completing = some s ∨ (σ'.sessions s).ec.value ≠ 0 ∨
      σ.threads t = .getResponse s := by
  by_cases htl : t = l.thread
  · subst htl
    cases h <;> simp_all [Label.thread, Frame.completing]
  · exact Or.inl (h.threads_of_ne htl ▸ ht)

/-- A thread moves past an operation by its delivery or by its handler's success. -/
theorem Step.past_cases {n : Nat} {σ σ' : State} {es : List Event} {l : Label}
    (h : Step n σ l σ' es) {t : ThreadId} {s : SessionId} {ops : List Operation}
    (ht : (σ'.threads t).past = some (s, ops)) :
    (σ.threads t).past = some (s, ops) ∨
      (∃ p ∈ (σ.sessions s).pending, ops = p.op.before) ∨
      ∃ op ec, σ.threads t = .handler op ec s ∧ ec.value = 0 ∧
        ∀ o ∈ ops, o ∈ op.before ∨ o = op := by
  by_cases htl : t = l.thread
  · subst htl
    cases h with
    | handlerNext hu hec hnext =>
      simp only [Label.thread, State.threads_goto, ite_true, Frame.past, Option.some.injEq,
        Prod.mk.injEq] at ht
      obtain ⟨rfl, rfl⟩ := ht
      exact Or.inr (Or.inr ⟨_, _, hu, hec, fun o => Operation.mem_before_next hnext⟩)
    | handlerLast hu hec hnext =>
      simp only [Label.thread, State.threads_goto, ite_true, Frame.past, Option.some.injEq,
        Prod.mk.injEq] at ht
      obtain ⟨rfl, rfl⟩ := ht
      exact Or.inr (Or.inr ⟨_, _, hu, hec, fun o _ => Operation.mem_before_last hnext o⟩)
    | @deliver u r p ec received hpool hu hp =>
      simp only [Label.thread, State.threads_goto, ite_true, Frame.past, Option.some.injEq,
        Prod.mk.injEq] at ht
      obtain ⟨rfl, rfl⟩ := ht
      exact Or.inr (Or.inl ⟨p, hp, rfl⟩)
    | _ => simp_all [Label.thread, Frame.past]
  · exact Or.inl (h.threads_of_ne htl ▸ ht)

/-- A thread comes to the first point of a handler by the delivery of its result. -/
theorem Step.new_handler {n : Nat} {σ σ' : State} {es : List Event} {l : Label}
    (h : Step n σ l σ' es) {t : ThreadId} {op : Operation} {ec : ErrorCode} {s : SessionId}
    (ht : σ'.threads t = .handler op ec s) :
    σ.threads t = .handler op ec s ∨ .delivered s op ec ∈ es := by
  by_cases htl : t = l.thread
  · subst htl
    cases h <;> simp_all [Label.thread]
  · exact Or.inl (h.threads_of_ne htl ▸ ht)

/-- Every operation is started after the success of those before it, and a session's
error is the failed result that ended its chain. -/
structure Results (σ : State) (tr : List Event) : Prop where
  created : ∀ s op ec, .delivered s op ec ∈ tr → s < σ.count
  pending : ∀ s p, p ∈ (σ.sessions s).pending → ∀ op ∈ p.op.before, Succeeded tr s op
  past : ∀ t s ops, (σ.threads t).past = some (s, ops) → ∀ op ∈ ops, Succeeded tr s op
  handled : ∀ t op ec s, σ.threads t = .handler op ec s → .delivered s op ec ∈ tr
  succeeded : ∀ t s, (σ.threads t).completing = some s → (σ.sessions s).ec.value = 0 →
    ∀ op, Succeeded tr s op
  stored : ∀ s op ec, .delivered s op ec ∈ tr →
    ec.value = 0 ∨ (∃ t, σ.threads t = .handler op ec s) ∨ (σ.sessions s).ec = ec
  failed : ∀ s, (σ.sessions s).ec.value ≠ 0 →
    (∃ op, .delivered s op (σ.sessions s).ec ∈ tr) ∧
      ((∃ t, (σ.threads t).completing = some s) ∨ .completed s ∈ tr)

theorem Results.init : Results State.init [] where
  created s op ec h := by simp at h
  pending s p h := by simp [State.init, Session.new] at h
  past t s ops h := by simp [State.init, Frame.past] at h
  handled t op ec s h := by simp [State.init] at h
  succeeded t s h := by simp [State.init, Frame.completing] at h
  stored s op ec h := by simp at h
  failed s h := by simp [State.init, Session.new, ErrorCode.success] at h

theorem Frame.carries_of_completing {f : Frame} {s : SessionId}
    (h : f.completing = some s) : f.carries = some s := by
  cases f <;> simp_all [Frame.completing, Frame.carries]

theorem Frame.carries_of_handler {f : Frame} {op : Operation} {ec : ErrorCode} {s : SessionId}
    (h : f = .handler op ec s) : f.carries = some s := by
  simp [h, Frame.carries]

/-- The handler of a session runs only while no failed result is stored. -/
theorem Results.ec_of_handler {σ : State} {tr : List Event} {place : SessionId → Custody}
    (hi : Results σ tr) (hp : Holds σ tr place) {t : ThreadId} {op : Operation}
    {ec : ErrorCode} {s : SessionId} (ht : σ.threads t = .handler op ec s) :
    (σ.sessions s).ec.value = 0 := by
  have hcarried := Frame.carries_of_handler ht
  by_contra hec
  rcases (hi.failed s hec).2 with ⟨u, hu⟩ | hc
  · obtain rfl := hp.unique hcarried (Frame.carries_of_completing hu)
    simp [ht, Frame.completing] at hu
  · exact hp.not_ended hcarried (Or.inl hc)

/-- Results are delivered to the chain's next handler and failures end the chain. -/
theorem Results.step {n : Nat} {σ σ' : State} {tr es : List Event} {l : Label}
    {place : SessionId → Custody} (hi : Results σ tr) (hp : Holds σ tr place)
    (hs : Scoped σ) (h : Step n σ l σ' es) : Results σ' (tr ++ es) where
  created s op ec hm := by
    rcases List.mem_append.mp hm with hold | hnew
    · exact (hi.created s op ec hold).trans_le h.count_le
    · obtain ⟨⟨p, hpend, -⟩, -⟩ := h.mem_delivered hnew
      exact (hs.pending s (List.ne_nil_of_mem hpend)).trans_le h.count_le
  pending s p hm o ho := by
    rcases h.mem_pending hm with ⟨q, hq, hop⟩ | hop | ⟨t, ht⟩
    · exact (hi.pending s q hq o (hop ▸ ho)).append es
    · simp [hop, Operation.before] at ho
    · exact (hi.past t s p.op.before (by simp [ht, Frame.past]) o ho).append es
  past t s ops ht o ho := by
    rcases h.past_cases ht with hold | ⟨p, hpend, rfl⟩ | ⟨op, ec, hhandler, h0, hops⟩
    · exact (hi.past t s ops hold o ho).append es
    · exact (hi.pending s p hpend o ho).append es
    · rcases hops o ho with hbefore | rfl
      · exact (hi.past t s op.before (by simp [hhandler, Frame.past]) o hbefore).append es
      · exact ⟨ec, List.mem_append_left _ (hi.handled t o ec s hhandler), h0⟩
  handled t op ec s ht := by
    rcases h.new_handler ht with hold | hnew
    · exact List.mem_append_left _ (hi.handled t op ec s hold)
    · exact List.mem_append_right _ hnew
  succeeded t s ht h0 op := by
    rcases h.new_completing ht with hold | hec | hresponse
    · have hcarried := Frame.carries_of_completing hold
      rcases h.ec_cases s with hsame | ⟨-, rfl⟩ | ⟨u, o, -, hec, -⟩
      · exact (hi.succeeded t s hold (hsame ▸ h0) op).append es
      · exact absurd (hp.lt_count hcarried) (Nat.lt_irrefl _)
      · exact absurd h0 hec
    · exact absurd h0 hec
    · exact (hi.past t s _ (by rw [hresponse]; rfl) op (by cases op <;> simp)).append es
  stored s op ec hm := by
    rcases List.mem_append.mp hm with hold | hnew
    · rcases hi.stored s op ec hold with h0 | ⟨t, ht⟩ | hec
      · exact Or.inl h0
      · rcases h.handler_cases ht with ht' | h0 | hec
        · exact Or.inr (Or.inl ⟨t, ht'⟩)
        · exact Or.inl h0
        · exact Or.inr (Or.inr hec)
      · rcases h.ec_cases s with hsame | ⟨-, rfl⟩ | ⟨u, o, hu, -, -⟩
        · exact Or.inr (Or.inr (hsame.trans hec))
        · exact absurd (hi.created _ op ec hold) (Nat.lt_irrefl _)
        · exact Or.inl (hec ▸ hi.ec_of_handler hp hu)
    · exact Or.inr (Or.inl (h.mem_delivered hnew).2)
  failed s hec := by
    rcases h.ec_cases s with hsame | ⟨hsuccess, -⟩ | ⟨t, op, ht, -, hcompleting⟩
    · rw [hsame] at hec ⊢
      obtain ⟨⟨op, hop⟩, hend⟩ := hi.failed s hec
      refine ⟨⟨op, List.mem_append_left _ hop⟩, ?_⟩
      rcases hend with ⟨t, ht⟩ | hc
      · rcases h.completing_cases ht with ht' | hc
        · exact Or.inl ⟨t, ht'⟩
        · exact Or.inr (List.mem_append_right _ hc)
      · exact Or.inr (List.mem_append_left _ hc)
    · exact absurd (by rw [hsuccess]; rfl) hec
    · exact ⟨⟨op, List.mem_append_left _ (hi.handled t op _ s ht)⟩, Or.inl ⟨t, hcompleting⟩⟩

/-- Every run relates the stored errors to the delivered results. -/
theorem Run.results {n : Nat} {labels : List Label} {σ : State} {tr : List Event}
    (h : Run n labels σ tr) : Results σ tr := by
  refine Run.induction .init (fun hrun hi hs => ?_) h
  obtain ⟨place, hp⟩ := hrun.holds
  exact hi.step hp hrun.scoped hs

end BoostAsio.AsyncTcpClient

import BoostAsio.Core.System.Ranking
import BoostAsio.Client.Async.Close

/-!
# Close returns

Once `Close` has been called and no other thread is inside the client, only the pool moves.
Each of its steps brings a session closer to the end of its chain, a thread out of the
pool, or `Close` past a join. A handler that waits for a mutex waits for another handler
that can move, since there is no `CancelRequest` to cross it. So `Close` is never left
waiting for good.
-/

namespace BoostAsio.AsyncTcpClient

open BoostAsio.System

/-- A bound on the steps from the handler of an operation to the end of the chain. -/
def Operation.rank : Operation → Nat
  | .connect => 22
  | .write => 16
  | .read => 10

/-- The steps of `OnRequestComplete` that are left, the end of the handler included. -/
def CompletePoint.rank : CompletePoint → Nat
  | .shutdown => 8
  | .lockActive => 7
  | .erase => 6
  | .unlockActive => 5
  | .verdict => 4
  | .callback _ => 3
  | .inCallback => 2

/-- A bound on the steps that a handler has left, with those of the operations behind it. -/
def Frame.rank : Frame → Nat
  | .handler op _ _ => op.rank
  | .lockGuard next _ => next.rank + 5
  | .checkFlag next _ => next.rank + 4
  | .startNext next _ => next.rank + 3
  | .getResponse _ => 9
  | .complete point _ _ => point.rank
  | .leave _ => 1
  | _ => 0

/-- A bound on the steps that come from what is pending for a session. -/
def Session.rank (x : Session) : Nat := x.pending.foldr (fun p n => p.op.rank + 1 + n) 0

/-- A bound on the steps that a pool of `n` threads has left. -/
def State.rank (σ : State) (n : Nat) : Nat :=
  ∑ t ∈ Finset.range n, (σ.threads t).rank + ∑ s ∈ Finset.range σ.count, (σ.sessions s).rank

theorem Operation.lt_rank (op : Operation) : 9 < op.rank := by cases op <;> decide

theorem Operation.rank_next {op next : Operation} (h : op.next = some next) :
    next.rank + 5 < op.rank := by
  cases op <;> cases h <;> decide

/-- The points of a pool thread. -/
def Frame.served : Frame → Bool
  | .idle | .handler _ _ _ | .lockGuard _ _ | .checkFlag _ _ | .startNext _ _ | .getResponse _
  | .complete _ _ _ | .leave _ => true
  | _ => false

/-- The rank falls with the ranks of the thread and of the session that a step changes. -/
theorem State.rank_lt {σ σ' : State} {n : Nat} {t : ThreadId} {s : SessionId} (ht : t < n)
    (hs : s < σ.count) (hcount : σ'.count = σ.count)
    (hthreads : ∀ u, u ≠ t → σ'.threads u = σ.threads u)
    (hsessions : ∀ r, r ≠ s → (σ'.sessions r).rank = (σ.sessions r).rank)
    (hlt : (σ'.threads t).rank + (σ'.sessions s).rank <
      (σ.threads t).rank + (σ.sessions s).rank) : σ'.rank n < σ.rank n := by
  have hframes := sum_range_change (f := fun u => (σ.threads u).rank)
    (g := fun u => (σ'.threads u).rank) ht fun u hu => by rw [hthreads u hu]
  have hpending := sum_range_change (f := fun r => (σ.sessions r).rank)
    (g := fun r => (σ'.sessions r).rank) hs hsessions
  unfold State.rank
  rw [hcount]
  omega

section

variable {n : Nat} {σ σ' : State} {es : List Event} {l : Label}

/-- Pool threads stand at points of handlers only. -/
theorem Step.served (h : Step n σ l σ' es) (hi : ∀ t < n, (σ.threads t).served = true) :
    ∀ t < n, (σ'.threads t).served = true := by
  intro t ht
  by_cases htl : t = l.thread
  · subst htl
    have hold := hi _ ht
    cases h with
    | emulate hpool | cancelRequest hpool => exact absurd ht (Nat.not_lt_of_le hpool)
    | _ => simp_all [Label.thread, Frame.served]
  · rw [h.threads_of_ne htl]
    exact hi t ht

theorem Run.served {labels : List Label} {tr : List Event} (h : Run n labels σ tr) :
    ∀ t < n, (σ.threads t).served = true :=
  Run.induction (P := fun σ _ => ∀ t < n, (σ.threads t).served = true) (fun _ _ => rfl)
    (fun _ hi hs => hs.served hi) h

/-- A step that is no call of the client. -/
def Label.uncalled : Label → Bool
  | .emulate _ _ _ | .cancelRequest _ _ => false
  | _ => true

/-- Nobody but the pool is inside the client. -/
def State.CallersIdle (σ : State) (n : Nat) : Prop := ∀ t, n ≤ t → σ.threads t = .idle

/-- A pool thread takes every step that is no call. -/
theorem Step.thread_lt (h : Step n σ l σ' es) (hl : l.uncalled = true)
    (hidle : σ.CallersIdle n) : l.thread < n := by
  by_contra hle
  have hold := hidle _ (Nat.le_of_not_lt hle)
  cases h with
  | emulate | cancelRequest => cases hl
  | deliver hpool => exact hle hpool
  | _ ht =>
    rw [Label.thread, ht] at hold
    cases hold

theorem Step.callersIdle (h : Step n σ l σ' es) (hl : l.uncalled = true)
    (hidle : σ.CallersIdle n) : σ'.CallersIdle n := by
  intro t ht
  have hlt := h.thread_lt hl hidle
  rw [h.threads_of_ne (Nat.ne_of_gt (hlt.trans_le ht))]
  exact hidle t ht

/-- The rank of a session depends on what is pending only. -/
theorem Session.rank_eq {x y : Session} (h : x.pending = y.pending) : x.rank = y.rank := by
  rw [Session.rank, h, Session.rank]

/-- What is pending counts in any order. -/
theorem Session.rank_of_perm {x y : Session} {p : Pending}
    (h : x.pending.Perm (p :: y.pending)) : x.rank = y.rank + (p.op.rank + 1) := by
  have hcomm : LeftCommutative fun (p : Pending) (n : Nat) => p.op.rank + 1 + n :=
    ⟨fun p q n => Nat.add_left_comm ..⟩
  rw [Session.rank, h.foldr_eq]
  exact Nat.add_comm ..

/-- Every step of the pool lowers the rank. -/
theorem Step.rank_lt (h : Step n σ l σ' es) (hl : l.uncalled = true) (hidle : σ.CallersIdle n)
    (hserved : ∀ t < n, (σ.threads t).served = true) (hscoped : Scoped σ) :
    σ'.rank n < σ.rank n := by
  have hlt := h.thread_lt hl hidle
  have hold := hserved _ hlt
  have hsame : ∀ {s}, (σ.threads l.thread).session = some s → σ'.count = σ.count →
      (∀ r, (σ'.sessions r).pending = (σ.sessions r).pending) →
      (σ'.threads l.thread).rank < (σ.threads l.thread).rank → σ'.rank n < σ.rank n := by
    intro s hs hcount hpending hframe
    have hrank : ∀ r, (σ'.sessions r).rank = (σ.sessions r).rank := fun r =>
      Session.rank_eq (hpending r)
    refine State.rank_lt hlt (hscoped.threads _ s hs) hcount (fun u hu => h.threads_of_ne hu)
      (fun r _ => hrank r) ?_
    rw [hrank s]
    omega
  cases h with
  | emulate | cancelRequest => cases hl
  | @deliver t s p ec received hpool ht hp =>
    refine State.rank_lt hlt (hscoped.pending s (List.ne_nil_of_mem hp)) rfl
      (fun u hu => by simp_all [Label.thread]) (fun r hr => by simp [hr]) ?_
    have hsum : (σ.sessions s).rank =
        ((σ.sessions s).finish p received).rank + (p.op.rank + 1) :=
      Session.rank_of_perm (List.perm_cons_erase hp)
    simp only [Label.thread, State.threads_goto, ite_true, State.sessions_goto,
      State.sessions_modify, ht, Frame.rank]
    omega
  | @startNext t next s ht =>
    refine State.rank_lt hlt (hscoped.threads t s (by simp [ht, Frame.session])) rfl
      (fun u hu => by simp_all [Label.thread]) (fun r hr => by simp [hr]) ?_
    have hsum : ((σ.sessions s).start next).rank = (σ.sessions s).rank + (next.rank + 1) :=
      Session.rank_of_perm (p := ⟨next, false⟩) (List.perm_append_singleton ..)
    simp only [Label.thread, State.threads_goto, ite_true, State.sessions_goto,
      State.sessions_modify, ht, Frame.rank]
    omega
  | @handlerFailed t op ec s ht =>
    refine hsame (by rw [Label.thread, ht]; rfl) rfl (fun r => ?_) ?_
    · rw [State.sessions_goto, State.sessions_modify_keep Session.pending rfl]
    · have hrank := op.lt_rank
      simp only [Label.thread, State.threads_goto, ite_true, ht, Frame.rank, CompletePoint.rank]
      omega
  | lockGuard ht | getResponse ht | leave ht =>
    refine hsame (by rw [Label.thread, ht]; rfl) rfl (fun r => ?_) ?_
    · rw [State.sessions_goto, State.sessions_modify_keep Session.pending rfl]
    · simp [Label.thread, ht, Frame.rank, CompletePoint.rank]
  | handlerNext ht hec hnext =>
    refine hsame (by rw [Label.thread, ht]; rfl) rfl (fun r => rfl) ?_
    simpa [Label.thread, ht, Frame.rank] using Operation.rank_next hnext
  | @handlerLast t op ec s ht =>
    refine hsame (by rw [Label.thread, ht]; rfl) rfl (fun r => rfl) ?_
    simpa [Label.thread, ht, Frame.rank] using op.lt_rank
  | @checkCancelled t next s ht =>
    refine hsame (by rw [Label.thread, ht]; rfl) rfl (fun r => rfl) ?_
    have hrank := next.lt_rank
    simp only [Label.thread, State.threads_goto, ite_true, ht, Frame.rank, CompletePoint.rank]
    omega
  | checkPassed ht | shutdown ht | lockActive ht | erase ht | unlockActive ht | verdict ht
  | callback ht | returnGuarded ht | returnUnguarded ht =>
    refine hsame (by rw [Label.thread, ht]; rfl) rfl (fun r => rfl) ?_
    simp [Label.thread, ht, Frame.rank, CompletePoint.rank]
  | _ ht =>
    rw [Label.thread, ht] at hold
    cases hold

/-- A pool thread that cannot move waits for one of the mutexes. -/
theorem Frame.advance_cases {f : Frame} (hserved : f.served = true) (hne : f ≠ .idle)
    (t : ThreadId) :
    (advance σ t f).isSome ∨ (∃ s u, (σ.sessions s).cancelGuard = some u) ∨
      ∃ u, σ.activeSessionsGuard = some u := by
  cases f with
  | handler op ec s =>
    left
    by_cases hec : ec.value = 0
    · cases hnext : op.next <;> simp [advance, hec, hnext]
    · simp [advance, hec]
  | checkFlag next s => cases hflag : (σ.sessions s).wasCancelled <;> simp [advance, hflag]
  | lockGuard next s =>
    cases hguard : (σ.sessions s).cancelGuard with
    | none => exact Or.inl (by simp [advance, hguard])
    | some u => exact Or.inr (Or.inl ⟨s, u, hguard⟩)
  | complete point s guarded =>
    cases point with
    | lockActive =>
      cases hguard : σ.activeSessionsGuard with
      | none => exact Or.inl (by simp [advance, onRequestComplete, hguard])
      | some u => exact Or.inr (Or.inr ⟨u, rfl⟩)
    | inCallback => cases guarded <;> simp [advance, onRequestComplete]
    | _ => exact Or.inl (by simp [advance, onRequestComplete])
  | idle => exact absurd rfl hne
  | startNext | getResponse | leave => exact Or.inl (by simp [advance])
  | _ => cases hserved

/-- A pool thread that holds the map's guard moves on. -/
theorem advance_of_holdsActive {f : Frame} (hserved : f.served = true)
    (hholds : f.holdsActive = true) (t : ThreadId) : (advance σ t f).isSome := by
  cases f with
  | complete point s guarded =>
    cases point <;> simp_all [Frame.holdsActive, advance, onRequestComplete]
  | _ => simp_all [Frame.holdsActive, Frame.served]

/-- A pool thread that holds a session's guard moves on, or waits for the map's guard. -/
theorem advance_of_holdsCancel {f : Frame} {s : SessionId} (hserved : f.served = true)
    (hholds : f.holdsCancel s = true) (t : ThreadId) :
    (advance σ t f).isSome ∨ ∃ u, σ.activeSessionsGuard = some u := by
  cases f with
  | complete point r guarded =>
    cases point with
    | lockActive =>
      cases hguard : σ.activeSessionsGuard with
      | none => exact Or.inl (by simp [advance, onRequestComplete, hguard])
      | some u => exact Or.inr ⟨u, rfl⟩
    | inCallback => cases guarded <;> simp [advance, onRequestComplete]
    | _ => exact Or.inl (by simp [advance, onRequestComplete])
  | checkFlag next r =>
    cases hflag : (σ.sessions r).wasCancelled <;> simp [advance, hflag]
  | startNext | leave => exact Or.inl (by simp [advance])
  | _ => simp_all [Frame.holdsCancel, Frame.served]

/-- While a pool thread is inside a handler, some pool thread can take its next step. -/
theorem exists_run_of_busy (hlocking : Locking σ) (hidle : σ.CallersIdle n)
    (hserved : ∀ t < n, (σ.threads t).served = true) {t : ThreadId}
    (ht : σ.threads t ≠ .idle) : ∃ u, (step n σ (.run u)).isSome := by
  have hall : ∀ u, (σ.threads u).served = true := by
    intro u
    by_cases hu : u < n
    · exact hserved u hu
    · rw [hidle u (Nat.le_of_not_lt hu)]
      rfl
  have hactive : ∀ {u}, σ.activeSessionsGuard = some u → ∃ v, (step n σ (.run v)).isSome :=
    fun {u} hu => ⟨u, advance_of_holdsActive (hall u) ((hlocking.active u).mp hu) u⟩
  rcases Frame.advance_cases (σ := σ) (hall t) ht t with hmove | ⟨s, u, hu⟩ | ⟨u, hu⟩
  · exact ⟨t, hmove⟩
  · rcases advance_of_holdsCancel (σ := σ) (hall u) ((hlocking.cancel s u).mp hu) u with
      hmove | ⟨v, hv⟩
    · exact ⟨u, hmove⟩
    · exact hactive hv
  · exact hactive hu

end

/-- The steps of a client that is being closed: those of the pool and of `Close`. -/
def closing : PoolLabel Label → Bool
  | .inner l => l.uncalled
  | .leave _ | .join => true
  | .close => false

/-- A bound on the steps that a client that is being closed has left. -/
def closeRank (n : Nat) (p : Pool State) : Nat :=
  p.inner.rank n + ∑ t ∈ Finset.range n, (if p.returned t then 0 else 1) +
    (n - p.joined.getD 0)

/-- A client whose `Close` has been called, with nobody else inside. -/
structure BeingClosed (n : Nat) (p : Pool State) : Prop where
  reached : ∃ labels tr, ClientRun n labels p tr
  called : p.joined ≠ none
  callersIdle : p.inner.CallersIdle n

/-- Every step lowers the rank of a client that is being closed. -/
theorem BeingClosed.step {n : Nat} {p p' : Pool State} {l : PoolLabel Label} {es : List Event}
    (hi : BeingClosed n p) (hl : closing l = true)
    (h : (served n).poolStep n p l = some (p', es)) :
    BeingClosed n p' ∧ closeRank n p' < closeRank n p := by
  obtain ⟨labels, tr, hrun⟩ := hi.reached
  have hreached : ∃ labels tr, ClientRun n labels p' tr :=
    ⟨_, _, exec_snoc.mpr ⟨p, tr, es, hrun, h, rfl⟩⟩
  cases poolStep_iff.mp h with
  | @inner a σ' es hfree hstep =>
    have hs := step_cases hstep
    have hlt := hs.rank_lt hl hi.callersIdle hrun.run.served hrun.run.scoped
    refine ⟨⟨hreached, hi.called, hs.callersIdle hl hi.callersIdle⟩, ?_⟩
    simp only [closeRank]
    omega
  | close => cases hl
  | @leave t ht hhere hidle hdone =>
    refine ⟨⟨hreached, hi.called, hi.callersIdle⟩, ?_⟩
    have hsum := sum_range_change (f := fun u => if p.returned u then 0 else 1)
      (g := fun u => if Function.update p.returned t true u then 0 else 1) ht
      fun u hu => by rw [Function.update_of_ne hu]
    simp only [Function.update_self, hhere, ite_true, Bool.false_eq_true, ite_false] at hsum
    simp only [closeRank]
    omega
  | @join k hjoined hk hleft =>
    refine ⟨⟨hreached, by simp, hi.callersIdle⟩, ?_⟩
    simp only [closeRank, hjoined, Option.getD_some]
    omega

/-- Until `Close` has returned there is a step that leads on. -/
theorem BeingClosed.progress {n : Nat} {p : Pool State} (hi : BeingClosed n p)
    (hclosed : p.joined ≠ some n) : ∃ l, closing l = true ∧
      ((served n).poolStep n p l).isSome := by
  obtain ⟨labels, tr, hrun⟩ := hi.reached
  have hclosing := PoolRun.closing hrun
  obtain ⟨k, hk⟩ := Option.ne_none_iff_exists'.mp hi.called
  have hkn : k < n := Nat.lt_of_le_of_ne (hclosing.bound k hk) fun he => hclosed (he ▸ hk)
  have hwork : p.work = false := by
    by_contra hguarded
    exact hi.called (hclosing.guarded.mp (by simpa using hguarded))
  have hbusy : ∀ {t}, p.inner.threads t ≠ .idle → ∃ l, closing l = true ∧
      ((served n).poolStep n p l).isSome := by
    intro t ht
    obtain ⟨u, hu⟩ := exists_run_of_busy hrun.run.locking hi.callersIdle hrun.run.served ht
    refine ⟨.inner (.run u), rfl, ?_⟩
    simpa [Served.poolStep, served] using hu
  by_cases hleft : p.returned k = true
  · exact ⟨.join, rfl, by simp [Served.poolStep, hk, hkn, hleft]⟩
  · by_cases hidle : p.inner.threads k = .idle
    · by_cases hdone : p.stopped = true ∨ (served n).working p.inner = false
      · refine ⟨.leave k, rfl, ?_⟩
        have hbusy : (served n).busy p.inner k = false := by simp [served, hidle]
        simp [Served.poolStep, hkn, hleft, hbusy, hwork, hdone]
      · rw [not_or, Bool.not_eq_true, Bool.not_eq_false] at hdone
        obtain ⟨hrunning, hworking⟩ := hdone
        simp only [served, Bool.or_eq_true, List.any_eq_true, decide_eq_true_eq] at hworking
        rcases hworking with ⟨t, -, ht⟩ | ⟨s, -, hs⟩
        · exact hbusy ht
        · obtain ⟨q, hq⟩ := List.exists_mem_of_ne_nil _ hs
          refine ⟨.inner (.deliver k s q .success []), rfl, ?_⟩
          simp [Served.poolStep, served, AsyncTcpClient.step, hrunning, hleft, hkn, hidle, hq]
    · exact hbusy hidle

/-- `Close` returns: with nobody else inside the client, no more steps than the rank can be
taken, some step can be taken until `Close` has returned, and it has returned wherever
none is left. -/
theorem close_returns {n : Nat} {labels : List (PoolLabel Label)} {p : Pool State}
    {tr : List Event} (h : ClientRun n labels p tr) (hcalled : p.joined ≠ none)
    (hidle : p.inner.CallersIdle n) :
    (∀ more p' es, (∀ l ∈ more, closing l = true) →
      exec ((served n).poolStep n) p more = some (p', es) →
        more.length ≤ closeRank n p ∧
          ((∀ l, closing l = true → (served n).poolStep n p' l = none) → p'.joined = some n)) ∧
    ∃ more p' es, (∀ l ∈ more, closing l = true) ∧
      exec ((served n).poolStep n) p more = some (p', es) ∧ p'.joined = some n := by
  have hterminating : Terminating ((served n).poolStep n) (fun l => closing l = true)
      (BeingClosed n) (fun p => p.joined = some n) (closeRank n) :=
    ⟨fun hi hl hs => hi.step hl hs, fun hi hclosed => hi.progress hclosed⟩
  have hi : BeingClosed n p := ⟨⟨labels, tr, h⟩, hcalled, hidle⟩
  refine ⟨fun more p' es hall hrun => ⟨?_, fun hmax => ?_⟩, hterminating.exists_goal hi⟩
  · have hlength := (hterminating.exec_length hi hall hrun).2
    omega
  · exact hterminating.goal_of_maximal hi hall hrun hmax

/-- One request, with `Close` called as soon as it was made. -/
def earlyCloseSchedule : List (PoolLabel Label) :=
  (completeSchedule.take 6).map .inner ++ [.close]

/-- A thread that takes no step is idle. -/
theorem Run.idle_of_thread_ne {n : Nat} {labels : List Label} {σ : State} {tr : List Event}
    (h : Run n labels σ tr) {t : ThreadId} (hnone : ∀ l ∈ labels, l.thread ≠ t) :
    σ.threads t = .idle := by
  revert hnone
  refine exec_induction (P := fun labels σ _ => (∀ l ∈ labels, l.thread ≠ t) →
    σ.threads t = .idle) (fun _ => rfl) ?_ h
  intro labels σ _ l σ' _ _ ih hs hnone
  have hl := hnone l (List.mem_append_right _ (List.mem_singleton_self l))
  rw [(step_cases hs).threads_of_ne (Ne.symm hl)]
  exact ih fun m hm => hnone m (List.mem_append_left _ hm)

/-- The client of `earlyCloseSchedule` can be run until `Close` has returned. -/
theorem earlyCloseSchedule_returns : ∃ p tr more p' es, ClientRun 1 earlyCloseSchedule p tr ∧
    exec ((served 1).poolStep 1) p more = some (p', es) ∧ p'.joined = some 1 := by
  obtain ⟨p, tr, hrun, hcalled, hone⟩ : ∃ p tr, ClientRun 1 earlyCloseSchedule p tr ∧
      p.joined = some 0 ∧ p.inner.threads 1 = .idle := ⟨_, _, rfl, rfl, rfl⟩
  have hidle : p.inner.CallersIdle 1 := by
    intro t ht
    by_cases ht1 : t = 1
    · rw [ht1, hone]
    · have hlabels : ∀ l ∈ innerLabels earlyCloseSchedule, l.thread = 1 := by decide
      exact hrun.run.idle_of_thread_ne fun l hl => by
        rw [hlabels l hl]
        exact Ne.symm ht1
  obtain ⟨-, more, p', es, -, hmore, hclosed⟩ := close_returns hrun (by simp [hcalled]) hidle
  exact ⟨p, tr, more, p', es, hrun, hmore, hclosed⟩

end BoostAsio.AsyncTcpClient

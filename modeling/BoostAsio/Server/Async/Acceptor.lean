import BoostAsio.Core.System.History
import BoostAsio.Server.Async.Ownership

/-!
# The accept loop

The loop is one token, so there is one accept at most and none behind the close. A thread
that has already tested the stop flag, or an accept that is already outstanding, can serve
one more connection, and the test behind it ends the loop.
-/

namespace BoostAsio.AsyncTcpServer

open BoostAsio.System

/-- The socket that a service was created with. -/
def Event.createdWith : Event → Option SocketId
  | .closed | .stopSet => none
  | .created _ sock => some sock
  | .acceptStarted _ | .accepted _ _ | .readStarted _ | .writeStarted _ | .delivered _ _ _
  | .sent _ _ | .deleted _ => none

/-- The socket of a successful accept. -/
def Event.acceptedOn : Event → Option SocketId
  | .closed | .stopSet => none
  | .accepted sock ec => if ec.value = 0 then some sock else none
  | .acceptStarted _ | .created _ _ | .readStarted _ | .writeStarted _ | .delivered _ _ _
  | .sent _ _ | .deleted _ => none

/-- The sockets that services were created with, in order. -/
def created (tr : List Event) : List SocketId := tr.filterMap Event.createdWith

/-- The sockets of the successful accepts, in order. -/
def accepted (tr : List Event) : List SocketId := tr.filterMap Event.acceptedOn

theorem created_append (tr es : List Event) : created (tr ++ es) = created tr ++ created es :=
  List.filterMap_append

theorem accepted_append (tr es : List Event) :
    accepted (tr ++ es) = accepted tr ++ accepted es := List.filterMap_append

/-- A pool thread has still to create the service of a successful accept. -/
def Serving (σ : State) (sock : SocketId) : Prop :=
  ∃ t ec, σ.threads t = .onAccept ec sock ∧ ec.value = 0

/-- The loop will serve no further connection. -/
def Spent (σ : State) : Prop :=
  σ.closed = true ∨ ∃ t, σ.threads t = .testStopped ∨ σ.threads t = .closeAcceptor

section

variable {size : Nat} {labels : List Label} {σ σ' : State} {l : Label} {tr es : List Event}

/-- A closed acceptor stays closed and starts no accept. -/
theorem Step.closed (h : Step size σ l σ' es) (hi : Owned σ) (hc : σ.closed = true) :
    σ'.closed = true ∧ ∀ sock, .acceptStarted sock ∉ es := by
  obtain ⟨hstarter, -, hthreads⟩ := hi.closed hc
  cases h with
  | firstAccept hs =>
    rw [hstarter] at hs
    cases hs
  | @initAccept t ht =>
    have := hthreads t
    rw [ht] at this
    cases this
  | close => exact ⟨rfl, by simp⟩
  | _ => exact ⟨hc, by simp⟩

/-- The close is visible, and the last event of its step. -/
theorem Step.closing (h : Step size σ l σ' es) {front after : List Event}
    (hes : es = front ++ .closed :: after) : σ'.closed = true ∧ after = [] := by
  have hmem : .closed ∈ es := hes ▸ List.mem_append_right _ List.mem_cons_self
  cases h with
  | close => exact ⟨rfl, (singleton_cut hes).2.2⟩
  | _ => simp at hmem

/-- The flag is set visibly, and nothing else is visible of that step. -/
theorem Step.stopping (h : Step size σ l σ' es) {front after : List Event}
    (hes : es = front ++ .stopSet :: after) : σ'.isStopped = true ∧ after = [] := by
  have hmem : .stopSet ∈ es := hes ▸ List.mem_append_right _ List.mem_cons_self
  cases h with
  | stopAcceptor => exact ⟨rfl, (singleton_cut hes).2.2⟩
  | _ => simp at hmem

/-- Behind the close no accept is outstanding or started. -/
theorem Run.closed_since (h : Run size labels σ tr) {before after : List Event}
    (htr : tr = before ++ .closed :: after) :
    σ.accepts = [] ∧ ∀ sock, .acceptStarted sock ∉ after := by
  have hsince : σ.closed = true ∧ ∀ sock, .acceptStarted sock ∉ after := by
    refine exec_since (P := fun _ σ after => σ.closed = true ∧
      ∀ sock, .acceptStarted sock ∉ after) ?_ ?_ h htr
    · intro as m tr₀ l σ' es front after _ hs hes
      obtain ⟨hc, rfl⟩ := (step_cases hs).closing hes
      exact ⟨hc, fun _ => List.not_mem_nil⟩
    · intro as m tr₀ l σ' es _ after hexec ⟨hc, hnone⟩ hs
      obtain ⟨hc', hnone'⟩ := (step_cases hs).closed (Run.owned hexec) hc
      exact ⟨hc', fun sock hmem => (List.mem_append.mp hmem).elim (hnone sock) (hnone' sock)⟩
  exact ⟨(h.owned.closed hsince.1).2.1, hsince.2⟩

/-- A spent loop has no connection to serve. -/
theorem Spent.not_serving (h : Spent σ) (hi : Owned σ) {t : ThreadId} {ec : ErrorCode}
    {sock : SocketId} : σ.threads t ≠ .onAccept ec sock := by
  intro ht
  obtain ⟨-, -, hclosed, hunique⟩ := hi.accepting ht rfl
  rcases h with hc | ⟨u, hu⟩
  · rw [hclosed] at hc
    cases hc
  · obtain rfl := hunique u (by rcases hu with hu | hu <;> rw [hu] <;> rfl)
    simp [ht] at hu

/-- Once the flag is set, a spent loop only goes on to the close. -/
theorem Step.spent (h : Step size σ l σ' es) (hi : Owned σ) (hstopped : σ.isStopped = true)
    (hspent : Spent σ) : Spent σ' := by
  rcases hspent with hc | ⟨u, hu⟩
  · exact Or.inl (h.closed hi hc).1
  · cases h with
    | goOn ht hrunning =>
      rw [hstopped] at hrunning
      cases hrunning
    | @giveUp t ht =>
      refine Or.inr ⟨u, ?_⟩
      by_cases hut : u = t
      · simp [hut]
      · simpa [hut] using hu
    | close => exact Or.inl rfl
    | listen | firstAccept | stopAcceptor | stopService | join | transmit => exact Or.inr ⟨u, hu⟩
    | createThread =>
      have hut : u ≠ σ.pool := by
        rintro rfl
        simp [hi.unborn] at hu
      exact Or.inr ⟨u, by simpa [hut] using hu⟩
    | @accept t _ _ ht | @deliver t _ _ _ _ ht | @exit t ht | @serve t _ _ ht
    | @acceptFailed t _ _ ht | @initAccept t ht | @readFailed t _ _ ht | @respond t _ _ ht
    | @startWrite t _ ht | @responseSent t _ _ ht | @finish t _ ht =>
      have hut : u ≠ t := by
        rintro rfl
        simp [ht] at hu
      exact Or.inr ⟨u, by simpa [hut] using hu⟩

/-- A set flag stays set. -/
theorem Step.isStopped (h : Step size σ l σ' es) (hstopped : σ.isStopped = true) :
    σ'.isStopped = true := by
  cases h with
  | stopAcceptor => rfl
  | _ => exact hstopped

/-- A service is created behind a successful accept, and the test of the flag follows. -/
theorem Step.created (h : Step size σ l σ' es) : created es = [] ∨
    ∃ t ec sock, σ.threads t = .onAccept ec sock ∧ created es = [sock] ∧ Spent σ' := by
  cases h with
  | @serve t ec sock ht hec =>
    exact Or.inr ⟨t, ec, sock, ht, rfl, Or.inr ⟨t, Or.inl (by simp)⟩⟩
  | _ => exact Or.inl rfl

/-- Behind `Acceptor::Stop` one service is created at most. -/
theorem Run.late (h : Run size labels σ tr) {before after : List Event}
    (htr : tr = before ++ .stopSet :: after) : (created after).length ≤ 1 := by
  have hsince : σ.isStopped = true ∧
      (created after = [] ∨ (created after).length = 1 ∧ Spent σ) := by
    refine exec_since (P := fun _ σ after => σ.isStopped = true ∧
      (created after = [] ∨ (created after).length = 1 ∧ Spent σ)) ?_ ?_ h htr
    · intro as m tr₀ l σ' es front after _ hs hes
      obtain ⟨hstopped, rfl⟩ := (step_cases hs).stopping hes
      exact ⟨hstopped, Or.inl rfl⟩
    · intro as m tr₀ l σ' es _ after hexec ⟨hstopped, hcreated⟩ hs
      have hstep := step_cases hs
      refine ⟨hstep.isStopped hstopped, ?_⟩
      rw [created_append]
      rcases hcreated with hnone | ⟨hone, hspent⟩
      · rw [hnone, List.nil_append]
        exact hstep.created.imp_right fun ⟨_, _, sock, _, hsock, hspent⟩ =>
          ⟨by rw [hsock]; rfl, hspent⟩
      · rcases hstep.created with hes | ⟨t, ec, sock, ht, -⟩
        · rw [hes, List.append_nil]
          exact Or.inr ⟨hone, hstep.spent (Run.owned hexec) hstopped hspent⟩
        · exact absurd ht (hspent.not_serving (Run.owned hexec))
  rcases hsince.2 with hnone | ⟨hone, -⟩
  · rw [hnone]
    exact Nat.zero_le 1
  · exact hone.le

/-- A thread at this point has no service to create. -/
def Frame.NotServing (f : Frame) : Prop := ∀ ec sock, f = .onAccept ec sock → ec.value ≠ 0

/-- Only a thread that comes to `OnAccept` or leaves it changes what is served. -/
theorem serving_goto {t : ThreadId} {f g : Frame} (ht : σ.threads t = g) (hg : g.NotServing)
    (hf : f.NotServing) (sock : SocketId) : Serving (σ.goto t f) sock ↔ Serving σ sock := by
  constructor
  · rintro ⟨u, ec, hu, hec⟩
    by_cases hut : u = t
    · exact absurd hec (hf ec sock (by simpa [hut] using hu))
    · exact ⟨u, ec, by simpa [hut] using hu, hec⟩
  · rintro ⟨u, ec, hu, hec⟩
    have hut : u ≠ t := by
      rintro rfl
      exact hg ec sock (ht.symm.trans hu) hec
    exact ⟨u, ec, by simpa [hut] using hu, hec⟩

theorem Operation.notServing_handler (op : Operation) (ec : ErrorCode) (s : ServiceId) :
    (op.handler ec s).NotServing := by
  cases op <;> nofun

/-- What a step does with the connections that have still to be served. -/
theorem Step.serving (h : Step size σ l σ' es) (hi : Owned σ) :
    (accepted es = [] ∧ AsyncTcpServer.created es = [] ∧
        ∀ sock, Serving σ' sock ↔ Serving σ sock) ∨
      (∃ sock, accepted es = [sock] ∧ AsyncTcpServer.created es = [] ∧
        (∀ r, ¬Serving σ r) ∧ Serving σ' sock) ∨
      ∃ sock, accepted es = [] ∧ AsyncTcpServer.created es = [sock] ∧
        (∀ r, Serving σ r ↔ r = sock) ∧ ∀ r, ¬Serving σ' r := by
  cases h with
  | @accept t sock ec ht hios hsock =>
    have hnone := (hi.outstanding (List.ne_nil_of_mem hsock)).2.2
    by_cases hec : ec.value = 0
    · refine Or.inr (Or.inl ⟨sock, by simp [accepted, Event.acceptedOn, hec], rfl, ?_, ?_⟩)
      · rintro r ⟨u, ec', hu, -⟩
        have := hnone u
        rw [hu] at this
        cases this
      · exact ⟨t, ec, by simp, hec⟩
    · refine Or.inl ⟨by simp [accepted, Event.acceptedOn, hec], rfl, ?_⟩
      refine serving_goto (σ := σ.takeAccept sock) ht nofun ?_
      rintro _ _ ⟨⟩
      exact hec
  | @serve t ec sock ht hec =>
    have hunique : ∀ u ec' r, σ.threads u = .onAccept ec' r → u = t := fun u ec' r hu =>
      (hi.accepting ht rfl).2.2.2 u (by rw [hu]; rfl)
    refine Or.inr (Or.inr ⟨sock, rfl, rfl, fun r => ⟨?_, ?_⟩, ?_⟩)
    · rintro ⟨u, ec', hu, -⟩
      obtain rfl := hunique u ec' r hu
      rw [ht] at hu
      cases hu
      rfl
    · rintro rfl
      exact ⟨t, ec, ht, hec⟩
    · rintro r ⟨u, ec', hu, -⟩
      by_cases hut : u = t
      · simp [hut] at hu
      · exact hut (hunique u ec' r (by simpa [hut] using hu))
  | @acceptFailed t ec sock ht hec =>
    refine Or.inl ⟨rfl, rfl, serving_goto ht ?_ nofun⟩
    rintro _ _ ⟨⟩
    exact hec
  | @deliver t s op ec received ht =>
    exact Or.inl ⟨rfl, rfl, serving_goto (σ := σ.modify s _) ht nofun (op.notServing_handler ec s)⟩
  | createThread =>
    exact Or.inl ⟨rfl, rfl, serving_goto (hi.unborn σ.pool le_rfl) nofun nofun⟩
  | listen | firstAccept | stopAcceptor | stopService | join | transmit =>
    exact Or.inl ⟨rfl, rfl, fun _ => Iff.rfl⟩
  | @respond t ec s ht | @startWrite t s ht | @finish t s ht =>
    exact Or.inl ⟨rfl, rfl, serving_goto (σ := σ.modify s _) ht nofun nofun⟩
  | @initAccept t ht =>
    exact Or.inl ⟨rfl, rfl, serving_goto (σ := σ.initAccept) ht nofun nofun⟩
  | @close t ht => exact Or.inl ⟨rfl, rfl, serving_goto (σ := σ.close) ht nofun nofun⟩
  | exit ht | goOn ht | giveUp ht | readFailed ht | responseSent ht =>
    exact Or.inl ⟨rfl, rfl, serving_goto ht nofun nofun⟩

/-- Every successful accept has its service, in order, as soon as its handler has created it. -/
theorem Run.served (h : Run size labels σ tr) :
    (∀ sock, ¬Serving σ sock) ∧ accepted tr = created tr ∨
      ∃ sock, Serving σ sock ∧ accepted tr = created tr ++ [sock] := by
  refine exec_induction (P := fun _ σ tr => (∀ sock, ¬Serving σ sock) ∧
    accepted tr = created tr ∨ ∃ sock, Serving σ sock ∧ accepted tr = created tr ++ [sock])
    (Or.inl ⟨?_, rfl⟩) ?_ h
  · rintro sock ⟨t, ec, ht, -⟩
    cases ht
  · intro as m tr₀ l σ' es hexec ih hs
    rw [accepted_append, created_append]
    rcases (step_cases hs).serving (Run.owned hexec) with ⟨ha, hc, hsame⟩ |
      ⟨sock, ha, hc, hnone, hserving⟩ | ⟨sock, ha, hc, honly, hnone⟩
    · simpa only [ha, hc, List.append_nil, hsame] using ih
    · rcases ih with ⟨-, heq⟩ | ⟨r, hr, -⟩
      · exact Or.inr ⟨sock, hserving, by rw [ha, hc, heq, List.append_nil]⟩
      · exact absurd hr (hnone r)
    · rcases ih with ⟨hidle, -⟩ | ⟨r, hr, heq⟩
      · exact absurd ((honly sock).mpr rfl) (hidle sock)
      · obtain rfl := (honly r).mp hr
        exact Or.inl ⟨hnone, by rw [ha, hc, heq, List.append_nil]⟩

end

/-- What the accept loop keeps. -/
structure AcceptLoop (σ : State) (tr : List Event) : Prop where
  one_accept : σ.accepts.length ≤ 1
  /-- Behind the close no accept is outstanding or started. -/
  closed : ∀ before after, tr = before ++ .closed :: after →
    σ.accepts = [] ∧ ∀ sock, .acceptStarted sock ∉ after
  /-- The services are those of the successful accepts, unless a thread has still to create
  the last one. -/
  served : (∀ sock, ¬Serving σ sock) ∧ accepted tr = created tr ∨
    ∃ sock, Serving σ sock ∧ accepted tr = created tr ++ [sock]
  /-- Behind `Acceptor::Stop` one service is created at most. -/
  late : ∀ before after, tr = before ++ .stopSet :: after → (created after).length ≤ 1

/-- The accept loop keeps it in every run. -/
theorem acceptLoop_of_run {size : Nat} {labels : List Label} {σ : State} {tr : List Event}
    (h : Run size labels σ tr) : AcceptLoop σ tr where
  one_accept := h.owned.accepts_length_le
  closed _ _ := h.closed_since
  served := h.served
  late _ _ := h.late

/-- The flag is set while a thread stands behind its test. -/
def lateSchedule : List Label :=
  [.start, .start, .start, .start, .accept 0 0 .success, .run 0, .run 0, .stop, .run 0,
    .accept 1 1 .success, .run 1, .run 1, .run 1]

/-- Then one more connection is served before the acceptor is closed. -/
theorem lateSchedule_acceptLoop : ∃ σ tr, Run 2 lateSchedule σ tr ∧ σ.closed = true ∧
    created tr = [0, 1] ∧ AcceptLoop σ tr :=
  ⟨_, _, rfl, rfl, rfl, acceptLoop_of_run (show Run 2 lateSchedule _ _ from rfl)⟩

end BoostAsio.AsyncTcpServer

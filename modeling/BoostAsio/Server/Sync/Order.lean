import BoostAsio.Server.Sync.Sequential

/-!
# One client after the other

Clients are accepted in the order in which they have connected, and each one waits until all
that were accepted before it are served. `Stop` sets a flag that the thread reads between two
clients, so a thread that waits for a client when `Stop` is called accepts one more.
-/

namespace BoostAsio.SequentialServer

open BoostAsio.System

/-- The trace is the queue of those accepted, in front of the backlog. -/
structure Queued (tr : List ConnectionId) (σ : State) : Prop where
  sorted : (tr ++ σ.backlog).Pairwise (· < ·)
  born : ∀ i ∈ tr ++ σ.backlog, i < σ.links.length
  accepted : ∀ i x, σ.links[i]? = some x → (x.service ≠ none ↔ i ∈ tr)
  current : ∀ i, σ.acceptor = .handleClient i → tr.getLast? = some i
  served : ∀ i ∈ tr, σ.acceptor ≠ .handleClient i → σ.served i = true

section

variable {server : Server} {σ τ : State} {es tr : List ConnectionId} {labels : List Label}

theorem queued_start : Queued [] start where
  sorted := .nil
  born := fun _ h => absurd h List.not_mem_nil
  accepted := fun _ _ h => by cases h
  current := nofun
  served := fun _ h => absurd h List.not_mem_nil

/-- The steps of the threads that leave the connections alone. -/
theorem Queued.moves (hi : Queued tr σ) (hmoves : Moves σ τ) : Queued tr τ := by
  have hthread : ∀ (stop : Bool) (main : MainPoint) (acceptor : AcceptPoint),
      (∀ i, acceptor = .handleClient i → σ.acceptor = .handleClient i) →
      (∀ i, σ.acceptor = .handleClient i → acceptor ≠ .handleClient i → σ.served i = true) →
      Queued tr { σ with stop := stop, main := main, acceptor := acceptor } := by
    intro stop main acceptor hcurrent hserved
    refine ⟨hi.sorted, hi.born, hi.accepted, fun i h => hi.current i (hcurrent i h), ?_⟩
    intro i hmem hne
    by_cases h : σ.acceptor = .handleClient i
    · exact hserved i h hne
    · exact hi.served i hmem h
  cases hmoves with
  | stop => exact hthread _ _ _ (fun _ h => h) fun _ h hne => absurd h hne
  | join => exact hthread _ _ _ (fun _ h => h) fun _ h hne => absurd h hne
  | listen hpoint =>
    exact hthread _ _ _ nofun fun i h _ => by rw [hpoint] at h; cases h
  | terminate hpoint =>
    refine hthread _ _ _ nofun fun i h _ => ?_
    rcases hpoint with hpoint | hpoint <;> (rw [hpoint] at h; cases h)
  | testStop hpoint =>
    refine hthread _ _ _ (fun i h => ?_) fun i h _ => by rw [hpoint] at h; cases h
    split at h <;> cases h
  | handled hpoint hserved =>
    refine hthread _ _ _ nofun fun i h _ => ?_
    rw [hpoint] at h
    obtain rfl := AcceptPoint.handleClient.inj h
    exact hserved

/-- What is not set stays. -/
theorem served_set_ne {i j : ConnectionId} {y : Link} (h : i ≠ j) :
    ((σ.links.set i y)[j]?.bind Link.service).any Talk.finished = σ.served j := by
  rw [State.served, List.getElem?_set_ne h]

/-- The head of the backlog is accepted when all others accepted are served. -/
theorem Queued.accept (hi : Queued tr σ) {i : ConnectionId} {rest : List ConnectionId}
    {x y : Link} (hpoint : σ.acceptor = .accept) (hbacklog : σ.backlog = i :: rest)
    (hx : σ.links[i]? = some x) (hstep : x.step (handleClient server) .accept = some y) :
    Queued (tr ++ [i])
      { σ with links := σ.links.set i y, acceptor := .handleClient i, backlog := rest } := by
  have hsame : tr ++ [i] ++ rest = tr ++ σ.backlog := by
    rw [hbacklog, List.append_assoc, List.singleton_append]
  have hlt : i < σ.links.length := (List.getElem?_eq_some_iff.mp hx).1
  refine ⟨hsame ▸ hi.sorted, ?_, fun j z hz => ?_, fun j h => ?_, fun j hj hne => ?_⟩
  · simp only [List.length_set]
    rw [hsame]
    exact hi.born
  · rw [List.mem_append, List.mem_singleton]
    by_cases hij : i = j
    · subst hij
      rw [List.getElem?_set_self hlt] at hz
      obtain rfl := Option.some.inj hz
      rw [(Link.service_accept hstep).2]
      exact iff_of_true nofun (Or.inr rfl)
    · rw [List.getElem?_set_ne hij] at hz
      rw [hi.accepted j z hz]
      exact (or_iff_left (Ne.symm hij)).symm
  · obtain rfl := AcceptPoint.handleClient.inj h
    exact List.getLast?_concat
  · have hij : i ≠ j := fun h => hne (h ▸ rfl)
    have hmem : j ∈ tr := by
      rcases List.mem_append.mp hj with hj | hj
      · exact hj
      · exact absurd (List.mem_singleton.mp hj).symm hij
    refine (served_set_ne hij).trans (hi.served j hmem ?_)
    rw [hpoint]
    exact nofun

/-- A new connection goes to the end of the backlog. -/
theorem Queued.connect (hi : Queued tr σ) (script : List Blocking) :
    Queued tr
      { σ with
        links := σ.links ++ [.opened script]
        backlog := σ.backlog ++ [σ.links.length] } := by
  have hlt : ∀ i ∈ tr, i < σ.links.length := fun i h => hi.born i (List.mem_append_left _ h)
  refine ⟨?_, fun i h => ?_, fun i z hz => ?_, hi.current, fun i hmem hne => ?_⟩
  · rw [← List.append_assoc]
    refine List.pairwise_append.mpr ⟨hi.sorted, List.pairwise_singleton .., fun i h j hj => ?_⟩
    rw [List.mem_singleton.mp hj]
    exact hi.born i h
  · rw [← List.append_assoc] at h
    rw [List.length_append, List.length_singleton]
    rcases List.mem_append.mp h with h | h
    · exact Nat.lt_succ_of_lt (hi.born i h)
    · rw [List.mem_singleton.mp h]
      exact Nat.lt_succ_self _
  · rcases Nat.lt_or_ge i σ.links.length with h | h
    · rw [List.getElem?_append_left h] at hz
      exact hi.accepted i z hz
    · rw [List.getElem?_append_right h] at hz
      have hz' := List.mem_singleton.mp (List.mem_of_getElem? hz)
      rw [hz']
      exact iff_of_false (fun hne => hne rfl) fun hmem => absurd (hlt i hmem) (Nat.not_lt.mpr h)
  · have hsame := hi.served i hmem hne
    rw [State.served] at hsame ⊢
    rw [List.getElem?_append_left (hlt i hmem)]
    exact hsame

/-- A step of one connection. -/
theorem Queued.link (hi : Queued tr σ) {i : ConnectionId} {l : Link.Label} {x y : Link}
    (hallows : σ.allows i l = true) (hx : σ.links[i]? = some x)
    (hstep : x.step (handleClient server) l = some y) :
    Queued tr { σ with links := σ.links.set i y } := by
  have hl : l ≠ .accept := by
    rintro rfl
    cases hallows
  obtain ⟨hnone, hsame⟩ := Link.service_step hstep hl
  have hlt : i < σ.links.length := (List.getElem?_eq_some_iff.mp hx).1
  refine ⟨hi.sorted, ?_, fun j z hz => ?_, hi.current, fun j hmem hne => ?_⟩
  · rw [List.length_set]
    exact hi.born
  · by_cases hij : i = j
    · subst hij
      rw [List.getElem?_set_self hlt] at hz
      obtain rfl := Option.some.inj hz
      rw [Ne, hnone]
      exact hi.accepted i x hx
    · rw [List.getElem?_set_ne hij] at hz
      exact hi.accepted j z hz
  · have hserved := hi.served j hmem hne
    by_cases hij : i = j
    · subst hij
      have hother : ∀ ec received, l ≠ .service ec received := by
        rintro ec received rfl
        exact hne (of_decide_eq_true hallows)
      rw [State.served, hx] at hserved
      rw [State.served, List.getElem?_set_self hlt, Option.bind_some, hsame hother]
      exact hserved
    · exact (served_set_ne hij).trans hserved

/-- Every step keeps the queue. -/
theorem Queued.step (hi : Queued tr σ) (hs : Step server σ τ es) : Queued (tr ++ es) τ := by
  cases hs with
  | thread hmoves =>
    rw [List.append_nil]
    exact hi.moves hmoves
  | accept hpoint hbacklog hx hstep => exact hi.accept hpoint hbacklog hx hstep
  | connect =>
    rw [List.append_nil]
    exact hi.connect _
  | @drop i =>
    rw [List.append_nil]
    have hsub : (tr ++ σ.backlog.erase i).Sublist (tr ++ σ.backlog) :=
      List.Sublist.append_left (List.erase_sublist ..) tr
    exact ⟨hi.sorted.sublist hsub, fun j h => hi.born j (hsub.subset h), hi.accepted, hi.current,
      hi.served⟩
  | link hallows hx hstep =>
    rw [List.append_nil]
    exact hi.link hallows hx hstep

theorem queued_of_exec (h : exec (step server) start labels = some (σ, tr)) : Queued tr σ :=
  exec_induction (P := fun _ σ tr => Queued tr σ) queued_start
    (fun _ hi hstep => hi.step (step_cases hstep)) h

/-- What the order means to the clients. -/
structure InOrder (tr : List ConnectionId) (σ : State) : Prop where
  /-- Nobody is accepted before those who connected earlier and are still there. -/
  sorted : (tr ++ σ.backlog).Pairwise (· < ·)
  /-- The clients are served one at a time. -/
  alone : ∀ i ∈ tr, σ.served i = false → σ.acceptor = .handleClient i
  /-- Who has an answer was accepted, and behind all who connected earlier and were accepted. -/
  waits : ∀ i x, σ.links[i]? = some x → responses x ≠ [] →
    i ∈ tr ∧ ∀ j ∈ tr, j < i → σ.served j = true

/-- Only the last one accepted is being handled. -/
theorem Queued.served_of_lt (hi : Queued tr σ) {i j : ConnectionId} (hmem : i ∈ tr)
    (hj : j ∈ tr) (hlt : j < i) : σ.served j = true := by
  refine hi.served j hj fun hpoint => ?_
  obtain ⟨front, rfl⟩ := List.getLast?_eq_some_iff.mp (hi.current j hpoint)
  have hsorted := (List.pairwise_append.mp hi.sorted).1
  rcases List.mem_append.mp hmem with hmem | hmem
  · have hlast := (List.pairwise_append.mp hsorted).2.2 i hmem j (List.mem_singleton_self j)
    exact Nat.lt_asymm hlt hlast
  · rw [List.mem_singleton.mp hmem] at hlt
    exact Nat.lt_irrefl j hlt

/-- In every run the clients are served in the order in which they have connected. -/
theorem in_order_of_run (h : exec (step server) start labels = some (σ, tr)) : InOrder tr σ := by
  have hi := queued_of_exec h
  refine ⟨hi.sorted, fun i hmem hno => ?_, fun i x hx hresponses => ?_⟩
  · by_contra hne
    rw [hi.served i hmem hne] at hno
    cases hno
  · have hmem : i ∈ tr := by
      refine (hi.accepted i x hx).mp fun hnone => ?_
      obtain ⟨durationSec, durations, hjoined, hserved⟩ :=
        fits_of_exec h x (List.mem_of_getElem? hx)
      have hreads : x.client.reads ≠ [] := fun hnil => hresponses (by rw [responses, hnil]; rfl)
      obtain ⟨service, hs, -⟩ := hserved.order hreads
      rw [hnone] at hs
      cases hs
    exact ⟨hmem, fun j hj hlt => hi.served_of_lt hmem hj hlt⟩

end

/-- Two clients connect. The second one is ready first and is served behind the first one, which
breaks off. -/
def twoClientsSchedule : List Label :=
  [.listen .success, .acceptor, .connect 10 [], .connect 20 [], .link 1 (.sendUp 100),
    .link 1 (.client .success []), .accept .success, .link 0 (.client ⟨104, .system⟩ []),
    .link 0 (.service .eof []), .acceptor, .acceptor, .accept .success,
    .link 1 (.service .success (SyncTcpClient.encodeRequest 20)), .link 1 (.sendDown 100),
    .link 1 (.service .success []), .link 1 (.client .success (ascii "Response\n"))]

/-- The second client has its answer, and the first one is served. -/
theorem twoClientsSchedule_in_order : ∃ σ x,
    exec (step .syncTcp) start twoClientsSchedule = some (σ, [0, 1]) ∧
      σ.links[1]? = some x ∧ responses x = [.ok (ascii "Response")] ∧
      σ.served 0 = true := by
  obtain ⟨⟨σ, tr⟩, hrun, htr, x, hx, hreads⟩ :
      ∃ p ∈ exec (step .syncTcp) start twoClientsSchedule, p.2 = [0, 1] ∧
        ∃ x ∈ p.1.links[1]?, x.client.reads = [ascii "Response\n"] := by decide +kernel
  obtain rfl : tr = [0, 1] := htr
  have hresponses : responses x = [.ok (ascii "Response")] := by
    rw [responses, hreads]
    rfl
  have hne : responses x ≠ [] := by
    rw [hresponses]
    exact List.cons_ne_nil _ _
  obtain ⟨-, hserved⟩ := (in_order_of_run hrun).waits 1 x hx hne
  exact ⟨σ, x, hrun, hx, hresponses, hserved 0 (List.mem_cons_self ..) Nat.zero_lt_one⟩

section

variable {server : Server} {σ τ : State} {es tr : List ConnectionId} {labels : List Label}

/-- How many clients the thread accepts once the flag is set. -/
def State.due (σ : State) : Nat := if σ.acceptor = .accept then 1 else 0

/-- Once the flag is set, only a thread that waits for a client accepts one. -/
theorem Step.due (hs : Step server σ τ es) (hstop : σ.stop = true) :
    τ.stop = true ∧ (τ.acceptor = .terminated ∨ es.length + τ.due = σ.due) := by
  cases hs with
  | thread hmoves =>
    cases hmoves with
    | stop => exact ⟨rfl, Or.inr (Nat.zero_add _)⟩
    | join => exact ⟨hstop, Or.inr (Nat.zero_add _)⟩
    | listen hpoint => exact ⟨hstop, Or.inr (by simp [State.due, hpoint])⟩
    | terminate => exact ⟨hstop, Or.inl rfl⟩
    | testStop hpoint => exact ⟨hstop, Or.inr (by simp [State.due, hpoint, hstop])⟩
    | handled hpoint => exact ⟨hstop, Or.inr (by simp [State.due, hpoint])⟩
  | accept hpoint => exact ⟨hstop, Or.inr (by simp [State.due, hpoint])⟩
  | connect => exact ⟨hstop, Or.inr (Nat.zero_add _)⟩
  | drop => exact ⟨hstop, Or.inr (Nat.zero_add _)⟩
  | link => exact ⟨hstop, Or.inr (Nat.zero_add _)⟩

/-- A step begins in a process that is not over. -/
theorem not_over_of_step {l : Label} (h : step server σ l = some (τ, es)) : ¬σ.over :=
  (Option.ite_none_left_eq_some.mp h).1

theorem due_of_exec (hstop : σ.stop = true) (h : exec (step server) σ labels = some (τ, tr)) :
    τ.stop = true ∧ (τ.acceptor = .terminated ∨ tr.length + τ.due = σ.due) := by
  refine exec_induction (P := fun _ τ tr =>
    τ.stop = true ∧ (τ.acceptor = .terminated ∨ tr.length + τ.due = σ.due))
    ⟨hstop, Or.inr (Nat.zero_add _)⟩ ?_ h
  intro as m tr a t es _ hi hs
  have hsum := hi.2.resolve_left fun hpoint => not_over_of_step hs (Or.inl hpoint)
  obtain ⟨hstop', hdue⟩ := (step_cases hs).due hi.1
  refine ⟨hstop', hdue.imp_right fun hnext => ?_⟩
  rw [List.length_append]
  omega

/-- `Stop` returns behind the thread. -/
theorem returned_of_exec (hsleep : σ.main ≠ .returned)
    (h : exec (step server) σ labels = some (τ, tr)) :
    τ.main = .returned → τ.acceptor = .returned := by
  refine exec_induction (P := fun _ τ _ => τ.main = .returned → τ.acceptor = .returned)
    (fun hmain => absurd hmain hsleep) ?_ h
  intro as m tr a t es _ _ hs hmain
  have hbefore : m.main ≠ .returned := fun h => not_over_of_step hs (Or.inr h)
  cases step_cases hs with
  | thread hmoves =>
    cases hmoves with
    | stop => cases hmain
    | join hpoint hreturned => exact hreturned
    | listen | terminate | testStop | handled => exact absurd hmain hbefore
  | accept | connect | drop | link => exact absurd hmain hbefore

/-- When `Stop` has returned, all clients are served; exactly one of them was accepted after
the call when the thread was waiting for a client, and otherwise none. -/
theorem stop_accepts_due {before after : List Label}
    (hbefore : exec (step server) start before = some (σ, es)) (hsleep : σ.main = .sleep)
    (hafter : exec (step server) σ (.main :: after) = some (τ, tr))
    (hreturned : τ.main = .returned) :
    tr.length = σ.due ∧ ∀ i ∈ es ++ tr, τ.served i = true := by
  have hpoint : τ.acceptor = .returned :=
    returned_of_exec (by rw [hsleep]; decide) hafter hreturned
  refine ⟨?_, fun i hmem => ?_⟩
  · obtain ⟨m, fs, gs, hm, hrest, rfl⟩ := exec_cons.mp hafter
    have hstep : step server σ .main = some ({ σ with stop := true, main := .join }, []) := by
      have hrunning := not_over_of_step hm
      simp only [step, if_neg hrunning, advance, hsleep]
    rw [hstep] at hm
    obtain ⟨rfl, rfl⟩ := Prod.mk.inj (Option.some.inj hm)
    obtain ⟨-, hdue⟩ := due_of_exec rfl hrest
    have hsum := hdue.resolve_left (by rw [hpoint]; decide)
    have hnone : τ.due = 0 := by simp [State.due, hpoint]
    rw [hnone] at hsum
    exact hsum
  · have hall := exec_append_iff.mpr ⟨σ, es, tr, hbefore, hafter, rfl⟩
    refine (queued_of_exec hall).served i hmem fun hhandling => ?_
    rw [hpoint] at hhandling
    cases hhandling

end

/-- `Stop` is called while the thread waits for a client, so it takes a client to return. -/
def lateStopSchedule : List Label :=
  [.connect 10 [], .accept .success, .link 0 (.client ⟨104, .system⟩ []),
    .link 0 (.service .eof []), .acceptor, .acceptor, .main]

/-- One client is accepted behind `Stop`. -/
theorem lateStopSchedule_accepts : ∃ σ τ tr,
    exec (step .ssl) start [.listen .success, .acceptor] = some (σ, []) ∧
      exec (step .ssl) σ (.main :: lateStopSchedule) = some (τ, tr) ∧ tr.length = 1 := by
  obtain ⟨⟨σ, es⟩, hbefore, hes, hsleep, hdue, ⟨τ, tr⟩, hafter, hreturned⟩ :
      ∃ p ∈ exec (step .ssl) start [.listen .success, .acceptor],
        p.2 = [] ∧ p.1.main = .sleep ∧ p.1.due = 1 ∧
          ∃ q ∈ exec (step .ssl) p.1 (.main :: lateStopSchedule), q.1.main = .returned := by
    decide +kernel
  obtain rfl : es = [] := hes
  exact ⟨σ, τ, tr, hbefore, hafter, hdue ▸ (stop_accepts_due hbefore hsleep hafter hreturned).1⟩

end BoostAsio.SequentialServer

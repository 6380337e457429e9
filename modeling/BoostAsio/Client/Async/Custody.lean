import BoostAsio.Core.System.Ownership
import BoostAsio.Client.Async.Step

/-!
# Custody of a session's completion chain

Abstractly a session is a token: it is carried by one thread, or it is with Asio as
one pending operation, or its chain has ended. Every step of the client keeps the
token or hands it over, so no session is ever in two places and none gets lost.
-/

namespace BoostAsio.AsyncTcpClient

open BoostAsio.System

/-- Where the token of a session is. -/
inductive Custody
  | unborn
  | thread (t : ThreadId)
  | asio
  | ended

/-- The session whose chain a program point carries on. A handler that has started the
next operation, or returned from `OnRequestComplete`, carries nothing any more. -/
def Frame.carries : Frame → Option SessionId
  | .openSocket s | .registerLock s | .registerInsert s | .registerUnlock s | .asyncConnect s
  | .handler _ _ s | .lockGuard _ s | .checkFlag _ s | .startNext _ s | .getResponse s
  | .complete _ s _ => some s
  | _ => none

/-- The chain of a session is over once one of these events has occurred. -/
def Ended (tr : List Event) (s : SessionId) : Prop :=
  .completed s ∈ tr ∨ .openFailed s ∈ tr

/-- The concrete state holds exactly the tokens of an abstract placement. -/
structure Holds (σ : State) (tr : List Event) (place : SessionId → Custody) : Prop where
  unborn : ∀ s, place s = .unborn ↔ σ.count ≤ s
  thread : ∀ s t, place s = .thread t ↔ (σ.threads t).carries = some s
  asio : ∀ s, place s = .asio → ∃ p, (σ.sessions s).pending = [p]
  quiet : ∀ s, place s ≠ .asio → (σ.sessions s).pending = []
  ended : ∀ s, place s = .ended ↔ Ended tr s

theorem Holds.init : Holds State.init [] fun _ => .unborn where
  unborn s := by simp [State.init]
  thread s t := by simp [State.init, Frame.carries]
  asio s h := by cases h
  quiet s _ := rfl
  ended s := by simp [Ended]

@[simp] theorem ended_append {tr es : List Event} {s : SessionId} :
    Ended (tr ++ es) s ↔ Ended tr s ∨ Ended es s := by
  simp only [Ended, List.mem_append]
  exact or_or_or_comm

/-- What a step can do with the tokens: leave them, create one, hand one to Asio, take one
back for a handler, or end one. -/
inductive Transfer (σ σ' : State) (es : List Event) : Prop
  | keep (hthreads : ∀ u, (σ'.threads u).carries = (σ.threads u).carries)
      (hpending : ∀ r, (σ'.sessions r).pending.length = (σ.sessions r).pending.length)
      (hcount : σ'.count = σ.count) (hes : ∀ r, ¬Ended es r)
  | create (t : ThreadId) (hidle : (σ.threads t).carries = none)
      (hthreads : ∀ u, (σ'.threads u).carries =
        if u = t then some σ.count else (σ.threads u).carries)
      (hpending : ∀ r, (σ'.sessions r).pending.length =
        if r = σ.count then 0 else (σ.sessions r).pending.length)
      (hcount : σ'.count = σ.count + 1) (hes : ∀ r, ¬Ended es r)
  | start (t : ThreadId) (s : SessionId) (hcarried : (σ.threads t).carries = some s)
      (hthreads : ∀ u, (σ'.threads u).carries = if u = t then none else (σ.threads u).carries)
      (hpending : ∀ r, (σ'.sessions r).pending.length =
        (σ.sessions r).pending.length + if r = s then 1 else 0)
      (hcount : σ'.count = σ.count) (hes : ∀ r, ¬Ended es r)
  | deliver (t : ThreadId) (s : SessionId) (hidle : (σ.threads t).carries = none)
      (hsome : (σ.sessions s).pending ≠ [])
      (hthreads : ∀ u, (σ'.threads u).carries = if u = t then some s else (σ.threads u).carries)
      (hpending : ∀ r, (σ'.sessions r).pending.length =
        (σ.sessions r).pending.length - if r = s then 1 else 0)
      (hcount : σ'.count = σ.count) (hes : ∀ r, ¬Ended es r)
  | finish (t : ThreadId) (s : SessionId) (hcarried : (σ.threads t).carries = some s)
      (hthreads : ∀ u, (σ'.threads u).carries = if u = t then none else (σ.threads u).carries)
      (hpending : ∀ r, (σ'.sessions r).pending.length = (σ.sessions r).pending.length)
      (hcount : σ'.count = σ.count) (hes : ∀ r, Ended es r ↔ r = s)

/-- Every step moves the token of at most one session. -/
theorem Step.transfer {n : Nat} {σ σ' : State} {es : List Event} {l : Label}
    (h : Step n σ l σ' es) : Transfer σ σ' es := by
  cases h with
  | @emulate t d id hpool ht =>
    refine .create t (by simp [ht, Frame.carries])
      (State.threads_change Frame.carries (fun u => State.threads_create ..) rfl) (fun r => ?_)
      rfl (by simp [Ended])
    by_cases hr : r = σ.count <;> simp [hr, Session.new]
  | @asyncConnect t s ht | @startNext t next s ht =>
    refine .start t s (by simp [ht, Frame.carries])
      (State.threads_change Frame.carries (fun u => State.threads_goto ..) rfl) (fun r => ?_)
      rfl (by simp [Ended])
    by_cases hr : r = s <;> simp [hr, Session.start]
  | @deliver t s p ec received hpool ht hp =>
    refine .deliver t s (by simp [ht, Frame.carries]) (List.ne_nil_of_mem hp)
      (State.threads_change Frame.carries (fun u => State.threads_goto ..) rfl) (fun r => ?_)
      rfl (by simp [Ended])
    by_cases hr : r = s
    · simp [hr, Session.finish, List.length_erase_of_mem hp]
    · simp [hr]
  | @openThrows t s ht | @returnGuarded t s ht | @returnUnguarded t s ht =>
    exact .finish t s (by simp [ht, Frame.carries])
      (State.threads_change Frame.carries (fun u => State.threads_goto ..) rfl) (fun r => rfl)
      rfl (by simp [Ended])
  | @cancelSocket t s ht =>
    refine .keep (State.threads_keep Frame.carries (fun u => State.threads_goto ..)
      (by rw [ht]; rfl)) (fun r => ?_) rfl (by simp [Ended])
    by_cases hr : r = s <;> simp [hr, Session.cancelSocket]
  | cancelLockGuard ht | cancelSetFlag ht | cancelUnlockGuard ht | handlerFailed ht
  | lockGuard ht | getResponse ht | leave ht =>
    refine .keep (State.threads_keep Frame.carries (fun u => State.threads_goto ..)
      (by rw [ht]; rfl)) (fun r => ?_) rfl (by simp [Ended])
    rw [State.sessions_goto, State.sessions_modify_keep Session.pending rfl]
  | cancelRequest hpool ht =>
    exact .keep (State.threads_keep Frame.carries (fun u => State.threads_goto ..)
      (by rw [ht]; rfl)) (fun r => rfl) rfl (by simp [Ended])
  | _ ht =>
    exact .keep (State.threads_keep Frame.carries (fun u => State.threads_goto ..)
      (by rw [ht]; rfl)) (fun r => rfl) rfl (by simp [Ended])

/-- The thread that has a token. -/
def Custody.holder : Custody → Option ThreadId
  | .thread t => some t
  | .unborn | .asio | .ended => none

theorem Custody.holder_eq {x : Custody} {t : ThreadId} :
    x.holder = some t ↔ x = .thread t := by
  cases x <;> simp [Custody.holder]

/-- The tokens with threads are those that the threads carry. -/
theorem Holds.carried {σ : State} {tr : List Event} {place : SessionId → Custody}
    (h : Holds σ tr place) :
    Matches (Custody.holder ∘ place) fun t => (σ.threads t).carries :=
  fun s t => Custody.holder_eq.trans (h.thread s t)

/-- How many operations are pending for a token. -/
def Custody.pendings : Custody → Nat
  | .asio => 1
  | .unborn | .thread _ | .ended => 0

theorem Custody.pendings_of_ne {x : Custody} (h : x ≠ .asio) : x.pendings = 0 := by
  cases x with
  | asio => exact absurd rfl h
  | unborn | thread t | ended => rfl

/-- What is pending matters only by its length. -/
private theorem Holds.of_length {σ : State} {tr : List Event} {place : SessionId → Custody}
    (unborn : ∀ s, place s = .unborn ↔ σ.count ≤ s)
    (thread : ∀ s t, place s = .thread t ↔ (σ.threads t).carries = some s)
    (pending : ∀ s, (σ.sessions s).pending.length = (place s).pendings)
    (ended : ∀ s, place s = .ended ↔ Ended tr s) : Holds σ tr place where
  unborn := unborn
  thread := thread
  asio s h := by
    apply List.length_eq_one_iff.mp
    rw [pending, h]
    rfl
  quiet s h := by
    apply List.length_eq_zero_iff.mp
    rw [pending, Custody.pendings_of_ne h]
  ended := ended

theorem Holds.pendings {σ : State} {tr : List Event} {place : SessionId → Custody}
    (hi : Holds σ tr place) (s : SessionId) :
    (σ.sessions s).pending.length = (place s).pendings := by
  by_cases hs : place s = .asio
  · rw [hs]
    exact List.length_eq_one_iff.mpr (hi.asio s hs)
  · rw [Custody.pendings_of_ne hs]
    exact List.length_eq_zero_iff.mpr (hi.quiet s hs)

/-- One token changes its place, and nothing is different for the others. -/
private theorem Holds.put {σ σ' : State} {tr es : List Event} {place : SessionId → Custody}
    (hi : Holds σ tr place) {s : SessionId} {x : Custody}
    (hcarries : Matches (Function.update (Custody.holder ∘ place) s x.holder) fun t =>
      (σ'.threads t).carries)
    (hcount : ∀ r, r ≠ s → (σ'.count ≤ r ↔ σ.count ≤ r))
    (hpending : ∀ r, r ≠ s →
      (σ'.sessions r).pending.length = (σ.sessions r).pending.length)
    (hes : ∀ r, r ≠ s → ¬Ended es r) (hborn : x = .unborn ↔ σ'.count ≤ s)
    (hlength : (σ'.sessions s).pending.length = x.pendings)
    (hended : x = .ended ↔ Ended (tr ++ es) s) :
    Holds σ' (tr ++ es) (Function.update place s x) := by
  rw [← Function.comp_update] at hcarries
  apply Holds.of_length
  · intro r
    by_cases hr : r = s
    · rw [hr, Function.update_self, hborn]
    · rw [Function.update_of_ne hr, hi.unborn, hcount r hr]
  · intro r t
    rw [← Custody.holder_eq]
    exact hcarries r t
  · intro r
    by_cases hr : r = s
    · rw [hr, Function.update_self, hlength]
    · rw [Function.update_of_ne hr, hpending r hr, hi.pendings]
  · intro r
    by_cases hr : r = s
    · rw [hr, Function.update_self, hended]
    · rw [Function.update_of_ne hr, hi.ended, ended_append, or_iff_left (hes r hr)]

/-- The place of each session follows the transfers of its token. -/
theorem Holds.transfer {σ σ' : State} {tr es : List Event} {place : SessionId → Custody}
    (hi : Holds σ tr place) (h : Transfer σ σ' es) : ∃ place', Holds σ' (tr ++ es) place' := by
  have hbefore : ∀ {s x}, place s = x → x ≠ .unborn → x ≠ .ended →
      ¬σ.count ≤ s ∧ ¬Ended tr s := by
    rintro s x rfl hborn hended
    exact ⟨mt (hi.unborn s).mpr hborn, mt (hi.ended s).mpr hended⟩
  cases h with
  | keep hthreads hpending hcount hes =>
    refine ⟨place, .of_length (fun r => ?_) (fun r u => ?_) (fun r => ?_) (fun r => ?_)⟩
    · rw [hcount, hi.unborn r]
    · rw [hthreads, hi.thread r u]
    · rw [hpending, hi.pendings]
    · rw [hi.ended, ended_append, or_iff_left (hes r)]
  | create t hidle hthreads hpending hcount hes =>
    have hplace : place σ.count = .unborn := (hi.unborn _).mpr le_rfl
    have hnot : ¬Ended tr σ.count := by simp [← hi.ended, hplace]
    have hfree : (Custody.holder ∘ place) σ.count = none := by simp [hplace, Custody.holder]
    refine ⟨_, hi.put (x := .thread t) (hi.carried.gain hfree hidle hthreads) (fun r hr => ?_)
      (fun r hr => ?_) (fun r _ => hes r) ?_ ?_ ?_⟩
    · rw [hcount]
      exact ⟨Nat.le_of_succ_le, fun hle => Nat.lt_of_le_of_ne hle (Ne.symm hr)⟩
    · rw [hpending, if_neg hr]
    · simp [hcount]
    · rw [hpending, if_pos rfl]
      rfl
    · simp [hnot, hes]
  | start t s hcarried hthreads hpending hcount hes =>
    have hplace : place s = .thread t := (hi.thread s t).mpr hcarried
    obtain ⟨hborn, hnot⟩ := hbefore hplace (by simp) (by simp)
    refine ⟨_, hi.put (x := .asio) (hi.carried.lose hcarried hthreads) (fun r _ => by rw [hcount])
      (fun r hr => ?_) (fun r _ => hes r) ?_ ?_ ?_⟩
    · rw [hpending, if_neg hr, Nat.add_zero]
    · simp [hcount, hborn]
    · rw [hpending, if_pos rfl, hi.pendings, hplace]
      rfl
    · simp [hnot, hes]
  | deliver t s hidle hsome hthreads hpending hcount hes =>
    have hplace : place s = .asio := by
      by_contra hne
      exact hsome (hi.quiet s hne)
    obtain ⟨hborn, hnot⟩ := hbefore hplace (by simp) (by simp)
    have hfree : (Custody.holder ∘ place) s = none := by simp [hplace, Custody.holder]
    refine ⟨_, hi.put (x := .thread t) (hi.carried.gain hfree hidle hthreads)
      (fun r _ => by rw [hcount]) (fun r hr => ?_) (fun r _ => hes r) ?_ ?_ ?_⟩
    · rw [hpending, if_neg hr, Nat.sub_zero]
    · simp [hcount, hborn]
    · rw [hpending, if_pos rfl, hi.pendings, hplace]
      rfl
    · simp [hnot, hes]
  | finish t s hcarried hthreads hpending hcount hes =>
    have hplace : place s = .thread t := (hi.thread s t).mpr hcarried
    obtain ⟨hborn, -⟩ := hbefore hplace (by simp) (by simp)
    refine ⟨_, hi.put (x := .ended) (hi.carried.lose hcarried hthreads)
      (fun r _ => by rw [hcount]) (fun r _ => hpending r) (fun r hr => mt (hes r).mp hr) ?_ ?_ ?_⟩
    · simp [hcount, hborn]
    · rw [hpending, hi.pendings, hplace]
      rfl
    · simp [hes]

/-- A step keeps every token where it is, or moves the token of its own session. -/
theorem Holds.step {n : Nat} {σ σ' : State} {tr es : List Event} {l : Label}
    {place : SessionId → Custody} (hi : Holds σ tr place) (h : Step n σ l σ' es) :
    ∃ place', Holds σ' (tr ++ es) place' :=
  hi.transfer h.transfer

/-- Every run places each session's token exactly once. -/
theorem Run.holds {n : Nat} {labels : List Label} {σ : State} {tr : List Event}
    (h : Run n labels σ tr) : ∃ place, Holds σ tr place :=
  Run.induction (P := fun σ tr => ∃ place, Holds σ tr place) ⟨_, .init⟩
    (fun _ ⟨_, hi⟩ hs => hi.step hs) h

section

variable {σ : State} {tr : List Event} {place : SessionId → Custody} {t u : ThreadId}
  {s : SessionId}

/-- No two threads carry one session. -/
theorem Holds.unique (hi : Holds σ tr place) (ht : (σ.threads t).carries = some s)
    (hu : (σ.threads u).carries = some s) : t = u :=
  hi.carried.unique ht hu

/-- A carried session has not ended. -/
theorem Holds.not_ended (hi : Holds σ tr place) (ht : (σ.threads t).carries = some s) :
    ¬Ended tr s := by
  rw [← hi.ended, (hi.thread s t).mpr ht]
  exact fun h => by cases h

/-- A carried session has nothing pending. -/
theorem Holds.pending_of_carried (hi : Holds σ tr place)
    (ht : (σ.threads t).carries = some s) : (σ.sessions s).pending = [] :=
  hi.quiet s (by simp [(hi.thread s t).mpr ht])

/-- A carried session was created. -/
theorem Holds.lt_count (hi : Holds σ tr place) (ht : (σ.threads t).carries = some s) :
    s < σ.count := by
  by_contra hlt
  have hplace := (hi.thread s t).mpr ht
  rw [(hi.unborn s).mpr (Nat.le_of_not_lt hlt)] at hplace
  cases hplace

/-- A session has at most one pending operation. -/
theorem Holds.length_pending_le (hi : Holds σ tr place) (s : SessionId) :
    (σ.sessions s).pending.length ≤ 1 := by
  by_cases hs : place s = .asio
  · obtain ⟨p, hp⟩ := hi.asio s hs
    simp [hp]
  · simp [hi.quiet s hs]

end

end BoostAsio.AsyncTcpClient

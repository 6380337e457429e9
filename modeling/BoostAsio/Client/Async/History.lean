import BoostAsio.Core.System.History
import BoostAsio.Client.Async.Completion

/-!
# Registrations, erasures and cancellations in the order of a run

The notes of a run tell when a session was registered, when its `OnRequestComplete`
came to the erase, and when a `CancelRequest` called `m_sock.cancel()` and returned. A
session is erased at most behind the end of its registration.
-/

namespace BoostAsio.AsyncTcpClient

/-- What a step says about the map and the sockets. -/
inductive Note
  /-- `m_active_sessions[request_id] = session`. -/
  | registered (id : UInt32) (s : SessionId)
  /-- `OnRequestComplete` has looked up the id of its session and erased the entry. -/
  | erased (s : SessionId)
  /-- `CancelRequest` has called `m_sock.cancel()` of the session. -/
  | cancelled (t : ThreadId) (s : SessionId)
  /-- `CancelRequest` has returned. -/
  | returned (t : ThreadId)
  deriving DecidableEq, Repr

/-- The notes of a step. -/
def note (σ : State) : Label → List Note
  | .run t =>
    match σ.threads t with
    | .registerInsert s => [.registered (σ.sessions s).id s]
    | .complete .erase s _ => [.erased s]
    | .cancelSocket s => [.cancelled t s]
    | .cancelUnlock => [.returned t]
    | _ => []
  | _ => []

/-- The notes of a run. -/
abbrev notes (n : Nat) (labels : List Label) : List Note :=
  System.history (step n) note State.init labels

/-- The session that was registered last under an id. -/
def latest (id : UInt32) (h : List Note) : Option SessionId :=
  h.foldl (fun last e => match e with
    | .registered i s => if i = id then some s else last
    | _ => last) none

@[simp] theorem latest_nil (id : UInt32) : latest id [] = none := rfl

theorem latest_append_registered (id i : UInt32) (h : List Note) (s : SessionId) :
    latest id (h ++ [.registered i s]) = if i = id then some s else latest id h := by
  simp [latest]

/-- Only a registration changes which session was registered last. -/
theorem latest_append {h' : List Note} (hnone : ∀ i s, .registered i s ∉ h') (id : UInt32)
    (h : List Note) : latest id (h ++ h') = latest id h := by
  induction h' generalizing h with
  | nil => rw [List.append_nil]
  | cons e h' ih =>
    have hone : latest id (h ++ [e]) = latest id h := by
      cases e with
      | registered i s => exact absurd (List.mem_cons_self ..) (hnone i s)
      | _ => simp [latest]
    rw [← List.singleton_append, ← List.append_assoc, ih (fun i s hm =>
      hnone i s (List.mem_cons_of_mem _ hm)), hone]

section

variable {n : Nat} {σ σ' : State} {es : List Event} {l : Label}

/-- What the steps preserve of the state, the trace and the notes holds after every run. -/
theorem Run.induction_notes {P : List Label → State → List Event → List Note → Prop}
    (init : P [] State.init [] [])
    (hstep : ∀ {as σ tr l σ' es}, Run n as σ tr → P as σ tr (notes n as) → Step n σ l σ' es →
      P (as ++ [l]) σ' (tr ++ es) (notes n as ++ note σ l))
    {labels : List Label} {σ : State} {tr : List Event} (h : Run n labels σ tr) :
    P labels σ tr (notes n labels) := by
  refine System.exec_induction (P := fun as σ tr => P as σ tr (notes n as)) init ?_ h
  intro as σ tr l σ' es hrun hp hs
  rw [notes, System.history_snoc hrun hs]
  exact hstep hrun hp (step_cases hs)

/-- What a step does to the map, and what it says about it. -/
theorem Step.note_cases (h : Step n σ l σ' es) :
    (∃ t s, σ.threads t = .registerInsert s ∧
      note σ l = [.registered (σ.sessions s).id s] ∧
      ∀ i, σ'.activeSessions i =
        if i = (σ.sessions s).id then some s else σ.activeSessions i) ∨
    (∃ t s guarded, l = .run t ∧ σ.threads t = .complete .erase s guarded ∧
      note σ l = [.erased s] ∧
      ∀ i, σ'.activeSessions i =
        if i = (σ.sessions s).id then none else σ.activeSessions i) ∨
    (∀ i s, .registered i s ∉ note σ l) ∧ (∀ s, .erased s ∉ note σ l) ∧
      ∀ i, σ'.activeSessions i = σ.activeSessions i := by
  cases h with
  | @registerInsert t s ht => exact Or.inl ⟨t, s, ht, by simp [note, ht], fun i => by simp⟩
  | @erase t s guarded ht =>
    exact Or.inr (Or.inl ⟨t, s, guarded, rfl, ht, by simp [note, ht], fun i => by simp⟩)
  | emulate | cancelRequest | deliver | openThrows =>
    exact Or.inr (Or.inr ⟨by simp [note], by simp [note], fun i => rfl⟩)
  | _ => exact Or.inr (Or.inr ⟨by simp [note, *], by simp [note, *], fun i => rfl⟩)

/-- A session is erased by the thread that stands at its erase. -/
theorem mem_note_erased {s : SessionId} (hm : .erased s ∈ note σ l) :
    ∃ t guarded, l = .run t ∧ σ.threads t = .complete .erase s guarded := by
  cases l with
  | run t =>
    simp only [note] at hm
    split at hm <;> simp_all
  | _ => simp [note] at hm

end

end BoostAsio.AsyncTcpClient

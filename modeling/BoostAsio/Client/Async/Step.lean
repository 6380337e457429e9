import BoostAsio.Client.Async.State

/-!
# What one step of the asynchronous client does

`Step` names every way a label can be executed, with the program point it leaves,
the guard it needs and the exact successor. It is read off the executable step
once, and all later invariants are case analyses of it.
-/

namespace BoostAsio.AsyncTcpClient

namespace State

/-- The successor of a call of `EmulateLongComputationOp`: one more session. -/
def create (σ : State) (t : ThreadId) (x : Session) : State :=
  State.goto { σ with sessions := Function.update σ.sessions σ.count x, count := σ.count + 1 } t
    (.openSocket σ.count)

variable (σ : State) (t u : ThreadId) (f : Frame) (s r : SessionId) (g : Session → Session)
  (owner : Option ThreadId) (id i : UInt32) (entry : Option SessionId) (x : Session)

@[simp] theorem threads_goto :
    (σ.goto t f).threads u = if u = t then f else σ.threads u := Function.update_apply ..
@[simp] theorem sessions_goto : (σ.goto t f).sessions r = σ.sessions r := rfl
@[simp] theorem count_goto : (σ.goto t f).count = σ.count := rfl
@[simp] theorem activeSessions_goto :
    (σ.goto t f).activeSessions i = σ.activeSessions i := rfl
@[simp] theorem activeSessionsGuard_goto :
    (σ.goto t f).activeSessionsGuard = σ.activeSessionsGuard := rfl

@[simp] theorem threads_modify : (σ.modify s g).threads u = σ.threads u := rfl
@[simp] theorem sessions_modify :
    (σ.modify s g).sessions r = if r = s then g (σ.sessions s) else σ.sessions r :=
  Function.update_apply ..
@[simp] theorem count_modify : (σ.modify s g).count = σ.count := rfl
@[simp] theorem activeSessions_modify :
    (σ.modify s g).activeSessions i = σ.activeSessions i := rfl
@[simp] theorem activeSessionsGuard_modify :
    (σ.modify s g).activeSessionsGuard = σ.activeSessionsGuard := rfl

@[simp] theorem threads_setGuard : (σ.setGuard owner).threads u = σ.threads u := rfl
@[simp] theorem sessions_setGuard : (σ.setGuard owner).sessions r = σ.sessions r := rfl
@[simp] theorem count_setGuard : (σ.setGuard owner).count = σ.count := rfl
@[simp] theorem activeSessions_setGuard :
    (σ.setGuard owner).activeSessions i = σ.activeSessions i := rfl
@[simp] theorem activeSessionsGuard_setGuard :
    (σ.setGuard owner).activeSessionsGuard = owner := rfl

@[simp] theorem threads_setActive : (σ.setActive id entry).threads u = σ.threads u := rfl
@[simp] theorem sessions_setActive :
    (σ.setActive id entry).sessions r = σ.sessions r := rfl
@[simp] theorem count_setActive : (σ.setActive id entry).count = σ.count := rfl
@[simp] theorem activeSessions_setActive :
    (σ.setActive id entry).activeSessions i = if i = id then entry else σ.activeSessions i :=
  Function.update_apply ..
@[simp] theorem activeSessionsGuard_setActive :
    (σ.setActive id entry).activeSessionsGuard = σ.activeSessionsGuard := rfl

@[simp] theorem threads_create :
    (σ.create t x).threads u = if u = t then .openSocket σ.count else σ.threads u :=
  Function.update_apply ..
@[simp] theorem sessions_create :
    (σ.create t x).sessions r = if r = σ.count then x else σ.sessions r :=
  Function.update_apply ..
@[simp] theorem count_create : (σ.create t x).count = σ.count + 1 := rfl
@[simp] theorem activeSessions_create :
    (σ.create t x).activeSessions i = σ.activeSessions i := rfl
@[simp] theorem activeSessionsGuard_create :
    (σ.create t x).activeSessionsGuard = σ.activeSessionsGuard := rfl

end State

/-- Every executable step, by the program point it leaves. -/
inductive Step (numOfThreads : Nat) (σ : State) : Label → State → List Event → Prop
  | emulate {t d id} (hpool : numOfThreads ≤ t) (ht : σ.threads t = .idle) :
      Step numOfThreads σ (.emulate t d id) (σ.create t (.new (encodeRequest d) id)) []
  | openThrows {t s} (ht : σ.threads t = .openSocket s) :
      Step numOfThreads σ (.openThrows t) (σ.goto t .idle) [.openFailed s]
  | openSocket {t s} (ht : σ.threads t = .openSocket s) :
      Step numOfThreads σ (.run t) (σ.goto t (.registerLock s)) []
  | registerLock {t s} (ht : σ.threads t = .registerLock s)
      (hfree : σ.activeSessionsGuard = none) :
      Step numOfThreads σ (.run t) ((σ.setGuard (some t)).goto t (.registerInsert s)) []
  | registerInsert {t s} (ht : σ.threads t = .registerInsert s) :
      Step numOfThreads σ (.run t)
        ((σ.setActive (σ.sessions s).id (some s)).goto t (.registerUnlock s)) []
  | registerUnlock {t s} (ht : σ.threads t = .registerUnlock s) :
      Step numOfThreads σ (.run t) ((σ.setGuard none).goto t (.asyncConnect s)) []
  | asyncConnect {t s} (ht : σ.threads t = .asyncConnect s) :
      Step numOfThreads σ (.run t) ((σ.modify s (.start .connect)).goto t .idle) [.emulated s]
  | cancelRequest {t id} (hpool : numOfThreads ≤ t) (ht : σ.threads t = .idle) :
      Step numOfThreads σ (.cancelRequest t id) (σ.goto t (.cancelLock id)) []
  | cancelLock {t id} (ht : σ.threads t = .cancelLock id)
      (hfree : σ.activeSessionsGuard = none) :
      Step numOfThreads σ (.run t) ((σ.setGuard (some t)).goto t (.cancelFind id)) []
  | cancelFound {t id s} (ht : σ.threads t = .cancelFind id)
      (hentry : σ.activeSessions id = some s) :
      Step numOfThreads σ (.run t) (σ.goto t (.cancelLockGuard s)) [.found s]
  | cancelMissing {t id} (ht : σ.threads t = .cancelFind id)
      (hentry : σ.activeSessions id = none) :
      Step numOfThreads σ (.run t) (σ.goto t .cancelUnlock) []
  | cancelLockGuard {t s} (ht : σ.threads t = .cancelLockGuard s)
      (hfree : (σ.sessions s).cancelGuard = none) :
      Step numOfThreads σ (.run t)
        ((σ.modify s (.setGuard (some t))).goto t (.cancelSetFlag s)) []
  | cancelSetFlag {t s} (ht : σ.threads t = .cancelSetFlag s) :
      Step numOfThreads σ (.run t)
        ((σ.modify s fun x => { x with wasCancelled := true }).goto t (.cancelSocket s)) []
  | cancelSocket {t s} (ht : σ.threads t = .cancelSocket s) :
      Step numOfThreads σ (.run t)
        ((σ.modify s .cancelSocket).goto t (.cancelUnlockGuard s)) []
  | cancelUnlockGuard {t s} (ht : σ.threads t = .cancelUnlockGuard s) :
      Step numOfThreads σ (.run t) ((σ.modify s (.setGuard none)).goto t .cancelUnlock) []
  | cancelUnlock {t} (ht : σ.threads t = .cancelUnlock) :
      Step numOfThreads σ (.run t) ((σ.setGuard none).goto t .idle) []
  | deliver {t s p ec received} (hpool : t < numOfThreads) (ht : σ.threads t = .idle)
      (hp : p ∈ (σ.sessions s).pending) :
      Step numOfThreads σ (.deliver t s p ec received)
        ((σ.modify s (.finish p received)).goto t (.handler p.op ec s)) [.delivered s p.op ec]
  | handlerFailed {t op ec s} (ht : σ.threads t = .handler op ec s) (hec : ec.value ≠ 0) :
      Step numOfThreads σ (.run t)
        ((σ.modify s fun x => { x with ec := ec }).goto t (.complete .shutdown s false)) []
  | handlerNext {t op ec s next} (ht : σ.threads t = .handler op ec s) (hec : ec.value = 0)
      (hnext : op.next = some next) :
      Step numOfThreads σ (.run t) (σ.goto t (.lockGuard next s)) []
  | handlerLast {t op ec s} (ht : σ.threads t = .handler op ec s) (hec : ec.value = 0)
      (hnext : op.next = none) :
      Step numOfThreads σ (.run t) (σ.goto t (.getResponse s)) []
  | lockGuard {t next s} (ht : σ.threads t = .lockGuard next s)
      (hfree : (σ.sessions s).cancelGuard = none) :
      Step numOfThreads σ (.run t)
        ((σ.modify s (.setGuard (some t))).goto t (.checkFlag next s)) []
  | checkCancelled {t next s} (ht : σ.threads t = .checkFlag next s)
      (hflag : (σ.sessions s).wasCancelled = true) :
      Step numOfThreads σ (.run t) (σ.goto t (.complete .shutdown s true)) []
  | checkPassed {t next s} (ht : σ.threads t = .checkFlag next s)
      (hflag : (σ.sessions s).wasCancelled = false) :
      Step numOfThreads σ (.run t) (σ.goto t (.startNext next s)) []
  | startNext {t next s} (ht : σ.threads t = .startNext next s) :
      Step numOfThreads σ (.run t) ((σ.modify s (.start next)).goto t (.leave s)) []
  | getResponse {t s} (ht : σ.threads t = .getResponse s) :
      Step numOfThreads σ (.run t)
        ((σ.modify s .getResponse).goto t (.complete .shutdown s false)) []
  | shutdown {t s guarded} (ht : σ.threads t = .complete .shutdown s guarded) :
      Step numOfThreads σ (.run t) (σ.goto t (.complete .lockActive s guarded)) []
  | lockActive {t s guarded} (ht : σ.threads t = .complete .lockActive s guarded)
      (hfree : σ.activeSessionsGuard = none) :
      Step numOfThreads σ (.run t) ((σ.setGuard (some t)).goto t (.complete .erase s guarded)) []
  | erase {t s guarded} (ht : σ.threads t = .complete .erase s guarded) :
      Step numOfThreads σ (.run t)
        ((σ.setActive (σ.sessions s).id none).goto t (.complete .unlockActive s guarded)) []
  | unlockActive {t s guarded} (ht : σ.threads t = .complete .unlockActive s guarded) :
      Step numOfThreads σ (.run t) ((σ.setGuard none).goto t (.complete .verdict s guarded)) []
  | verdict {t s guarded} (ht : σ.threads t = .complete .verdict s guarded) :
      Step numOfThreads σ (.run t)
        (σ.goto t (.complete (.callback (σ.sessions s).verdict) s guarded)) []
  | callback {t s guarded ec} (ht : σ.threads t = .complete (.callback ec) s guarded) :
      Step numOfThreads σ (.run t) (σ.goto t (.complete .inCallback s guarded))
        [.callback s (σ.sessions s).id (σ.sessions s).response ec]
  | returnGuarded {t s} (ht : σ.threads t = .complete .inCallback s true) :
      Step numOfThreads σ (.run t) (σ.goto t (.leave s)) [.completed s]
  | returnUnguarded {t s} (ht : σ.threads t = .complete .inCallback s false) :
      Step numOfThreads σ (.run t) (σ.goto t .idle) [.completed s]
  | leave {t s} (ht : σ.threads t = .leave s) :
      Step numOfThreads σ (.run t) ((σ.modify s (.setGuard none)).goto t .idle) []

private theorem onRequestComplete_cases {n : Nat} {σ σ' : State} {t : ThreadId}
    {es : List Event} {point : CompletePoint} {s : SessionId} {guarded : Bool}
    (ht : σ.threads t = .complete point s guarded)
    (h : onRequestComplete σ t s guarded point = some (σ', es)) :
    Step n σ (.run t) σ' es := by
  cases point with
  | inCallback =>
    cases guarded <;>
      · simp only [onRequestComplete, Option.some.injEq, Prod.mk.injEq] at h
        obtain ⟨rfl, rfl⟩ := h
        constructor
        exact ht
  | lockActive =>
    simp only [onRequestComplete, Option.ite_none_right_eq_some, Option.some.injEq,
      Prod.mk.injEq] at h
    obtain ⟨hfree, rfl, rfl⟩ := h
    exact .lockActive ht hfree
  | _ =>
    simp only [onRequestComplete, Option.some.injEq, Prod.mk.injEq] at h
    obtain ⟨rfl, rfl⟩ := h
    constructor
    exact ht

private theorem advance_cases {n : Nat} {σ σ' : State} {t : ThreadId} {es : List Event}
    {f : Frame} (ht : σ.threads t = f) (h : advance σ t f = some (σ', es)) :
    Step n σ (.run t) σ' es := by
  cases f with
  | complete point s guarded => exact onRequestComplete_cases ht h
  | cancelFind id =>
    simp only [advance] at h
    cases hentry : σ.activeSessions id with
    | none =>
      simp only [hentry, Option.some.injEq, Prod.mk.injEq] at h
      obtain ⟨rfl, rfl⟩ := h
      exact .cancelMissing ht hentry
    | some s =>
      simp only [hentry, Option.some.injEq, Prod.mk.injEq] at h
      obtain ⟨rfl, rfl⟩ := h
      exact .cancelFound ht hentry
  | handler op ec s =>
    simp only [advance] at h
    by_cases hec : ec.value = 0
    · cases hnext : op.next with
      | none =>
        simp only [hec, hnext, ne_eq, not_true_eq_false, ite_false, Option.some.injEq,
          Prod.mk.injEq] at h
        obtain ⟨rfl, rfl⟩ := h
        exact .handlerLast ht hec hnext
      | some next =>
        simp only [hec, hnext, ne_eq, not_true_eq_false, ite_false, Option.some.injEq,
          Prod.mk.injEq] at h
        obtain ⟨rfl, rfl⟩ := h
        exact .handlerNext ht hec hnext
    · simp only [hec, ne_eq, not_false_eq_true, ite_true, Option.some.injEq, Prod.mk.injEq] at h
      obtain ⟨rfl, rfl⟩ := h
      exact .handlerFailed ht hec
  | checkFlag next s =>
    simp only [advance] at h
    cases hflag : (σ.sessions s).wasCancelled <;>
      simp only [hflag, Bool.false_eq_true, ite_false, ite_true, Option.some.injEq,
        Prod.mk.injEq] at h <;>
      obtain ⟨rfl, rfl⟩ := h
    · exact .checkPassed ht hflag
    · exact .checkCancelled ht hflag
  | idle => simp [advance] at h
  | registerLock s | cancelLock id | cancelLockGuard s | lockGuard next s =>
    simp only [advance, Option.ite_none_right_eq_some, Option.some.injEq, Prod.mk.injEq] at h
    obtain ⟨hfree, rfl, rfl⟩ := h
    constructor <;> assumption
  | _ =>
    simp only [advance, Option.some.injEq, Prod.mk.injEq] at h
    obtain ⟨rfl, rfl⟩ := h
    constructor
    exact ht

/-- Every executed label is one of the named steps. -/
theorem step_cases {n : Nat} {σ σ' : State} {l : Label} {es : List Event}
    (h : step n σ l = some (σ', es)) : Step n σ l σ' es := by
  cases l with
  | run t => exact advance_cases rfl h
  | openThrows t =>
    simp only [step] at h
    split at h
    next s ht =>
      simp only [Option.some.injEq, Prod.mk.injEq] at h
      obtain ⟨rfl, rfl⟩ := h
      exact .openThrows ht
    next => cases h
  | emulate t d id =>
    simp only [step, Option.ite_none_right_eq_some, Option.some.injEq, Prod.mk.injEq] at h
    obtain ⟨⟨hpool, ht⟩, rfl, rfl⟩ := h
    exact .emulate hpool ht
  | cancelRequest t id =>
    simp only [step, Option.ite_none_right_eq_some, Option.some.injEq, Prod.mk.injEq] at h
    obtain ⟨⟨hpool, ht⟩, rfl, rfl⟩ := h
    exact .cancelRequest hpool ht
  | deliver t s p ec received =>
    simp only [step, Option.ite_none_right_eq_some, Option.some.injEq, Prod.mk.injEq] at h
    obtain ⟨⟨hpool, ht, hp⟩, rfl, rfl⟩ := h
    exact .deliver hpool ht hp

/-- What the named steps preserve holds after every run. A step may use what is already
known of the run that leads to it. -/
theorem Run.induction {n : Nat} {P : State → List Event → Prop} (init : P State.init [])
    (hstep : ∀ {as σ tr l σ' es}, Run n as σ tr → P σ tr → Step n σ l σ' es →
      P σ' (tr ++ es))
    {labels : List Label} {σ : State} {tr : List Event} (h : Run n labels σ tr) : P σ tr :=
  System.exec_induction (P := fun _ => P) init
    (fun hrun hp hs => hstep hrun hp (step_cases hs)) h

/-- The thread that takes the step. -/
def Label.thread : Label → ThreadId
  | .emulate t _ _ | .cancelRequest t _ | .deliver t _ _ _ _ | .openThrows t | .run t => t

/-- A step moves its own thread only. -/
theorem Step.threads_of_ne {n : Nat} {σ σ' : State} {l : Label} {es : List Event}
    (h : Step n σ l σ' es) {t : ThreadId} (ht : t ≠ l.thread) :
    σ'.threads t = σ.threads t := by
  cases h <;> simp_all [Label.thread]

/-- Sessions are only ever added. -/
theorem Step.count_le {n : Nat} {σ σ' : State} {l : Label} {es : List Event}
    (h : Step n σ l σ' es) : σ.count ≤ σ'.count := by
  cases h <;> simp

/-- The session a program point belongs to. -/
def Frame.session : Frame → Option SessionId
  | .idle | .cancelLock _ | .cancelFind _ | .cancelUnlock => none
  | .openSocket s | .registerLock s | .registerInsert s | .registerUnlock s | .asyncConnect s
  | .cancelLockGuard s | .cancelSetFlag s | .cancelSocket s | .cancelUnlockGuard s
  | .handler _ _ s | .lockGuard _ s | .checkFlag _ s | .startNext _ s | .getResponse s
  | .complete _ s _ | .leave s => some s

/-- Threads, the map and Asio refer to created sessions only. -/
structure Scoped (σ : State) : Prop where
  threads : ∀ t s, (σ.threads t).session = some s → s < σ.count
  active : ∀ id s, σ.activeSessions id = some s → s < σ.count
  pending : ∀ s, (σ.sessions s).pending ≠ [] → s < σ.count

theorem Scoped.init : Scoped State.init :=
  ⟨fun _ _ h => by simp [State.init, Frame.session] at h,
    fun _ _ h => by simp [State.init] at h,
    fun _ h => by simp [State.init, Session.new] at h⟩

/-- A reading of the threads' points that the step's own thread keeps is kept. -/
theorem State.threads_keep {α : Type*} (g : Frame → α) {σ σ' : State} {t : ThreadId} {f : Frame}
    (hthreads : ∀ u, σ'.threads u = if u = t then f else σ.threads u)
    (hg : g f = g (σ.threads t)) (u : ThreadId) : g (σ'.threads u) = g (σ.threads u) := by
  rw [hthreads]
  by_cases hu : u = t
  · rw [if_pos hu, hg, hu]
  · rw [if_neg hu]

/-- A reading of the threads' points changes for the step's own thread only. -/
theorem State.threads_change {α : Type*} (g : Frame → α) {σ σ' : State} {t : ThreadId}
    {f : Frame} {a : α} (hthreads : ∀ u, σ'.threads u = if u = t then f else σ.threads u)
    (hg : g f = a) (u : ThreadId) :
    g (σ'.threads u) = if u = t then a else g (σ.threads u) := by
  rw [hthreads, apply_ite g, hg]

/-- A field that a change of one session keeps is kept for every session. -/
theorem State.sessions_modify_keep {α : Type*} (g : Session → α) {σ : State} {s : SessionId}
    {f : Session → Session} (hg : g (f (σ.sessions s)) = g (σ.sessions s)) (r : SessionId) :
    g ((σ.modify s f).sessions r) = g (σ.sessions r) := by
  rw [State.sessions_modify, apply_ite g, hg]
  by_cases hr : r = s
  · rw [if_pos hr, hr]
  · rw [if_neg hr]

/-- A session keeps its id. -/
theorem Step.id_eq {n : Nat} {σ σ' : State} {l : Label} {es : List Event}
    (h : Step n σ l σ' es) {s : SessionId} (hs : s < σ.count) :
    (σ'.sessions s).id = (σ.sessions s).id := by
  cases h with
  | emulate =>
    have hne : s ≠ σ.count := Nat.ne_of_lt hs
    simp [hne]
  | asyncConnect | cancelLockGuard | cancelSetFlag | cancelSocket | cancelUnlockGuard | deliver
  | handlerFailed | lockGuard | startNext | getResponse | leave =>
    rw [State.sessions_goto, State.sessions_modify_keep Session.id rfl]
  | _ => rfl

/-- A thread works on the session it had, on one from the map or with an operation
pending, or on the one it has just created. -/
theorem Step.new_session {n : Nat} {σ σ' : State} {l : Label} {es : List Event}
    (h : Step n σ l σ' es) {t : ThreadId} {s : SessionId}
    (ht : (σ'.threads t).session = some s) :
    (σ.threads t).session = some s ∨ (∃ id, σ.activeSessions id = some s) ∨
      (σ.sessions s).pending ≠ [] ∨ s = σ.count ∧ σ'.count = σ.count + 1 := by
  by_cases htl : t = l.thread
  · subst htl
    cases h with
    | emulate =>
      have hs : σ.count = s := by simpa [Label.thread, Frame.session] using ht
      exact Or.inr (Or.inr (Or.inr ⟨hs.symm, rfl⟩))
    | cancelFound hu hentry =>
      obtain rfl : _ = s := by simpa [Label.thread, Frame.session] using ht
      exact Or.inr (Or.inl ⟨_, hentry⟩)
    | deliver hpool hu hp =>
      obtain rfl : _ = s := by simpa [Label.thread, Frame.session] using ht
      exact Or.inr (Or.inr (Or.inl (List.ne_nil_of_mem hp)))
    | _ => simp_all [Label.thread, Frame.session]
  · exact Or.inl (h.threads_of_ne htl ▸ ht)

/-- An entry of the map is an old one or the session of a thread. -/
theorem Step.new_entry {n : Nat} {σ σ' : State} {l : Label} {es : List Event}
    (h : Step n σ l σ' es) {id : UInt32} {s : SessionId} (hid : σ'.activeSessions id = some s) :
    σ.activeSessions id = some s ∨
      ∃ t, σ.threads t = .registerInsert s ∧ σ'.threads t = .registerUnlock s ∧
        id = (σ.sessions s).id := by
  cases h with
  | @registerInsert t r ht =>
    simp only [State.activeSessions_goto, State.activeSessions_setActive] at hid
    split at hid
    · next heq =>
      obtain rfl := Option.some.inj hid
      exact Or.inr ⟨t, ht, by simp, heq⟩
    · exact Or.inl hid
  | @erase t r guarded ht =>
    simp only [State.activeSessions_goto, State.activeSessions_setActive] at hid
    split at hid
    · cases hid
    · exact Or.inl hid
  | _ => exact Or.inl hid

/-- An operation is pending that was pending before, or is the connect or a later one that
the session's thread starts. -/
theorem Step.new_pending {n : Nat} {σ σ' : State} {l : Label} {es : List Event}
    (h : Step n σ l σ' es) {s : SessionId} (hp : (σ'.sessions s).pending ≠ []) :
    (σ.sessions s).pending ≠ [] ∨ (∃ t, σ.threads t = .asyncConnect s ∧ .emulated s ∈ es) ∨
      ∃ t next, σ.threads t = .startNext next s := by
  cases h with
  | @asyncConnect t r ht =>
    by_cases hr : s = r
    · exact Or.inr (Or.inl ⟨t, hr ▸ ht, by simp [hr]⟩)
    · exact Or.inl (by simpa [hr] using hp)
  | @startNext t next r ht =>
    by_cases hr : s = r
    · exact Or.inr (Or.inr ⟨t, next, hr ▸ ht⟩)
    · exact Or.inl (by simpa [hr] using hp)
  | @deliver t r p ec received hpool ht hmem =>
    by_cases hr : s = r
    · exact Or.inl (List.ne_nil_of_mem (hr ▸ hmem))
    · exact Or.inl (by simpa [hr] using hp)
  | emulate hpool ht =>
    by_cases hs : s = σ.count
    · simp [hs, Session.new] at hp
    · exact Or.inl (by simpa [hs] using hp)
  | @cancelSocket t r ht =>
    by_cases hr : s = r
    · exact Or.inl (by simpa [hr, Session.cancelSocket] using hp)
    · exact Or.inl (by simpa [hr] using hp)
  | cancelLockGuard | cancelSetFlag | cancelUnlockGuard | handlerFailed | lockGuard | getResponse
  | leave =>
    refine Or.inl ?_
    rwa [State.sessions_goto, State.sessions_modify_keep Session.pending rfl] at hp
  | _ => exact Or.inl hp

/-- No step makes a thread, the map or Asio refer to a session that does not exist. -/
theorem Scoped.step {n : Nat} {σ σ' : State} {l : Label} {es : List Event}
    (hi : Scoped σ) (h : Step n σ l σ' es) : Scoped σ' where
  threads t s ht := by
    rcases h.new_session ht with hold | ⟨id, hid⟩ | hp | ⟨rfl, hcount⟩
    · exact (hi.threads t s hold).trans_le h.count_le
    · exact (hi.active id s hid).trans_le h.count_le
    · exact (hi.pending s hp).trans_le h.count_le
    · rw [hcount]
      exact Nat.lt_succ_self _
  active id s hid := by
    rcases h.new_entry hid with hold | ⟨t, ht, -⟩
    · exact (hi.active id s hold).trans_le h.count_le
    · exact (hi.threads t s (by simp [ht, Frame.session])).trans_le h.count_le
  pending s hp := by
    rcases h.new_pending hp with hold | ⟨t, ht, -⟩ | ⟨t, next, ht⟩
    · exact (hi.pending s hold).trans_le h.count_le
    · exact (hi.threads t s (by simp [ht, Frame.session])).trans_le h.count_le
    · exact (hi.threads t s (by simp [ht, Frame.session])).trans_le h.count_le

/-- Every run refers to created sessions only. -/
theorem Run.scoped {n : Nat} {labels : List Label} {σ : State} {tr : List Event}
    (h : Run n labels σ tr) : Scoped σ :=
  Run.induction (P := fun σ _ => Scoped σ) .init (fun _ hi hs => hi.step hs) h

end BoostAsio.AsyncTcpClient

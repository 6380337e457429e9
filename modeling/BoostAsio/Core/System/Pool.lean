import BoostAsio.Core.System.Run

/-!
# A pool of threads that leave when the work is done

The threads of a pool run the handlers of a system's operations. While a guard stands, an
idle thread waits for more. A closer takes the guard away and joins one thread after the
other; the first thread that finds nothing left stops the pool, and nothing is dispatched
from then on. Hence all that a closer has waited for was done at one moment of the run.
-/

namespace BoostAsio.System

/-- A system whose operations are completed by the threads of a pool. -/
structure Served (σ α ε : Type*) where
  step : σ → α → Option (σ × List ε)
  /-- The pool thread that a label hands a completed operation to. -/
  dispatch : α → Option Nat
  /-- A pool thread is inside a handler. -/
  busy : σ → Nat → Bool
  /-- An operation is pending, or a pool thread is inside a handler. -/
  working : σ → Bool

/-- A system together with the pool that serves it. -/
structure Pool (σ : Type*) where
  inner : σ
  /-- The guard that keeps idle threads waiting. -/
  work : Bool
  /-- A thread has found nothing left to do. -/
  stopped : Bool
  /-- The threads that have left. -/
  returned : Nat → Bool
  /-- How many threads the closer has joined, once it was called. -/
  joined : Option Nat

/-- A step of the system, or of the pool around it. -/
inductive PoolLabel (α : Type*)
  | inner (a : α)
  /-- The closer is called and takes the guard away. -/
  | close
  /-- A thread leaves the pool. -/
  | leave (t : Nat)
  /-- The closer joins the next thread. -/
  | join
  deriving DecidableEq, Repr

/-- The label of the system behind a label of the pool. -/
def PoolLabel.inner? {α : Type*} : PoolLabel α → Option α
  | .inner a => some a
  | .close | .leave _ | .join => none

variable {σ α ε : Type*}

/-- A pool around a system in its first state. -/
def Pool.start (s : σ) : Pool σ := ⟨s, true, false, fun _ => false, none⟩

/-- One step of a pool of `n` threads. A stopped pool dispatches nothing, and a thread that
has left takes nothing. -/
def Served.poolStep (sv : Served σ α ε) (n : Nat) (p : Pool σ) :
    PoolLabel α → Option (Pool σ × List ε)
  | .inner a =>
    if ∀ t ∈ sv.dispatch a, p.stopped = false ∧ p.returned t = false then
      (sv.step p.inner a).map fun next => ({ p with inner := next.1 }, next.2)
    else none
  | .close =>
    if p.joined = none then some ({ p with work := false, joined := some 0 }, []) else none
  | .leave t =>
    if t < n ∧ p.returned t = false ∧ sv.busy p.inner t = false ∧
        (p.stopped = true ∨ p.work = false ∧ sv.working p.inner = false) then
      some ({ p with stopped := true, returned := Function.update p.returned t true }, [])
    else none
  | .join =>
    match p.joined with
    | some k =>
      if k < n ∧ p.returned k = true then some ({ p with joined := some (k + 1) }, []) else none
    | none => none

variable {sv : Served σ α ε} {n : Nat}

/-- Every executable step of a pool. -/
inductive PoolStep (sv : Served σ α ε) (n : Nat) (p : Pool σ) :
    PoolLabel α → Pool σ → List ε → Prop
  | inner {a s es} (hfree : ∀ t ∈ sv.dispatch a, p.stopped = false ∧ p.returned t = false)
      (hstep : sv.step p.inner a = some (s, es)) :
      PoolStep sv n p (.inner a) { p with inner := s } es
  | close (hopen : p.joined = none) :
      PoolStep sv n p .close { p with work := false, joined := some 0 } []
  | leave {t} (ht : t < n) (hhere : p.returned t = false) (hidle : sv.busy p.inner t = false)
      (hdone : p.stopped = true ∨ p.work = false ∧ sv.working p.inner = false) :
      PoolStep sv n p (.leave t)
        { p with stopped := true, returned := Function.update p.returned t true } []
  | join {k} (hjoined : p.joined = some k) (hk : k < n) (hleft : p.returned k = true) :
      PoolStep sv n p .join { p with joined := some (k + 1) } []

theorem poolStep_iff {p p' : Pool σ} {l : PoolLabel α} {es : List ε} :
    sv.poolStep n p l = some (p', es) ↔ PoolStep sv n p l p' es := by
  constructor
  · intro h
    cases l with
    | inner a =>
      simp only [Served.poolStep, Option.ite_none_right_eq_some, Option.map_eq_some_iff,
        Prod.mk.injEq] at h
      obtain ⟨hfree, ⟨s, fs⟩, hstep, rfl, rfl⟩ := h
      exact .inner hfree hstep
    | close =>
      simp only [Served.poolStep, Option.ite_none_right_eq_some, Option.some.injEq,
        Prod.mk.injEq] at h
      obtain ⟨hopen, rfl, rfl⟩ := h
      exact .close hopen
    | leave t =>
      simp only [Served.poolStep, Option.ite_none_right_eq_some, Option.some.injEq,
        Prod.mk.injEq] at h
      obtain ⟨⟨ht, hhere, hidle, hdone⟩, rfl, rfl⟩ := h
      exact .leave ht hhere hidle hdone
    | join =>
      simp only [Served.poolStep] at h
      split at h
      · next k hjoined =>
        simp only [Option.ite_none_right_eq_some, Option.some.injEq, Prod.mk.injEq] at h
        obtain ⟨⟨hk, hleft⟩, rfl, rfl⟩ := h
        exact .join hjoined hk hleft
      · cases h
  · intro h
    cases h with
    | inner hfree hstep => simp only [Served.poolStep, if_pos hfree, hstep, Option.map_some]
    | close hopen => simp [Served.poolStep, hopen]
    | leave ht hhere hidle hdone => simp [Served.poolStep, ht, hhere, hidle, hdone]
    | join hjoined hk hleft => simp [Served.poolStep, hjoined, hk, hleft]

/-- A run of the pool from the first state of its system. -/
abbrev PoolRun (sv : Served σ α ε) (n : Nat) (s₀ : σ) (labels : List (PoolLabel α)) (p : Pool σ)
    (tr : List ε) : Prop :=
  exec (sv.poolStep n) (.start s₀) labels = some (p, tr)

/-- The steps that a run of the pool makes the system take. -/
def innerLabels (labels : List (PoolLabel α)) : List α := labels.filterMap PoolLabel.inner?

@[simp] theorem innerLabels_append (as bs : List (PoolLabel α)) :
    innerLabels (as ++ bs) = innerLabels as ++ innerLabels bs := List.filterMap_append

@[simp] theorem innerLabels_singleton (l : PoolLabel α) : innerLabels [l] = l.inner?.toList := by
  cases l <;> rfl

/-- A run of the pool is a run of its system with the same events. -/
theorem exec_innerLabels {p p' : Pool σ} {labels : List (PoolLabel α)} {tr : List ε}
    (h : exec (sv.poolStep n) p labels = some (p', tr)) :
    exec sv.step p.inner (innerLabels labels) = some (p'.inner, tr) := by
  refine exec_induction (P := fun labels p' tr =>
    exec sv.step p.inner (innerLabels labels) = some (p'.inner, tr)) rfl ?_ h
  intro labels q tr l q' es _ ih hs
  rw [innerLabels_append, innerLabels_singleton]
  cases poolStep_iff.mp hs with
  | inner hfree hstep => exact exec_snoc.mpr ⟨q.inner, tr, es, ih, hstep, rfl⟩
  | close | leave | join => simpa [PoolLabel.inner?] using ih

/-- What a pool knows of its closer: the threads that were joined have left, and nobody has
left while the guard was there and something was left to do. -/
structure Pool.Closing (p : Pool σ) (n : Nat) : Prop where
  bound : ∀ k ∈ p.joined, k ≤ n
  left : ∀ k ∈ p.joined, ∀ t < k, p.returned t = true
  guarded : p.work = true ↔ p.joined = none
  stopped : ∀ t, p.returned t = true → p.stopped = true
  closed : p.stopped = true → p.joined ≠ none

theorem Pool.Closing.start (s : σ) : (Pool.start s).Closing n where
  bound k h := by cases h
  left k h := by cases h
  guarded := by simp [Pool.start]
  stopped t h := by cases h
  closed h := by cases h

theorem Pool.Closing.step {p p' : Pool σ} {l : PoolLabel α} {es : List ε} (hi : p.Closing n)
    (h : PoolStep sv n p l p' es) : p'.Closing n := by
  cases h with
  | inner hfree hstep => exact ⟨hi.bound, hi.left, hi.guarded, hi.stopped, hi.closed⟩
  | close hopen =>
    refine ⟨fun k hk => ?_, fun k hk t ht => ?_, by simp, hi.stopped, by simp⟩
    · obtain rfl := Option.some.inj hk
      exact Nat.zero_le n
    · obtain rfl := Option.some.inj hk
      exact absurd ht (Nat.not_lt_zero t)
  | @leave t ht hhere hidle hdone =>
    have hjoined : p.joined ≠ none := by
      rcases hdone with hstopped | ⟨hwork, -⟩
      · exact hi.closed hstopped
      · intro hnone
        rw [hi.guarded.mpr hnone] at hwork
        cases hwork
    refine ⟨hi.bound, fun k hk u hu => ?_, hi.guarded, fun _ _ => rfl, fun _ => hjoined⟩
    by_cases htu : u = t
    · simp [htu]
    · simpa [htu] using hi.left k hk u hu
  | @join k hjoined hk hleft =>
    refine ⟨fun j hj => ?_, fun j hj t ht => ?_, ?_, hi.stopped, fun _ => by simp⟩
    · obtain rfl := Option.some.inj hj
      exact hk
    · obtain rfl := Option.some.inj hj
      rcases Nat.lt_succ_iff_lt_or_eq.mp ht with hlt | rfl
      · exact hi.left k hjoined t hlt
      · exact hleft
    · rw [hi.guarded, hjoined]
      simp

theorem PoolRun.closing {s₀ : σ} {labels : List (PoolLabel α)} {p : Pool σ} {tr : List ε}
    (h : PoolRun sv n s₀ labels p tr) : p.Closing n :=
  exec_induction (P := fun _ p _ => p.Closing n) (.start s₀)
    (fun _ hi hs => hi.step (poolStep_iff.mp hs)) h

/-- The labels of a schedule that dispatch nothing. -/
def Served.Undispatched (sv : Served σ α ε) (labels : List (PoolLabel α)) : Prop :=
  ∀ a ∈ innerLabels labels, sv.dispatch a = none

/-- A step of a stopped pool dispatches nothing. -/
theorem Served.Undispatched.snoc {p p' : Pool σ} {labels : List (PoolLabel α)} {l : PoolLabel α}
    {es : List ε} (hu : sv.Undispatched labels) (h : PoolStep sv n p l p' es)
    (hp : p.stopped = true) : sv.Undispatched (labels ++ [l]) := by
  intro a ha
  rw [innerLabels_append, innerLabels_singleton] at ha
  rcases List.mem_append.mp ha with hold | hnew
  · exact hu a hold
  · cases h with
    | inner hfree hstep =>
      obtain rfl := List.mem_singleton.mp hnew
      refine Option.eq_none_iff_forall_not_mem.mpr fun t ht => ?_
      rw [(hfree t ht).1] at hp
      cases hp
    | close | leave | join => simp [PoolLabel.inner?] at hnew

/-- A stopped pool stays stopped. -/
theorem PoolStep.stopped {p p' : Pool σ} {l : PoolLabel α} {es : List ε}
    (h : PoolStep sv n p l p' es) (hp : p.stopped = true) : p'.stopped = true := by
  cases h with
  | leave => rfl
  | inner | close | join => exact hp

/-- A stopped pool never dispatches anything again. -/
theorem exec_stopped {p p' : Pool σ} {labels : List (PoolLabel α)} {tr : List ε}
    (h : exec (sv.poolStep n) p labels = some (p', tr)) (hp : p.stopped = true) :
    p'.stopped = true ∧ sv.Undispatched labels := by
  refine exec_induction (P := fun labels p' _ => p'.stopped = true ∧ sv.Undispatched labels)
    ⟨hp, fun a ha => by cases ha⟩ ?_ h
  rintro labels q tr l q' es - ⟨hq, hnone⟩ hs
  have hstep := poolStep_iff.mp hs
  exact ⟨hstep.stopped hq, hnone.snoc hstep hq⟩

/-- A pool was stopped at a moment at which nothing was left to do, and nothing was dispatched
since. -/
theorem exec_stop_moment {p₀ p : Pool σ} {labels : List (PoolLabel α)} {tr : List ε}
    (h : exec (sv.poolStep n) p₀ labels = some (p, tr)) (h₀ : p₀.stopped = false)
    (hp : p.stopped = true) :
    ∃ before after q es fs, labels = before ++ after ∧ tr = es ++ fs ∧
      exec (sv.poolStep n) p₀ before = some (q, es) ∧ sv.working q.inner = false ∧
      exec (sv.poolStep n) q after = some (p, fs) ∧ sv.Undispatched after := by
  revert hp
  refine exec_induction (P := fun labels p tr => p.stopped = true →
    ∃ before after q es fs, labels = before ++ after ∧ tr = es ++ fs ∧
      exec (sv.poolStep n) p₀ before = some (q, es) ∧ sv.working q.inner = false ∧
      exec (sv.poolStep n) q after = some (p, fs) ∧ sv.Undispatched after) ?_ ?_ h
  · intro hp
    rw [h₀] at hp
    cases hp
  · intro labels p tr l p' es hrun ih hs hp'
    have hstep := poolStep_iff.mp hs
    by_cases hp : p.stopped = true
    · obtain ⟨before, after, q, gs, fs, rfl, rfl, hq, hdone, hafter, hnone⟩ := ih hp
      exact ⟨before, after ++ [l], q, gs, fs ++ es, by simp, by simp, hq, hdone,
        exec_snoc.mpr ⟨p, fs, es, hafter, hs, rfl⟩, hnone.snoc hstep hp⟩
    · cases hstep with
      | leave ht hhere hidle hdone =>
        rcases hdone with hstopped | ⟨-, hdone⟩
        · exact absurd hstopped hp
        · exact ⟨labels, [_], p, tr, [], rfl, rfl, hrun, hdone,
            exec_cons.mpr ⟨_, [], [], hs, rfl, rfl⟩, fun a ha => by cases ha⟩
      | inner | close | join => exact absurd hp' hp

/-- When the closer of a pool with threads has returned, the pool is stopped. -/
theorem PoolRun.stopped_of_closed {s₀ : σ} {labels : List (PoolLabel α)} {p : Pool σ}
    {tr : List ε} (h : PoolRun sv n s₀ labels p tr) (hn : 0 < n) (hp : p.joined = some n) :
    p.stopped = true :=
  h.closing.stopped 0 (h.closing.left n hp 0 hn)

/-- A closer that has returned has been called ahead of a moment at which nothing was left to
do, and nothing was dispatched since. -/
theorem PoolRun.close_moment {s₀ : σ} (hn : 0 < n) {before after : List (PoolLabel α)}
    {q p : Pool σ} {tr₀ tr : List ε} (hbefore : PoolRun sv n s₀ before q tr₀)
    (h : PoolRun sv n s₀ (before ++ .close :: after) p tr) (hclosed : p.joined = some n) :
    ∃ front back ρ es fs, innerLabels after = front ++ back ∧ tr = tr₀ ++ es ++ fs ∧
      exec sv.step q.inner front = some (ρ, es) ∧ exec sv.step ρ back = some (p.inner, fs) ∧
      sv.working ρ = false ∧ ∀ a ∈ back, sv.dispatch a = none := by
  obtain ⟨m, es, fs, hm, hrest, rfl⟩ := exec_append_iff.mp h
  obtain ⟨rfl, rfl⟩ := Prod.mk.inj (Option.some.inj (hbefore.symm.trans hm))
  obtain ⟨m, _, gs, hclose, hafter, rfl⟩ := exec_cons.mp hrest
  cases poolStep_iff.mp hclose with
  | close hopen =>
    have hrunning : q.stopped = false := by
      by_contra hstopped
      exact hbefore.closing.closed (by simpa using hstopped) hopen
    obtain ⟨front, back, ρ, es', fs', rfl, rfl, hfront, hdone, hback, hnone⟩ :=
      exec_stop_moment hafter hrunning (h.stopped_of_closed hn hclosed)
    have hinner := exec_innerLabels hfront
    exact ⟨innerLabels front, innerLabels back, ρ.inner, es', fs', innerLabels_append .., by simp,
      hinner, exec_innerLabels hback, hdone, hnone⟩

end BoostAsio.System

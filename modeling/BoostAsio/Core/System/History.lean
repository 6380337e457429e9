import BoostAsio.Core.System.Run

/-!
# Histories of runs

A note is what a step tells about itself besides the events it emits: it is read off
the state and the label, so a step function need not be changed to be observed. The
history of a schedule is the list of its notes. Both histories and traces are cut at
one of their entries, which gives the step that it comes from.
-/

namespace BoostAsio.System

variable {σ α ε δ : Type*}

/-- The notes of the steps that a schedule executes. -/
def history (step : σ → α → Option (σ × List ε)) (note : σ → α → List δ) : σ → List α → List δ
  | _, [] => []
  | s, a :: as =>
    match step s a with
    | some next => note s a ++ history step note next.1 as
    | none => []

variable {step : σ → α → Option (σ × List ε)} {note : σ → α → List δ}

@[simp] theorem history_nil (s : σ) : history step note s [] = [] := rfl

/-- The last step adds its notes. -/
theorem history_snoc {s₀ s t : σ} {as : List α} {a : α} {tr es : List ε}
    (h : exec step s₀ as = some (s, tr)) (hs : step s a = some (t, es)) :
    history step note s₀ (as ++ [a]) = history step note s₀ as ++ note s a := by
  induction as generalizing s₀ tr with
  | nil =>
    simp only [exec_nil, Option.some.injEq, Prod.mk.injEq] at h
    obtain ⟨rfl, rfl⟩ := h
    simp [history, hs]
  | cons b as ih =>
    obtain ⟨next, hnext, hrest⟩ := Option.bind_eq_some_iff.mp h
    obtain ⟨last, hlast, he⟩ := Option.map_eq_some_iff.mp hrest
    obtain ⟨rfl, -⟩ := Prod.mk.inj he
    simp only [List.cons_append, history, hnext, ih hlast, List.append_assoc]

/-- A cut of a concatenated trace lies in its first or in its second part. -/
theorem append_cut {tr es before after : List ε} {e : ε} (h : tr ++ es = before ++ e :: after) :
    (∃ rest, tr = before ++ e :: rest ∧ after = rest ++ es) ∨
      ∃ front, es = front ++ e :: after ∧ before = tr ++ front := by
  rcases List.append_eq_append_iff.mp h with ⟨front, hbefore, hes⟩ | ⟨cut, htr, hcut⟩
  · exact Or.inr ⟨front, hes, hbefore⟩
  · cases cut with
    | nil =>
      rw [List.append_nil] at htr
      exact Or.inr ⟨[], hcut.symm, by rw [List.append_nil, htr]⟩
    | cons c rest =>
      obtain ⟨rfl, hafter⟩ := List.cons.inj hcut
      exact Or.inl ⟨rest, htr, hafter⟩

/-- A single event is cut at itself. -/
theorem singleton_cut {x e : ε} {before after : List ε} (h : [x] = before ++ e :: after) :
    e = x ∧ before = [] ∧ after = [] := by
  cases before with
  | nil =>
    obtain ⟨rfl, rfl⟩ := List.cons.inj h
    exact ⟨rfl, rfl, rfl⟩
  | cons b before => simp at h

/-- Every event of a run is emitted by one of its steps, after the events before it. -/
theorem exec_event {s₀ s : σ} {as : List α} {tr before after : List ε} {e : ε}
    (h : exec step s₀ as = some (s, tr)) (htr : tr = before ++ e :: after) :
    ∃ pre a m tr₀ t es es₁ es₂, pre ++ [a] <+: as ∧ exec step s₀ pre = some (m, tr₀) ∧
      step m a = some (t, es) ∧ es = es₁ ++ e :: es₂ ∧ before = tr₀ ++ es₁ := by
  revert before after
  refine exec_induction (P := fun as _ tr => ∀ {before after : List ε},
    tr = before ++ e :: after → ∃ pre a m tr₀ t es es₁ es₂, pre ++ [a] <+: as ∧
      exec step s₀ pre = some (m, tr₀) ∧ step m a = some (t, es) ∧
      es = es₁ ++ e :: es₂ ∧ before = tr₀ ++ es₁) ?_ ?_ h
  · intro before after he
    simp at he
  · intro as m tr₀ a t es hexec ih hs before after he
    rcases append_cut he with ⟨rest, htr₀, -⟩ | ⟨es₁, hes, hbefore⟩
    · obtain ⟨pre, b, m', tr', t', es', es₁, es₂, hpre, hrest⟩ := ih htr₀
      exact ⟨pre, b, m', tr', t', es', es₁, es₂, hpre.trans (List.prefix_append ..), hrest⟩
    · exact ⟨as, a, m, tr₀, t, es, es₁, after, List.prefix_rfl, hexec, hs, hes, hbefore⟩

/-- What the step that emits an event establishes, and what every later step keeps, holds
since then. -/
theorem exec_since {e : ε} {P : List ε → σ → List ε → Prop} {s₀ : σ}
    (cut : ∀ {as s tr a t es front after}, exec step s₀ as = some (s, tr) →
      step s a = some (t, es) → es = front ++ e :: after → P (tr ++ front) t after)
    (snoc : ∀ {as s tr a t es before after}, exec step s₀ as = some (s, tr) →
      P before s after → step s a = some (t, es) → P before t (after ++ es))
    {as : List α} {s : σ} {tr before after : List ε} (h : exec step s₀ as = some (s, tr))
    (htr : tr = before ++ e :: after) : P before s after := by
  revert before after
  refine exec_induction (P := fun _ s tr => ∀ {before after : List ε},
    tr = before ++ e :: after → P before s after) ?_ ?_ h
  · intro before after he
    simp at he
  · intro as s tr a t es hexec ih hs before after he
    rcases append_cut he with ⟨rest, htr, rfl⟩ | ⟨front, hes, rfl⟩
    · exact snoc hexec (ih htr) hs
    · exact cut hexec hs hes

end BoostAsio.System

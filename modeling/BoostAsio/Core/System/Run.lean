import Mathlib.Data.List.Induction
import Mathlib.Data.List.Basic
import Mathlib.Data.Option.Basic

/-!
# Runs of partial labelled steps

A step consumes a label, may be disabled, and emits the events it makes visible.
Running a schedule threads the state and concatenates the events. Invariants are
proved over the last step of a schedule, and the states along a run are those
reached by its prefixes.
-/

namespace BoostAsio.System

variable {σ α ε : Type*}

/-- Execute a schedule from the left; a disabled label makes the whole run undefined. -/
def exec (step : σ → α → Option (σ × List ε)) : σ → List α → Option (σ × List ε)
  | s, [] => some (s, [])
  | s, a :: as => (step s a).bind fun next =>
      (exec step next.1 as).map fun last => (last.1, next.2 ++ last.2)

variable {step : σ → α → Option (σ × List ε)}

@[simp] theorem exec_nil (s : σ) : exec step s [] = some (s, []) := rfl

/-- A concatenated schedule is executed in two parts, with concatenated events. -/
theorem exec_append (s : σ) (as bs : List α) :
    exec step s (as ++ bs) = (exec step s as).bind fun mid =>
      (exec step mid.1 bs).map fun last => (last.1, mid.2 ++ last.2) := by
  induction as generalizing s with
  | nil => simp
  | cons a as ih =>
    simp only [List.cons_append, exec]
    cases hstep : step s a with
    | none => rfl
    | some next =>
      simp only [Option.bind_some, ih]
      cases hrest : exec step next.1 as with
      | none => rfl
      | some mid => simp [Option.map_map, Function.comp_def, List.append_assoc]

/-- The first label of a run is a step to the state from which the rest runs. -/
theorem exec_cons {s t : σ} {a : α} {as : List α} {tr : List ε} :
    exec step s (a :: as) = some (t, tr) ↔
      ∃ m es fs, step s a = some (m, es) ∧ exec step m as = some (t, fs) ∧ tr = es ++ fs := by
  constructor
  · intro h
    obtain ⟨⟨m, es⟩, hm, h⟩ := Option.bind_eq_some_iff.mp h
    obtain ⟨⟨u, fs⟩, hu, he⟩ := Option.map_eq_some_iff.mp h
    obtain ⟨rfl, rfl⟩ := Prod.mk.inj he
    exact ⟨m, es, fs, hm, hu, rfl⟩
  · rintro ⟨m, es, fs, hm, hu, rfl⟩
    simp [exec, hm, hu]

/-- A run can be cut anywhere. -/
theorem exec_append_iff {s t : σ} {as bs : List α} {tr : List ε} :
    exec step s (as ++ bs) = some (t, tr) ↔
      ∃ m es fs, exec step s as = some (m, es) ∧ exec step m bs = some (t, fs) ∧
        tr = es ++ fs := by
  rw [exec_append]
  constructor
  · intro h
    obtain ⟨⟨m, es⟩, hm, h⟩ := Option.bind_eq_some_iff.mp h
    obtain ⟨⟨u, fs⟩, hu, he⟩ := Option.map_eq_some_iff.mp h
    obtain ⟨rfl, rfl⟩ := Prod.mk.inj he
    exact ⟨m, es, fs, hm, hu, rfl⟩
  · rintro ⟨m, es, fs, hm, hu, rfl⟩
    simp [hm, hu]

/-- The last label of a run is a step from the state its prefix reached. -/
theorem exec_snoc {s t : σ} {as : List α} {a : α} {tr : List ε} :
    exec step s (as ++ [a]) = some (t, tr) ↔
      ∃ m es fs, exec step s as = some (m, es) ∧ step m a = some (t, fs) ∧ tr = es ++ fs := by
  rw [exec_append_iff]
  constructor
  · rintro ⟨m, es, fs, hm, hs, rfl⟩
    obtain ⟨u, gs, hs', hu, he, rfl⟩ := exec_cons.mp hs
    obtain ⟨rfl, rfl⟩ := Prod.mk.inj (Option.some.inj he)
    exact ⟨m, es, gs, hm, hu, by rw [List.append_nil]⟩
  · rintro ⟨m, es, fs, hm, hs, rfl⟩
    exact ⟨m, es, fs, hm, exec_cons.mpr ⟨t, fs, [], hs, rfl, by rw [List.append_nil]⟩, rfl⟩

/-- What holds at the start and is preserved by every step holds after every run. -/
theorem exec_induction {P : List α → σ → List ε → Prop} {s₀ : σ} (nil : P [] s₀ [])
    (snoc : ∀ {as s tr a t es}, exec step s₀ as = some (s, tr) → P as s tr →
      step s a = some (t, es) → P (as ++ [a]) t (tr ++ es))
    {as : List α} {s : σ} {tr : List ε} (h : exec step s₀ as = some (s, tr)) : P as s tr := by
  induction as using List.reverseRecOn generalizing s tr with
  | nil =>
    simp only [exec_nil, Option.some.injEq, Prod.mk.injEq] at h
    obtain ⟨rfl, rfl⟩ := h
    exact nil
  | append_singleton as a ih =>
    obtain ⟨m, es, fs, hm, hs, rfl⟩ := exec_snoc.mp h
    exact snoc hm (ih hm) hs

/-- Some schedule leads from one state to another and emits these events. -/
def Reaches (step : σ → α → Option (σ × List ε)) (s t : σ) (tr : List ε) : Prop :=
  ∃ as, exec step s as = some (t, tr)

theorem Reaches.refl (s : σ) : Reaches step s s [] := ⟨[], rfl⟩

/-- A step in front of what its target reaches. -/
theorem Reaches.head {s t u : σ} {a : α} {es tr : List ε} (hs : step s a = some (t, es))
    (h : Reaches step t u tr) : Reaches step s u (es ++ tr) := by
  obtain ⟨as, has⟩ := h
  exact ⟨a :: as, by simp [exec, hs, has]⟩

/-- A state is on a run when some prefix of the schedule reaches it. -/
def OnRun (step : σ → α → Option (σ × List ε)) (s₀ : σ) (as : List α) (s : σ) : Prop :=
  ∃ pre, pre <+: as ∧ ∃ tr, exec step s₀ pre = some (s, tr)

/-- A step is on a run when its source state is reached by a prefix that it extends. -/
def StepOnRun (step : σ → α → Option (σ × List ε)) (s₀ : σ) (as : List α) (s : σ) (a : α) :
    Prop :=
  ∃ pre, pre ++ [a] <+: as ∧ ∃ tr, exec step s₀ pre = some (s, tr)

/-- Every prefix of an executable schedule is executable. -/
theorem exec_prefix {s₀ s : σ} {as pre : List α} {tr : List ε} (hp : pre <+: as)
    (h : exec step s₀ as = some (s, tr)) : ∃ t es, exec step s₀ pre = some (t, es) := by
  obtain ⟨post, rfl⟩ := hp
  rw [exec_append] at h
  obtain ⟨⟨t, es⟩, ht, -⟩ := Option.bind_eq_some_iff.mp h
  exact ⟨t, es, ht⟩

/-- The steps of a run that was extended are the earlier ones and the last one. -/
theorem stepOnRun_snoc {s₀ s : σ} {as : List α} {a b : α} :
    StepOnRun step s₀ (as ++ [a]) s b ↔
      StepOnRun step s₀ as s b ∨ b = a ∧ ∃ tr, exec step s₀ as = some (s, tr) := by
  constructor
  · rintro ⟨pre, hpre, htr⟩
    rcases List.prefix_concat_iff.mp hpre with he | hp
    · obtain ⟨rfl, hb⟩ := List.append_inj' he rfl
      exact Or.inr ⟨List.singleton_inj.mp hb, htr⟩
    · exact Or.inl ⟨pre, hp, htr⟩
  · rintro (⟨pre, hpre, htr⟩ | ⟨rfl, htr⟩)
    · exact ⟨pre, hpre.trans (List.prefix_append ..), htr⟩
    · exact ⟨as, List.prefix_rfl, htr⟩

/-- The target of a step on an executable run is a state of the run. -/
theorem StepOnRun.target {s₀ s u : σ} {as : List α} {a : α} {tr : List ε}
    (hs : StepOnRun step s₀ as s a) (h : exec step s₀ as = some (u, tr)) :
    ∃ t es, step s a = some (t, es) ∧ OnRun step s₀ as t := by
  obtain ⟨pre, hpre, es, hes⟩ := hs
  obtain ⟨t, fs, ht⟩ := exec_prefix hpre h
  obtain ⟨m, es', gs, hm, hstep, -⟩ := exec_snoc.mp ht
  obtain ⟨rfl, rfl⟩ := Prod.mk.inj (Option.some.inj (hes.symm.trans hm))
  exact ⟨t, gs, hstep, _, hpre, fs, ht⟩

/-- The source of a step on a run is a state of the run. -/
theorem StepOnRun.source {s₀ s : σ} {as : List α} {a : α} (hs : StepOnRun step s₀ as s a) :
    OnRun step s₀ as s := by
  obtain ⟨pre, hpre, htr⟩ := hs
  exact ⟨pre, (List.prefix_append ..).trans hpre, htr⟩

/-- What holds at the start and is preserved by the steps of a run holds in its states. -/
theorem onRun_induction {P : σ → Prop} {s₀ : σ} {as : List α} (init : P s₀)
    (hstep : ∀ {s a t es}, StepOnRun step s₀ as s a → P s → step s a = some (t, es) → P t)
    {s : σ} (h : OnRun step s₀ as s) : P s := by
  obtain ⟨pre, hpre, tr, htr⟩ := h
  revert hpre
  refine exec_induction (P := fun pre s _ => pre <+: as → P s) (fun _ => init) ?_ htr
  intro pre s tr a t es hexec ih hs hpre
  exact hstep ⟨pre, hpre, tr, hexec⟩ (ih ((List.prefix_append ..).trans hpre)) hs

section

variable {allowed : σ → α → Prop} [∀ s a, Decidable (allowed s a)]

/-- The steps of a system that its environment allows. -/
def guarded (allowed : σ → α → Prop) [∀ s a, Decidable (allowed s a)]
    (step : σ → α → Option (σ × List ε)) (s : σ) (a : α) : Option (σ × List ε) :=
  if allowed s a then step s a else none

/-- A guarded step is a step that is allowed. -/
theorem guarded_eq_some {s : σ} {a : α} {next : σ × List ε} :
    guarded allowed step s a = some next ↔ allowed s a ∧ step s a = some next := by
  unfold guarded
  split
  · next h => exact (and_iff_right h).symm
  · next h => exact iff_of_false nofun fun hn => h hn.1

/-- A guarded run is a run. -/
theorem exec_of_guarded {s t : σ} {as : List α} {tr : List ε}
    (h : exec (guarded allowed step) s as = some (t, tr)) : exec step s as = some (t, tr) := by
  refine exec_induction (P := fun as t tr => exec step s as = some (t, tr)) rfl ?_ h
  intro as m tr a t es _ ih hs
  exact exec_snoc.mpr ⟨m, tr, es, ih, (guarded_eq_some.mp hs).2, rfl⟩

end

section

variable {τ δ : Type*} {step' : τ → α → Option (τ × List δ)} {R : σ → τ → Prop} {f : ε → δ}

/-- Two systems in lockstep: in related states a label is enabled in both or in neither, and it
leads to related states with corresponding events. -/
def Lockstep (step : σ → α → Option (σ × List ε)) (step' : τ → α → Option (τ × List δ))
    (R : σ → τ → Prop) (f : ε → δ) : Prop :=
  ∀ s t a, R s t → Option.Rel (fun x y => R x.1 y.1 ∧ y.2 = x.2.map f) (step s a) (step' t a)

/-- Related values are taken further by related functions. -/
theorem rel_bind {β γ ι κ : Type*} {r : β → γ → Prop} {q : ι → κ → Prop} {a : Option β}
    {b : Option γ} {g : β → Option ι} {h : γ → Option κ} (hab : Option.Rel r a b)
    (hgh : ∀ x y, r x y → Option.Rel q (g x) (h y)) : Option.Rel q (a.bind g) (b.bind h) := by
  cases hab with
  | none => exact Option.Rel.none
  | some hxy => exact hgh _ _ hxy

/-- The same labels are enabled. -/
theorem Lockstep.isSome_eq (h : Lockstep step step' R f) {s : σ} {t : τ} (hR : R s t) (a : α) :
    (step s a).isSome = (step' t a).isSome := by
  have hstep := h s t a hR
  generalize step s a = next at hstep ⊢
  generalize step' t a = next' at hstep ⊢
  cases hstep with
  | none => rfl
  | some _ => rfl

/-- A label that one system does not enable is not enabled in the other. -/
theorem Lockstep.eq_none (h : Lockstep step step' R f) {s : σ} {t : τ} (hR : R s t) {a : α}
    (hnone : step' t a = none) : step s a = none := by
  have hsome := h.isSome_eq hR a
  rw [hnone, Option.isSome_none] at hsome
  rwa [Option.isSome_eq_false_iff, Option.isNone_iff_eq_none] at hsome

/-- Systems in lockstep run the same schedules. -/
theorem Lockstep.exec (h : Lockstep step step' R f) {s : σ} {t : τ} (hR : R s t) (as : List α) :
    Option.Rel (fun x y => R x.1 y.1 ∧ y.2 = x.2.map f)
      (System.exec step s as) (System.exec step' t as) := by
  induction as generalizing s t with
  | nil => exact Option.Rel.some ⟨hR, rfl⟩
  | cons a as ih =>
    apply rel_bind (h s t a hR)
    intro next next' hnext
    have hrest := ih hnext.1
    generalize System.exec step next.1 as = last at hrest ⊢
    generalize System.exec step' next'.1 as = last' at hrest ⊢
    cases hrest with
    | none => exact Option.Rel.none
    | some hlast => exact Option.Rel.some ⟨hlast.1, by simp [hnext.2, hlast.2]⟩

/-- A run of the one system is a run of the other. -/
theorem Lockstep.run (h : Lockstep step step' R f) {s s' : σ} {t : τ} (hR : R s t) {as : List α}
    {tr : List ε} (hrun : System.exec step s as = some (s', tr)) :
    ∃ t', System.exec step' t as = some (t', tr.map f) ∧ R s' t' := by
  have hboth := h.exec hR as
  rw [hrun] at hboth
  generalize hrun' : System.exec step' t as = last' at hboth
  cases hboth with
  | some hlast => exact ⟨_, by rw [← hlast.2], hlast.1⟩

end

/-- A run ends in one of its states. -/
theorem onRun_last {s₀ s : σ} {as : List α} {tr : List ε}
    (h : exec step s₀ as = some (s, tr)) : OnRun step s₀ as s :=
  ⟨as, List.prefix_rfl, tr, h⟩

end BoostAsio.System

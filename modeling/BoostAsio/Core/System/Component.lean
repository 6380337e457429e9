import BoostAsio.Core.System.Run
import Mathlib.Logic.Relation

/-!
# Components of a system

A component is a part of the state, of the labels and of the events of a system. When every
step of the system is a step of the component or leaves it alone, a run of the system is one
of the component too, so whatever holds in every run of the component holds of it inside the
system. The other way round, a system that can follow each move of a component with labels of
its own choice can follow all of them, so whatever the component can reach it can reach inside
the system.
-/

namespace BoostAsio.System

variable {σ τ α β ε δ : Type*} {step : σ → α → Option (σ × List ε)}
  {part : τ → β → Option (τ × List δ)}

theorem exec_singleton (s : σ) (a : α) : exec step s [a] = step s a := by
  cases h : step s a with
  | none => simp [exec, h]
  | some next => simp [exec, h]

/-- What one step of the system is for a component: the step behind its label, or nothing. -/
def PartOf (step : σ → α → Option (σ × List ε)) (part : τ → β → Option (τ × List δ))
    (view : σ → τ) (does : α → Option β) (seen : ε → Option δ) : Prop :=
  ∀ s a t es, step s a = some (t, es) →
    exec part (view s) (does a).toList = some (view t, es.filterMap seen)

/-- A run of the system is a run of each of its components. -/
theorem PartOf.exec {view : σ → τ} {does : α → Option β} {seen : ε → Option δ}
    (h : PartOf step part view does seen) {s t : σ} {as : List α} {tr : List ε}
    (hrun : System.exec step s as = some (t, tr)) :
    System.exec part (view s) (as.filterMap does) = some (view t, tr.filterMap seen) := by
  refine exec_induction (P := fun as t tr =>
    System.exec part (view s) (as.filterMap does) = some (view t, tr.filterMap seen)) rfl ?_ hrun
  intro as m tr a t es _ ih hs
  have hlabels : [a].filterMap does = (does a).toList := by
    cases hd : does a <;> simp [hd]
  rw [List.filterMap_append, List.filterMap_append, hlabels]
  exact exec_append_iff.mpr ⟨_, _, _, ih, h m a t es hs, rfl⟩

/-- Where the one system can move, the other one can go with labels of this kind. -/
def Follows (moves : τ → τ → Prop) (step : σ → α → Option (σ × List ε)) (own : α → Prop)
    (R : τ → σ → Prop) : Prop :=
  ∀ x y s, R x s → moves x y →
    ∃ as t tr, (∀ a ∈ as, own a) ∧ exec step s as = some (t, tr) ∧ R y t

/-- Whatever the one system can reach, the other one can reach with labels of this kind. -/
theorem Follows.run {moves : τ → τ → Prop} {own : α → Prop} {R : τ → σ → Prop}
    (h : Follows moves step own R) {x y : τ} {s : σ} (hR : R x s)
    (hmoves : Relation.ReflTransGen moves x y) :
    ∃ as t tr, (∀ a ∈ as, own a) ∧ System.exec step s as = some (t, tr) ∧ R y t := by
  induction hmoves with
  | refl => exact ⟨[], s, [], fun a ha => absurd ha List.not_mem_nil, rfl, hR⟩
  | tail _ hmove ih =>
    obtain ⟨as, m, tr, hown, hrun, hm⟩ := ih
    obtain ⟨bs, t, tr', hown', hrun', ht⟩ := h _ _ m hm hmove
    refine ⟨as ++ bs, t, tr ++ tr', ?_, exec_append_iff.mpr ⟨m, tr, tr', hrun, hrun', rfl⟩, ht⟩
    intro a ha
    rcases List.mem_append.mp ha with ha | ha
    · exact hown a ha
    · exact hown' a ha

end BoostAsio.System

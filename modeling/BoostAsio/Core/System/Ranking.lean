import Mathlib.Algebra.BigOperators.Group.Finset.Basic
import BoostAsio.Core.System.Run

/-!
# Runs that come to an end

A rank that every step of a kind lowers bounds the number of such steps. Where only a goal
leaves no step of the kind, every run of such steps can be continued to the goal, and a
scheduler that takes them as long as there are any cannot miss it.
-/

namespace BoostAsio.System

variable {σ α ε : Type*} {step : σ → α → Option (σ × List ε)} {allowed : α → Prop}
  {inv goal : σ → Prop} {rank : σ → Nat}

/-- Of the steps that lower a rank, a run whose other steps do not raise it takes no more than
the rank it starts with. -/
theorem exec_countP {lowers : α → Bool}
    (hlower : ∀ {s a t es}, inv s → lowers a = true → step s a = some (t, es) →
      inv t ∧ rank t < rank s)
    (hother : ∀ {s a t es}, inv s → lowers a = false → step s a = some (t, es) →
      inv t ∧ rank t ≤ rank s)
    {s t : σ} {as : List α} {tr : List ε} (hs : inv s) (hrun : exec step s as = some (t, tr)) :
    inv t ∧ as.countP lowers + rank t ≤ rank s := by
  refine exec_induction (P := fun as t _ => inv t ∧ as.countP lowers + rank t ≤ rank s)
    ⟨hs, Nat.le_of_eq (Nat.zero_add _)⟩ ?_ hrun
  intro as m _ a t es _ ih hstep
  obtain ⟨hm, hle⟩ := ih
  rw [List.countP_append, List.countP_singleton]
  cases ha : lowers a with
  | true =>
    obtain ⟨ht, hlt⟩ := hlower hm ha hstep
    refine ⟨ht, ?_⟩
    rw [if_pos rfl]
    omega
  | false =>
    obtain ⟨ht, hle'⟩ := hother hm ha hstep
    refine ⟨ht, ?_⟩
    rw [if_neg Bool.false_ne_true]
    omega

/-- Allowed steps keep the invariant and lower the rank, and one of them is enabled until the
goal is reached. -/
structure Terminating (step : σ → α → Option (σ × List ε)) (allowed : α → Prop)
    (inv goal : σ → Prop) (rank : σ → Nat) : Prop where
  decreases : ∀ {s a t es}, inv s → allowed a → step s a = some (t, es) → inv t ∧ rank t < rank s
  progress : ∀ {s}, inv s → ¬goal s → ∃ a, allowed a ∧ (step s a).isSome

/-- A run of allowed steps is not longer than the rank it starts with. -/
theorem Terminating.exec_length (h : Terminating step allowed inv goal rank) {s t : σ}
    {as : List α} {tr : List ε} (hs : inv s) (hall : ∀ a ∈ as, allowed a)
    (hrun : exec step s as = some (t, tr)) : inv t ∧ as.length + rank t ≤ rank s := by
  revert hall
  refine exec_induction (P := fun as t _ => (∀ a ∈ as, allowed a) →
    inv t ∧ as.length + rank t ≤ rank s) (fun _ => ⟨hs, Nat.le_of_eq (Nat.zero_add _)⟩) ?_ hrun
  intro as m _ a t es _ ih hstep hall
  obtain ⟨hm, hle⟩ := ih fun b hb => hall b (List.mem_append_left _ hb)
  have ha := hall a (List.mem_append_right _ (List.mem_singleton_self a))
  obtain ⟨ht, hlt⟩ := h.decreases hm ha hstep
  refine ⟨ht, ?_⟩
  rw [List.length_append, List.length_singleton]
  omega

/-- A run that cannot be continued has reached the goal. -/
theorem Terminating.goal_of_maximal (h : Terminating step allowed inv goal rank) {s t : σ}
    {as : List α} {tr : List ε} (hs : inv s) (hall : ∀ a ∈ as, allowed a)
    (hrun : exec step s as = some (t, tr)) (hmax : ∀ a, allowed a → step t a = none) :
    goal t := by
  by_contra hgoal
  obtain ⟨a, ha, hsome⟩ := h.progress (h.exec_length hs hall hrun).1 hgoal
  simp [hmax a ha] at hsome

/-- The goal can be reached. -/
theorem Terminating.exists_goal (h : Terminating step allowed inv goal rank) {s : σ}
    (hs : inv s) : ∃ as t tr, (∀ a ∈ as, allowed a) ∧ exec step s as = some (t, tr) ∧ goal t := by
  induction hr : rank s using Nat.strongRecOn generalizing s with
  | ind r ih =>
    by_cases hgoal : goal s
    · exact ⟨[], s, [], by simp, rfl, hgoal⟩
    · obtain ⟨a, ha, hsome⟩ := h.progress hs hgoal
      obtain ⟨⟨m, es⟩, hstep⟩ := Option.isSome_iff_exists.mp hsome
      obtain ⟨hm, hlt⟩ := h.decreases hs ha hstep
      obtain ⟨as, t, tr, hall, hrun, ht⟩ := ih (rank m) (hr ▸ hlt) hm rfl
      refine ⟨a :: as, t, es ++ tr, ?_, exec_cons.mpr ⟨m, es, tr, hstep, hrun, rfl⟩, ht⟩
      simpa [ha] using hall

/-- A sum changes by what one of its terms changes. -/
theorem sum_range_change {f g : Nat → Nat} {i k : Nat} (hi : i < k)
    (hrest : ∀ j, j ≠ i → g j = f j) :
    ∑ j ∈ Finset.range k, g j + f i = ∑ j ∈ Finset.range k, f j + g i := by
  have hmem := Finset.mem_range.mpr hi
  have hf := Finset.add_sum_erase (Finset.range k) (fun j => f j) hmem
  have hg := Finset.add_sum_erase (Finset.range k) (fun j => g j) hmem
  have hsame : ∑ j ∈ (Finset.range k).erase i, g j = ∑ j ∈ (Finset.range k).erase i, f j :=
    Finset.sum_congr rfl fun j hj => hrest j (Finset.ne_of_mem_erase hj)
  omega

end BoostAsio.System

import Mathlib.Logic.Basic

/-!
# Mutexes and the scopes that hold them

A mutex is owned by the thread whose program point lies inside one of its scopes. A step
that leaves the scopes alone, enters one with the free mutex, or leaves one and frees the
mutex keeps both in agreement, so there is never a second thread inside.
-/

namespace BoostAsio.System

variable {τ : Type*} {owner owner' : Option τ} {holds holds' : τ → Bool}

/-- The owner is exactly the thread inside a scope. -/
def Owns (owner : Option τ) (holds : τ → Bool) : Prop :=
  ∀ t, owner = some t ↔ holds t = true

/-- What a step can do to a mutex and its scopes. -/
inductive MutexStep (owner : Option τ) (holds : τ → Bool) (owner' : Option τ)
    (holds' : τ → Bool) : Prop
  | keep (howner : owner' = owner) (hholds : ∀ u, holds' u = holds u)
  | take (t : τ) (hfree : owner = none) (howner : owner' = some t) (hin : holds' t = true)
      (hrest : ∀ u, u ≠ t → holds' u = holds u)
  | release (t : τ) (hin : holds t = true) (howner : owner' = none) (hout : holds' t = false)
      (hrest : ∀ u, u ≠ t → holds' u = holds u)

/-- At most one thread is inside the scopes. -/
theorem Owns.unique (h : Owns owner holds) {t u : τ} (ht : holds t = true)
    (hu : holds u = true) : t = u :=
  Option.some.inj (((h t).mpr ht).symm.trans ((h u).mpr hu))

/-- Nobody is inside the scopes of a free mutex. -/
theorem Owns.not_holds (h : Owns owner holds) (hfree : owner = none) (t : τ) :
    holds t = false := by
  cases ht : holds t with
  | false => rfl
  | true =>
    have := (h t).mpr ht
    simp [hfree] at this

/-- Ownership is kept by every step that treats the mutex properly. -/
theorem Owns.step (h : Owns owner holds) (hs : MutexStep owner holds owner' holds') :
    Owns owner' holds' := by
  intro u
  cases hs with
  | keep howner hholds => rw [howner, hholds, h u]
  | take t hfree howner hin hrest =>
    by_cases hu : u = t
    · subst hu
      simp [howner, hin]
    · have hnot := h.not_holds hfree u
      simp [howner, hrest u hu, hnot, Ne.symm hu]
  | release t hin howner hout hrest =>
    by_cases hu : u = t
    · subst hu
      simp [howner, hout]
    · have hnot : holds u ≠ true := fun hu' => hu (h.unique hu' hin)
      simp [howner, hrest u hu, hnot]

end BoostAsio.System

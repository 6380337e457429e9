import Mathlib.Logic.Function.Basic

/-!
# Objects that own themselves

Nobody holds an object that deletes itself. It is kept by the completion that it waits
for, or by the thread that runs its handler, and the steps of the system hand it from one
to the other, create it and delete it. Whatever a state shows of its objects, each of them
is in one place.
-/

namespace BoostAsio.System

variable {ι τ : Type*}

/-- Where an object is. -/
inductive Place (τ : Type*)
  | unborn
  | pending
  | running (t : τ)
  | gone

namespace Place

/-- The object has been created. -/
def born : Place τ → Prop
  | unborn => False
  | pending | running _ | gone => True

/-- How many completions the object waits for. -/
def pendings : Place τ → Nat
  | pending => 1
  | unborn | gone | running _ => 0

/-- How often the object was deleted. -/
def deletions : Place τ → Nat
  | gone => 1
  | unborn | pending | running _ => 0

/-- The thread that runs a handler of the object. -/
def holder : Place τ → Option τ
  | running t => some t
  | unborn | pending | gone => none

end Place

/-- Each object is with the thread that carries it. -/
def Matches (holder : ι → Option τ) (carries : τ → Option ι) : Prop :=
  ∀ i t, holder i = some t ↔ carries t = some i

section

variable {holder : ι → Option τ} {carries carries' : τ → Option ι} {i : ι} {t u : τ}

/-- No two threads carry one object. -/
theorem Matches.unique (h : Matches holder carries) (ht : carries t = some i)
    (hu : carries u = some i) : t = u :=
  Option.some.inj (((h i t).mpr ht).symm.trans ((h i u).mpr hu))

variable [DecidableEq ι] [DecidableEq τ]

/-- An idle thread takes an object that no thread has. -/
theorem Matches.gain (h : Matches holder carries) (hi : holder i = none)
    (ht : carries t = none) (hcarries : ∀ u, carries' u = if u = t then some i else carries u) :
    Matches (Function.update holder i (some t)) carries' := by
  intro j u
  rw [hcarries]
  by_cases hj : j = i
  · subst hj
    have hnot : carries u ≠ some j := fun hu => by simp [(h j u).mpr hu] at hi
    by_cases hu : u = t
    · simp [hu]
    · simp [hu, hnot, Ne.symm hu]
  · have hnot : holder j ≠ some t := fun hj => by simp [(h j t).mp hj] at ht
    by_cases hu : u = t
    · simp [hj, hu, hnot, Ne.symm hj]
    · simpa [hj, hu] using h j u

/-- A thread gives the object that it carries away. -/
theorem Matches.lose (h : Matches holder carries) (ht : carries t = some i)
    (hcarries : ∀ u, carries' u = if u = t then none else carries u) :
    Matches (Function.update holder i none) carries' := by
  intro j u
  rw [hcarries]
  by_cases hu : u = t
  · subst hu
    have hnot : j ≠ i → holder j ≠ some u := fun hj hold =>
      hj (Option.some.inj (((h j u).mp hold).symm.trans ht))
    by_cases hj : j = i <;> simp [hj, hnot]
  · by_cases hj : j = i
    · subst hj
      have hnot : carries u ≠ some j := fun hold => hu (h.unique hold ht)
      simp [hu, hnot]
    · simpa [hj, hu] using h j u

end

/-- What a state shows of its objects. -/
structure Readings (ι τ : Type*) where
  born : ι → Prop
  pending : ι → Nat
  carries : τ → Option ι
  deletions : ι → Nat

/-- The readings are those of objects in these places. -/
structure Readings.Placed (v : Readings ι τ) (place : ι → Place τ) : Prop where
  born : ∀ i, v.born i ↔ (place i).born
  pending : ∀ i, v.pending i = (place i).pendings
  carries : Matches (Place.holder ∘ place) v.carries
  deletions : ∀ i, v.deletions i = (place i).deletions

namespace Readings.Placed

variable {v : Readings ι τ} {place : ι → Place τ} {i : ι} {t : τ}

theorem place_of_carries (h : v.Placed place) (ht : v.carries t = some i) :
    place i = .running t := by
  have hholder := (h.carries i t).mpr ht
  cases hp : place i <;> simp_all [Place.holder]

theorem place_of_pending (h : v.Placed place) (hi : v.pending i ≠ 0) : place i = .pending := by
  rw [h.pending] at hi
  cases hp : place i <;> simp_all [Place.pendings]

theorem place_of_deletions (h : v.Placed place) (hi : v.deletions i ≠ 0) : place i = .gone := by
  rw [h.deletions] at hi
  cases hp : place i <;> simp_all [Place.deletions]

theorem place_of_not_born (h : v.Placed place) (hi : ¬v.born i) : place i = .unborn := by
  rw [h.born] at hi
  cases hp : place i <;> simp_all [Place.born]

/-- What the readings are of an object that a thread carries. -/
theorem of_carries (h : v.Placed place) (ht : v.carries t = some i) : v.born i ∧
    v.pending i = 0 ∧ v.deletions i = 0 ∧ ∀ u, v.carries u = some i → u = t := by
  have hp := h.place_of_carries ht
  refine ⟨(h.born i).mpr (by rw [hp]; trivial), ?_, ?_, fun u hu => h.carries.unique hu ht⟩
  · rw [h.pending, hp]
    rfl
  · rw [h.deletions, hp]
    rfl

/-- What the readings are of an object that waits for a completion. -/
theorem of_pending (h : v.Placed place) (hi : v.pending i ≠ 0) : v.born i ∧
    v.pending i = 1 ∧ v.deletions i = 0 ∧ ∀ t, v.carries t ≠ some i := by
  have hp := h.place_of_pending hi
  refine ⟨(h.born i).mpr (by rw [hp]; trivial), ?_, ?_, fun t ht => hi (h.of_carries ht).2.1⟩
  · rw [h.pending, hp]
    rfl
  · rw [h.deletions, hp]
    rfl

/-- What the readings are of a deleted object. -/
theorem of_deletions (h : v.Placed place) (hi : v.deletions i ≠ 0) : v.born i ∧
    v.pending i = 0 ∧ v.deletions i = 1 ∧ ∀ t, v.carries t ≠ some i := by
  have hp := h.place_of_deletions hi
  refine ⟨(h.born i).mpr (by rw [hp]; trivial), ?_, ?_, fun t ht => hi (h.of_carries ht).2.2.1⟩
  · rw [h.pending, hp]
    rfl
  · rw [h.deletions, hp]
    rfl

/-- What the readings are of an object that was not created. -/
theorem of_not_born (h : v.Placed place) (hi : ¬v.born i) :
    v.pending i = 0 ∧ v.deletions i = 0 ∧ ∀ t, v.carries t ≠ some i := by
  have hp := h.place_of_not_born hi
  refine ⟨?_, ?_, fun t ht => hi (h.of_carries ht).1⟩
  · rw [h.pending, hp]
    rfl
  · rw [h.deletions, hp]
    rfl

end Readings.Placed

/-- An object waits for one completion, or one thread runs a handler of it, or it was deleted
once; and only one of the three. -/
def Readings.InOnePlace (v : Readings ι τ) (i : ι) : Prop :=
  (v.pending i = 1 ∧ (∀ t, v.carries t ≠ some i) ∧ v.deletions i = 0) ∨
    (v.pending i = 0 ∧ (∃ t, v.carries t = some i ∧ ∀ u, v.carries u = some i → u = t) ∧
      v.deletions i = 0) ∨
    v.pending i = 0 ∧ (∀ t, v.carries t ≠ some i) ∧ v.deletions i = 1

/-- Every object that was created is in one place. -/
theorem Readings.Placed.inOnePlace {v : Readings ι τ} {place : ι → Place τ} {i : ι}
    (h : v.Placed place) (hi : v.born i) : v.InOnePlace i := by
  have hborn := (h.born i).mp hi
  cases hp : place i with
  | unborn =>
    rw [hp] at hborn
    exact hborn.elim
  | pending =>
    have hpending : v.pending i = 1 := by rw [h.pending, hp]; rfl
    obtain ⟨-, -, hdeletions, hcarries⟩ := h.of_pending (i := i) (by omega)
    exact Or.inl ⟨hpending, hcarries, hdeletions⟩
  | running t =>
    have ht : v.carries t = some i := (h.carries i t).mp (by simp [hp, Place.holder])
    obtain ⟨-, hpending, hdeletions, hunique⟩ := h.of_carries ht
    exact Or.inr (Or.inl ⟨hpending, ⟨t, ht, hunique⟩, hdeletions⟩)
  | gone =>
    have hdeletions : v.deletions i = 1 := by rw [h.deletions, hp]; rfl
    obtain ⟨-, hpending, -, hcarries⟩ := h.of_deletions (i := i) (by omega)
    exact Or.inr (Or.inr ⟨hpending, hcarries, hdeletions⟩)

section

variable [DecidableEq ι] {v v' : Readings ι τ} {place : ι → Place τ}

/-- A created object that changes its place shows the difference of its places. -/
private theorem Readings.Placed.put (h : v.Placed place) {i : ι} {p q : Place τ}
    (hp : place i = p) (hpborn : p.born) (hqborn : q.born) (hborn : ∀ j, v'.born j ↔ v.born j)
    (hpending : ∀ j, v'.pending j + (if j = i then p.pendings else 0) =
      v.pending j + if j = i then q.pendings else 0)
    (hcarries : Matches (Function.update (Place.holder ∘ place) i q.holder) v'.carries)
    (hdeletions : ∀ j, v'.deletions j + (if j = i then p.deletions else 0) =
      v.deletions j + if j = i then q.deletions else 0) :
    v'.Placed (Function.update place i q) where
  born j := by
    rw [hborn, h.born]
    by_cases hj : j = i
    · simp [hj, hp, hpborn, hqborn]
    · simp [hj]
  pending j := by
    have hsum := hpending j
    rw [h.pending] at hsum
    by_cases hj : j = i
    · simp only [hj, if_true, hp, Function.update_self] at hsum ⊢
      omega
    · simpa [hj] using hsum
  carries := by
    rw [Function.comp_update]
    exact hcarries
  deletions j := by
    have hsum := hdeletions j
    rw [h.deletions] at hsum
    by_cases hj : j = i
    · simp only [hj, if_true, hp, Function.update_self] at hsum ⊢
      omega
    · simpa [hj] using hsum

variable [DecidableEq τ]

/-- What a step can do with the objects: leave them, create one with a completion to wait
for, let one wait for a completion, run its handler, or delete it. -/
inductive Handover (v v' : Readings ι τ) : Prop
  | keep (hborn : ∀ j, v'.born j ↔ v.born j) (hpending : ∀ j, v'.pending j = v.pending j)
      (hcarries : ∀ u, v'.carries u = v.carries u)
      (hdeletions : ∀ j, v'.deletions j = v.deletions j)
  | create (i : ι) (hi : ¬v.born i) (hborn : ∀ j, v'.born j ↔ v.born j ∨ j = i)
      (hpending : ∀ j, v'.pending j = if j = i then 1 else v.pending j)
      (hcarries : ∀ u, v'.carries u = v.carries u)
      (hdeletions : ∀ j, v'.deletions j = if j = i then 0 else v.deletions j)
  | start (t : τ) (i : ι) (ht : v.carries t = some i) (hborn : ∀ j, v'.born j ↔ v.born j)
      (hpending : ∀ j, v'.pending j = v.pending j + if j = i then 1 else 0)
      (hcarries : ∀ u, v'.carries u = if u = t then none else v.carries u)
      (hdeletions : ∀ j, v'.deletions j = v.deletions j)
  | deliver (t : τ) (i : ι) (ht : v.carries t = none) (hi : v.pending i ≠ 0)
      (hborn : ∀ j, v'.born j ↔ v.born j)
      (hpending : ∀ j, v'.pending j = v.pending j - if j = i then 1 else 0)
      (hcarries : ∀ u, v'.carries u = if u = t then some i else v.carries u)
      (hdeletions : ∀ j, v'.deletions j = v.deletions j)
  | delete (t : τ) (i : ι) (ht : v.carries t = some i) (hborn : ∀ j, v'.born j ↔ v.born j)
      (hpending : ∀ j, v'.pending j = v.pending j)
      (hcarries : ∀ u, v'.carries u = if u = t then none else v.carries u)
      (hdeletions : ∀ j, v'.deletions j = v.deletions j + if j = i then 1 else 0)

/-- The objects are in places again after every step. -/
theorem Readings.Placed.handover (h : v.Placed place) (hs : Handover v v') :
    ∃ place', v'.Placed place' := by
  cases hs with
  | keep hborn hpending hcarries hdeletions =>
    refine ⟨place, fun j => (hborn j).trans (h.born j), fun j => (hpending j).trans (h.pending j),
      fun j u => ?_, fun j => (hdeletions j).trans (h.deletions j)⟩
    rw [hcarries]
    exact h.carries j u
  | create i hi hborn hpending hcarries hdeletions =>
    have hp := h.place_of_not_born hi
    refine ⟨Function.update place i .pending, fun j => ?_, fun j => ?_, ?_, fun j => ?_⟩
    · rw [hborn, h.born]
      by_cases hj : j = i <;> simp [hj, Place.born]
    · rw [hpending, h.pending]
      by_cases hj : j = i <;> simp [hj, Place.pendings]
    · have hsame : Function.update (Place.holder ∘ place) i none = Place.holder ∘ place :=
        Function.update_eq_self_iff.mpr (by simp [hp, Place.holder])
      rw [Function.comp_update, show (.pending : Place τ).holder = none from rfl, hsame,
        show v'.carries = v.carries from funext hcarries]
      exact h.carries
    · rw [hdeletions, h.deletions]
      by_cases hj : j = i <;> simp [hj, Place.deletions]
  | start t i ht hborn hpending hcarries hdeletions =>
    refine ⟨_, h.put (q := .pending) (h.place_of_carries ht) trivial trivial hborn (fun j => ?_)
      (h.carries.lose ht hcarries) fun j => ?_⟩
    · simp [hpending, Place.pendings]
    · simp [hdeletions, Place.deletions]
  | deliver t i ht hi hborn hpending hcarries hdeletions =>
    have hp := h.place_of_pending hi
    refine ⟨_, h.put (q := .running t) hp trivial trivial hborn (fun j => ?_)
      (h.carries.gain (by simp [hp, Place.holder]) ht hcarries) fun j => ?_⟩
    · rw [hpending]
      by_cases hj : j = i
      · simp only [hj, if_true, Place.pendings]
        omega
      · simp [hj]
    · simp [hdeletions, Place.deletions]
  | delete t i ht hborn hpending hcarries hdeletions =>
    refine ⟨_, h.put (q := .gone) (h.place_of_carries ht) trivial trivial hborn (fun j => ?_)
      (h.carries.lose ht hcarries) fun j => ?_⟩
    · simp [hpending, Place.pendings]
    · simp [hdeletions, Place.deletions]

end

end BoostAsio.System

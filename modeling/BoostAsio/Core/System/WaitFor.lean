import Mathlib.Logic.Relation

/-!
# Circular waiting

Threads that want a lock wait for the thread that holds it. A deadlock is a cycle
of this relation. Every member of a cycle both waits and is waited for, so a
system in which few program points do both has few kinds of cycles.
-/

namespace BoostAsio.System

variable {Thread Lock : Type*}

/-- `t` waits for `u` when `u` holds the lock that `t` wants. -/
def WaitsFor (wants : Thread → Option Lock) (holder : Lock → Option Thread)
    (t u : Thread) : Prop :=
  ∃ lock, wants t = some lock ∧ holder lock = some u

/-- Some thread waits for itself through a chain of waiting threads. -/
def Deadlocked (wants : Thread → Option Lock) (holder : Lock → Option Thread) : Prop :=
  ∃ t, Relation.TransGen (WaitsFor wants holder) t t

/-- The successor of a thread on a cycle is on a cycle as well. -/
theorem exists_next_on_cycle {r : Thread → Thread → Prop} {t : Thread}
    (h : Relation.TransGen r t t) : ∃ u, r t u ∧ Relation.TransGen r u u := by
  obtain ⟨u, htu, hut⟩ := Relation.TransGen.head'_iff.mp h
  exact ⟨u, htu, Relation.TransGen.tail' hut htu⟩

/-- A chain of waiting can be followed from a deadlock as far as needed. -/
theorem Deadlocked.exists_chain {wants : Thread → Option Lock} {holder : Lock → Option Thread}
    (h : Deadlocked wants holder) :
    ∃ t u v w x, WaitsFor wants holder t u ∧ WaitsFor wants holder u v ∧
      WaitsFor wants holder v w ∧ WaitsFor wants holder w x := by
  obtain ⟨t, ht⟩ := h
  obtain ⟨u, htu, hu⟩ := exists_next_on_cycle ht
  obtain ⟨v, huv, hv⟩ := exists_next_on_cycle hu
  obtain ⟨w, hvw, hw⟩ := exists_next_on_cycle hv
  obtain ⟨x, hwx, -⟩ := exists_next_on_cycle hw
  exact ⟨t, u, v, w, x, htu, huv, hvw, hwx⟩

/-- Two threads that wait for each other are deadlocked. -/
theorem deadlocked_of_pair {wants : Thread → Option Lock} {holder : Lock → Option Thread}
    {t u : Thread} (htu : WaitsFor wants holder t u) (hut : WaitsFor wants holder u t) :
    Deadlocked wants holder :=
  ⟨t, Relation.TransGen.head htu (Relation.TransGen.single hut)⟩

end BoostAsio.System

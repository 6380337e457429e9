import BoostAsio.Client.Async.History

/-!
# Sessions that share an id

A registration overwrites the entry of its id, and `OnRequestComplete` erases the entry
of its id without looking at the session in it. The map holds the session registered
last under each id exactly as long as no earlier session of the id comes to its erase
in between.
-/

namespace BoostAsio.AsyncTcpClient

/-- A session that a handler carries, that waits for Asio or that was erased has left
`EmulateLongComputationOp`. -/
structure Launched (σ : State) (tr : List Event) (h : List Note) : Prop where
  runs : ∀ t s, (σ.threads t).runs = some s → .emulated s ∈ tr
  pending : ∀ s, (σ.sessions s).pending ≠ [] → .emulated s ∈ tr
  erased : ∀ s, .erased s ∈ h → .emulated s ∈ tr

theorem Launched.init : Launched State.init [] [] where
  runs t s h := by simp [State.init, Frame.runs] at h
  pending s h := by simp [State.init, Session.new] at h
  erased s h := by simp at h

section

variable {n : Nat} {σ σ' : State} {es : List Event} {l : Label} {t : ThreadId} {s : SessionId}

/-- A handler starts on a pending operation. -/
theorem Step.new_runs (h : Step n σ l σ' es) (ht : (σ'.threads t).runs = some s) :
    (σ.threads t).runs = some s ∨ (σ.sessions s).pending ≠ [] := by
  by_cases htl : t = l.thread
  · subst htl
    cases h with
    | deliver hpool hu hp =>
      obtain rfl : _ = s := by simpa [Label.thread, Frame.runs] using ht
      exact Or.inr (List.ne_nil_of_mem hp)
    | _ => simp_all [Label.thread, Frame.runs]
  · exact Or.inl (h.threads_of_ne htl ▸ ht)

/-- Only sessions whose connect was started are run by handlers and erased. -/
theorem Launched.step {tr : List Event} {h : List Note} (hi : Launched σ tr h)
    (hs : Step n σ l σ' es) : Launched σ' (tr ++ es) (h ++ note σ l) where
  runs t s ht := by
    rcases hs.new_runs ht with hold | hp
    · exact List.mem_append_left _ (hi.runs t s hold)
    · exact List.mem_append_left _ (hi.pending s hp)
  pending s hp := by
    rcases hs.new_pending hp with hold | ⟨t, -, hnew⟩ | ⟨t, next, ht⟩
    · exact List.mem_append_left _ (hi.pending s hold)
    · exact List.mem_append_right _ hnew
    · exact List.mem_append_left _ (hi.runs t s (by simp [ht, Frame.runs]))
  erased s hm := by
    rcases List.mem_append.mp hm with hold | hnew
    · exact List.mem_append_left _ (hi.erased s hold)
    · obtain ⟨t, guarded, -, ht⟩ := mem_note_erased hnew
      exact List.mem_append_left _ (hi.runs t s (by simp [ht, Frame.runs]))

end

/-- Every run erases launched sessions only. -/
theorem Run.launched {n : Nat} {labels : List Label} {σ : State} {tr : List Event}
    (h : Run n labels σ tr) : Launched σ tr (notes n labels) :=
  Run.induction_notes (P := fun _ => Launched) .init (fun _ hi hs => hi.step hs) h

/-- The session that was registered last under an id has that id. -/
def Named (σ : State) (h : List Note) : Prop :=
  ∀ id s, latest id h = some s → s < σ.count ∧ (σ.sessions s).id = id

theorem Run.named {n : Nat} {labels : List Label} {σ : State} {tr : List Event}
    (h : Run n labels σ tr) : Named σ (notes n labels) := by
  refine Run.induction_notes (P := fun _ σ _ h => Named σ h) (fun id s hs => by simp at hs) ?_ h
  intro as σ tr l σ' es hrun hi hs id s hlatest
  have hkeep : s < σ.count ∧ (σ.sessions s).id = id → s < σ'.count ∧ (σ'.sessions s).id = id :=
    fun ⟨hlt, hid⟩ => ⟨hlt.trans_le hs.count_le, (hs.id_eq hlt).trans hid⟩
  rcases hs.note_cases with ⟨t, r, ht, hnote, -⟩ | ⟨t, r, guarded, -, -, hnote, -⟩ | ⟨hnone, -, -⟩
  · rw [hnote, latest_append_registered] at hlatest
    split at hlatest
    · next hid =>
      obtain rfl := Option.some.inj hlatest
      exact hkeep ⟨hrun.scoped.threads t r (by simp [ht, Frame.session]), hid⟩
    · exact hkeep (hi id s hlatest)
  · rw [hnote, latest_append (by simp)] at hlatest
    exact hkeep (hi id s hlatest)
  · rw [latest_append hnone] at hlatest
    exact hkeep (hi id s hlatest)

/-- The map holds exactly the sessions registered last that were not erased. -/
def Current (σ : State) (h : List Note) : Prop :=
  ∀ id s, σ.activeSessions id = some s ↔ latest id h = some s ∧ .erased s ∉ h

/-- A session comes to its erase while a later one of its id has not come to its own. -/
def Overtaken (n : Nat) (pre : List Label) (l : Label) : Prop :=
  ∃ t σ tr s guarded r, l = .run t ∧ Run n pre σ tr ∧ σ.threads t = .complete .erase s guarded ∧
    latest (σ.sessions s).id (notes n pre) = some r ∧ r ≠ s ∧ .erased r ∉ notes n pre

/-- A session is registered before it is erased. -/
theorem Run.not_erased {n : Nat} {labels : List Label} {σ : State} {tr : List Event}
    (h : Run n labels σ tr) {t : ThreadId} {s : SessionId}
    (ht : σ.threads t = .registerInsert s) : .erased s ∉ notes n labels := fun hm =>
  h.calls.emulated t s (by simp [ht, Frame.emulates]) (h.launched.erased s hm)

/-- The map stays current as long as nobody is overtaken. -/
theorem Current.step {n : Nat} {labels : List Label} {σ σ' : State} {tr es : List Event}
    {l : Label} (hrun : Run n labels σ tr) (hi : Current σ (notes n labels))
    (hs : Step n σ l σ' es) (hover : ¬Overtaken n labels l) :
    Current σ' (notes n labels ++ note σ l) := by
  intro id s
  rcases hs.note_cases with ⟨t, r, ht, hnote, hmap⟩ | ⟨t, r, guarded, hl, ht, hnote, hmap⟩ |
    ⟨hnone, herased, hmap⟩
  · rw [hnote, latest_append_registered, hmap]
    by_cases hid : id = (σ.sessions r).id
    · have hr := hrun.not_erased ht
      by_cases hrs : r = s
      · simp [hid, ← hrs, hr]
      · simp [hid, hrs]
    · simpa [hid, Ne.symm hid] using hi id s
  · rw [hnote, latest_append (by simp), hmap]
    by_cases hid : id = (σ.sessions r).id
    · subst hid
      simp only [if_pos, reduceCtorEq, false_iff, not_and, not_not]
      intro hlatest
      by_cases hrs : s = r
      · simp [hrs]
      · refine List.mem_append_left _ (by_contra fun hnot => hover ?_)
        exact ⟨t, σ, tr, r, guarded, s, hl, hrun, ht, hlatest, hrs, hnot⟩
    · have hne : latest id (notes n labels) = some s → s ≠ r := by
        rintro hlatest rfl
        exact hid (hrun.named id s hlatest).2.symm
      rw [if_neg hid, hi id s]
      constructor
      · rintro ⟨hlatest, hnot⟩
        exact ⟨hlatest, by simp [hnot, hne hlatest]⟩
      · rintro ⟨hlatest, hnot⟩
        exact ⟨hlatest, fun hm => hnot (List.mem_append_left _ hm)⟩
  · rw [latest_append hnone, hmap, hi id s]
    simp [herased]

/-- A run in which nobody is overtaken keeps its map current. -/
theorem Run.current {n : Nat} {labels : List Label} {σ : State} {tr : List Event}
    (h : Run n labels σ tr)
    (hover : ∀ pre l, pre ++ [l] <+: labels → ¬Overtaken n pre l) :
    Current σ (notes n labels) := by
  revert hover
  refine Run.induction_notes (P := fun as σ _ h =>
    (∀ pre l, pre ++ [l] <+: as → ¬Overtaken n pre l) → Current σ h) ?_ ?_ h
  · intro _ id s
    simp [State.init]
  · intro as σ tr l σ' es hrun ih hs hover
    have hi := ih fun pre b hpre => hover pre b (hpre.trans (List.prefix_append ..))
    exact hi.step hrun hs (hover as l List.prefix_rfl)

/-- The session registered last under each id can be found until its own erase. -/
def StaysReachable (n : Nat) (labels : List Label) : Prop :=
  ∀ pre σ tr, pre <+: labels → Run n pre σ tr → ∀ id s,
    latest id (notes n pre) = some s → .erased s ∉ notes n pre → σ.activeSessions id = some s

/-- `OnRequestComplete` removes its own session from the map or nothing. -/
def ErasesOwn (n : Nat) (labels : List Label) : Prop :=
  ∀ σ t s guarded, System.StepOnRun (step n) State.init labels σ (.run t) →
    σ.threads t = .complete .erase s guarded → ∀ r,
      σ.activeSessions (σ.sessions s).id = some r → r = s

/-- Sessions of a run do not evict each other exactly when none of them comes to its erase
while a later one of its id has not come to its own. -/
theorem eviction_free_iff (n : Nat) (labels : List Label) :
    ErasesOwn n labels ∧ StaysReachable n labels ↔
      ∀ pre l, pre ++ [l] <+: labels → ¬Overtaken n pre l := by
  constructor
  · rintro ⟨hown, hstays⟩ pre l hpre ⟨t, ρ, tr', s, guarded, r, rfl, hrun, ht, hlatest, hne, hnot⟩
    have hentry := hstays pre ρ tr' ((List.prefix_append ..).trans hpre) hrun _ r hlatest hnot
    exact hne (hown ρ t s guarded ⟨pre, hpre, tr', hrun⟩ ht r hentry)
  · intro hover
    have hcurrent : ∀ {pre ρ tr'}, pre <+: labels → Run n pre ρ tr' →
        Current ρ (notes n pre) := fun hpre hrun =>
      hrun.current fun pre' l hpre' => hover pre' l (hpre'.trans hpre)
    constructor
    · rintro ρ t s guarded ⟨pre, hpre, tr', hrun⟩ ht r hentry
      by_contra hne
      obtain ⟨hlatest, hnot⟩ :=
        (hcurrent ((List.prefix_append ..).trans hpre) hrun _ r).mp hentry
      exact hover pre _ hpre ⟨t, ρ, tr', s, guarded, r, rfl, hrun, ht, hlatest, hne, hnot⟩
    · intro pre ρ tr' hpre hrun id s hlatest hnot
      exact (hcurrent hpre hrun id s).mpr ⟨hlatest, hnot⟩

/-- The connect of the first of two requests with one id fails, and it is completed. -/
def reusedIdSchedule : List Label :=
  .emulate 1 10 1 :: List.replicate 5 (.run 1) ++
    .emulate 1 20 1 :: List.replicate 5 (.run 1) ++
    .deliver 0 0 ⟨.connect, false⟩ ⟨111, .system⟩ [] :: List.replicate 4 (.run 0)

/-- The second request is still in flight and cannot be found any more. -/
theorem reusedIdSchedule_evicts : ∃ σ tr, Run 1 reusedIdSchedule σ tr ∧
    ¬(ErasesOwn 1 reusedIdSchedule ∧ StaysReachable 1 reusedIdSchedule) := by
  obtain ⟨σ, tr, hrun, hlatest, hnot, hnone⟩ : ∃ σ tr, Run 1 reusedIdSchedule σ tr ∧
      latest 1 (notes 1 reusedIdSchedule) = some 1 ∧
      .erased 1 ∉ notes 1 reusedIdSchedule ∧ σ.activeSessions 1 = none :=
    ⟨_, _, rfl, by decide, by decide, by decide⟩
  refine ⟨σ, tr, hrun, fun ⟨_, hstays⟩ => ?_⟩
  have hentry := hstays _ σ tr List.prefix_rfl hrun 1 1 hlatest hnot
  rw [hnone] at hentry
  cases hentry

end BoostAsio.AsyncTcpClient

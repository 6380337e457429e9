import BoostAsio.Core.System.Run

/-!
# Transfers in pieces

A transfer moves a number of items by one operation after the other. Each operation is offered
all that is left and reports how many items it moved, or that it failed. As long as an operation
that is offered something moves something, every transfer ends, and what it has moved is the sum
of the reports.
-/

namespace BoostAsio.Transfer

open BoostAsio.System

variable {ε : Type*}

/-- How one operation ends. -/
inductive Report (ε : Type*)
  | moved (n : Nat)
  | failed (e : ε)

/-- An operation is under way, or everything is moved, or the transfer was given up. -/
inductive Phase (ε : Type*)
  | busy
  | finished
  | stopped (e : ε)

/-- The number of items moved so far, and whether more are to follow. -/
structure State (ε : Type*) where
  moved : Nat
  phase : Phase ε

/-- The items that an operation is offered, by the position of the first one. -/
structure Offer where
  start : Nat
  size : Nat
  deriving DecidableEq

/-- Nothing beyond the offer is moved, and something unless the offer is empty. -/
def Report.Fits (size : Nat) : Report ε → Prop
  | .moved n => n ≤ size ∧ (n = 0 → size = 0)
  | .failed _ => True

instance (size : Nat) : (r : Report ε) → Decidable (r.Fits size)
  | .moved n => inferInstanceAs (Decidable (n ≤ size ∧ (n = 0 → size = 0)))
  | .failed _ => inferInstanceAs (Decidable True)

/-- Offer what is left, or end. -/
def proceed (total moved : Nat) : State ε × List Offer :=
  if moved = total then (⟨moved, .finished⟩, [])
  else (⟨moved, .busy⟩, [⟨moved, total - moved⟩])

/-- The operation under way ends. -/
def step (total : Nat) (s : State ε) (r : Report ε) : Option (State ε × List Offer) :=
  match s.phase with
  | .busy =>
    if r.Fits (total - s.moved) then
      match r with
      | .moved n => some (proceed total (s.moved + n))
      | .failed e => some (⟨s.moved, .stopped e⟩, [])
    else none
  | _ => none

/-- Where a transfer starts: it looks first whether there is anything to move, or it offers
everything at once, be it nothing. -/
inductive Start (total : Nat) : State ε × List Offer → Prop
  | guarded : Start total (proceed total 0)
  | eager : Start total (⟨0, .busy⟩, [⟨0, total⟩])

/-- The transfer gets from its start to a state by these reports, with these offers. -/
def Runs (total : Nat) (start : State ε × List Offer) (reports : List (Report ε)) (s : State ε)
    (offers : List Offer) : Prop :=
  ∃ tr, exec (step total) start.1 reports = some (s, tr) ∧ offers = start.2 ++ tr

/-- The items that were moved according to the reports. -/
def movedBy : List (Report ε) → Nat
  | [] => 0
  | .moved n :: reports => n + movedBy reports
  | .failed _ :: reports => movedBy reports

theorem movedBy_append (reports more : List (Report ε)) :
    movedBy (reports ++ more) = movedBy reports + movedBy more := by
  induction reports with
  | nil => simp [movedBy]
  | cons r reports ih =>
    cases r with
    | moved n =>
      rw [List.cons_append, movedBy, movedBy, ih, Nat.add_assoc]
    | failed e => exact ih

/-- What a run of a transfer has come to. -/
structure Reached (total : Nat) (reports : List (Report ε)) (s : State ε) (offers : List Offer) :
    Prop where
  moved_eq : s.moved = movedBy reports
  moved_le : s.moved ≤ total
  /-- Every operation is offered all that is left, and nothing only in an empty transfer. -/
  offers_rest : ∀ o ∈ offers, o.start + o.size = total
  offers_pos : ∀ o ∈ offers, o.size = 0 → total = 0
  /-- The operation under way was offered what is left now. -/
  busy_last : s.phase = .busy → offers.getLast? = some ⟨s.moved, total - s.moved⟩
  finished_eq : s.phase = .finished → s.moved = total
  /-- A transfer is given up by the operation that failed, which is its last one. -/
  stopped_iff : ∀ e, s.phase = .stopped e ↔ reports.getLast? = some (.failed e)
  /-- Every operation has ended, except for the one under way. -/
  ended : s.phase ≠ .busy → offers.length = reports.length
  ended_busy : s.phase = .busy → offers.length = reports.length + 1
  /-- Every operation but the one under way has moved something, except for a single one in an
  empty transfer. -/
  offers_le : s.phase = .finished → offers.length ≤ max 1 s.moved
  offers_lt : s.phase ≠ .finished → offers.length ≤ s.moved + 1 ∧ (s.moved < total ∨ total = 0)

section

variable {total : Nat} {reports : List (Report ε)} {s s' : State ε} {offers os : List Offer}
  {r : Report ε}

/-- A step, with everything that it can do. -/
theorem step_eq_some (h : step total s r = some (s', os)) :
    s.phase = .busy ∧ r.Fits (total - s.moved) ∧
      ((∃ n, r = .moved n ∧ (s', os) = proceed total (s.moved + n)) ∨
        ∃ e, r = .failed e ∧ s' = ⟨s.moved, .stopped e⟩ ∧ os = []) := by
  unfold step at h
  split at h
  · next hbusy =>
    split at h
    · next hfits =>
      refine ⟨hbusy, hfits, ?_⟩
      cases r with
      | moved n => exact Or.inl ⟨n, rfl, (Option.some.inj h).symm⟩
      | failed e =>
        obtain ⟨rfl, rfl⟩ := Prod.mk.inj (Option.some.inj h)
        exact Or.inr ⟨e, rfl, rfl, rfl⟩
    · cases h
  · cases h

/-- The operation under way has moved something. -/
theorem step_moved {n : Nat} (hbusy : s.phase = .busy)
    (hfits : (Report.moved n : Report ε).Fits (total - s.moved)) :
    step total s (.moved n) = some (proceed total (s.moved + n)) := by
  unfold step
  rw [hbusy]
  exact if_pos hfits

/-- The operation under way has failed. -/
theorem step_failed {e : ε} (hbusy : s.phase = .busy) :
    step total s (.failed e) = some (⟨s.moved, .stopped e⟩, []) := by
  unfold step
  rw [hbusy]
  exact if_pos trivial

/-- It reports nothing that does not fit. -/
theorem step_unfit (hfits : ¬r.Fits (total - s.moved)) : step total s r = none := by
  unfold step
  split
  · exact if_neg hfits
  · rfl

/-- An operation under way may report anything that fits. -/
theorem step_busy (hbusy : s.phase = .busy) (hfits : r.Fits (total - s.moved)) :
    (step total s r).isSome = true := by
  cases r with
  | moved n => rw [step_moved hbusy hfits, Option.isSome_some]
  | failed e => rw [step_failed hbusy, Option.isSome_some]

/-- Without an operation under way nothing more happens. -/
theorem step_ended (hended : s.phase ≠ .busy) : step total s r = none := by
  unfold step
  split
  · next hbusy => exact absurd hbusy hended
  · rfl

/-- A start has not moved anything yet. -/
theorem Start.reached {start : State ε × List Offer} (h : Start total start) :
    Reached total [] start.1 start.2 := by
  cases h with
  | guarded =>
    unfold proceed
    split
    · next hzero =>
      constructor <;> simp [movedBy, ← hzero]
    · next hpos =>
      have hne : total ≠ 0 := fun h => hpos h.symm
      constructor <;> simp [movedBy, hne]
      omega
  | eager =>
    constructor <;> simp [movedBy]
    omega

/-- A transfer that was not given up did not end with a failure. -/
theorem stopped_iff_of_moved {p : Phase ε} (hp : ∀ e, p ≠ .stopped e) (n : Nat) (e : ε) :
    p = .stopped e ↔ (reports ++ [Report.moved n]).getLast? = some (.failed e) := by
  rw [List.getLast?_concat]
  exact iff_of_false (hp e) (by simp)

/-- An operation that moved the last items finishes the transfer. -/
theorem Reached.finish {n : Nat} (h : Reached total reports s offers) (hbusy : s.phase = .busy)
    (hall : s.moved + n = total) :
    Reached total (reports ++ [.moved n]) ⟨s.moved + n, .finished⟩ offers where
  moved_eq := by
    rw [movedBy_append, h.moved_eq]
    rfl
  moved_le := Nat.le_of_eq hall
  offers_rest := h.offers_rest
  offers_pos := h.offers_pos
  busy_last := nofun
  finished_eq := fun _ => hall
  stopped_iff := stopped_iff_of_moved (by simp) n
  ended := by
    intro _
    rw [List.length_append]
    exact h.ended_busy hbusy
  ended_busy := nofun
  offers_le := by
    intro _
    have hcount := h.offers_lt (by simp [hbusy])
    simp only
    omega
  offers_lt := fun h => absurd rfl h

/-- An operation that left items is followed by one that is offered them. -/
theorem Reached.goOn {n : Nat} (h : Reached total reports s offers) (hbusy : s.phase = .busy)
    (hle : n ≤ total - s.moved) (hpos : n = 0 → total - s.moved = 0)
    (hmore : s.moved + n ≠ total) :
    Reached total (reports ++ [.moved n]) ⟨s.moved + n, .busy⟩
      (offers ++ [⟨s.moved + n, total - (s.moved + n)⟩]) := by
  have hmoved_le := h.moved_le
  have hended := h.ended_busy hbusy
  have hcount := h.offers_lt (by simp [hbusy])
  exact {
    moved_eq := by
      rw [movedBy_append, h.moved_eq]
      rfl
    moved_le := by
      simp only
      omega
    offers_rest := by
      intro o ho
      rcases List.mem_append.mp ho with ho | ho
      · exact h.offers_rest o ho
      · rw [List.mem_singleton.mp ho]
        simp only
        omega
    offers_pos := by
      intro o ho hsize
      rcases List.mem_append.mp ho with ho | ho
      · exact h.offers_pos o ho hsize
      · rw [List.mem_singleton.mp ho] at hsize
        simp only at hsize
        omega
    busy_last := fun _ => List.getLast?_concat
    finished_eq := nofun
    stopped_iff := stopped_iff_of_moved (by simp) n
    ended := fun h => absurd rfl h
    ended_busy := by
      intro _
      simp only [List.length_append, List.length_singleton]
      omega
    offers_le := nofun
    offers_lt := by
      intro _
      simp only [List.length_append, List.length_singleton]
      omega }

/-- An operation that failed ends the transfer where it is. -/
theorem Reached.stop {e : ε} (h : Reached total reports s offers) (hbusy : s.phase = .busy) :
    Reached total (reports ++ [.failed e]) ⟨s.moved, .stopped e⟩ offers where
  moved_eq := by
    rw [movedBy_append, ← h.moved_eq]
    rfl
  moved_le := h.moved_le
  offers_rest := h.offers_rest
  offers_pos := h.offers_pos
  busy_last := nofun
  finished_eq := nofun
  stopped_iff := by
    intro e'
    simp
  ended := by
    intro _
    rw [List.length_append]
    exact h.ended_busy hbusy
  ended_busy := nofun
  offers_le := nofun
  offers_lt := fun _ => h.offers_lt (by simp [hbusy])

/-- Every report leads to what a transfer can come to. -/
theorem Reached.step (h : Reached total reports s offers)
    (hstep : step total s r = some (s', os)) :
    Reached total (reports ++ [r]) s' (offers ++ os) := by
  obtain ⟨hbusy, hfits, ⟨n, rfl, hnext⟩ | ⟨e, rfl, rfl, rfl⟩⟩ := step_eq_some hstep
  · unfold proceed at hnext
    split at hnext
    · next hall =>
      obtain ⟨rfl, rfl⟩ := Prod.mk.inj hnext
      rw [List.append_nil]
      exact h.finish hbusy hall
    · next hmore =>
      obtain ⟨rfl, rfl⟩ := Prod.mk.inj hnext
      exact h.goOn hbusy hfits.1 hfits.2 hmore
  · rw [List.append_nil]
    exact h.stop hbusy

/-- Every run of a transfer comes to such a state. -/
theorem Runs.reached {start : State ε × List Offer} (h : Runs total start reports s offers)
    (hstart : Start total start) : Reached total reports s offers := by
  obtain ⟨tr, hrun, rfl⟩ := h
  refine exec_induction
    (P := fun reports s tr => Reached total reports s (start.2 ++ tr)) ?_ ?_ hrun
  · rw [List.append_nil]
    exact hstart.reached
  · intro reports s tr r s' os _ ih hstep
    rw [← List.append_assoc]
    exact ih.step hstep

/-- A transfer consists of at most as many operations as it has items, or of a single one. -/
theorem Reached.offers_bound (h : Reached total reports s offers) :
    offers.length ≤ max 1 total := by
  have hmoved_le := h.moved_le
  by_cases hfinished : s.phase = .finished
  · have hcount := h.offers_le hfinished
    omega
  · have hcount := h.offers_lt hfinished
    omega

end

/-! ### Transfers from a source that ends -/

/-- What an operation can report of a source with so many items left: no more of them, and the
end of the source only when there are none. -/
def Report.From (eof : ε) (left : Nat) : Report ε → Prop
  | .moved n => n ≤ left
  | .failed e => e = eof ∧ left = 0

instance [DecidableEq ε] (eof : ε) (left : Nat) : (r : Report ε) → Decidable (r.From eof left)
  | .moved n => inferInstanceAs (Decidable (n ≤ left))
  | .failed e => inferInstanceAs (Decidable (e = eof ∧ left = 0))

/-- A step of a transfer from a source that had so many items available. -/
def draw [DecidableEq ε] (eof : ε) (total available : Nat) :
    State ε → Report ε → Option (State ε × List Offer) :=
  guarded (fun s r => r.From eof (available - s.moved)) (step total)

/-- What a transfer from a source has come to: it is given up only behind the last item, and
only when that does not make it complete. -/
structure Drawn (eof : ε) (total available : Nat) (s : State ε) : Prop where
  moved_le : s.moved ≤ available
  stopped : ∀ e, s.phase = .stopped e →
    e = eof ∧ s.moved = available ∧ (s.moved < total ∨ total = 0)

/-- Whatever is left, there is something to report that fits. -/
theorem exists_report (eof : ε) {size : Nat} (hsize : size ≠ 0) (left : Nat) :
    ∃ r : Report ε, r.Fits size ∧ r.From eof left := by
  by_cases hleft : left = 0
  · exact ⟨.failed eof, trivial, rfl, hleft⟩
  · refine ⟨.moved 1, ⟨?_, nofun⟩, ?_⟩
    · omega
    · change 1 ≤ left
      omega

section

variable [DecidableEq ε] {eof : ε} {total available : Nat} {start : State ε × List Offer}
  {reports : List (Report ε)} {s s' : State ε} {tr os : List Offer} {r : Report ε}

/-- A report that fits and that the source makes takes the transfer on. -/
theorem draw_moved {n : Nat} (hbusy : s.phase = .busy)
    (hfits : (Report.moved n : Report ε).Fits (total - s.moved))
    (hfrom : (Report.moved n).From eof (available - s.moved)) :
    draw eof total available s (.moved n) = some (proceed total (s.moved + n)) :=
  guarded_eq_some.mpr ⟨hfrom, step_moved hbusy hfits⟩

/-- The end of the source ends the transfer. -/
theorem draw_failed {e : ε} (hbusy : s.phase = .busy)
    (hfrom : (Report.failed e).From eof (available - s.moved)) :
    draw eof total available s (.failed e) = some (⟨s.moved, .stopped e⟩, []) :=
  guarded_eq_some.mpr ⟨hfrom, step_failed hbusy⟩

/-- There are no other reports. -/
theorem draw_unfit
    (h : ¬(r.Fits (total - s.moved) ∧ r.From eof (available - s.moved))) :
    draw eof total available s r = none := by
  by_cases hfrom : r.From eof (available - s.moved)
  · have hfits : ¬r.Fits (total - s.moved) := fun hfits => h ⟨hfits, hfrom⟩
    rw [draw, guarded, if_pos hfrom, step_unfit hfits]
  · exact if_neg hfrom

theorem draw_ended (hended : s.phase ≠ .busy) : draw eof total available s r = none := by
  rw [draw, guarded, step_ended hended]
  exact ite_self none

theorem draw_busy (hbusy : s.phase = .busy) (hfits : r.Fits (total - s.moved))
    (hfrom : r.From eof (available - s.moved)) :
    (draw eof total available s r).isSome = true := by
  rw [draw, guarded, if_pos hfrom]
  exact step_busy hbusy hfits

/-- A run from a source is a run of the transfer. -/
theorem runs_of_draw (h : exec (draw eof total available) start.1 reports = some (s, tr)) :
    Runs total start reports s (start.2 ++ tr) :=
  ⟨tr, exec_of_guarded h, rfl⟩

/-- Every report of the source keeps the account. -/
theorem Drawn.step (h : Drawn eof total available s)
    (hlt : s.phase = .busy → s.moved < total ∨ total = 0)
    (hstep : draw eof total available s r = some (s', os)) : Drawn eof total available s' := by
  obtain ⟨hfrom, hstep⟩ := guarded_eq_some.mp hstep
  have hmoved_le := h.moved_le
  obtain ⟨hbusy, -, ⟨n, rfl, hnext⟩ | ⟨e, rfl, rfl, -⟩⟩ := step_eq_some hstep
  · have hn : n ≤ available - s.moved := hfrom
    have hle : s.moved + n ≤ available := by omega
    unfold proceed at hnext
    split at hnext
    · obtain ⟨rfl, -⟩ := Prod.mk.inj hnext
      exact ⟨hle, nofun⟩
    · obtain ⟨rfl, -⟩ := Prod.mk.inj hnext
      exact ⟨hle, nofun⟩
  · obtain ⟨rfl, hleft⟩ := hfrom
    refine ⟨hmoved_le, ?_⟩
    intro e he
    have hmoved : s.moved = available := by omega
    exact ⟨(Phase.stopped.inj he).symm, hmoved, hlt hbusy⟩

/-- So does every run. -/
theorem drawn_of_exec (hstart : Start total start)
    (h : exec (draw eof total available) start.1 reports = some (s, tr)) :
    Drawn eof total available s := by
  refine exec_induction (P := fun _ s _ => Drawn eof total available s) ?_ ?_ h
  · cases hstart with
    | guarded =>
      unfold proceed
      split
      · exact ⟨Nat.zero_le _, nofun⟩
      · exact ⟨Nat.zero_le _, nofun⟩
    | eager => exact ⟨Nat.zero_le _, nofun⟩
  · intro reports s tr r s' os hexec ih hstep
    have hreached := (runs_of_draw hexec).reached hstart
    apply ih.step ?_ hstep
    intro hbusy
    exact (hreached.offers_lt (by simp [hbusy])).2

end

end BoostAsio.Transfer

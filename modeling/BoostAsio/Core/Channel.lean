import Mathlib.Data.List.Basic

/-!
# One direction of a connection

What is written into a channel comes out of it in the same order and in pieces of any size.
Closing the channel puts an end behind all that was written; the end is delivered last, and
nothing is written behind it. So whoever has received the end has received everything.
-/

namespace BoostAsio

/-- A channel, with everything that was written into it and delivered by it so far. -/
structure Channel (α : Type*) where
  written : List α
  delivered : List α
  inFlight : List α
  closed : Bool
  ended : Bool
  account : written = delivered ++ inFlight
  ended_last : ended = true → closed = true ∧ inFlight = []

namespace Channel

variable {α : Type*}

/-- A channel before anything is written. -/
def empty : Channel α := ⟨[], [], [], false, false, rfl, nofun⟩

/-- Write a piece; nothing can be written into a closed channel. -/
def send (c : Channel α) (piece : List α) : Option (Channel α) :=
  if hopen : c.closed = false then
    some
      { written := c.written ++ piece
        delivered := c.delivered
        inFlight := c.inFlight ++ piece
        closed := false
        ended := false
        account := by rw [c.account, List.append_assoc]
        ended_last := nofun }
  else none

/-- Close the channel. -/
def close (c : Channel α) : Channel α :=
  { c with
    closed := true
    ended_last := fun h => ⟨rfl, (c.ended_last h).2⟩ }

/-- Deliver the next items, at least one of them. -/
def deliver (c : Channel α) (n : Nat) : Option (List α × Channel α) :=
  if 0 < n ∧ n ≤ c.inFlight.length then
    some (c.inFlight.take n,
      { c with
        delivered := c.delivered ++ c.inFlight.take n
        inFlight := c.inFlight.drop n
        account := by rw [List.append_assoc, List.take_append_drop, c.account]
        ended_last := by
          intro h
          obtain ⟨hclosed, hnil⟩ := c.ended_last h
          exact ⟨hclosed, by rw [hnil, List.drop_nil]⟩ })
  else none

/-- Deliver the end, behind all items. -/
def finish (c : Channel α) : Option (Channel α) :=
  if hend : c.closed = true ∧ c.inFlight = [] ∧ c.ended = false then
    some { c with ended := true, ended_last := fun _ => ⟨hend.1, hend.2.1⟩ }
  else none

/-- Nothing is on its way, neither an item nor the end. -/
def Silent (c : Channel α) : Prop := c.inFlight = [] ∧ (c.closed = true → c.ended = true)

section

variable {c c' : Channel α} {piece : List α} {n : Nat}

/-- A write extends what was written. -/
theorem send_eq_some (h : c.send piece = some c') :
    c'.written = c.written ++ piece ∧ c'.delivered = c.delivered ∧ c'.closed = false ∧
      c'.ended = c.ended := by
  unfold send at h
  split at h
  · next hopen =>
    obtain rfl := Option.some.inj h
    have hended : c.ended = false := by
      by_contra hended
      have hclosed := (c.ended_last (Bool.not_eq_false _ ▸ hended)).1
      rw [hopen] at hclosed
      cases hclosed
    exact ⟨rfl, rfl, rfl, hended.symm⟩
  · cases h

/-- A delivery extends what was delivered. -/
theorem deliver_eq_some (h : c.deliver n = some (piece, c')) :
    c'.written = c.written ∧ c'.delivered = c.delivered ++ piece ∧ c'.closed = c.closed ∧
      c'.ended = c.ended := by
  unfold deliver at h
  split at h
  · obtain ⟨rfl, rfl⟩ := Prod.mk.inj (Option.some.inj h)
    exact ⟨rfl, rfl, rfl, rfl⟩
  · cases h

/-- Whoever receives the end has received everything that was written, and that is all. -/
theorem finish_eq_some (h : c.finish = some c') : c.closed = true ∧ c.delivered = c.written ∧
    c'.written = c.written ∧ c'.delivered = c.delivered ∧ c'.closed = true ∧
      c'.ended = true := by
  unfold finish at h
  split at h
  · next hend =>
    obtain rfl := Option.some.inj h
    have hall := c.account
    rw [hend.2.1, List.append_nil] at hall
    exact ⟨hend.1, hall.symm, rfl, rfl, hend.1, rfl⟩
  · cases h

/-- An open channel takes every piece. -/
theorem send_isSome (hopen : c.closed = false) (piece : List α) :
    (c.send piece).isSome = true := by
  rw [send, dif_pos hopen, Option.isSome_some]

/-- A channel that is not silent has something to deliver. -/
theorem exists_delivery (h : ¬c.Silent) :
    (c.deliver 1).isSome = true ∨ c.finish.isSome = true := by
  by_cases hnil : c.inFlight = []
  · have hend : c.closed = true ∧ c.ended = false := by
      by_contra hno
      apply h
      refine ⟨hnil, fun hclosed => ?_⟩
      by_contra hended
      exact hno ⟨hclosed, Bool.eq_false_iff.mpr hended⟩
    right
    rw [finish, dif_pos ⟨hend.1, hnil, hend.2⟩, Option.isSome_some]
  · have hpos := List.length_pos_iff.mpr hnil
    left
    rw [deliver, if_pos ⟨Nat.one_pos, hpos⟩, Option.isSome_some]

end

/-- A text is on its way: what its sender has left to write (nothing when the channel is
closed), what its receiver has got, and whether that has received the end. -/
structure Carries (c : Channel α) (text : List α) (unsent : Option (List α)) (received : List α)
    (finished : Bool) : Prop where
  written : c.written ++ unsent.getD [] = text
  closed : c.closed = unsent.isNone
  received : received = c.delivered
  finished : c.ended = finished

section

variable {c c' : Channel α} {text rest received piece : List α} {unsent : Option (List α)}
  {finished : Bool} {n : Nat}

theorem carries_empty (text : List α) : (empty : Channel α).Carries text (some text) [] false :=
  ⟨rfl, rfl, rfl, rfl⟩

/-- The sender writes the next piece. -/
theorem Carries.send (h : c.Carries text (some rest) received finished)
    (hsend : c.send (rest.take n) = some c') :
    c'.Carries text (some (rest.drop n)) received finished := by
  obtain ⟨hwritten, hdelivered, hclosed, hended⟩ := send_eq_some hsend
  constructor
  · have hall := h.written
    rw [Option.getD_some] at hall ⊢
    rw [hwritten, List.append_assoc, List.take_append_drop, hall]
  · rw [hclosed]
    rfl
  · rw [hdelivered, h.received]
  · rw [hended, h.finished]

/-- The sender closes the channel behind the text. -/
theorem Carries.close (h : c.Carries text (some []) received finished) :
    c.close.Carries text none received finished :=
  ⟨h.written, rfl, h.received, h.finished⟩

/-- The receiver gets the next piece. -/
theorem Carries.deliver (h : c.Carries text unsent received finished)
    (hdeliver : c.deliver n = some (piece, c')) :
    c'.Carries text unsent (received ++ piece) finished := by
  obtain ⟨hwritten, hdelivered, hclosed, hended⟩ := deliver_eq_some hdeliver
  constructor
  · rw [hwritten, h.written]
  · rw [hclosed, h.closed]
  · rw [hdelivered, h.received]
  · rw [hended, h.finished]

/-- The receiver gets the end: it has got the text, and nothing else was written. -/
theorem Carries.finish (h : c.Carries text unsent received finished)
    (hfinish : c.finish = some c') : received = text ∧ c.written = text ∧
      c'.Carries text unsent received true := by
  obtain ⟨hclosed, hall, hwritten, hdelivered, hclosed', hended⟩ := finish_eq_some hfinish
  have hnone : unsent = none := by
    rw [h.closed] at hclosed
    exact Option.isNone_iff_eq_none.mp hclosed
  have htext := h.written
  rw [hnone, Option.getD_none, List.append_nil] at htext
  refine ⟨?_, htext, ?_, ?_, ?_, hended⟩
  · rw [h.received, hall, htext]
  · rw [hwritten, h.written]
  · rw [hclosed', ← hclosed, h.closed]
  · rw [hdelivered, h.received]

/-- A closed channel is not silent before its receiver has the end. -/
theorem Carries.not_silent (h : c.Carries text none received false) : ¬c.Silent := by
  intro hsilent
  have hended := hsilent.2 h.closed
  rw [h.finished] at hended
  cases hended

end

end Channel

end BoostAsio

import BoostAsio.Core.Channel

/-!
# One direction of a connection with the write that is pending on it

A write hands over a text, which goes out piece by piece. What the other side has received is
always a first part of the one text that was handed over.
-/

namespace BoostAsio

namespace Channel

variable {α : Type*} [DecidableEq α] {c c' : Channel α} {piece : List α}

/-- Take this piece off a channel; an empty one is always there. -/
def takePiece (c : Channel α) (piece : List α) : Option (Channel α) :=
  if piece = [] then some c
  else (c.deliver piece.length).bind fun next => if next.1 = piece then some next.2 else none

/-- Receive this piece, and behind it the end if asked for. -/
def receive (c : Channel α) (piece : List α) (ends : Bool) : Option (Channel α) :=
  (c.takePiece piece).bind fun c => if ends then c.finish else some c

theorem takePiece_eq_some (h : c.takePiece piece = some c') :
    c'.written = c.written ∧ c'.delivered = c.delivered ++ piece ∧ c'.closed = c.closed := by
  unfold takePiece at h
  split at h
  · next hnil =>
    obtain rfl := Option.some.inj h
    rw [hnil, List.append_nil]
    exact ⟨rfl, rfl, rfl⟩
  · obtain ⟨⟨p, c₁⟩, hdeliver, htaken⟩ := Option.bind_eq_some_iff.mp h
    simp only [Option.ite_none_right_eq_some] at htaken
    obtain ⟨rfl, hc⟩ := htaken
    obtain rfl := Option.some.inj hc
    obtain ⟨hwritten, hdelivered, hclosed, -⟩ := deliver_eq_some hdeliver
    exact ⟨hwritten, hdelivered, hclosed⟩

/-- Receiving changes nothing but what was received. -/
theorem receive_eq_some {ends : Bool} (h : c.receive piece ends = some c') :
    c'.written = c.written ∧ c'.delivered = c.delivered ++ piece ∧ c'.closed = c.closed ∧
      (ends = true → c.closed = true) := by
  obtain ⟨mid, hpiece, hends⟩ := Option.bind_eq_some_iff.mp h
  obtain ⟨hwritten, hdelivered, hclosed⟩ := takePiece_eq_some hpiece
  split at hends
  · obtain ⟨hmid, -, hwritten', hdelivered', hclosed', -⟩ := finish_eq_some hends
    have hbefore : c.closed = true := hclosed.symm.trans hmid
    exact ⟨hwritten'.trans hwritten, hdelivered'.trans hdelivered, hclosed'.trans hbefore.symm,
      fun _ => hbefore⟩
  · next hno =>
    obtain rfl := Option.some.inj hends
    exact ⟨hwritten, hdelivered, hclosed, fun hyes => absurd hyes hno⟩

/-- All that was written can be received at once. -/
theorem receive_written (hdelivered : c.delivered = []) :
    ∃ c', c.receive c.written false = some c' := by
  have hall : c.written = c.inFlight := by rw [c.account, hdelivered, List.nil_append]
  by_cases hnil : c.written = []
  · exact ⟨c, by rw [receive, takePiece, if_pos hnil]; rfl⟩
  · have hpos : 0 < c.written.length ∧ c.written.length ≤ c.inFlight.length :=
      ⟨List.length_pos_iff.mpr hnil, hall ▸ Nat.le_refl _⟩
    have htake : c.inFlight.take c.written.length = c.written := by
      rw [hall, List.take_length]
    rw [receive, takePiece, if_neg hnil, deliver, if_pos hpos]
    simp only [Option.bind_some, if_pos htake]
    exact ⟨_, rfl⟩

end Channel

/-- A channel with what the pending write has still to send. -/
structure Wire (α : Type*) where
  channel : Channel α
  unsent : List α

namespace Wire

variable {α : Type*}

/-- A wire before anything is handed over. -/
def new : Wire α := ⟨.empty, []⟩

/-- Start to write a text. -/
def offer (w : Wire α) (text : List α) : Wire α := { w with unsent := text }

/-- Start to write texts, one after the other. -/
def offerAll (w : Wire α) (texts : List (List α)) : Wire α := texts.foldl offer w

/-- Send some of the text. -/
def send (w : Wire α) (n : Nat) : Option (Wire α) :=
  (w.channel.send (w.unsent.take n)).map fun c => ⟨c, w.unsent.drop n⟩

/-- Complete the write: with success only when everything was sent. -/
def complete (w : Wire α) (success : Bool) : Option (Wire α) :=
  if success = true ∧ w.unsent.length ≠ 0 then none else some { w with unsent := [] }

/-- Close the sending side. -/
def close (w : Wire α) : Wire α := { w with channel := w.channel.close }

/-- Receive this piece, and behind it the end if asked for. -/
def receive [DecidableEq α] (w : Wire α) (piece : List α) (ends : Bool) : Option (Wire α) :=
  (w.channel.receive piece ends).map fun c => { w with channel := c }

/-- At most one text was handed over, and what was sent of it is a first part of it. -/
def Conveys (w : Wire α) (texts : List (List α)) : Prop :=
  texts = [] ∧ w.channel.written = [] ∧ w.unsent = [] ∨
    ∃ text, texts = [text] ∧ w.channel.written ++ w.unsent <+: text

section

variable {w w' : Wire α} {texts : List (List α)}

theorem conveys_new : (new : Wire α).Conveys [] := Or.inl ⟨rfl, rfl, rfl⟩

/-- What has been received is a first part of the text. -/
theorem Conveys.delivered (h : w.Conveys texts) {text : List α} (htext : ∀ t ∈ texts, t = text) :
    w.channel.delivered <+: text := by
  have hwritten : w.channel.delivered <+: w.channel.written :=
    ⟨w.channel.inFlight, w.channel.account.symm⟩
  rcases h with ⟨-, hnil, -⟩ | ⟨t, rfl, hprefix⟩
  · rw [hnil] at hwritten
    rw [List.prefix_nil.mp hwritten]
    exact List.nil_prefix
  · rw [← htext t (List.mem_singleton_self t)]
    exact (hwritten.trans (List.prefix_append ..)).trans hprefix

/-- A first text is handed over, or none. -/
theorem Conveys.offerAll (h : w.Conveys texts) {more : List (List α)}
    (hlen : (texts ++ more).length ≤ 1) : (w.offerAll more).Conveys (texts ++ more) := by
  rcases more with _ | ⟨text, more⟩
  · rw [List.append_nil]
    exact h
  · rw [List.length_append, List.length_cons] at hlen
    have hmore : more = [] := List.length_eq_zero_iff.mp (by omega)
    have htexts : texts = [] := List.length_eq_zero_iff.mp (by omega)
    subst hmore htexts
    rcases h with ⟨-, hnil, -⟩ | ⟨t, ht, -⟩
    · refine Or.inr ⟨text, rfl, ?_⟩
      change w.channel.written ++ text <+: text
      rw [hnil]
      exact List.prefix_rfl
    · cases ht

/-- Sending moves a part of the text into the channel, and delivers nothing. -/
theorem send_eq_some {n : Nat} (h : w.send n = some w') :
    w'.channel.written ++ w'.unsent = w.channel.written ++ w.unsent ∧
      w'.channel.delivered = w.channel.delivered ∧ (w.unsent = [] → w'.unsent = []) := by
  obtain ⟨c, hc, rfl⟩ := Option.map_eq_some_iff.mp h
  obtain ⟨hwritten, hdelivered, -⟩ := Channel.send_eq_some hc
  refine ⟨?_, hdelivered, fun hnil => ?_⟩
  · rw [hwritten, List.append_assoc, List.take_append_drop]
  · rw [hnil, List.drop_nil]

/-- Completing a write leaves the channel as it is; with success nothing was left to send. -/
theorem complete_eq_some {success : Bool} (h : w.complete success = some w') :
    w'.channel = w.channel ∧ w'.unsent = [] ∧ (success = true → w.unsent = []) := by
  simp only [complete, Option.ite_none_left_eq_some, not_and, ne_eq, not_not] at h
  obtain ⟨hsent, hw⟩ := h
  obtain rfl := Option.some.inj hw
  exact ⟨rfl, rfl, fun hs => List.length_eq_zero_iff.mp (hsent hs)⟩

@[simp] theorem channel_offerAll (w : Wire α) (more : List (List α)) :
    (w.offerAll more).channel = w.channel := by
  induction more generalizing w with
  | nil => rfl
  | cons text more ih => exact (ih (w.offer text)).trans rfl

theorem Conveys.send (h : w.Conveys texts) {n : Nat} (hs : w.send n = some w') :
    w'.Conveys texts := by
  obtain ⟨hsame, -⟩ := send_eq_some hs
  rcases h with ⟨htexts, hnil, hunsent⟩ | ⟨text, htexts, hprefix⟩
  · rw [hnil, hunsent, List.append_nil] at hsame
    obtain ⟨hwritten', hunsent'⟩ := List.append_eq_nil_iff.mp hsame
    exact Or.inl ⟨htexts, hwritten', hunsent'⟩
  · exact Or.inr ⟨text, htexts, hsame ▸ hprefix⟩

theorem Conveys.complete (h : w.Conveys texts) {success : Bool}
    (hs : w.complete success = some w') : w'.Conveys texts := by
  obtain ⟨hchannel, hunsent, -⟩ := complete_eq_some hs
  rw [Conveys, hchannel, hunsent]
  rcases h with ⟨htexts, hnil, -⟩ | ⟨text, htexts, hprefix⟩
  · exact Or.inl ⟨htexts, hnil, rfl⟩
  · refine Or.inr ⟨text, htexts, ?_⟩
    rw [List.append_nil]
    exact (List.prefix_append ..).trans hprefix

theorem Conveys.close (h : w.Conveys texts) : w.close.Conveys texts := h

/-- Receiving changes nothing but what was received. -/
theorem receive_eq_some [DecidableEq α] {piece : List α} {ends : Bool}
    (h : w.receive piece ends = some w') : w'.channel.written = w.channel.written ∧
      w'.channel.delivered = w.channel.delivered ++ piece ∧ w'.unsent = w.unsent := by
  obtain ⟨c, hc, rfl⟩ := Option.map_eq_some_iff.mp h
  obtain ⟨hwritten, hdelivered, -⟩ := Channel.receive_eq_some hc
  exact ⟨hwritten, hdelivered, rfl⟩

/-- The end is received from a closed channel only. -/
theorem closed_receive [DecidableEq α] {piece : List α} {ends : Bool}
    (h : w.receive piece ends = some w') : w'.channel.closed = w.channel.closed ∧
      (ends = true → w.channel.closed = true) := by
  obtain ⟨c', hc, rfl⟩ := Option.map_eq_some_iff.mp h
  exact (Channel.receive_eq_some hc).2.2

theorem receive_nil [DecidableEq α] (w : Wire α) : w.receive [] false = some w := rfl

/-- All that is left can be sent while the side is open. -/
theorem send_unsent (hopen : w.channel.closed = false) : ∃ w', w.send w.unsent.length = some w' ∧
    w'.unsent = [] ∧ w'.channel.closed = false := by
  obtain ⟨c, hc⟩ := Option.isSome_iff_exists.mp
    (Channel.send_isSome hopen (w.unsent.take w.unsent.length))
  refine ⟨⟨c, w.unsent.drop w.unsent.length⟩, by rw [send, hc]; rfl, List.drop_length, ?_⟩
  exact (Channel.send_eq_some hc).2.2.1

theorem Conveys.receive [DecidableEq α] (h : w.Conveys texts) {piece : List α} {ends : Bool}
    (hs : w.receive piece ends = some w') : w'.Conveys texts := by
  obtain ⟨hwritten, -, hunsent⟩ := receive_eq_some hs
  rw [Conveys, hwritten, hunsent]
  exact h

end

end Wire

end BoostAsio

import BoostAsio.Io.Buffer

/-!
# Writing a buffer piece by piece

`WriteToSocket` writes in a loop, `WriteToSocketAsync` in a chain of callbacks. Both are in
lockstep with the transfer of the whole buffer that `asio::write` and `asio::async_write` make:
whatever the single writes report, the stream gets the same bytes, and the same writes are
started.
-/

namespace BoostAsio.BufferWrite

open BoostAsio.System BoostAsio.Transfer

/-- A program that writes piece by piece: its start, what the end of the write under way makes
it do, and what can be seen of it. The events are the ranges handed to the writes. -/
structure Writer (σ : Type) where
  start : σ × List Range
  step : σ → Report Failure → Option (σ × List Range)
  sent : σ → Bytes
  phase : σ → Phase Failure

/-- The program gets to a state by these reports, having started writes with these ranges. -/
def Writer.Runs {σ : Type} (w : Writer σ) (reports : List (Report Failure)) (s : σ)
    (ranges : List Range) : Prop :=
  ∃ tr, exec w.step w.start.1 reports = some (s, tr) ∧ ranges = w.start.2 ++ tr

/-! ### The loop -/

/-- Where `WriteToSocket` is: in a `write_some`, or left by the end of the loop or by an
exception. -/
inductive Position
  | writing (r : Range)
  | returned
  | threw (e : Failure)

/-- The state of `WriteToSocket`, with the bytes that its socket has put on the stream. -/
structure Loop where
  bufOffset : UInt64
  sent : Bytes
  position : Position

/-- The test of the loop, and the next `write_some`. -/
def whileTest (buf : Text) (bufOffset : UInt64) (sent : Bytes) : Loop × List Range :=
  if bufOffset ≠ buf.length then
    let r := Range.rest buf.length bufOffset
    (⟨bufOffset, sent, .writing r⟩, [r])
  else (⟨bufOffset, sent, .returned⟩, [])

/-- The `write_some` under way returns or throws. -/
def loopStep (buf : Text) (s : Loop) (report : Report Failure) : Option (Loop × List Range) :=
  match s.position with
  | .writing r =>
    if report.Fits r.size.toNat then
      match report with
      | .moved n => some (whileTest buf (s.bufOffset + n.toUInt64) (s.sent ++ buf.piece r n))
      | .failed e => some ({ s with position := .threw e }, [])
    else none
  | _ => none

def Loop.phase (s : Loop) : Phase Failure :=
  match s.position with
  | .writing _ => .busy
  | .returned => .finished
  | .threw e => .stopped e

/-- `WriteToSocket`. -/
def writeToSocket (buf : Text) : Writer Loop where
  start := whileTest buf 0 []
  step := loopStep buf
  sent := Loop.sent
  phase := Loop.phase

/-! ### The chain of callbacks -/

/-- The socket of a session, with the write that was started on it. -/
structure Socket where
  sent : Bytes
  pending : Option Range

/-- `Session`, with the code that a callback has printed. -/
structure Session where
  sock : Socket
  buf : Text
  totalBytesWritten : UInt64
  printed : Option Failure

/-- `async_write_some`. -/
def Session.asyncWriteSome (r : Range) (s : Session) : Session × List Range :=
  ({ s with sock := { s.sock with pending := some r } }, [r])

/-- `callback`. -/
def callback (ec : ErrorCode) (bytesTransferred : UInt64) (s : Session) : Session × List Range :=
  if h : ec.failed = true then ({ s with printed := some ⟨ec, h⟩ }, [])
  else
    let s := { s with totalBytesWritten := s.totalBytesWritten + bytesTransferred }
    if s.totalBytesWritten = s.buf.length then (s, [])
    else s.asyncWriteSome (Range.rest s.buf.length s.totalBytesWritten)

/-- The write under way ends, and the I/O service calls the callback. -/
def chainStep (s : Session) (report : Report Failure) : Option (Session × List Range) :=
  match s.sock.pending with
  | some r =>
    if report.Fits r.size.toNat then
      match report with
      | .moved n =>
        some (callback .success n.toUInt64
          { s with sock := ⟨s.sock.sent ++ s.buf.piece r n, none⟩ })
      | .failed e => some (callback e 0 { s with sock := ⟨s.sock.sent, none⟩ })
    else none
  | none => none

def Session.phase (s : Session) : Phase Failure :=
  match s.sock.pending, s.printed with
  | some _, _ => .busy
  | none, none => .finished
  | none, some e => .stopped e

/-- `WriteToSocketAsync`. -/
def writeToSocketAsync (buf : Text) : Writer Session where
  start := Session.asyncWriteSome ⟨0, buf.length⟩ ⟨⟨[], none⟩, buf, 0, none⟩
  step := chainStep
  sent s := s.sock.sent
  phase := Session.phase

/-! ### The full write -/

/-- `WriteToSocketEnhanced`: `asio::write` of the buffer, which writes nothing when there is
nothing to write. -/
def writeToSocketEnhanced (buf : Text) : State Failure × List Offer :=
  proceed buf.bytes.length 0

/-- `asio::async_write` of the buffer, which makes at least one write. -/
def writeToSocketAsyncEnhanced (buf : Text) : State Failure × List Offer :=
  (⟨0, .busy⟩, [⟨0, buf.bytes.length⟩])

/-- What a run owes that is as good as a full write of the buffer. -/
structure FullWrite {σ : Type} (w : Writer σ) (buf : Text) (full : State Failure × List Offer)
    (reports : List (Report Failure)) (s : σ) (ranges : List Range) : Prop where
  /-- No range leaves the buffer, and none is empty unless the buffer is. -/
  within : ∀ r ∈ ranges, r.start.toNat + r.size.toNat ≤ buf.bytes.length
  nonempty : ∀ r ∈ ranges, r.size = 0 → buf.bytes = []
  /-- The program goes on as long as a write is under way, whatever that reports, and does not
  start another one before. It starts no more writes than the buffer has bytes, or a single
  one. -/
  goes_on : w.phase s = .busy → ∃ r, ranges.getLast? = some r ∧
    ∀ report : Report Failure, report.Fits r.size.toNat → (w.step s report).isSome = true
  ends : w.phase s ≠ .busy → ∀ report, w.step s report = none
  in_turn : w.phase s = .busy → ranges.length = reports.length + 1
  ended : w.phase s ≠ .busy → ranges.length = reports.length
  bounded : ranges.length ≤ max 1 buf.bytes.length
  /-- The stream has the bytes that were counted, all of them in the end. -/
  counted : w.sent s = buf.bytes.take (movedBy reports) ∧ movedBy reports ≤ buf.bytes.length
  complete : w.phase s = .finished → w.sent s = buf.bytes
  /-- A failure is the last thing that happens. -/
  failure : ∀ e, w.phase s = .stopped e ↔ reports.getLast? = some (.failed e)
  /-- The full write does the same with the same reports. -/
  same : ∃ t, Transfer.Runs buf.bytes.length full reports t (ranges.map Range.toOffer) ∧
    w.sent s = buf.bytes.take t.moved ∧ w.phase s = t.phase

/-- Every run is as good as a full write. -/
def Writer.IsFullWrite {σ : Type} (w : Writer σ) (buf : Text)
    (full : State Failure × List Offer) : Prop :=
  ∀ reports s ranges, w.Runs reports s ranges → FullWrite w buf full reports s ranges

section

variable {σ : Type} {w : Writer σ} {buf : Text} {full : State Failure × List Offer}
  {R : σ → State Failure → Prop}

/-- A program in lockstep with the transfer of the buffer is as good as a full write. -/
theorem isFullWrite_of_lockstep
    (hlock : Lockstep w.step (Transfer.step buf.bytes.length) R Range.toOffer)
    (hfull : Start buf.bytes.length full) (hstart : R w.start.1 full.1)
    (hranges : full.2 = w.start.2.map Range.toOffer)
    (hseen : ∀ s t, R s t → w.sent s = buf.bytes.take t.moved ∧ w.phase s = t.phase) :
    w.IsFullWrite buf full := by
  rintro reports s ranges ⟨tr, hrun, rfl⟩
  obtain ⟨t, hrun', hR⟩ := hlock.run hstart hrun
  obtain ⟨hsent, hphase⟩ := hseen s t hR
  have hsame : Transfer.Runs buf.bytes.length full reports t
      ((w.start.2 ++ tr).map Range.toOffer) := ⟨_, hrun', by rw [hranges, List.map_append]⟩
  have hreached := hsame.reached hfull
  constructor
  · intro r hr
    exact hreached.range_within hr
  · intro r hr hsize
    exact List.length_eq_zero_iff.mp (hreached.total_eq_zero hr hsize)
  · intro hbusy
    rw [hphase] at hbusy
    obtain ⟨r, hr, hsize⟩ := hreached.range_last hbusy
    refine ⟨r, hr, fun report hfits => ?_⟩
    rw [hsize] at hfits
    rw [hlock.isSome_eq hR]
    exact Transfer.step_busy hbusy hfits
  · intro hended report
    rw [hphase] at hended
    exact hlock.eq_none hR (Transfer.step_ended hended)
  · intro hbusy
    exact hreached.ranges_busy (hphase ▸ hbusy)
  · intro hended
    exact hreached.ranges_ended (hphase ▸ hended)
  · exact hreached.ranges_bound
  · rw [hsent, hreached.moved_eq]
    exact ⟨rfl, hreached.moved_eq ▸ hreached.moved_le⟩
  · intro hfinished
    rw [hphase] at hfinished
    rw [hsent, hreached.finished_eq hfinished, List.take_length]
  · intro e
    rw [hphase]
    exact hreached.stopped_iff e
  · exact ⟨t, hsame, hsent, hphase⟩

end

/-- An offset into the buffer counts the bytes on the stream. -/
structure Counts (buf : Text) (offset : UInt64) (sent : Bytes) (moved : Nat) : Prop where
  offset_eq : offset.toNat = moved
  moved_le : moved ≤ buf.bytes.length
  sent_eq : sent = buf.bytes.take moved

namespace Counts

variable {buf : Text} {offset : UInt64} {sent : Bytes} {moved n : Nat}

theorem zero (buf : Text) : Counts buf 0 [] 0 := ⟨rfl, Nat.zero_le _, rfl⟩

theorem toOffset (h : Counts buf offset sent moved) :
    Offset buf.length offset buf.bytes.length moved :=
  ⟨buf.length_toNat, h.offset_eq, h.moved_le⟩

/-- A write that fits keeps the offset right. -/
theorem advance (h : Counts buf offset sent moved) (hn : n ≤ buf.bytes.length - moved) :
    Counts buf (offset + n.toUInt64) (sent ++ buf.piece (Range.rest buf.length offset) n)
      (moved + n) where
  offset_eq := (h.toOffset.advance hn).offset_eq
  moved_le := (h.toOffset.advance hn).moved_le
  sent_eq := by
    rw [h.sent_eq, Text.piece, Range.rest, h.offset_eq, List.take_add]

end Counts

/-- The loop and the full write. -/
structure Loop.Matches (buf : Text) (s : Loop) (t : State Failure) : Prop where
  counts : Counts buf s.bufOffset s.sent t.moved
  phase : s.phase = t.phase
  range : ∀ r, s.position = .writing r → r = Range.rest buf.length s.bufOffset

/-- The chain of callbacks and the full write. -/
structure Session.Matches (buf : Text) (s : Session) (t : State Failure) : Prop where
  text : s.buf = buf
  counts : Counts buf s.totalBytesWritten s.sock.sent t.moved
  phase : s.phase = t.phase
  range : ∀ r, s.sock.pending = some r →
    r = Range.rest buf.length s.totalBytesWritten ∧ s.printed = none

section

variable {buf : Text} {moved : Nat}

/-- The test of the loop is the test of the full write. -/
theorem whileTest_matches {offset : UInt64} {sent : Bytes} (h : Counts buf offset sent moved) :
    Loop.Matches buf (whileTest buf offset sent).1 (proceed buf.bytes.length moved).1 ∧
      (proceed buf.bytes.length moved : State Failure × List Offer).2 =
        (whileTest buf offset sent).2.map Range.toOffer := by
  unfold whileTest proceed
  by_cases hall : moved = buf.bytes.length
  · have hoffset := h.toOffset.eq_length_iff.mpr hall
    rw [if_neg (not_not_intro hoffset), if_pos hall]
    exact ⟨⟨h, rfl, nofun⟩, rfl⟩
  · have hoffset := mt h.toOffset.eq_length_iff.mp hall
    rw [if_pos hoffset, if_neg hall]
    refine ⟨⟨h, rfl, fun r hr => ?_⟩, ?_⟩
    · cases hr
      rfl
    · rw [List.map_singleton, h.toOffset.toOffer_rest]

theorem Loop.phase_writing {s : Loop} {r : Range} (h : s.position = .writing r) :
    s.phase = .busy := by
  rw [Loop.phase, h]

theorem Loop.phase_ended {s : Loop} (h : ∀ r, s.position ≠ .writing r) : s.phase ≠ .busy := by
  unfold Loop.phase
  split
  · next r hwriting => exact absurd hwriting (h r)
  · nofun
  · nofun

/-- One `write_some` of the loop. -/
theorem loop_lockstep (buf : Text) :
    Lockstep (loopStep buf) (Transfer.step buf.bytes.length) (Loop.Matches buf)
      Range.toOffer := by
  intro s t report h
  unfold loopStep
  split
  · next r hposition =>
    have hbusy : t.phase = .busy := h.phase ▸ Loop.phase_writing hposition
    have hsize : r.size.toNat = buf.bytes.length - t.moved := by
      rw [h.range r hposition, h.counts.toOffset.size_rest]
    rw [hsize]
    by_cases hfits : report.Fits (buf.bytes.length - t.moved)
    · rw [if_pos hfits]
      cases report with
      | moved n =>
        have hcounts := h.counts.advance hfits.1
        rw [← h.range r hposition] at hcounts
        rw [Transfer.step_moved hbusy hfits]
        exact Option.Rel.some (whileTest_matches hcounts)
      | failed e =>
        rw [Transfer.step_failed hbusy]
        exact Option.Rel.some ⟨⟨h.counts, rfl, nofun⟩, rfl⟩
    · rw [if_neg hfits, Transfer.step_unfit hfits]
      exact Option.Rel.none
  · next hposition =>
    have hended : t.phase ≠ .busy := h.phase ▸ Loop.phase_ended hposition
    rw [Transfer.step_ended hended]
    exact Option.Rel.none

/-- The test of the callback is the test of the full write. -/
theorem callback_matches {n : Nat} {s : Session} (htext : s.buf = buf)
    (h : Counts buf (s.totalBytesWritten + n.toUInt64) s.sock.sent moved)
    (hidle : s.sock.pending = none) (hprinted : s.printed = none) :
    Session.Matches buf (callback .success n.toUInt64 s).1 (proceed buf.bytes.length moved).1 ∧
      (proceed buf.bytes.length moved : State Failure × List Offer).2 =
        (callback .success n.toUInt64 s).2.map Range.toOffer := by
  subst htext
  have hsuccess : ErrorCode.success.failed ≠ true := by decide
  unfold callback proceed
  rw [dif_neg hsuccess]
  by_cases hall : moved = s.buf.bytes.length
  · have htotal := h.toOffset.eq_length_iff.mpr hall
    simp only [if_pos htotal, if_pos hall]
    refine ⟨⟨rfl, h, ?_, ?_⟩, rfl⟩
    · simp only [Session.phase, hidle, hprinted]
    · intro r hr
      rw [hidle] at hr
      cases hr
  · have htotal := mt h.toOffset.eq_length_iff.mp hall
    simp only [if_neg htotal, if_neg hall]
    refine ⟨⟨rfl, h, rfl, fun r hr => ?_⟩, ?_⟩
    · cases hr
      exact ⟨rfl, hprinted⟩
    · simp only [Session.asyncWriteSome, List.map_singleton, h.toOffset.toOffer_rest]

theorem Session.phase_pending {s : Session} {r : Range} (h : s.sock.pending = some r) :
    s.phase = .busy := by
  rw [Session.phase, h]

theorem Session.phase_ended {s : Session} (h : s.sock.pending = none) : s.phase ≠ .busy := by
  rw [Session.phase, h]
  cases s.printed <;> nofun

/-- One callback of the chain. -/
theorem chain_lockstep (buf : Text) :
    Lockstep chainStep (Transfer.step buf.bytes.length) (Session.Matches buf)
      Range.toOffer := by
  intro s t report h
  unfold chainStep
  split
  · next r hpending =>
    have hbusy : t.phase = .busy := h.phase ▸ Session.phase_pending hpending
    obtain ⟨hrange, hprinted⟩ := h.range r hpending
    have hsize : r.size.toNat = buf.bytes.length - t.moved := by
      rw [hrange, h.counts.toOffset.size_rest]
    rw [hsize]
    by_cases hfits : report.Fits (buf.bytes.length - t.moved)
    · rw [if_pos hfits]
      cases report with
      | moved n =>
        have hcounts := h.counts.advance hfits.1
        have hpiece : s.buf.piece r n = buf.piece r n := by rw [h.text]
        rw [← hrange, ← hpiece] at hcounts
        have hnext := callback_matches
          (s := { s with sock := ⟨s.sock.sent ++ s.buf.piece r n, none⟩ }) h.text hcounts rfl
          hprinted
        rw [Transfer.step_moved hbusy hfits]
        exact Option.Rel.some hnext
      | failed e =>
        rw [Transfer.step_failed hbusy]
        simp only [callback, dif_pos e.2]
        exact Option.Rel.some ⟨⟨h.text, h.counts, rfl, nofun⟩, rfl⟩
    · rw [if_neg hfits, Transfer.step_unfit hfits]
      exact Option.Rel.none
  · next hpending =>
    have hended : t.phase ≠ .busy := h.phase ▸ Session.phase_ended hpending
    rw [Transfer.step_ended hended]
    exact Option.Rel.none

/-- Whatever the single writes report, the loop and the chain of callbacks write the buffer as
`asio::write` and `asio::async_write` do. -/
theorem partialWrites_isFullWrite (buf : Text) :
    (writeToSocket buf).IsFullWrite buf (writeToSocketEnhanced buf) ∧
      (writeToSocketAsync buf).IsFullWrite buf (writeToSocketAsyncEnhanced buf) := by
  constructor
  · obtain ⟨hstart, hranges⟩ := whileTest_matches (Counts.zero buf)
    apply isFullWrite_of_lockstep (loop_lockstep buf) Start.guarded hstart hranges
    intro s t h
    exact ⟨h.counts.sent_eq, h.phase⟩
  · have hwhole : Range.mk 0 buf.length = Range.rest buf.length 0 := by
      rw [Range.rest, UInt64.sub_zero]
    apply isFullWrite_of_lockstep (chain_lockstep buf) Start.eager
    · refine ⟨rfl, Counts.zero buf, rfl, fun r hr => ?_⟩
      cases hr
      exact ⟨hwhole, rfl⟩
    · have hoffer := (Counts.zero buf).toOffset.toOffer_rest
      rw [← hwhole] at hoffer
      simp only [writeToSocketAsync, Session.asyncWriteSome, List.map_singleton, hoffer,
        Nat.sub_zero]
    · intro s t h
      exact ⟨h.counts.sent_eq, h.phase⟩

end

end BoostAsio.BufferWrite

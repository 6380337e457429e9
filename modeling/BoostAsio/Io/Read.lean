import BoostAsio.Io.Buffer

/-!
# Reading a buffer piece by piece

`ReadFromSocket` reads in a loop, and its asynchronous sibling in a chain of callbacks, until
the buffer is full. Both are in lockstep with the transfer that `asio::read` makes of the front
of the incoming stream: the same reads are started, the same bytes are consumed, and a stream
that is too short ends both in the same way.
-/

namespace BoostAsio.BufferRead

open BoostAsio.System BoostAsio.Transfer

/-- `BUF_SIZE`. -/
def bufSize : UInt64 := 32

/-- What `read_some` reports behind the last byte. -/
def endOfStream : Failure := ⟨.eof, by decide⟩

/-- The buffer, with whatever stands in it before the first read. -/
structure Memory where
  bytes : Bytes
  length_eq : bytes.length = bufSize.toNat

/-- Received bytes are stored from an offset on. -/
def store (memory : Bytes) (start : UInt64) (piece : Bytes) : Bytes :=
  memory.take start.toNat ++ (piece ++ memory.drop (start.toNat + piece.length))

/-- A program that reads piece by piece: its start, what the end of the read under way makes it
do, and what can be seen of it. The events are the ranges handed to the reads. -/
structure Reader (σ : Type) where
  start : σ × List Range
  step : σ → Report Failure → Option (σ × List Range)
  held : σ → Bytes
  unread : σ → Bytes
  phase : σ → Phase Failure

/-- The program gets to a state by these reports, having started reads with these ranges. -/
def Reader.Runs {σ : Type} (rd : Reader σ) (reports : List (Report Failure)) (s : σ)
    (ranges : List Range) : Prop :=
  ∃ tr, exec rd.step rd.start.1 reports = some (s, tr) ∧ ranges = rd.start.2 ++ tr

/-! ### The loop -/

/-- Where `ReadFromSocket` is: in a `read_some`, or left by its return or by an exception. -/
inductive Position
  | reading (r : Range)
  | returned (result : Bytes)
  | threw (e : Failure)

/-- The state of `ReadFromSocket`, with the bytes that its socket has not consumed yet. -/
structure Loop where
  offset : UInt64
  buf : Bytes
  unread : Bytes
  position : Position

/-- The test of the loop, and the next `read_some` or the return. -/
def whileTest (offset : UInt64) (buf unread : Bytes) : Loop × List Range :=
  if offset ≠ bufSize then
    let r := Range.rest bufSize offset
    (⟨offset, buf, unread, .reading r⟩, [r])
  else (⟨offset, buf, unread, .returned (buf.take bufSize.toNat)⟩, [])

/-- The `read_some` under way returns or throws. -/
def loopStep (s : Loop) (report : Report Failure) : Option (Loop × List Range) :=
  match s.position with
  | .reading r =>
    if report.Fits r.size.toNat ∧ report.From endOfStream s.unread.length then
      match report with
      | .moved n =>
        some (whileTest (s.offset + n.toUInt64) (store s.buf r.start (s.unread.take n))
          (s.unread.drop n))
      | .failed e => some ({ s with position := .threw e }, [])
    else none
  | _ => none

/-- The string that was returned, or else what stands in the buffer. -/
def Loop.held (s : Loop) : Bytes :=
  match s.position with
  | .returned result => result
  | _ => s.buf

def Loop.phase (s : Loop) : Phase Failure :=
  match s.position with
  | .reading _ => .busy
  | .returned _ => .finished
  | .threw e => .stopped e

/-- `ReadFromSocket` of the synchronous example. -/
def readFromSocket (memory : Memory) (stream : Bytes) : Reader Loop where
  start := whileTest 0 memory.bytes stream
  step := loopStep
  held := Loop.held
  unread := Loop.unread
  phase := Loop.phase

/-! ### The chain of callbacks -/

/-- The socket of a session, with the read that was started on it. -/
structure Socket where
  unread : Bytes
  pending : Option Range

/-- `Session`, with the code that a callback has printed. -/
structure Session where
  sock : Socket
  buf : Bytes
  totalBytesRead : UInt64
  bufSize : UInt64
  printed : Option Failure

/-- `async_read_some`. -/
def Session.asyncReadSome (r : Range) (s : Session) : Session × List Range :=
  ({ s with sock := { s.sock with pending := some r } }, [r])

/-- `callback`. -/
def callback (ec : ErrorCode) (bytesTransferred : UInt64) (s : Session) : Session × List Range :=
  if h : ec.failed = true then ({ s with printed := some ⟨ec, h⟩ }, [])
  else
    let s := { s with totalBytesRead := s.totalBytesRead + bytesTransferred }
    if s.totalBytesRead = s.bufSize then (s, [])
    else s.asyncReadSome (Range.rest s.bufSize s.totalBytesRead)

/-- The read under way ends, and the I/O service calls the callback. -/
def chainStep (s : Session) (report : Report Failure) : Option (Session × List Range) :=
  match s.sock.pending with
  | some r =>
    if report.Fits r.size.toNat ∧ report.From endOfStream s.sock.unread.length then
      match report with
      | .moved n =>
        some (callback .success n.toUInt64
          { s with
            sock := ⟨s.sock.unread.drop n, none⟩
            buf := store s.buf r.start (s.sock.unread.take n) })
      | .failed e => some (callback e 0 { s with sock := ⟨s.sock.unread, none⟩ })
    else none
  | none => none

def Session.phase (s : Session) : Phase Failure :=
  match s.sock.pending, s.printed with
  | some _, _ => .busy
  | none, none => .finished
  | none, some e => .stopped e

/-- `ReadFromSocket` of the asynchronous example. -/
def readFromSocketAsync (memory : Memory) (stream : Bytes) : Reader Session where
  start := Session.asyncReadSome (Range.rest bufSize 0)
    ⟨⟨stream, none⟩, memory.bytes, 0, bufSize, none⟩
  step := chainStep
  held := Session.buf
  unread s := s.sock.unread
  phase := Session.phase

/-! ### The full read -/

/-- `ReadFromSocketEnhanced`: `asio::read` of as many bytes as the buffer has. -/
def readFromSocketEnhanced : State Failure × List Offer := proceed bufSize.toNat 0

/-- What a run owes that is as good as a full read of the buffer. -/
structure FullRead {σ : Type} (rd : Reader σ) (stream : Bytes) (reports : List (Report Failure))
    (s : σ) (ranges : List Range) : Prop where
  /-- No range leaves the buffer, and none is empty. -/
  within : ∀ r ∈ ranges, r.start.toNat + r.size.toNat ≤ bufSize.toNat
  nonempty : ∀ r ∈ ranges, r.size ≠ 0
  /-- The program goes on as long as a read is under way, whatever the stream makes it report,
  and does not start another one before. It starts no more reads than the buffer has bytes. -/
  goes_on : rd.phase s = .busy → ∃ r, ranges.getLast? = some r ∧ ∀ report : Report Failure,
    report.Fits r.size.toNat → report.From endOfStream (rd.unread s).length →
      (rd.step s report).isSome = true
  possible : rd.phase s = .busy → ∃ report, (rd.step s report).isSome = true
  ends : rd.phase s ≠ .busy → ∀ report, rd.step s report = none
  in_turn : rd.phase s = .busy → ranges.length = reports.length + 1
  ended : rd.phase s ≠ .busy → ranges.length = reports.length
  bounded : ranges.length ≤ bufSize.toNat
  /-- The bytes that were counted are consumed and stand in the buffer. -/
  consumed : rd.unread s = stream.drop (movedBy reports) ∧
    (rd.held s).take (movedBy reports) = stream.take (movedBy reports) ∧
    movedBy reports ≤ min bufSize.toNat stream.length
  /-- In the end the buffer is full, or else the stream was too short for it. -/
  complete : rd.phase s = .finished → rd.held s = stream.take bufSize.toNat ∧
    rd.unread s = stream.drop bufSize.toNat ∧ bufSize.toNat ≤ stream.length
  failure : ∀ e, rd.phase s = .stopped e →
    e = endOfStream ∧ rd.unread s = [] ∧ stream.length < bufSize.toNat
  /-- A failure is the last thing that happens. -/
  last : ∀ e, rd.phase s = .stopped e ↔ reports.getLast? = some (.failed e)
  /-- The full read does the same with the same reports. -/
  same : ∃ t tr, exec (draw endOfStream bufSize.toNat stream.length) readFromSocketEnhanced.1
      reports = some (t, tr) ∧
    ranges.map Range.toOffer = readFromSocketEnhanced.2 ++ tr ∧
    rd.unread s = stream.drop t.moved ∧ (rd.held s).take t.moved = stream.take t.moved ∧
    rd.phase s = t.phase

/-- Every run is as good as a full read. -/
def Reader.IsFullRead {σ : Type} (rd : Reader σ) (stream : Bytes) : Prop :=
  ∀ reports s ranges, rd.Runs reports s ranges → FullRead rd stream reports s ranges

/-! ### The buffer holds what was consumed -/

section

variable {memory piece : Bytes} {start : UInt64} {k : Nat}

theorem length_store (hstart : start.toNat = k) (hfits : k + piece.length ≤ memory.length) :
    (store memory start piece).length = memory.length := by
  simp only [store, hstart, List.length_append, List.length_take, List.length_drop]
  omega

/-- Storing keeps what stands in front. -/
theorem take_store (hstart : start.toNat = k) (hfits : k + piece.length ≤ memory.length) :
    (store memory start piece).take (k + piece.length) = memory.take k ++ piece := by
  have hlength : (memory.take k ++ piece).length = k + piece.length := by
    rw [List.length_append, List.length_take]
    omega
  rw [store, hstart, ← List.append_assoc, ← hlength, List.take_left]

end

/-- An offset into the buffer counts the bytes that were consumed and stored. -/
structure Fills (stream : Bytes) (offset : UInt64) (buf unread : Bytes) (moved : Nat) : Prop
    extends Offset bufSize offset bufSize.toNat moved where
  length_buf : buf.length = bufSize.toNat
  buf_eq : buf.take moved = stream.take moved
  unread_eq : unread = stream.drop moved

namespace Fills

variable {stream buf unread : Bytes} {offset : UInt64} {moved n : Nat}

theorem zero (memory : Memory) (stream : Bytes) : Fills stream 0 memory.bytes stream 0 :=
  ⟨⟨rfl, rfl, Nat.zero_le _⟩, memory.length_eq, rfl, rfl⟩

/-- What is left of the stream. -/
theorem length_unread (h : Fills stream offset buf unread moved) :
    unread.length = stream.length - moved := by
  rw [h.unread_eq, List.length_drop]

/-- A read that fits keeps the offset right. -/
theorem advance (h : Fills stream offset buf unread moved) (hn : n ≤ bufSize.toNat - moved)
    (hunread : n ≤ unread.length) :
    Fills stream (offset + n.toUInt64)
      (store buf (Range.rest bufSize offset).start (unread.take n)) (unread.drop n)
      (moved + n) := by
  have hstart : (Range.rest bufSize offset).start.toNat = moved := h.offset_eq
  have hpiece : (unread.take n).length = n := List.length_take_of_le hunread
  have hoffset := h.toOffset.advance hn
  have hfits : moved + (unread.take n).length ≤ buf.length := by
    rw [hpiece, h.length_buf]
    exact hoffset.moved_le
  constructor
  · exact hoffset
  · rw [length_store hstart hfits, h.length_buf]
  · have htake := take_store hstart hfits
    rw [hpiece] at htake
    rw [htake, h.buf_eq, h.unread_eq, List.take_add]
  · rw [h.unread_eq, List.drop_drop]

end Fills

/-- The loop and the full read. -/
structure Loop.Matches (stream : Bytes) (s : Loop) (t : State Failure) : Prop where
  fills : Fills stream s.offset s.buf s.unread t.moved
  phase : s.phase = t.phase
  range : ∀ r, s.position = .reading r → r = Range.rest bufSize s.offset
  result : ∀ result, s.position = .returned result → result = s.buf

/-- The loop returns what stands in the buffer. -/
theorem Loop.Matches.held_eq {stream : Bytes} {s : Loop} {t : State Failure}
    (h : Loop.Matches stream s t) : s.held = s.buf := by
  unfold Loop.held
  split
  · next result hresult => exact h.result result hresult
  · rfl

/-- The chain of callbacks and the full read. -/
structure Session.Matches (stream : Bytes) (s : Session) (t : State Failure) : Prop where
  size : s.bufSize = BufferRead.bufSize
  fills : Fills stream s.totalBytesRead s.buf s.sock.unread t.moved
  phase : s.phase = t.phase
  range : ∀ r, s.sock.pending = some r →
    r = Range.rest BufferRead.bufSize s.totalBytesRead ∧ s.printed = none

section

variable {stream : Bytes} {moved : Nat}

/-- The test of the loop is the test of the full read. -/
theorem whileTest_matches {offset : UInt64} {buf unread : Bytes}
    (h : Fills stream offset buf unread moved) :
    Loop.Matches stream (whileTest offset buf unread).1 (proceed bufSize.toNat moved).1 ∧
      (proceed bufSize.toNat moved : State Failure × List Offer).2 =
        (whileTest offset buf unread).2.map Range.toOffer := by
  unfold whileTest proceed
  by_cases hall : moved = bufSize.toNat
  · have hoffset := h.eq_length_iff.mpr hall
    rw [if_neg (not_not_intro hoffset), if_pos hall]
    refine ⟨⟨h, rfl, nofun, fun result hresult => ?_⟩, rfl⟩
    obtain rfl := Position.returned.inj hresult
    rw [← h.length_buf, List.take_length]
  · have hoffset := mt h.eq_length_iff.mp hall
    rw [if_pos hoffset, if_neg hall]
    refine ⟨⟨h, rfl, fun r hr => ?_, nofun⟩, ?_⟩
    · cases hr
      rfl
    · rw [List.map_singleton, h.toOffer_rest]

theorem Loop.phase_reading {s : Loop} {r : Range} (h : s.position = .reading r) :
    s.phase = .busy := by
  rw [Loop.phase, h]

theorem Loop.phase_ended {s : Loop} (h : ∀ r, s.position ≠ .reading r) : s.phase ≠ .busy := by
  unfold Loop.phase
  split
  · next r hreading => exact absurd hreading (h r)
  · nofun
  · nofun

end

/-- One `read_some` of the loop. -/
theorem loop_lockstep (stream : Bytes) :
    Lockstep loopStep (draw endOfStream bufSize.toNat stream.length) (Loop.Matches stream)
      Range.toOffer := by
  intro s t report h
  unfold loopStep
  split
  · next r hposition =>
    have hbusy : t.phase = .busy := h.phase ▸ Loop.phase_reading hposition
    have hsize : r.size.toNat = bufSize.toNat - t.moved := by
      rw [h.range r hposition, h.fills.size_rest]
    rw [hsize, h.fills.length_unread]
    split
    · next hfits =>
      obtain ⟨hfits, hfrom⟩ := hfits
      cases report with
      | moved n =>
        have hn : n ≤ s.unread.length := by
          rw [h.fills.length_unread]
          exact hfrom
        have hfills := h.fills.advance hfits.1 hn
        rw [← h.range r hposition] at hfills
        rw [draw_moved hbusy hfits hfrom]
        exact Option.Rel.some (whileTest_matches hfills)
      | failed e =>
        rw [draw_failed hbusy hfrom]
        exact Option.Rel.some ⟨⟨h.fills, rfl, nofun, nofun⟩, rfl⟩
    · next hfits =>
      rw [draw_unfit hfits]
      exact Option.Rel.none
  · next hposition =>
    have hended : t.phase ≠ .busy := h.phase ▸ Loop.phase_ended hposition
    rw [draw_ended hended]
    exact Option.Rel.none

/-- The test of the callback is the test of the full read. -/
theorem callback_matches {stream : Bytes} {moved n : Nat} {s : Session}
    (hsize : s.bufSize = bufSize)
    (h : Fills stream (s.totalBytesRead + n.toUInt64) s.buf s.sock.unread moved)
    (hidle : s.sock.pending = none) (hprinted : s.printed = none) :
    Session.Matches stream (callback .success n.toUInt64 s).1 (proceed bufSize.toNat moved).1 ∧
      (proceed bufSize.toNat moved : State Failure × List Offer).2 =
        (callback .success n.toUInt64 s).2.map Range.toOffer := by
  have hsuccess : ErrorCode.success.failed ≠ true := by decide
  unfold callback proceed
  rw [dif_neg hsuccess]
  by_cases hall : moved = bufSize.toNat
  · have htotal := h.eq_length_iff.mpr hall
    simp only [hsize, if_pos htotal, if_pos hall]
    refine ⟨⟨rfl, h, ?_, ?_⟩, rfl⟩
    · simp only [Session.phase, hidle, hprinted]
    · intro r hr
      rw [hidle] at hr
      cases hr
  · have htotal := mt h.eq_length_iff.mp hall
    simp only [hsize, if_neg htotal, if_neg hall]
    refine ⟨⟨rfl, h, rfl, fun r hr => ?_⟩, ?_⟩
    · cases hr
      exact ⟨rfl, hprinted⟩
    · simp only [Session.asyncReadSome, List.map_singleton, h.toOffer_rest]

theorem Session.phase_pending {s : Session} {r : Range} (h : s.sock.pending = some r) :
    s.phase = .busy := by
  rw [Session.phase, h]

theorem Session.phase_ended {s : Session} (h : s.sock.pending = none) : s.phase ≠ .busy := by
  rw [Session.phase, h]
  cases s.printed <;> nofun

/-- One callback of the chain. -/
theorem chain_lockstep (stream : Bytes) :
    Lockstep chainStep (draw endOfStream bufSize.toNat stream.length) (Session.Matches stream)
      Range.toOffer := by
  intro s t report h
  unfold chainStep
  split
  · next r hpending =>
    have hbusy : t.phase = .busy := h.phase ▸ Session.phase_pending hpending
    obtain ⟨hrange, hprinted⟩ := h.range r hpending
    have hsize : r.size.toNat = bufSize.toNat - t.moved := by
      rw [hrange, h.fills.size_rest]
    rw [hsize, h.fills.length_unread]
    split
    · next hfits =>
      obtain ⟨hfits, hfrom⟩ := hfits
      cases report with
      | moved n =>
        have hn : n ≤ s.sock.unread.length := by
          rw [h.fills.length_unread]
          exact hfrom
        have hfills := h.fills.advance hfits.1 hn
        rw [← hrange] at hfills
        have hnext := callback_matches (s :=
          { s with
            sock := ⟨s.sock.unread.drop n, none⟩
            buf := store s.buf r.start (s.sock.unread.take n) }) h.size hfills rfl hprinted
        rw [draw_moved hbusy hfits hfrom]
        exact Option.Rel.some hnext
      | failed e =>
        rw [draw_failed hbusy hfrom]
        simp only [callback, dif_pos e.2]
        exact Option.Rel.some ⟨⟨h.size, h.fills, rfl, nofun⟩, rfl⟩
    · next hfits =>
      rw [draw_unfit hfits]
      exact Option.Rel.none
  · next hpending =>
    have hended : t.phase ≠ .busy := h.phase ▸ Session.phase_ended hpending
    rw [draw_ended hended]
    exact Option.Rel.none

section

variable {σ : Type} {rd : Reader σ} {stream : Bytes} {R : σ → State Failure → Prop}

/-- What a program shows agrees with the full read. -/
structure Shows (rd : Reader σ) (stream : Bytes) (s : σ) (t : State Failure) : Prop where
  unread : rd.unread s = stream.drop t.moved
  held : (rd.held s).take t.moved = stream.take t.moved
  length_held : (rd.held s).length = bufSize.toNat
  phase : rd.phase s = t.phase

/-- A full buffer holds the front of the stream. -/
theorem Shows.complete {s : σ} {t : State Failure} (h : Shows rd stream s t)
    (hall : t.moved = bufSize.toNat) :
    rd.held s = stream.take bufSize.toNat ∧ rd.unread s = stream.drop bufSize.toNat := by
  have hheld := h.held
  have hunread := h.unread
  rw [hall] at hheld hunread
  rw [← h.length_held, List.take_length, h.length_held] at hheld
  exact ⟨hheld, hunread⟩

/-- A read gives up only at the end of a stream that is too short. -/
theorem Shows.stopped {s : σ} {t : State Failure} (h : Shows rd stream s t)
    (hdrawn : Drawn endOfStream bufSize.toNat stream.length t) {e : Failure}
    (he : t.phase = .stopped e) :
    e = endOfStream ∧ rd.unread s = [] ∧ stream.length < bufSize.toNat := by
  have hpos : bufSize.toNat ≠ 0 := by decide
  obtain ⟨hcode, hmoved, hmore⟩ := hdrawn.stopped e he
  refine ⟨hcode, ?_, ?_⟩
  · rw [h.unread, hmoved, List.drop_length]
  · omega

/-- A program in lockstep with the full read of a stream is as good as it. -/
theorem isFullRead_of_lockstep
    (hlock : Lockstep rd.step (draw endOfStream bufSize.toNat stream.length) R Range.toOffer)
    (hstart : R rd.start.1 readFromSocketEnhanced.1)
    (hranges : readFromSocketEnhanced.2 = rd.start.2.map Range.toOffer)
    (hseen : ∀ s t, R s t → Shows rd stream s t) : rd.IsFullRead stream := by
  rintro reports s ranges ⟨tr, hrun, rfl⟩
  obtain ⟨t, hrun', hR⟩ := hlock.run hstart hrun
  have hshows := hseen s t hR
  have hphase := hshows.phase
  have hdrawn := drawn_of_exec Start.guarded hrun'
  have hreached : Reached bufSize.toNat reports t
      ((rd.start.2 ++ tr).map Range.toOffer) := by
    have hruns := (runs_of_draw hrun').reached Start.guarded
    rwa [hranges, ← List.map_append] at hruns
  have hpos : bufSize.toNat ≠ 0 := by decide
  have hunread : (rd.unread s).length = stream.length - t.moved := by
    rw [hshows.unread, List.length_drop]
  have henabled : t.phase = .busy → ∀ report : Report Failure,
      report.Fits (bufSize.toNat - t.moved) →
        report.From endOfStream (stream.length - t.moved) → (rd.step s report).isSome = true := by
    intro hbusy report hfits hfrom
    rw [hlock.isSome_eq hR]
    exact draw_busy hbusy hfits hfrom
  constructor
  · intro r hr
    exact hreached.range_within hr
  · intro r hr hsize
    exact hpos (hreached.total_eq_zero hr hsize)
  · intro hbusy
    rw [hphase] at hbusy
    obtain ⟨r, hr, hsize⟩ := hreached.range_last hbusy
    refine ⟨r, hr, fun report hfits hfrom => ?_⟩
    rw [hsize] at hfits
    rw [hunread] at hfrom
    exact henabled hbusy report hfits hfrom
  · intro hbusy
    rw [hphase] at hbusy
    have hmore := (hreached.offers_lt (by simp [hbusy])).2
    obtain ⟨report, hfits, hfrom⟩ := exists_report endOfStream
      (show bufSize.toNat - t.moved ≠ 0 by omega) (stream.length - t.moved)
    exact ⟨report, henabled hbusy report hfits hfrom⟩
  · intro hended report
    rw [hphase] at hended
    exact hlock.eq_none hR (draw_ended hended)
  · intro hbusy
    exact hreached.ranges_busy (hphase ▸ hbusy)
  · intro hended
    exact hreached.ranges_ended (hphase ▸ hended)
  · have hbound := hreached.ranges_bound
    omega
  · rw [← hreached.moved_eq]
    exact ⟨hshows.unread, hshows.held, le_min hreached.moved_le hdrawn.moved_le⟩
  · intro hfinished
    rw [hphase] at hfinished
    have hall := hreached.finished_eq hfinished
    obtain ⟨hheld, hunread⟩ := hshows.complete hall
    exact ⟨hheld, hunread, hall ▸ hdrawn.moved_le⟩
  · intro e he
    exact hshows.stopped hdrawn (hphase ▸ he)
  · intro e
    rw [hphase]
    exact hreached.stopped_iff e
  · exact ⟨t, _, hrun', by rw [hranges, List.map_append], hshows.unread, hshows.held, hphase⟩

end

/-- Whatever the stream is and however it arrives, the loop and the chain of callbacks read the
buffer as `asio::read` does. -/
theorem partialReads_isFullRead (memory : Memory) (stream : Bytes) :
    (readFromSocket memory stream).IsFullRead stream ∧
      (readFromSocketAsync memory stream).IsFullRead stream := by
  constructor
  · obtain ⟨hstart, hranges⟩ := whileTest_matches (Fills.zero memory stream)
    apply isFullRead_of_lockstep (loop_lockstep stream)
    · exact hstart
    · exact hranges
    · intro s t h
      have hheld : s.held = s.buf := h.held_eq
      constructor
      · exact h.fills.unread_eq
      · change s.held.take t.moved = _
        rw [hheld, h.fills.buf_eq]
      · change s.held.length = _
        rw [hheld, h.fills.length_buf]
      · exact h.phase
  · apply isFullRead_of_lockstep (chain_lockstep stream)
    · refine ⟨rfl, Fills.zero memory stream, rfl, fun r hr => ?_⟩
      cases hr
      exact ⟨rfl, rfl⟩
    · rfl
    · intro s t h
      exact ⟨h.fills.unread_eq, h.fills.buf_eq, h.fills.length_buf, h.phase⟩

end BoostAsio.BufferRead

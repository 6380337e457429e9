import BoostAsio.Http.Request.RoundTrip
import BoostAsio.Http.Service.HeaderLoop

/-!
# Which keys the header loop stores

The loop looks for the next colon and not for the blank line. Each pair of the block is
consumed by one iteration, and the remainder starts with the blank line. Behind it the loop
stops when no colon follows; otherwise the blank line becomes part of a further key.
-/

namespace BoostAsio.HttpService

open HttpRequest (HeaderPair encodeHeaders lastValue crlf)

namespace HeaderLoop

/-- A complete pair is consumed and stored. -/
theorem next_pair {x : HeaderLoop} (pair : HeaderPair) {dropped : UInt8} {rest : Bytes}
    (hx : x.stream = .ofBuf (pair.name ++ 58 :: (pair.value ++ cr :: dropped :: rest))) :
    x.next = ⟨.ofBuf rest, pair.name, pair.value,
      Function.update x.requestHeaders pair.name (some pair.value)⟩ := by
  have hgood : ∀ b : Bytes, (IStream.ofBuf b).eof = false := fun _ => rfl
  unfold next
  rw [hx, IStream.getline_line pair.no_colon]
  simp only [hgood, Bool.false_eq_true, if_false, IStream.getline_line pair.value_no_cr,
    IStream.get_cons]

/-- Consecutive pairs are consumed by as many iterations. -/
theorem run_pairs (n : Nat) {x : HeaderLoop} (pairs : List HeaderPair) {rest : Bytes}
    (hx : x.stream = .ofBuf (encodeHeaders pairs ++ rest)) :
    ∃ y, run (pairs.length + n) x = run n y ∧ y.stream = .ofBuf rest ∧
      ∀ name, y.requestHeaders name = (lastValue pairs name).or (x.requestHeaders name) := by
  induction pairs generalizing x with
  | nil => exact ⟨x, by rw [List.length_nil, Nat.zero_add], hx, fun _ => rfl⟩
  | cons pair pairs ih =>
    have hcolon : ascii ":" = [58] := rfl
    have hbuf : x.stream = .ofBuf (pair.name ++ 58 :: (pair.value ++
        cr :: lf :: (encodeHeaders pairs ++ rest))) := by
      rw [hx]
      simp [encodeHeaders, crlf, hcolon]
    have hnext := next_pair pair hbuf
    obtain ⟨y, hrun, hstream, hheaders⟩ := ih (x := x.next) (by rw [hnext])
    have heof : x.stream.eof = false := by rw [hx]; rfl
    refine ⟨y, ?_, hstream, fun name => ?_⟩
    · rw [List.length_cons, Nat.add_right_comm, run_next heof, hrun]
    · rw [hheaders, hnext, lastValue, Option.or_assoc]
      by_cases he : pair.name = name
      · simp [he]
      · simp [he, Function.update_of_ne (Ne.symm he)]

/-- Without a further colon the rest of the buffer is skipped. -/
theorem run_rest {x : HeaderLoop} {rest : Bytes} (hx : x.stream = .ofBuf rest)
    (h : 58 ∉ rest) : ∃ y, run 2 x = some y ∧ y.requestHeaders = x.requestHeaders := by
  have heof : x.stream.eof = false := by rw [hx]; rfl
  have hnext : x.next = { x with stream := ⟨[], true, rest.isEmpty⟩, headerName := rest } := by
    unfold next
    rw [hx, IStream.getline_last h]
    rfl
  exact ⟨x.next, by rw [run_next heof, hnext]; rfl, by rw [hnext]⟩

/-- A stored key stays. -/
theorem isSome_next {x : HeaderLoop} {key : Bytes} (h : (x.requestHeaders key).isSome = true) :
    (x.next.requestHeaders key).isSome = true := by
  simp only [next]
  split
  · exact h
  · simp only [Function.update_apply]
    split
    · rfl
    · exact h

theorem isSome_run {n : Nat} {x y : HeaderLoop} {key : Bytes} (hrun : run n x = some y)
    (h : (x.requestHeaders key).isSome = true) : (y.requestHeaders key).isSome = true := by
  induction n generalizing x with
  | zero => cases hrun
  | succ n ih =>
    simp only [run] at hrun
    split at hrun
    · obtain rfl := Option.some.inj hrun
      exact h
    · exact ih hrun (isSome_next h)

/-- The text in front of a colon becomes a key. -/
theorem isSome_next_key {x : HeaderLoop} {name rest : Bytes}
    (hx : x.stream = .ofBuf (name ++ 58 :: rest)) (hname : 58 ∉ name) :
    (x.next.requestHeaders name).isSome = true := by
  unfold next
  rw [hx, IStream.getline_line hname]
  simp [IStream.ofBuf]

end HeaderLoop

/-- A name with a carriage return is not the name of a pair. -/
theorem lastValue_of_cr {name : Bytes} (h : cr ∈ name) (pairs : List HeaderPair) :
    lastValue pairs name = none := by
  induction pairs with
  | nil => rfl
  | cons pair pairs ih =>
    have hne : pair.name ≠ name := by
      rintro rfl
      exact pair.name_no_cr h
    rw [lastValue, ih, if_neg hne]
    rfl

/-- A service that has received a header block, its blank line and further bytes. -/
def receivedHeaders (s : HttpService) (pairs : List HeaderPair) (further : Bytes) :
    HttpService :=
  { s with request := encodeHeaders pairs ++ crlf ++ further, requestHeaders := fun _ => none }

/-- The loop ends, and its map sends each name to its last value and has no other key. -/
def ExactHeaders (s : HttpService) (pairs : List HeaderPair) (further : Bytes) : Prop :=
  ∃ fuel s', readHeaders fuel (s.receivedHeaders pairs further) = some s' ∧
    s'.requestHeaders = lastValue pairs

theorem stream_receivedHeaders (s : HttpService) (pairs : List HeaderPair) (further : Bytes) :
    (HeaderLoop.start (s.receivedHeaders pairs further)).stream =
      .ofBuf (encodeHeaders pairs ++ (crlf ++ further)) := by
  rw [← List.append_assoc]
  rfl

/-- The blank line alone has no colon. -/
theorem colon_mem_crlf_append {b : Bytes} : 58 ∈ crlf ++ b ↔ 58 ∈ b := by
  have hcrlf : 58 ∉ crlf := by decide
  rw [List.mem_append, or_iff_right hcrlf]

/-- A further colon makes a key of the blank line and what stands in front of that colon. -/
theorem not_exactHeaders {s : HttpService} {pairs : List HeaderPair} {further : Bytes}
    (h : 58 ∈ further) : ¬ExactHeaders s pairs further := by
  rintro ⟨fuel, s', hread, hexact⟩
  obtain ⟨x, hrun, rfl⟩ := Option.map_eq_some_iff.mp hread
  obtain ⟨name, rest, rfl, hname⟩ := (not_mem_or_split 58 further).resolve_left (· h)
  obtain ⟨y, hy, hstream, -⟩ := HeaderLoop.run_pairs (fuel + 1) pairs
    (stream_receivedHeaders s pairs _)
  have heof : y.stream.eof = false := by
    rw [hstream]
    rfl
  have hlong := HeaderLoop.run_add hrun (pairs.length + 1)
  rw [Nat.add_left_comm, hy, HeaderLoop.run_next heof] at hlong
  rw [← List.append_assoc] at hstream
  have hkey : (y.next.requestHeaders (crlf ++ name)).isSome = true :=
    HeaderLoop.isSome_next_key hstream (mt colon_mem_crlf_append.mp hname)
  have hstored := HeaderLoop.isSome_run hlong hkey
  -- the blank line is part of the key, so no pair has stored it
  have hnone : lastValue pairs (crlf ++ name) = none := lastValue_of_cr (by simp [crlf]) pairs
  change x.requestHeaders = lastValue pairs at hexact
  rw [hexact, hnone] at hstored
  cases hstored

/-- The map is exact exactly when no colon has arrived behind the blank line. -/
theorem exactHeaders_iff (s : HttpService) (pairs : List HeaderPair) (further : Bytes) :
    ExactHeaders s pairs further ↔ 58 ∉ further := by
  constructor
  · intro hexact hcolon
    exact not_exactHeaders hcolon hexact
  · intro hcolon
    obtain ⟨y, hy, hstream, hheaders⟩ := HeaderLoop.run_pairs 2 pairs
      (stream_receivedHeaders s pairs further)
    obtain ⟨z, hz, hkeep⟩ := HeaderLoop.run_rest hstream (mt colon_mem_crlf_append.mp hcolon)
    refine ⟨_, _, Option.map_eq_some_iff.mpr ⟨z, hy.trans hz, rfl⟩, ?_⟩
    funext name
    change z.requestHeaders name = lastValue pairs name
    rw [hkeep, hheaders]
    exact Option.or_none

/-- The headers of a second request behind the blank line are stored with the first ones. -/
theorem pipelinedHeaders_stored :
    ¬ExactHeaders .new [⟨ascii "a", ascii "b", by decide, by decide, by decide⟩]
      (ascii "GET / HTTP/1.1\r\nHost: h\r\n\r\n") :=
  not_exactHeaders (by decide)

end BoostAsio.HttpService

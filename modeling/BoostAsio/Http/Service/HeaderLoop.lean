import BoostAsio.Http.Service.Handlers

/-!
# The header loop ends

Only `eofbit` stops the loop, while each of the three extractions of an iteration may set
`failbit`. None of them fails ahead of the end of the buffer, and each iteration but the last
takes a colon out of it.
-/

namespace BoostAsio.HttpService.HeaderLoop

/-- A stream that is not at its end is read on. -/
theorem run_next {n : Nat} {x : HeaderLoop} (h : x.stream.eof = false) :
    run (n + 1) x = run n x.next := by
  simp [run, h]

/-- At the end of the stream the loop stops. -/
theorem run_eof (n : Nat) {x : HeaderLoop} (h : x.stream.eof = true) :
    run (n + 1) x = some x := by
  simp [run, h]

/-- More iterations than needed change nothing. -/
theorem run_add {n : Nat} {x y : HeaderLoop} (h : run n x = some y) (k : Nat) :
    run (n + k) x = some y := by
  induction n generalizing x with
  | zero => cases h
  | succ n ih =>
    rw [Nat.add_right_comm]
    cases heof : x.stream.eof with
    | true =>
      rw [run_eof _ heof] at h ⊢
      exact h
    | false =>
      rw [run_next heof] at h ⊢
      exact ih h

/-- The loop ends after exactly so many iterations. -/
inductive Iterations : Nat → HeaderLoop → HeaderLoop → Prop
  | stop {x : HeaderLoop} (heof : x.stream.eof = true) : Iterations 0 x x
  | next {n : Nat} {x y : HeaderLoop} (heof : x.stream.eof = false)
      (h : Iterations n x.next y) : Iterations (n + 1) x y

theorem Iterations.eof {n : Nat} {x y : HeaderLoop} (h : Iterations n x y) :
    y.stream.eof = true := by
  induction h with
  | stop heof => exact heof
  | next _ _ ih => exact ih

theorem Iterations.run {n : Nat} {x y : HeaderLoop} (h : Iterations n x y) :
    HeaderLoop.run (n + 1) x = some y := by
  induction h with
  | stop heof => exact run_eof 0 heof
  | next heof _ ih => rw [run_next heof, ih]

/-- The states of the stream in one iteration, one behind each extraction. -/
def extractions (x : HeaderLoop) : List IStream :=
  let name := x.stream.getline x.headerName 58
  if name.1.eof then [name.1]
  else
    let value := name.1.getline x.headerValue cr
    [name.1, value.1, value.1.get]

/-- The states of the stream in so many iterations. -/
def streams : Nat → HeaderLoop → List IStream
  | 0, x => [x.stream]
  | n + 1, x => x.stream :: (x.extractions ++ streams n x.next)

section

variable {x : HeaderLoop} {b : Bytes}

/-- The iteration leaves the stream in the last of its states. -/
theorem getLast?_extractions (x : HeaderLoop) :
    x.extractions.getLast? = some x.next.stream := by
  unfold extractions next
  dsimp only
  split <;> rfl

theorem extractions_reads (h : x.stream.Reads b) : ∀ t ∈ x.extractions, t.Reads b := by
  have hname := h.getline x.headerName 58
  have hvalue := hname.getline x.headerValue cr
  intro t ht
  unfold extractions at ht
  dsimp only at ht
  split at ht
  · rw [List.mem_singleton.mp ht]
    exact hname
  · rcases List.mem_cons.mp ht with rfl | ht
    · exact hname
    · rcases List.mem_cons.mp ht with rfl | ht
      · exact hvalue
      · rw [List.mem_singleton.mp ht]
        exact hvalue.get

theorem next_reads (h : x.stream.Reads b) : x.next.stream.Reads b :=
  extractions_reads h _ (List.mem_of_getLast? (getLast?_extractions x))

theorem streams_reads (n : Nat) (h : x.stream.Reads b) : ∀ t ∈ streams n x, t.Reads b := by
  induction n generalizing x with
  | zero =>
    intro t ht
    rw [List.mem_singleton.mp ht]
    exact h
  | succ n ih =>
    intro t ht
    rcases List.mem_cons.mp ht with rfl | ht
    · exact h
    · rcases List.mem_append.mp ht with ht | ht
      · exact extractions_reads h t ht
      · exact ih (next_reads h) t ht

/-- An iteration meets the end of the input or consumes a colon. -/
theorem next_stream (hx : x.stream = .ofBuf b) :
    x.next.stream.eof = true ∨
      ∃ name rest, b = name ++ 58 :: rest ∧ x.next.stream.Reads rest := by
  rcases not_mem_or_split 58 b with hno | ⟨name, rest, rfl, hname⟩
  · left
    unfold next
    rw [hx, IStream.getline_last hno]
    rfl
  · refine Or.inr ⟨name, rest, rfl, ?_⟩
    unfold next
    rw [hx, IStream.getline_line hname]
    exact ((IStream.reads_ofBuf rest).getline x.headerValue cr).get

/-- There is at most one iteration more than there are colons. -/
theorem exists_iterations (hx : x.stream.Reads b) :
    ∃ n y, n ≤ b.count 58 + 1 ∧ Iterations n x y := by
  induction hn : b.count 58 using Nat.strong_induction_on generalizing x b with
  | _ n ih =>
    rcases hx with ⟨rest, hrest, hx⟩ | ⟨-, heof⟩
    · have hgood : x.stream.eof = false := by rw [hx]; rfl
      rcases next_stream hx with heof | ⟨name, rest', rfl, hnext⟩
      · exact ⟨1, x.next, Nat.le_add_left 1 n, .next hgood (.stop heof)⟩
      · have hcount : rest'.count 58 < n := by
          have hle := hrest.sublist.count_le (58 : UInt8)
          rw [List.count_append, List.count_cons_self] at hle
          omega
        obtain ⟨k, y, hk, hiterations⟩ := ih _ hcount hnext rfl
        refine ⟨k + 1, y, ?_, .next hgood hiterations⟩
        omega
    · exact ⟨0, x, Nat.zero_le _, .stop heof⟩

theorem iterations_reads {n : Nat} {y : HeaderLoop} (h : Iterations n x y)
    (hx : x.stream.Reads b) : y.stream.Reads b := by
  induction h with
  | stop => exact hx
  | next _ _ ih => exact ih (next_reads hx)

end

end BoostAsio.HttpService.HeaderLoop

namespace BoostAsio.HttpService

/-- The header loop of any buffer ends after at most one iteration more than the buffer has
colons. Nothing of the buffer is left, and the stream has not failed ahead of its end. -/
theorem headerLoop_ends (s : HttpService) :
    ∃ n x, n ≤ s.request.count 58 + 1 ∧ HeaderLoop.Iterations n (.start s) x ∧
      readHeaders (n + 1) s =
        some { s with request := [], requestHeaders := x.requestHeaders } ∧
      ∀ t ∈ HeaderLoop.streams n (.start s), t.fail = true → t.eof = true := by
  have hstart : (HeaderLoop.start s).stream.Reads s.request := IStream.reads_ofBuf s.request
  obtain ⟨n, x, hn, hiterations⟩ := HeaderLoop.exists_iterations hstart
  have hreads := HeaderLoop.iterations_reads hiterations hstart
  refine ⟨n, x, hn, hiterations, ?_, ?_⟩
  · rw [readHeaders, hiterations.run, Option.map_some, hreads.buf_eq_nil hiterations.eof]
  · intro t ht hfail
    exact (HeaderLoop.streams_reads n hstart t ht).eof_of_fail hfail

end BoostAsio.HttpService

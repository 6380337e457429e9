import Mathlib.Data.List.TakeWhile

/-!
# Formatted and unformatted input from a stream buffer

The unread bytes of a buffer are read through a stream with an end-of-file and a
failure bit. An extraction on a stream that is not good leaves its string argument
as it was. Each operation has one equation per way it can end, so later proofs
never look inside it.
-/

namespace BoostAsio

/-- A byte string, as `std::string` and `asio::streambuf` hold it. -/
abbrev Bytes := List UInt8

/-- The bytes of an ASCII literal. -/
def ascii (s : String) : Bytes := s.toList.map fun c => c.toNat.toUInt8

/-- Carriage return. -/
abbrev cr : UInt8 := 13

/-- Line feed. -/
abbrev lf : UInt8 := 10

/-- `std::isspace` of the classic locale. -/
def isSpace (c : UInt8) : Bool := c == 32 || (9 ≤ c && c ≤ 13)

/-- Cutting a list at the first byte that is not taken. -/
theorem takeWhile_append_cons {p : UInt8 → Bool} (xs : Bytes) {c : UInt8} (ys : Bytes)
    (hx : ∀ x ∈ xs, p x = true) (hc : p c = false) :
    (xs ++ c :: ys).takeWhile p = xs := by
  rw [List.takeWhile_append_of_pos hx, List.takeWhile_cons_of_neg (by simp [hc]), List.append_nil]

/-- Dropping the taken part leaves the stopping byte in front. -/
theorem dropWhile_append_cons {p : UInt8 → Bool} (xs : Bytes) {c : UInt8} (ys : Bytes)
    (hx : ∀ x ∈ xs, p x = true) (hc : p c = false) :
    (xs ++ c :: ys).dropWhile p = c :: ys := by
  rw [List.dropWhile_append_of_pos hx, List.dropWhile_cons_of_neg (by simp [hc])]

/-- A list is either taken whole or splits at its first byte that is not taken. -/
theorem all_or_split (p : UInt8 → Bool) (b : Bytes) :
    (∀ x ∈ b, p x = true) ∨
      ∃ xs c ys, b = xs ++ c :: ys ∧ (∀ x ∈ xs, p x = true) ∧ p c = false := by
  induction b with
  | nil => exact Or.inl (by simp)
  | cons a b ih =>
    cases ha : p a with
    | false => exact Or.inr ⟨[], a, b, rfl, by simp, ha⟩
    | true =>
      rcases ih with hall | ⟨xs, c, ys, rfl, hxs, hc⟩
      · exact Or.inl (by simpa [ha] using hall)
      · exact Or.inr ⟨a :: xs, c, ys, rfl, by simpa [ha] using hxs, hc⟩

/-- A list without `d` is taken whole by the test of being different from `d`. -/
theorem ne_of_not_mem {d : UInt8} {xs : Bytes} (h : d ∉ xs) : ∀ x ∈ xs, (x != d) = true := by
  intro x hx
  have hne : x ≠ d := by rintro rfl; exact h hx
  simpa using hne

/-- A buffer either lacks `d` or has a first occurrence of it. -/
theorem not_mem_or_split (d : UInt8) (b : Bytes) :
    d ∉ b ∨ ∃ xs ys, b = xs ++ d :: ys ∧ d ∉ xs := by
  rcases all_or_split (· != d) b with hall | ⟨xs, c, ys, hb, hxs, hc⟩
  · refine Or.inl fun hm => ?_
    simpa using hall d hm
  · have hcd : c = d := by simpa using hc
    subst hcd
    refine Or.inr ⟨xs, ys, hb, fun hm => ?_⟩
    simpa using hxs c hm

/-- `std::istream` over a stream buffer: the unread bytes and the two state bits. -/
structure IStream where
  buf : Bytes
  eof : Bool
  fail : Bool
  deriving DecidableEq, Repr

namespace IStream

/-- A stream constructed on a buffer starts good. -/
def ofBuf (b : Bytes) : IStream := ⟨b, false, false⟩

/-- `std::ios::good`. -/
def good (s : IStream) : Bool := !s.eof && !s.fail

/-- `std::getline(s, str, delim)`: the delimiter is consumed and not stored, reaching
the end sets `eofbit`, and extracting nothing at all sets `failbit`. -/
def getline (s : IStream) (str : Bytes) (delim : UInt8) : IStream × Bytes :=
  if s.good then
    match s.buf.dropWhile (· != delim) with
    | _ :: rest => ({ s with buf := rest }, s.buf.takeWhile (· != delim))
    | [] => (⟨[], true, s.buf.isEmpty⟩, s.buf)
  else ({ s with fail := true }, str)

/-- `s.get()` with its result dropped: one byte is removed or the stream fails. -/
def get (s : IStream) : IStream :=
  if s.good then
    match s.buf with
    | _ :: rest => { s with buf := rest }
    | [] => ⟨[], true, true⟩
  else { s with fail := true }

/-- `s >> str` for a `std::string`: blanks are skipped, then a non-empty run of other
bytes is stored. Skipping to the end fails and leaves the string as it was. -/
def extract (s : IStream) (str : Bytes) : IStream × Bytes :=
  if s.good then
    match s.buf.dropWhile isSpace with
    | [] => (⟨[], true, true⟩, str)
    | c :: b =>
      let rest := (c :: b).dropWhile (!isSpace ·)
      (⟨rest, rest.isEmpty, false⟩, (c :: b).takeWhile (!isSpace ·))
  else ({ s with fail := true }, str)

theorem getline_of_not_good {s : IStream} (h : s.good = false) (str : Bytes) (delim : UInt8) :
    s.getline str delim = ({ s with fail := true }, str) := by
  simp [getline, h]

/-- A line that is ended by the delimiter leaves the stream good. -/
theorem getline_line {line : Bytes} {delim : UInt8} (h : delim ∉ line) (rest str : Bytes) :
    (ofBuf (line ++ delim :: rest)).getline str delim = (ofBuf rest, line) := by
  have hd : (line ++ delim :: rest).dropWhile (· != delim) = delim :: rest :=
    dropWhile_append_cons _ _ (ne_of_not_mem h) (by simp)
  have ht : (line ++ delim :: rest).takeWhile (· != delim) = line :=
    takeWhile_append_cons _ _ (ne_of_not_mem h) (by simp)
  simp [getline, good, ofBuf, hd, ht]

/-- A line that is ended by the end of input is stored and sets `eofbit`. -/
theorem getline_last {b : Bytes} {delim : UInt8} (h : delim ∉ b) (str : Bytes) :
    (ofBuf b).getline str delim = (⟨[], true, b.isEmpty⟩, b) := by
  have hd : b.dropWhile (· != delim) = [] := by
    simpa using ne_of_not_mem h
  simp [getline, good, ofBuf, hd]

/-- The line read from a fresh stream is what stands ahead of the first delimiter. -/
theorem getline_ofBuf_snd (b str : Bytes) (delim : UInt8) :
    ((ofBuf b).getline str delim).2 = b.takeWhile (· != delim) := by
  rcases not_mem_or_split delim b with hno | ⟨line, rest, rfl, hline⟩
  · rw [getline_last hno, List.takeWhile_eq_self_iff.mpr (ne_of_not_mem hno)]
  · rw [getline_line hline, takeWhile_append_cons _ _ (ne_of_not_mem hline) (by simp)]

theorem get_of_not_good {s : IStream} (h : s.good = false) : s.get = { s with fail := true } := by
  simp [get, h]

@[simp] theorem get_cons (c : UInt8) (rest : Bytes) : (ofBuf (c :: rest)).get = ofBuf rest := rfl

@[simp] theorem get_nil : (ofBuf []).get = ⟨[], true, true⟩ := rfl

/-- After a delimited line the dropped byte is the next one, if there is one. -/
theorem buf_get_ofBuf (b : Bytes) : (ofBuf b).get.buf = b.tail := by
  cases b <;> rfl

/-- The stream was opened on these bytes: it is good in front of some last ones, or it is at
their end. -/
def Reads (s : IStream) (b : Bytes) : Prop :=
  (∃ rest, rest <:+ b ∧ s = ofBuf rest) ∨ s.buf = [] ∧ s.eof = true

theorem reads_ofBuf (b : Bytes) : (ofBuf b).Reads b := Or.inl ⟨b, List.suffix_rfl, rfl⟩

section

variable {s : IStream} {b : Bytes}

/-- Nothing fails ahead of the end. -/
theorem Reads.eof_of_fail (h : s.Reads b) (hfail : s.fail = true) : s.eof = true := by
  rcases h with ⟨rest, -, rfl⟩ | ⟨-, heof⟩
  · cases hfail
  · exact heof

/-- At the end there is nothing left. -/
theorem Reads.buf_eq_nil (h : s.Reads b) (heof : s.eof = true) : s.buf = [] := by
  rcases h with ⟨rest, -, rfl⟩ | ⟨hbuf, -⟩
  · cases heof
  · exact hbuf

theorem Reads.getline (h : s.Reads b) (str : Bytes) (delim : UInt8) :
    (s.getline str delim).1.Reads b := by
  rcases h with ⟨rest, hrest, rfl⟩ | ⟨hbuf, heof⟩
  · rcases not_mem_or_split delim rest with hno | ⟨line, tail, rfl, hline⟩
    · rw [getline_last hno]
      exact Or.inr ⟨rfl, rfl⟩
    · rw [getline_line hline]
      have htail : tail <:+ line ++ delim :: tail :=
        (List.suffix_cons delim tail).trans (List.suffix_append line _)
      exact Or.inl ⟨tail, htail.trans hrest, rfl⟩
  · rw [getline_of_not_good (by simp [good, heof])]
    exact Or.inr ⟨hbuf, heof⟩

theorem Reads.get (h : s.Reads b) : s.get.Reads b := by
  rcases h with ⟨rest, hrest, rfl⟩ | ⟨hbuf, heof⟩
  · cases rest with
    | nil => exact Or.inr ⟨rfl, rfl⟩
    | cons c tail => exact Or.inl ⟨tail, (List.suffix_cons c tail).trans hrest, rfl⟩
  · rw [get_of_not_good (by simp [good, heof])]
    exact Or.inr ⟨hbuf, heof⟩

end

end IStream

end BoostAsio

import BoostAsio.Core.Stream.Cuts
import BoostAsio.Core.Stream.Numeral

/-!
# SyncTcpClient: responses over one connection

Every call reads its response into a buffer of its own and drops the buffer with whatever
stands behind the first line feed. What is behind the end of a line in its chunk is lost for
the calls that follow, so these return the lines of the stream with the lost bytes left out.
-/

namespace BoostAsio.SyncTcpClient

/-- The connected `m_sock`: what was sent, and what the server's bytes arrive as until it
closes the connection. -/
structure Connection where
  sent : Bytes
  incoming : List Bytes

/-- The request text of `EmulateLongComputationOp`. -/
def encodeRequest (durationSec : UInt32) : Bytes :=
  ascii "EMULATE_LONG_COMP_OP " ++ decimal durationSec.toNat ++ ascii "\n"

/-- `SendRequest`. -/
def sendRequest (request : Bytes) (c : Connection) : Connection :=
  { c with sent := c.sent ++ request }

/-- `ReceiveResponse`, with an empty buffer; a failed read throws its code. -/
def receiveResponse (c : Connection) : Except ErrorCode Bytes × Connection :=
  let read := readUntil [lf] [] c.incoming
  let c := { c with incoming := read.2.2 }
  if read.1.value ≠ 0 then (.error read.1, c)
  else (.ok ((IStream.ofBuf read.2.1).getline [] lf).2, c)

/-- `EmulateLongComputationOp`. -/
def emulateLongComputationOp (durationSec : UInt32) (c : Connection) :
    Except ErrorCode Bytes × Connection :=
  receiveResponse (sendRequest (encodeRequest durationSec) c)

/-- Successive calls with these durations, up to the first that throws. -/
def calls : List UInt32 → Connection → Except ErrorCode (List Bytes)
  | [], _ => .ok []
  | durationSec :: durations, c =>
    match emulateLongComputationOp durationSec c with
    | (.error ec, _) => .error ec
    | (.ok response, c) => (calls durations c).map (response :: ·)

/-- What a chunk brings behind its first line feed. -/
def surplus (chunk : Bytes) : Bytes := (chunk.dropWhile (· != lf)).tail

/-- None of the chunks in which the first `j` calls end their lines brings anything behind
the line feed. -/
def LineWise : Nat → List Bytes → Prop
  | 0, _ => True
  | _ + 1, [] => True
  | j + 1, c :: cs => if lf ∈ c then surplus c = [] ∧ LineWise j cs else LineWise (j + 1) cs

/-- The stream without what these chunks bring behind the line feed. -/
def kept : Nat → List Bytes → Bytes
  | 0, cs => cs.flatten
  | _ + 1, [] => []
  | j + 1, c :: cs =>
    if lf ∈ c then c.takeWhile (· != lf) ++ lf :: kept j cs else c ++ kept (j + 1) cs

@[simp] theorem lineWise_zero (cs : List Bytes) : LineWise 0 cs := by
  rw [LineWise]
  trivial

@[simp] theorem kept_zero (cs : List Bytes) : kept 0 cs = cs.flatten := by
  rw [kept]

instance LineWise.decidable : (j : Nat) → (cs : List Bytes) → Decidable (LineWise j cs)
  | 0, cs => .isTrue (lineWise_zero cs)
  | _ + 1, [] => .isTrue trivial
  | j + 1, c :: cs =>
    have := LineWise.decidable j cs
    have := LineWise.decidable (j + 1) cs
    decidable_of_iff (if lf ∈ c then surplus c = [] ∧ LineWise j cs else LineWise (j + 1) cs)
      Iff.rfl

theorem surplus_append_cons {x : Bytes} (h : lf ∉ x) (y : Bytes) : surplus (x ++ lf :: y) = y := by
  rw [surplus, dropWhile_append_cons x y (ne_of_not_mem h) (by simp)]
  rfl

/-- The first chunk with a line feed decides, and the chunks behind it. -/
theorem lineWise_first {before after : List Bytes} {x y : Bytes} (hbefore : lf ∉ before.flatten)
    (hx : lf ∉ x) (j : Nat) :
    LineWise (j + 1) (before ++ (x ++ lf :: y) :: after) ↔ y = [] ∧ LineWise j after := by
  induction before with
  | nil =>
    rw [List.nil_append, LineWise, if_pos (by simp), surplus_append_cons hx]
  | cons c cs ih =>
    rw [List.flatten_cons, List.mem_append, not_or] at hbefore
    rw [List.cons_append, LineWise, if_neg hbefore.1, ih hbefore.2]

/-- Fewer calls end their lines in fewer chunks. -/
theorem LineWise.mono {i j : Nat} {cs : List Bytes} (h : LineWise j cs) (hij : i ≤ j) :
    LineWise i cs := by
  induction cs generalizing i j with
  | nil => cases i <;> rw [LineWise] <;> trivial
  | cons c cs ih =>
    cases i with
    | zero => exact lineWise_zero _
    | succ i =>
      obtain ⟨j, rfl⟩ := Nat.exists_eq_add_of_le' (Nat.zero_lt_of_lt hij)
      rw [LineWise] at h ⊢
      split_ifs at h ⊢ with hmem
      · exact ⟨h.1, ih h.2 (Nat.le_of_succ_le_succ hij)⟩
      · exact ih h hij

/-- Without a line feed nothing is lost. -/
theorem kept_of_not_mem {cs : List Bytes} (h : lf ∉ cs.flatten) (j : Nat) :
    kept j cs = cs.flatten := by
  cases j with
  | zero => exact kept_zero cs
  | succ j =>
    induction cs with
    | nil => rfl
    | cons c cs ih =>
      rw [List.flatten_cons, List.mem_append, not_or] at h
      rw [kept, if_neg h.1, ih h.2, List.flatten_cons]

/-- The first chunk with a line feed is cut behind it. -/
theorem kept_first {before after : List Bytes} {x y : Bytes} (hbefore : lf ∉ before.flatten)
    (hx : lf ∉ x) (j : Nat) :
    kept (j + 1) (before ++ (x ++ lf :: y) :: after) =
      before.flatten ++ x ++ lf :: kept j after := by
  induction before with
  | nil =>
    rw [List.nil_append, kept, if_pos (by simp),
      takeWhile_append_cons x y (ne_of_not_mem hx) (by simp), List.flatten_nil, List.nil_append]
  | cons c cs ih =>
    rw [List.flatten_cons, List.mem_append, not_or] at hbefore
    rw [List.cons_append, kept, if_neg hbefore.1, ih hbefore.2, List.flatten_cons]
    simp only [List.append_assoc]

/-- A list of chunks is cut at its first line feed. -/
theorem exists_first {cs : List Bytes} (h : lf ∈ cs.flatten) :
    ∃ before x y after, cs = before ++ (x ++ lf :: y) :: after ∧ lf ∉ before.flatten ∧
      lf ∉ x := by
  induction cs with
  | nil => simp at h
  | cons c cs ih =>
    rcases not_mem_or_split lf c with hc | ⟨x, y, rfl, hx⟩
    · rw [List.flatten_cons, List.mem_append, or_iff_right hc] at h
      obtain ⟨before, x, y, after, rfl, hbefore, hx⟩ := ih h
      exact ⟨c :: before, x, y, after, rfl, by simp [hc, hbefore], hx⟩
    · exact ⟨[], x, y, cs, rfl, List.not_mem_nil, hx⟩

/-- The read takes all chunks up to the first one with a line feed. -/
theorem readUntil_first {before after : List Bytes} {x y buf : Bytes} (hbuf : lf ∉ buf)
    (hbefore : lf ∉ before.flatten) :
    readUntil [lf] buf (before ++ (x ++ lf :: y) :: after) =
      (.success, buf ++ before.flatten ++ (x ++ lf :: y), after) := by
  induction before generalizing buf with
  | nil =>
    have hfound : [lf] <:+: buf ++ (x ++ lf :: y) := (List.singleton_infix_iff lf _).mpr (by simp)
    rw [List.nil_append, readUntil_cons (mt (List.singleton_infix_iff lf _).mp hbuf),
      readUntil_of_isInfix hfound, List.flatten_nil, List.append_nil]
  | cons c cs ih =>
    rw [List.flatten_cons, List.mem_append, not_or] at hbefore
    have hgrown : lf ∉ buf ++ c := by simp [hbuf, hbefore.1]
    rw [List.cons_append, readUntil_cons (mt (List.singleton_infix_iff lf _).mp hbuf),
      ih hgrown hbefore.2, List.flatten_cons]
    simp only [List.append_assoc]

section

variable {sent : Bytes}

/-- A call on a stream without a line feed throws. -/
theorem emulateLongComputationOp_eof {cs : List Bytes} (h : lf ∉ cs.flatten)
    (durationSec : UInt32) :
    (emulateLongComputationOp durationSec ⟨sent, cs⟩).1 = .error .eof := by
  have hread : readUntil [lf] [] cs = (.eof, [] ++ cs.flatten, []) := by
    apply readUntil_eof
    exact mt (List.singleton_infix_iff lf _).mp h
  simp only [emulateLongComputationOp, receiveResponse, sendRequest, hread]
  rfl

/-- Otherwise it returns the first line, and the chunk that ends it is gone. -/
theorem emulateLongComputationOp_line {before after : List Bytes} {x y : Bytes}
    (hbefore : lf ∉ before.flatten) (hx : lf ∉ x) (durationSec : UInt32) :
    emulateLongComputationOp durationSec ⟨sent, before ++ (x ++ lf :: y) :: after⟩ =
      (.ok (before.flatten ++ x), ⟨sent ++ encodeRequest durationSec, after⟩) := by
  have hread : readUntil [lf] [] (before ++ (x ++ lf :: y) :: after) =
      (.success, before.flatten ++ x ++ lf :: y, after) := by
    rw [readUntil_first List.not_mem_nil hbefore, List.nil_append, List.append_assoc]
  have hline : lf ∉ before.flatten ++ x := by simp [hbefore, hx]
  have hgetline := IStream.getline_line hline y []
  simp only [emulateLongComputationOp, receiveResponse, sendRequest, hread, hgetline]
  rfl

/-- The calls succeed on a stream without a line feed only when there are none. -/
theorem calls_eof {cs : List Bytes} (h : lf ∉ cs.flatten) (durationSec : UInt32)
    (durations : List UInt32) : calls (durationSec :: durations) ⟨sent, cs⟩ = .error .eof := by
  have hcall : (emulateLongComputationOp durationSec ⟨sent, cs⟩).1 = .error .eof :=
    emulateLongComputationOp_eof h durationSec
  rw [calls]
  generalize emulateLongComputationOp durationSec ⟨sent, cs⟩ = result at hcall ⊢
  obtain ⟨result, c⟩ := result
  simp only at hcall
  rw [hcall]

/-- The first call returns the first line, and the others go on with the later chunks. -/
theorem calls_line {before after : List Bytes} {x y : Bytes} (hbefore : lf ∉ before.flatten)
    (hx : lf ∉ x) (durationSec : UInt32) (durations : List UInt32) :
    calls (durationSec :: durations) ⟨sent, before ++ (x ++ lf :: y) :: after⟩ =
      (calls durations ⟨sent ++ encodeRequest durationSec, after⟩).map
        ((before.flatten ++ x) :: ·) := by
  rw [calls, emulateLongComputationOp_line hbefore hx]

/-- They succeed together, with the first line in front. -/
theorem calls_line_eq_ok {before after : List Bytes} {x y : Bytes} {durations : List UInt32}
    {responses : List Bytes} (hbefore : lf ∉ before.flatten) (hx : lf ∉ x)
    (durationSec : UInt32) :
    calls (durationSec :: durations) ⟨sent, before ++ (x ++ lf :: y) :: after⟩ =
        .ok responses ↔
      ∃ rest, calls durations ⟨sent ++ encodeRequest durationSec, after⟩ = .ok rest ∧
        responses = (before.flatten ++ x) :: rest := by
  rw [calls_line hbefore hx]
  cases calls durations ⟨sent ++ encodeRequest durationSec, after⟩ with
  | error ec => simp [Except.map]
  | ok rest => simp [Except.map, eq_comm]

/-- The lines of what is kept begin with that of the first call. -/
theorem terminatedLines_kept {before after : List Bytes} {x y : Bytes}
    (hbefore : lf ∉ before.flatten) (hx : lf ∉ x) (j : Nat) :
    terminatedLines (kept (j + 1) (before ++ (x ++ lf :: y) :: after)) =
      (before.flatten ++ x) :: terminatedLines (kept j after) := by
  have hline : lf ∉ before.flatten ++ x := by simp [hbefore, hx]
  rw [kept_first hbefore hx, terminatedLines_append_cons hline]

/-- There are at most as many responses as line feeds. -/
theorem length_le_of_calls {durations : List UInt32} {cs : List Bytes} {responses : List Bytes}
    (h : calls durations ⟨sent, cs⟩ = .ok responses) :
    durations.length ≤ cs.flatten.count lf := by
  induction durations generalizing sent cs responses with
  | nil => exact Nat.zero_le _
  | cons durationSec durations ih =>
    by_cases hmem : lf ∈ cs.flatten
    · obtain ⟨before, x, y, after, rfl, hbefore, hx⟩ := exists_first hmem
      obtain ⟨rest, hrest, -⟩ := (calls_line_eq_ok hbefore hx durationSec).mp h
      have hle := ih hrest
      simp only [List.flatten_append, List.flatten_cons, List.count_append, List.length_cons,
        List.count_cons_self]
      omega
    · rw [calls_eof hmem] at h
      cases h

/-- The calls return the first lines of what is kept, if it has so many. -/
theorem calls_eq_ok_iff {durations : List UInt32} {cs responses : List Bytes} :
    calls durations ⟨sent, cs⟩ = .ok responses ↔
      responses.length = durations.length ∧
        responses = (terminatedLines (kept durations.length cs)).take durations.length := by
  induction durations generalizing sent cs responses with
  | nil =>
    rw [calls, Except.ok.injEq, List.length_nil, List.take_zero, List.length_eq_zero_iff, and_self,
      eq_comm]
  | cons durationSec durations ih =>
    by_cases hmem : lf ∈ cs.flatten
    · obtain ⟨before, x, y, after, rfl, hbefore, hx⟩ := exists_first hmem
      rw [calls_line_eq_ok hbefore hx, List.length_cons, terminatedLines_kept hbefore hx,
        List.take_succ_cons]
      constructor
      · rintro ⟨rest, hrest, rfl⟩
        obtain ⟨hlen, hsame⟩ := ih.mp hrest
        exact ⟨congrArg Nat.succ hlen, congrArg _ hsame⟩
      · rintro ⟨hlen, rfl⟩
        exact ⟨_, ih.mpr ⟨Nat.succ.inj hlen, rfl⟩, rfl⟩
    · rw [calls_eof hmem, kept_of_not_mem hmem, terminatedLines_of_not_mem hmem, List.take_nil]
      refine iff_of_false (fun h => by cases h) ?_
      rintro ⟨hlen, rfl⟩
      cases hlen

/-- The lines of a stream up to its first line feed and behind it. -/
theorem terminatedLines_first {before after : List Bytes} {x : Bytes}
    (hbefore : lf ∉ before.flatten) (hx : lf ∉ x) (y : Bytes) :
    terminatedLines (before ++ (x ++ lf :: y) :: after).flatten =
      (before.flatten ++ x) :: terminatedLines (y ++ after.flatten) := by
  have hline : lf ∉ before.flatten ++ x := by simp [hbefore, hx]
  rw [← terminatedLines_append_cons hline]
  simp

end

/-- What is behind the line that the last of the calls returns makes no difference to them. -/
theorem take_lines_kept (j : Nat) (cs : List Bytes) :
    (terminatedLines (kept (j + 1) cs)).take (j + 1) =
      (terminatedLines (kept j cs)).take (j + 1) := by
  induction j generalizing cs with
  | zero =>
    by_cases hmem : lf ∈ cs.flatten
    · obtain ⟨before, x, y, after, rfl, hbefore, hx⟩ := exists_first hmem
      rw [terminatedLines_kept hbefore hx, kept_zero, kept_zero, terminatedLines_first hbefore hx]
      rfl
    · rw [kept_of_not_mem hmem, kept_of_not_mem hmem]
  | succ j ih =>
    by_cases hmem : lf ∈ cs.flatten
    · obtain ⟨before, x, y, after, rfl, hbefore, hx⟩ := exists_first hmem
      rw [terminatedLines_kept hbefore hx, terminatedLines_kept hbefore hx, List.take_succ_cons,
        List.take_succ_cons, ih]
    · rw [kept_of_not_mem hmem, kept_of_not_mem hmem]

/-- Line by line nothing is lost. -/
theorem kept_of_lineWise {j : Nat} {cs : List Bytes} (h : LineWise j cs) :
    kept j cs = cs.flatten := by
  induction j generalizing cs with
  | zero => exact kept_zero cs
  | succ j ih =>
    by_cases hmem : lf ∈ cs.flatten
    · obtain ⟨before, x, y, after, rfl, hbefore, hx⟩ := exists_first hmem
      obtain ⟨rfl, hafter⟩ := (lineWise_first hbefore hx j).mp h
      rw [kept_first hbefore hx, ih hafter]
      simp
    · exact kept_of_not_mem hmem (j + 1)

/-- Any `k` calls return the first `k` of these lines, whatever was sent before and whichever
durations are asked for. -/
def Returns (k : Nat) (cs lines : List Bytes) : Prop :=
  ∀ (sent : Bytes) (durations : List UInt32), durations.length = k →
    calls durations ⟨sent, cs⟩ = .ok (lines.take k)

/-- They do so exactly when what is kept begins with these lines. -/
theorem returns_iff_take {k : Nat} {cs lines : List Bytes} (hk : k ≤ lines.length) :
    Returns k cs lines ↔ (terminatedLines (kept (k - 1) cs)).take k = lines.take k := by
  have hlen : (lines.take k).length = k := List.length_take_of_le hk
  have hsame : (terminatedLines (kept (k - 1) cs)).take k =
      (terminatedLines (kept k cs)).take k := by
    cases k with
    | zero => rfl
    | succ j => exact (take_lines_kept j cs).symm
  rw [hsame]
  constructor
  · intro h
    have hcalls := h [] (List.replicate k 0) List.length_replicate
    have hkept := (calls_eq_ok_iff.mp hcalls).2
    rw [List.length_replicate] at hkept
    exact hkept.symm
  · intro h sent durations hdurations
    rw [calls_eq_ok_iff, hdurations]
    exact ⟨hlen, h.symm⟩

/-- Line by line the calls return the lines of the stream. -/
theorem returns_of_lineWise {k : Nat} {cs : List Bytes}
    (hk : k ≤ (terminatedLines cs.flatten).length) (h : LineWise (k - 1) cs) :
    Returns k cs (terminatedLines cs.flatten) := by
  rw [returns_iff_take hk, kept_of_lineWise h]

/-- The first line is returned in any case; the others have to come from what is left. -/
theorem returns_of_first {before after lines : List Bytes} {x y : Bytes} {k : Nat}
    (hbefore : lf ∉ before.flatten) (hx : lf ∉ x)
    (h : Returns (k + 1) (before ++ (x ++ lf :: y) :: after) ((before.flatten ++ x) :: lines)) :
    Returns k after lines := by
  intro sent durations hlen
  have hcalls := h sent (0 :: durations) (congrArg Nat.succ hlen)
  obtain ⟨rest, hrest, hsame⟩ := (calls_line_eq_ok hbefore hx 0).mp hcalls
  rw [List.take_succ_cons] at hsame
  rw [calls_eq_ok_iff] at hrest ⊢
  rwa [(List.cons.inj hsame).2]

/-- What is lost with a chunk is missed by the calls for all later lines. -/
theorem not_returns_of_surplus {after : List Bytes} {y : Bytes} {k : Nat} (hy : y ≠ [])
    (hk : (terminatedLines (y ++ after.flatten)).length = k + 1) :
    ¬Returns (k + 1) after (terminatedLines (y ++ after.flatten)) := by
  intro h
  have hall := h [] (0 :: List.replicate k 0) (by simp)
  by_cases hlost : lf ∈ y
  · -- a whole line is lost, so there are fewer lines left than calls
    have hle := length_le_of_calls hall
    have hpos := List.count_pos_iff.mpr hlost
    rw [length_terminatedLines, List.count_append] at hk
    rw [List.length_cons, List.length_replicate] at hle
    omega
  · -- the front of a line is lost, so the next response is too short
    have hafter : lf ∈ after.flatten := by
      by_contra hno
      rw [terminatedLines_of_not_mem (by simp [hlost, hno])] at hk
      cases hk
    obtain ⟨before, x, z, rest, rfl, hbefore, hx⟩ := exists_first hafter
    have hno : lf ∉ (y :: before).flatten := by simp [hlost, hbefore]
    have hlines : terminatedLines ((y :: before) ++ (x ++ lf :: z) :: rest).flatten =
        ((y :: before).flatten ++ x) :: terminatedLines (z ++ rest.flatten) :=
      terminatedLines_first hno hx z
    rw [List.cons_append, List.flatten_cons, List.flatten_cons] at hlines
    rw [hlines, List.take_succ_cons] at hall
    obtain ⟨responses, -, hline⟩ := (calls_line_eq_ok hbefore hx 0).mp hall
    have hlen := congrArg List.length (List.cons.inj hline).1
    have hpos := List.length_pos_iff.mpr hy
    simp only [List.length_append] at hlen
    omega

/-- As many calls as there are lines return them only when the chunks are line by line. -/
theorem lineWise_of_returns {j : Nat} {cs : List Bytes}
    (hj : (terminatedLines cs.flatten).length = j + 1)
    (h : Returns (j + 1) cs (terminatedLines cs.flatten)) : LineWise j cs := by
  induction j generalizing cs with
  | zero => exact lineWise_zero cs
  | succ j ih =>
    have hmem : lf ∈ cs.flatten := by
      by_contra hno
      rw [terminatedLines_of_not_mem hno] at hj
      cases hj
    obtain ⟨before, x, y, after, rfl, hbefore, hx⟩ := exists_first hmem
    rw [terminatedLines_first hbefore hx] at h hj
    have hlater : (terminatedLines (y ++ after.flatten)).length = j + 1 := Nat.succ.inj hj
    have hrest := returns_of_first hbefore hx h
    rw [lineWise_first hbefore hx]
    by_cases hy : y = []
    · subst hy
      exact ⟨rfl, ih hlater hrest⟩
    · exact absurd hrest (not_returns_of_surplus hy hlater)

/-- However the stream of the server arrives: `k` calls return its first `k` lines when none of
the chunks in which the first `k - 1` of them end their lines brings anything behind the line
feed, and otherwise exactly when the stream without these bytes begins with the same `k` lines;
all numbers of calls return the lines only when nothing is lost at all. -/
theorem calls_return_lines_iff {stream : Bytes} (arrival : Chunking stream) :
    (∀ k, k ≤ (terminatedLines stream).length → LineWise (k - 1) arrival.chunks →
        Returns k arrival.chunks (terminatedLines stream)) ∧
      (∀ k, k ≤ (terminatedLines stream).length →
        (Returns k arrival.chunks (terminatedLines stream) ↔
          (terminatedLines (kept (k - 1) arrival.chunks)).take k =
            (terminatedLines stream).take k)) ∧
      ((∀ k, k ≤ (terminatedLines stream).length →
          Returns k arrival.chunks (terminatedLines stream)) ↔
        LineWise ((terminatedLines stream).length - 1) arrival.chunks) := by
  obtain ⟨chunks, rfl, -⟩ := arrival
  refine ⟨fun k hk h => returns_of_lineWise hk h, fun k hk => returns_iff_take hk, ?_, ?_⟩
  · intro h
    cases hlines : (terminatedLines chunks.flatten).length with
    | zero => exact lineWise_zero chunks
    | succ j => exact lineWise_of_returns hlines (h (j + 1) hlines.ge)
  · intro h k hk
    exact returns_of_lineWise hk (h.mono (Nat.sub_le_sub_right hk 1))

/-- What arrives behind the line of the last call is not lost for the calls before. -/
theorem linesInSegments_returned :
    Returns 2 [ascii "a\n", ascii "b\nc\n"] [ascii "a", ascii "b", ascii "c"] := by
  let arrival : Chunking (ascii "a\nb\nc\n") :=
    ⟨[ascii "a\n", ascii "b\nc\n"], by decide, by decide⟩
  have hlines : terminatedLines (ascii "a\nb\nc\n") = [ascii "a", ascii "b", ascii "c"] := by
    decide
  have hlineWise : LineWise (2 - 1) arrival.chunks := by decide
  rw [← hlines]
  exact (calls_return_lines_iff arrival).1 2 (by decide) hlineWise

/-- Of two responses in one segment the second is lost. -/
theorem secondResponse_lost :
    terminatedLines (ascii "a\nb\n") = [ascii "a", ascii "b"] ∧
      calls [10, 10] ⟨[], (Chunking.whole (ascii "a\nb\n")).chunks⟩ = .error .eof ∧
      ¬Returns 2 (Chunking.whole (ascii "a\nb\n")).chunks (terminatedLines (ascii "a\nb\n")) := by
  have hcalls : calls [10, 10] ⟨[], (Chunking.whole (ascii "a\nb\n")).chunks⟩ = .error .eof := rfl
  refine ⟨by decide, hcalls, fun h => ?_⟩
  have hok := h [] [10, 10] rfl
  rw [hcalls] at hok
  cases hok

end BoostAsio.SyncTcpClient

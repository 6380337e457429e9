import BoostAsio.Core.ErrorCode
import BoostAsio.Core.Stream.IStream
import Mathlib.Data.List.Infix

/-!
# Reads from a peer that closes its connection

The peer's bytes arrive in chunks, and each read appends one chunk to the stream
buffer. `readUntil` completes as soon as the delimiter stands anywhere in the buffer,
whatever has arrived behind it, and `readToEnd` only when the peer has closed.
-/

namespace BoostAsio

/-- A way in which the bytes of a stream can arrive; no read is empty. -/
structure Chunking (stream : Bytes) where
  chunks : List Bytes
  flatten_eq : chunks.flatten = stream
  ne_nil : ∀ c ∈ chunks, c ≠ []

/-- The stream arrives in these parts, the empty ones left out. -/
def Chunking.ofParts {stream : Bytes} (parts : List Bytes) (h : parts.flatten = stream) :
    Chunking stream where
  chunks := parts.filter (!·.isEmpty)
  flatten_eq := by rw [List.flatten_filter_not_isEmpty, h]
  ne_nil c hc := by simpa using (List.mem_filter.mp hc).2

@[simp] theorem Chunking.ofParts_chunks {stream : Bytes} (parts : List Bytes)
    (h : parts.flatten = stream) : (ofParts parts h).chunks = parts.filter (!·.isEmpty) := rfl

/-- The whole stream arrives at once. -/
def Chunking.whole (stream : Bytes) : Chunking stream := .ofParts [stream] (by simp)

/-- `asio::async_read_until` on a buffer: the result, the buffer and what is still to
arrive. The buffer keeps what was read when the stream ends without the delimiter. -/
def readUntil (delim : Bytes) : Bytes → List Bytes → ErrorCode × Bytes × List Bytes
  | buf, [] => if delim <:+: buf then (.success, buf, []) else (.eof, buf, [])
  | buf, c :: cs =>
    if delim <:+: buf then (.success, buf, c :: cs) else readUntil delim (buf ++ c) cs

/-- `asio::async_read` on a buffer without a size limit ends with the stream. -/
def readToEnd (buf : Bytes) (chunks : List Bytes) : ErrorCode × Bytes × List Bytes :=
  (.eof, buf ++ chunks.flatten, [])

/-- A delimiter that is there already costs no further read. -/
theorem readUntil_of_isInfix {delim buf : Bytes} (h : delim <:+: buf) (chunks : List Bytes) :
    readUntil delim buf chunks = (.success, buf, chunks) := by
  cases chunks <;> simp [readUntil, h]

/-- Without the delimiter the next chunk is awaited. -/
theorem readUntil_cons {delim buf : Bytes} (h : ¬delim <:+: buf) (c : Bytes)
    (chunks : List Bytes) : readUntil delim buf (c :: chunks) =
      readUntil delim (buf ++ c) chunks := by
  simp [readUntil, h]

/-- A stream without the delimiter is read to its end. -/
theorem readUntil_eof {delim buf : Bytes} {chunks : List Bytes}
    (h : ¬delim <:+: buf ++ chunks.flatten) :
    readUntil delim buf chunks = (.eof, buf ++ chunks.flatten, []) := by
  induction chunks generalizing buf with
  | nil =>
    simp only [List.flatten_nil, List.append_nil] at h
    simp [readUntil, h]
  | cons c cs ih =>
    have hbuf : ¬delim <:+: buf := fun hd => h (List.infix_append_of_infix_left hd)
    rw [List.flatten_cons, ← List.append_assoc] at h
    rw [readUntil_cons hbuf, ih h, List.flatten_cons, List.append_assoc]

/-- A stream with the delimiter is read to some point behind it, and nothing is lost. -/
theorem readUntil_success {delim buf : Bytes} {chunks : List Bytes}
    (h : delim <:+: buf ++ chunks.flatten) :
    ∃ front rest, readUntil delim buf chunks = (.success, front, rest) ∧ delim <:+: front ∧
      buf <+: front ∧ front ++ rest.flatten = buf ++ chunks.flatten := by
  induction chunks generalizing buf with
  | nil =>
    simp only [List.flatten_nil, List.append_nil] at h
    exact ⟨buf, [], readUntil_of_isInfix h _, h, List.prefix_rfl, rfl⟩
  | cons c cs ih =>
    by_cases hbuf : delim <:+: buf
    · exact ⟨buf, c :: cs, readUntil_of_isInfix hbuf _, hbuf, List.prefix_rfl, rfl⟩
    · rw [List.flatten_cons, ← List.append_assoc] at h
      obtain ⟨front, rest, hread, hfront, hprefix, hflat⟩ := ih h
      refine ⟨front, rest, by rw [readUntil_cons hbuf, hread], hfront,
        (List.prefix_append ..).trans hprefix, ?_⟩
      rw [hflat, List.flatten_cons, List.append_assoc]

/-- A delimiter in the first part of a stream is found there. -/
theorem readUntil_parts {delim front : Bytes} (hd : delim ≠ []) (h : delim <:+: front)
    (parts : List Bytes) : readUntil delim [] ((front :: parts).filter (!·.isEmpty)) =
      (.success, front, parts.filter (!·.isEmpty)) := by
  have hnil : ¬delim <:+: [] := fun hi => hd (List.infix_nil.mp hi)
  have hfront : (!front.isEmpty) = true := by simpa using h.ne_nil hd
  rw [List.filter_cons, if_pos hfront, readUntil_cons hnil, List.nil_append,
    readUntil_of_isInfix h]

/-- The text up to a first occurrence contains no earlier one. -/
def FirstAt (delim before : Bytes) : Prop := ¬delim <:+: before ++ delim.dropLast

instance (delim before : Bytes) : Decidable (FirstAt delim before) :=
  inferInstanceAs (Decidable (¬_))

/-- A delimiter that occurs has a first occurrence. -/
theorem exists_firstAt {delim s : Bytes} (hd : delim ≠ []) (h : delim <:+: s) :
    ∃ before after, s = before ++ delim ++ after ∧ FirstAt delim before := by
  induction s with
  | nil => exact absurd (List.infix_nil.mp h) hd
  | cons c s ih =>
    by_cases hp : delim <+: c :: s
    · obtain ⟨after, hafter⟩ := hp
      refine ⟨[], after, by simp [hafter], fun hi => ?_⟩
      have hlen := hi.length_le
      have hpos := List.length_pos_iff.mpr hd
      simp only [List.nil_append, List.length_dropLast] at hlen
      omega
    · obtain ⟨before, after, rfl, hfirst⟩ := ih ((List.infix_cons_iff.mp h).resolve_left hp)
      refine ⟨c :: before, after, by simp, fun hi => ?_⟩
      rw [List.cons_append] at hi
      rcases List.infix_cons_iff.mp hi with hpre | hin
      · refine hp (hpre.trans ((List.prefix_cons_inj c).mpr ?_))
        rw [List.append_assoc]
        refine (List.prefix_append_right_inj before).mpr ?_
        exact (List.dropLast_prefix delim).trans (List.prefix_append ..)
      · exact hfirst hin

/-- An occurrence does not start in a text without the delimiter's first byte. -/
theorem infix_of_not_mem_append {d : UInt8} {delim xs ys : Bytes} (hx : d ∉ xs)
    (h : d :: delim <:+: xs ++ ys) : d :: delim <:+: ys := by
  induction xs with
  | nil => exact h
  | cons a xs ih =>
    rw [List.mem_cons, not_or] at hx
    rw [List.cons_append] at h
    rcases List.infix_cons_iff.mp h with ⟨t, ht⟩ | hin
    · exact absurd (List.cons.inj ht).1 hx.1
    · exact ih hx.2 hin

/-- Two first occurrences in one stream are the same. -/
theorem FirstAt.unique {delim a b a' b' : Bytes} (h : FirstAt delim a) (h' : FirstAt delim a')
    (heq : a ++ delim ++ b = a' ++ delim ++ b') : a = a' ∧ b = b' := by
  have key : ∀ {x y u v : Bytes}, FirstAt delim y → x ++ delim ++ u = y ++ delim ++ v →
      y.length ≤ x.length := by
    intro x y u v hy hxy
    by_contra hlt
    refine hy ?_
    have hpre : x ++ delim <+: y ++ delim ++ v := ⟨u, hxy⟩
    have hlen : (x ++ delim).length ≤ (y ++ delim.dropLast).length := by
      simp only [List.length_append, List.length_dropLast]
      omega
    have hpre' : y ++ delim.dropLast <+: y ++ delim ++ v := by
      rw [List.append_assoc]
      refine (List.prefix_append_right_inj y).mpr ?_
      exact (List.dropLast_prefix delim).trans (List.prefix_append ..)
    exact (List.suffix_append x delim).isInfix.trans
      (List.prefix_of_prefix_length_le hpre hpre' hlen).isInfix
  have hlen : a.length = a'.length := Nat.le_antisymm (key h heq.symm) (key h' heq)
  rw [List.append_assoc, List.append_assoc] at heq
  obtain ⟨rfl, htail⟩ := List.append_inj heq hlen
  exact ⟨rfl, List.append_cancel_left htail⟩

/-- What contains a delimiter reaches at least to the end of its first occurrence. -/
theorem FirstAt.isPrefix_of_isInfix {delim before front stream : Bytes} (h : FirstAt delim before)
    (hstream : before ++ delim <+: stream) (hfront : front <+: stream)
    (hi : delim <:+: front) : before ++ delim <+: front := by
  rcases Nat.lt_or_ge front.length (before ++ delim).length with hlt | hge
  · refine absurd (hi.trans ?_) h
    have hpre : before ++ delim.dropLast <+: stream := by
      refine List.IsPrefix.trans ?_ hstream
      exact (List.prefix_append_right_inj before).mpr (List.dropLast_prefix delim)
    refine (List.prefix_of_prefix_length_le hfront hpre ?_).isInfix
    simp only [List.length_append, List.length_dropLast] at hlt ⊢
    omega
  · exact List.prefix_of_prefix_length_le hstream hfront hge

end BoostAsio

import BoostAsio.Core.Stream.ReadUntil

/-!
# Reads into a buffer of limited size

A bounded read takes from the peer what still fits into its buffer. It completes with the
delimiter, with the end of the stream, or with `not_found` when the buffer is full. The
result depends on the first bytes of the stream only, however they arrive.
-/

namespace BoostAsio

/-- `asio::async_read_until` on a buffer with a maximal size: the result, the buffer and
what is still to arrive. A chunk that does not fit fills the buffer and stays for the rest. -/
def readWithin (limit : Nat) (delim : Bytes) : Bytes → List Bytes → ErrorCode × Bytes × List Bytes
  | buf, [] =>
    if delim <:+: buf then (.success, buf, [])
    else if limit ≤ buf.length then (.notFound, buf, [])
    else (.eof, buf, [])
  | buf, c :: cs =>
    if delim <:+: buf then (.success, buf, c :: cs)
    else if limit ≤ buf.length then (.notFound, buf, c :: cs)
    else if buf.length + c.length ≤ limit then readWithin limit delim (buf ++ c) cs
    else
      let full := buf ++ c.take (limit - buf.length)
      let rest := c.drop (limit - buf.length) :: cs
      if delim <:+: full then (.success, full, rest) else (.notFound, full, rest)

variable {limit : Nat} {delim buf : Bytes} {chunks : List Bytes}

/-- A delimiter that is there already costs no further read. -/
theorem readWithin_of_isInfix (h : delim <:+: buf) (limit : Nat) (chunks : List Bytes) :
    readWithin limit delim buf chunks = (.success, buf, chunks) := by
  cases chunks <;> simp [readWithin, h]

/-- A full buffer without the delimiter ends the read. -/
theorem readWithin_of_full (h : ¬delim <:+: buf) (hfull : limit ≤ buf.length)
    (chunks : List Bytes) : readWithin limit delim buf chunks = (.notFound, buf, chunks) := by
  cases chunks <;> simp [readWithin, h, hfull]

/-- A chunk that fits is awaited. -/
theorem readWithin_of_fits (h : ¬delim <:+: buf) (hspace : buf.length < limit) {c : Bytes}
    (hfits : buf.length + c.length ≤ limit) (cs : List Bytes) :
    readWithin limit delim buf (c :: cs) = readWithin limit delim (buf ++ c) cs := by
  have hfull : ¬limit ≤ buf.length := Nat.not_le_of_lt hspace
  simp [readWithin, h, hfull, hfits]

/-- A chunk that does not fit fills the buffer. -/
theorem readWithin_of_cut (h : ¬delim <:+: buf) (hspace : buf.length < limit) {c : Bytes}
    (hcut : limit < buf.length + c.length) (cs : List Bytes) :
    readWithin limit delim buf (c :: cs) =
      readWithin limit delim ((buf ++ c).take limit) (c.drop (limit - buf.length) :: cs) := by
  have hfull : ¬limit ≤ buf.length := Nat.not_le_of_lt hspace
  have htake : (buf ++ c).take limit = buf ++ c.take (limit - buf.length) := by
    rw [List.take_append, List.take_of_length_le (Nat.le_of_lt hspace)]
  have hlen : limit ≤ (buf ++ c.take (limit - buf.length)).length := by
    simp only [List.length_append, List.length_take]
    omega
  rw [htake]
  by_cases hd : delim <:+: buf ++ c.take (limit - buf.length)
  · rw [readWithin_of_isInfix hd]
    simp [readWithin, h, hfull, Nat.not_le_of_lt hcut, hd]
  · rw [readWithin_of_full hd hlen]
    simp [readWithin, h, hfull, Nat.not_le_of_lt hcut, hd]

/-- What a bounded read comes to with this stream: the delimiter in a first part of it, a full
buffer, or its end. -/
inductive ReadsWithin (limit : Nat) (delim stream : Bytes) : ErrorCode × Bytes × List Bytes → Prop
  | found {front rest} (hwindow : delim <:+: stream.take limit) (hd : delim <:+: front)
      (hfront : front <+: stream) : ReadsWithin limit delim stream (.success, front, rest)
  | full {rest} (hwindow : ¬delim <:+: stream.take limit) (hlen : limit ≤ stream.length) :
      ReadsWithin limit delim stream (.notFound, stream.take limit, rest)
  | ended (hwindow : ¬delim <:+: stream.take limit) (hlen : stream.length < limit) :
      ReadsWithin limit delim stream (.eof, stream, [])

/-- A buffer that holds the delimiter, or is full, decides on the read. -/
theorem readsWithin_of_decided {stream : Bytes} (hbuf : buf.length ≤ limit)
    (hstream : buf <+: stream) (h : delim <:+: buf ∨ limit ≤ buf.length) :
    ReadsWithin limit delim stream (readWithin limit delim buf chunks) := by
  have hwindow : buf <+: stream.take limit := List.prefix_take_iff.mpr ⟨hstream, hbuf⟩
  by_cases hd : delim <:+: buf
  · rw [readWithin_of_isInfix hd]
    exact .found (hd.trans hwindow.isInfix) hd hstream
  · have hfull := h.resolve_left hd
    have htake : stream.take limit = buf := by
      refine (hwindow.eq_of_length_le ?_).symm
      exact (List.length_take_le _ _).trans hfull
    rw [readWithin_of_full hd hfull, ← htake]
    exact .full (htake.symm ▸ hd) (hfull.trans hstream.length_le)

/-- Every bounded read comes to one of these, whatever arrives at once. -/
theorem readsWithin (hbuf : buf.length ≤ limit) (delim : Bytes) (chunks : List Bytes) :
    ReadsWithin limit delim (buf ++ chunks.flatten) (readWithin limit delim buf chunks) := by
  induction chunks generalizing buf with
  | nil =>
    by_cases h : delim <:+: buf ∨ limit ≤ buf.length
    · exact readsWithin_of_decided hbuf (List.prefix_append ..) h
    · obtain ⟨hd, hspace⟩ := not_or.mp h
      have htake : buf.take limit = buf := List.take_of_length_le hbuf
      rw [List.flatten_nil, List.append_nil]
      simp only [readWithin, if_neg hd, if_neg hspace]
      exact .ended (htake.symm ▸ hd) (Nat.lt_of_not_le hspace)
  | cons c cs ih =>
    by_cases h : delim <:+: buf ∨ limit ≤ buf.length
    · exact readsWithin_of_decided hbuf (List.prefix_append ..) h
    · obtain ⟨hd, hspace⟩ := not_or.mp h
      rw [List.flatten_cons, ← List.append_assoc]
      by_cases hfits : buf.length + c.length ≤ limit
      · rw [readWithin_of_fits hd (Nat.lt_of_not_le hspace) hfits]
        exact ih (by rwa [List.length_append])
      · have hcut := Nat.lt_of_not_le hfits
        rw [readWithin_of_cut hd (Nat.lt_of_not_le hspace) hcut]
        refine readsWithin_of_decided (List.length_take_le _ _)
          ((List.take_prefix ..).trans (List.prefix_append ..)) (Or.inr ?_)
        rw [List.length_take, List.length_append]
        omega

end BoostAsio

import BoostAsio.Core.Stream.ReadUntil

/-!
# How a read may complete

A completed read has received some bytes at once. These are the completions that a stream, its
peer and the size of the buffer allow, whatever else may fail.
-/

namespace BoostAsio

/-- Whether `async_read_until` may complete in this way, when the buffer holds these bytes and
the end of the stream was delivered or not: with success when the delimiter is there, and with
the end of the stream only when it is not. -/
def CompletesUntil (delim : Bytes) (ended : Bool) (buf : Bytes) (ec : ErrorCode)
    (received : Bytes) : Prop :=
  (delim <:+: buf ∨ ended = true → received = []) ∧
    (ec.value = 0 → delim <:+: buf ++ received) ∧
    (ec = .eof → ¬delim <:+: buf ++ received)

instance (delim : Bytes) (ended : Bool) (buf : Bytes) (ec : ErrorCode) (received : Bytes) :
    Decidable (CompletesUntil delim ended buf ec received) :=
  inferInstanceAs (Decidable (_ ∧ _ ∧ _))

/-- Whether `async_read_until` may complete in this way on a buffer of limited size: with success
when the delimiter is there, and with `not_found` when the buffer is full without it. -/
def CompletesWithin (limit : Nat) (delim buf : Bytes) (ec : ErrorCode) (received : Bytes) : Prop :=
  (delim <:+: buf → received = []) ∧ (buf ++ received).length ≤ limit ∧
    (ec.value = 0 → delim <:+: buf ++ received) ∧
    (ec = .notFound → ¬delim <:+: buf ++ received ∧ limit ≤ (buf ++ received).length)

instance (limit : Nat) (delim buf : Bytes) (ec : ErrorCode) (received : Bytes) :
    Decidable (CompletesWithin limit delim buf ec received) :=
  inferInstanceAs (Decidable (_ ∧ _ ∧ _ ∧ _))

/-- What is received makes a chunk, unless it is empty. -/
def asChunk (received : Bytes) : List Bytes := if received = [] then [] else [received]

@[simp] theorem flatten_asChunk (received : Bytes) : (asChunk received).flatten = received := by
  unfold asChunk
  split
  · next h => rw [h, List.flatten_nil]
  · exact List.flatten_singleton

theorem ne_nil_of_mem_asChunk {received c : Bytes} (h : c ∈ asChunk received) : c ≠ [] := by
  unfold asChunk at h
  split at h
  · exact absurd h List.not_mem_nil
  · next hne =>
    rw [List.mem_singleton.mp h]
    exact hne

/-- A read takes the next chunk when it needs one, and completes when the delimiter is there. -/
theorem readUntil_asChunk {delim buf received : Bytes} (hneed : delim <:+: buf → received = [])
    (hfound : delim <:+: buf ++ received) (rest : List Bytes) :
    readUntil delim buf (asChunk received ++ rest) = (.success, buf ++ received, rest) := by
  unfold asChunk
  split
  · next hnil =>
    rw [hnil, List.append_nil] at hfound ⊢
    exact readUntil_of_isInfix hfound rest
  · next hne =>
    have hbuf : ¬delim <:+: buf := fun hd => hne (hneed hd)
    rw [List.singleton_append, readUntil_cons hbuf]
    exact readUntil_of_isInfix hfound rest

end BoostAsio

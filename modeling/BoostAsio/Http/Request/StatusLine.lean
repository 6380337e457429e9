import BoostAsio.Core.Stream.Words
import BoostAsio.Http.Request.Handlers

/-!
# What the status-line handler reads

The version and the code are the first two words of the buffer, wherever they stand; the
message is the rest of the line on which the code ends. One byte behind its carriage
return is dropped.
-/

namespace BoostAsio.HttpRequest

/-- The message with the parts that `OnStatusLineReceived` reads, by the bytes behind the
status code. -/
def setStatus (response : HttpMessage) (code : UInt64) (tail : Bytes) : HttpMessage :=
  ((response.setStatusCode code.toUInt32).setStatusMessage (lineOf tail)).withBuf
    (afterLine tail)

theorem stoul_nil : stoul [] = .error .invalidArgument := rfl

/-- The handler in terms of the words of the buffer. -/
theorem readStatusLine_eq (response : HttpMessage) :
    readStatusLine response =
      if firstWord response.messageBuf = httpVersion then
        match stoul (firstWord (afterWord response.messageBuf)) with
        | .error _ => .error .invalidResponse
        | .ok code =>
          .ok (setStatus response code (afterWord (afterWord response.messageBuf)))
      else .error .invalidResponse := by
  generalize hb : response.messageBuf = b
  rw [readStatusLine, hb, IStream.extract_snd]
  by_cases hversion : firstWord b = httpVersion
  · have hne : firstWord b ≠ [] := by
      rw [hversion]
      decide
    rw [IStream.extract_ofBuf hne]
    simp only [hversion, ne_eq, not_true_eq_false, ite_false, ite_true]
    generalize afterWord b = a
    by_cases ha : a = []
    · subst ha
      rfl
    · have hgood : (⟨a, a.isEmpty, false⟩ : IStream) = .ofBuf a := by simp [IStream.ofBuf, ha]
      rw [hgood, IStream.extract_snd]
      cases hcode : stoul (firstWord a) with
      | error e => rfl
      | ok code =>
        have hne' : firstWord a ≠ [] := by
          intro h
          rw [h, stoul_nil] at hcode
          cases hcode
        rw [IStream.extract_ofBuf hne']
        generalize afterWord a = t
        by_cases ht : t = []
        · subst ht
          rfl
        · have hgood' : (⟨t, t.isEmpty, false⟩ : IStream) = .ofBuf t := by
            simp [IStream.ofBuf, ht]
          obtain ⟨hline, hafter⟩ := IStream.getline_get_ofBuf t []
          simp only [hgood', hline, hafter, setStatus]
  · simp [hversion]

/-- A status line that is not read makes the response invalid. -/
theorem readStatusLine_error {m : HttpMessage} {ec : ErrorCode}
    (h : readStatusLine m = .error ec) : ec = .invalidResponse := by
  rw [readStatusLine_eq] at h
  split at h
  · split at h
    · exact (Except.error.inj h).symm
    · cases h
  · exact (Except.error.inj h).symm

theorem isWord_httpVersion : IsWord httpVersion := .of_all (by decide) (by decide)

/-- The handler on a buffer given by its words. -/
theorem readStatusLine_of_words {response : HttpMessage} {ws₁ ws₂ word tail : Bytes}
    (hbuf : response.messageBuf = ws₁ ++ (httpVersion ++ (ws₂ ++ (word ++ tail))))
    (hws₁ : Blank ws₁) (hws₂ : Blank ws₂) (hne : ws₂ ≠ []) (hword : IsWord word)
    (htail : EndsWord tail) :
    readStatusLine response =
      match stoul word with
      | .error _ => .error .invalidResponse
      | .ok code => .ok (setStatus response code tail) := by
  have hends : EndsWord (ws₂ ++ (word ++ tail)) := by
    obtain ⟨c, ws, rfl⟩ := List.exists_cons_of_ne_nil hne
    exact Or.inr ⟨c, ws ++ (word ++ tail), rfl, hws₂ c (List.mem_cons_self ..)⟩
  obtain ⟨hversion, hafter⟩ := firstWord_eq hws₁ isWord_httpVersion hends
  obtain ⟨hcode, hafter'⟩ := firstWord_eq hws₂ hword htail
  rw [readStatusLine_eq, hbuf, hversion, if_pos rfl, hafter, hcode, hafter']

end BoostAsio.HttpRequest

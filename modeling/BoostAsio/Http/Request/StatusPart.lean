import BoostAsio.Http.Encoding

/-!
# Accepted status lines on arbitrary input

A buffer is accepted when it starts with the version and a word that converts to a
number, with blanks of any kind around them. The handler then consumes the line on which
that word ends, up to the byte behind its carriage return, or the whole buffer when it
holds no more of the line.
-/

namespace BoostAsio.HttpRequest

/-- A version and an accepted status code, with the blanks in front of each. -/
structure StatusStart where
  lead : Bytes
  gap : Bytes
  word : Bytes
  code : UInt64
  blank_lead : Blank lead
  blank_gap : Blank gap
  gap_ne_nil : gap ≠ []
  isWord : IsWord word
  accepted : stoul word = .ok code

/-- The bytes up to the end of the status code. -/
def StatusStart.bytes (s : StatusStart) : Bytes :=
  s.lead ++ (httpVersion ++ (s.gap ++ s.word))

/-- A line ends within the blanks in front of the status code. -/
def StatusStart.Broken (s : StatusStart) : Prop := crlf <:+: s.lead ∨ crlf <:+: s.gap

/-- All that the handler consumes of a complete line. -/
structure StatusPart extends StatusStart where
  message : Bytes
  dropped : UInt8
  message_ends : EndsWord message
  no_cr : cr ∉ message

/-- The code of an ordinary answer is one word. -/
theorem isWord_ok : IsWord (ascii "200") := .of_all (by decide) (by decide)

/-- The code of an ordinary answer is accepted. -/
theorem stoul_ok : stoul (ascii "200") = .ok 200 := rfl

/-- The phrase of an ordinary answer stays on its line. -/
theorem cr_not_mem_ok : cr ∉ ascii " OK" := by decide

/-- The bytes of a complete status part. -/
def StatusPart.bytes (p : StatusPart) : Bytes :=
  p.toStatusStart.bytes ++ (p.message ++ [cr, p.dropped])

/-- What follows the code does not matter, as long as it does not continue the word. -/
theorem readStatusLine_start (s : StatusStart) {m : HttpMessage} {tail : Bytes}
    (htail : EndsWord tail) (hbuf : m.messageBuf = s.bytes ++ tail) :
    readStatusLine m = .ok (setStatus m s.code tail) := by
  have hwords : m.messageBuf = s.lead ++ (httpVersion ++ (s.gap ++ (s.word ++ tail))) := by
    simp [hbuf, StatusStart.bytes]
  rw [readStatusLine_of_words hwords s.blank_lead s.blank_gap s.gap_ne_nil s.isWord htail,
    s.accepted]

/-- A complete line is consumed with the byte behind its carriage return. -/
theorem readStatusLine_part (p : StatusPart) {m : HttpMessage} {rest : Bytes}
    (hbuf : m.messageBuf = p.bytes ++ rest) :
    readStatusLine m = .ok (((m.setStatusCode p.code.toUInt32).setStatusMessage
      p.message).withBuf rest) := by
  have htail : EndsWord (p.message ++ cr :: p.dropped :: rest) := by
    rcases p.message_ends with hm | ⟨c, r, hm, hc⟩
    · exact Or.inr ⟨cr, p.dropped :: rest, by rw [hm]; rfl, rfl⟩
    · exact Or.inr ⟨c, r ++ cr :: p.dropped :: rest, by rw [hm]; rfl, hc⟩
  have hall := ne_of_not_mem p.no_cr
  have hline : lineOf (p.message ++ cr :: p.dropped :: rest) = p.message :=
    takeWhile_append_cons _ _ hall (by simp)
  have hrest : afterLine (p.message ++ cr :: p.dropped :: rest) = rest := by
    rw [afterLine, dropWhile_append_cons _ _ hall (by simp)]
    rfl
  rw [readStatusLine_start p.toStatusStart htail (by simp [hbuf, StatusPart.bytes]), setStatus,
    hline, hrest]

/-- Only accepted status lines are read. -/
theorem readStatusLine_ok {m m' : HttpMessage} (h : readStatusLine m = .ok m') :
    ∃ (s : StatusStart) (tail : Bytes), m.messageBuf = s.bytes ++ tail ∧ EndsWord tail ∧
      m' = setStatus m s.code tail := by
  rw [readStatusLine_eq] at h
  by_cases hversion : firstWord m.messageBuf = httpVersion
  · rw [if_pos hversion] at h
    cases hcode : stoul (firstWord (afterWord m.messageBuf)) with
    | error e => simp [hcode] at h
    | ok code =>
      rw [hcode] at h
      have hne : firstWord (afterWord m.messageBuf) ≠ [] := by
        intro hnil
        rw [hnil, stoul_nil] at hcode
        cases hcode
      obtain ⟨lead, hlead, hblank, -, hends⟩ :=
        exists_of_firstWord hversion isWord_httpVersion.ne_nil
      obtain ⟨gap, hgap, hblank', hword, hends'⟩ := exists_of_firstWord rfl hne
      have hgap_ne : gap ≠ [] := by
        rintro rfl
        obtain ⟨a, w, haw⟩ := List.exists_cons_of_ne_nil hne
        rcases hends with hnil | ⟨c, r, hcr, hc⟩
        · rw [hnil] at hne
          exact hne rfl
        · rw [hgap, haw] at hcr
          have hac : a = c := (List.cons.inj hcr).1
          have := hword.not_space a (by simp [haw])
          rw [hac, hc] at this
          cases this
      refine ⟨⟨lead, gap, _, code, hblank, hblank', hgap_ne, hword, hcode⟩, _, ?_, hends',
        (Except.ok.inj h).symm⟩
      rw [StatusStart.bytes]
      simp only [List.append_assoc]
      rw [← hgap, ← hlead]
  · rw [if_neg hversion] at h
    cases h

/-- The tail behind an accepted code has a complete line, or is consumed to its end. -/
theorem StatusStart.complete_or_cut (s : StatusStart) {tail : Bytes} (htail : EndsWord tail) :
    (∃ (p : StatusPart) (rest : Bytes), p.toStatusStart = s ∧
        s.bytes ++ tail = p.bytes ++ rest) ∨
      ¬crlf <:+: tail ∧ afterLine tail = [] := by
  rcases not_mem_or_split cr tail with hno | ⟨message, after, rfl, hno⟩
  · refine Or.inr ⟨fun hi => hno (hi.subset (by simp [crlf])), ?_⟩
    rw [afterLine, List.dropWhile_eq_nil_iff.mpr (ne_of_not_mem hno), List.drop_nil]
  · cases after with
    | nil =>
      refine Or.inr ⟨fun hi => ?_, ?_⟩
      · have hlen := (infix_of_not_mem_append hno hi).length_le
        simp at hlen
      · rw [afterLine, dropWhile_append_cons _ _ (ne_of_not_mem hno) (by simp)]
        rfl
    | cons dropped rest =>
      have hends : EndsWord message := by
        rcases htail with hnil | ⟨c, r, hcr, hc⟩
        · simp at hnil
        · cases message with
          | nil => exact Or.inl rfl
          | cons a message => exact Or.inr ⟨a, message, rfl, (List.cons.inj hcr).1 ▸ hc⟩
      exact Or.inl ⟨⟨s, message, dropped, hends, hno⟩, rest, rfl, by simp [StatusPart.bytes]⟩

/-- Two neighbouring bytes lie on one side of a cut or on both. -/
theorem pair_infix_append {a b : UInt8} {xs ys : Bytes} (h : [a, b] <:+: xs ++ ys) :
    [a, b] <:+: xs ∨ [a, b] <:+: ys ∨ (a ∈ xs ∧ b ∈ ys.head?) := by
  induction xs with
  | nil => exact Or.inr (Or.inl h)
  | cons x xs ih =>
    rcases List.infix_cons_iff.mp h with ⟨t, ht⟩ | hin
    · obtain ⟨rfl, htail⟩ := List.cons.inj ht
      cases xs with
      | nil =>
        have hys : b :: t = ys := htail
        exact Or.inr (Or.inr ⟨List.mem_cons_self .., by rw [← hys]; rfl⟩)
      | cons y xs =>
        obtain ⟨rfl, -⟩ := List.cons.inj htail
        exact Or.inl ⟨[], xs, rfl⟩
    · rcases ih hin with hx | hy | ⟨hx, hy⟩
      · exact Or.inl (List.infix_cons_iff.mpr (Or.inr hx))
      · exact Or.inr (Or.inl hy)
      · exact Or.inr (Or.inr ⟨List.mem_cons_of_mem _ hx, hy⟩)

/-- The end of a line does not touch a word. -/
theorem crlf_infix_word {xs w ys : Bytes} (hw : IsWord w) (h : crlf <:+: xs ++ (w ++ ys)) :
    crlf <:+: xs ∨ crlf <:+: ys := by
  have hcr : cr ∉ w := fun hm => absurd (hw.not_space cr hm) (by decide)
  rcases pair_infix_append h with hx | hwy | ⟨-, hhead⟩
  · exact Or.inl hx
  · rcases pair_infix_append hwy with hi | hy | ⟨hm, -⟩
    · exact absurd (hi.subset (by simp)) hcr
    · exact Or.inr hy
    · exact absurd hm hcr
  · obtain ⟨c, w, rfl⟩ := List.exists_cons_of_ne_nil hw.ne_nil
    obtain rfl : c = lf := by simpa using hhead
    exact absurd (hw.not_space lf (List.mem_cons_self ..)) (by decide)

/-- A line that ends in an accepted buffer does so in front of the code or behind it. -/
theorem StatusStart.crlf_infix (s : StatusStart) {tail : Bytes}
    (h : crlf <:+: s.bytes ++ tail) : s.Broken ∨ crlf <:+: tail := by
  simp only [StatusStart.bytes, List.append_assoc] at h
  rcases crlf_infix_word isWord_httpVersion h with hlead | hrest
  · exact Or.inl (Or.inl hlead)
  · rcases crlf_infix_word s.isWord hrest with hgap | htail
    · exact Or.inl (Or.inr hgap)
    · exact Or.inr htail

/-- A prefix of the stream that contains the end of a line contains the whole status part,
unless a line ends in front of the code. -/
theorem StatusPart.prefix_of_crlf (p : StatusPart) (hp : ¬p.Broken) {front stream : Bytes}
    (hstream : p.bytes <+: stream) (hfront : front <+: stream) (hi : crlf <:+: front) :
    p.bytes <+: front := by
  rcases Nat.lt_or_ge front.length p.bytes.length with hlt | hge
  · have hcut : p.toStatusStart.bytes ++ (p.message ++ [cr]) <+: stream :=
      List.IsPrefix.trans ⟨[p.dropped], by simp [StatusPart.bytes]⟩ hstream
    have hpre := List.prefix_of_prefix_length_le hfront hcut (by
      simp only [StatusPart.bytes, List.length_append, List.length_cons,
        List.length_nil] at hlt ⊢
      omega)
    rcases p.crlf_infix (hi.trans hpre.isInfix) with hbroken | htail
    · exact absurd hbroken hp
    · have hlen := (infix_of_not_mem_append p.no_cr htail).length_le
      simp at hlen
  · exact List.prefix_of_prefix_length_le hstream hfront hge

end BoostAsio.HttpRequest

import BoostAsio.Core.Stream.IStream

/-!
# Words and lines of a buffer

The first word of a buffer is its first run of bytes that are not blank. Bytes that
arrive behind a blank that ends it change neither the word nor what precedes it, while
bytes that arrive directly behind it do.
-/

namespace BoostAsio

/-- Only bytes that an extraction skips. -/
def Blank (b : Bytes) : Prop := ∀ c ∈ b, isSpace c = true

theorem blank_nil : Blank [] := List.forall_mem_nil _

instance (b : Bytes) : Decidable (Blank b) :=
  decidable_of_iff (b.all isSpace = true) List.all_eq_true

/-- A non-empty run of bytes that an extraction stores. -/
structure IsWord (w : Bytes) : Prop where
  ne_nil : w ≠ []
  not_space : ∀ c ∈ w, isSpace c = false

/-- A word is recognised by looking at its bytes. -/
theorem IsWord.of_all {w : Bytes} (hne : w ≠ []) (h : w.all (!isSpace ·) = true) : IsWord w :=
  ⟨hne, fun c hc => by simpa using List.all_eq_true.mp h c hc⟩

/-- Bytes that end the word in front of them. -/
def EndsWord (b : Bytes) : Prop := b = [] ∨ ∃ c r, b = c :: r ∧ isSpace c = true

/-- The bytes that `stream >> str` stores. -/
def firstWord (b : Bytes) : Bytes := (b.dropWhile isSpace).takeWhile (!isSpace ·)

/-- The bytes behind the first word. -/
def afterWord (b : Bytes) : Bytes := (b.dropWhile isSpace).dropWhile (!isSpace ·)

/-- The bytes that `std::getline` stores, up to a carriage return. -/
def lineOf (b : Bytes) : Bytes := b.takeWhile (· != cr)

/-- The bytes behind the line, its carriage return and the byte after it. -/
def afterLine (b : Bytes) : Bytes := (b.dropWhile (· != cr)).drop 2

theorem firstWord_blank {b : Bytes} (h : Blank b) : firstWord b = [] := by
  have hd : b.dropWhile isSpace = [] := List.dropWhile_eq_nil_iff.mpr h
  simp [firstWord, hd]

/-- The first word stands between blanks. -/
theorem firstWord_eq {ws w tail : Bytes} (hws : Blank ws) (hw : IsWord w)
    (ht : EndsWord tail) : firstWord (ws ++ (w ++ tail)) = w ∧
      afterWord (ws ++ (w ++ tail)) = tail := by
  obtain ⟨a, v, rfl⟩ := List.exists_cons_of_ne_nil hw.ne_nil
  have hd : (ws ++ (a :: v ++ tail)).dropWhile isSpace = a :: v ++ tail :=
    dropWhile_append_cons _ _ hws (hw.not_space a (List.mem_cons_self ..))
  have hv : ∀ x ∈ a :: v, (!isSpace x) = true := fun x hx => by simp [hw.not_space x hx]
  rw [firstWord, afterWord, hd]
  rcases ht with rfl | ⟨c, r, rfl, hc⟩
  · rw [List.append_nil]
    exact ⟨List.takeWhile_eq_self_iff.mpr hv, List.dropWhile_eq_nil_iff.mpr hv⟩
  · exact ⟨takeWhile_append_cons _ _ hv (by simp [hc]), dropWhile_append_cons _ _ hv (by simp [hc])⟩

/-- A buffer is blank or splits around its first word. -/
theorem blank_or_word (b : Bytes) :
    Blank b ∨ ∃ ws w tail, b = ws ++ (w ++ tail) ∧ Blank ws ∧ IsWord w ∧ EndsWord tail := by
  rcases all_or_split isSpace b with hall | ⟨ws, a, ys, rfl, hws, ha⟩
  · exact Or.inl hall
  · refine Or.inr ?_
    rcases all_or_split (!isSpace ·) ys with hall | ⟨v, c, r, rfl, hv, hc⟩
    · refine ⟨ws, a :: ys, [], by simp, hws, ⟨by simp, fun x hx => ?_⟩, Or.inl rfl⟩
      rcases List.mem_cons.mp hx with rfl | hx
      · exact ha
      · simpa using hall x hx
    · refine ⟨ws, a :: v, c :: r, by simp, hws, ⟨by simp, fun x hx => ?_⟩,
        Or.inr ⟨c, r, rfl, by simpa using hc⟩⟩
      rcases List.mem_cons.mp hx with rfl | hx
      · exact ha
      · simpa using hv x hx

/-- The first word of a buffer with blanks around it, if there is one. -/
theorem exists_of_firstWord {b w : Bytes} (h : firstWord b = w) (hw : w ≠ []) :
    ∃ ws, b = ws ++ (w ++ afterWord b) ∧ Blank ws ∧ IsWord w ∧ EndsWord (afterWord b) := by
  rcases blank_or_word b with hb | ⟨ws, v, tail, rfl, hws, hv, ht⟩
  · exact absurd (h.symm.trans (firstWord_blank hb)) hw
  · obtain ⟨hfirst, hafter⟩ := firstWord_eq hws hv ht
    obtain rfl := hfirst.symm.trans h
    exact ⟨ws, by rw [hafter], hws, hv, hafter.symm ▸ ht⟩

namespace IStream

/-- A first word is stored, and the stream is at its end when nothing follows it. -/
theorem extract_ofBuf {b : Bytes} (h : firstWord b ≠ []) (str : Bytes) :
    (ofBuf b).extract str = (⟨afterWord b, (afterWord b).isEmpty, false⟩, firstWord b) := by
  cases hd : b.dropWhile isSpace with
  | nil => simp [firstWord, hd] at h
  | cons c r => simp [extract, good, ofBuf, firstWord, afterWord, hd]

/-- The string is empty without a word. -/
theorem extract_snd (b : Bytes) : ((ofBuf b).extract []).2 = firstWord b := by
  by_cases h : firstWord b = []
  · rcases blank_or_word b with hb | ⟨ws, v, tail, rfl, hws, hv, ht⟩
    · have hd : b.dropWhile isSpace = [] := List.dropWhile_eq_nil_iff.mpr hb
      simp [extract, good, ofBuf, hd, h]
    · exact absurd ((firstWord_eq hws hv ht).1.symm.trans h) hv.ne_nil
  · rw [extract_ofBuf h]

/-- A line is read up to its carriage return or up to the end of the buffer. -/
theorem getline_get_ofBuf (b str : Bytes) :
    ((ofBuf b).getline str cr).2 = lineOf b ∧
      ((ofBuf b).getline str cr).1.get.buf = afterLine b := by
  rcases not_mem_or_split cr b with hno | ⟨xs, ys, rfl, hno⟩
  · have hall := ne_of_not_mem hno
    have hd : b.dropWhile (· != cr) = [] := List.dropWhile_eq_nil_iff.mpr hall
    have hgood : (⟨[], true, b.isEmpty⟩ : IStream).good = false := rfl
    rw [getline_last hno, get_of_not_good hgood]
    exact ⟨(List.takeWhile_eq_self_iff.mpr hall).symm, by simp [afterLine, hd]⟩
  · have hall := ne_of_not_mem hno
    rw [getline_line hno, buf_get_ofBuf, lineOf, afterLine,
      takeWhile_append_cons _ _ hall (by simp), dropWhile_append_cons _ _ hall (by simp)]
    exact ⟨rfl, by simp⟩

end IStream

end BoostAsio

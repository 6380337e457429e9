import BoostAsio.Core.Stream.ReadUntil
import BoostAsio.Core.Stream.Words

/-!
# Texts cut into words and lines

A text is cut into words at its blanks, into lines at each line feed, or into a block of
lines at each occurrence of a delimiter up to the first empty line. A cut joins over the
place where it is made, and a block can be cut in one way only.
-/

namespace BoostAsio

/-- The words between the blanks of a text. -/
def words (b : Bytes) : List Bytes := (b.splitOnP isSpace).filter (!·.isEmpty)

/-- A blank cuts the words. -/
theorem words_append_cons (xs : Bytes) {c : UInt8} (hc : isSpace c = true) (ys : Bytes) :
    words (xs ++ c :: ys) = words xs ++ words ys := by
  rw [words, List.splitOnP_append_cons xs ys hc, List.filter_append]
  rfl

/-- A word is its only word. -/
theorem IsWord.words_eq {w : Bytes} (hw : IsWord w) : words w = [w] := by
  rw [words, List.splitOnP_eq_singleton hw.not_space]
  simp [hw.ne_nil]

/-- A word does not go over the end of a line. -/
theorem IsWord.cr_not_mem {w : Bytes} (hw : IsWord w) : cr ∉ w := by
  intro h
  exact absurd (hw.not_space cr h) (by decide)

/-- What a text is cut into are words. -/
theorem isWord_of_mem_words {b w : Bytes} (h : w ∈ words b) : IsWord w := by
  have key : ∀ n (b : Bytes), b.length = n → ∀ w ∈ b.splitOnP isSpace,
      ∀ c ∈ w, isSpace c = false := by
    intro n
    induction n using Nat.strong_induction_on with
    | _ n ih =>
      intro b hn w hw
      rcases all_or_split (!isSpace ·) b with hall | ⟨xs, c, ys, rfl, hxs, hc⟩
      · have hno : ∀ x ∈ b, isSpace x = false := fun x hx => by simpa using hall x hx
        rw [List.splitOnP_eq_singleton hno, List.mem_singleton] at hw
        exact hw ▸ hno
      · have hno : ∀ x ∈ xs, isSpace x = false := fun x hx => by simpa using hxs x hx
        rw [List.splitOnP_append_cons_of_forall_mem hno c (by simpa using hc)] at hw
        rcases List.mem_cons.mp hw with rfl | hw
        · exact hno
        · refine ih ys.length ?_ ys rfl w hw
          simp only [List.length_append, List.length_cons] at hn
          omega
  obtain ⟨hsplit, hne⟩ := List.mem_filter.mp h
  exact ⟨by simpa using hne, key _ b rfl w hsplit⟩

/-- The lines of a text that end with a line feed. -/
def terminatedLines (b : Bytes) : List Bytes := (b.splitOn lf).dropLast

/-- A text without a line feed has no such line. -/
theorem terminatedLines_of_not_mem {b : Bytes} (h : lf ∉ b) : terminatedLines b = [] := by
  rw [terminatedLines, List.splitOn_eq_singleton h]
  rfl

/-- The first line is what stands in front of the first line feed. -/
theorem terminatedLines_append_cons {line : Bytes} (h : lf ∉ line) (rest : Bytes) :
    terminatedLines (line ++ lf :: rest) = line :: terminatedLines rest := by
  rw [terminatedLines, List.splitOn_append_cons_self_of_not_mem h,
    List.dropLast_cons_of_ne_nil (List.splitOn_ne_nil lf rest)]
  rfl

/-- Lines that are written one behind the other are cut apart again. -/
theorem splitOn_flatMap {α : Type*} {line : α → Bytes} {xs : List α}
    (h : ∀ x ∈ xs, lf ∉ line x) :
    (xs.flatMap fun x => line x ++ [lf]).splitOn lf = xs.map line ++ [[]] := by
  induction xs with
  | nil => exact List.splitOn_eq_singleton List.not_mem_nil
  | cons x xs ih =>
    have hrest := ih fun y hy => h y (List.mem_cons_of_mem x hy)
    rw [List.flatMap_cons, List.append_assoc, List.singleton_append,
      List.splitOn_append_cons_self_of_not_mem (h x List.mem_cons_self), hrest, List.map_cons,
      List.cons_append]

/-- There are as many such lines as line feeds. -/
theorem length_terminatedLines (b : Bytes) : (terminatedLines b).length = b.count lf := by
  induction hn : b.length using Nat.strong_induction_on generalizing b with
  | _ n ih =>
    rcases not_mem_or_split lf b with hno | ⟨line, rest, rfl, hline⟩
    · rw [terminatedLines_of_not_mem hno, List.count_eq_zero.mpr hno, List.length_nil]
    · have hlt : rest.length < n := by
        simp only [List.length_append, List.length_cons] at hn
        omega
      rw [terminatedLines_append_cons hline, List.length_cons, ih _ hlt rest rfl,
        List.count_append, List.count_eq_zero.mpr hline, List.count_cons_self, Nat.zero_add]

/-- A block: lines that end with the delimiter, none of them empty, an empty line, and what
follows it. -/
structure CutsInto (delim b : Bytes) (lines : List Bytes) (rest : Bytes) : Prop where
  bytes : b = lines.flatMap (· ++ delim) ++ (delim ++ rest)
  ne_nil : ∀ line ∈ lines, line ≠ []
  first : ∀ line ∈ lines, FirstAt delim line

/-- A block is cut in one way only. -/
theorem CutsInto.unique {delim b rest rest' : Bytes} {lines lines' : List Bytes}
    (hd : delim ≠ []) (h : CutsInto delim b lines rest) (h' : CutsInto delim b lines' rest') :
    lines = lines' ∧ rest = rest' := by
  have hempty : FirstAt delim [] := by
    intro hi
    have hlen := hi.length_le
    have hpos := List.length_pos_iff.mpr hd
    simp only [List.nil_append, List.length_dropLast] at hlen
    omega
  obtain ⟨rfl, hne, hfirst⟩ := h
  obtain ⟨hbytes, hne', hfirst'⟩ := h'
  induction lines generalizing lines' with
  | nil =>
    cases lines' with
    | nil => exact ⟨rfl, List.append_cancel_left (List.append_cancel_left hbytes)⟩
    | cons line' lines' =>
      rw [List.flatMap_nil, List.flatMap_cons, List.append_assoc] at hbytes
      obtain ⟨hline, -⟩ := hempty.unique (hfirst' line' (List.mem_cons_self ..)) hbytes
      exact absurd hline.symm (hne' line' (List.mem_cons_self ..))
  | cons line lines ih =>
    cases lines' with
    | nil =>
      rw [List.flatMap_nil, List.flatMap_cons, List.append_assoc] at hbytes
      obtain ⟨hline, -⟩ := hempty.unique (hfirst line (List.mem_cons_self ..)) hbytes.symm
      exact absurd hline.symm (hne line (List.mem_cons_self ..))
    | cons line' lines' =>
      have hcut : line ++ delim ++ (lines.flatMap (· ++ delim) ++ (delim ++ rest)) =
          line' ++ delim ++ (lines'.flatMap (· ++ delim) ++ (delim ++ rest')) := by
        simpa only [List.flatMap_cons, List.append_assoc] using hbytes
      obtain ⟨rfl, htail⟩ := (hfirst line (List.mem_cons_self ..)).unique
        (hfirst' line' (List.mem_cons_self ..)) hcut
      obtain ⟨rfl, hrest⟩ := ih (fun l hl => hne l (List.mem_cons_of_mem _ hl))
        (fun l hl => hfirst l (List.mem_cons_of_mem _ hl)) htail
        (fun l hl => hne' l (List.mem_cons_of_mem _ hl))
        (fun l hl => hfirst' l (List.mem_cons_of_mem _ hl))
      exact ⟨rfl, hrest⟩

end BoostAsio

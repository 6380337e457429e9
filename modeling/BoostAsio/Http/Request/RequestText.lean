import BoostAsio.Core.Stream.Cuts
import BoostAsio.Http.Request.Reuse
import BoostAsio.Http.Request.StatusPart

/-!
# What the peer reads in a request

`Execute` looks at the lengths of the host and of the URI and at nothing inside them, and
the three texts go into the request as they are. The peer cuts lines at each CRLF and words
at each blank. It finds one request line of three words and one header exactly when the
method and the URI are words and the host does not end a line.
-/

namespace BoostAsio.HttpRequest

open BoostAsio.System

/-- A header line with this name and this value; blanks may precede the value. -/
def IsHeader (line name value : Bytes) : Prop :=
  58 ∉ name ∧ ∃ gap, gap.all (fun c => c == 32 || c == 9) = true ∧
    line = name ++ 58 :: (gap ++ value)

/-- The peer reads the request line and the header of these settings and nothing else. -/
def ReadsAs (x : Settings) (buf : Bytes) : Prop :=
  ∃ requestLine headerLine, CutsInto crlf buf [requestLine, headerLine] [] ∧
    words requestLine = [x.method, x.uri, httpVersion] ∧
    IsHeader headerLine (ascii "Host") x.host

/-- Nothing in the settings is a separator of the request. -/
structure Separable (x : Settings) : Prop where
  method : IsWord x.method
  uri : IsWord x.uri
  host : ¬crlf <:+: x.host

/-- The request line that is encoded, without its end. -/
def Settings.requestLine (x : Settings) : Bytes :=
  x.method ++ 32 :: (x.uri ++ 32 :: httpVersion)

/-- The header line that is encoded, without its end. -/
def Settings.headerLine (x : Settings) : Bytes := ascii "Host: " ++ x.host

theorem Settings.encode_eq (x : Settings) :
    x.encode = x.requestLine ++ crlf ++ (x.headerLine ++ crlf ++ crlf) := by
  have hblank : ascii " " = [32] := rfl
  have hversion : ascii " HTTP/1.1\r\n" = 32 :: (httpVersion ++ crlf) := rfl
  simp [encode, requestLine, headerLine, hblank, hversion, ascii_crlf]

/-- A text is cut at its first CRLF only when it holds none. -/
theorem firstAt_crlf_iff {line : Bytes} : FirstAt crlf line ↔ ¬crlf <:+: line := by
  refine not_congr ⟨fun h => ?_, fun h => List.infix_append_of_infix_left h⟩
  have hlast : crlf.dropLast = [cr] := rfl
  rw [hlast] at h
  rcases pair_infix_append h with hline | hcr | ⟨-, hhead⟩
  · exact hline
  · exact absurd hcr.length_le (by decide)
  · exact absurd hhead (by decide)

/-- A text without a carriage return ends no line. -/
theorem firstAt_of_cr_not_mem {line : Bytes} (h : cr ∉ line) : FirstAt crlf line :=
  firstAt_crlf_iff.mpr fun hi => h (hi.subset (by simp [crlf]))

/-- What is read in a request is determined by the request. -/
theorem ReadsAs.unique {x y : Settings} {buf : Bytes} (hx : ReadsAs x buf) (hy : ReadsAs y buf) :
    x.method = y.method ∧ x.uri = y.uri := by
  obtain ⟨requestLine, headerLine, hcut, hwords, -⟩ := hx
  obtain ⟨requestLine', headerLine', hcut', hwords', -⟩ := hy
  obtain ⟨hlines, -⟩ := hcut.unique (by decide) hcut'
  obtain ⟨rfl, -⟩ := List.cons.inj hlines
  obtain ⟨hmethod, htail⟩ := List.cons.inj (hwords.symm.trans hwords')
  exact ⟨hmethod, (List.cons.inj htail).1⟩

section

variable {x : Settings}

/-- The words of the request line are those of its parts. -/
theorem words_requestLine (x : Settings) :
    words x.requestLine = words x.method ++ words x.uri ++ [httpVersion] := by
  have hspace : isSpace 32 = true := by decide
  rw [Settings.requestLine, words_append_cons _ hspace, words_append_cons _ hspace,
    isWord_httpVersion.words_eq, List.append_assoc]

/-- Words make a request line that ends no line before its end. -/
theorem firstAt_requestLine (hmethod : IsWord x.method) (huri : IsWord x.uri) :
    FirstAt crlf x.requestLine := by
  apply firstAt_of_cr_not_mem
  intro h
  have hblank : cr ≠ 32 := by decide
  simp only [Settings.requestLine, List.mem_append, List.mem_cons, hblank, false_or] at h
  rcases h with h | h | h
  · exact hmethod.cr_not_mem h
  · exact huri.cr_not_mem h
  · exact isWord_httpVersion.cr_not_mem h

/-- The header line ends where the host ends it. -/
theorem firstAt_headerLine_iff : FirstAt crlf x.headerLine ↔ ¬crlf <:+: x.host := by
  rw [firstAt_crlf_iff, Settings.headerLine]
  refine not_congr ⟨fun h => ?_, fun h => h.trans (List.suffix_append _ _).isInfix⟩
  exact infix_of_not_mem_append (by decide) h

/-- Separable settings are read back from their encoding. -/
theorem Separable.readsAs (h : Separable x) : ReadsAs x x.encode := by
  have hfirst := firstAt_requestLine h.method h.uri
  have hheader := firstAt_headerLine_iff.mpr h.host
  have hline : x.requestLine ≠ [] := by simp [Settings.requestLine]
  have hhost : x.headerLine ≠ [] := by simp [Settings.headerLine, ascii]
  refine ⟨x.requestLine, x.headerLine, ⟨?_, ?_, ?_⟩, ?_, by decide, [32], by decide, rfl⟩
  · rw [Settings.encode_eq]
    simp
  · simp [hline, hhost]
  · simp [hfirst, hheader]
  · rw [words_requestLine, h.method.words_eq, h.uri.words_eq]
    rfl

/-- Only separable settings are read back. -/
theorem ReadsAs.separable (h : ReadsAs x x.encode) : Separable x := by
  obtain ⟨requestLine, headerLine, hcut, hwords, -⟩ := h
  have hmethod : IsWord x.method := isWord_of_mem_words (b := requestLine) (by simp [hwords])
  have huri : IsWord x.uri := isWord_of_mem_words (b := requestLine) (by simp [hwords])
  refine ⟨hmethod, huri, ?_⟩
  have hbytes : x.requestLine ++ crlf ++ (x.headerLine ++ crlf ++ crlf) =
      requestLine ++ crlf ++ (headerLine ++ crlf ++ crlf) := by
    rw [← Settings.encode_eq, hcut.bytes]
    simp
  obtain ⟨-, htail⟩ := (firstAt_requestLine hmethod huri).unique
    (hcut.first requestLine (List.mem_cons_self ..)) hbytes
  have hheader : x.headerLine = headerLine :=
    List.append_cancel_right (List.append_cancel_right htail)
  rw [← firstAt_headerLine_iff, hheader]
  exact hcut.first headerLine (by simp)

/-- The encoding of settings is read back exactly when nothing in them is a separator. -/
theorem readsAs_encode_iff (x : Settings) : ReadsAs x x.encode ↔ Separable x :=
  ⟨ReadsAs.separable, Separable.readsAs⟩

end

/-- A request that has not written yet has an empty buffer, and what it writes is the encoding
of its settings. -/
structure WritesEncoding (x : Settings) (σ : State) (tr : List Event) : Prop where
  settings : σ.settings = x
  ahead : σ.point.ahead = true → σ.requestBuf = []
  written : ∀ buf ∈ writes tr, buf = x.encode

section

variable {settings : Settings} {σ σ' : State} {l : Label} {labels : List Label}
  {tr es : List Event}

/-- A step inside `Cancel` neither writes nor leads back in front of the write. -/
theorem Step.cancel_writes (h : Step σ l σ' es) (hl : l.cancels = true) :
    (σ'.point.ahead = true → σ.point.ahead = true) ∧ writes es = [] ∧
      σ'.requestBuf = σ.requestBuf := by
  have hpending : ∀ on t c, (((σ.cancelPending on).cancelGoto t c).point.ahead = true →
      σ.point.ahead = true) ∧ ((σ.cancelPending on).cancelGoto t c).requestBuf =
        σ.requestBuf := by
    intro on t c
    constructor
    · rw [State.point_cancelGoto]
      rcases σ.point_cancelPending on with hsame | ⟨stage, cancelled, hpoint, hnew⟩
      · rw [hsame]
        exact id
      · rw [hpoint, hnew]
        exact id
    · obtain ⟨p, hp⟩ := σ.cancelPending_eq on
      rw [hp]
      rfl
  cases h with
  | cancelResolver | cancelSocket =>
    exact ⟨(hpending _ _ _).1, rfl, (hpending _ _ _).2⟩
  | cancel | cancelLock | cancelSetFlag | cancelClosed | cancelUnlock => exact ⟨id, rfl, rfl⟩
  | _ => cases hl

theorem WritesEncoding.step (hi : WritesEncoding settings σ tr) (h : Step σ l σ' es) :
    WritesEncoding settings σ' (tr ++ es) := by
  have hsettings := h.settings_eq.trans hi.settings
  have hkeep : (σ'.point.ahead = true → σ.point.ahead = true) → writes es = [] →
      σ'.requestBuf = σ.requestBuf → WritesEncoding settings σ' (tr ++ es) := by
    intro hahead hes hbuf
    refine ⟨hsettings, fun hp => hbuf.trans (hi.ahead (hahead hp)), fun buf hmem => ?_⟩
    rw [writes_append, hes, List.append_nil] at hmem
    exact hi.written buf hmem
  cases hl : l.cancels with
  | true =>
    obtain ⟨hahead, hes, hbuf⟩ := h.cancel_writes hl
    exact hkeep hahead hes hbuf
  | false =>
    rcases h.write_cases hl with ⟨hahead, hbehind, hes, -⟩ | ⟨hahead, hes, hbuf, -⟩
    · refine ⟨hsettings, fun hp => by simp [hbehind] at hp, fun buf hmem => ?_⟩
      rw [writes_append, hes, hi.ahead hahead, List.nil_append, hi.settings] at hmem
      rcases List.mem_append.mp hmem with hold | hnew
      · exact hi.written buf hold
      · exact List.mem_singleton.mp hnew
    · exact hkeep hahead hes hbuf

/-- Along every run of a new request only the encoding of its settings is written. -/
theorem Run.writesEncoding (h : Run settings labels σ tr) : WritesEncoding settings σ tr := by
  refine exec_induction (P := fun _ σ tr => WritesEncoding settings σ tr) ?_ ?_ h
  · exact ⟨rfl, fun _ => rfl, nofun⟩
  · intro as σ tr a t es _ hi hs
    exact hi.step (step_cases hs)

/-- A step writes nothing unless it leaves a point in front of the write. -/
theorem Step.writes_eq_nil (h : Step σ l σ' es) (hahead : σ.point.ahead = false) :
    writes es = [] := by
  cases hl : l.cancels with
  | true => exact (h.cancel_writes hl).2.1
  | false =>
    rcases h.write_cases hl with ⟨htrue, -⟩ | ⟨-, hes, -⟩
    · rw [hahead] at htrue
      cases htrue
    · exact hes

/-- A run writes once at most, and not yet when it stands in front of the write. -/
theorem Run.writes_length (h : Run settings labels σ tr) :
    (writes tr).length ≤ 1 ∧ (σ.point.ahead = true → writes tr = []) := by
  refine exec_induction (P := fun _ σ tr =>
    (writes tr).length ≤ 1 ∧ (σ.point.ahead = true → writes tr = [])) ?_ ?_ h
  · exact ⟨Nat.zero_le 1, fun _ => rfl⟩
  · intro as σ tr l σ' es _ hi hs
    have hstep := step_cases hs
    have hkeep : (σ'.point.ahead = true → σ.point.ahead = true) → writes es = [] →
        (writes (tr ++ es)).length ≤ 1 ∧ (σ'.point.ahead = true → writes (tr ++ es) = []) := by
      intro hahead hes
      rw [writes_append, hes, List.append_nil]
      exact ⟨hi.1, fun hp => hi.2 (hahead hp)⟩
    cases hl : l.cancels with
    | true => exact hkeep (hstep.cancel_writes hl).1 (hstep.cancel_writes hl).2.1
    | false =>
      rcases hstep.write_cases hl with ⟨hahead, hbehind, hes, -⟩ | ⟨hahead, hes, -⟩
      · rw [writes_append, hi.2 hahead, hes]
        exact ⟨le_rfl, fun hp => by simp [hbehind] at hp⟩
      · exact hkeep hahead hes

/-- What a new request writes is read as its settings exactly when the method and the URI are
words and the host ends no line. -/
theorem written_readsAs_iff (h : Run settings labels σ tr) {buf : Bytes}
    (hbuf : buf ∈ writes tr) :
    ReadsAs settings buf ↔
      IsWord settings.method ∧ IsWord settings.uri ∧ ¬crlf <:+: settings.host := by
  rw [h.writesEncoding.written buf hbuf, readsAs_encode_iff]
  exact ⟨fun hx => ⟨hx.method, hx.uri, hx.host⟩, fun hx => ⟨hx.1, hx.2.1, hx.2.2⟩⟩

end

/-- The steps of a request up to the start of its write. -/
def writeSchedule : List Label :=
  List.replicate 5 (.run 0) ++ passSchedule .success [] ++ passSchedule .success []

/-- The plain request is read as it was set up. -/
theorem plainRequest_readsAs : ∃ σ tr, Run plainSettings writeSchedule σ tr ∧
    ∃ buf ∈ writes tr, ReadsAs plainSettings buf := by
  obtain ⟨σ, tr, hrun, hwrites⟩ : ∃ σ tr, Run plainSettings writeSchedule σ tr ∧
      writes tr = [plainSettings.encode] := ⟨_, _, rfl, rfl⟩
  have hmem : plainSettings.encode ∈ writes tr := by simp [hwrites]
  refine ⟨σ, tr, hrun, _, hmem, (written_readsAs_iff hrun hmem).mpr ⟨?_, ?_, ?_⟩⟩
  · exact .of_all (by decide) (by decide)
  · exact .of_all (by decide) (by decide)
  · decide

/-- A host with a second header line in it. -/
def splitSettings : Settings := { plainSettings with host := ascii "h\r\nX: y" }

/-- `Execute` accepts that host, and the peer reads another request. -/
theorem splitRequest_misread : splitSettings.check = .ok () ∧
    ∃ σ tr, Run splitSettings writeSchedule σ tr ∧
      ∃ buf ∈ writes tr, ¬ReadsAs splitSettings buf := by
  obtain ⟨σ, tr, hrun, hwrites⟩ : ∃ σ tr, Run splitSettings writeSchedule σ tr ∧
      writes tr = [splitSettings.encode] := ⟨_, _, rfl, rfl⟩
  have hmem : splitSettings.encode ∈ writes tr := by simp [hwrites]
  refine ⟨rfl, σ, tr, hrun, _, hmem, fun h => ?_⟩
  exact h.separable.host (by decide)

end BoostAsio.HttpRequest

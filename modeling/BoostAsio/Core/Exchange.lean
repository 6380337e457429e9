import BoostAsio.Core.Talk

/-!
# One question and one answer over a connection

The opener of a connection writes a question and reads an answer, perhaps several times; the
server reads one question, writes one answer and closes. Both texts end with their first
delimiter. Then the server reads the first question as it was written or nothing, the opener
reads one answer at most, and it reads none before the server has read the question.
-/

namespace BoostAsio

/-- The text ends with the first occurrence of the delimiter. -/
def EndsWith (delim text : Bytes) : Prop := ∃ body, text = body ++ delim ∧ FirstAt delim body

/-- A line with its terminator ends there for the first time. -/
theorem endsWith_singleton {d : UInt8} {line : Bytes} (h : d ∉ line) :
    EndsWith [d] (line ++ [d]) := by
  refine ⟨line, rfl, fun hi => h ?_⟩
  rw [List.dropLast_singleton, List.append_nil] at hi
  exact (List.singleton_infix_iff d line).mp hi

/-- A first part of a text that holds the delimiter is the text. -/
theorem EndsWith.eq_of_isPrefix {delim text front : Bytes} (h : EndsWith delim text)
    (hp : front <+: text) (hi : delim <:+: front) : front = text := by
  obtain ⟨body, rfl, hfirst⟩ := h
  have hall := hfirst.isPrefix_of_isInfix List.prefix_rfl hp hi
  exact hp.eq_of_length_le hall.length_le

/-- Reads that hold the delimiter, of a first part of a text, are the text or nothing. -/
theorem EndsWith.reads {delim text : Bytes} (h : EndsWith delim text) (hd : delim ≠ [])
    {reads : List Bytes} (hp : reads.flatten <+: text) (hi : ∀ r ∈ reads, delim <:+: r) :
    reads = [] ∨ reads = [text] := by
  cases reads with
  | nil => exact Or.inl rfl
  | cons r rest =>
    have hr : r = text := by
      refine h.eq_of_isPrefix ?_ (hi r List.mem_cons_self)
      exact List.IsPrefix.trans (List.prefix_append r rest.flatten) hp
    have hrest : rest.flatten = [] := by
      obtain ⟨more, hmore⟩ := hp
      rw [List.flatten_cons, hr, List.append_assoc] at hmore
      have hnil := List.append_right_eq_self.mp hmore
      exact (List.append_eq_nil_iff.mp hnil).1
    refine Or.inr ?_
    cases rest with
    | nil => rw [hr]
    | cons r' rest' =>
      have hr' : r' = [] := (List.append_eq_nil_iff.mp hrest).1
      have hinfix := hi r' (List.mem_cons_of_mem r List.mem_cons_self)
      rw [hr'] at hinfix
      exact absurd (List.infix_nil.mp hinfix) hd

/-- Operations that neither write nor read. -/
def Quiet (ops : List Blocking) : Prop := ∀ op ∈ ops, op = .negotiate

theorem Quiet.texts_eq_nil {ops : List Blocking} (h : Quiet ops) : texts ops = [] := by
  refine List.flatMap_eq_nil_iff.mpr fun op hop => ?_
  rw [h op hop]
  rfl

theorem Quiet.delimiters_eq_nil {ops : List Blocking} (h : Quiet ops) : delimiters ops = [] := by
  refine List.filterMap_eq_nil_iff.mpr fun op hop => ?_
  rw [h op hop]
  rfl

/-- The opener asks this first, and reads no further than the delimiter. -/
structure Asks (delim question : Bytes) (opener : List Blocking) : Prop where
  endsWith : EndsWith delim question
  first : ∃ before after, Quiet before ∧
    opener = before ++ [.write question, .readUntil delim] ++ after
  uniform : ∀ d ∈ delimiters opener, d = delim

/-- The server reads one question, answers it and is done. -/
structure Answers (delim answer : Bytes) (server : List Blocking) : Prop where
  endsWith : EndsWith delim answer
  script : ∃ before, Quiet before ∧ server = before ++ [.readUntil delim, .write answer]

section

variable {delim question answer : Bytes} {opener server : List Blocking} {n : Nat}

/-- Until its first read is over the opener has written its first question at most. -/
theorem Asks.texts_take (h : Asks delim question opener)
    (hn : delimiters (opener.take n) = []) : texts (opener.take (n + 1)) <+: question := by
  obtain ⟨before, after, hquiet, rfl⟩ := h.first
  have hwhole : texts (before ++ [Blocking.write question, .readUntil delim]) = question := by
    rw [texts_append, hquiet.texts_eq_nil]
    simp [texts, Blocking.text]
  have hread : delimiters (before ++ [Blocking.write question, .readUntil delim]) ≠ [] := by
    rw [delimiters_append]
    intro hnil
    cases (List.append_eq_nil_iff.mp hnil).2
  generalize before ++ [Blocking.write question, .readUntil delim] = front at hn hwhole hread ⊢
  have hfront : n + 1 ≤ front.length := by
    by_contra hlt
    rw [List.take_append, List.take_of_length_le (by omega), delimiters_append] at hn
    exact hread (List.append_eq_nil_iff.mp hn).1
  rw [List.take_append_of_le_length hfront]
  obtain ⟨rest, hrest⟩ := List.take_prefix (n + 1) front
  rw [← hrest, texts_append] at hwhole
  exact ⟨texts rest, hwhole⟩

/-- The server writes nothing but its answer. -/
theorem Answers.texts_take (h : Answers delim answer server) (n : Nat) :
    texts (server.take n) <+: answer := by
  obtain ⟨before, hquiet, rfl⟩ := h.script
  have hwhole : texts (before ++ [Blocking.readUntil delim, .write answer]) = answer := by
    rw [texts_append, hquiet.texts_eq_nil]
    simp [texts, Blocking.text]
  obtain ⟨rest, hrest⟩ := List.take_prefix n (before ++ [Blocking.readUntil delim, .write answer])
  rw [← hrest, texts_append] at hwhole
  exact ⟨texts rest, hwhole⟩

/-- The server writes nothing before it has read a question. -/
theorem Answers.read_of_write (h : Answers delim answer server)
    (hn : texts (server.take (n + 1)) ≠ []) : delimiters (server.take n) ≠ [] := by
  obtain ⟨before, hquiet, rfl⟩ := h.script
  have hlong : before.length + 1 ≤ n := by
    by_contra hlt
    apply hn
    have hcut : n + 1 ≤ (before ++ [Blocking.readUntil delim]).length := by
      rw [List.length_append, List.length_singleton]
      omega
    have hsplit : before ++ [Blocking.readUntil delim, .write answer] =
        (before ++ [.readUntil delim]) ++ [.write answer] := by simp
    rw [hsplit, List.take_append_of_le_length hcut]
    have hnone : texts (before ++ [Blocking.readUntil delim]) = [] := by
      rw [texts_append, hquiet.texts_eq_nil]
      rfl
    obtain ⟨rest, hrest⟩ := List.take_prefix (n + 1) (before ++ [Blocking.readUntil delim])
    rw [← hrest, texts_append] at hnone
    exact (List.append_eq_nil_iff.mp hnone).1
  have htake : (before ++ [Blocking.readUntil delim, .write answer]).take n =
      before ++ .readUntil delim :: [Blocking.write answer].take (n - (before.length + 1)) := by
    rw [List.take_append, List.take_of_length_le (by omega),
      show n - before.length = (n - (before.length + 1)) + 1 by omega, List.take_succ_cons]
  rw [htake, delimiters_append]
  intro hnil
  cases (List.append_eq_nil_iff.mp hnil).2

/-- The server reads once at most. -/
theorem Answers.delimiters_take (h : Answers delim answer server) (n : Nat) :
    delimiters (server.take n) <+: [delim] := by
  obtain ⟨before, hquiet, rfl⟩ := h.script
  have hwhole : delimiters (before ++ [Blocking.readUntil delim, .write answer]) = [delim] := by
    rw [delimiters_append, hquiet.delimiters_eq_nil]
    rfl
  obtain ⟨rest, hrest⟩ := List.take_prefix n (before ++ [Blocking.readUntil delim, .write answer])
  rw [← hrest, delimiters_append] at hwhole
  exact ⟨delimiters rest, hwhole⟩

end

namespace Link

/-- The server has read the question or nothing, the opener has read the answer or nothing, and
not before the question was read. -/
structure Served (question answer : Bytes) (x : Link) : Prop where
  asked : ∀ service ∈ x.service, service.reads = [] ∨ service.reads = [question]
  answered : x.client.reads = [] ∨ x.client.reads = [answer]
  order : x.client.reads ≠ [] → ∃ service ∈ x.service, service.reads = [question]

section

variable {delim question answer : Bytes} {opener server : List Blocking} {x y : Link} {l : Label}

/-- The reads of one side hold its delimiter. -/
theorem found_of_hears {t : Talk} {inn : Wire UInt8} (h : t.Hears inn)
    (huniform : ∀ d ∈ delimiters t.script, d = delim) : ∀ r ∈ t.reads, delim <:+: r := by
  have hall : ∀ d ∈ delimiters (t.script.take t.completed), d = delim := by
    intro d hd
    obtain ⟨rest, hrest⟩ := List.take_prefix t.completed t.script
    refine huniform d ?_
    rw [← hrest, delimiters_append]
    exact List.mem_append_left _ hd
  have hfound := h.found
  revert hall hfound
  generalize delimiters (t.script.take t.completed) = ds
  generalize t.reads = reads
  intro hall hfound
  induction hfound with
  | nil => exact fun r hr => absurd hr List.not_mem_nil
  | @cons d r ds reads hd _ ih =>
    intro r' hr'
    rcases List.mem_cons.mp hr' with rfl | hr'
    · exact hall d List.mem_cons_self ▸ hd
    · exact ih (fun d' hd' => hall d' (List.mem_cons_of_mem d hd')) r' hr'

/-- The opener reads one answer at most. -/
theorem Joined.answered (hi : Joined opener server x) (hasks : Asks delim question opener)
    (hanswers : Answers delim answer server) (hd : delim ≠ []) :
    x.client.reads = [] ∨ x.client.reads = [answer] := by
  have hfound := found_of_hears hi.hearsDown (hi.opener ▸ hasks.uniform)
  refine hanswers.endsWith.reads hd ?_ hfound
  cases hs : x.service with
  | none =>
    have hwritten := (hi.silent hs).1
    have hdelivered := x.down.channel.account
    rw [hwritten] at hdelivered
    have hnil := (List.append_eq_nil_iff.mp hdelivered.symm).1
    exact (hnil ▸ hi.hearsDown.within).trans List.nil_prefix
  | some service =>
    have hscript := hi.server service hs
    have hheard := heard_prefix (hi.speaksDown service hs) hi.hearsDown
    rw [hscript] at hheard
    exact hheard.trans (hanswers.texts_take _)

/-- The opener has read nothing before the server has. -/
theorem Joined.read_of_answered (hi : Joined opener server x)
    (hanswers : Answers delim answer server) (hd : delim ≠ [])
    (hfound : ∀ r ∈ x.client.reads, delim <:+: r) (hreads : x.client.reads ≠ []) :
    ∃ service ∈ x.service, service.reads ≠ [] := by
  have hheard : x.client.reads.flatten ≠ [] := by
    obtain ⟨r, rest, hr⟩ := List.exists_cons_of_ne_nil hreads
    have hinfix := hfound r (hr ▸ List.mem_cons_self)
    intro hnil
    rw [hr, List.flatten_cons] at hnil
    rw [(List.append_eq_nil_iff.mp hnil).1] at hinfix
    exact hd (List.infix_nil.mp hinfix)
  cases hs : x.service with
  | none =>
    have hdelivered := x.down.channel.account
    rw [(hi.silent hs).1] at hdelivered
    have hnil := (List.append_eq_nil_iff.mp hdelivered.symm).1
    exact absurd (List.prefix_nil.mp (hnil ▸ hi.hearsDown.within)) hheard
  | some service =>
    refine ⟨service, rfl, fun hnone => ?_⟩
    have hwhole := heard_prefix (hi.speaksDown service hs) hi.hearsDown
    rw [hi.server service hs] at hwhole
    have hwritten : texts (server.take (service.completed + 1)) ≠ [] := by
      intro hnil
      rw [hnil] at hwhole
      exact hheard (List.prefix_nil.mp hwhole)
    have hlen := (hi.hearsUp service hs).found.length_eq
    rw [hi.server service hs, hnone, List.length_nil] at hlen
    exact hanswers.read_of_write hwritten (List.length_eq_zero_iff.mp hlen)

/-- The rest follows from what the server has read. -/
theorem Joined.served (hi : Joined opener server x) (hasks : Asks delim question opener)
    (hanswers : Answers delim answer server) (hd : delim ≠ [])
    (hasked : ∀ service ∈ x.service, service.reads = [] ∨ service.reads = [question]) :
    Served question answer x := by
  refine ⟨hasked, hi.answered hasks hanswers hd, fun hreads => ?_⟩
  have hfound := found_of_hears hi.hearsDown (hi.opener ▸ hasks.uniform)
  obtain ⟨service, hs, hne⟩ := hi.read_of_answered hanswers hd hfound hreads
  exact ⟨service, hs, (hasked service hs).resolve_left hne⟩

theorem served_opened (question answer : Bytes) (opener : List Blocking) :
    Served question answer (opened opener) :=
  ⟨nofun, Or.inl rfl, fun h => absurd rfl h⟩

/-- A read of the server is the question, or adds nothing. -/
theorem Served.service (hi : Served question answer x) (hj : Joined opener server x)
    (hasks : Asks delim question opener) (hanswers : Answers delim answer server)
    (hd : delim ≠ []) {ec : ErrorCode} {received : Bytes}
    (h : step server x (.service ec received) = some y) :
    ∀ service ∈ y.service, service.reads = [] ∨ service.reads = [question] := by
  have hj' := hj.service h
  obtain ⟨before, hs, h⟩ := Option.bind_eq_some_iff.mp h
  obtain ⟨up, hup, h⟩ := Option.bind_eq_some_iff.mp h
  obtain ⟨⟨t, down⟩, ha, h⟩ := Option.map_eq_some_iff.mp h
  subst h
  intro service hservice
  obtain rfl := Option.some.inj hservice
  have huniform : ∀ d ∈ delimiters t.script, d = delim := by
    intro d hmem
    rw [hj'.server t rfl] at hmem
    have htake := hanswers.delimiters_take server.length
    rw [List.take_length] at htake
    exact List.mem_singleton.mp (htake.subset hmem)
  have hfound := found_of_hears (hj'.hearsUp t rfl) huniform
  rcases hi.asked before hs with hnone | hone
  · -- the first read: the opener has written no more than its question
    have hquiet : x.client.reads = [] := by
      by_contra hreads
      obtain ⟨service, hs', hquestion⟩ := hi.order hreads
      obtain rfl := Option.some.inj (hs.symm.trans hs')
      rw [hnone] at hquestion
      cases hquestion
    have hlen := hj.hearsDown.found.length_eq
    rw [hquiet, List.length_nil, hj.opener] at hlen
    have hwritten := hasks.texts_take (List.length_eq_zero_iff.mp hlen)
    have hheard := heard_prefix hj'.speaksUp (hj'.hearsUp t rfl)
    rw [hj'.opener] at hheard
    exact hasks.endsWith.reads hd (hheard.trans hwritten) hfound
  · -- the only read is over
    have hlen := (hj'.hearsUp t rfl).found.length_eq
    have hshort := (hanswers.delimiters_take t.completed).length_le
    rw [← hj'.server t rfl, hlen, List.length_singleton] at hshort
    have hkept := Talk.reads_advance ha
    rw [hone] at hkept
    exact Or.inr (hkept.eq_of_length_le (by rwa [List.length_singleton])).symm

/-- Every step keeps the order of question and answer. -/
theorem Served.step (hi : Served question answer x) (hj : Joined opener server x)
    (hasks : Asks delim question opener) (hanswers : Answers delim answer server)
    (hd : delim ≠ []) (h : step server x l = some y) : Served question answer y := by
  refine (hj.step h).served hasks hanswers hd ?_
  cases l with
  | accept =>
    simp only [Link.step, Option.ite_none_right_eq_some] at h
    obtain rfl := Option.some.inj h.2
    intro service hs
    obtain rfl := Option.some.inj hs
    exact Or.inl rfl
  | client ec received =>
    obtain ⟨down, hdown, h⟩ := Option.bind_eq_some_iff.mp h
    obtain ⟨next, ha, rfl⟩ := Option.map_eq_some_iff.mp h
    exact hi.asked
  | service ec received => exact hi.service hj hasks hanswers hd h
  | sendUp n =>
    obtain ⟨up, hup, rfl⟩ := Option.map_eq_some_iff.mp h
    exact hi.asked
  | sendDown n =>
    obtain ⟨down, hdown, rfl⟩ := Option.map_eq_some_iff.mp h
    exact hi.asked

end

end Link

end BoostAsio

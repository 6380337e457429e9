import BoostAsio.Core.Exchange
import Mathlib.Logic.Relation

/-!
# Who asks can be answered

While neither side of a connection has failed, the two programs can go on until the opener
has its answer. Nothing but their own steps and those of the network is needed for it.
-/

namespace BoostAsio

/-- Only a read has a delimiter. -/
theorem Blocking.eq_readUntil {op : Blocking} {d : Bytes} (h : op.delimiter = some d) :
    op = .readUntil d := by
  cases op with
  | readUntil delim => rw [Option.some.inj h]
  | write | negotiate => cases h

namespace Talk

section

variable {t t' : Talk} {out out' inn : Wire UInt8} {ec : ErrorCode} {received : Bytes}

/-- Nothing is left to send but in a write, and a side that is closed is over. -/
structure Settled (t : Talk) (out : Wire UInt8) : Prop where
  unsent : (∀ text, t.current ≠ some (.write text)) → out.unsent = []
  closed : out.channel.closed = true → t.current = none

theorem settled_begin (t : Talk) (hunsent : out.unsent = [])
    (hopen : out.channel.closed = false) : t.Settled (t.begin out) := by
  unfold begin
  cases hc : t.current with
  | none => exact ⟨fun _ => hunsent, fun _ => hc⟩
  | some op =>
    have hnot : ¬out.channel.closed = true := by rw [hopen]; exact Bool.false_ne_true
    cases op with
    | write text => exact ⟨fun hno => absurd hc (hno text), fun h => absurd h hnot⟩
    | readUntil | negotiate => exact ⟨fun _ => hunsent, fun h => absurd h hnot⟩

theorem Settled.send (h : t.Settled out) {n : Nat} (hs : out.send n = some out') :
    t.Settled out' := by
  obtain ⟨c, hc, rfl⟩ := Option.map_eq_some_iff.mp hs
  refine ⟨fun hno => ?_, fun hclosed => ?_⟩
  · rw [h.unsent hno]
    exact List.drop_nil
  · obtain ⟨-, -, hopen, -⟩ := Channel.send_eq_some hc
    rw [hopen] at hclosed
    cases hclosed

theorem Settled.receive (h : t.Settled out) {piece : Bytes} {ends : Bool}
    (hr : out.receive piece ends = some out') : t.Settled out' := by
  obtain ⟨-, -, hunsent⟩ := Wire.receive_eq_some hr
  refine ⟨fun hno => hunsent.trans (h.unsent hno), fun hclosed => h.closed ?_⟩
  rw [← (Wire.closed_receive hr).1]
  exact hclosed

theorem Settled.advance (h : t.Settled out)
    (ha : t.advance out ec received = some (t', out')) : t'.Settled out' := by
  obtain ⟨op, mid, hop, -, hmid, rfl, rfl⟩ := advance_eq_some ha
  obtain ⟨hchannel, hunsent, -, hreads⟩ := finish_eq_some hmid
  refine settled_begin _ ?_ ?_
  · rcases hunsent with hsame | hnil
    · by_cases hw : ∃ text, op = .write text
      · obtain ⟨text, rfl⟩ := hw
        exact (Wire.complete_eq_some hmid).2.1
      · rw [hsame]
        exact h.unsent fun text hc => hw ⟨text, Option.some.inj (hop.symm.trans hc)⟩
    · exact hnil
  · rw [hchannel]
    by_contra hclosed
    have hnone := h.closed (Bool.not_eq_false _ ▸ hclosed)
    rw [hop] at hnone
    cases hnone

/-- A program that has not failed and is not at an operation has carried out all of them. -/
theorem length_le_of_current (hf : t.failure = none) (hcurrent : t.current = none) :
    t.script.length ≤ t.completed := by
  rw [current, if_pos hf] at hcurrent
  exact List.getElem?_eq_none_iff.mp hcurrent

/-- The operations that are left. -/
def left (t : Talk) : Nat := t.script.length - t.completed

/-- The operation in progress is left. -/
theorem left_completed {op : Blocking} (hop : t.current = some op) (reads : List Bytes) :
    ({ t with completed := t.completed + 1, reads := reads } : Talk).left < t.left := by
  obtain ⟨hlt, -⟩ := List.getElem?_eq_some_iff.mp (current_eq_some hop).2
  exact Nat.sub_succ_lt_self _ _ hlt

theorem ends_success (t : Talk) : t.ends .success = false := by
  unfold ends
  cases t.current with
  | none => rfl
  | some op => cases op <;> rfl

theorem advance_of_finish {op : Blocking} (hop : t.current = some op)
    (hcompletes : op.Completes ec received) (hfinish : op.finish ec out = some out') :
    t.advance out ec received =
      some (t.complete op ec received, (t.complete op ec received).begin out') := by
  rw [advance, hop, Option.bind_some, if_pos hcompletes, hfinish]
  rfl

/-- The rest of a text can be sent, and then an operation that does not read can complete. -/
theorem Settled.exists_finish (h : t.Settled out) {op : Blocking} (hop : t.current = some op)
    (hread : op.delimiter = none) : ∃ mid out', out.send out.unsent.length = some mid ∧
      t.advance mid .success [] = some ({ t with completed := t.completed + 1 }, out') := by
  have hopen : out.channel.closed = false := by
    by_contra hclosed
    have hnone := h.closed (Bool.not_eq_false _ ▸ hclosed)
    rw [hop] at hnone
    cases hnone
  obtain ⟨mid, hmid, hunsent, -⟩ := Wire.send_unsent hopen
  have hfinish : ∃ mid', op.finish .success mid = some mid' := by
    cases op with
    | write text =>
      refine ⟨{ mid with unsent := [] }, if_neg fun hleft => hleft.2 ?_⟩
      rw [hunsent, List.length_nil]
    | readUntil | negotiate => exact ⟨mid, rfl⟩
  obtain ⟨mid', hmid'⟩ := hfinish
  have hcompletes : op.Completes .success [] := by
    cases op with
    | write text | negotiate => rfl
    | readUntil delim => cases hread
  have hkeeps : t.complete op .success [] = { t with completed := t.completed + 1 } := by
    cases op with
    | write text | negotiate => exact (if_pos rfl).trans (by rw [Blocking.keeps, List.append_nil])
    | readUntil delim => cases hread
  have hadvance := advance_of_finish hop hcompletes hmid'
  rw [hkeeps] at hadvance
  exact ⟨mid, _, hmid, hadvance⟩

/-- A read can take a whole text that holds its delimiter. -/
theorem exists_read {delim : Bytes} (hd : delim ≠ [])
    (hop : t.current = some (.readUntil delim)) (hdelivered : inn.channel.delivered = [])
    (hi : delim <:+: inn.channel.written) (out : Wire UInt8) :
    ∃ inn' out', inn.receive inn.channel.written false = some inn' ∧
      t.advance out .success inn.channel.written =
        some ({ t with
          completed := t.completed + 1
          reads := t.reads ++ [inn.channel.written] }, out') := by
  obtain ⟨c, hc⟩ := Channel.receive_written hdelivered
  have hcompletes : (Blocking.readUntil delim).Completes .success inn.channel.written := by
    refine ⟨fun hno => ?_, fun _ => by rwa [List.nil_append], fun hec => by cases hec⟩
    rcases hno with hno | hno
    · exact absurd (List.infix_nil.mp hno) hd
    · cases hno
  have hreceive : inn.receive inn.channel.written false = some { inn with channel := c } := by
    rw [Wire.receive, hc]
    rfl
  have hfinish : (Blocking.readUntil delim).finish .success out = some out := rfl
  exact ⟨_, _, hreceive, advance_of_finish hop hcompletes hfinish⟩

end

end Talk

section

variable {delim question answer : Bytes} {opener server : List Blocking} {n : Nat}

/-- At its first read the opener has written its question. -/
theorem Asks.texts_of_read (h : Asks delim question opener) {d : Bytes}
    (hn : opener[n]? = some (.readUntil d)) (hnone : delimiters (opener.take n) = []) :
    texts (opener.take (n + 1)) = question := by
  have hread : delimiters (opener.take (n + 1)) = [d] := by
    rw [List.take_add_one, hn, delimiters_append, hnone]
    rfl
  obtain ⟨before, after, hquiet, rfl⟩ := h.first
  have hwhole : texts (before ++ [Blocking.write question, .readUntil delim]) = question := by
    rw [texts_append, hquiet.texts_eq_nil]
    simp [texts, Blocking.text]
  have hdelims : delimiters (before ++ [Blocking.write question, .readUntil delim]) = [delim] := by
    rw [delimiters_append, hquiet.delimiters_eq_nil]
    rfl
  have hquestion : delimiters (before ++ [Blocking.write question]) = [] := by
    rw [delimiters_append, hquiet.delimiters_eq_nil]
    rfl
  have hlength : (before ++ [Blocking.write question, .readUntil delim]).length = n + 1 := by
    apply Nat.le_antisymm
    · -- a shorter part would hold no read
      by_contra hlt
      have hcut : n + 1 ≤ (before ++ [Blocking.write question]).length := by
        simp only [List.length_append, List.length_cons, List.length_nil] at hlt ⊢
        omega
      have hsplit : before ++ [Blocking.write question, .readUntil delim] ++ after =
          (before ++ [.write question]) ++ (.readUntil delim :: after) := by simp
      rw [hsplit, List.take_append_of_le_length hcut] at hread
      obtain ⟨rest, hrest⟩ := List.take_prefix (n + 1) (before ++ [Blocking.write question])
      rw [← hrest, delimiters_append, hread] at hquestion
      cases hquestion
    · -- a longer one would hold it before
      by_contra hlt
      rw [List.take_append, List.take_of_length_le (by omega), delimiters_append, hdelims] at hnone
      cases hnone
  rw [← hlength, List.take_left, hwhole]

/-- The opener reads. -/
theorem Asks.reads (h : Asks delim question opener) : delimiters opener ≠ [] := by
  obtain ⟨before, after, -, rfl⟩ := h.first
  rw [delimiters_append, delimiters_append]
  intro hnil
  cases (List.append_eq_nil_iff.mp (List.append_eq_nil_iff.mp hnil).1).2

/-- The server has read nothing before its read. -/
theorem Answers.first_read (h : Answers delim answer server) {d : Bytes}
    (hn : server[n]? = some (.readUntil d)) : d = delim ∧ delimiters (server.take n) = [] := by
  have hread : delimiters (server.take (n + 1)) = delimiters (server.take n) ++ [d] := by
    rw [List.take_add_one, hn, delimiters_append]
    rfl
  have hfront := h.delimiters_take (n + 1)
  rw [hread] at hfront
  have hnone : delimiters (server.take n) = [] := by
    have hlen := hfront.length_le
    rw [List.length_append, List.length_singleton, List.length_singleton] at hlen
    exact List.length_eq_zero_iff.mp (by omega)
  rw [hnone, List.nil_append] at hfront
  exact ⟨List.singleton_inj.mp (hfront.eq_of_length rfl), hnone⟩

theorem Answers.texts_eq (h : Answers delim answer server) : texts server = answer := by
  obtain ⟨before, hquiet, rfl⟩ := h.script
  rw [texts_append, hquiet.texts_eq_nil]
  simp [texts, Blocking.text]

/-- A text that ends with its delimiter holds it. -/
theorem EndsWith.isInfix {text : Bytes} (h : EndsWith delim text) : delim <:+: text := by
  obtain ⟨body, rfl, -⟩ := h
  exact (List.suffix_append body delim).isInfix

end

namespace Link

section

variable {delim question answer : Bytes} {opener server : List Blocking} {x y : Link} {l : Label}

/-- Both sides leave nothing behind, and one that is closed is over. -/
structure Tidy (x : Link) : Prop where
  client : x.client.Settled x.up
  service : ∀ t ∈ x.service, t.Settled x.down
  silent : x.service = none → x.down.unsent = [] ∧ x.down.channel.closed = false

theorem tidy_opened (opener : List Blocking) : Tidy (opened opener) where
  client := (Talk.start opener).settled_begin rfl rfl
  service _ ht := absurd ht (Option.not_mem_none _)
  silent _ := ⟨rfl, rfl⟩

/-- Every step leaves both sides tidy. -/
theorem Tidy.step (hi : Tidy x) (h : Link.step server x l = some y) : Tidy y := by
  cases l with
  | accept =>
    obtain ⟨hnone, h⟩ := Option.ite_none_right_eq_some.mp h
    obtain rfl := Option.some.inj h
    obtain ⟨hunsent, hopen⟩ := hi.silent (Option.isNone_iff_eq_none.mp hnone)
    refine ⟨hi.client, fun t ht => ?_, fun hnone => absurd hnone (Option.some_ne_none _)⟩
    obtain rfl := Option.some.inj ht
    exact Talk.settled_begin _ hunsent hopen
  | client ec received =>
    obtain ⟨down, hdown, h⟩ := Option.bind_eq_some_iff.mp h
    obtain ⟨⟨t, up⟩, ha, rfl⟩ := Option.map_eq_some_iff.mp h
    refine ⟨hi.client.advance ha, fun t ht => (hi.service t ht).receive hdown, fun hnone => ?_⟩
    rw [(Wire.receive_eq_some hdown).2.2, (Wire.closed_receive hdown).1]
    exact hi.silent hnone
  | service ec received =>
    obtain ⟨service, hs, h⟩ := Option.bind_eq_some_iff.mp h
    obtain ⟨up, hup, h⟩ := Option.bind_eq_some_iff.mp h
    obtain ⟨⟨t, down⟩, ha, rfl⟩ := Option.map_eq_some_iff.mp h
    refine ⟨hi.client.receive hup, fun t' ht => ?_,
      fun hnone => absurd hnone (Option.some_ne_none _)⟩
    obtain rfl := Option.some.inj ht
    exact (hi.service service hs).advance ha
  | sendUp n =>
    obtain ⟨up, hup, rfl⟩ := Option.map_eq_some_iff.mp h
    exact ⟨hi.client.send hup, hi.service, hi.silent⟩
  | sendDown n =>
    obtain ⟨down, hdown, rfl⟩ := Option.map_eq_some_iff.mp h
    refine ⟨hi.client, fun t ht => (hi.service t ht).send hdown, fun hnone => ?_⟩
    obtain ⟨hunsent, -⟩ := hi.silent hnone
    obtain ⟨c, hc, rfl⟩ := Option.map_eq_some_iff.mp hdown
    refine ⟨?_, (Channel.send_eq_some hc).2.2.1⟩
    change x.down.unsent.drop n = []
    rw [hunsent, List.drop_nil]

/-- One of the two programs or the network can take the connection from here to there. -/
def Moves (server : List Blocking) (x y : Link) : Prop := ∃ l, Link.step server x l = some y

/-- The steps that are left until both programs are over. -/
def left (x : Link) : Nat := x.client.left + x.service.elim 0 Talk.left

/-- A client that is not reading can go on. -/
theorem Tidy.exists_client_finish (ht : Tidy x) (server : List Blocking) {op : Blocking}
    (hop : x.client.current = some op) (hread : op.delimiter = none) :
    ∃ y, Relation.ReflTransGen (Moves server) x y ∧
      y.client = { x.client with completed := x.client.completed + 1 } ∧
        y.service = x.service := by
  obtain ⟨mid, up, hsend, hadvance⟩ := ht.client.exists_finish hop hread
  have hsent : Link.step server x (.sendUp x.up.unsent.length) = some { x with up := mid } := by
    rw [Link.step, hsend]
    rfl
  have hdone : Link.step server { x with up := mid } (.client .success []) = some
      { x with
        up := up
        client := { x.client with completed := x.client.completed + 1 } } := by
    rw [Link.step, Talk.ends_success, Wire.receive_nil, Option.bind_some, hadvance]
    rfl
  exact ⟨_, .tail (.single ⟨_, hsent⟩) ⟨_, hdone⟩, rfl, rfl⟩

/-- A service that is not reading can go on. -/
theorem Tidy.exists_service_finish (ht : Tidy x) (server : List Blocking) {t : Talk}
    (hs : x.service = some t) {op : Blocking} (hop : t.current = some op)
    (hread : op.delimiter = none) :
    ∃ y, Relation.ReflTransGen (Moves server) x y ∧ y.client = x.client ∧
      y.service = some { t with completed := t.completed + 1 } := by
  obtain ⟨mid, down, hsend, hadvance⟩ := (ht.service t hs).exists_finish hop hread
  have hsent : Link.step server x (.sendDown x.down.unsent.length) =
      some { x with down := mid } := by
    rw [Link.step, hsend]
    rfl
  have hdone : Link.step server { x with down := mid } (.service .success []) = some
      { x with down := down, service := some { t with completed := t.completed + 1 } } := by
    rw [Link.step, hs, Option.bind_some, Talk.ends_success, Wire.receive_nil, Option.bind_some,
      hadvance]
    rfl
  exact ⟨_, .tail (.single ⟨_, hsent⟩) ⟨_, hdone⟩, rfl, rfl⟩

/-- A client that reads can take a whole answer. -/
theorem exists_client_read (server : List Blocking) (hd : delim ≠ [])
    (hop : x.client.current = some (.readUntil delim))
    (hdelivered : x.down.channel.delivered = []) (hi : delim <:+: x.down.channel.written) :
    ∃ y, Relation.ReflTransGen (Moves server) x y ∧ y.client =
      { x.client with
        completed := x.client.completed + 1
        reads := x.client.reads ++ [x.down.channel.written] } ∧ y.service = x.service := by
  obtain ⟨down, up, hreceive, hadvance⟩ := Talk.exists_read hd hop hdelivered hi x.up
  have hdone : Link.step server x (.client .success x.down.channel.written) = some
      { x with
        up := up
        down := down
        client :=
          { x.client with
            completed := x.client.completed + 1
            reads := x.client.reads ++ [x.down.channel.written] } } := by
    rw [Link.step, Talk.ends_success, hreceive, Option.bind_some, hadvance]
    rfl
  exact ⟨_, .single ⟨_, hdone⟩, rfl, rfl⟩

/-- A service that reads can take a whole question. -/
theorem exists_service_read (server : List Blocking) (hd : delim ≠ []) {t : Talk}
    (hs : x.service = some t)
    (hop : t.current = some (.readUntil delim)) (hdelivered : x.up.channel.delivered = [])
    (hi : delim <:+: x.up.channel.written) :
    ∃ y, Relation.ReflTransGen (Moves server) x y ∧ y.client = x.client ∧ y.service =
      some { t with
        completed := t.completed + 1
        reads := t.reads ++ [x.up.channel.written] } := by
  obtain ⟨up, down, hreceive, hadvance⟩ := Talk.exists_read hd hop hdelivered hi x.down
  have hdone : Link.step server x (.service .success x.up.channel.written) = some
      { x with
        up := up
        down := down
        service :=
          some { t with
            completed := t.completed + 1
            reads := t.reads ++ [x.up.channel.written] } } := by
    rw [Link.step, hs, Option.bind_some, Talk.ends_success, hreceive, Option.bind_some, hadvance]
    rfl
  exact ⟨_, .single ⟨_, hdone⟩, rfl, rfl⟩

/-- Neither side has failed. -/
structure Sound (x : Link) : Prop where
  client : x.client.failure = none
  service : ∃ t ∈ x.service, t.failure = none

/-- A client that has read nothing has completed no read. -/
theorem Joined.delimiters_of_reads (hi : Joined opener server x) (hreads : x.client.reads = []) :
    delimiters (opener.take x.client.completed) = [] := by
  have hlen := hi.hearsDown.found.length_eq
  rw [hreads, List.length_nil, hi.opener] at hlen
  exact List.length_eq_zero_iff.mp hlen

/-- The server has its turn while the client waits for its first answer. -/
theorem Joined.exists_server_move (hi : Joined opener server x) (ht : Tidy x) (hx : Sound x)
    (hasks : Asks delim question opener) (hanswers : Answers delim answer server)
    (hd : delim ≠ []) (hreads : x.client.reads = [])
    (hc : x.client.current = some (.readUntil delim)) :
    ∃ y, Relation.ReflTransGen (Moves server) x y ∧ Sound y ∧ y.left < x.left := by
  obtain ⟨hclient, t, hs, hservice⟩ := hx
  have hdown : x.down.channel.delivered = [] := by
    rw [← hi.hearsDown.exact hclient, hreads]
    rfl
  cases hop : t.current with
  | none =>
    -- the answer is written, and the client can take it
    have hlen := Talk.length_le_of_current hservice hop
    have hwritten : x.down.channel.written = answer := by
      have hexact := (hi.speaksDown t hs).exact hservice
      have hunsent := (ht.service t hs).unsent fun text hw => by
        rw [hop] at hw
        cases hw
      rw [hunsent, List.append_nil, List.take_of_length_le (by omega), hi.server t hs] at hexact
      exact hexact.trans hanswers.texts_eq
    obtain ⟨y, hpath, hyc, hys⟩ := exists_client_read server hd hc hdown
      (hwritten ▸ hanswers.endsWith.isInfix)
    refine ⟨y, hpath, ⟨by rw [hyc]; exact hclient, t, hys.trans hs, hservice⟩, ?_⟩
    rw [left, left, hyc, hys]
    exact Nat.add_lt_add_right (Talk.left_completed hc _) _
  | some op =>
    obtain ⟨-, hscript⟩ := Talk.current_eq_some hop
    rw [hi.server t hs] at hscript
    cases hread : op.delimiter with
    | none =>
      obtain ⟨y, hpath, hyc, hys⟩ := ht.exists_service_finish server hs hop hread
      refine ⟨y, hpath, ⟨by rw [hyc]; exact hclient, _, hys, hservice⟩, ?_⟩
      rw [left, left, hyc, hys, hs]
      exact Nat.add_lt_add_left (Talk.left_completed hop _) _
    | some d =>
      -- the question is written, and the server can take it
      obtain rfl := Blocking.eq_readUntil hread
      obtain ⟨rfl, hnone⟩ := hanswers.first_read hscript
      have hup : x.up.channel.delivered = [] := by
        have hlen := (hi.hearsUp t hs).found.length_eq
        rw [hi.server t hs, hnone] at hlen
        rw [← (hi.hearsUp t hs).exact hservice, List.length_eq_zero_iff.mp hlen.symm]
        rfl
      have hwritten : x.up.channel.written = question := by
        have hexact := hi.speaksUp.exact hclient
        have hunsent := ht.client.unsent fun text hw => by
          rw [hc] at hw
          cases hw
        rw [hunsent, List.append_nil, hi.opener] at hexact
        have hfirst := (Talk.current_eq_some hc).2
        rw [hi.opener] at hfirst
        exact hexact.trans (hasks.texts_of_read hfirst (hi.delimiters_of_reads hreads))
      obtain ⟨y, hpath, hyc, hys⟩ := exists_service_read server hd hs hop hup
        (hwritten ▸ hasks.endsWith.isInfix)
      refine ⟨y, hpath, ⟨by rw [hyc]; exact hclient, _, hys, hservice⟩, ?_⟩
      rw [left, left, hyc, hys, hs]
      exact Nat.add_lt_add_left (Talk.left_completed hop _) _

/-- A client that has read nothing is not over, and where it can only wait the server has its
turn. -/
theorem Joined.exists_move (hi : Joined opener server x) (ht : Tidy x) (hx : Sound x)
    (hasks : Asks delim question opener) (hanswers : Answers delim answer server)
    (hd : delim ≠ []) (hreads : x.client.reads = []) :
    ∃ y, Relation.ReflTransGen (Moves server) x y ∧ Sound y ∧ y.left < x.left := by
  obtain ⟨hclient, t, hs, hservice⟩ := hx
  have hnone := hi.delimiters_of_reads hreads
  cases hc : x.client.current with
  | none =>
    have hlen := Talk.length_le_of_current hclient hc
    rw [hi.opener] at hlen
    rw [List.take_of_length_le hlen] at hnone
    exact absurd hnone hasks.reads
  | some op =>
    cases hread : op.delimiter with
    | none =>
      obtain ⟨y, hpath, hyc, hys⟩ := ht.exists_client_finish server hc hread
      refine ⟨y, hpath, ⟨by rw [hyc]; exact hclient, t, hys.trans hs, hservice⟩, ?_⟩
      rw [left, left, hyc, hys]
      exact Nat.add_lt_add_right (Talk.left_completed hc _) _
    | some d =>
      obtain rfl := Blocking.eq_readUntil hread
      obtain ⟨-, hscript⟩ := Talk.current_eq_some hc
      rw [hi.opener] at hscript
      have hdelim : d = delim := by
        refine hasks.uniform d (List.mem_filterMap.mpr ⟨.readUntil d, ?_, rfl⟩)
        exact List.mem_of_getElem? hscript
      subst hdelim
      exact hi.exists_server_move ht ⟨hclient, t, hs, hservice⟩ hasks hanswers hd hreads hc

/-- What every step keeps holds after all of them. -/
theorem keep_of_moves {P : Link → Prop}
    (hstep : ∀ {x y l}, P x → Link.step server x l = some y → P y) (hx : P x)
    (hmoves : Relation.ReflTransGen (Moves server) x y) : P y := by
  induction hmoves with
  | refl => exact hx
  | tail _ hmove ih =>
    obtain ⟨l, hl⟩ := hmove
    exact hstep ih hl

/-- While neither side has failed, the client can get its answer. -/
theorem Joined.exists_answer (hi : Joined opener server x) (ht : Tidy x) (hx : Sound x)
    (hasks : Asks delim question opener) (hanswers : Answers delim answer server)
    (hd : delim ≠ []) :
    ∃ y, Relation.ReflTransGen (Moves server) x y ∧ y.client.reads ≠ [] := by
  induction hn : x.left using Nat.strongRecOn generalizing x with
  | ind n ih =>
    by_cases hreads : x.client.reads = []
    · obtain ⟨y, hpath, hy, hlt⟩ := hi.exists_move ht hx hasks hanswers hd hreads
      have hiy := keep_of_moves (P := Joined opener server) (fun h hs => h.step hs) hi hpath
      have hty := keep_of_moves (P := Tidy) (fun h hs => h.step hs) ht hpath
      obtain ⟨z, hrest, hz⟩ := ih y.left (hn ▸ hlt) hiy hty hy rfl
      exact ⟨z, hpath.trans hrest, hz⟩
    · exact ⟨x, .refl, hreads⟩

end

end Link

end BoostAsio

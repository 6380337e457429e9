import BoostAsio.Core.Stream.Completion
import BoostAsio.Core.Wire
import BoostAsio.Core.System.Run
import Mathlib.Data.List.Forall2

/-!
# Two programs of blocking operations over a connection

A program is a list of blocking operations, carried out one after the other up to the first
that fails; then, as at its end, its side of the connection is closed. Whatever the network
does, what one side has read is a first part of what the other side has come to write.
-/

namespace BoostAsio

/-- A blocking operation on a stream. -/
inductive Blocking
  | write (text : Bytes)
  /-- The read into a buffer of its own. -/
  | readUntil (delim : Bytes)
  /-- An exchange below the stream, such as a handshake. -/
  | negotiate
  deriving DecidableEq, Repr

namespace Blocking

/-- The text that an operation writes. -/
def text : Blocking → Bytes
  | .write text => text
  | .readUntil _ | .negotiate => []

/-- The delimiter that an operation reads up to. -/
def delimiter : Blocking → Option Bytes
  | .readUntil delim => some delim
  | .write _ | .negotiate => none

/-- What is left of an operation that has received something. -/
def keeps (received : Bytes) : Blocking → List Bytes
  | .readUntil _ => [received]
  | .write _ | .negotiate => []

/-- Whether an operation may complete in this way. -/
def Completes (ec : ErrorCode) (received : Bytes) : Blocking → Prop
  | .readUntil delim => CompletesUntil delim false [] ec received
  | .write _ | .negotiate => received = []

instance (ec : ErrorCode) (received : Bytes) : ∀ op : Blocking, Decidable (op.Completes ec received)
  | .readUntil _ => inferInstanceAs (Decidable (CompletesUntil _ _ _ _ _))
  | .write _ | .negotiate => inferInstanceAs (Decidable (received = []))

/-- Whether a completion tells of the end of the stream. -/
def ends (ec : ErrorCode) : Blocking → Bool
  | .readUntil _ => ec = .eof
  | .write _ | .negotiate => false

/-- What the completion of an operation does to the sending side. -/
def finish (ec : ErrorCode) (w : Wire UInt8) : Blocking → Option (Wire UInt8)
  | .write _ => w.complete (ec.value = 0)
  | .readUntil _ | .negotiate => some w

end Blocking

/-- What the operations of a program write. -/
def texts (script : List Blocking) : Bytes := script.flatMap Blocking.text

/-- The delimiters of a program's reads. -/
def delimiters (script : List Blocking) : List Bytes := script.filterMap Blocking.delimiter

@[simp] theorem texts_append (xs ys : List Blocking) : texts (xs ++ ys) = texts xs ++ texts ys :=
  List.flatMap_append

@[simp] theorem delimiters_append (xs ys : List Blocking) :
    delimiters (xs ++ ys) = delimiters xs ++ delimiters ys := List.filterMap_append

/-- How far a program has come, with the buffers of its reads. -/
structure Talk where
  script : List Blocking
  completed : Nat
  reads : List Bytes
  failure : Option ErrorCode
  deriving DecidableEq, Repr

namespace Talk

/-- A program before its first operation completes. -/
def start (script : List Blocking) : Talk := ⟨script, 0, [], none⟩

/-- The operation in progress. -/
def current (t : Talk) : Option Blocking :=
  if t.failure = none then t.script[t.completed]? else none

/-- The program is over. -/
def finished (t : Talk) : Bool := t.current.isNone

/-- The operation in progress has completed. -/
def complete (t : Talk) (op : Blocking) (ec : ErrorCode) (received : Bytes) : Talk :=
  if ec.value = 0 then
    { t with completed := t.completed + 1, reads := t.reads ++ op.keeps received }
  else { t with failure := some ec }

/-- The next operation begins, or the side is closed. -/
def begin (t : Talk) (w : Wire UInt8) : Wire UInt8 :=
  match t.current with
  | some (.write text) => w.offer text
  | some (.readUntil _) | some .negotiate => w
  | none => w.close

/-- The operation in progress completes and the next one begins. -/
def advance (t : Talk) (out : Wire UInt8) (ec : ErrorCode) (received : Bytes) :
    Option (Talk × Wire UInt8) :=
  t.current.bind fun op =>
    if op.Completes ec received then
      (op.finish ec out).map fun out =>
        (t.complete op ec received, (t.complete op ec received).begin out)
    else none

/-- Whether the completion tells of the end of the stream. -/
def ends (t : Talk) (ec : ErrorCode) : Bool := t.current.any (·.ends ec)

/-- What a program has handed over is what its operations write, up to the one in progress. -/
structure Speaks (t : Talk) (out : Wire UInt8) : Prop where
  within : out.channel.written ++ out.unsent <+: texts (t.script.take (t.completed + 1))
  exact : t.failure = none →
    out.channel.written ++ out.unsent = texts (t.script.take (t.completed + 1))
  quiet : t.failure = none → (∀ text, t.current ≠ some (.write text)) → out.unsent = []

/-- What a program's reads have left is what has arrived, and each holds its delimiter. -/
structure Hears (t : Talk) (inn : Wire UInt8) : Prop where
  within : t.reads.flatten <+: inn.channel.delivered
  exact : t.failure = none → t.reads.flatten = inn.channel.delivered
  found : List.Forall₂ (· <:+: ·) (delimiters (t.script.take t.completed)) t.reads

section

variable {t t' : Talk} {out out' inn inn' : Wire UInt8} {ec : ErrorCode} {received : Bytes}

theorem current_eq_some {op : Blocking} (h : t.current = some op) :
    t.failure = none ∧ t.script[t.completed]? = some op := by
  unfold current at h
  split at h
  · next hf => exact ⟨hf, h⟩
  · cases h

/-- One more operation writes one more text. -/
theorem texts_take_succ (t : Talk) (h : t.failure = none) :
    texts (t.script.take (t.completed + 1)) =
      texts (t.script.take t.completed) ++ t.current.elim [] Blocking.text := by
  have hcurrent : t.current = t.script[t.completed]? := if_pos h
  rw [List.take_add_one, texts_append, hcurrent]
  cases t.script[t.completed]? with
  | none => rfl
  | some op => simp [texts]

/-- The beginning of an operation delivers nothing and sends nothing yet. -/
theorem begin_eq (t : Talk) (w : Wire UInt8) :
    (t.begin w).channel.written = w.channel.written ∧
      (t.begin w).channel.delivered = w.channel.delivered ∧
      (t.begin w).unsent = match t.current with
        | some (.write text) => text
        | _ => w.unsent := by
  unfold begin
  cases t.current with
  | none => exact ⟨rfl, rfl, rfl⟩
  | some op => cases op <;> exact ⟨rfl, rfl, rfl⟩

/-- The beginning of an operation hands over its text, when nothing else is unsent. -/
theorem speaks_begin (hf : t.failure = none)
    (hwritten : out.channel.written = texts (t.script.take t.completed))
    (hunsent : out.unsent = []) : t.Speaks (t.begin out) := by
  obtain ⟨hsame, -, hnext⟩ := t.begin_eq out
  have hall : (t.begin out).channel.written ++ (t.begin out).unsent =
      texts (t.script.take (t.completed + 1)) := by
    rw [hsame, hwritten, texts_take_succ t hf, hnext, hunsent]
    cases t.current with
    | none => rfl
    | some op => cases op <;> rfl
  refine ⟨hall ▸ List.prefix_rfl, fun _ => hall, fun _ hread => ?_⟩
  rw [hnext, hunsent]
  split
  · next text hc => exact absurd hc (hread text)
  · rfl

theorem speaks_start (script : List Blocking) :
    (start script).Speaks ((start script).begin .new) := speaks_begin rfl rfl rfl

theorem Speaks.send (h : t.Speaks out) {n : Nat} (hs : out.send n = some out') :
    t.Speaks out' := by
  obtain ⟨hsame, -, hnil⟩ := Wire.send_eq_some hs
  exact ⟨hsame ▸ h.within, fun hf => hsame ▸ h.exact hf, fun hf hread => hnil (h.quiet hf hread)⟩

theorem Speaks.receive (h : t.Speaks out) {piece : Bytes} {ends : Bool}
    (hr : out.receive piece ends = some out') : t.Speaks out' := by
  obtain ⟨hwritten, -, hunsent⟩ := Wire.receive_eq_some hr
  refine ⟨?_, fun hf => ?_, fun hf hread => ?_⟩
  · rw [hwritten, hunsent]
    exact h.within
  · rw [hwritten, hunsent]
    exact h.exact hf
  · rw [hunsent]
    exact h.quiet hf hread

theorem advance_eq_some (h : t.advance out ec received = some (t', out')) :
    ∃ op mid, t.current = some op ∧ op.Completes ec received ∧ op.finish ec out = some mid ∧
      t' = t.complete op ec received ∧ out' = t'.begin mid := by
  obtain ⟨op, hop, h⟩ := Option.bind_eq_some_iff.mp h
  simp only [Option.ite_none_right_eq_some] at h
  obtain ⟨hcompletes, h⟩ := h
  obtain ⟨mid, hmid, he⟩ := Option.map_eq_some_iff.mp h
  obtain ⟨rfl, rfl⟩ := Prod.mk.inj he
  exact ⟨op, mid, hop, hcompletes, hmid, rfl, rfl⟩

/-- What the completion of an operation leaves of its text. -/
theorem finish_eq_some {op : Blocking} {w w' : Wire UInt8} (h : op.finish ec w = some w') :
    w'.channel = w.channel ∧ (w'.unsent = w.unsent ∨ w'.unsent = []) ∧
      ((∃ text, op = .write text) → ec.value = 0 → w.unsent = [] ∧ w'.unsent = []) ∧
      ((∀ text, op ≠ .write text) → w' = w) := by
  cases op with
  | write text =>
    obtain ⟨hchannel, hnil, hsent⟩ := Wire.complete_eq_some h
    exact ⟨hchannel, Or.inr hnil, fun _ hec => ⟨hsent (decide_eq_true hec), hnil⟩,
      fun hne => absurd rfl (hne text)⟩
  | readUntil | negotiate =>
    obtain rfl := Option.some.inj h
    refine ⟨rfl, Or.inl rfl, ?_, fun _ => rfl⟩
    rintro ⟨text, htext⟩
    cases htext

theorem Speaks.advance (h : t.Speaks out) (ha : t.advance out ec received = some (t', out')) :
    t'.Speaks out' := by
  obtain ⟨op, mid, hop, -, hmid, rfl, rfl⟩ := advance_eq_some ha
  obtain ⟨hf, hscript⟩ := current_eq_some hop
  obtain ⟨hchannel, hunsent, hwrites, hreads⟩ := finish_eq_some hmid
  by_cases hec : ec.value = 0
  · have hnext : t.complete op ec received =
        { t with completed := t.completed + 1, reads := t.reads ++ op.keeps received } :=
      if_pos hec
    have hempty : out.unsent = [] ∧ mid.unsent = [] := by
      by_cases hw : ∃ text, op = .write text
      · exact hwrites hw hec
      · have hno : ∀ text, op ≠ .write text := fun text ht => hw ⟨text, ht⟩
        have hquiet := h.quiet hf fun text ht => hno text (Option.some.inj (hop.symm.trans ht))
        rw [hreads hno]
        exact ⟨hquiet, hquiet⟩
    rw [hnext]
    refine speaks_begin hf ?_ hempty.2
    have hexact := h.exact hf
    rw [hempty.1, List.append_nil] at hexact
    rw [hchannel, hexact]
  · have hnext : t.complete op ec received = { t with failure := some ec } := if_neg hec
    rw [hnext]
    have hclosed : ({ t with failure := some ec } : Talk).begin mid = mid.close := rfl
    rw [hclosed]
    refine ⟨?_, nofun, nofun⟩
    change mid.channel.written ++ mid.unsent <+: texts (t.script.take (t.completed + 1))
    rw [hchannel]
    refine List.IsPrefix.trans ?_ h.within
    rcases hunsent with hu | hu
    · rw [hu]
    · rw [hu, List.append_nil]
      exact List.prefix_append ..

theorem hears_start (script : List Blocking) {inn : Wire UInt8}
    (h : inn.channel.delivered = []) : (start script).Hears inn := by
  refine ⟨List.nil_prefix, fun _ => h.symm, ?_⟩
  rw [start, List.take_zero]
  exact .nil

/-- What is sent does not change what has arrived. -/
theorem Hears.of_delivered (h : t.Hears inn)
    (hsame : inn'.channel.delivered = inn.channel.delivered) : t.Hears inn' := by
  refine ⟨?_, fun hf => ?_, h.found⟩
  · rw [hsame]
    exact h.within
  · rw [hsame]
    exact h.exact hf

/-- The completion of a read adds its buffer. -/
theorem Hears.advance (h : t.Hears inn) {ends : Bool}
    (hr : inn.receive received ends = some inn')
    (ha : t.advance out ec received = some (t', out')) : t'.Hears inn' := by
  obtain ⟨op, mid, hop, hcompletes, -, rfl, -⟩ := advance_eq_some ha
  obtain ⟨hf, hscript⟩ := current_eq_some hop
  obtain ⟨-, hdelivered, -⟩ := Wire.receive_eq_some hr
  by_cases hec : ec.value = 0
  · have hnext : t.complete op ec received =
        { t with completed := t.completed + 1, reads := t.reads ++ op.keeps received } :=
      if_pos hec
    have hkeeps : (op.keeps received).flatten = received := by
      cases op with
      | readUntil delim => exact List.flatten_singleton
      | write text | negotiate => exact Eq.symm hcompletes
    have hall : (t.reads ++ op.keeps received).flatten = inn'.channel.delivered := by
      rw [List.flatten_append, hkeeps, h.exact hf, hdelivered]
    have hfound : List.Forall₂ (· <:+: ·) op.delimiter.toList (op.keeps received) := by
      cases op with
      | readUntil delim => exact .cons (hcompletes.2.1 hec) .nil
      | write text | negotiate => exact .nil
    rw [hnext]
    refine ⟨hall ▸ List.prefix_rfl, fun _ => hall, ?_⟩
    have htake : t.script.take (t.completed + 1) = t.script.take t.completed ++ [op] := by
      rw [List.take_add_one, hscript]
      rfl
    have hdelims : delimiters [op] = op.delimiter.toList := by
      cases op <;> rfl
    simp only [htake, delimiters_append, hdelims]
    exact List.rel_append h.found hfound
  · have hnext : t.complete op ec received = { t with failure := some ec } := if_neg hec
    rw [hnext]
    refine ⟨?_, nofun, h.found⟩
    rw [hdelivered]
    exact h.within.trans (List.prefix_append ..)

theorem script_advance (ha : t.advance out ec received = some (t', out')) :
    t'.script = t.script := by
  obtain ⟨op, mid, -, -, -, rfl, -⟩ := advance_eq_some ha
  unfold complete
  split <;> rfl

/-- What has been read stays. -/
theorem reads_advance (ha : t.advance out ec received = some (t', out')) :
    t.reads <+: t'.reads := by
  obtain ⟨op, mid, -, -, -, rfl, -⟩ := advance_eq_some ha
  unfold complete
  split
  · exact List.prefix_append ..
  · exact List.prefix_rfl

/-- The other side's wire is not touched by what arrives here. -/
theorem delivered_advance (ha : t.advance out ec received = some (t', out')) :
    out'.channel.delivered = out.channel.delivered := by
  obtain ⟨op, mid, -, -, hmid, -, rfl⟩ := advance_eq_some ha
  rw [(t'.begin_eq mid).2.1, (finish_eq_some hmid).1]

end

end Talk

/-- A connection: the program that has opened it, the one that serves it once it is accepted,
and what is on its way between them. -/
structure Link where
  client : Talk
  service : Option Talk
  up : Wire UInt8
  down : Wire UInt8

namespace Link

/-- A connection that was opened by this program. -/
def opened (script : List Blocking) : Link :=
  ⟨.start script, none, (Talk.start script).begin .new, .new⟩

/-- The steps of the two programs and of the network. -/
inductive Label
  | accept
  | client (ec : ErrorCode) (received : Bytes)
  | service (ec : ErrorCode) (received : Bytes)
  | sendUp (n : Nat)
  | sendDown (n : Nat)
  deriving DecidableEq, Repr

/-- One step, when connections are served by this program. -/
def step (script : List Blocking) (x : Link) : Label → Option Link
  | .accept =>
    if x.service.isNone then
      some { x with service := some (.start script), down := (Talk.start script).begin x.down }
    else none
  | .client ec received =>
    (x.down.receive received (x.client.ends ec)).bind fun down =>
      (x.client.advance x.up ec received).map fun next =>
        { x with client := next.1, up := next.2, down := down }
  | .service ec received =>
    x.service.bind fun service =>
      (x.up.receive received (service.ends ec)).bind fun up =>
        (service.advance x.down ec received).map fun next =>
          { x with service := some next.1, up := up, down := next.2 }
  | .sendUp n => (x.up.send n).map fun up => { x with up := up }
  | .sendDown n => (x.down.send n).map fun down => { x with down := down }

/-- Each side hears what the other one says. -/
structure Joined (opener server : List Blocking) (x : Link) : Prop where
  opener : x.client.script = opener
  server : ∀ service ∈ x.service, service.script = server
  speaksUp : x.client.Speaks x.up
  speaksDown : ∀ service ∈ x.service, service.Speaks x.down
  silent : x.service = none → x.down.channel.written = [] ∧ x.down.unsent = []
  hearsDown : x.client.Hears x.down
  hearsUp : ∀ service ∈ x.service, service.Hears x.up
  unheard : x.service = none → x.up.channel.delivered = []

section

variable {opener server : List Blocking} {x y : Link} {l : Label}

theorem joined_opened (opener server : List Blocking) : Joined opener server (opened opener) where
  opener := rfl
  server := nofun
  speaksUp := Talk.speaks_start opener
  speaksDown := nofun
  silent _ := ⟨rfl, rfl⟩
  hearsDown := Talk.hears_start opener rfl
  hearsUp := nofun
  unheard _ := ((Talk.start opener).begin_eq .new).2.1

theorem Joined.accept (hi : Joined opener server x) (h : step server x .accept = some y) :
    Joined opener server y := by
  simp only [step, Option.ite_none_right_eq_some, Option.isNone_iff_eq_none] at h
  obtain ⟨hnone, h⟩ := h
  obtain rfl := Option.some.inj h
  obtain ⟨hwritten, hunsent⟩ := hi.silent hnone
  have hdelivered := ((Talk.start server).begin_eq x.down).2.1
  refine ⟨hi.opener, fun service hs => ?_, hi.speaksUp, fun service hs => ?_, nofun,
    hi.hearsDown.of_delivered hdelivered, fun service hs => ?_, nofun⟩
  · obtain rfl := Option.some.inj hs
    rfl
  · obtain rfl := Option.some.inj hs
    exact Talk.speaks_begin rfl hwritten hunsent
  · obtain rfl := Option.some.inj hs
    exact Talk.hears_start server (hi.unheard hnone)

theorem Joined.client (hi : Joined opener server x) {ec : ErrorCode} {received : Bytes}
    (h : step server x (.client ec received) = some y) : Joined opener server y := by
  obtain ⟨down, hdown, h⟩ := Option.bind_eq_some_iff.mp h
  obtain ⟨⟨t, up⟩, ha, h⟩ := Option.map_eq_some_iff.mp h
  subst h
  have hup := Talk.delivered_advance ha
  obtain ⟨hwritten, -, hunsent⟩ := Wire.receive_eq_some hdown
  refine ⟨(Talk.script_advance ha).trans hi.opener, hi.server, hi.speaksUp.advance ha,
    fun service hs => (hi.speaksDown service hs).receive hdown, fun hnone => ?_,
    hi.hearsDown.advance hdown ha, fun service hs => (hi.hearsUp service hs).of_delivered hup,
    fun hnone => hup.trans (hi.unheard hnone)⟩
  rw [hwritten, hunsent]
  exact hi.silent hnone

theorem Joined.service (hi : Joined opener server x) {ec : ErrorCode} {received : Bytes}
    (h : step server x (.service ec received) = some y) : Joined opener server y := by
  obtain ⟨service, hs, h⟩ := Option.bind_eq_some_iff.mp h
  obtain ⟨up, hup, h⟩ := Option.bind_eq_some_iff.mp h
  obtain ⟨⟨t, down⟩, ha, h⟩ := Option.map_eq_some_iff.mp h
  subst h
  have hdown := Talk.delivered_advance ha
  refine ⟨hi.opener, fun t' ht => ?_, hi.speaksUp.receive hup, fun t' ht => ?_, nofun,
    hi.hearsDown.of_delivered hdown, fun t' ht => ?_, nofun⟩
  · obtain rfl := Option.some.inj ht
    exact (Talk.script_advance ha).trans (hi.server service hs)
  · obtain rfl := Option.some.inj ht
    exact (hi.speaksDown service hs).advance ha
  · obtain rfl := Option.some.inj ht
    exact (hi.hearsUp service hs).advance hup ha

/-- Every step keeps the two sides joined. -/
theorem Joined.step (hi : Joined opener server x) (h : step server x l = some y) :
    Joined opener server y := by
  cases l with
  | accept => exact hi.accept h
  | client ec received => exact hi.client h
  | service ec received => exact hi.service h
  | sendUp n =>
    obtain ⟨up, hup, rfl⟩ := Option.map_eq_some_iff.mp h
    obtain ⟨-, hdelivered, -⟩ := Wire.send_eq_some hup
    exact ⟨hi.opener, hi.server, hi.speaksUp.send hup, hi.speaksDown, hi.silent, hi.hearsDown,
      fun service hs => (hi.hearsUp service hs).of_delivered hdelivered,
      fun hnone => hdelivered.trans (hi.unheard hnone)⟩
  | sendDown n =>
    obtain ⟨down, hdown, rfl⟩ := Option.map_eq_some_iff.mp h
    obtain ⟨hsame, hdelivered, -⟩ := Wire.send_eq_some hdown
    refine ⟨hi.opener, hi.server, hi.speaksUp,
      fun service hs => (hi.speaksDown service hs).send hdown, fun hnone => ?_,
      hi.hearsDown.of_delivered hdelivered, hi.hearsUp, hi.unheard⟩
    obtain ⟨hwritten, hunsent⟩ := hi.silent hnone
    rw [hwritten, hunsent, List.append_nil] at hsame
    exact List.append_eq_nil_iff.mp hsame

/-- Nothing but its own operations changes a service, and a connection stays accepted. -/
theorem service_step (h : Link.step server x l = some y) (hl : l ≠ .accept) :
    (y.service = none ↔ x.service = none) ∧
      ((∀ ec received, l ≠ .service ec received) → y.service = x.service) := by
  cases l with
  | accept => exact absurd rfl hl
  | client ec received =>
    obtain ⟨down, -, h⟩ := Option.bind_eq_some_iff.mp h
    obtain ⟨next, -, rfl⟩ := Option.map_eq_some_iff.mp h
    exact ⟨Iff.rfl, fun _ => rfl⟩
  | service ec received =>
    obtain ⟨service, hs, h⟩ := Option.bind_eq_some_iff.mp h
    obtain ⟨up, -, h⟩ := Option.bind_eq_some_iff.mp h
    obtain ⟨next, -, rfl⟩ := Option.map_eq_some_iff.mp h
    rw [hs]
    exact ⟨iff_of_false nofun nofun, fun hno => absurd rfl (hno ec received)⟩
  | sendUp n =>
    obtain ⟨up, -, rfl⟩ := Option.map_eq_some_iff.mp h
    exact ⟨Iff.rfl, fun _ => rfl⟩
  | sendDown n =>
    obtain ⟨down, -, rfl⟩ := Option.map_eq_some_iff.mp h
    exact ⟨Iff.rfl, fun _ => rfl⟩

/-- Accepting a connection starts its service. -/
theorem service_accept (h : Link.step server x .accept = some y) :
    x.service = none ∧ y.service = some (.start server) := by
  simp only [step, Option.ite_none_right_eq_some, Option.isNone_iff_eq_none] at h
  obtain ⟨hnone, h⟩ := h
  obtain rfl := Option.some.inj h
  exact ⟨hnone, rfl⟩

/-- What one side has heard is a first part of what the other one has come to say. -/
theorem heard_prefix {speaker hearer : Talk} {w : Wire UInt8} (hs : speaker.Speaks w)
    (hh : hearer.Hears w) :
    hearer.reads.flatten <+: texts (speaker.script.take (speaker.completed + 1)) := by
  have hdelivered : w.channel.delivered <+: w.channel.written :=
    ⟨w.channel.inFlight, w.channel.account.symm⟩
  exact (hh.within.trans hdelivered).trans ((List.prefix_append ..).trans hs.within)

end

end Link

end BoostAsio

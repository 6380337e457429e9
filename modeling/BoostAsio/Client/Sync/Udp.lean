import BoostAsio.Core.Stream.Numeral
import BoostAsio.Core.ErrorCode
import BoostAsio.Core.System.Run

/-!
# SyncUdpClient: answers over one socket

A call stores six bytes of the first datagram that arrives, whoever sent it, and shuts the
socket down behind it. The calls return the right answers exactly when there is at most one of
them, the first datagram is a short one of the endpoint it asks, and the shutdown succeeds.
-/

namespace BoostAsio.SyncUdpClient

open BoostAsio.System

/-- `asio::ip::udp::endpoint`. -/
structure Endpoint (Address : Type*) where
  address : Address
  port : UInt16
  deriving DecidableEq

/-- A datagram that arrives at the client. -/
structure Datagram (Address : Type*) where
  sender : Endpoint Address
  payload : Bytes
  deriving DecidableEq

/-- What the documentation leaves to the system: what the transfers do on a socket that is shut
down, and how shutting down a socket without a peer ends. -/
structure Platform (Address : Type*) where
  sendTo : ErrorCode
  receiveFrom :
    List (Datagram Address) → Except ErrorCode (Datagram Address) × List (Datagram Address)
  shutdown : ErrorCode
  /-- Whether a shutdown that fails shuts the socket down all the same. -/
  failedShutdownActs : Bool

/-- The open `m_sock`, with the datagrams that are still to be received in the order in which
they arrive. -/
structure Socket (Address : Type*) where
  isShutDown : Bool
  arrivals : List (Datagram Address)
  sent : List (Endpoint Address × Bytes)
  /-- Whether some operation found the socket shut down. -/
  usedShutDown : Bool

variable {Address : Type*}

/-- `m_sock` as the constructor leaves it. -/
def Socket.opened (arrivals : List (Datagram Address)) : Socket Address :=
  { isShutDown := false, arrivals, sent := [], usedShutDown := false }

/-- Every operation notes whether it finds the socket shut down. -/
def Socket.use (s : Socket Address) : Socket Address :=
  { s with usedShutDown := s.usedShutDown || s.isShutDown }

/-- `send_to`, which succeeds as long as the socket is not shut down. -/
def Socket.sendTo (request : Bytes) (ep : Endpoint Address) (p : Platform Address)
    (s : Socket Address) : ErrorCode × Socket Address :=
  let ec := if s.isShutDown then p.sendTo else .success
  (ec, { s.use with sent := if ec.failed then s.sent else s.sent ++ [(ep, request)] })

/-- `receive_from`: the next datagram, or nothing while none arrives. -/
def Socket.receiveFrom (p : Platform Address) (s : Socket Address) :
    Option (Except ErrorCode (Datagram Address) × Socket Address) :=
  if s.isShutDown then
    let received := p.receiveFrom s.arrivals
    some (received.1, { s.use with arrivals := received.2 })
  else
    match s.arrivals with
    | [] => none
    | d :: arrivals => some (.ok d, { s.use with arrivals })

/-- `shutdown` with `shutdown_both`. -/
def Socket.shutdown (p : Platform Address) (s : Socket Address) : ErrorCode × Socket Address :=
  let acts := !p.shutdown.failed || p.failedShutdownActs
  (p.shutdown, { s.use with isShutDown := s.isShutDown || acts })

/-- How a call ended, and the datagram that it took. -/
structure Outcome (Address : Type*) where
  result : Except ErrorCode Bytes
  taken : Option (Datagram Address)

/-- The request text of `EmulateLongComputationOp`. -/
def encodeRequest (durationSec : UInt32) : Bytes :=
  ascii "EMULATE_LONG_COMP_OP " ++ decimal durationSec.toNat ++ ascii "\n"

/-- The size of `response`. -/
def responseSize : Nat := 6

/-- `ReceiveResponse`: what does not fit into the buffer is dropped, and the sender is written
over the endpoint of the request, which nobody reads again. -/
def receiveResponse (p : Platform Address) (s : Socket Address) :
    Option (Outcome Address × Socket Address) :=
  (s.receiveFrom p).map fun
    | (.error ec, s) => (⟨.error ec, none⟩, s)
    | (.ok d, s) =>
      let (ec, s) := s.shutdown p
      (⟨if ec.failed then .error ec else .ok (d.payload.take responseSize), some d⟩, s)

/-- `EmulateLongComputationOp`; no outcome while the call waits. -/
def emulateLongComputationOp (durationSec : UInt32) (ip : Address) (port : UInt16)
    (p : Platform Address) (s : Socket Address) : Option (Outcome Address × Socket Address) :=
  let request := encodeRequest durationSec
  let ep : Endpoint Address := ⟨ip, port⟩
  let (ec, s) := s.sendTo request ep p
  if ec.failed then some (⟨.error ec, none⟩, s)
  else receiveResponse p s

/-- A call, and the system it meets. -/
structure Call (Address : Type*) where
  durationSec : UInt32
  ip : Address
  port : UInt16
  platform : Platform Address

/-- The endpoint that a call asks. -/
def Call.ep (c : Call Address) : Endpoint Address := ⟨c.ip, c.port⟩

/-- The next call on the client. A call that throws does not keep its caller from the next. -/
def step (s : Socket Address) (c : Call Address) :
    Option (Socket Address × List (Outcome Address)) :=
  (emulateLongComputationOp c.durationSec c.ip c.port c.platform s).map fun (o, s) => (s, [o])

/-- The call returned the complete payload of the datagram that it took, and that datagram is
from the endpoint that it asked. -/
def Right (c : Call Address) (o : Outcome Address) : Prop :=
  ∃ d, o.taken = some d ∧ d.sender = c.ep ∧ o.result = .ok d.payload

/-- All calls return the right answers, and none of their operations finds the socket shut
down. -/
def AnswersRight (calls : List (Call Address)) (arrivals : List (Datagram Address)) : Prop :=
  ∃ s outcomes, exec step (Socket.opened arrivals) calls = some (s, outcomes) ∧
    List.Forall₂ Right calls outcomes ∧ s.usedShutDown = false

/-- Every endpoint sends as many datagrams as it is asked. -/
def Answered [DecidableEq Address] (calls : List (Call Address))
    (arrivals : List (Datagram Address)) : Prop :=
  ∀ ep, (calls.map Call.ep).count ep ≤ (arrivals.map Datagram.sender).count ep

/-- A single call on a socket where the right answer arrives first, in one small datagram. -/
def SingleShort : List (Call Address) → List (Datagram Address) → Prop
  | [], _ => True
  | [c], d :: _ =>
    d.sender = c.ep ∧ d.payload.length ≤ responseSize ∧ c.platform.shutdown.failed = false
  | _, _ => False

section

variable {s t : Socket Address} {c : Call Address} {calls : List (Call Address)}
  {d : Datagram Address} {arrivals : List (Datagram Address)} {outcomes : List (Outcome Address)}

/-- A call on an open socket takes the first datagram. -/
theorem step_open (hopen : s.isShutDown = false) (hd : s.arrivals = d :: arrivals) :
    step s c = some
      ({ isShutDown := !c.platform.shutdown.failed || c.platform.failedShutdownActs, arrivals,
         sent := s.sent ++ [(c.ep, encodeRequest c.durationSec)],
         usedShutDown := s.usedShutDown },
       [⟨if c.platform.shutdown.failed then .error c.platform.shutdown
         else .ok (d.payload.take responseSize), some d⟩]) := by
  simp [step, emulateLongComputationOp, receiveResponse, Socket.sendTo, Socket.receiveFrom,
    Socket.shutdown, Socket.use, hopen, hd, ErrorCode.failed, ErrorCode.success, Call.ep]

/-- Without a datagram the call waits. -/
theorem step_waits (hopen : s.isShutDown = false) (hd : s.arrivals = []) : step s c = none := by
  simp [step, emulateLongComputationOp, receiveResponse, Socket.sendTo, Socket.receiveFrom,
    Socket.use, hopen, hd, ErrorCode.failed, ErrorCode.success]

@[simp] theorem Socket.sendTo_usedShutDown (request : Bytes) (ep : Endpoint Address)
    (p : Platform Address) (s : Socket Address) :
    (s.sendTo request ep p).2.usedShutDown = (s.usedShutDown || s.isShutDown) := rfl

@[simp] theorem Socket.shutdown_usedShutDown (p : Platform Address) (s : Socket Address) :
    (s.shutdown p).2.usedShutDown = (s.usedShutDown || s.isShutDown) := rfl

theorem Socket.receiveFrom_usedShutDown {p : Platform Address}
    {received : Except ErrorCode (Datagram Address)}
    (h : s.receiveFrom p = some (received, t)) :
    t.usedShutDown = (s.usedShutDown || s.isShutDown) := by
  unfold Socket.receiveFrom at h
  split at h
  · obtain ⟨-, rfl⟩ := Prod.mk.inj (Option.some.inj h)
    rfl
  · split at h
    · cases h
    · obtain ⟨-, rfl⟩ := Prod.mk.inj (Option.some.inj h)
      rfl

/-- Nothing takes the note back. -/
theorem receiveResponse_usedShutDown {p : Platform Address} {o : Outcome Address}
    (h : receiveResponse p s = some (o, t)) (hs : s.usedShutDown = true) :
    t.usedShutDown = true := by
  obtain ⟨⟨received, m⟩, hm, h⟩ := Option.map_eq_some_iff.mp h
  have hused : m.usedShutDown = true := by
    rw [Socket.receiveFrom_usedShutDown hm, hs, Bool.true_or]
  cases received with
  | error ec =>
    obtain ⟨-, rfl⟩ := Prod.mk.inj h
    exact hused
  | ok d =>
    have ht : t = (m.shutdown p).2 := (Prod.mk.inj h).2.symm
    rw [ht, Socket.shutdown_usedShutDown, hused, Bool.true_or]

/-- A call that finds the socket shut down, or used so before, notes it. -/
theorem step_usedShutDown {es : List (Outcome Address)} (h : step s c = some (t, es))
    (hs : (s.usedShutDown || s.isShutDown) = true) : t.usedShutDown = true := by
  obtain ⟨⟨o, m⟩, hm, h⟩ := Option.map_eq_some_iff.mp h
  obtain ⟨rfl, -⟩ := Prod.mk.inj h
  have hsent : (s.sendTo (encodeRequest c.durationSec) c.ep c.platform).2.usedShutDown = true := by
    rw [Socket.sendTo_usedShutDown, hs]
  unfold emulateLongComputationOp at hm
  dsimp only at hm
  split at hm
  · obtain ⟨-, rfl⟩ := Prod.mk.inj (Option.some.inj hm)
    exact hsent
  · exact receiveResponse_usedShutDown hm hsent

/-- So do all calls of a run together. -/
theorem exec_usedShutDown (h : exec step s calls = some (t, outcomes))
    (hs : s.usedShutDown = true) : t.usedShutDown = true := by
  induction calls generalizing s outcomes with
  | nil =>
    obtain ⟨rfl, -⟩ := Prod.mk.inj (Option.some.inj h)
    exact hs
  | cons c calls ih =>
    obtain ⟨m, es, fs, hm, hrest, -⟩ := exec_cons.mp h
    apply ih hrest
    apply step_usedShutDown hm
    rw [hs, Bool.true_or]

/-- The first call decides whether it is right by the first datagram. -/
theorem right_open_iff :
    Right c ⟨if c.platform.shutdown.failed then .error c.platform.shutdown
      else .ok (d.payload.take responseSize), some d⟩ ↔ SingleShort [c] (d :: arrivals) := by
  unfold SingleShort
  constructor
  · rintro ⟨e, he, hsender, hresult⟩
    obtain rfl := Option.some.inj he
    by_cases hfailed : c.platform.shutdown.failed
    · rw [if_pos hfailed] at hresult
      cases hresult
    · rw [if_neg hfailed] at hresult
      have hwhole := congrArg List.length (Except.ok.inj hresult)
      rw [List.length_take] at hwhole
      exact ⟨hsender, by omega, Bool.eq_false_iff.mpr hfailed⟩
  · rintro ⟨hsender, hshort, hok⟩
    refine ⟨d, rfl, hsender, ?_⟩
    rw [hok, List.take_of_length_le hshort]
    rfl

/-- Behind a right first answer the socket is shut down, and a second call uses it. -/
theorem not_answersRight_of_two (c e : Call Address) (calls : List (Call Address))
    (arrivals : List (Datagram Address)) : ¬AnswersRight (c :: e :: calls) arrivals := by
  rintro ⟨t, outcomes, hrun, hright, hunused⟩
  obtain ⟨m, es, fs, hfirst, hrest, rfl⟩ := exec_cons.mp hrun
  obtain ⟨n, gs, hs, hsecond, hlast, rfl⟩ := exec_cons.mp hrest
  cases arrivals with
  | nil =>
    rw [step_waits rfl rfl] at hfirst
    cases hfirst
  | cons d arrivals =>
    rw [step_open rfl rfl] at hfirst
    obtain ⟨rfl, rfl⟩ := Prod.mk.inj (Option.some.inj hfirst)
    have hsingle : SingleShort [c] [d] := right_open_iff.mp (List.forall₂_cons.mp hright).1
    have hok := hsingle.2.2
    have hused := step_usedShutDown hsecond (by simp [hok])
    have hused := exec_usedShutDown hlast hused
    rw [hused] at hunused
    cases hunused

/-- A single call. -/
theorem answersRight_single_iff : AnswersRight [c] arrivals ↔ SingleShort [c] arrivals := by
  cases arrivals with
  | nil =>
    refine iff_of_false ?_ id
    rintro ⟨t, outcomes, hrun, -, -⟩
    obtain ⟨m, es, fs, hfirst, -, -⟩ := exec_cons.mp hrun
    rw [step_waits rfl rfl] at hfirst
    cases hfirst
  | cons d arrivals =>
    rw [← right_open_iff]
    constructor
    · rintro ⟨t, outcomes, hrun, hright, -⟩
      obtain ⟨m, es, fs, hfirst, hrest, rfl⟩ := exec_cons.mp hrun
      rw [step_open rfl rfl] at hfirst
      obtain ⟨rfl, rfl⟩ := Prod.mk.inj (Option.some.inj hfirst)
      exact (List.forall₂_cons.mp hright).1
    · intro hright
      have hrun := exec_cons.mpr ⟨_, _, _, step_open (c := c) (s := Socket.opened (d :: arrivals))
        rfl rfl, exec_nil _, rfl⟩
      exact ⟨_, _, hrun, List.Forall₂.cons hright List.Forall₂.nil, rfl⟩

/-- For all calls, all datagrams that arrive and every system: the calls return the right
answers on an open socket exactly when there is no more than one of them, and the first datagram
is the whole answer to it. -/
theorem answersRight_iff (calls : List (Call Address)) (arrivals : List (Datagram Address)) :
    AnswersRight calls arrivals ↔ SingleShort calls arrivals := by
  match calls with
  | [] => exact iff_of_true ⟨_, _, exec_nil _, List.Forall₂.nil, rfl⟩ trivial
  | [c] => exact answersRight_single_iff
  | c :: e :: calls => exact iff_of_false (not_answersRight_of_two c e calls arrivals) id

end

/-- The two calls of `main`: both servers answer, and the second call finds the socket shut
down, so that its request cannot be sent. -/
theorem secondCall_finds_shutDown :
    let broken : ErrorCode := ⟨32, .system⟩
    let platform : Platform Bytes := ⟨broken, fun ds => (.error broken, ds), .success, false⟩
    let calls : List (Call Bytes) :=
      [⟨10, [127, 0, 0, 1], 3333, platform⟩, ⟨10, [192, 168, 1, 10], 3334, platform⟩]
    let arrivals : List (Datagram Bytes) :=
      [⟨⟨[127, 0, 0, 1], 3333⟩, ascii "OK\n"⟩, ⟨⟨[192, 168, 1, 10], 3334⟩, ascii "OK\n"⟩]
    Answered calls arrivals ∧ ¬AnswersRight calls arrivals := by
  intro broken platform calls arrivals
  have hanswered : Answered calls arrivals := fun ep => le_rfl
  have hwrong := not_answersRight_of_two ⟨10, [127, 0, 0, 1], 3333, platform⟩
    ⟨10, [192, 168, 1, 10], 3334, platform⟩ [] arrivals
  exact ⟨hanswered, hwrong⟩

end BoostAsio.SyncUdpClient

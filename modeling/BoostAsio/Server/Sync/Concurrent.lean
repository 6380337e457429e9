import BoostAsio.Core.Answerable
import BoostAsio.Core.System.Component
import BoostAsio.Server.Sync.Sequential
import BoostAsio.Server.Sync.ThreadPerClient

/-!
# The clients of the server with a thread for each of them

Clients connect to the server and call it, while its threads accept and serve them. Each
connection is where the thread of its service is, so what the two ends of a connection can do on
their own they can do among all the others. Nobody waits for a client that stays silent.
-/

namespace BoostAsio

namespace ConcurrentServer

open BoostAsio.System
open SyncTcpServerMt (ServiceId Service Point Event)

/-- `Service::HandleClient` as its connection sees it. -/
def handleClient : List Blocking := [.readUntil [lf], .write (ascii "Response\n")]

/-- The server with its connections: the k-th one that was accepted is the one of the k-th
service, and the others wait. -/
structure State where
  server : SyncTcpServerMt.State
  links : List Link
  backlog : List Link

/-- The next step of a thread, of a client or of the network. -/
inductive Label
  /-- A step of the server; a read receives these bytes. -/
  | server (l : SyncTcpServerMt.Label) (received : Bytes)
  /-- A client connects, to make at least one call. -/
  | connect (durationSec : UInt32) (durations : List UInt32)
  /-- The system drops a connection that broke before it was accepted. -/
  | drop (k : Nat)
  | waiting (k : Nat) (l : Link.Label)
  | link (s : ServiceId) (l : Link.Label)
  deriving DecidableEq, Repr

/-- `Server::Start`. -/
def start : State := ⟨SyncTcpServerMt.start, [], []⟩

/-- A step of one of these connections. -/
def modifyLink (links : List Link) (k : Nat) (l : Link.Label) : Option (List Link) :=
  (links[k]?.bind fun x => x.step handleClient l).map fun x => links.set k x

namespace State

/-- What a step of the server does to the connections; only its operations touch them. -/
def transfer (σ : State) (received : Bytes) : SyncTcpServerMt.Label → Option State
  | .accept ec =>
    if ec.failed then some σ
    else σ.backlog.head?.bind fun x => (x.step handleClient .accept).map fun x =>
      { σ with links := σ.links ++ [x], backlog := σ.backlog.tail }
  | .handler s (.readUntil ec) =>
    (modifyLink σ.links s (.service ec received)).map fun links => { σ with links := links }
  | .handler s (.write ec) =>
    (modifyLink σ.links s (.service ec [])).map fun links => { σ with links := links }
  | .main | .acceptor | .createThread _ | .handler _ .run => some σ

/-- Where the thread of a service is; the last connection may have no service yet. -/
def point (σ : State) (s : ServiceId) : Point :=
  σ.server.services[s]?.elim .created Service.point

/-- What the client and the network may do: the thread holds the socket to its end, and gives
out the response in its write. -/
def allows (σ : State) (s : ServiceId) (x : Link) : Link.Label → Bool
  | .accept | .service _ _ => false
  | .client ec _ => !x.client.ends ec || σ.point s = .ended
  | .sendUp _ => true
  | .sendDown _ => x.down.unsent.isEmpty || σ.point s = .write

end State

/-- The steps of a client that waits, and of its network. -/
def waits : Link.Label → Bool
  | .accept | .service _ _ => false
  | .client _ _ | .sendUp _ | .sendDown _ => true

/-- The step of a thread, of a client or of the network. -/
def advance (σ : State) : Label → Option (State × List Event)
  | .server l received =>
    (σ.transfer received l).bind fun τ =>
      (SyncTcpServerMt.step σ.server l).map fun next => ({ τ with server := next.1 }, next.2)
  | .connect durationSec durations =>
    if σ.server.acceptor = .returned then none
    else some ({ σ with
        backlog := σ.backlog ++ [.opened (SyncTcpClient.program (durationSec :: durations))] }, [])
  | .drop k => some ({ σ with backlog := σ.backlog.eraseIdx k }, [])
  | .waiting k l =>
    if waits l then
      (modifyLink σ.backlog k l).map fun links => ({ σ with backlog := links }, [])
    else none
  | .link s l =>
    if σ.links[s]?.any fun x => σ.allows s x l then
      (modifyLink σ.links s l).map fun links => ({ σ with links := links }, [])
    else none

/-- One step of the process with its clients. -/
def step (σ : State) (l : Label) : Option (State × List Event) :=
  if σ.server.over then none else advance σ l

/-- The operation that a thread is at. -/
def stage : Point → Option Blocking
  | .created | .started | .readUntil => some (.readUntil [lf])
  | .processing | .write => some (.write (ascii "Response\n"))
  | .caught _ | .deleteThis | .returning | .ended => none

/-- The operation behind one that succeeds. -/
def next : Blocking → Option Blocking
  | .readUntil _ => some (.write (ascii "Response\n"))
  | .write _ | .negotiate => none

/-- The connection is where the thread of its service is. -/
def Paired (p : Point) (x : Link) : Prop :=
  ∃ t, x.service = some t ∧ t.script = handleClient ∧ t.current = stage p

/-- A connection between a client and the service that answers it. -/
def Fits (x : Link) : Prop :=
  ∃ durationSec durations,
    x.Joined (SyncTcpClient.program (durationSec :: durations)) handleClient ∧
      x.Served (SyncTcpClient.encodeRequest durationSec) (ascii "Response\n") ∧ x.Tidy

/-- Every connection is where its thread is, and there is one for every service. -/
structure Joins (σ : State) : Prop where
  services_le : σ.server.services.length ≤ σ.links.length
  services_lt : σ.server.acceptor = .newService → σ.server.services.length < σ.links.length
  paired : ∀ s x, σ.links[s]? = some x → Paired (σ.point s) x
  links : ∀ x ∈ σ.links, Fits x
  backlog : ∀ x ∈ σ.backlog, Fits x

section

variable {σ τ : State} {s : ServiceId} {v w : Service} {x y : Link} {l : Link.Label} {k : Nat}
  {ec : ErrorCode} {received : Bytes} {labels : List Label} {es tr : List Event}
  {links links' : List Link}

theorem asks (durationSec : UInt32) (durations : List UInt32) :
    Asks [lf] (SyncTcpClient.encodeRequest durationSec)
      (SyncTcpClient.program (durationSec :: durations)) :=
  SequentialServer.asks .syncTcp durationSec durations

theorem answers : Answers [lf] (ascii "Response\n") handleClient :=
  SequentialServer.answers .syncTcp

theorem fits_opened (durationSec : UInt32) (durations : List UInt32) :
    Fits (.opened (SyncTcpClient.program (durationSec :: durations))) :=
  ⟨durationSec, durations, Link.joined_opened _ _, Link.served_opened _ _ _, Link.tidy_opened _⟩

/-- Every step of a connection keeps it. -/
theorem Fits.step (h : Fits x) (hstep : x.step handleClient l = some y) : Fits y := by
  obtain ⟨durationSec, durations, hjoined, hserved, htidy⟩ := h
  refine ⟨durationSec, durations, hjoined.step hstep, ?_, htidy.step hstep⟩
  exact hserved.step hjoined (asks ..) answers (List.cons_ne_nil lf []) hstep

theorem modifyLink_eq_some (h : modifyLink links k l = some links') :
    ∃ x y, links[k]? = some x ∧ x.step handleClient l = some y ∧ links' = links.set k y := by
  obtain ⟨y, hy, rfl⟩ := Option.map_eq_some_iff.mp h
  obtain ⟨x, hx, hstep⟩ := Option.bind_eq_some_iff.mp hy
  exact ⟨x, y, hx, hstep, rfl⟩

theorem fits_modifyLink (hi : ∀ x ∈ links, Fits x) (h : modifyLink links k l = some links') :
    ∀ x ∈ links', Fits x := by
  obtain ⟨x, y, hx, hstep, rfl⟩ := modifyLink_eq_some h
  intro z hz
  rcases List.mem_or_eq_of_mem_set hz with hz | rfl
  · exact hi z hz
  · exact (hi x (List.mem_of_getElem? hx)).step hstep

/-- The operation behind the one that completes. -/
theorem current_complete {t : Talk} {op : Blocking} (hscript : t.script = handleClient)
    (hop : t.current = some op) :
    (t.complete op ec received).current = if ec.failed then none else next op := by
  obtain ⟨hf, hget⟩ := Talk.current_eq_some hop
  rw [hscript] at hget
  by_cases hec : ec.value = 0
  · rw [Talk.complete, if_pos hec, if_neg (by simp [ErrorCode.failed, hec])]
    rw [Talk.current, if_pos hf, hscript]
    generalize t.completed = n at hget ⊢
    rcases n with _ | _ | n
    · obtain rfl := Option.some.inj hget
      rfl
    · obtain rfl := Option.some.inj hget
      rfl
    · cases hget
  · rw [Talk.complete, if_neg hec, if_pos (by simp [ErrorCode.failed, hec])]
    exact if_neg fun he => by cases he

/-- An operation of the thread takes its connection along. -/
theorem Paired.service {p q : Point} (h : Paired p x)
    (hstep : x.step handleClient (.service ec received) = some y)
    (hq : ∀ op, stage p = some op → stage q = if ec.failed then none else next op) :
    Paired q y := by
  obtain ⟨t, hs, hscript, hcurrent⟩ := h
  obtain ⟨t', hs', hstep⟩ := Option.bind_eq_some_iff.mp hstep
  obtain rfl := Option.some.inj (hs.symm.trans hs')
  obtain ⟨up, hup, hstep⟩ := Option.bind_eq_some_iff.mp hstep
  obtain ⟨⟨t', down⟩, ha, rfl⟩ := Option.map_eq_some_iff.mp hstep
  refine ⟨t', rfl, (Talk.script_advance ha).trans hscript, ?_⟩
  obtain ⟨op, mid, hop, -, -, rfl, -⟩ := Talk.advance_eq_some ha
  rw [hq op (hcurrent.symm.trans hop)]
  exact current_complete hscript hop

theorem Paired.readUntil (h : Paired .readUntil x)
    (hstep : x.step handleClient (.service ec received) = some y) :
    Paired (if ec.failed then .caught ec else .processing) y := by
  refine h.service hstep fun op hop => ?_
  cases hop
  split <;> rfl

theorem Paired.write (h : Paired .write x)
    (hstep : x.step handleClient (.service ec received) = some y) :
    Paired (if ec.failed then .caught ec else .ended) y := by
  refine h.service hstep fun op hop => ?_
  cases hop
  split <;> rfl

/-- What the client and the network do leaves it where it is. -/
theorem Paired.outside {p : Point} (h : Paired p x) (hl : waits l = true)
    (hstep : x.step handleClient l = some y) : Paired p y := by
  obtain ⟨t, hs, hscript, hcurrent⟩ := h
  refine ⟨t, ?_, hscript, hcurrent⟩
  have hl' : l ≠ .accept := by
    rintro rfl
    cases hl
  rw [(Link.service_step hstep hl').2 ?_, hs]
  rintro ec received rfl
  cases hl

theorem joins_start : Joins start where
  services_le := Nat.le_refl 0
  services_lt h := by cases h
  paired s x h := by cases h
  links x hx := absurd hx List.not_mem_nil
  backlog x hx := absurd hx List.not_mem_nil

/-- The threads move, and the connections stay where they are. -/
theorem Joins.of_stage (hi : Joins σ) {server : SyncTcpServerMt.State}
    (hle : server.services.length ≤ σ.links.length)
    (hlt : server.acceptor = .newService → server.services.length < σ.links.length)
    (hstage : ∀ s, stage ((⟨server, σ.links, σ.backlog⟩ : State).point s) = stage (σ.point s)) :
    Joins { σ with server := server } := by
  refine ⟨hle, hlt, fun s x hx => ?_, hi.links, hi.backlog⟩
  obtain ⟨t, hs, hscript, hcurrent⟩ := hi.paired s x hx
  exact ⟨t, hs, hscript, hcurrent.trans (hstage s).symm⟩

/-- Where a thread is behind a step of its own and of the others. -/
theorem point_set (σ : State) (hv : σ.server.services[s]? = some v) (w : Service) (r : ServiceId)
    (links backlog : List Link) :
    State.point ⟨{ σ.server with services := σ.server.services.set s w }, links, backlog⟩ r =
      if s = r then w.point else σ.point r := by
  have hs : s < σ.server.services.length := (List.getElem?_eq_some_iff.mp hv).1
  rw [State.point]
  by_cases hr : s = r
  · subst hr
    rw [List.getElem?_set_self hs, if_pos rfl]
    rfl
  · rw [List.getElem?_set_ne hr, if_neg hr]
    rfl

/-- A thread and its connection move together. -/
theorem Joins.handler (hi : Joins σ) (hv : σ.server.services[s]? = some v)
    (hx : σ.links[s]? = some x) (hy : Fits y) (hpaired : Paired w.point y) :
    Joins { σ with
      server := { σ.server with services := σ.server.services.set s w }
      links := σ.links.set s y } := by
  refine ⟨?_, fun h => ?_, fun r z hz => ?_, fun z hz => ?_, hi.backlog⟩
  · rw [List.length_set, List.length_set]
    exact hi.services_le
  · rw [List.length_set, List.length_set]
    exact hi.services_lt h
  · rw [point_set σ hv]
    by_cases hr : s = r
    · subst hr
      rw [List.getElem?_set_self (List.getElem?_eq_some_iff.mp hx).1] at hz
      obtain rfl := Option.some.inj hz
      rw [if_pos rfl]
      exact hpaired
    · rw [List.getElem?_set_ne hr] at hz
      rw [if_neg hr]
      exact hi.paired r z hz
  · rcases List.mem_or_eq_of_mem_set hz with hz | rfl
    · exact hi.links z hz
    · exact hy

/-- A step of a thread that is no operation leaves it at its operation. -/
theorem stage_run {s : ServiceId} (h : SyncTcpServerMt.handleClient s v .run = some (w, es)) :
    stage w.point = stage v.point := by
  obtain ⟨p, n⟩ := v
  cases p <;> cases h <;> rfl

/-- The service at which the thread of an operation is. -/
theorem handler_eq_some {a : SyncTcpServerMt.Action} {server : SyncTcpServerMt.State}
    (h : SyncTcpServerMt.step σ.server (.handler s a) = some (server, es)) :
    ∃ v w, σ.server.services[s]? = some v ∧ SyncTcpServerMt.handleClient s v a = some (w, es) ∧
      server = { σ.server with services := σ.server.services.set s w } := by
  obtain ⟨-, h⟩ := Option.ite_none_left_eq_some.mp h
  obtain ⟨v, hv, h⟩ := Option.bind_eq_some_iff.mp h
  obtain ⟨⟨w, fs⟩, hw, he⟩ := Option.map_eq_some_iff.mp h
  obtain ⟨rfl, rfl⟩ := Prod.mk.inj he
  exact ⟨v, w, hv, hw, rfl⟩

/-- A connection is accepted ahead of its service. -/
theorem Joins.accept (hi : Joins σ) {rest : List Link} {server : SyncTcpServerMt.State}
    (hbacklog : σ.backlog = x :: rest) (hstep : x.step handleClient .accept = some y)
    (hservices : server.services = σ.server.services) :
    Joins ⟨server, σ.links ++ [y], rest⟩ := by
  have hx : x ∈ σ.backlog := by
    rw [hbacklog]
    exact List.mem_cons_self
  have hle := hi.services_le
  have hpoint : ∀ r links backlog, State.point ⟨server, links, backlog⟩ r = σ.point r := by
    intro r links backlog
    rw [State.point, hservices]
    rfl
  refine ⟨?_, fun _ => ?_, fun r z hz => ?_, fun z hz => ?_, fun z hz => ?_⟩
  · rw [hservices, List.length_append]
    exact hle.trans (Nat.le_add_right _ _)
  · rw [hservices, List.length_append]
    exact Nat.lt_succ_of_le hle
  · rw [hpoint]
    rcases Nat.lt_or_ge r σ.links.length with hr | hr
    · rw [List.getElem?_append_left hr] at hz
      exact hi.paired r z hz
    · rw [List.getElem?_append_right hr, List.getElem?_singleton] at hz
      obtain ⟨-, hz⟩ := Option.ite_none_right_eq_some.mp hz
      obtain rfl := Option.some.inj hz
      refine ⟨.start handleClient, (Link.service_accept hstep).2, rfl, ?_⟩
      rw [State.point, List.getElem?_eq_none (hle.trans hr)]
      rfl
  · rcases List.mem_append.mp hz with hz | hz
    · exact hi.links z hz
    · rw [List.mem_singleton.mp hz]
      exact (hi.backlog x hx).step hstep
  · refine hi.backlog z ?_
    rw [hbacklog]
    exact List.mem_cons_of_mem x hz

section

variable {ρ : SyncTcpServerMt.State}

/-- A step that leaves the services alone, and the accepting thread outside of the construction
of the next one. -/
theorem Joins.of_services (hi : Joins σ) (hservices : ρ.services = σ.server.services)
    (hnew : ρ.acceptor = .newService → σ.server.acceptor = .newService) :
    Joins { σ with server := ρ } := by
  refine hi.of_stage ?_ (fun h => ?_) fun s => ?_
  · rw [hservices]
    exact hi.services_le
  · rw [hservices]
    exact hi.services_lt (hnew h)
  · rw [State.point, hservices]
    rfl

theorem Joins.main (hi : Joins σ)
    (hstep : SyncTcpServerMt.step σ.server .main = some (ρ, es)) :
    Joins { σ with server := ρ } := by
  obtain ⟨-, h⟩ := Option.ite_none_left_eq_some.mp hstep
  simp only [SyncTcpServerMt.advance] at h
  split at h
  · obtain ⟨rfl, -⟩ := Prod.mk.inj (Option.some.inj h)
    exact hi.of_services rfl id
  · obtain ⟨-, h⟩ := Option.ite_none_right_eq_some.mp h
    obtain ⟨rfl, -⟩ := Prod.mk.inj (Option.some.inj h)
    exact hi.of_services rfl id
  · cases h

/-- The new service is where a connection without one is. -/
theorem Joins.create (hi : Joins σ) (hpoint : σ.server.acceptor = .newService) :
    Joins { σ with
      server := { σ.server with
        services := σ.server.services ++ [.new]
        acceptor := .startHandlingClient σ.server.services.length } } := by
  refine hi.of_stage ?_ (fun hnew => by cases hnew) fun s => ?_
  · rw [List.length_append]
    exact hi.services_lt hpoint
  · simp only [State.point]
    rcases Nat.lt_trichotomy s σ.server.services.length with hs | rfl | hs
    · rw [List.getElem?_append_left hs]
    · rw [List.getElem?_concat_length, List.getElem?_eq_none (Nat.le_refl _)]
      rfl
    · rw [List.getElem?_eq_none hs.le, List.getElem?_eq_none]
      rw [List.length_append]
      exact hs

theorem Joins.acceptor (hi : Joins σ)
    (hstep : SyncTcpServerMt.step σ.server .acceptor = some (ρ, es)) :
    Joins { σ with server := ρ } := by
  obtain ⟨-, h⟩ := Option.ite_none_left_eq_some.mp hstep
  simp only [SyncTcpServerMt.advance] at h
  split at h
  · obtain ⟨rfl, -⟩ := Prod.mk.inj (Option.some.inj h)
    refine hi.of_services rfl fun hnew => ?_
    simp only at hnew
    split at hnew <;> cases hnew
  · next hpoint =>
    obtain ⟨rfl, -⟩ := Prod.mk.inj (Option.some.inj h)
    exact hi.create hpoint
  · obtain ⟨rfl, -⟩ := Prod.mk.inj (Option.some.inj h)
    exact hi.of_services rfl fun hnew => by cases hnew
  · cases h

/-- The accepting thread goes on to the next service with the first connection that waits. -/
theorem Joins.accepts (hi : Joins σ) (htransfer : σ.transfer received (.accept ec) = some τ)
    (hstep : SyncTcpServerMt.step σ.server (.accept ec) = some (ρ, es)) :
    Joins { τ with server := ρ } := by
  obtain ⟨-, h⟩ := Option.ite_none_left_eq_some.mp hstep
  simp only [SyncTcpServerMt.advance] at h
  split at h
  · obtain ⟨rfl, -⟩ := Prod.mk.inj (Option.some.inj h)
    simp only [State.transfer] at htransfer
    split at htransfer
    · next hec =>
      obtain rfl := Option.some.inj htransfer
      refine hi.of_services rfl fun hnew => ?_
      rw [if_pos hec] at hnew
      cases hnew
    · obtain ⟨x, hx, htransfer⟩ := Option.bind_eq_some_iff.mp htransfer
      obtain ⟨y, hy, rfl⟩ := Option.map_eq_some_iff.mp htransfer
      obtain ⟨rest, hbacklog⟩ := List.head?_eq_some_iff.mp hx
      simp only [hbacklog, List.tail_cons]
      exact hi.accept hbacklog hy rfl
  · cases h

/-- A thread that is created is at the read that its connection waits for. -/
theorem Joins.createThread (hi : Joins σ)
    (hfresh : ∀ s, σ.server.acceptor = .startHandlingClient s →
      σ.server.services[s]? = some .new) {created : Bool}
    (hstep : SyncTcpServerMt.step σ.server (.createThread created) = some (ρ, es)) :
    Joins { σ with server := ρ } := by
  obtain ⟨-, h⟩ := Option.ite_none_left_eq_some.mp hstep
  simp only [SyncTcpServerMt.advance] at h
  split at h
  · next s hpoint =>
    split at h
    · obtain ⟨rfl, -⟩ := Prod.mk.inj (Option.some.inj h)
      refine hi.of_stage ?_ (fun hnew => by cases hnew) fun r => ?_
      · rw [List.length_modify]
        exact hi.services_le
      · simp only [State.point, List.getElem?_modify]
        by_cases hr : s = r
        · subst hr
          rw [hfresh s hpoint]
          simp only [if_pos]
          rfl
        · simp [hr]
    · obtain ⟨rfl, -⟩ := Prod.mk.inj (Option.some.inj h)
      exact hi.of_services rfl fun hnew => by cases hnew
  · cases h

/-- A thread that makes no operation stays with its connection. -/
theorem Joins.run (hi : Joins σ)
    (hstep : SyncTcpServerMt.step σ.server (.handler s .run) = some (ρ, es)) :
    Joins { σ with server := ρ } := by
  obtain ⟨v, w, hv, hw, rfl⟩ := handler_eq_some hstep
  refine hi.of_stage ?_ (fun hnew => ?_) fun r => ?_
  · rw [List.length_set]
    exact hi.services_le
  · rw [List.length_set]
    exact hi.services_lt hnew
  · rw [point_set σ hv]
    by_cases hr : s = r
    · subst hr
      rw [if_pos rfl, stage_run hw, State.point, hv]
      rfl
    · rw [if_neg hr]

theorem Joins.readUntil (hi : Joins σ)
    (htransfer : σ.transfer received (.handler s (.readUntil ec)) = some τ)
    (hstep : SyncTcpServerMt.step σ.server (.handler s (.readUntil ec)) = some (ρ, es)) :
    Joins { τ with server := ρ } := by
  obtain ⟨v, w, hv, hw, rfl⟩ := handler_eq_some hstep
  obtain ⟨links, hlinks, rfl⟩ := Option.map_eq_some_iff.mp htransfer
  obtain ⟨x, y, hx, hy, rfl⟩ := modifyLink_eq_some hlinks
  refine hi.handler hv hx ((hi.links x (List.mem_of_getElem? hx)).step hy) ?_
  have hpaired := hi.paired s x hx
  simp only [SyncTcpServerMt.handleClient] at hw
  split at hw
  · next hpoint =>
    obtain ⟨rfl, -⟩ := Prod.mk.inj (Option.some.inj hw)
    rw [State.point, hv, Option.elim_some, hpoint] at hpaired
    exact hpaired.readUntil hy
  · cases hw

theorem Joins.write (hi : Joins σ)
    (htransfer : σ.transfer received (.handler s (.write ec)) = some τ)
    (hstep : SyncTcpServerMt.step σ.server (.handler s (.write ec)) = some (ρ, es)) :
    Joins { τ with server := ρ } := by
  obtain ⟨v, w, hv, hw, rfl⟩ := handler_eq_some hstep
  obtain ⟨links, hlinks, rfl⟩ := Option.map_eq_some_iff.mp htransfer
  obtain ⟨x, y, hx, hy, rfl⟩ := modifyLink_eq_some hlinks
  refine hi.handler hv hx ((hi.links x (List.mem_of_getElem? hx)).step hy) ?_
  have hpaired := hi.paired s x hx
  simp only [SyncTcpServerMt.handleClient] at hw
  split at hw
  · next hpoint =>
    rw [State.point, hv, Option.elim_some, hpoint] at hpaired
    have hnext := hpaired.write hy
    split at hw
    · next hec =>
      obtain ⟨rfl, -⟩ := Prod.mk.inj (Option.some.inj hw)
      rwa [if_pos hec] at hnext
    · next hec =>
      obtain ⟨rfl, -⟩ := Prod.mk.inj (Option.some.inj hw)
      rwa [if_neg hec] at hnext
  · cases hw

/-- Every step of the server keeps them together. -/
theorem Joins.server (hi : Joins σ) (hfresh : ∀ s, σ.server.acceptor = .startHandlingClient s →
      σ.server.services[s]? = some .new)
    {l : SyncTcpServerMt.Label} (htransfer : σ.transfer received l = some τ)
    (hstep : SyncTcpServerMt.step σ.server l = some (ρ, es)) :
    Joins { τ with server := ρ } := by
  cases l with
  | main =>
    obtain rfl := Option.some.inj htransfer
    exact hi.main hstep
  | acceptor =>
    obtain rfl := Option.some.inj htransfer
    exact hi.acceptor hstep
  | accept ec => exact hi.accepts htransfer hstep
  | createThread created =>
    obtain rfl := Option.some.inj htransfer
    exact hi.createThread hfresh hstep
  | handler s a =>
    cases a with
    | run =>
      obtain rfl := Option.some.inj htransfer
      exact hi.run hstep
    | readUntil ec => exact hi.readUntil htransfer hstep
    | write ec => exact hi.write htransfer hstep

end

/-- The step of the server in a step of the process. -/
def Label.server? : Label → Option SyncTcpServerMt.Label
  | .server l _ => some l
  | .connect _ _ | .drop _ | .waiting _ _ | .link _ _ => none

/-- The server is the one that is modelled without its connections. -/
theorem server_partOf : PartOf step SyncTcpServerMt.step State.server Label.server? some := by
  intro σ a τ es h
  obtain ⟨-, h⟩ := Option.ite_none_left_eq_some.mp h
  rw [List.filterMap_some]
  cases a with
  | server l received =>
    obtain ⟨mid, -, h⟩ := Option.bind_eq_some_iff.mp h
    obtain ⟨⟨server, fs⟩, hserver, he⟩ := Option.map_eq_some_iff.mp h
    obtain ⟨rfl, rfl⟩ := Prod.mk.inj he
    exact (exec_singleton σ.server l).trans hserver
  | connect durationSec durations =>
    obtain ⟨-, h⟩ := Option.ite_none_left_eq_some.mp h
    obtain ⟨rfl, rfl⟩ := Prod.mk.inj (Option.some.inj h)
    rfl
  | drop k =>
    obtain ⟨rfl, rfl⟩ := Prod.mk.inj (Option.some.inj h)
    rfl
  | waiting k l | link s l =>
    obtain ⟨-, h⟩ := Option.ite_none_right_eq_some.mp h
    obtain ⟨links, -, he⟩ := Option.map_eq_some_iff.mp h
    obtain ⟨rfl, rfl⟩ := Prod.mk.inj he
    rfl

/-- The client and the network of a connection leave it at its thread. -/
theorem Joins.link (hi : Joins σ) (hl : waits l = true)
    (h : modifyLink σ.links s l = some links) : Joins { σ with links := links } := by
  have hfits := fits_modifyLink hi.links h
  obtain ⟨x, y, hx, hstep, rfl⟩ := modifyLink_eq_some h
  refine ⟨?_, fun hnew => ?_, fun r z hz => ?_, hfits, hi.backlog⟩
  · rw [List.length_set]
    exact hi.services_le
  · rw [List.length_set]
    exact hi.services_lt hnew
  · by_cases hr : s = r
    · subst hr
      rw [List.getElem?_set_self (List.getElem?_eq_some_iff.mp hx).1] at hz
      obtain rfl := Option.some.inj hz
      exact (hi.paired s x hx).outside hl hstep
    · rw [List.getElem?_set_ne hr] at hz
      exact hi.paired r z hz

/-- Every step of the process keeps the connections with their threads. -/
theorem Joins.step (hi : Joins σ) (hfresh : ∀ s, σ.server.acceptor = .startHandlingClient s →
      σ.server.services[s]? = some .new) {a : Label}
    (h : ConcurrentServer.step σ a = some (τ, es)) : Joins τ := by
  obtain ⟨-, h⟩ := Option.ite_none_left_eq_some.mp h
  cases a with
  | server l received =>
    obtain ⟨mid, hmid, h⟩ := Option.bind_eq_some_iff.mp h
    obtain ⟨⟨server, fs⟩, hserver, he⟩ := Option.map_eq_some_iff.mp h
    obtain ⟨rfl, rfl⟩ := Prod.mk.inj he
    exact hi.server hfresh hmid hserver
  | connect durationSec durations =>
    obtain ⟨-, h⟩ := Option.ite_none_left_eq_some.mp h
    obtain ⟨rfl, rfl⟩ := Prod.mk.inj (Option.some.inj h)
    refine ⟨hi.services_le, hi.services_lt, hi.paired, hi.links, fun x hx => ?_⟩
    rcases List.mem_append.mp hx with hx | hx
    · exact hi.backlog x hx
    · rw [List.mem_singleton.mp hx]
      exact fits_opened ..
  | drop k =>
    obtain ⟨rfl, rfl⟩ := Prod.mk.inj (Option.some.inj h)
    refine ⟨hi.services_le, hi.services_lt, hi.paired, hi.links, fun x hx => ?_⟩
    exact hi.backlog x (List.mem_of_mem_eraseIdx hx)
  | waiting k l =>
    obtain ⟨-, h⟩ := Option.ite_none_right_eq_some.mp h
    obtain ⟨links, hlinks, he⟩ := Option.map_eq_some_iff.mp h
    obtain ⟨rfl, rfl⟩ := Prod.mk.inj he
    exact ⟨hi.services_le, hi.services_lt, hi.paired, hi.links, fits_modifyLink hi.backlog hlinks⟩
  | link s l =>
    obtain ⟨hallows, h⟩ := Option.ite_none_right_eq_some.mp h
    obtain ⟨links, hlinks, he⟩ := Option.map_eq_some_iff.mp h
    obtain ⟨rfl, rfl⟩ := Prod.mk.inj he
    refine hi.link ?_ hlinks
    obtain ⟨x, -, hx⟩ := (Option.any_eq_true _ _).mp hallows
    cases l with
    | accept | service ec received => cases hx
    | client ec received | sendUp n | sendDown n => rfl

/-- In every run, the connections are where their threads are. -/
theorem joins_of_exec (h : exec step start labels = some (σ, tr)) : Joins σ := by
  refine exec_induction (P := fun _ σ _ => Joins σ) joins_start ?_ h
  intro as m tr a t es hm hi hstep
  exact hi.step (SyncTcpServerMt.kept_of_exec (server_partOf.exec hm)).fresh hstep

namespace State

/-- The same state, but for one thread and its connection. -/
def withConnection (σ : State) (s : ServiceId) (v : Service) (x : Link) : State :=
  { σ with
    server := { σ.server with services := σ.server.services.set s v }
    links := σ.links.set s x }

end State

/-- The steps of the thread of a service, of its client and of the network between them. -/
def Label.Concerns (s : ServiceId) : Label → Prop
  | .server (.handler r _) _ | .link r _ => r = s
  | .server _ _ | .connect _ _ | .drop _ | .waiting _ _ => False

/-- Where a thread waits for its next operation or has ended. -/
def ready : Point → Point
  | .created => .created
  | .started | .readUntil => .readUntil
  | .processing | .write => .write
  | .caught _ | .deleteThis | .returning | .ended => .ended

/-- A thread with its connection, somewhere in this state. -/
structure Alone (σ : State) (s : ServiceId) (x : Link) (v : Service) : Prop where
  alive : ¬σ.server.over
  service : s < σ.server.services.length
  link : s < σ.links.length
  started : v.point ≠ .created
  paired : Paired v.point x
  tidy : x.Tidy

/-- The step of a thread where it is alone. -/
theorem Alone.handler (h : Alone σ s x v) (received : Bytes) {a : SyncTcpServerMt.Action}
    (hw : SyncTcpServerMt.handleClient s v a = some (w, es))
    (htransfer : (σ.withConnection s v x).transfer received (.handler s a) =
      some (σ.withConnection s v y)) :
    step (σ.withConnection s v x) (.server (.handler s a) received) =
      some (σ.withConnection s w y, es) := by
  have hv : (σ.server.services.set s v)[s]? = some v := List.getElem?_set_self h.service
  have hover : ¬(σ.withConnection s v x).server.over := h.alive
  have hserver : SyncTcpServerMt.step (σ.withConnection s v x).server (.handler s a) =
      some ((σ.withConnection s w x).server, es) := by
    rw [SyncTcpServerMt.step, if_neg hover]
    simp only [SyncTcpServerMt.advance, State.withConnection, hv, Option.bind_some, hw,
      Option.map_some, List.set_set]
  rw [step, if_neg hover, advance, htransfer, Option.bind_some, hserver]
  rfl

/-- The thread comes to its next operation or to its end on its own. -/
def GetsReady (σ : State) (s : ServiceId) (x : Link) (v : Service) : Prop :=
  ∃ as tr w, (∀ a ∈ as, Label.Concerns s a) ∧
    exec step (σ.withConnection s v x) as = some (σ.withConnection s w x, tr) ∧
      Alone σ s x w ∧ w.point = ready v.point

/-- One step of the thread ahead of the others. -/
theorem Alone.run (h : Alone σ s x v)
    (hw : SyncTcpServerMt.handleClient s v .run = some (w, es)) (hstarted : w.point ≠ .created)
    (hready : ready w.point = ready v.point) (hrest : Alone σ s x w → GetsReady σ s x w) :
    GetsReady σ s x v := by
  have hpaired : Paired w.point x := by
    obtain ⟨t, hs, hscript, hcurrent⟩ := h.paired
    exact ⟨t, hs, hscript, hcurrent.trans (stage_run hw).symm⟩
  have hstep := h.handler [] hw rfl
  obtain ⟨as, tr, u, hown, hexec, hu, hpoint⟩ :=
    hrest ⟨h.alive, h.service, h.link, hstarted, hpaired, h.tidy⟩
  refine ⟨_ :: as, es ++ tr, u, ?_, exec_cons.mpr ⟨_, es, tr, hstep, hexec, rfl⟩, hu,
    hpoint.trans hready⟩
  intro a ha
  rcases List.mem_cons.mp ha with rfl | ha
  · rfl
  · exact hown a ha

theorem Alone.stay (h : Alone σ s x v) (hready : v.point = ready v.point) : GetsReady σ s x v :=
  ⟨[], [], v, fun _ ha => absurd ha List.not_mem_nil, rfl, h, hready⟩

theorem Alone.getsReady (h : Alone σ s x v) : GetsReady σ s x v := by
  obtain ⟨p, n⟩ := v
  have hreturning : ∀ {n}, Alone σ s x ⟨.returning, n⟩ → GetsReady σ s x ⟨.returning, n⟩ :=
    fun h => h.run rfl (fun he => by cases he) rfl fun h => h.stay rfl
  have hdelete : ∀ {n}, Alone σ s x ⟨.deleteThis, n⟩ → GetsReady σ s x ⟨.deleteThis, n⟩ :=
    fun h => h.run rfl (fun he => by cases he) rfl hreturning
  cases p with
  | created => exact absurd rfl h.started
  | started | processing => exact h.run rfl (fun he => by cases he) rfl fun h => h.stay rfl
  | readUntil | write | ended => exact h.stay rfl
  | caught ec => exact h.run rfl (fun he => by cases he) rfl hdelete
  | deleteThis => exact hdelete h
  | returning => exact hreturning h

theorem ready_ready (p : Point) : ready (ready p) = ready p := by
  cases p <;> rfl

theorem Alone.link_eq (h : Alone σ s x v) :
    (σ.withConnection s v x).links[s]? = some x := List.getElem?_set_self h.link

theorem Alone.point_eq (h : Alone σ s x v) : (σ.withConnection s v x).point s = v.point := by
  have hv : (σ.withConnection s v x).server.services[s]? = some v :=
    List.getElem?_set_self h.service
  rw [State.point, hv]
  rfl

/-- A step of its connection. -/
theorem Alone.modifyLink_eq (h : Alone σ s x v) (hstep : x.step handleClient l = some y) :
    modifyLink (σ.withConnection s v x).links s l = some (σ.withConnection s v y).links := by
  rw [modifyLink, h.link_eq, Option.bind_some, hstep]
  simp only [State.withConnection, Option.map_some, List.set_set]

/-- One step of the thread, of its client or of their network takes the connection there. -/
def Goes (σ : State) (s : ServiceId) (v : Service) (x y : Link) : Prop :=
  ∃ a tr w, Label.Concerns s a ∧
    step (σ.withConnection s v x) a = some (σ.withConnection s w y, tr) ∧ Alone σ s y w

/-- The client or the network moves. -/
theorem Alone.outside (h : Alone σ s x v) (hstep : x.step handleClient l = some y)
    (hallows : (σ.withConnection s v x).allows s x l = true) (hl : waits l = true) :
    Goes σ s v x y := by
  refine ⟨.link s l, [], v, rfl, ?_, h.alive, h.service, h.link, h.started,
    h.paired.outside hl hstep, h.tidy.step hstep⟩
  have hover : ¬(σ.withConnection s v x).server.over := h.alive
  rw [step, if_neg hover, advance, h.link_eq, h.modifyLink_eq hstep, Option.any_some,
    if_pos hallows]
  rfl

/-- What a thread that is ready waits for tells where it is. -/
theorem ready_cases {p : Point} (hready : p = ready p) (hp : p ≠ .created) :
    p = .readUntil ∧ stage p = some (.readUntil [lf]) ∨
      p = .write ∧ stage p = some (.write (ascii "Response\n")) ∨ p = .ended ∧ stage p = none := by
  cases p with
  | created => exact absurd rfl hp
  | readUntil => exact Or.inl ⟨rfl, rfl⟩
  | write => exact Or.inr (Or.inl ⟨rfl, rfl⟩)
  | ended => exact Or.inr (Or.inr ⟨rfl, rfl⟩)
  | started | processing | caught _ | deleteThis | returning => cases hready

/-- An operation of the thread with its connection. -/
theorem Alone.operate (h : Alone σ s x v) (received : Bytes) {a : SyncTcpServerMt.Action}
    (hw : SyncTcpServerMt.handleClient s v a = some (w, es))
    (htransfer : (σ.withConnection s v x).transfer received (.handler s a) =
      some (σ.withConnection s v y))
    (hstarted : w.point ≠ .created) (hpaired : Paired w.point y) (htidy : y.Tidy) :
    Goes σ s v x y :=
  ⟨.server (.handler s a) received, es, w, rfl, h.handler received hw htransfer, h.alive, h.service,
    h.link, hstarted, hpaired, htidy⟩

/-- The thread carries out its operation. -/
theorem Alone.serve (h : Alone σ s x v) (hready : v.point = ready v.point)
    (hstep : x.step handleClient (.service ec received) = some y) : Goes σ s v x y := by
  obtain ⟨t, hs, -, hcurrent⟩ := h.paired
  obtain ⟨t', hs', hservice⟩ := Option.bind_eq_some_iff.mp hstep
  obtain rfl := Option.some.inj (hs.symm.trans hs')
  obtain ⟨up, -, hservice⟩ := Option.bind_eq_some_iff.mp hservice
  obtain ⟨next, ha, -⟩ := Option.map_eq_some_iff.mp hservice
  obtain ⟨op, mid, hop, hcompletes, -⟩ := Talk.advance_eq_some ha
  have hpaired := h.paired
  rcases ready_cases hready h.started with ⟨hpoint, hstage⟩ | ⟨hpoint, hstage⟩ | ⟨-, hstage⟩
  · rw [hpoint] at hpaired
    have hw : SyncTcpServerMt.handleClient s v (.readUntil ec) =
        some ({ v with point := if ec.failed then .caught ec else .processing }, []) := by
      rw [SyncTcpServerMt.handleClient, hpoint]
    refine h.operate received hw ?_ ?_ (hpaired.readUntil hstep) (h.tidy.step hstep)
    · rw [State.transfer, h.modifyLink_eq hstep]
      rfl
    · change (if ec.failed then Point.caught ec else .processing) ≠ .created
      split <;> exact fun he => by cases he
  · rw [hpoint] at hpaired
    -- a write receives nothing
    rw [hcurrent, hstage] at hop
    obtain rfl := Option.some.inj hop
    obtain rfl : received = [] := hcompletes
    have hnext := hpaired.write hstep
    have htransfer : (σ.withConnection s v x).transfer [] (.handler s (.write ec)) =
        some (σ.withConnection s v y) := by
      rw [State.transfer, h.modifyLink_eq hstep]
      rfl
    cases hec : ec.failed with
    | true =>
      rw [if_pos hec] at hnext
      have hw : SyncTcpServerMt.handleClient s v (.write ec) =
          some ({ v with point := .caught ec }, []) := by
        rw [SyncTcpServerMt.handleClient, hpoint]
        exact if_pos hec
      exact h.operate [] hw htransfer (fun he => by cases he) hnext (h.tidy.step hstep)
    | false =>
      rw [if_neg (Bool.eq_false_iff.mp hec)] at hnext
      have hw : SyncTcpServerMt.handleClient s v (.write ec) =
          some ({ v with point := .ended }, [.sent s (ascii "Response\n")]) := by
        rw [SyncTcpServerMt.handleClient, hpoint]
        exact if_neg (Bool.eq_false_iff.mp hec)
      exact h.operate [] hw htransfer (fun he => by cases he) hnext (h.tidy.step hstep)
  · rw [hcurrent, hstage] at hop
    cases hop

/-- Wherever a connection can move on its own, it can move among the others. -/
theorem follows (σ : State) (s : ServiceId) :
    Follows (Link.Moves handleClient) step (Label.Concerns s) fun x τ =>
      ∃ v, Alone σ s x v ∧ τ = σ.withConnection s v x := by
  rintro x y _ ⟨v, hv, rfl⟩ ⟨l, hl⟩
  obtain ⟨as, tr, w, hown, hexec, hw, hpoint⟩ := hv.getsReady
  have hready : w.point = ready w.point := by rw [hpoint, ready_ready]
  suffices Goes σ s w x y by
    obtain ⟨a, tr', u, ha, hstep, hu⟩ := this
    refine ⟨as ++ [a], _, tr ++ tr', ?_, exec_snoc.mpr ⟨_, tr, tr', hexec, hstep, rfl⟩, u, hu, rfl⟩
    intro b hb
    rcases List.mem_append.mp hb with hb | hb
    · exact hown b hb
    · rw [List.mem_singleton.mp hb]
      exact ha
  obtain ⟨t, hs, hscript, hcurrent⟩ := hw.paired
  have hsettled := hw.tidy.service t hs
  cases l with
  | accept =>
    have hnone := (Link.service_accept hl).1
    rw [hs] at hnone
    cases hnone
  | client ec received =>
    refine hw.outside hl ?_ rfl
    rw [State.allows, hw.point_eq]
    cases hends : x.client.ends ec with
    | false => rfl
    | true =>
      -- the end comes behind the thread
      obtain ⟨down, hdown, -⟩ := Option.bind_eq_some_iff.mp hl
      have hclosed := (Wire.closed_receive hdown).2 hends
      have hover := hcurrent.symm.trans (hsettled.closed hclosed)
      rcases ready_cases hready hw.started with ⟨-, hstage⟩ | ⟨-, hstage⟩ | ⟨hended, -⟩
      · rw [hstage] at hover
        cases hover
      · rw [hstage] at hover
        cases hover
      · rw [hended]
        rfl
  | service ec received => exact hw.serve hready hl
  | sendUp n => exact hw.outside hl rfl rfl
  | sendDown n =>
    refine hw.outside hl ?_ rfl
    rw [State.allows, hw.point_eq, Bool.or_eq_true, List.isEmpty_iff]
    rcases ready_cases hready hw.started with ⟨-, hstage⟩ | ⟨hwrite, -⟩ | ⟨-, hstage⟩
    · refine Or.inl (hsettled.unsent fun text hc => ?_)
      rw [hcurrent, hstage] at hc
      cases hc
    · exact Or.inr (decide_eq_true hwrite)
    · refine Or.inl (hsettled.unsent fun text hc => ?_)
      rw [hcurrent, hstage] at hc
      cases hc

/-- Whatever the other clients do, a client whose thread has begun can get the answer to its
first request, and nobody else has to move for it: the thread, the client and the network
between them can do it alone. -/
theorem answered_alone (h : exec step start labels = some (σ, tr)) (hover : ¬σ.server.over)
    (hv : σ.server.services[s]? = some v) (hstarted : v.point ≠ .created)
    (hx : σ.links[s]? = some x) (hsound : x.Sound) :
    ∃ durationSec durations,
      x.client.script = SyncTcpClient.program (durationSec :: durations) ∧
        ∃ as es w y, (∀ a ∈ as, Label.Concerns s a) ∧
          exec step σ as = some (σ.withConnection s w y, es) ∧
            SequentialServer.requests y = [SyncTcpClient.encodeRequest durationSec] ∧
              SequentialServer.responses y = [.ok (ascii "Response")] := by
  have hi := joins_of_exec h
  obtain ⟨hs, hv'⟩ := List.getElem?_eq_some_iff.mp hv
  obtain ⟨hs', hx'⟩ := List.getElem?_eq_some_iff.mp hx
  have hpaired := hi.paired s x hx
  rw [State.point, hv] at hpaired
  obtain ⟨durationSec, durations, hjoined, hserved, htidy⟩ := hi.links x (List.mem_of_getElem? hx)
  have hdelim : [lf] ≠ ([] : Bytes) := List.cons_ne_nil lf []
  obtain ⟨y, hmoves, hreads⟩ :=
    hjoined.exists_answer htidy hsound (asks durationSec durations) answers hdelim
  have hhere : σ = σ.withConnection s v x := by
    rw [State.withConnection, ← hv', ← hx', List.set_getElem_self, List.set_getElem_self]
  obtain ⟨as, _, es, hown, hexec, w, -, rfl⟩ := (follows σ s).run
    ⟨v, ⟨hover, hs, hs', hstarted, hpaired, htidy⟩, hhere⟩ hmoves
  obtain ⟨hjoined', hserved'⟩ : y.Joined (SyncTcpClient.program (durationSec :: durations))
      handleClient ∧ y.Served (SyncTcpClient.encodeRequest durationSec) (ascii "Response\n") := by
    refine Link.keep_of_moves (P := fun z =>
      z.Joined (SyncTcpClient.program (durationSec :: durations)) handleClient ∧
        z.Served (SyncTcpClient.encodeRequest durationSec) (ascii "Response\n")) ?_
      ⟨hjoined, hserved⟩ hmoves
    rintro z z' l ⟨hj, hs⟩ hstep
    exact ⟨hj.step hstep, hs.step hj (asks ..) answers hdelim hstep⟩
  obtain ⟨t, ht, hrequest⟩ := hserved'.order hreads
  refine ⟨durationSec, durations, hjoined.opener, as, es, w, y, hown, hexec, ?_, ?_⟩
  · rw [SequentialServer.requests, ht]
    exact hrequest
  · rw [SequentialServer.responses, hserved'.answered.resolve_left hreads, List.map_singleton]
    rfl

end

/-- A client connects, and the thread of its service begins to read. -/
def serveNext (s : SyncTcpServerMt.ServiceId) (durationSec : UInt32) : List Label :=
  .connect durationSec [] :: (SyncTcpServerMt.connect s).map (.server · [])

/-- Two clients connect, and the first one stays silent. -/
def silentClientSchedule : List Label := serveNext 0 10 ++ serveNext 1 20

/-- The second client can get its answer. -/
theorem silentClientSchedule_answers : ∃ σ tr as es w y,
    exec step start silentClientSchedule = some (σ, tr) ∧
      (∀ a ∈ as, Label.Concerns 1 a) ∧
        exec step σ as = some (σ.withConnection 1 w y, es) ∧
          SequentialServer.requests y = [SyncTcpClient.encodeRequest 20] ∧
            SequentialServer.responses y = [.ok (ascii "Response")] := by
  obtain ⟨⟨σ, tr⟩, hrun, hover, hv, x, hx, hscript, hclient, hservice⟩ :
      ∃ p ∈ exec step start silentClientSchedule, ¬p.1.server.over ∧
        p.1.server.services[1]? = some ⟨.readUntil, 0⟩ ∧ ∃ x ∈ p.1.links[1]?,
          x.client.script = SyncTcpClient.program [20] ∧ x.client.failure = none ∧
            ∃ t ∈ x.service, t.failure = none := by decide +kernel
  obtain ⟨durationSec, durations, hsame, as, es, w, y, hown, hexec, hrequests, hresponses⟩ :=
    answered_alone hrun hover hv (fun he => by cases he) hx ⟨hclient, hservice⟩
  rw [hscript] at hsame
  have hrequest : SyncTcpClient.encodeRequest 20 = SyncTcpClient.encodeRequest durationSec :=
    Blocking.write.inj (List.cons.inj hsame).1
  rw [← hrequest] at hrequests
  exact ⟨σ, tr, as, es, w, y, hrun, hown, hexec, hrequests, hresponses⟩

end ConcurrentServer

end BoostAsio

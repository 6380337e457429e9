import BoostAsio.Async.Exchange
import BoostAsio.Server.Async.Lifecycle

/-!
# Every session gets the answer to its own request

A service reads what the session of its connection has written, and the session reads what the
service has sent. The request ends with its only line feed and so does the answer; hence who
has read a line has read the whole text of the other end.
-/

namespace BoostAsio.AsyncExchange

open BoostAsio.System
open AsyncTcpClient (SessionId deliveries)
open AsyncTcpServer (ServiceId SocketId)

/-- What the sessions have written and read. -/
structure Sessions (labels : List Label) (x : State) : Prop where
  born : ∀ s, (x.connections s).made = true ∨ (x.connections s).accepted = true →
    s < x.client.count
  written : ∀ s, (x.connections s).up.written <+: (x.client.sessions s).request
  fresh : ∀ s, x.client.count ≤ s → (x.connections s).up.written = []
  delivered : ∀ s, ((deliveries s (clientLabels labels)).map fun d => d.2.2).flatten =
    (x.connections s).down.delivered
  found : ∀ s, ∀ d ∈ deliveries s (clientLabels labels),
    (d.1 ≠ .read → d.2.2 = []) ∧ (d.1 = .read → d.2.1.value = 0 → lf ∈ d.2.2)

/-- What the services have read and sent. -/
structure Services (x : State) : Prop where
  held : ∀ v < x.server.count, ∃ s, x.peers (x.server.sock v) = some s
  handed : ∀ t ec sock, x.server.threads t = .onAccept ec sock → ec.value = 0 →
    ∃ s, x.peers sock = some s
  free : ∀ sock, sock ∈ x.server.accepts ∨ x.server.sockets ≤ sock → x.peers sock = none
  once : ∀ sock s, x.peers sock = some s → (x.connections s).accepted = true ∧
    ∀ other, x.peers other = some s → other = sock
  sent : ∀ sock s, x.peers sock = some s →
    (x.connections s).down.written = x.server.sent sock
  silent : ∀ s, (∀ sock, x.peers sock ≠ some s) → (x.connections s).down.written = []
  read : ∀ v s, x.peer v = some s →
    (x.server.services v).request = (x.connections s).up.delivered
  unread : ∀ s, (∀ v, x.peer v ≠ some s) → (x.connections s).up.delivered = []
  understood : ∀ t ec v, x.server.threads t = .onRequestReceived ec v → ec.value = 0 →
    lf ∈ (x.server.services v).request
  responded : ∀ v < x.server.count, (x.server.services v).response = [] ∨
    (x.server.services v).response = ascii "Response\n" ∧ lf ∈ (x.server.services v).request

section

variable {n size : Nat} {x y : State} {labels : List Label} {tr es : List Event}
  {s : SessionId} {v w : ServiceId} {sock : SocketId}

theorem sessions_init : Sessions [] .init where
  born s h := by
    rcases h with h | h
    · cases h
    · cases h
  written _ := List.nil_prefix
  fresh _ _ := rfl
  delivered _ := rfl
  found _ _ h := absurd h List.not_mem_nil

theorem peer_eq_some (h : x.peer v = some s) :
    v < x.server.count ∧ x.peers (x.server.sock v) = some s :=
  Option.ite_none_right_eq_some.mp h

theorem services_init : Services .init where
  held v h := absurd h (Nat.not_lt_zero v)
  handed _ _ _ h := by cases h
  free _ _ := rfl
  once _ _ h := by cases h
  sent _ _ h := by cases h
  silent _ _ := rfl
  read v s h := absurd (peer_eq_some h).1 (Nat.not_lt_zero v)
  unread _ _ := rfl
  understood _ _ _ h := by cases h
  responded v h := absurd h (Nat.not_lt_zero v)

/-- What has been written and read by the sessions does not depend on the rest. -/
theorem Sessions.congr (hi : Sessions labels x) {labels' : List Label}
    (hlabels : clientLabels labels' = clientLabels labels) (hclient : y.client = x.client)
    (hborn : ∀ s, (y.connections s).made = true ∨ (y.connections s).accepted = true →
      s < x.client.count)
    (hup : ∀ s, (y.connections s).up.written = (x.connections s).up.written)
    (hdown : ∀ s, (y.connections s).down.delivered = (x.connections s).down.delivered) :
    Sessions labels' y where
  born s h := hclient ▸ hborn s h
  written s := by
    rw [hup, hclient]
    exact hi.written s
  fresh s h := by
    rw [hup]
    exact hi.fresh s (hclient ▸ h)
  delivered s := by
    rw [hlabels, hdown]
    exact hi.delivered s
  found s := by
    rw [hlabels]
    exact hi.found s

/-- What a change of one connection leaves of it is left of all. -/
theorem update_keep {α : Type*} {connections : SessionId → Connection} {r : SessionId}
    {c : Connection} (part : Connection → α) (hc : part c = part (connections r))
    (s : SessionId) : part (Function.update connections r c s) = part (connections s) := by
  by_cases hs : s = r
  · rw [hs, Function.update_self, hc]
  · rw [Function.update_of_ne hs]

/-- What a step of the client leaves of a connection. -/
theorem ClientSide.connection {l : AsyncTcpClient.Label} (h : ClientSide x l y) (s : SessionId) :
    (y.connections s).up.written = (x.connections s).up.written ∧
      (y.connections s).up.delivered = (x.connections s).up.delivered ∧
      (y.connections s).down.written = (x.connections s).down.written ∧
      (y.connections s).made = (x.connections s).made ∧
      (y.connections s).accepted = (x.connections s).accepted := by
  cases h with
  | still => exact ⟨rfl, rfl, rfl, rfl, rfl⟩
  | complete hc =>
    obtain ⟨hup, hmade, haccepted, hwritten, -⟩ := Connection.complete_eq_some hc
    exact ⟨update_keep (·.up.written) (by rw [hup]) s, update_keep (·.up.delivered) (by rw [hup]) s,
      update_keep (·.down.written) hwritten s, update_keep (·.made) hmade s,
      update_keep (·.accepted) haccepted s⟩
  | shutdown =>
    exact ⟨update_keep (·.up.written) (by rfl) s, update_keep (·.up.delivered) (by rfl) s,
      update_keep (·.down.written) (by rfl) s, update_keep (·.made) (by rfl) s,
      update_keep (·.accepted) (by rfl) s⟩

/-- A step of the client takes what it completes from the connections of its sessions. -/
theorem ClientSide.delivered {l : AsyncTcpClient.Label} (h : ClientSide x l y) (s : SessionId) :
    (y.connections s).down.delivered =
      (x.connections s).down.delivered ++ (l.delivery s).elim [] fun d => d.2.2 := by
  cases h with
  | still hnone => simp [hnone]
  | @complete t r p ec received c hc =>
    by_cases hr : s = r
    · subst hr
      simp [AsyncTcpClient.Label.delivery, (Connection.complete_eq_some hc).2.2.2.2.1]
    · simp [AsyncTcpClient.Label.delivery, hr, Ne.symm hr]
  | @shutdown t r =>
    by_cases hr : s = r
    · subst hr
      simp [AsyncTcpClient.Label.delivery]
    · simp [AsyncTcpClient.Label.delivery, hr]

/-- Only a read brings something, and with success it brings a line, as the buffer was empty. -/
theorem ClientSide.found {l : AsyncTcpClient.Label} {σ : AsyncTcpClient.State}
    {fs ctr : List AsyncTcpClient.Event} {ls : List AsyncTcpClient.Label}
    (hrun : AsyncTcpClient.Run n ls x.client ctr) (hside : ClientSide x l y)
    (hstep : AsyncTcpClient.Step n x.client l σ fs)
    {d : AsyncTcpClient.Operation × ErrorCode × Bytes} (hd : l.delivery s = some d) :
    (d.1 ≠ .read → d.2.2 = []) ∧ (d.1 = .read → d.2.1.value = 0 → lf ∈ d.2.2) := by
  cases hside with
  | still hnone =>
    rw [hnone] at hd
    cases hd
  | @complete t r p ec received c hc =>
    obtain ⟨-, -, -, -, -, hother, hread⟩ := Connection.complete_eq_some hc
    obtain ⟨rfl, hsome⟩ := Option.ite_none_right_eq_some.mp hd
    obtain rfl := Option.some.inj hsome
    cases hstep with
    | deliver _ _ hp =>
      have hbuf := (hrun.answers.pending r p hp).2.2.1
      rw [hbuf, List.nil_append] at hread
      exact ⟨hother, hread⟩
  | shutdown => cases hd

/-- A step of the client. -/
theorem Sessions.client (hi : Sessions labels x) {l : AsyncTcpClient.Label}
    {σ : AsyncTcpClient.State} {fs ctr : List AsyncTcpClient.Event}
    (hrun : AsyncTcpClient.Run n (clientLabels labels) x.client ctr)
    (hside : ClientSide x l y) (hstep : AsyncTcpClient.Step n x.client l σ fs) :
    Sessions (labels ++ [.client l]) { y with client := σ } := by
  have hlabels : clientLabels (labels ++ [.client l]) = clientLabels labels ++ [l] := by
    simp [clientLabels, Label.client?]
  have hwritten : ∀ s, (y.connections s).up.written = (x.connections s).up.written :=
    fun s => (hside.connection s).1
  refine ⟨fun s hs => ?_, fun s => ?_, fun s hs => ?_, fun s => ?_, fun s d hd => ?_⟩
  · obtain ⟨-, -, -, hmade, haccepted⟩ := hside.connection s
    refine (hi.born s ?_).trans_le hstep.count_le
    rw [← hmade, ← haccepted]
    exact hs
  · change (y.connections s).up.written <+: (σ.sessions s).request
    rw [hwritten]
    by_cases hs : s = x.client.count
    · rw [hi.fresh s hs.ge]
      exact List.nil_prefix
    · rw [hstep.request_eq hs]
      exact hi.written s
  · change (y.connections s).up.written = []
    rw [hwritten]
    exact hi.fresh s (hstep.count_le.trans hs)
  · change _ = (y.connections s).down.delivered
    rw [hlabels, AsyncTcpClient.deliveries_append, List.map_append, List.flatten_append,
      hi.delivered s, hside.delivered]
    cases l.delivery s <;> simp
  · rw [hlabels, AsyncTcpClient.deliveries_append] at hd
    rcases List.mem_append.mp hd with hd | hd
    · exact hi.found s d hd
    · exact hside.found hrun hstep (Option.mem_toList.mp hd)

/-- Some of a request goes out. -/
theorem Sessions.send (hi : Sessions labels x) {m : Nat} {up : Channel UInt8}
    (hscoped : AsyncTcpClient.Scoped x.client) (hwaits : x.waits s .write = true)
    (hup : (x.connections s).up.send (((x.client.sessions s).request.drop
      (x.connections s).up.written.length).take m) = some up) :
    Sessions (labels ++ [.send s m])
      { x with
        connections := Function.update x.connections s { x.connections s with up := up } } := by
  have hlabels : clientLabels (labels ++ [.send s m]) = clientLabels labels := by
    simp [clientLabels, Label.client?]
  obtain ⟨hwritten, -⟩ := Channel.send_eq_some hup
  have hborn : s < x.client.count := by
    refine hscoped.pending s fun hnil => ?_
    rw [State.waits, hnil] at hwaits
    cases hwaits
  refine ⟨fun r hr => ?_, fun r => ?_, fun r hr => ?_, fun r => ?_, fun r => ?_⟩
  · refine hi.born r ?_
    by_cases hs : r = s
    · subst hs
      simpa using hr
    · simpa [hs] using hr
  · by_cases hr : r = s
    · subst hr
      simp only [Function.update_self, hwritten]
      obtain ⟨rest, hrest⟩ := hi.written r
      rw [← hrest, List.drop_left]
      exact (List.prefix_append_right_inj _).mpr (List.take_prefix ..)
    · simp only [Function.update_of_ne hr]
      exact hi.written r
  · have hne : r ≠ s := fun he => absurd hr (Nat.not_le.mpr (he ▸ hborn))
    simp only [Function.update_of_ne hne]
    exact hi.fresh r hr
  · rw [hlabels]
    by_cases hr : r = s
    · subst hr
      simp only [Function.update_self]
      exact hi.delivered r
    · simp only [Function.update_of_ne hr]
      exact hi.delivered r
  · rw [hlabels]
    exact hi.found r

/-- A session is served by one service at most. -/
theorem Services.peer_unique (hi : Services x) (hw : AsyncTcpServer.Wired x.server)
    (hv : x.peer v = some s) (hr : x.peer w = some s) : v = w := by
  obtain ⟨hvlt, hvpeer⟩ := peer_eq_some hv
  obtain ⟨hrlt, hrpeer⟩ := peer_eq_some hr
  exact hw.distinct v hvlt w hrlt ((hi.once _ s hrpeer).2 _ hvpeer)

/-- What a step of the server changes of a connection. -/
theorem ServerSide.connection {l : AsyncTcpServer.Label} (h : ServerSide x l y) (s : SessionId) :
    (y.connections s).up.written = (x.connections s).up.written ∧
      (y.connections s).down.delivered = (x.connections s).down.delivered ∧
      (y.connections s).made = (x.connections s).made ∧
      (y.connections s).accepted = (x.connections s).accepted := by
  cases h with
  | still => exact ⟨rfl, rfl, rfl, rfl⟩
  | read hpeer hfound hup =>
    exact ⟨update_keep (·.up.written) (Channel.receive_eq_some hup).1 s,
      update_keep (·.down.delivered) (by rfl) s, update_keep (·.made) (by rfl) s,
      update_keep (·.accepted) (by rfl) s⟩
  | transmit hpeer hdown =>
    exact ⟨update_keep (·.up.written) (by rfl) s,
      update_keep (·.down.delivered) (Channel.send_eq_some hdown).2.1 s,
      update_keep (·.made) (by rfl) s, update_keep (·.accepted) (by rfl) s⟩
  | close =>
    exact ⟨update_keep (·.up.written) (by rfl) s, update_keep (·.down.delivered) (by rfl) s,
      update_keep (·.made) (by rfl) s, update_keep (·.accepted) (by rfl) s⟩

/-- What a step of the server reads comes from the connections of its services. -/
theorem ServerSide.up {l : AsyncTcpServer.Label} (h : ServerSide x l y) (hi : Services x)
    (hw : AsyncTcpServer.Wired x.server) (s : SessionId) :
    (∀ v, x.peer v = some s →
      (y.connections s).up.delivered = (x.connections s).up.delivered ++ l.read v) ∧
    ((∀ v, x.peer v ≠ some s) →
      (y.connections s).up.delivered = (x.connections s).up.delivered) := by
  cases h with
  | still hread => exact ⟨fun v _ => by rw [hread, List.append_nil], fun _ => rfl⟩
  | @read t v ec received r up hpeer hfound hup =>
    by_cases hr : s = r
    · subst hr
      refine ⟨fun w hpeer' => ?_, fun hnone => absurd hpeer (hnone v)⟩
      obtain rfl := hi.peer_unique hw hpeer hpeer'
      simp [AsyncTcpServer.Label.read, (Channel.receive_eq_some hup).2.1]
    · have hsame : ∀ w, x.peer w = some s → v ≠ w := by
        rintro w hpeer' rfl
        exact hr (Option.some.inj (hpeer'.symm.trans hpeer))
      refine ⟨fun w hpeer' => ?_, fun _ => by simp [hr]⟩
      simp [AsyncTcpServer.Label.read, hr, hsame w hpeer']
  | @transmit v sent n r down =>
    by_cases hr : s = r
    · subst hr
      simp [AsyncTcpServer.Label.read]
    · simp [AsyncTcpServer.Label.read, hr]
  | @close t r =>
    by_cases hr : s = r
    · subst hr
      simp [AsyncTcpServer.Label.read]
    · simp [AsyncTcpServer.Label.read, hr]

/-- What a step of the server sends goes to the connections of its services. -/
theorem ServerSide.down {l : AsyncTcpServer.Label} (h : ServerSide x l y) (hi : Services x)
    (s : SessionId) :
    (∀ sock, x.peers sock = some s → (y.connections s).down.written =
      (x.connections s).down.written ++ l.sends x.server sock) ∧
    ((∀ sock, x.peers sock ≠ some s) →
      (y.connections s).down.written = (x.connections s).down.written) := by
  cases h with
  | still _ hsends => exact ⟨fun sock _ => by rw [hsends, List.append_nil], fun _ => rfl⟩
  | @read t v ec received r up =>
    by_cases hr : s = r
    · subst hr
      simp [AsyncTcpServer.Label.sends]
    · simp [AsyncTcpServer.Label.sends, hr]
  | @transmit v sent n r down hpeer hdown =>
    obtain ⟨-, hpeer⟩ := peer_eq_some hpeer
    by_cases hr : s = r
    · subst hr
      refine ⟨fun sock hsock => ?_, fun hnone => absurd hpeer (hnone _)⟩
      obtain rfl := (hi.once _ s hpeer).2 sock hsock
      simp [AsyncTcpServer.Label.sends, (Channel.send_eq_some hdown).1]
    · refine ⟨fun sock hsock => ?_, fun _ => by simp [hr]⟩
      have hne : x.server.sock v ≠ sock := by
        rintro rfl
        exact hr (Option.some.inj (hsock.symm.trans hpeer))
      simp [AsyncTcpServer.Label.sends, hr, hne]
  | @close t r =>
    by_cases hr : s = r
    · subst hr
      simp [AsyncTcpServer.Label.sends, Channel.close]
    · simp [AsyncTcpServer.Label.sends, hr]

section

variable {l : AsyncTcpServer.Label} {σ : AsyncTcpServer.State} {fs : List AsyncTcpServer.Event}

theorem ServerSide.peers_eq (h : ServerSide x l y) : y.peers = x.peers := by cases h <;> rfl

/-- A service keeps its session. -/
theorem ServerSide.peer_eq (hside : ServerSide x l y)
    (hstep : AsyncTcpServer.Step size x.server l σ fs) (hv : v < x.server.count) :
    State.peer { y with server := σ } v = x.peer v := by
  simp only [State.peer, hv, hv.trans_le hstep.count_le, if_pos, hside.peers_eq,
    hstep.keeps_sock hv]

/-- The session of a service that is being created was not served before. -/
theorem Services.unserved (hi : Services x) (hw : AsyncTcpServer.Wired x.server)
    (hside : ServerSide x l y) (hstep : AsyncTcpServer.Step size x.server l σ fs)
    (hle : x.server.count ≤ v) (hv : State.peer { y with server := σ } v = some s) :
    (∀ w, x.peer w ≠ some s) ∧ (σ.services v).request = [] := by
  obtain ⟨hlt, hpeer⟩ := peer_eq_some hv
  obtain ⟨rfl, hrequest, -, t, ec, ht, hec⟩ := (hstep.born hlt).resolve_left hle.not_gt
  refine ⟨fun w hws => ?_, hrequest⟩
  obtain ⟨hwlt, hwpeer⟩ := peer_eq_some hws
  have hsock := (hi.once _ s hwpeer).2 (σ.sock x.server.count) (hside.peers_eq ▸ hpeer)
  exact (hw.offered _ (Or.inr ⟨t, ec, ht⟩)).2 w hwlt hsock.symm

theorem Services.held_server (hi : Services x)
    (hstep : AsyncTcpServer.Step size x.server l σ fs) (hv : v < σ.count) :
    ∃ s, x.peers (σ.sock v) = some s := by
  rcases hstep.born hv with hlt | ⟨rfl, -, -, t, ec, ht, hec⟩
  · rw [hstep.keeps_sock hlt]
    exact hi.held v hlt
  · exact hi.handed t ec _ ht hec

/-- Only an accept with a connection is taken up as a success. -/
theorem Services.handed_server (hi : Services x) (hside : ServerSide x l y)
    (hstep : AsyncTcpServer.Step size x.server l σ fs) {t : AsyncTcpServer.ThreadId}
    {ec : ErrorCode} (ht : σ.threads t = .onAccept ec sock) (hec : ec.value = 0) :
    ∃ s, x.peers sock = some s := by
  rcases hstep.new_onAccept ht with hold | rfl
  · exact hi.handed t ec sock hold hec
  · cases hside with
    | still _ _ _ haccept => exact absurd hec (haccept t sock ec rfl)

/-- A service has read what its session's connection has delivered. -/
theorem Services.read_server (hi : Services x) (hw : AsyncTcpServer.Wired x.server)
    (hside : ServerSide x l y) (hstep : AsyncTcpServer.Step size x.server l σ fs)
    (hs : State.peer { y with server := σ } v = some s) :
    (σ.services v).request = (y.connections s).up.delivered := by
  rcases Nat.lt_or_ge v x.server.count with hv | hv
  · have hs' : x.peer v = some s := hside.peer_eq hstep hv ▸ hs
    rw [hstep.request_eq hv, hi.read v s hs', (hside.up hi hw s).1 v hs']
  · obtain ⟨hnone, hrequest⟩ := hi.unserved hw hside hstep hv hs
    rw [hrequest, (hside.up hi hw s).2 hnone, hi.unread s hnone]

/-- The handler of a read that has succeeded finds a line. -/
theorem Services.understood_server (hi : Services x) (howned : AsyncTcpServer.Owned x.server)
    (hside : ServerSide x l y) (hstep : AsyncTcpServer.Step size x.server l σ fs)
    {t : AsyncTcpServer.ThreadId} {ec : ErrorCode} (ht : σ.threads t = .onRequestReceived ec v)
    (hec : ec.value = 0) : lf ∈ (σ.services v).request := by
  rcases hstep.new_onRequestReceived ht with hold | ⟨received, rfl⟩
  · rw [hstep.request_eq (howned.running hold rfl).1]
    exact List.mem_append_left _ (hi.understood t ec v hold hec)
  · cases hside with
    | still _ _ hother => exact absurd rfl (hother t v ec received)
    | read hpeer hfound =>
      rw [hstep.request_eq (peer_eq_some hpeer).1]
      simpa [AsyncTcpServer.Label.read] using hfound hec

/-- A response is set by the handler of a read that has succeeded. -/
theorem Services.responded_server (hi : Services x)
    (hstep : AsyncTcpServer.Step size x.server l σ fs) (hv : v < σ.count) :
    (σ.services v).response = [] ∨
      (σ.services v).response = ascii "Response\n" ∧ lf ∈ (σ.services v).request := by
  rcases hstep.born hv with hlt | ⟨-, -, hresponse, -⟩
  · rw [hstep.request_eq hlt]
    rcases hstep.response_cases hlt with hsame | ⟨hnew, t, ec, ht, hec⟩
    · rw [hsame]
      exact (hi.responded v hlt).imp_right fun h => ⟨h.1, List.mem_append_left _ h.2⟩
    · exact Or.inr ⟨hnew, List.mem_append_left _ (hi.understood t ec v ht hec)⟩
  · exact Or.inl hresponse

/-- A step of the server. -/
theorem Services.server (hi : Services x) (howned : AsyncTcpServer.Owned x.server)
    (hw : AsyncTcpServer.Wired x.server) (hside : ServerSide x l y)
    (hstep : AsyncTcpServer.Step size x.server l σ fs) : Services { y with server := σ } := by
  have hpeers := hside.peers_eq
  have hold : ∀ {sock s}, y.peers sock = some s → x.peers sock = some s :=
    fun hs => hpeers ▸ hs
  refine ⟨fun v hv => ?_, fun t ec sock ht hec => ?_, fun sock hsock => ?_, fun sock s hs => ?_,
    fun sock s hs => ?_, fun s hs => ?_, fun v s hs => hi.read_server (y := y) hw hside hstep hs,
    fun s hs => ?_, fun t ec v ht hec => hi.understood_server howned hside hstep ht hec,
    fun v hv => hi.responded_server hstep hv⟩
  · rw [hpeers]
    exact hi.held_server hstep hv
  · rw [hpeers]
    exact hi.handed_server hside hstep ht hec
  · rw [hpeers]
    exact hi.free sock (hstep.free hsock)
  · obtain ⟨haccepted, honce⟩ := hi.once sock s (hold hs)
    exact ⟨(hside.connection s).2.2.2.trans haccepted, fun other ho => honce other (hold ho)⟩
  · change (y.connections s).down.written = σ.sent sock
    rw [(hside.down hi s).1 sock (hold hs), hi.sent sock s (hold hs), hstep.sent_eq]
  · have hs' : ∀ sock, x.peers sock ≠ some s := hpeers ▸ hs
    exact ((hside.down hi s).2 hs').trans (hi.silent s hs')
  · have hs' : ∀ v, x.peer v ≠ some s := fun v hvs =>
      hs v ((hside.peer_eq hstep (peer_eq_some hvs).1).trans hvs)
    exact ((hside.up hi hw s).2 hs').trans (hi.unread s hs')

end

section

variable {σ : AsyncTcpServer.State} {t : AsyncTcpServer.ThreadId} {r : SessionId}
  {other : SocketId}

/-- The bytes of a connection are not touched when it is accepted. -/
@[simp] theorem up_accept : ((x.accept sock s σ).connections r).up = (x.connections r).up :=
  update_keep (·.up) (by rfl) r

@[simp] theorem down_accept :
    ((x.accept sock s σ).connections r).down = (x.connections r).down :=
  update_keep (·.down) (by rfl) r

theorem accepted_accept : ((x.accept sock s σ).connections r).accepted =
    if r = s then true else (x.connections r).accepted := by
  by_cases hr : r = s
  · subst hr
    simp [State.accept]
  · simp [State.accept, hr]

/-- No service has the socket of an accept yet, so the services keep their sessions. -/
theorem peer_accept (hunused : ∀ v < x.server.count, x.server.sock v ≠ sock)
    (hcount : σ.count = x.server.count) (hservices : σ.services = x.server.services)
    (v : ServiceId) : (x.accept sock s σ).peer v = x.peer v := by
  have hsock : σ.sock v = x.server.sock v := by
    rw [AsyncTcpServer.State.sock, hservices]
    rfl
  by_cases hv : v < x.server.count
  · simp only [State.peer, server_accept, peers_accept, hcount, hsock, if_pos hv,
      if_neg (hunused v hv)]
  · simp only [State.peer, server_accept, hcount, if_neg hv]

/-- The connection of a session that is not accepted has no socket. -/
theorem Services.no_peer (hi : Services x) (hfree : (x.connections s).accepted = false)
    (sock : SocketId) : x.peers sock ≠ some s := by
  intro hs
  rw [(hi.once sock s hs).1] at hfree
  cases hfree

/-- The accepted session is the one behind its socket and behind no other. -/
theorem Services.peers_accept_cases (hi : Services x)
    (hfree : (x.connections s).accepted = false)
    (hr : (x.accept sock s σ).peers other = some r) :
    other = sock ∧ r = s ∨ other ≠ sock ∧ r ≠ s ∧ x.peers other = some r := by
  by_cases hother : other = sock
  · rw [peers_accept, if_pos hother] at hr
    exact Or.inl ⟨hother, (Option.some.inj hr).symm⟩
  · rw [peers_accept, if_neg hother] at hr
    refine Or.inr ⟨hother, ?_, hr⟩
    rintro rfl
    exact hi.no_peer hfree other hr

/-- Another socket keeps its session, whichever that is. -/
theorem peers_accept_of_ne (hother : other ≠ sock) :
    (x.accept sock s σ).peers other = x.peers other := by
  rw [peers_accept, if_neg hother]

theorem Services.once_accept (hi : Services x) (hfree : (x.connections s).accepted = false)
    (hr : (x.accept sock s σ).peers other = some r) :
    ((x.accept sock s σ).connections r).accepted = true ∧
      ∀ third, (x.accept sock s σ).peers third = some r → third = other := by
  rcases hi.peers_accept_cases hfree hr with ⟨rfl, rfl⟩ | ⟨hother, hne, hold⟩
  · refine ⟨by rw [accepted_accept, if_pos rfl], fun third hthird => ?_⟩
    exact ((hi.peers_accept_cases hfree hthird).resolve_right fun h => h.2.1 rfl).1
  · obtain ⟨haccepted, honce⟩ := hi.once other r hold
    refine ⟨by rw [accepted_accept, if_neg hne, haccepted], fun third hthird => ?_⟩
    exact honce third ((hi.peers_accept_cases hfree hthird).resolve_left fun h => hne h.2).2.2

/-- The one outstanding accept is over. -/
theorem Services.free_accept (hi : Services x) (howned : AsyncTcpServer.Owned x.server)
    (hlt : sock < x.server.sockets) (hsock : sock ∈ x.server.accepts)
    (hother : other ∈ x.server.accepts.erase sock ∨ x.server.sockets ≤ other) :
    (x.accept sock s σ).peers other = none := by
  have hne : other ≠ sock := by
    rintro rfl
    rcases hother with hmem | hle
    · obtain ⟨k, haccepts⟩ : ∃ k, x.server.accepts = [k] :=
        List.length_eq_one_iff.mp
          (Nat.le_antisymm howned.accepts_length_le (List.length_pos_of_mem hsock))
      rw [haccepts, List.mem_singleton] at hsock
      subst hsock
      simp [haccepts] at hmem
    · exact absurd hlt (Nat.not_lt.mpr hle)
  rw [peers_accept_of_ne hne]
  exact hi.free other (hother.imp_left List.mem_of_mem_erase)

/-- The thread that takes up the accept has the session, and the others have theirs. -/
theorem Services.handed_accept (hi : Services x) {u : AsyncTcpServer.ThreadId} {ec : ErrorCode}
    (hu : ((x.server.takeAccept sock).goto t (.onAccept .success sock)).threads u =
      .onAccept ec other) (hec : ec.value = 0) :
    ∃ r, (x.accept sock s σ).peers other = some r := by
  by_cases hother : other = sock
  · exact ⟨s, by rw [peers_accept, if_pos hother]⟩
  · have hut : u ≠ t := by
      rintro rfl
      rw [AsyncTcpServer.State.goto_threads, if_pos rfl] at hu
      exact hother (AsyncTcpServer.Frame.onAccept.inj hu).2.symm
    rw [AsyncTcpServer.State.goto_threads, if_neg hut] at hu
    rw [peers_accept_of_ne hother]
    exact hi.handed u ec other hu hec

/-- The connection of a session is accepted. -/
theorem Services.accept (hi : Services x) (howned : AsyncTcpServer.Owned x.server)
    (hw : AsyncTcpServer.Wired x.server) (hfree : (x.connections s).accepted = false)
    (hsock : sock ∈ x.server.accepts) :
    Services (x.accept sock s ((x.server.takeAccept sock).goto t (.onAccept .success sock))) := by
  obtain ⟨hlt, hunused⟩ := hw.offered sock (Or.inl hsock)
  have hpeer := peer_accept (s := s)
    (σ := (x.server.takeAccept sock).goto t (.onAccept .success sock)) hunused rfl rfl
  refine ⟨fun v hv => ?_, fun u ec other hu hec => hi.handed_accept hu hec,
    fun other hother => hi.free_accept howned hlt hsock hother,
    fun other r hr => hi.once_accept hfree hr, fun other r hr => ?_, fun r hr => ?_,
    fun v r hr => ?_, fun r hr => ?_, fun u ec v hu hec => ?_, hi.responded⟩
  · obtain ⟨r, hr⟩ := hi.held v hv
    exact ⟨r, (peers_accept_of_ne (hunused v hv)).trans hr⟩
  · rw [down_accept]
    change _ = x.server.sent other
    rcases hi.peers_accept_cases hfree hr with ⟨rfl, rfl⟩ | ⟨-, -, hold⟩
    · rw [hi.silent r (hi.no_peer hfree), hw.unsent other hunused]
    · exact hi.sent other r hold
  · rw [down_accept]
    refine hi.silent r fun other hold => hr other ?_
    have hother : other ≠ sock := by
      rintro rfl
      rw [hi.free other (Or.inl hsock)] at hold
      cases hold
    rw [peers_accept_of_ne hother, hold]
  · rw [up_accept]
    exact hi.read v r (hpeer v ▸ hr)
  · rw [up_accept]
    exact hi.unread r fun v hv => hr v ((hpeer v).trans hv)
  · have hut : u ≠ t := by
      rintro rfl
      rw [server_accept, AsyncTcpServer.State.goto_threads, if_pos rfl] at hu
      cases hu
    rw [server_accept, AsyncTcpServer.State.goto_threads, if_neg hut] at hu
    exact hi.understood u ec v hu hec

end

/-- What has been read and sent by the services does not depend on the rest. -/
theorem Services.congr (hi : Services x) (hserver : y.server = x.server)
    (hpeers : y.peers = x.peers)
    (hup : ∀ s, (y.connections s).up.delivered = (x.connections s).up.delivered)
    (hdown : ∀ s, (y.connections s).down.written = (x.connections s).down.written)
    (haccepted : ∀ s, (y.connections s).accepted = (x.connections s).accepted) :
    Services y := by
  have hpeer : ∀ v, y.peer v = x.peer v := fun v => by rw [State.peer, hserver, hpeers, State.peer]
  refine ⟨?_, ?_, ?_, fun sock s h => ?_, fun sock s h => ?_, fun s h => ?_, fun v s h => ?_,
    fun s h => ?_, ?_, ?_⟩
  · rw [hserver, hpeers]
    exact hi.held
  · rw [hserver, hpeers]
    exact hi.handed
  · rw [hserver, hpeers]
    exact hi.free
  · rw [haccepted, hpeers]
    exact hi.once sock s (hpeers ▸ h)
  · rw [hdown, hserver]
    exact hi.sent sock s (hpeers ▸ h)
  · rw [hdown]
    exact hi.silent s (hpeers ▸ h)
  · rw [hserver, hup]
    exact hi.read v s (hpeer v ▸ h)
  · rw [hup]
    exact hi.unread s fun v hv => h v ((hpeer v).trans hv)
  · rw [hserver]
    exact hi.understood
  · rw [hserver]
    exact hi.responded

/-- What a session waits for was asked for by a session that exists. -/
theorem born_of_waits (hscoped : AsyncTcpClient.Scoped x.client)
    {op : AsyncTcpClient.Operation} (hwaits : x.waits s op = true) : s < x.client.count := by
  refine hscoped.pending s fun hnil => ?_
  rw [State.waits, hnil] at hwaits
  cases hwaits

/-- A connection that changes belongs to a session that exists. -/
theorem Sessions.born_update (hi : Sessions labels x) {r : SessionId} {c : Connection}
    (hr : r < x.client.count)
    (hs : (Function.update x.connections r c s).made = true ∨
      (Function.update x.connections r c s).accepted = true) : s < x.client.count := by
  by_cases hsr : s = r
  · exact hsr ▸ hr
  · rw [Function.update_of_ne hsr] at hs
    exact hi.born s hs

/-- Every step keeps what both sides have written and read. -/
theorem Step.sides {l : Label} (h : Step n size x l y es) (hrun : Run n size labels x tr)
    (hi : Sessions labels x ∧ Services x) : Sessions (labels ++ [l]) y ∧ Services y := by
  obtain ⟨hsessions, hservices⟩ := hi
  have hclient : AsyncTcpClient.Run n (clientLabels labels) x.client (clientTrace tr) :=
    client_partOf.exec hrun
  have hserver := server_partOf.exec hrun
  have hlabels : l.client? = none → clientLabels (labels ++ [l]) = clientLabels labels := by
    intro hnone
    simp [clientLabels, hnone]
  cases h with
  | @client l y σ es hside hstep =>
    have hside' := clientSide_cases hside
    have hsame : y.server = x.server ∧ y.peers = x.peers := by
      cases hside' <;> exact ⟨rfl, rfl⟩
    refine ⟨hsessions.client hclient hside' (AsyncTcpClient.step_cases hstep), ?_⟩
    exact hservices.congr hsame.1 hsame.2 (fun s => (hside'.connection s).2.1)
      (fun s => (hside'.connection s).2.2.1) fun s => (hside'.connection s).2.2.2.2
  | @server l y σ es hside hstep =>
    have hside' := serverSide_cases hside
    have hsame : y.client = x.client := by cases hside' <;> rfl
    refine ⟨hsessions.congr (hlabels rfl) hsame (fun s hs => hsessions.born s ?_)
      (fun s => (hside'.connection s).1) fun s => (hside'.connection s).2.1, ?_⟩
    · obtain ⟨-, -, hmade, haccepted⟩ := hside'.connection s
      rw [← hmade, ← haccepted]
      exact hs
    · exact hservices.server (AsyncTcpServer.Run.owned hserver) (AsyncTcpServer.Run.wired hserver)
        hside' (AsyncTcpServer.step_cases hstep)
  | handshake hwaits =>
    have hborn := born_of_waits hclient.scoped hwaits
    exact ⟨hsessions.congr (hlabels rfl) rfl (fun s hs => hsessions.born_update hborn hs)
        (update_keep (·.up.written) rfl) (update_keep (·.down.delivered) rfl),
      hservices.congr rfl rfl (update_keep (·.up.delivered) rfl)
        (update_keep (·.down.written) rfl) (update_keep (·.accepted) rfl)⟩
  | @accept t sock r σ es hmade hfree hstep =>
    have hborn := hsessions.born r (Or.inl hmade)
    refine ⟨hsessions.congr (hlabels rfl) rfl (fun s hs => hsessions.born_update hborn hs)
      (update_keep (·.up.written) rfl) (update_keep (·.down.delivered) rfl), ?_⟩
    cases AsyncTcpServer.step_cases hstep with
    | accept _ _ hsock =>
      exact hservices.accept (AsyncTcpServer.Run.owned hserver)
        (AsyncTcpServer.Run.wired hserver) hfree hsock
  | send hwaits hup =>
    exact ⟨hsessions.send hclient.scoped hwaits hup,
      hservices.congr rfl rfl
        (update_keep (·.up.delivered) (Channel.send_eq_some hup).2.1)
        (update_keep (·.down.written) rfl) (update_keep (·.accepted) rfl)⟩

theorem Run.sides (h : Run n size labels x tr) : Sessions labels x ∧ Services x :=
  exec_induction (P := fun labels x _ => Sessions labels x ∧ Services x)
    ⟨sessions_init, services_init⟩ (fun hexec hi hs => (step_cases hs).sides hexec hi) h

/-- A service has read a first part of what its session asks for. -/
theorem Services.request_prefix (hi : Services x) (hsessions : Sessions labels x)
    (hv : x.peer v = some s) :
    (x.server.services v).request <+: (x.client.sessions s).request := by
  rw [hi.read v s hv]
  refine List.IsPrefix.trans ?_ (hsessions.written s)
  exact ⟨(x.connections s).up.inFlight, (x.connections s).up.account.symm⟩

/-- Requests and responses end with their only line feed. -/
theorem endsWith_encodeRequest (durationSec : UInt32) :
    EndsWith [lf] (AsyncTcpClient.encodeRequest durationSec) := by
  have hline : AsyncTcpClient.encodeRequest durationSec =
      RequestLanguage.line (.asyncTcp, durationSec) ++ [lf] :=
    RequestLanguage.encodeRequest_eq .asyncTcp durationSec
  rw [hline]
  exact endsWith_singleton (RequestLanguage.lf_not_mem_line _)

theorem endsWith_response : EndsWith [lf] (ascii "Response\n") :=
  ⟨ascii "Response", by decide, by decide⟩

/-- A service that has a response has read the whole request of its session. -/
theorem Services.request_eq (hi : Services x) (hsessions : Sessions labels x)
    (hv : x.peer v = some s) {durationSec : UInt32}
    (hrequest : (x.client.sessions s).request = AsyncTcpClient.encodeRequest durationSec)
    (hresponse : (x.server.services v).response ≠ []) :
    (x.server.services v).request = AsyncTcpClient.encodeRequest durationSec := by
  obtain ⟨-, hlf⟩ := (hi.responded v (peer_eq_some hv).1).resolve_left hresponse
  refine (endsWith_encodeRequest durationSec).eq_of_isPrefix ?_
    ((List.singleton_infix_iff ..).mpr hlf)
  rw [← hrequest]
  exact hi.request_prefix hsessions hv

/-- What a session has received with a line feed in it is the response of its service. -/
theorem Services.response_of_delivered (hi : Services x)
    (hsent : ∀ sock, x.server.sent sock = [] ∨ ∃ v < x.server.count, x.server.sock v = sock ∧
      x.server.sent sock <+: (x.server.services v).response)
    (hlf : lf ∈ (x.connections s).down.delivered) :
    (x.connections s).down.delivered = ascii "Response\n" ∧
      ∃ v, x.peer v = some s ∧ (x.server.services v).response = ascii "Response\n" := by
  have hwritten : (x.connections s).down.delivered <+: (x.connections s).down.written :=
    ⟨(x.connections s).down.inFlight, (x.connections s).down.account.symm⟩
  have hne : (x.connections s).down.written ≠ [] := by
    intro hnil
    rw [hnil] at hwritten
    rw [List.prefix_nil.mp hwritten] at hlf
    cases hlf
  obtain ⟨sock, hsock⟩ : ∃ sock, x.peers sock = some s := by
    by_contra hnone
    exact hne (hi.silent s fun sock hs => hnone ⟨sock, hs⟩)
  rw [hi.sent sock s hsock] at hwritten hne
  obtain ⟨v, hv, rfl, hresponse⟩ := (hsent sock).resolve_left hne
  have hpeer : x.peer v = some s := by rw [State.peer, if_pos hv, hsock]
  have hsome : (x.server.services v).response ≠ [] := by
    intro hnil
    rw [hnil] at hresponse
    exact hne (List.prefix_nil.mp hresponse)
  obtain ⟨htext, -⟩ := (hi.responded v hv).resolve_left hsome
  refine ⟨endsWith_response.eq_of_isPrefix ?_ ((List.singleton_infix_iff ..).mpr hlf), v, hpeer,
    htext⟩
  rw [← htext]
  exact hwritten.trans hresponse

/-- A read that has succeeded has received everything that was delivered. -/
theorem Sessions.delivered_eq (hi : Sessions labels x) {ec : ErrorCode} {received : Bytes}
    (hchain : (deliveries s (clientLabels labels)).map Prod.fst <+:
      AsyncTcpClient.Operation.chain)
    (hm : (.read, ec, received) ∈ deliveries s (clientLabels labels)) :
    (x.connections s).down.delivered = received := by
  have hops : (deliveries s (clientLabels labels)).map Prod.fst =
      AsyncTcpClient.Operation.chain := by
    rcases List.prefix_concat_iff.mp hchain with hall | hfront
    · exact hall
    · have hread : AsyncTcpClient.Operation.read ∈ [AsyncTcpClient.Operation.connect, .write] :=
        hfront.subset (List.mem_map_of_mem hm)
      exact absurd hread (by decide)
  have hfound := hi.found s
  rw [← hi.delivered s]
  revert hm hops hfound
  generalize deliveries s (clientLabels labels) = ds
  intro hm hops hfound
  obtain ⟨a, ds, rfl, ha, hops⟩ := List.map_eq_cons_iff.mp hops
  obtain ⟨b, ds, rfl, hb, hops⟩ := List.map_eq_cons_iff.mp hops
  obtain ⟨c, ds, rfl, hc, hops⟩ := List.map_eq_cons_iff.mp hops
  obtain rfl := List.map_eq_nil_iff.mp hops
  have hanil : a.2.2 = [] := (hfound a (by simp)).1 (by rw [ha]; decide)
  have hbnil : b.2.2 = [] := (hfound b (by simp)).1 (by rw [hb]; decide)
  have hread : c = (.read, ec, received) := by
    rcases List.mem_cons.mp hm with rfl | hm
    · cases ha
    · rcases List.mem_cons.mp hm with rfl | hm
      · cases hb
      · exact (List.mem_singleton.mp hm).symm
  simp [hanil, hbnil, hread]

/-- The first line of what was delivered, when there is one. -/
theorem answer_cases (ds : List (AsyncTcpClient.Operation × ErrorCode × Bytes))
    (hchain : ds.map Prod.fst <+: AsyncTcpClient.Operation.chain) :
    AsyncTcpClient.answer ds = [] ∨ ∃ ec received, (.read, ec, received) ∈ ds ∧ ec.value = 0 ∧
      AsyncTcpClient.answer ds = received.takeWhile (· != lf) := by
  by_cases hread : ∃ ec received, (AsyncTcpClient.Operation.read, ec, received) ∈ ds ∧ ec.value = 0
  · obtain ⟨ec, received, hm, h0⟩ := hread
    exact Or.inr ⟨ec, received, hm, h0, AsyncTcpClient.answer_of_mem hchain hm h0⟩
  · refine Or.inl (AsyncTcpClient.answer_of_not_read ?_)
    rintro ⟨op, ec, received⟩ hm rfl h0
    exact hread ⟨ec, received, hm, h0⟩

/-- What the sessions and the services have of each other. -/
structure Matched (labels : List Label) (x : State) (tr : List Event) : Prop where
  /-- A service reads the request of its own session, and the whole of it before it answers. -/
  asked : ∀ v < x.server.count, ∃ s durationSec id, x.peer v = some s ∧
    (AsyncTcpClient.calls (clientLabels labels))[s]? = some (durationSec, id) ∧
    (x.server.services v).request <+: AsyncTcpClient.encodeRequest durationSec ∧
    ((x.server.services v).response ≠ [] →
      (x.server.services v).request = AsyncTcpClient.encodeRequest durationSec)
  /-- No two services have one session. -/
  alone : ∀ v w s, x.peer v = some s → x.peer w = some s → v = w
  /-- A success comes with the answer. -/
  success : ∀ s id response ec, .callback s id response ec ∈ clientTrace tr → ec.value = 0 →
    response = ascii "Response"
  /-- A callback has no response, or the answer of a service that has read its request. -/
  answered : ∀ s id response ec, .callback s id response ec ∈ clientTrace tr → response = [] ∨
    response = ascii "Response" ∧ ∃ v durationSec, x.peer v = some s ∧
      (AsyncTcpClient.calls (clientLabels labels))[s]? = some (durationSec, id) ∧
      (x.server.services v).request = AsyncTcpClient.encodeRequest durationSec

/-- In every run of both, each service and each session have what the other end of their own
connection has sent. -/
theorem matched_of_run (h : Run n size labels x tr) : Matched labels x tr := by
  obtain ⟨hsessions, hservices⟩ := h.sides
  have hclient : AsyncTcpClient.Run n (clientLabels labels) x.client (clientTrace tr) :=
    client_partOf.exec h
  have hserver := server_partOf.exec h
  have hsent : ∀ sock, x.server.sent sock = [] ∨ ∃ v < x.server.count,
      x.server.sock v = sock ∧ x.server.sent sock <+: (x.server.services v).response :=
    fun sock => (AsyncTcpServer.Run.sent_own hserver sock).imp_right
      fun ⟨v, hv, hsock, _, hresponse⟩ => ⟨v, hv, hsock, hresponse⟩
  -- a read that has succeeded has received the response of a service that has read the request
  have hread : ∀ {s ec received}, (deliveries s (clientLabels labels)).map Prod.fst <+:
      AsyncTcpClient.Operation.chain → (.read, ec, received) ∈ deliveries s (clientLabels labels) →
      ec.value = 0 → received = ascii "Response\n" ∧ ∃ v, x.peer v = some s ∧
        (x.server.services v).response = ascii "Response\n" := by
    intro s ec received hchain hm h0
    have hall := hsessions.delivered_eq hchain hm
    have hlf := (hsessions.found s _ hm).2 rfl h0
    rw [← hall] at hlf ⊢
    exact hservices.response_of_delivered hsent hlf
  have hline : (ascii "Response\n").takeWhile (· != lf) = ascii "Response" := by decide
  refine ⟨fun v hv => ?_, fun v w s => hservices.peer_unique (AsyncTcpServer.Run.wired hserver),
    fun s id response ec hm h0 => ?_, fun s id response ec hm => ?_⟩
  · obtain ⟨s, hs⟩ := hservices.held v hv
    have hpeer : x.peer v = some s := by rw [State.peer, if_pos hv, hs]
    have hborn := hsessions.born s (Or.inr (hservices.once _ s hs).1)
    obtain ⟨durationSec, hcall, hrequest⟩ := hclient.answers.created s hborn
    refine ⟨s, durationSec, _, hpeer, hcall, ?_, hservices.request_eq hsessions hpeer hrequest⟩
    rw [← hrequest]
    exact hservices.request_prefix hsessions hpeer
  · obtain ⟨-, hchain, -, hanswer⟩ := hclient.over_of_callback hm
    obtain ⟨-, hresponse⟩ := hclient.callback_eq hm
    obtain ⟨hops, hall⟩ := hclient.deliveries_of_success hm h0
    have hmem : AsyncTcpClient.Operation.read ∈
        (deliveries s (clientLabels labels)).map Prod.fst := by
      rw [hops]
      decide
    obtain ⟨⟨op, e, received⟩, hd, rfl⟩ := List.mem_map.mp hmem
    rw [hresponse, hanswer, AsyncTcpClient.answer_of_mem hchain hd (hall _ hd),
      (hread hchain hd (hall _ hd)).1, hline]
  · obtain ⟨hborn, hchain, -, hanswer⟩ := hclient.over_of_callback hm
    obtain ⟨hid, hresponse⟩ := hclient.callback_eq hm
    rw [hresponse, hanswer]
    refine (answer_cases _ hchain).imp_right fun ⟨e, received, hd, he, htake⟩ => ?_
    obtain ⟨htext, v, hpeer, hservice⟩ := hread hchain hd he
    obtain ⟨durationSec, hcall, hrequest⟩ := hclient.answers.created s hborn
    refine ⟨by rw [htake, htext, hline], v, durationSec, hpeer, hid ▸ hcall, ?_⟩
    refine hservices.request_eq hsessions hpeer hrequest ?_
    rw [hservice]
    decide

end

/-- One request and its answer. The server accepts behind the handshake, and its `Stop` is not
called. -/
def answeredSchedule : List Label :=
  .client (.emulate 1 10 7) :: List.replicate 5 (.client (.run 1)) ++
    [.server .start, .server .start, .server .start, .handshake 0, .accept 0 0 0] ++
    .client (.deliver 0 0 ⟨.connect, false⟩ .success []) :: List.replicate 5 (.client (.run 0)) ++
    List.replicate 3 (.server (.run 0)) ++ [.send 0 100] ++
    .client (.deliver 0 0 ⟨.write, false⟩ .success []) :: List.replicate 5 (.client (.run 0)) ++
    .server (.deliver 0 0 .read .success (AsyncTcpClient.encodeRequest 10)) ::
    List.replicate 2 (.server (.run 0)) ++ [.server (.transmit 0 0 9)] ++
    .client (.deliver 0 0 ⟨.read, false⟩ .success (ascii "Response\n")) ::
    List.replicate 9 (.client (.run 0))

/-- The request is called back with the answer of the service that has read it. -/
theorem answeredSchedule_matched : ∃ x tr, Run 1 1 answeredSchedule x tr ∧
    .callback 0 7 (ascii "Response") .success ∈ clientTrace tr ∧
      ∃ v, x.peer v = some 0 ∧
        (x.server.services v).request = AsyncTcpClient.encodeRequest 10 := by
  obtain ⟨⟨x, tr⟩, hrun, hcall⟩ : ∃ p ∈ exec (step 1 1) State.init answeredSchedule,
      AsyncTcpClient.Event.callback 0 7 (ascii "Response") .success ∈ clientTrace p.2 := by
    decide +kernel
  obtain ⟨-, v, durationSec, hpeer, hd, hrequest⟩ :=
    ((matched_of_run hrun).answered 0 7 _ _ hcall).resolve_left (by decide)
  have hcalls : (AsyncTcpClient.calls (clientLabels answeredSchedule))[0]? = some (10, 7) := rfl
  obtain ⟨rfl, -⟩ := Prod.mk.inj (Option.some.inj (hcalls.symm.trans hd))
  exact ⟨x, tr, hrun, hcall, v, hpeer, hrequest⟩

end BoostAsio.AsyncExchange

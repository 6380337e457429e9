import Mathlib.Data.List.Nodup
import BoostAsio.Client.Async.Verdict

/-!
# The arguments of a callback

A session keeps what its own read has received until `std::getline` takes the first line
of it. The schedule tells which call created a session and what Asio delivered for it, so
the arguments of its callback can be read off the schedule alone.
-/

namespace BoostAsio.AsyncTcpClient

/-- The arguments of the calls of `EmulateLongComputationOp`, in their order. -/
def calls (labels : List Label) : List (UInt32 × UInt32) :=
  labels.filterMap fun
    | .emulate _ durationSec requestId => some (durationSec, requestId)
    | _ => none

/-- What Asio delivers for a session by one label. -/
def Label.delivery (s : SessionId) : Label → Option (Operation × ErrorCode × Bytes)
  | .deliver _ r p ec received => if r = s then some (p.op, ec, received) else none
  | _ => none

/-- What Asio has delivered for a session, with the bytes that came in. -/
def deliveries (s : SessionId) (labels : List Label) : List (Operation × ErrorCode × Bytes) :=
  labels.filterMap (Label.delivery s)

/-- The first line of what a successful read has received; nothing without such a read. -/
def answer (ds : List (Operation × ErrorCode × Bytes)) : Bytes :=
  match ds.find? fun d => d.1 == .read && d.2.1.value == 0 with
  | some d => d.2.2.takeWhile (· != lf)
  | none => []

/-- All of these results are successes. -/
def AllSucceeded (ds : List (Operation × ErrorCode × Bytes)) : Prop := ∀ d ∈ ds, d.2.1.value = 0

/-- The operations of a session in their order. -/
def Operation.chain : List Operation := [.connect, .write] ++ [.read]

theorem Operation.before_append (op : Operation) : op.before ++ [op] <+: Operation.chain := by
  cases op <;> decide

theorem Operation.before_next {op next : Operation} (h : op.next = some next) :
    op.before ++ [op] = next.before := by
  cases op <;> cases h <;> rfl

theorem Operation.eq_read_of_next {op : Operation} (h : op.next = none) : op = .read := by
  cases op <;> simp_all [Operation.next]

/-- Operations that were delivered in the order of the chain are different. -/
theorem nodup_of_prefix_chain {ops : List Operation} (h : ops <+: Operation.chain) : ops.Nodup :=
  h.sublist.nodup (by decide)

/-- Without a successful read there is no answer. -/
theorem answer_of_not_read {ds : List (Operation × ErrorCode × Bytes)}
    (h : ∀ d ∈ ds, d.1 = .read → d.2.1.value ≠ 0) : answer ds = [] := by
  have hnone : ds.find? (fun d => d.1 == .read && d.2.1.value == 0) = none := by
    rw [List.find?_eq_none]
    intro d hd hread
    simp only [Bool.and_eq_true, beq_iff_eq] at hread
    exact h d hd hread.1 hread.2
  rw [answer, hnone]

/-- The answer is the first line of the one successful read. -/
theorem answer_of_mem {ds : List (Operation × ErrorCode × Bytes)} {ec : ErrorCode}
    {received : Bytes} (hchain : ds.map Prod.fst <+: Operation.chain)
    (hm : (.read, ec, received) ∈ ds) (h0 : ec.value = 0) :
    answer ds = received.takeWhile (· != lf) := by
  cases hfind : ds.find? (fun d => d.1 == .read && d.2.1.value == 0) with
  | none =>
    rw [List.find?_eq_none] at hfind
    exact absurd (by simp [h0]) (hfind _ hm)
  | some d =>
    have hread := List.find?_some hfind
    simp only [Bool.and_eq_true, beq_iff_eq] at hread
    have hd : d = (.read, ec, received) :=
      List.inj_on_of_nodup_map (nodup_of_prefix_chain hchain) (List.mem_of_find?_eq_some hfind)
        hm hread.1
    rw [answer, hfind, hd]

theorem AllSucceeded.concat {ds : List (Operation × ErrorCode × Bytes)} {op : Operation}
    {ec : ErrorCode} {received : Bytes} (h : AllSucceeded ds) (h0 : ec.value = 0) :
    AllSucceeded (ds ++ [(op, ec, received)]) := by
  intro d hd
  rcases List.mem_append.mp hd with hold | hnew
  · exact h d hold
  · rw [List.mem_singleton.mp hnew]
    exact h0

/-- How far the chain of a session has come. -/
inductive Phase
  /-- The operation is about to be started, or pending. -/
  | before (op : Operation)
  | delivered (op : Operation) (ec : ErrorCode)
  /-- The read has succeeded, and its line was not taken yet. -/
  | received
  | over

/-- The phase of the session that a program point carries on. -/
def Frame.phase : Frame → Option (SessionId × Phase)
  | .openSocket s | .registerLock s | .registerInsert s | .registerUnlock s
  | .asyncConnect s => some (s, .before .connect)
  | .handler op ec s => some (s, .delivered op ec)
  | .lockGuard next s | .checkFlag next s | .startNext next s => some (s, .before next)
  | .getResponse s => some (s, .received)
  | .complete _ s _ => some (s, .over)
  | _ => none

theorem Frame.carries_of_phase {f : Frame} {s : SessionId} {ph : Phase}
    (h : f.phase = some (s, ph)) : f.carries = some s := by
  cases f <;> simp_all [Frame.phase, Frame.carries]

/-- What a session holds of what was delivered for it. -/
def Phase.Holds (x : Session) (ds : List (Operation × ErrorCode × Bytes)) : Phase → Prop
  | .before op => ds.map Prod.fst = op.before ∧ AllSucceeded ds ∧ x.responseBuf = [] ∧
      x.response = []
  | .delivered op ec => ∃ ds₀ received, ds = ds₀ ++ [(op, ec, received)] ∧
      ds₀.map Prod.fst = op.before ∧ AllSucceeded ds₀ ∧
      x.responseBuf = (if op = .read then received else []) ∧ x.response = []
  | .received => ∃ ds₀ ec received, ds = ds₀ ++ [(.read, ec, received)] ∧
      ds₀.map Prod.fst = Operation.read.before ∧ AllSucceeded ds₀ ∧ ec.value = 0 ∧
      x.responseBuf = received ∧ x.response = []
  | .over => ds.map Prod.fst <+: Operation.chain ∧ AllSucceeded ds.dropLast ∧
      x.response = answer ds

section

variable {x x' : Session} {ds : List (Operation × ErrorCode × Bytes)} {op next : Operation}
  {ec : ErrorCode}

/-- Only the buffer and the response of a session count. -/
theorem Phase.Holds.congr {ph : Phase} (h : ph.Holds x ds) (hbuf : x'.responseBuf = x.responseBuf)
    (hresponse : x'.response = x.response) : ph.Holds x' ds := by
  cases ph <;> simpa only [Phase.Holds, hbuf, hresponse] using h

/-- A result of the operation that a session waits for comes in. -/
theorem Phase.Holds.deliver {p : Pending} {received : Bytes}
    (h : (Phase.before p.op).Holds x ds) :
    (Phase.delivered p.op ec).Holds (x.finish p received) (ds ++ [(p.op, ec, received)]) := by
  obtain ⟨hops, hall, hbuf, hresponse⟩ := h
  refine ⟨ds, received, rfl, hops, hall, ?_, hresponse⟩
  simp only [Session.finish, hbuf, List.nil_append]

/-- The handler of an operation that failed, and a handler that finds the flag set, leave no
answer. -/
theorem Phase.Holds.fail (h : (Phase.delivered op ec).Holds x ds) (hec : ec.value ≠ 0) :
    Phase.over.Holds x ds := by
  obtain ⟨ds₀, received, rfl, hops, hall, -, hresponse⟩ := h
  refine ⟨?_, by rwa [List.dropLast_concat], ?_⟩
  · rw [List.map_append, hops]
    exact op.before_append
  · rw [hresponse]
    refine (answer_of_not_read fun d hd hread => ?_).symm
    rcases List.mem_append.mp hd with hold | hnew
    · have hbefore : d.1 ∈ op.before := hops ▸ List.mem_map_of_mem hold
      rw [hread] at hbefore
      cases op <;> simp [Operation.before] at hbefore
    · rw [List.mem_singleton.mp hnew]
      exact hec

theorem Phase.Holds.abort (h : (Phase.before op).Holds x ds) : Phase.over.Holds x ds := by
  obtain ⟨hops, hall, -, hresponse⟩ := h
  refine ⟨?_, fun d hd => hall d (List.dropLast_subset ds hd), ?_⟩
  · rw [hops]
    exact (List.prefix_append ..).trans op.before_append
  · rw [hresponse]
    refine (answer_of_not_read fun d hd hread => ?_).symm
    have hbefore : d.1 ∈ op.before := hops ▸ List.mem_map_of_mem hd
    rw [hread] at hbefore
    cases op <;> simp [Operation.before] at hbefore

/-- The handler of an operation that succeeded goes on to the next one. -/
theorem Phase.Holds.proceed (h : (Phase.delivered op ec).Holds x ds) (hnext : op.next = some next)
    (h0 : ec.value = 0) : (Phase.before next).Holds x ds := by
  obtain ⟨ds₀, received, rfl, hops, hall, hbuf, hresponse⟩ := h
  have hread : op ≠ .read := by
    rintro rfl
    cases hnext
  refine ⟨?_, hall.concat h0, by rw [hbuf, if_neg hread], hresponse⟩
  rw [List.map_append, hops]
  exact Operation.before_next hnext

/-- The handler of a read that succeeded goes on to its line. -/
theorem Phase.Holds.last (h : (Phase.delivered op ec).Holds x ds) (hnext : op.next = none)
    (h0 : ec.value = 0) : Phase.received.Holds x ds := by
  obtain rfl := Operation.eq_read_of_next hnext
  obtain ⟨ds₀, received, rfl, hops, hall, hbuf, hresponse⟩ := h
  exact ⟨ds₀, ec, received, rfl, hops, hall, h0, by simpa using hbuf, hresponse⟩

/-- `std::getline` stores the first line of what the read has received. -/
theorem Phase.Holds.getResponse (h : Phase.received.Holds x ds) :
    Phase.over.Holds x.getResponse ds := by
  obtain ⟨ds₀, ec, received, rfl, hops, hall, h0, hbuf, hresponse⟩ := h
  have hchain : (ds₀ ++ [(Operation.read, ec, received)]).map Prod.fst <+: Operation.chain := by
    rw [List.map_append, hops]
    exact Operation.read.before_append
  refine ⟨hchain, by rwa [List.dropLast_concat], ?_⟩
  rw [answer_of_mem hchain (List.mem_append_right _ (List.mem_singleton_self _)) h0, ← hbuf]
  exact IStream.getline_ofBuf_snd ..

end

@[simp] theorem deliveries_append (s : SessionId) (labels : List Label) (l : Label) :
    deliveries s (labels ++ [l]) = deliveries s labels ++ (l.delivery s).toList := by
  rw [deliveries, List.filterMap_append, ← deliveries]
  cases h : l.delivery s <;> simp [h]

section

variable {n : Nat} {σ σ' : State} {es : List Event} {l : Label} {t : ThreadId} {s : SessionId}

/-- A step adds to a session by a delivery, takes its line, or leaves what it holds. -/
theorem Step.buffer_cases (h : Step n σ l σ' es) (hs : s ≠ σ.count) :
    (∃ t p ec received, l = .deliver t s p ec received ∧ σ'.threads t = .handler p.op ec s ∧
      p ∈ (σ.sessions s).pending) ∨
    (∃ t, σ.threads t = .getResponse s ∧ σ'.threads t = .complete .shutdown s false) ∨
    l.delivery s = none ∧ (σ'.sessions s).responseBuf = (σ.sessions s).responseBuf ∧
      (σ'.sessions s).response = (σ.sessions s).response := by
  cases h with
  | @deliver t r p ec received hpool ht hp =>
    by_cases hr : s = r
    · subst hr
      exact Or.inl ⟨t, p, ec, received, rfl, by simp, hp⟩
    · exact Or.inr (Or.inr ⟨by simp [Label.delivery, Ne.symm hr], by simp [hr], by simp [hr]⟩)
  | @getResponse t r ht =>
    by_cases hr : s = r
    · subst hr
      exact Or.inr (Or.inl ⟨t, ht, by simp⟩)
    · exact Or.inr (Or.inr ⟨rfl, by simp [hr], by simp [hr]⟩)
  | emulate => exact Or.inr (Or.inr ⟨rfl, by simp [hs], by simp [hs]⟩)
  | asyncConnect | cancelLockGuard | cancelSetFlag | cancelSocket | cancelUnlockGuard
  | handlerFailed | lockGuard | startNext | leave =>
    refine Or.inr (Or.inr ⟨rfl, ?_, ?_⟩)
    · rw [State.sessions_goto, State.sessions_modify_keep Session.responseBuf rfl]
    · rw [State.sessions_goto, State.sessions_modify_keep Session.response rfl]
  | _ => exact Or.inr (Or.inr ⟨rfl, rfl, rfl⟩)

/-- How a thread comes to carry a session in a phase. -/
theorem Step.new_phase (h : Step n σ l σ' es) {ph : Phase}
    (ht : (σ'.threads t).phase = some (s, ph)) :
    (σ.threads t).phase = some (s, ph) ∨
    (s = σ.count ∧ ph = .before .connect ∧ l.delivery s = none ∧
      ∃ request id, σ'.sessions s = .new request id) ∨
    (∃ p ec received, l = .deliver t s p ec received ∧ p ∈ (σ.sessions s).pending ∧
      ph = .delivered p.op ec ∧ σ'.sessions s = (σ.sessions s).finish p received) ∨
    (∃ op ec, σ.threads t = .handler op ec s ∧ (ec.value ≠ 0 ∧ ph = .over ∨
      ec.value = 0 ∧ op.next = none ∧ ph = .received ∨
      ec.value = 0 ∧ ∃ next, op.next = some next ∧ ph = .before next)) ∨
    (∃ next, σ.threads t = .checkFlag next s ∧ ph = .over) ∨
    (σ.threads t = .getResponse s ∧ ph = .over ∧ l.delivery s = none ∧
      σ'.sessions s = (σ.sessions s).getResponse) := by
  by_cases htl : t = l.thread
  · subst htl
    cases h with
    | @deliver u r p ec received hpool hu hp =>
      simp only [Label.thread, State.threads_goto, ite_true, Frame.phase, Option.some.injEq,
        Prod.mk.injEq] at ht
      obtain ⟨rfl, rfl⟩ := ht
      exact Or.inr (Or.inr (Or.inl ⟨p, ec, received, rfl, hp, rfl, by simp⟩))
    | handlerFailed hu hec | handlerLast hu hec | handlerNext hu hec =>
      simp only [Label.thread, State.threads_goto, ite_true, Frame.phase, Option.some.injEq,
        Prod.mk.injEq] at ht
      obtain ⟨rfl, rfl⟩ := ht
      exact Or.inr (Or.inr (Or.inr (Or.inl ⟨_, _, hu, by simp_all⟩)))
    | checkCancelled hu =>
      simp only [Label.thread, State.threads_goto, ite_true, Frame.phase, Option.some.injEq,
        Prod.mk.injEq] at ht
      obtain ⟨rfl, rfl⟩ := ht
      exact Or.inr (Or.inr (Or.inr (Or.inr (Or.inl ⟨_, hu, rfl⟩))))
    | @getResponse u r hu =>
      simp only [Label.thread, State.threads_goto, ite_true, Frame.phase, Option.some.injEq,
        Prod.mk.injEq] at ht
      obtain ⟨rfl, rfl⟩ := ht
      exact Or.inr (Or.inr (Or.inr (Or.inr (Or.inr ⟨hu, rfl, rfl, by simp⟩))))
    | @emulate u d id =>
      simp only [Label.thread, State.threads_create, ite_true, Frame.phase, Option.some.injEq,
        Prod.mk.injEq] at ht
      obtain ⟨rfl, rfl⟩ := ht
      exact Or.inr (Or.inl ⟨rfl, rfl, rfl, encodeRequest d, id, by simp⟩)
    | _ => exact Or.inl (by simp_all [Label.thread, Frame.phase])
  · exact Or.inl (h.threads_of_ne htl ▸ ht)

/-- An operation that is pending was pending before, or a thread was about to start it. -/
theorem Step.pending_phase (h : Step n σ l σ' es) {p : Pending}
    (hp : p ∈ (σ'.sessions s).pending) :
    (∃ q ∈ (σ.sessions s).pending, q.op = p.op) ∨
      ∃ t, (σ.threads t).phase = some (s, .before p.op) ∧ (σ'.threads t).carries = none := by
  have hstart : ∀ {op t}, p ∈ (σ.sessions s).pending ++ [⟨op, false⟩] →
      (σ.threads t).phase = some (s, .before op) → (σ'.threads t).carries = none →
      (∃ q ∈ (σ.sessions s).pending, q.op = p.op) ∨
        ∃ t, (σ.threads t).phase = some (s, .before p.op) ∧ (σ'.threads t).carries = none := by
    intro op t hm hphase hnone
    rcases List.mem_append.mp hm with hold | hnew
    · exact Or.inl ⟨p, hold, rfl⟩
    · rw [List.mem_singleton.mp hnew]
      exact Or.inr ⟨t, hphase, hnone⟩
  cases h with
  | @asyncConnect t r ht | @startNext t next r ht =>
    by_cases hr : s = r
    · subst hr
      simp only [State.sessions_goto, State.sessions_modify, ite_true, Session.start] at hp
      exact hstart (t := t) hp (by simp [ht, Frame.phase]) (by simp [Frame.carries])
    · exact Or.inl ⟨p, by simpa [hr] using hp, rfl⟩
  | @cancelSocket t r ht =>
    by_cases hr : s = r
    · subst hr
      simp only [State.sessions_goto, State.sessions_modify, ite_true, Session.cancelSocket,
        List.mem_map] at hp
      obtain ⟨q, hq, rfl⟩ := hp
      exact Or.inl ⟨q, hq, rfl⟩
    · exact Or.inl ⟨p, by simpa [hr] using hp, rfl⟩
  | @deliver t r q ec received hpool ht hq =>
    by_cases hr : s = r
    · subst hr
      exact Or.inl ⟨p, List.mem_of_mem_erase (by simpa [Session.finish] using hp), rfl⟩
    · exact Or.inl ⟨p, by simpa [hr] using hp, rfl⟩
  | emulate =>
    by_cases hs : s = σ.count
    · simp [hs, Session.new] at hp
    · exact Or.inl ⟨p, by simpa [hs] using hp, rfl⟩
  | cancelLockGuard | cancelSetFlag | cancelUnlockGuard | handlerFailed | lockGuard | getResponse
  | leave =>
    rw [State.sessions_goto, State.sessions_modify_keep Session.pending rfl] at hp
    exact Or.inl ⟨p, hp, rfl⟩
  | _ => exact Or.inl ⟨p, hp, rfl⟩

/-- A session keeps the request text of its call. -/
theorem Step.request_eq (h : Step n σ l σ' es) (hs : s ≠ σ.count) :
    (σ'.sessions s).request = (σ.sessions s).request := by
  cases h with
  | emulate => simp [hs]
  | asyncConnect | cancelLockGuard | cancelSetFlag | cancelSocket | cancelUnlockGuard | deliver
  | handlerFailed | lockGuard | startNext | getResponse | leave =>
    rw [State.sessions_goto, State.sessions_modify_keep Session.request rfl]
  | _ => rfl

/-- A call of `EmulateLongComputationOp` creates the next session from its arguments. -/
theorem Step.call_cases (h : Step n σ l σ' es) (labels : List Label) :
    (∃ durationSec requestId, calls (labels ++ [l]) = calls labels ++ [(durationSec, requestId)] ∧
      σ'.count = σ.count + 1 ∧
      σ'.sessions σ.count = .new (encodeRequest durationSec) requestId) ∨
    calls (labels ++ [l]) = calls labels ∧ σ'.count = σ.count := by
  cases h with
  | @emulate t d id => exact Or.inl ⟨d, id, by simp [calls], rfl, by simp⟩
  | _ => exact Or.inr ⟨by simp [calls], rfl⟩

/-- A session that a thread carries is changed by taking its line only. -/
theorem Holds.buffer_cases {tr : List Event} {place : SessionId → Custody}
    (hp : Holds σ tr place) (h : Step n σ l σ' es) (ht : (σ.threads t).carries = some s) :
    (σ.threads t = .getResponse s ∧ σ'.threads t = .complete .shutdown s false) ∨
      l.delivery s = none ∧ (σ'.sessions s).responseBuf = (σ.sessions s).responseBuf ∧
        (σ'.sessions s).response = (σ.sessions s).response := by
  rcases h.buffer_cases (Nat.ne_of_lt (hp.lt_count ht)) with
    ⟨u, p, ec, received, -, -, hpending⟩ | ⟨u, hu, hu'⟩ | hkeep
  · simp [hp.pending_of_carried ht] at hpending
  · obtain rfl := hp.unique ht (show (σ.threads u).carries = some s by rw [hu]; rfl)
    exact Or.inl ⟨hu, hu'⟩
  · exact Or.inr hkeep

end

/-- A point before the registration or behind the erase is at one end of the chain. -/
theorem Frame.phase_of_unregistered {f : Frame} {s : SessionId}
    (h : f.unregistered = some s) :
    f.phase = some (s, .before .connect) ∨ f.phase = some (s, .over) := by
  cases f with
  | complete point r guarded => cases point <;> simp_all [Frame.unregistered, Frame.phase]
  | _ => simp_all [Frame.unregistered, Frame.phase]

/-- Each session belongs to its call and holds what was delivered for it. -/
structure Answers (σ : State) (tr : List Event) (labels : List Label) : Prop where
  length : (calls labels).length = σ.count
  created : ∀ s < σ.count, ∃ durationSec,
    (calls labels)[s]? = some (durationSec, (σ.sessions s).id) ∧
      (σ.sessions s).request = encodeRequest durationSec
  fresh : ∀ s, σ.count ≤ s → deliveries s labels = []
  thread : ∀ t s ph, (σ.threads t).phase = some (s, ph) →
    ph.Holds (σ.sessions s) (deliveries s labels)
  pending : ∀ s, ∀ p ∈ (σ.sessions s).pending,
    (Phase.before p.op).Holds (σ.sessions s) (deliveries s labels)
  ended : ∀ s, Ended tr s → Phase.over.Holds (σ.sessions s) (deliveries s labels)

theorem Answers.init : Answers State.init [] [] where
  length := rfl
  created s h := absurd h (Nat.not_lt_zero s)
  fresh s _ := rfl
  thread t s ph h := by simp [State.init, Frame.phase] at h
  pending s p h := by simp [State.init, Session.new] at h
  ended s h := by simp [Ended] at h

section

variable {n : Nat} {σ σ' : State} {tr es : List Event} {labels : List Label} {l : Label}
  {place place' : SessionId → Custody}

/-- The calls and the sessions are created together, and a session keeps its arguments. -/
theorem Answers.created_step (hi : Answers σ tr labels) (h : Step n σ l σ' es) :
    (calls (labels ++ [l])).length = σ'.count ∧
      ∀ s < σ'.count, ∃ durationSec,
        (calls (labels ++ [l]))[s]? = some (durationSec, (σ'.sessions s).id) ∧
          (σ'.sessions s).request = encodeRequest durationSec := by
  have hold : ∀ {s}, s < σ.count → ∃ durationSec,
      (calls labels)[s]? = some (durationSec, (σ'.sessions s).id) ∧
        (σ'.sessions s).request = encodeRequest durationSec := by
    intro s hs
    rw [h.id_eq hs, h.request_eq (Nat.ne_of_lt hs)]
    exact hi.created s hs
  rcases h.call_cases labels with ⟨d, id, hcalls, hcount, hnew⟩ | ⟨hcalls, hcount⟩
  · rw [hcalls, hcount]
    refine ⟨by rw [List.length_append, hi.length]; rfl, fun s hs => ?_⟩
    rcases Nat.lt_succ_iff_lt_or_eq.mp hs with hlt | rfl
    · rw [List.getElem?_append_left (by rw [hi.length]; exact hlt)]
      exact hold hlt
    · refine ⟨d, ?_, by rw [hnew]; rfl⟩
      rw [List.getElem?_append_right (Nat.le_of_eq hi.length), hi.length, Nat.sub_self, hnew]
      rfl
  · rw [hcalls, hcount]
    exact ⟨hi.length, fun s hs => hold hs⟩

/-- A thread carries a session as it was left to it. -/
theorem Answers.thread_step (hi : Answers σ tr labels) (hp : Holds σ tr place)
    (h : Step n σ l σ' es) {t : ThreadId} {s : SessionId} {ph : Phase}
    (ht : (σ'.threads t).phase = some (s, ph)) :
    ph.Holds (σ'.sessions s) (deliveries s (labels ++ [l])) := by
  have hkeep : ∀ {ph : Phase}, (σ.threads t).carries = some s → σ.threads t ≠ .getResponse s →
      ph.Holds (σ.sessions s) (deliveries s labels) →
      ph.Holds (σ'.sessions s) (deliveries s (labels ++ [l])) := by
    intro ph hcarried hne hholds
    rcases hp.buffer_cases h hcarried with ⟨hget, -⟩ | ⟨hnone, hbuf, hresponse⟩
    · exact absurd hget hne
    · rw [deliveries_append, hnone, Option.toList_none, List.append_nil]
      exact hholds.congr hbuf hresponse
  rcases h.new_phase ht with hold | ⟨rfl, rfl, hnone, request, id, hx⟩ |
    ⟨p, ec, received, rfl, hpending, rfl, hx⟩ | ⟨op, ec, hu, hph⟩ | ⟨next, hu, rfl⟩ |
    ⟨hu, rfl, hnone, hx⟩
  · have hcarried := Frame.carries_of_phase hold
    rcases hp.buffer_cases h hcarried with ⟨hget, hcomplete⟩ | ⟨hnone, hbuf, hresponse⟩
    · rw [hget] at hold
      rw [hcomplete] at ht
      simp only [Frame.phase, Option.some.injEq, Prod.mk.injEq, true_and] at hold ht
      rw [← hold] at ht
      cases ht
    · rw [deliveries_append, hnone, Option.toList_none, List.append_nil]
      exact (hi.thread t s ph hold).congr hbuf hresponse
  · rw [deliveries_append, hnone, hi.fresh _ le_rfl, hx]
    exact ⟨rfl, fun d hd => absurd hd List.not_mem_nil, rfl, rfl⟩
  · rw [deliveries_append, hx]
    simpa [Label.delivery] using (hi.pending s p hpending).deliver
  · have hhandler := hi.thread t s (.delivered op ec) (by simp [hu, Frame.phase])
    apply hkeep (by simp [hu, Frame.carries]) (by simp [hu])
    rcases hph with ⟨hec, rfl⟩ | ⟨h0, hnext, rfl⟩ | ⟨h0, next, hnext, rfl⟩
    · exact hhandler.fail hec
    · exact hhandler.last hnext h0
    · exact hhandler.proceed hnext h0
  · have hcheck := hi.thread t s (.before next) (by simp [hu, Frame.phase])
    exact hkeep (by simp [hu, Frame.carries]) (by simp [hu]) hcheck.abort
  · rw [deliveries_append, hnone, Option.toList_none, List.append_nil, hx]
    exact (hi.thread t s .received (by simp [hu, Frame.phase])).getResponse

/-- A session waits for an operation as it was when the operation was started. -/
theorem Answers.pending_step (hi : Answers σ tr labels) (hp : Holds σ tr place)
    (hp' : Holds σ' (tr ++ es) place') (hs : Scoped σ) (h : Step n σ l σ' es) {s : SessionId}
    {p : Pending} (hpending : p ∈ (σ'.sessions s).pending) :
    (Phase.before p.op).Holds (σ'.sessions s) (deliveries s (labels ++ [l])) := by
  rcases h.pending_phase hpending with ⟨q, hq, hop⟩ | ⟨t, ht, -⟩
  · have hlt := hs.pending s (List.ne_nil_of_mem hq)
    rcases h.buffer_cases (Nat.ne_of_lt hlt) with
      ⟨u, r, ec, received, -, hu, -⟩ | ⟨u, hu, -⟩ | ⟨hnone, hbuf, hresponse⟩
    · have hnil := hp'.pending_of_carried (show (σ'.threads u).carries = some s by rw [hu]; rfl)
      rw [hnil] at hpending
      cases hpending
    · have hnil := hp.pending_of_carried (show (σ.threads u).carries = some s by rw [hu]; rfl)
      rw [hnil] at hq
      cases hq
    · rw [deliveries_append, hnone, Option.toList_none, List.append_nil, ← hop]
      exact (hi.pending s q hq).congr hbuf hresponse
  · rcases hp.buffer_cases h (Frame.carries_of_phase ht) with
      ⟨hget, -⟩ | ⟨hnone, hbuf, hresponse⟩
    · simp [hget, Frame.phase] at ht
    · rw [deliveries_append, hnone, Option.toList_none, List.append_nil]
      exact (hi.thread t s _ ht).congr hbuf hresponse

/-- A session whose chain is over is left as it is. -/
theorem Answers.ended_step (hi : Answers σ tr labels) (hp : Holds σ tr place)
    (h : Step n σ l σ' es) {s : SessionId} (he : Ended (tr ++ es) s) :
    Phase.over.Holds (σ'.sessions s) (deliveries s (labels ++ [l])) := by
  rcases ended_append.mp he with hold | hnew
  · have hplace := (hp.ended s).mpr hold
    have hlt : s < σ.count := Nat.lt_of_not_le fun hle => by
      rw [(hp.unborn s).mpr hle] at hplace
      cases hplace
    rcases h.buffer_cases (Nat.ne_of_lt hlt) with
      ⟨u, p, ec, received, -, -, hpending⟩ | ⟨u, hu, -⟩ | ⟨hnone, hbuf, hresponse⟩
    · rw [hp.quiet s (by simp [hplace])] at hpending
      cases hpending
    · exact absurd hold (hp.not_ended (show (σ.threads u).carries = some s by rw [hu]; rfl))
    · rw [deliveries_append, hnone, Option.toList_none, List.append_nil]
      exact (hi.ended s hold).congr hbuf hresponse
  · obtain ⟨t, ht, -⟩ := h.ended hnew
    rcases hp.buffer_cases h (Frame.carries_of_unregistered ht) with
      ⟨hget, -⟩ | ⟨hnone, hbuf, hresponse⟩
    · simp [hget, Frame.unregistered] at ht
    · rw [deliveries_append, hnone, Option.toList_none, List.append_nil]
      rcases Frame.phase_of_unregistered ht with hbefore | hover
      · exact (hi.thread t s _ hbefore).abort.congr hbuf hresponse
      · exact (hi.thread t s _ hover).congr hbuf hresponse

/-- Nothing is delivered for a session that does not exist. -/
theorem Answers.fresh_step (hi : Answers σ tr labels) (hs : Scoped σ) (h : Step n σ l σ' es)
    {s : SessionId} (hle : σ'.count ≤ s) : deliveries s (labels ++ [l]) = [] := by
  have hle' := h.count_le.trans hle
  rw [deliveries_append, hi.fresh s hle', List.nil_append]
  cases h with
  | @deliver t r p ec received hpool ht hp =>
    have hr : r ≠ s := Nat.ne_of_lt ((hs.pending r (List.ne_nil_of_mem hp)).trans_le hle')
    simp [Label.delivery, hr]
  | _ => rfl

end

/-- Every run keeps each session with its call and with what was delivered for it. -/
theorem Run.answers {n : Nat} {labels : List Label} {σ : State} {tr : List Event}
    (h : Run n labels σ tr) : Answers σ tr labels := by
  refine System.exec_induction (P := fun labels σ tr => Answers σ tr labels) .init ?_ h
  intro labels σ tr l σ' es hrun hi hstep
  have hs := step_cases hstep
  have hrun' : Run n (labels ++ [l]) σ' (tr ++ es) :=
    System.exec_snoc.mpr ⟨σ, tr, es, hrun, hstep, rfl⟩
  obtain ⟨place, hp⟩ := Run.holds hrun
  obtain ⟨place', hp'⟩ := hrun'.holds
  have hscoped := Run.scoped hrun
  exact ⟨(hi.created_step hs).1, (hi.created_step hs).2,
    fun s hle => hi.fresh_step hscoped hs hle, fun t s ph ht => hi.thread_step hp hs ht,
    fun s p hm => hi.pending_step hp hp' hscoped hs hm, fun s he => hi.ended_step hp hs he⟩

/-- The operation and the result that an event delivers for a session. -/
def Event.delivery (s : SessionId) : Event → Option (Operation × ErrorCode)
  | .delivered r op ec => if r = s then some (op, ec) else none
  | _ => none

/-- The trace shows the deliveries of the schedule. -/
theorem Run.deliveries_eq {n : Nat} {labels : List Label} {σ : State} {tr : List Event}
    (h : Run n labels σ tr) (s : SessionId) :
    (deliveries s labels).map (fun d => (d.1, d.2.1)) = tr.filterMap (Event.delivery s) := by
  refine System.exec_induction (P := fun labels _ tr =>
    (deliveries s labels).map (fun d => (d.1, d.2.1)) = tr.filterMap (Event.delivery s)) rfl ?_ h
  intro labels σ tr l σ' es _ ih hstep
  rw [deliveries_append, List.map_append, List.filterMap_append, ih]
  congr 1
  cases step_cases hstep with
  | @deliver t r p ec received =>
    by_cases hr : r = s <;> simp [Label.delivery, Event.delivery, hr]
  | _ => simp [Label.delivery, Event.delivery]

section

variable {n : Nat} {labels : List Label} {σ : State} {tr : List Event} {s : SessionId}
  {id : UInt32} {response : Bytes} {ec : ErrorCode}

/-- A callback is invoked with the id and the response of its session. -/
theorem Step.callback_payload {σ' : State} {es : List Event} {l : Label}
    (h : Step n σ l σ' es) (hm : .callback s id response ec ∈ es) :
    id = (σ'.sessions s).id ∧ response = (σ'.sessions s).response := by
  cases h with
  | @callback t r guarded e ht =>
    simp only [List.mem_singleton, Event.callback.injEq] at hm
    obtain ⟨rfl, rfl, rfl, -⟩ := hm
    exact ⟨rfl, rfl⟩
  | _ => simp at hm

/-- A session whose callback was invoked is in it, or has ended. -/
theorem Run.called_or_completed (h : Run n labels σ tr)
    (hm : .callback s id response ec ∈ tr) :
    (∃ t, (σ.threads t).called = some s) ∨ .completed s ∈ tr := by
  by_contra hnot
  rw [not_or, not_exists] at hnot
  have hzero := h.calls.before s hnot.2 hnot.1
  exact absurd (List.countP_eq_zero.mp hzero _ hm) (by simp [Event.isCallback])

theorem Frame.phase_of_called {f : Frame} (h : f.called = some s) : f.phase = some (s, .over) := by
  cases f with
  | complete point r guarded => cases point <;> simp_all [Frame.called, Frame.phase]
  | _ => simp [Frame.called] at h

/-- A session whose callback was invoked was created, and its chain is over. -/
theorem Run.over_of_callback (h : Run n labels σ tr) (hm : .callback s id response ec ∈ tr) :
    s < σ.count ∧ Phase.over.Holds (σ.sessions s) (deliveries s labels) := by
  obtain ⟨place, hp⟩ := h.holds
  rcases h.called_or_completed hm with ⟨t, ht⟩ | hcompleted
  · exact ⟨hp.lt_count (Frame.carries_of_called ht),
      h.answers.thread t s .over (Frame.phase_of_called ht)⟩
  · refine ⟨Nat.lt_of_not_le fun hle => ?_, h.answers.ended s (Or.inl hcompleted)⟩
    have hplace := (hp.ended s).mpr (Or.inl hcompleted)
    rw [(hp.unborn s).mpr hle] at hplace
    cases hplace

/-- The response of a session whose callback was invoked does not change any more. -/
theorem Run.response_eq_of_callback {σ' : State} {es : List Event} {l : Label}
    (h : Run n labels σ tr) (hs : Step n σ l σ' es) (hm : .callback s id response ec ∈ tr) :
    (σ'.sessions s).response = (σ.sessions s).response := by
  obtain ⟨place, hp⟩ := h.holds
  have hlt := (h.over_of_callback hm).1
  rcases hs.buffer_cases (Nat.ne_of_lt hlt) with
    ⟨u, p, e, received, -, -, hpending⟩ | ⟨u, hu, -⟩ | ⟨-, -, hresponse⟩
  · rw [(settled_of_callback h hm).quiet] at hpending
    cases hpending
  · have hcarried : (σ.threads u).carries = some s := by rw [hu]; rfl
    rcases h.called_or_completed hm with ⟨t, ht⟩ | hcompleted
    · obtain rfl := hp.unique hcarried (Frame.carries_of_called ht)
      simp [hu, Frame.called] at ht
    · exact absurd (Or.inl hcompleted) (hp.not_ended hcarried)
  · exact hresponse

/-- What a callback was invoked with stays with its session. -/
theorem Run.callback_eq (h : Run n labels σ tr) (hm : .callback s id response ec ∈ tr) :
    id = (σ.sessions s).id ∧ response = (σ.sessions s).response := by
  revert hm
  refine System.exec_induction (P := fun _ σ tr => .callback s id response ec ∈ tr →
    id = (σ.sessions s).id ∧ response = (σ.sessions s).response) (by simp) ?_ h
  intro labels σ tr l σ' es hrun ih hstep hm
  have hs := step_cases hstep
  rcases List.mem_append.mp hm with hold | hnew
  · rw [hs.id_eq (Run.over_of_callback hrun hold).1, Run.response_eq_of_callback hrun hs hold]
    exact ih hold
  · exact hs.callback_payload hnew

/-- The trace and the schedule show the same results of a session. -/
theorem Run.mem_delivered_iff (h : Run n labels σ tr) {op : Operation} {e : ErrorCode} :
    .delivered s op e ∈ tr ↔ ∃ received, (op, e, received) ∈ deliveries s labels := by
  have hsame : .delivered s op e ∈ tr ↔
      (op, e) ∈ (deliveries s labels).map fun d => (d.1, d.2.1) := by
    rw [h.deliveries_eq, List.mem_filterMap]
    constructor
    · intro hd
      exact ⟨_, hd, by simp [Event.delivery]⟩
    · rintro ⟨event, hevent, hd⟩
      cases event with
      | delivered r o c =>
        simp only [Event.delivery, Option.ite_none_right_eq_some, Option.some.injEq,
          Prod.mk.injEq] at hd
        obtain ⟨rfl, rfl, rfl⟩ := hd
        exact hevent
      | _ => simp [Event.delivery] at hd
  rw [hsame, List.mem_map]
  constructor
  · rintro ⟨⟨o, c, received⟩, hd, heq⟩
    obtain ⟨rfl, rfl⟩ := Prod.mk.inj heq
    exact ⟨received, hd⟩
  · rintro ⟨received, hd⟩
    exact ⟨_, hd, rfl⟩

/-- The results of a session that is called back with success: all three, each a success. -/
theorem Run.deliveries_of_success (h : Run n labels σ tr)
    (hm : .callback s id response ec ∈ tr) (h0 : ec.value = 0) :
    (deliveries s labels).map Prod.fst = Operation.chain ∧ AllSucceeded (deliveries s labels) := by
  have hv := h.verdicts.called s id response ec hm
  have hfound : .found s ∉ tr := fun hf => hv.cancelled hf h0
  obtain ⟨e, he, -⟩ := hv.succeeded hfound h0 .read
  obtain ⟨received, hd⟩ := h.mem_delivered_iff.mp he
  have hread : Operation.read ∈ (deliveries s labels).map Prod.fst :=
    List.mem_map.mpr ⟨_, hd, rfl⟩
  refine ⟨?_, fun d hd => ?_⟩
  · rcases List.prefix_concat_iff.mp (h.over_of_callback hm).2.1 with hall | hfront
    · exact hall
    · exact absurd (hfront.subset hread) (by decide)
  · by_contra hd0
    have hdelivered := h.mem_delivered_iff.mpr ⟨d.2.2, hd⟩
    have hec := hv.only hfound d.1 d.2.1 hdelivered hd0
    rw [← hec] at hd0
    exact hd0 h0

/-- The results of a session that is called back with a failure: it is the code of the last of
them, the others being successes, or a cancellation has found the session and none failed. -/
theorem Run.deliveries_of_failure (h : Run n labels σ tr)
    (hm : .callback s id response ec ∈ tr) (hec : ec.value ≠ 0) :
    (∃ ds op received, deliveries s labels = ds ++ [(op, ec, received)] ∧ AllSucceeded ds) ∨
      .found s ∈ tr ∧ ec = .operationAborted ∧ AllSucceeded (deliveries s labels) := by
  rcases (h.verdicts.called s id response ec hm).failed hec with
    ⟨op, hop⟩ | ⟨hfound, haborted, hall⟩
  · obtain ⟨received, hd⟩ := h.mem_delivered_iff.mp hop
    have hfront := (h.over_of_callback hm).2.2.1
    have hlast := List.dropLast_concat_getLast (List.ne_nil_of_mem hd)
    rw [← hlast, List.mem_append, List.mem_singleton] at hd
    rcases hd with hold | hnew
    · exact absurd (hfront _ hold) hec
    · exact Or.inl ⟨_, op, received, by rw [hnew, hlast], hfront⟩
  · exact Or.inr ⟨hfound, haborted, fun d hd => hall d.1 d.2.1 (h.mem_delivered_iff.mpr ⟨_, hd⟩)⟩

/-- Every callback is made for one call, with its id, after at most one result of each of the
operations in their order, and with the first line of what the session's own read has
received. With success all three have succeeded. A failure is the code of the session's first
failed operation, with which its results end; or it is the abort of a session that a
cancellation has found and none of whose operations failed. -/
theorem callback_arguments (h : Run n labels σ tr) (hcall : .callback s id response ec ∈ tr) :
    (∃ durationSec, (calls labels)[s]? = some (durationSec, id) ∧
      (σ.sessions s).request = encodeRequest durationSec) ∧
    (deliveries s labels).map Prod.fst <+: Operation.chain ∧
    response = answer (deliveries s labels) ∧
    (ec.value = 0 → (∀ d ∈ deliveries s labels, d.2.1.value = 0) ∧
      ∃ e received, (.read, e, received) ∈ deliveries s labels ∧
        response = received.takeWhile (· != lf)) ∧
    (ec.value ≠ 0 →
      (∃ ds op received, deliveries s labels = ds ++ [(op, ec, received)] ∧
        ∀ d ∈ ds, d.2.1.value = 0) ∨
      .found s ∈ tr ∧ ec = .operationAborted ∧ ∀ d ∈ deliveries s labels, d.2.1.value = 0) := by
  obtain ⟨hlt, hchain, -, hanswer⟩ := h.over_of_callback hcall
  obtain ⟨hid, hresponse⟩ := h.callback_eq hcall
  rw [← hresponse] at hanswer
  refine ⟨?_, hchain, hanswer, fun h0 => ?_, h.deliveries_of_failure hcall⟩
  · rw [hid]
    exact h.answers.created s hlt
  · obtain ⟨hops, hall⟩ := h.deliveries_of_success hcall h0
    have hread : Operation.read ∈ (deliveries s labels).map Prod.fst := by
      rw [hops]
      decide
    obtain ⟨⟨op, e, received⟩, hd, rfl⟩ := List.mem_map.mp hread
    refine ⟨hall, e, received, hd, ?_⟩
    rw [hanswer, answer_of_mem hchain hd (hall _ hd)]

end

/-- Two requests under one id; the second one is answered first. -/
def crossingSchedule : List Label :=
  .emulate 2 10 7 :: List.replicate 5 (.run 2) ++ .emulate 2 11 7 :: List.replicate 5 (.run 2) ++
    .deliver 0 0 ⟨.connect, false⟩ .success [] :: List.replicate 5 (.run 0) ++
    .deliver 1 1 ⟨.connect, false⟩ .success [] :: List.replicate 5 (.run 1) ++
    .deliver 0 1 ⟨.write, false⟩ .success [] :: List.replicate 5 (.run 0) ++
    .deliver 1 0 ⟨.write, false⟩ .success [] :: List.replicate 5 (.run 1) ++
    .deliver 1 1 ⟨.read, false⟩ .success (ascii "two\nx") :: List.replicate 9 (.run 1) ++
    .deliver 0 0 ⟨.read, false⟩ .success (ascii "one\n") :: List.replicate 9 (.run 0)

/-- Each of the two requests is called back with its own line. -/
theorem crossingSchedule_answers :
    ∃ σ tr, Run 2 crossingSchedule σ tr ∧
      .callback 1 7 (ascii "two") .success ∈ tr ∧ .callback 0 7 (ascii "one") .success ∈ tr ∧
      answer (deliveries 1 crossingSchedule) = ascii "two" ∧
      (deliveries 0 crossingSchedule).map Prod.fst <+: Operation.chain := by
  obtain ⟨σ, tr, hrun, htwo, hone⟩ : ∃ σ tr, Run 2 crossingSchedule σ tr ∧
      .callback 1 7 (ascii "two") .success ∈ tr ∧ .callback 0 7 (ascii "one") .success ∈ tr :=
    ⟨_, _, rfl, by decide, by decide⟩
  exact ⟨σ, tr, hrun, htwo, hone, (callback_arguments hrun htwo).2.2.1.symm,
    (callback_arguments hrun hone).2.1⟩

end BoostAsio.AsyncTcpClient

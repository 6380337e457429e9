import BoostAsio.Core.ErrorCode
import BoostAsio.Core.Stream.IStream
import BoostAsio.Core.System.Run

/-!
# The server with a thread for each client

The thread of `Server::Run` accepts a connection, creates a `Service` and starts a detached
thread that runs `HandleClient`. A service that fails deletes itself in its `catch` block. One
that answers its client returns from the `try` block, and nobody deletes it.
-/

namespace BoostAsio.SyncTcpServerMt

open BoostAsio.System

/-- The identity of a `Service` object, in order of creation. -/
abbrev ServiceId := Nat

/-- Where `HandleClient` of a service is. -/
inductive Point
  /-- `StartHandlingClient` has not created the thread yet. -/
  | created
  /-- The thread exists. -/
  | started
  | readUntil
  /-- The loop and the sleep that stand for the work. -/
  | processing
  | write
  | caught (ec : ErrorCode)
  | deleteThis
  /-- Behind `delete this`. -/
  | returning
  | ended
  deriving DecidableEq, Repr

/-- The `Service` object; `deletions` counts how often `delete this` was executed. -/
structure Service where
  point : Point
  deletions : Nat
  deriving DecidableEq, Repr

/-- The constructor of `Service`. -/
def Service.new : Service := ⟨.created, 0⟩

/-- What the thread of a service does next. -/
inductive Action
  | run
  | readUntil (ec : ErrorCode)
  | write (ec : ErrorCode)
  deriving DecidableEq, Repr

/-- Where the thread of `Server::Run` is. -/
inductive AcceptPoint
  | testStop
  | accept
  | newService
  | startHandlingClient (s : ServiceId)
  | detach
  | returned
  /-- An exception has left the thread, which terminates the process. -/
  | terminated
  deriving DecidableEq, Repr

/-- Where `main` is. -/
inductive MainPoint
  | sleep
  | join
  | returned
  deriving DecidableEq, Repr

/-- The server, with all services that it ever created. -/
structure State where
  stop : Bool
  main : MainPoint
  acceptor : AcceptPoint
  services : List Service
  deriving DecidableEq, Repr

/-- The next step of one of the threads. -/
inductive Label
  | main
  | acceptor
  | accept (ec : ErrorCode)
  /-- The constructor of `std::thread`, which throws when there are no resources. -/
  | createThread (created : Bool)
  | handler (s : ServiceId) (a : Action)
  deriving DecidableEq, Repr

inductive Event
  | created (s : ServiceId)
  | sent (s : ServiceId) (response : Bytes)
  | printed (s : ServiceId) (ec : ErrorCode)
  | deleted (s : ServiceId)
  deriving DecidableEq, Repr

/-- `Server::Start`. -/
def start : State := ⟨false, .sleep, .testStop, []⟩

/-- `HandleClient`. The request is not looked at. -/
def handleClient (s : ServiceId) (v : Service) : Action → Option (Service × List Event)
  | .run =>
    match v.point with
    | .started => some ({ v with point := .readUntil }, [])
    | .processing => some ({ v with point := .write }, [])
    | .caught ec => some ({ v with point := .deleteThis }, [.printed s ec])
    | .deleteThis => some (⟨.returning, v.deletions + 1⟩, [.deleted s])
    | .returning => some ({ v with point := .ended }, [])
    | _ => none
  | .readUntil ec =>
    match v.point with
    | .readUntil => some ({ v with point := if ec.failed then .caught ec else .processing }, [])
    | _ => none
  | .write ec =>
    match v.point with
    | .write =>
      if ec.failed then some ({ v with point := .caught ec }, [])
      else some ({ v with point := .ended }, [.sent s (ascii "Response\n")])
    | _ => none

/-- The process is over. -/
def State.over (σ : State) : Prop := σ.acceptor = .terminated ∨ σ.main = .returned

instance (σ : State) : Decidable σ.over := inferInstanceAs (Decidable (_ ∨ _))

/-- The step of a thread. -/
def advance (σ : State) : Label → Option (State × List Event)
  | .main =>
    match σ.main with
    | .sleep => some ({ σ with stop := true, main := .join }, [])
    | .join => if σ.acceptor = .returned then some ({ σ with main := .returned }, []) else none
    | .returned => none
  | .acceptor =>
    match σ.acceptor with
    | .testStop => some ({ σ with acceptor := if σ.stop then .returned else .accept }, [])
    | .newService =>
      some ({ σ with
          services := σ.services ++ [.new]
          acceptor := .startHandlingClient σ.services.length }, [.created σ.services.length])
    | .detach => some ({ σ with acceptor := .testStop }, [])
    | _ => none
  | .accept ec =>
    match σ.acceptor with
    | .accept =>
      some ({ σ with acceptor := if ec.failed then .terminated else .newService }, [])
    | _ => none
  | .createThread created =>
    match σ.acceptor with
    | .startHandlingClient s =>
      if created then
        some ({ σ with
            services := σ.services.modify s fun v => { v with point := .started }
            acceptor := .detach }, [])
      else some ({ σ with acceptor := .terminated }, [])
    | _ => none
  | .handler s a =>
    σ.services[s]?.bind fun v =>
      (handleClient s v a).map fun (v', es) => ({ σ with services := σ.services.set s v' }, es)

/-- One step of the process. -/
def step (σ : State) (l : Label) : Option (State × List Event) :=
  if σ.over then none else advance σ l

/-- The service has not been started, or `delete this` is still ahead of it. -/
def Point.serving : Point → Bool
  | .created | .started | .readUntil | .processing | .write | .caught _ | .deleteThis => true
  | .returning | .ended => false

/-- The write that answers the client succeeds. -/
def Action.Answers : Action → Prop
  | .write ec => ec.failed = false
  | .run | .readUntil _ => False

/-- What `HandleClient` does to its service. -/
inductive Handles (v : Service) : Action → Service → Prop
  | serve {a : Action} {p q : Point} (hpoint : v.point = p) (hstarted : p ≠ .created)
      (hfrom : p.serving = true) (hto : q.serving = true) (hanswers : ¬a.Answers) :
      Handles v a { v with point := q }
  | delete (hpoint : v.point = .deleteThis) : Handles v .run ⟨.returning, v.deletions + 1⟩
  | return (hpoint : v.point = .returning) : Handles v .run { v with point := .ended }
  | answer {ec : ErrorCode} (hpoint : v.point = .write) (hec : ec.failed = false) :
      Handles v (.write ec) { v with point := .ended }

/-- The steps by what they do to the services and to the thread that creates them. -/
inductive Step (σ : State) : Label → State → Prop
  | handler {s : ServiceId} {a : Action} {v v' : Service} (hv : σ.services[s]? = some v)
      (hhandles : Handles v a v') :
      Step σ (.handler s a) { σ with services := σ.services.set s v' }
  | create (hpoint : σ.acceptor = .newService) :
      Step σ .acceptor
        { σ with
          services := σ.services ++ [.new]
          acceptor := .startHandlingClient σ.services.length }
  | createThread {s : ServiceId} (hpoint : σ.acceptor = .startHandlingClient s) :
      Step σ (.createThread true)
        { σ with
          services := σ.services.modify s fun v => { v with point := .started }
          acceptor := .detach }
  | other {l : Label} {σ' : State} (hlabel : ∀ s a, l ≠ .handler s a)
      (hservices : σ'.services = σ.services)
      (hacceptor : σ'.acceptor = σ.acceptor ∨ ∀ s, σ'.acceptor ≠ .startHandlingClient s) :
      Step σ l σ'

section

variable {σ σ' : State} {l : Label} {s : ServiceId} {v v' : Service} {a : Action}
  {labels : List Label} {es tr : List Event}

/-- A service that was not started has no thread. -/
theorem Handles.ne_created (h : Handles v a v') : v.point ≠ .created := by
  cases h with
  | serve hpoint hstarted => rwa [hpoint]
  | delete hpoint => simp [hpoint]
  | «return» hpoint => simp [hpoint]
  | answer hpoint => simp [hpoint]

theorem handleClient_cases (h : handleClient s v a = some (v', es)) : Handles v a v' := by
  cases a with
  | run =>
    simp only [handleClient] at h
    split at h
    · next hpoint =>
      obtain ⟨rfl, -⟩ := Prod.mk.inj (Option.some.inj h)
      exact .serve hpoint (by simp) rfl rfl id
    · next hpoint =>
      obtain ⟨rfl, -⟩ := Prod.mk.inj (Option.some.inj h)
      exact .serve hpoint (by simp) rfl rfl id
    · next hpoint =>
      obtain ⟨rfl, -⟩ := Prod.mk.inj (Option.some.inj h)
      exact .serve hpoint (by simp) rfl rfl id
    · next hpoint =>
      obtain ⟨rfl, -⟩ := Prod.mk.inj (Option.some.inj h)
      exact .delete hpoint
    · next hpoint =>
      obtain ⟨rfl, -⟩ := Prod.mk.inj (Option.some.inj h)
      exact .return hpoint
    · cases h
  | readUntil ec =>
    simp only [handleClient] at h
    split at h
    · next hpoint =>
      obtain ⟨rfl, -⟩ := Prod.mk.inj (Option.some.inj h)
      exact .serve hpoint (by simp) rfl (by split <;> rfl) id
    · cases h
  | write ec =>
    simp only [handleClient] at h
    split at h
    · next hpoint =>
      split at h
      · next hec =>
        obtain ⟨rfl, -⟩ := Prod.mk.inj (Option.some.inj h)
        exact .serve hpoint (by simp) rfl rfl (by simp [Action.Answers, hec])
      · next hec =>
        obtain ⟨rfl, -⟩ := Prod.mk.inj (Option.some.inj h)
        exact .answer hpoint (by simpa using hec)
    · cases h

theorem step_cases (h : step σ l = some (σ', es)) : Step σ l σ' := by
  unfold step at h
  split at h
  · cases h
  cases l with
  | main =>
    simp only [advance] at h
    split at h
    · obtain ⟨rfl, -⟩ := Prod.mk.inj (Option.some.inj h)
      exact .other (by simp) rfl (.inl rfl)
    · split at h
      · obtain ⟨rfl, -⟩ := Prod.mk.inj (Option.some.inj h)
        exact .other (by simp) rfl (.inl rfl)
      · cases h
    · cases h
  | acceptor =>
    simp only [advance] at h
    split at h
    · obtain ⟨rfl, -⟩ := Prod.mk.inj (Option.some.inj h)
      exact .other (by simp) rfl (.inr (by intro s; split <;> simp))
    · next hpoint =>
      obtain ⟨rfl, -⟩ := Prod.mk.inj (Option.some.inj h)
      exact .create hpoint
    · obtain ⟨rfl, -⟩ := Prod.mk.inj (Option.some.inj h)
      exact .other (by simp) rfl (.inr (by simp))
    · cases h
  | accept ec =>
    simp only [advance] at h
    split at h
    · obtain ⟨rfl, -⟩ := Prod.mk.inj (Option.some.inj h)
      exact .other (by simp) rfl (.inr (by intro s; split <;> simp))
    · cases h
  | createThread created =>
    simp only [advance] at h
    split at h
    · next hpoint =>
      split at h
      · next hcreated =>
        obtain ⟨rfl, -⟩ := Prod.mk.inj (Option.some.inj h)
        rw [hcreated]
        exact .createThread hpoint
      · obtain ⟨rfl, -⟩ := Prod.mk.inj (Option.some.inj h)
        exact .other (by simp) rfl (.inr (by simp))
    · cases h
  | handler s a =>
    simp only [advance] at h
    obtain ⟨v, hv, h⟩ := Option.bind_eq_some_iff.mp h
    obtain ⟨⟨v', fs⟩, hhandle, h⟩ := Option.map_eq_some_iff.mp h
    obtain ⟨rfl, -⟩ := Prod.mk.inj h
    exact .handler hv (handleClient_cases hhandle)

/-- The connection of this service has been answered. -/
def Answered (labels : List Label) (s : ServiceId) : Prop :=
  ∃ a, .handler s a ∈ labels ∧ a.Answers

theorem answered_snoc : Answered (labels ++ [l]) s ↔
    Answered labels s ∨ ∃ a, l = .handler s a ∧ a.Answers := by
  constructor
  · rintro ⟨a, ha, hanswers⟩
    rcases List.mem_append.mp ha with ha | ha
    · exact .inl ⟨a, ha, hanswers⟩
    · exact .inr ⟨a, (List.mem_singleton.mp ha).symm, hanswers⟩
  · rintro (⟨a, ha, hanswers⟩ | ⟨a, rfl, hanswers⟩)
    · exact ⟨a, List.mem_append_left _ ha, hanswers⟩
    · exact ⟨a, List.mem_append_right _ (List.mem_singleton_self _), hanswers⟩

/-- Only the thread of a service answers its connection. -/
theorem answered_snoc_of_ne (hlabel : ∀ a, l ≠ .handler s a) :
    Answered (labels ++ [l]) s ↔ Answered labels s := by
  rw [answered_snoc]
  apply or_iff_left
  rintro ⟨a, ha, -⟩
  exact hlabel a ha

theorem answered_snoc_self : Answered (labels ++ [.handler s a]) s ↔
    Answered labels s ∨ a.Answers := by
  rw [answered_snoc]
  apply or_congr_right
  constructor
  · rintro ⟨b, hb, hanswers⟩
    obtain ⟨-, rfl⟩ := Label.handler.inj hb
    exact hanswers
  · intro hanswers
    exact ⟨a, rfl, hanswers⟩

/-- A service that deleted itself was not answered, and one that was answered did not. -/
inductive Service.Fits (v : Service) (answered : Prop) : Prop
  | serving (hpoint : v.point.serving = true) (hdeletions : v.deletions = 0) (hno : ¬answered)
  | deleted (hpoint : v.point = .returning ∨ v.point = .ended) (hdeletions : v.deletions = 1)
      (hno : ¬answered)
  | leaked (hpoint : v.point = .ended) (hdeletions : v.deletions = 0) (hyes : answered)

theorem Service.Fits.of_serving {answered : Prop} (h : v.Fits answered)
    (hserving : v.point.serving = true) : v.deletions = 0 ∧ ¬answered := by
  cases h with
  | serving _ hdeletions hno => exact ⟨hdeletions, hno⟩
  | deleted hpoint =>
    rcases hpoint with hpoint | hpoint <;> simp [hpoint, Point.serving] at hserving
  | leaked hpoint => simp [hpoint, Point.serving] at hserving

/-- A service that has ended was deleted unless its connection was answered. -/
theorem Service.Fits.deletions_of_ended {answered : Prop} (h : v.Fits answered)
    (hpoint : v.point = .ended) : v.deletions = 1 ↔ ¬answered := by
  cases h with
  | serving hserving => simp [hpoint, Point.serving] at hserving
  | deleted _ hdeletions hno => exact iff_of_true hdeletions hno
  | leaked _ hdeletions hyes =>
    rw [hdeletions]
    exact iff_of_false Nat.zero_ne_one (not_not_intro hyes)

theorem Service.Fits.ended_of_answered {answered : Prop} (h : v.Fits answered)
    (hyes : answered) : v.point = .ended := by
  cases h with
  | serving _ _ hno => exact absurd hyes hno
  | deleted _ _ hno => exact absurd hyes hno
  | leaked hpoint => exact hpoint

theorem Service.Fits.handles {answered : Prop} (h : v.Fits answered) (hs : Handles v a v') :
    v'.Fits (answered ∨ a.Answers) := by
  cases hs with
  | serve hpoint _ hfrom hto hanswers =>
    obtain ⟨hdeletions, hno⟩ := h.of_serving (by rw [hpoint, hfrom])
    exact .serving hto hdeletions (not_or.mpr ⟨hno, hanswers⟩)
  | delete hpoint =>
    obtain ⟨hdeletions, hno⟩ := h.of_serving (by rw [hpoint]; rfl)
    exact .deleted (.inl rfl) (by simp [hdeletions]) (not_or.mpr ⟨hno, id⟩)
  | «return» hpoint =>
    cases h with
    | serving hserving => simp [hpoint, Point.serving] at hserving
    | deleted _ hdeletions hno => exact .deleted (.inr rfl) hdeletions (not_or.mpr ⟨hno, id⟩)
    | leaked hended => simp [hpoint] at hended
  | answer hpoint hec =>
    obtain ⟨hdeletions, -⟩ := h.of_serving (by rw [hpoint]; rfl)
    exact .leaked rfl hdeletions (.inr hec)

/-- What every run keeps. -/
structure Kept (labels : List Label) (σ : State) : Prop where
  fits : ∀ s v, σ.services[s]? = some v → Service.Fits v (Answered labels s)
  born : ∀ s, Answered labels s → s < σ.services.length
  fresh : ∀ s, σ.acceptor = .startHandlingClient s → σ.services[s]? = some .new

theorem Kept.start : Kept [] start where
  fits := by simp [SyncTcpServerMt.start]
  born := by simp [Answered]
  fresh := by simp [SyncTcpServerMt.start]

/-- The service that is to be started has no thread that could move it. -/
theorem Kept.handler (hi : Kept labels σ) (hv : σ.services[s]? = some v)
    (hhandles : Handles v a v') :
    Kept (labels ++ [.handler s a]) { σ with services := σ.services.set s v' } := by
  have hs : s < σ.services.length := (List.getElem?_eq_some_iff.mp hv).1
  refine ⟨fun r w hw => ?_, fun r hr => ?_, fun r hr => ?_⟩
  · by_cases hrs : s = r
    · subst hrs
      rw [List.getElem?_set_self hs] at hw
      obtain rfl := Option.some.inj hw
      rw [answered_snoc_self]
      exact (hi.fits s v hv).handles hhandles
    · rw [List.getElem?_set_ne hrs] at hw
      rw [answered_snoc_of_ne (by simp [hrs])]
      exact hi.fits r w hw
  · rw [List.length_set]
    by_cases hrs : s = r
    · exact hrs ▸ hs
    · exact hi.born r ((answered_snoc_of_ne (by simp [hrs])).mp hr)
  · have hnew := hi.fresh r hr
    have hrs : s ≠ r := by
      rintro rfl
      rw [hv] at hnew
      obtain rfl := Option.some.inj hnew
      exact hhandles.ne_created rfl
    rw [List.getElem?_set_ne hrs]
    exact hnew

/-- A new service is at the end of the list and has not been answered. -/
theorem Kept.create (hi : Kept labels σ) : Kept (labels ++ [.acceptor])
    { σ with
      services := σ.services ++ [.new]
      acceptor := .startHandlingClient σ.services.length } := by
  have hborn : ¬Answered labels σ.services.length := fun h => (hi.born _ h).false
  have hlabel (r : ServiceId) (a : Action) : Label.acceptor ≠ .handler r a := by simp
  refine ⟨fun r w hw => ?_, fun r hr => ?_, fun r hr => ?_⟩
  · rw [answered_snoc_of_ne (hlabel r)]
    by_cases hlast : r = σ.services.length
    · subst hlast
      rw [List.getElem?_concat_length] at hw
      obtain rfl := Option.some.inj hw
      exact .serving rfl rfl hborn
    · have hlt : r < (σ.services ++ [Service.new]).length := (List.getElem?_eq_some_iff.mp hw).1
      rw [List.length_append, List.length_singleton] at hlt
      have hbefore := Nat.lt_of_le_of_ne (Nat.le_of_lt_succ hlt) hlast
      rw [List.getElem?_append_left hbefore] at hw
      exact hi.fits r w hw
  · have hlt := hi.born r ((answered_snoc_of_ne (hlabel r)).mp hr)
    rw [List.length_append]
    exact hlt.trans (Nat.lt_succ_self _)
  · obtain rfl := AcceptPoint.startHandlingClient.inj hr
    exact List.getElem?_concat_length

/-- The thread of the new service begins to serve it. -/
theorem Kept.createThread (hi : Kept labels σ) (hpoint : σ.acceptor = .startHandlingClient s) :
    Kept (labels ++ [.createThread true])
      { σ with
        services := σ.services.modify s fun v => { v with point := .started }
        acceptor := .detach } := by
  have hnew := hi.fresh s hpoint
  have hlabel (r : ServiceId) (a : Action) : Label.createThread true ≠ .handler r a := by simp
  refine ⟨fun r w hw => ?_, fun r hr => ?_, nofun⟩
  · rw [answered_snoc_of_ne (hlabel r)]
    rw [List.getElem?_modify] at hw
    obtain ⟨w', hw', hw⟩ := Option.map_eq_some_iff.mp hw
    have hfits := hi.fits r w' hw'
    by_cases hrs : s = r
    · subst hrs
      obtain rfl := Option.some.inj (hnew.symm.trans hw')
      rw [if_pos rfl] at hw
      subst hw
      exact .serving rfl rfl (hfits.of_serving rfl).2
    · rw [if_neg hrs] at hw
      exact hw ▸ hfits
  · rw [List.length_modify]
    exact hi.born r ((answered_snoc_of_ne (hlabel r)).mp hr)

/-- Every step keeps it. -/
theorem Kept.step (hi : Kept labels σ) (h : Step σ l σ') : Kept (labels ++ [l]) σ' := by
  cases h with
  | handler hv hhandles => exact hi.handler hv hhandles
  | create => exact hi.create
  | createThread hpoint => exact hi.createThread hpoint
  | other hlabel hservices hacceptor =>
    refine ⟨fun r w hw => ?_, fun r hr => ?_, fun r hr => ?_⟩
    · rw [answered_snoc_of_ne (hlabel r)]
      rw [hservices] at hw
      exact hi.fits r w hw
    · rw [hservices]
      exact hi.born r ((answered_snoc_of_ne (hlabel r)).mp hr)
    · rw [hservices]
      rcases hacceptor with hacceptor | hacceptor
      · exact hi.fresh r (hacceptor ▸ hr)
      · exact absurd hr (hacceptor r)

theorem kept_of_exec (h : exec step start labels = some (σ, tr)) : Kept labels σ :=
  exec_induction (P := fun labels σ _ => Kept labels σ) .start
    (fun _ hi hstep => hi.step (step_cases hstep)) h

/-- The services that were not deleted. -/
def State.live (σ : State) : Nat := σ.services.countP (·.deletions = 0)

/-- The services whose `HandleClient` has not ended. -/
def State.handled (σ : State) : Nat := σ.services.countP (·.point ≠ .ended)

/-- The services are reclaimed. -/
structure Reclaimed (σ : State) : Prop where
  ended : ∀ v ∈ σ.services, v.point = .ended → v.deletions = 1
  serving : ∀ v ∈ σ.services, v.point.serving = true → v.deletions = 0
  live_le_handled : σ.live ≤ σ.handled

/-- A run reclaims its services when no connection was answered, and only then. -/
theorem Kept.reclaimed_iff (hi : Kept labels σ) : Reclaimed σ ↔ ∀ s, ¬Answered labels s := by
  constructor
  · intro hreclaimed s hanswered
    have hs := hi.born s hanswered
    have hfits := hi.fits s σ.services[s] (List.getElem?_eq_getElem hs)
    have hpoint := hfits.ended_of_answered hanswered
    have hdeletions := hreclaimed.ended _ (List.getElem_mem hs) hpoint
    exact (hfits.deletions_of_ended hpoint).mp hdeletions hanswered
  · intro hno
    have hended : ∀ v ∈ σ.services, v.point = .ended → v.deletions = 1 := by
      intro v hv hpoint
      obtain ⟨s, hs⟩ := List.mem_iff_getElem?.mp hv
      exact ((hi.fits s v hs).deletions_of_ended hpoint).mpr (hno s)
    refine ⟨hended, ?_, ?_⟩
    · intro v hv hpoint
      obtain ⟨s, hs⟩ := List.mem_iff_getElem?.mp hv
      exact ((hi.fits s v hs).of_serving hpoint).1
    · apply List.countP_mono_left
      intro v hv hlive
      have hdeletions := of_decide_eq_true hlive
      apply decide_eq_true
      intro hpoint
      exact Nat.zero_ne_one (hdeletions.symm.trans (hended v hv hpoint))

/-- In every run, the services are reclaimed in all states exactly when no write of a response
succeeds. -/
theorem threads_reclaim_iff (h : exec step start labels = some (σ, tr)) :
    (∀ τ, OnRun step start labels τ → Reclaimed τ) ↔
      ∀ s ec, .handler s (.write ec) ∈ labels → ec.failed = true := by
  constructor
  · intro hreclaimed s ec hmem
    have hno := (kept_of_exec h).reclaimed_iff.mp (hreclaimed σ (onRun_last h)) s
    by_contra hec
    exact hno ⟨.write ec, hmem, by simpa [Action.Answers] using hec⟩
  · rintro hall τ ⟨pre, hpre, es, hexec⟩
    apply (kept_of_exec hexec).reclaimed_iff.mpr
    rintro s ⟨a, ha, hanswers⟩
    cases a with
    | write ec =>
      have hfailed := hall s ec (hpre.subset ha)
      simp [Action.Answers, hfailed] at hanswers
    | run => exact hanswers
    | readUntil ec => exact hanswers

end

/-- A client connects, and the thread of its service begins. -/
def connect (s : ServiceId) : List Label :=
  [.acceptor, .accept .success, .acceptor, .createThread true, .acceptor, .handler s .run]

/-- The client closes the connection ahead of its request. -/
def hangUp : List Label :=
  connect 0 ++ [.handler 0 (.readUntil .eof)] ++ List.replicate 3 (.handler 0 .run)

/-- The client is answered. -/
def answer : List Label :=
  connect 0 ++ [.handler 0 (.readUntil .success), .handler 0 .run, .handler 0 (.write .success)]

/-- The service of a client that hangs up is deleted. -/
theorem hangUp_reclaimed :
    exec step start hangUp = some (⟨false, .sleep, .testStop, [⟨.ended, 1⟩]⟩,
      [.created 0, .printed 0 .eof, .deleted 0]) ∧
      ∀ τ, OnRun step start hangUp τ → Reclaimed τ := by
  have hrun : exec step start hangUp = some (⟨false, .sleep, .testStop, [⟨.ended, 1⟩]⟩,
      [.created 0, .printed 0 .eof, .deleted 0]) := by decide
  refine ⟨hrun, (threads_reclaim_iff hrun).mpr ?_⟩
  intro s ec hmem
  simp [hangUp, connect] at hmem

/-- The service of a client that was answered is not. -/
theorem answer_leaks :
    ¬∀ labels σ tr, exec step start labels = some (σ, tr) → Reclaimed σ := by
  intro hall
  have hrun : exec step start answer = some (⟨false, .sleep, .testStop, [⟨.ended, 0⟩]⟩,
      [.created 0, .sent 0 (ascii "Response\n")]) := by decide
  have hended := (hall answer _ _ hrun).ended ⟨.ended, 0⟩ (List.mem_singleton_self _) rfl
  exact absurd hended Nat.zero_ne_one

end BoostAsio.SyncTcpServerMt

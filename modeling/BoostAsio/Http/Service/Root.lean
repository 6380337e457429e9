import BoostAsio.Core.System.History
import BoostAsio.Http.Service.FileAnswer
import BoostAsio.Http.Service.Response

/-!
# Which paths are consulted

A path is resolved component by component from the working directory. The resource goes
into the path as it was received, and `ProcessRequest` checks nothing, so a resource that
climbs makes it ask for a path that climbs. In a run of the service no path is consulted,
because the first handler never goes on to the headers: neither is their read ever pending,
nor does a thread ever stand in its handler.
-/

namespace BoostAsio.HttpService

open BoostAsio.System

/-- The components of a path, the empty ones too. -/
def components (path : Bytes) : List Bytes := path.splitOn 47

/-- The depth below the working directory at which some components lead, from another one;
`none` when they climb above it. -/
def descend : Nat → List Bytes → Option Nat
  | depth, [] => some depth
  | depth, c :: cs =>
    if c = [] ∨ c = ascii "." then descend depth cs
    else if c = ascii ".." then
      match depth with
      | 0 => none
      | depth + 1 => descend depth cs
    else descend (depth + 1) cs

/-- The path never climbs above the working directory. -/
def staysUnder (path : Bytes) : Bool := (descend 0 (components path)).isSome

/-- The resource alone decides whether its path climbs. -/
theorem staysUnder_resourcePath (s : HttpService) :
    staysUnder s.resourcePath = (descend 0 (components s.requestedResource)).isSome := by
  have hsplit : components s.resourcePath = ascii "." :: components s.requestedResource :=
    List.splitOn_append_cons_self_of_not_mem (show (47 : UInt8) ∉ ascii "." by decide) _
  have hdot : descend 0 (ascii "." :: components s.requestedResource) =
      descend 0 (components s.requestedResource) := by
    rw [descend, if_pos (Or.inr rfl)]
  rw [staysUnder, hsplit, hdot]

example : staysUnder (ascii "./a//b/../c") = true := by decide

example : staysUnder (ascii "./a/../../b") = false := by decide

/-- The paths for which `ProcessRequest` asks: the existence test, and then the open. -/
def processRequestPaths (files : Files) (s : HttpService) : List Bytes :=
  if files.present s.resourcePath then [s.resourcePath] else [s.resourcePath, s.resourcePath]

/-- `ProcessRequest` depends on the file system through these paths alone. -/
theorem processRequest_congr {files files' : Files} {s : HttpService}
    (hpresent : files.present s.resourcePath = files'.present s.resourcePath)
    (hcontents : files.contents s.resourcePath = files'.contents s.resourcePath) :
    s.processRequest files = s.processRequest files' := by
  simp only [resourcePath] at hpresent hcontents
  simp only [processRequest, hpresent, hcontents]

/-- It does not look at the resource itself: its paths stay under the working directory exactly
when the resource does not climb. -/
theorem processRequestPaths_staysUnder (files : Files) (s : HttpService) :
    (processRequestPaths files s).all staysUnder =
      (descend 0 (components s.requestedResource)).isSome := by
  rw [processRequestPaths, ← staysUnder_resourcePath]
  split <;> simp

/-- Called with a resource that climbs, it would read what stands there. -/
example : staysUnder (resourcePath { new with requestedResource := ascii "../../etc/passwd" }) =
      false ∧
    (processRequest ⟨fun _ => false, fun path =>
      if path = ascii "./../../etc/passwd" then some (ascii "root") else none⟩
      { new with requestedResource := ascii "../../etc/passwd" }).resourceBuffer =
        some (ascii "root") := by
  decide

/-- The paths that a step of the service consults. -/
def consulted (σ : State) : Label → List Bytes
  | .run t fuel files =>
    match σ.threads t with
    | .handler .readHeaders ec =>
      if (σ.service.onErrorWithRes ec .notFound 413).isSome then []
      else (readHeaders fuel σ.service).elim [] (processRequestPaths files)
    | _ => []
  | .processThrows t fuel =>
    match σ.threads t with
    | .handler .readHeaders ec =>
      if ec.value = 0 then
        (readHeaders fuel σ.service).elim [] fun s => [s.resourcePath]
      else []
    | _ => []
  | .deliver _ _ _ _ | .shutdownThrows _ => []

/-- The headers are neither awaited nor handled. -/
structure Undecided (σ : State) : Prop where
  pending : .readHeaders ∉ σ.pending
  threads : ∀ t ec, σ.threads t ≠ .handler .readHeaders ec

section

variable {σ σ' : State} {l : Label} {es : List Event}

theorem undecided_startHandling : Undecided .startHandling := ⟨by decide, nofun⟩

theorem Undecided.goto (hi : Undecided σ) (t : ThreadId) {f : Frame}
    (hf : ∀ ec, f ≠ .handler .readHeaders ec) : Undecided (σ.goto t f) where
  pending := hi.pending
  threads u ec := by
    rw [State.threads_goto]
    split
    · exact hf ec
    · exact hi.threads u ec

/-- The only handler of a read is the first one, and it starts no second read. -/
theorem Undecided.handle_eq (hi : Undecided σ) {t : ThreadId} {op : Operation} {ec : ErrorCode}
    (ht : σ.threads t = .handler op ec) (hop : op ≠ .writeResponse) {fuel : Nat} {files : Files}
    {next : HttpService × Next} (h : handle fuel files op ec σ.service = some next) :
    next.2 ≠ .readHeaders := by
  cases op with
  | readRequestLine =>
    obtain rfl := Option.some.inj h
    exact next_ne_readHeaders ec σ.service
  | readHeaders => exact absurd ht (hi.threads t ec)
  | writeResponse => exact absurd rfl hop

/-- Every step keeps it so. -/
theorem Undecided.of_step (hi : Undecided σ) (h : Step σ l σ' es) : Undecided σ' := by
  cases h with
  | @deliver t op ec received ht hop =>
    have hne : op ≠ .readHeaders := by
      rintro rfl
      exact hi.pending hop
    have htaken : Undecided ((σ.withService (receive σ.service op received)).take op) :=
      ⟨fun hm => hi.pending (List.mem_of_mem_erase hm), hi.threads⟩
    exact htaken.goto t fun ec' he => hne (Frame.handler.inj he).1
  | readHeaders ht hop hs => exact absurd rfl (hi.handle_eq ht hop hs)
  | @respond t | @close t | @responseSent t | @sendShutdown t | @lookupFails t | @sentShutdown t
  | @onFinish t | @shutdownThrows t =>
    apply Undecided.goto
    · exact ⟨hi.pending, hi.threads⟩
    · intro ec he
      cases he
  | @sendResponse t fuel files s buffers ht hs =>
    have hstarted : Undecided ((σ.withService s).start .writeResponse) := by
      refine ⟨fun hm => ?_, hi.threads⟩
      rcases List.mem_append.mp hm with hm | hm
      · exact hi.pending hm
      · cases List.mem_singleton.mp hm
    apply hstarted.goto
    intro ec he
    cases he
  | @processThrows t fuel ec s ht hec hs => exact absurd ht (hi.threads t ec)

/-- A step of such a service consults nothing. -/
theorem Undecided.consulted_eq (hi : Undecided σ) (l : Label) : consulted σ l = [] := by
  cases l with
  | deliver t op ec received => rfl
  | shutdownThrows t => rfl
  | run t fuel files =>
    simp only [consulted]
    split
    · next ec ht => exact absurd ht (hi.threads t ec)
    · rfl
  | processThrows t fuel =>
    simp only [consulted]
    split
    · next ec ht => exact absurd ht (hi.threads t ec)
    · rfl

/-- No path is consulted along a schedule. -/
theorem Undecided.history_eq (hi : Undecided σ) (labels : List Label) :
    history step consulted σ labels = [] := by
  induction labels generalizing σ with
  | nil => rfl
  | cons l labels ih =>
    rw [history]
    split
    · next next hs => rw [hi.consulted_eq l, ih (hi.of_step (step_cases hs)), List.nil_append]
    · rfl

end

/-- Whatever is received and however the handlers are scheduled, every path that is consulted
stays under the working directory. -/
theorem consulted_staysUnder (labels : List Label) :
    (history step consulted .startHandling labels).all staysUnder = true := by
  rw [undecided_startHandling.history_eq labels]
  exact List.all_nil

end BoostAsio.HttpService

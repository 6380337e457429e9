import BoostAsio.Core.Stream.Completion
import BoostAsio.Http.Request.Notification
import BoostAsio.Http.Request.Stages

/-!
# Every run of the request is a run of the pipeline

The bytes of the peer come to a request in the chunks that its reads have received. Whatever
the scheduler and the cancelling threads do in between, a request that calls its callback, or
rejects its response, or fails with the end of the stream, has made of these chunks what the
composition of the three reads and their handlers makes of them.
-/

namespace BoostAsio.HttpRequest

open BoostAsio.System

/-- Whether Asio may complete an operation in this way; the read of the body never succeeds. -/
def Stage.Completes (ended : Bool) (buf : Bytes) (ec : ErrorCode) (received : Bytes) :
    Stage → Prop
  | .resolve | .connect | .write => received = [] ∧ ec ≠ .eof
  | .statusLine => CompletesUntil (ascii "\r\n") ended buf ec received
  | .headers => CompletesUntil (ascii "\r\n\r\n") ended buf ec received
  | .body => (ended = true → received = []) ∧ ec.value ≠ 0

instance (ended : Bool) (buf : Bytes) (ec : ErrorCode) (received : Bytes) :
    ∀ stage : Stage, Decidable (stage.Completes ended buf ec received)
  | .resolve | .connect | .write => inferInstanceAs (Decidable (received = [] ∧ ec ≠ .eof))
  | .statusLine | .headers => inferInstanceAs (Decidable (CompletesUntil _ _ _ _ _))
  | .body => inferInstanceAs (Decidable ((ended = true → received = []) ∧ ec.value ≠ 0))

/-- A request with the chunks that its reads have received, and whether it was told of the end
of the stream. -/
structure Connected where
  request : State
  chunks : List Bytes
  ended : Bool

/-- A request before `Execute`. -/
def Connected.new (settings : Settings) : Connected := ⟨.new settings, [], false⟩

/-- The chunk that a step receives. -/
def Label.chunk : Label → List Bytes
  | .deliver _ received => asChunk received
  | .run _ | .shutdownThrows _ | .cancel _ | .runCancel _ => []

/-- Whether a completion tells of the end of the stream. -/
def Label.ends : Label → Bool
  | .deliver ec _ => ec = .eof
  | .run _ | .shutdownThrows _ | .cancel _ | .runCancel _ => false

/-- Whether Asio allows a completion at this point. -/
def Point.Completes (ended : Bool) (buf : Bytes) (ec : ErrorCode) (received : Bytes) :
    Point → Prop
  | .pending stage _ => stage.Completes ended buf ec received
  | _ => True

instance (ended : Bool) (buf : Bytes) (ec : ErrorCode) (received : Bytes) :
    ∀ p : Point, Decidable (p.Completes ended buf ec received)
  | .pending stage _ => inferInstanceAs (Decidable (stage.Completes ended buf ec received))
  | .execute | .checkLock _ | .checkFlag _ | .checkUnlock _ | .abortUnlock | .start _
  | .handler _ _ | .finish _ | .thrown _ | .ended => inferInstanceAs (Decidable True)

/-- Whether Asio allows a step. -/
def Connected.Allows (x : Connected) : Label → Prop
  | .deliver ec received =>
    x.request.point.Completes x.ended x.request.response.messageBuf ec received
  | .run _ | .shutdownThrows _ | .cancel _ | .runCancel _ => True

instance (x : Connected) : ∀ l : Label, Decidable (x.Allows l)
  | .deliver _ _ => inferInstanceAs (Decidable (Point.Completes _ _ _ _ _))
  | .run _ | .shutdownThrows _ | .cancel _ | .runCancel _ => inferInstanceAs (Decidable True)

/-- The step of a request, with what it receives. -/
def connectedStep (x : Connected) (l : Label) : Option (Connected × List Event) :=
  if x.Allows l then
    (step x.request l).map fun next =>
      (⟨next.1, x.chunks ++ l.chunk, x.ended || l.ends⟩, next.2)
  else none

/-- A run of a request that was set up in this way, with what it has received. -/
abbrev ConnectedRun (settings : Settings) (labels : List Label) (x : Connected)
    (tr : List Event) : Prop :=
  exec connectedStep (Connected.new settings) labels = some (x, tr)

theorem connectedStep_cases {x y : Connected} {l : Label} {es : List Event}
    (h : connectedStep x l = some (y, es)) :
    x.Allows l ∧ Step x.request l y.request es ∧ y.chunks = x.chunks ++ l.chunk ∧
      y.ended = (x.ended || l.ends) := by
  simp only [connectedStep, Option.ite_none_right_eq_some] at h
  obtain ⟨hallows, h⟩ := h
  obtain ⟨⟨σ, es'⟩, hs, hy⟩ := Option.map_eq_some_iff.mp h
  cases hy
  exact ⟨hallows, step_cases hs, rfl, rfl⟩

theorem ne_nil_of_mem_chunk {l : Label} {c : Bytes} (h : c ∈ l.chunk) : c ≠ [] := by
  cases l with
  | deliver ec received => exact ne_nil_of_mem_asChunk h
  | _ => exact absurd h List.not_mem_nil

section

variable (chunks : List Bytes) (ended : Bool) (m : HttpMessage)

/-- Nothing has been received. -/
def Fresh : Prop := chunks = [] ∧ m = .new

/-- The request is about to start an operation, or to check whether it should. -/
def Ready : Stage → Prop
  | .resolve | .connect | .write | .statusLine => Fresh chunks m
  | .headers => ∃ front, m = HttpMessage.new.withBuf front ∧
      ∀ rest, readUntil (ascii "\r\n") [] (chunks ++ rest) = (.success, front, rest)
  | .body => ∃ m' left front, m = m'.withBuf front ∧
      ∀ rest, receiveStatusLine .new (chunks ++ rest) = .ok (m', left ++ rest) ∧
        readUntil (ascii "\r\n\r\n") m'.messageBuf (left ++ rest) = (.success, front, rest)

/-- The operation is pending. -/
def Waiting : Stage → Prop
  | .resolve | .connect | .write | .statusLine => Fresh chunks m
  | .headers => ∀ rest, receiveStatusLine .new (chunks ++ rest) = .ok (m, rest)
  | .body => ∃ fuel, ∀ rest, respondHead fuel .new (chunks ++ rest) = some (.ok (m, rest))

/-- `OnFinish` is about to be called with this code. -/
structure Finishing (ec : ErrorCode) : Prop where
  success : ec.value = 0 → ended = true ∧ Finishes .new chunks (.ok m)
  eof : ec = .eof → ended = true ∧ Finishes .new chunks (.error .eof)

/-- What has become of the chunks, by the point at which the request stands. -/
def Stands : Point → Prop
  | .execute => Fresh chunks m
  | .checkLock next | .checkFlag next | .checkUnlock next | .start next => Ready chunks m next
  | .pending stage _ => Waiting chunks m stage
  | .handler stage ec =>
    match stage.next with
    | some next => (ec.value = 0 → Ready chunks m next) ∧
        (ec.value ≠ 0 → Finishing chunks ended m ec)
    | none => Finishing chunks ended m (onResponseBodyReceived ec)
  | .finish ec => Finishing chunks ended m ec
  | .abortUnlock | .thrown _ | .ended => True

end

section

variable {chunks : List Bytes} {ended : Bool} {m : HttpMessage} {ec : ErrorCode}
  {received : Bytes}

/-- A failure other than the end of the stream says nothing about what was received. -/
theorem finishing_of_failed (hec : ec.value ≠ 0) (heof : ec ≠ .eof) :
    Finishing chunks ended m ec :=
  ⟨fun h => absurd h hec, fun h => absurd h heof⟩

/-- The first read completes. -/
theorem stands_statusLine (hi : Fresh chunks m)
    (hc : Stage.statusLine.Completes ended m.messageBuf ec received) :
    Stands (chunks ++ asChunk received) (ended || ec = .eof)
      (m.withBuf (m.messageBuf ++ received)) (.handler .statusLine ec) := by
  obtain ⟨rfl, rfl⟩ := hi
  obtain ⟨hneed, hfound, hmissed⟩ := hc
  refine ⟨fun hec => ⟨received, rfl, fun rest => ?_⟩, fun hec => ⟨fun h => absurd h hec, ?_⟩⟩
  · exact readUntil_asChunk (fun h => hneed (Or.inl h)) (hfound hec) rest
  · intro heof
    have hnone : ¬ascii "\r\n" <:+: HttpMessage.new.messageBuf ++ (asChunk received).flatten := by
      rw [flatten_asChunk]
      exact hmissed heof
    refine ⟨by simp [heof], finishes_error_iff.mpr ⟨0, ?_⟩⟩
    exact respondHead_of_error (receiveStatusLine_eof hnone) 0

/-- The second read completes. -/
theorem stands_headers (hi : Waiting chunks m .headers)
    (hc : Stage.headers.Completes ended m.messageBuf ec received) :
    Stands (chunks ++ asChunk received) (ended || ec = .eof)
      (m.withBuf (m.messageBuf ++ received)) (.handler .headers ec) := by
  obtain ⟨hneed, hfound, hmissed⟩ := hc
  refine ⟨fun hec => ⟨m, asChunk received, _, rfl, fun rest => ⟨?_, ?_⟩⟩,
    fun hec => ⟨fun h => absurd h hec, ?_⟩⟩
  · rw [List.append_assoc]
    exact hi _
  · exact readUntil_asChunk (fun h => hneed (Or.inl h)) (hfound hec) rest
  · intro heof
    have hnone : ¬ascii "\r\n\r\n" <:+: m.messageBuf ++ (asChunk received).flatten := by
      rw [flatten_asChunk]
      exact hmissed heof
    refine ⟨by simp [heof], finishes_error_iff.mpr ⟨0, ?_⟩⟩
    rw [respondHead_of_ok (hi _)]
    exact receiveHeaders_eof hnone 0

/-- The last read completes. -/
theorem stands_body (hi : Waiting chunks m .body)
    (hc : Stage.body.Completes ended m.messageBuf ec received) :
    Stands (chunks ++ asChunk received) (ended || ec = .eof)
      (m.withBuf (m.messageBuf ++ received)) (.handler .body ec) := by
  obtain ⟨fuel, hhead⟩ := hi
  have hec : ec.value ≠ 0 := hc.2
  by_cases heof : ec = .eof
  · have hsuccess : onResponseBodyReceived ec = .success := if_pos heof
    have hfinishes : Finishes .new (chunks ++ asChunk received)
        (.ok (m.withBuf (m.messageBuf ++ received))) :=
      finishes_ok_iff.mpr ⟨fuel, m, _, hhead _, by rw [flatten_asChunk]⟩
    simp only [Stands, Stage.next, hsuccess]
    exact ⟨fun _ => ⟨by simp [heof], hfinishes⟩, fun h => absurd h (by decide)⟩
  · have hsame : onResponseBodyReceived ec = ec := if_neg heof
    simp only [Stands, Stage.next, hsame]
    exact finishing_of_failed hec heof

/-- An operation that receives nothing completes. -/
theorem stands_unread {stage next : Stage} (hnext : stage.next = some next)
    (hready : Ready chunks m next) (heof : ec ≠ .eof) :
    Stands chunks ended m (.handler stage ec) := by
  simp only [Stands, hnext]
  exact ⟨fun _ => hready, fun hec => finishing_of_failed hec heof⟩

/-- The first handler reads the status line. -/
theorem receiveStatusLine_of_ready (hi : Ready chunks m .headers) (rest : List Bytes) :
    receiveStatusLine .new (chunks ++ rest) = (readStatusLine m).map fun m' => (m', rest) := by
  obtain ⟨front, rfl, hread⟩ := hi
  rw [receiveStatusLine, show HttpMessage.new.messageBuf = [] from rfl, hread,
    onStatusLineReceived_success]

/-- The second handler reads the header lines. -/
theorem respondHead_of_ready (hi : Ready chunks m .body) (fuel : Nat) (rest : List Bytes) :
    respondHead fuel .new (chunks ++ rest) =
      (readHeaders fuel m).map fun m' => .ok (m', rest) := by
  obtain ⟨m', left, front, rfl, hread⟩ := hi
  rw [respondHead_of_ok (hread rest).1, receiveHeaders, (hread rest).2,
    onHeadersReceived_success, Option.map_map]
  rfl

end

section

variable {x y : Connected} {l : Label} {es tr : List Event}

/-- Nothing is received behind the end of the stream. -/
theorem chunk_of_ended {σ : State} (hallows : x.Allows l) (hs : Step x.request l σ es)
    (hended : x.ended = true) : l.chunk = [] := by
  cases hs with
  | @deliver stage cancelled ec received hpoint =>
    simp only [Connected.Allows, Point.Completes, hpoint] at hallows
    have hnil : received = [] := by
      cases stage with
      | statusLine | headers => exact hallows.1 (Or.inr hended)
      | body => exact hallows.1 hended
      | resolve | connect | write => exact hallows.1
    rw [hnil]
    rfl
  | _ => rfl

/-- A completion that Asio allows hands over what the pipeline reads. -/
theorem stands_deliver {σ : State} {chunks : List Bytes} {ended : Bool} {stage : Stage}
    {ec : ErrorCode} {received : Bytes} (hi : Waiting chunks σ.response stage)
    (hc : stage.Completes ended σ.response.messageBuf ec received) :
    Stands (chunks ++ asChunk received) (ended || ec = .eof)
      (σ.complete stage ec received).response (.handler stage ec) := by
  have hunread : received = [] ∧ ec ≠ .eof → Stands chunks ended σ.response (.handler stage ec) →
      Stands (chunks ++ asChunk received) (ended || ec = .eof) σ.response
        (.handler stage ec) := by
    rintro ⟨rfl, heof⟩ h
    have hended : (ended || decide (ec = .eof)) = ended := by simp [heof]
    rw [hended]
    exact (List.append_nil chunks).symm ▸ h
  cases stage with
  | resolve => exact hunread hc (stands_unread rfl hi hc.2)
  | connect => exact hunread hc (stands_unread rfl hi hc.2)
  | write => exact hunread hc (stands_unread rfl hi hc.2)
  | statusLine => exact stands_statusLine hi hc
  | headers => exact stands_headers hi hc
  | body => exact stands_body hi hc

/-- Every step keeps the account of the chunks. -/
theorem connectedStep_stands
    (hi : Stands x.chunks x.ended x.request.response x.request.point)
    (h : connectedStep x l = some (y, es)) :
    Stands y.chunks y.ended y.request.response y.request.point := by
  obtain ⟨hallows, hs, hchunks, hended⟩ := connectedStep_cases h
  rw [hchunks, hended]
  obtain ⟨σ, chunks, ended⟩ := x
  obtain ⟨σ', chunks', ended'⟩ := y
  simp only at hi hs hallows ⊢
  have hkeep : l.chunk = [] → l.ends = false → Stands chunks ended σ'.response σ'.point →
      Stands (chunks ++ l.chunk) (ended || l.ends) σ'.response σ'.point := by
    intro hchunk hends hstands
    rw [hchunk, hends, List.append_nil, Bool.or_false]
    exact hstands
  cases hs with
  | deliver hpoint =>
    rw [hpoint] at hi
    simp only [Connected.Allows, Point.Completes, hpoint] at hallows
    exact stands_deliver hi hallows
  | executeThrows | shutdownThrows | checkCancelled | print | callback =>
    exact hkeep rfl rfl trivial
  | execute hpoint | checkLock hpoint | checkPassed hpoint | checkUnlock hpoint
  | startResolve hpoint | startConnect hpoint | startWrite hpoint | startStatusLine hpoint =>
    rw [hpoint] at hi
    exact hkeep rfl rfl hi
  | abortUnlock =>
    exact hkeep rfl rfl (finishing_of_failed (by decide) (by decide))
  | startHeaders hpoint hread =>
    rw [hpoint] at hi
    refine hkeep rfl rfl fun rest => ?_
    rw [receiveStatusLine_of_ready hi, hread]
    rfl
  | rejected hpoint hread =>
    refine hkeep rfl rfl ?_
    rw [readStatusLine_error hread]
    exact finishing_of_failed (by decide) (by decide)
  | @startBody n m hpoint hread =>
    rw [hpoint] at hi
    refine hkeep rfl rfl ⟨n, fun rest => ?_⟩
    rw [respondHead_of_ready hi, hread]
    rfl
  | handlerFailed hpoint hnext hec =>
    rw [hpoint] at hi
    simp only [Stands, hnext] at hi
    exact hkeep rfl rfl (hi.2 hec)
  | handlerNext hpoint hnext hec =>
    rw [hpoint] at hi
    simp only [Stands, hnext] at hi
    exact hkeep rfl rfl (hi.1 hec)
  | handlerLast hpoint hnext =>
    rw [hpoint] at hi
    simp only [Stands, hnext] at hi
    exact hkeep rfl rfl hi
  | cancel | cancelLock | cancelSetFlag | cancelClosed | cancelUnlock => exact hkeep rfl rfl hi
  | cancelResolver | cancelSocket =>
    refine hkeep rfl rfl ?_
    rw [State.response_cancelGoto, State.response_cancelPending, State.point_cancelGoto]
    rcases σ.point_cancelPending _ with hsame | ⟨stage, cancelled, hpoint, hnew⟩
    · rw [hsame]
      exact hi
    · rw [hnew]
      rw [hpoint] at hi
      exact hi

/-- What a request has received, and what the trace says about it. -/
structure Explained (x : Connected) (tr : List Event) : Prop where
  ne_nil : ∀ c ∈ x.chunks, c ≠ []
  stands : Stands x.chunks x.ended x.request.response x.request.point
  called : ∀ m ec, .callback m ec ∈ tr → x.ended = true ∧ Finishes .new x.chunks (.ok m)
  rejected : .rejected ∈ tr →
    ∀ rest, Finishes .new (x.chunks ++ rest) (.error .invalidResponse)
  cutOff : .printed .eof ∈ tr → x.ended = true ∧ Finishes .new x.chunks (.error .eof)

/-- What one step adds to the trace. -/
theorem Step.explained {σ σ' : State} {chunks : List Bytes} {ended : Bool}
    (h : Step σ l σ' es) (hi : Stands chunks ended σ.response σ.point) :
    (∀ m ec, .callback m ec ∈ es → ended = true ∧ Finishes .new chunks (.ok m)) ∧
      (.rejected ∈ es → ∀ rest, Finishes .new (chunks ++ rest) (.error .invalidResponse)) ∧
      (.printed .eof ∈ es → ended = true ∧ Finishes .new chunks (.error .eof)) := by
  cases h with
  | rejected hpoint hread =>
    rw [hpoint] at hi
    refine ⟨fun m ec hmem => by simp at hmem, fun _ rest => ?_, fun hmem => by simp at hmem⟩
    refine finishes_error_iff.mpr ⟨0, respondHead_of_error ?_ 0⟩
    rw [receiveStatusLine_of_ready hi, hread, readStatusLine_error hread]
    rfl
  | print hpoint hec =>
    rw [hpoint] at hi
    refine ⟨fun m ec hmem => by simp at hmem, fun hmem => by simp at hmem, fun hmem => ?_⟩
    have heof := Event.printed.inj (List.mem_singleton.mp hmem)
    exact hi.eof heof.symm
  | callback hpoint hec =>
    rw [hpoint] at hi
    refine ⟨fun m ec hmem => ?_, fun hmem => by simp at hmem, fun hmem => by simp at hmem⟩
    obtain ⟨rfl, rfl⟩ := Event.callback.inj (List.mem_singleton.mp hmem)
    exact hi.success hec
  | _ =>
    refine ⟨fun m ec hmem => by simp at hmem, fun hmem => by simp at hmem,
      fun hmem => by simp at hmem⟩

theorem Explained.step (hi : Explained x tr) (h : connectedStep x l = some (y, es)) :
    Explained y (tr ++ es) := by
  obtain ⟨hallows, hs, hchunks, hended⟩ := connectedStep_cases h
  obtain ⟨hcalled, hrejected, hcut⟩ := hs.explained hi.stands
  have hlast : x.ended = true → y.ended = true ∧ y.chunks = x.chunks := by
    intro hx
    have hnil := chunk_of_ended hallows hs hx
    rw [hnil, List.append_nil] at hchunks
    exact ⟨by rw [hended, hx, Bool.true_or], hchunks⟩
  refine ⟨fun c hc => ?_, connectedStep_stands hi.stands h, fun m ec hmem => ?_,
    fun hmem rest => ?_, fun hmem => ?_⟩
  · rw [hchunks] at hc
    rcases List.mem_append.mp hc with hold | hnew
    · exact hi.ne_nil c hold
    · exact ne_nil_of_mem_chunk hnew
  · have hx : x.ended = true ∧ Finishes .new x.chunks (.ok m) := by
      rcases List.mem_append.mp hmem with hold | hnew
      · exact hi.called m ec hold
      · exact hcalled m ec hnew
    obtain ⟨hy, hsame⟩ := hlast hx.1
    exact ⟨hy, hsame ▸ hx.2⟩
  · rw [hchunks, List.append_assoc]
    rcases List.mem_append.mp hmem with hold | hnew
    · exact hi.rejected hold _
    · exact hrejected hnew _
  · have hx : x.ended = true ∧ Finishes .new x.chunks (.error .eof) := by
      rcases List.mem_append.mp hmem with hold | hnew
      · exact hi.cutOff hold
      · exact hcut hnew
    obtain ⟨hy, hsame⟩ := hlast hx.1
    exact ⟨hy, hsame ▸ hx.2⟩

end

section

variable {settings : Settings} {labels : List Label} {x : Connected} {tr : List Event}

/-- With what it receives left out, a run is one of the request. -/
theorem ConnectedRun.run (h : ConnectedRun settings labels x tr) :
    Run settings labels x.request tr := by
  refine exec_induction (P := fun labels x tr => Run settings labels x.request tr) rfl ?_ h
  intro as x tr l y es _ hi hs
  exact exec_snoc.mpr ⟨_, _, _, hi, (connectedStep_cases hs).2.1.eq_some, rfl⟩

theorem ConnectedRun.explained (h : ConnectedRun settings labels x tr) : Explained x tr := by
  refine exec_induction (P := fun _ x tr => Explained x tr) ?_ ?_ h
  · exact ⟨nofun, ⟨rfl, rfl⟩, nofun, nofun, nofun⟩
  · intro as x tr a y es _ hi hs
    exact hi.step hs

/-- A request that calls its callback, rejects its response or reports the end of the stream
has made of the chunks that arrived what the pipeline makes of them. -/
theorem reports_of_connectedRun (h : ConnectedRun settings labels x tr) :
    (∀ c ∈ x.chunks, c ≠ []) ∧
      (∀ m ec, .callback m ec ∈ tr → x.ended = true ∧ Finishes .new x.chunks (.ok m)) ∧
      (.rejected ∈ tr → ∀ rest, Finishes .new (x.chunks ++ rest) (.error .invalidResponse)) ∧
      (.printed .eof ∈ tr → x.ended = true ∧ Finishes .new x.chunks (.error .eof)) :=
  ⟨h.explained.ne_nil, h.explained.called, h.explained.rejected, h.explained.cutOff⟩

end

set_option maxRecDepth 8000 in
/-- The successful request has called its callback with what the pipeline makes of its chunks. -/
theorem successSchedule_reports : ∃ x tr m, ConnectedRun plainSettings successSchedule x tr ∧
    .callback m .success ∈ tr ∧ x.chunks.length = 3 ∧ Finishes .new x.chunks (.ok m) := by
  obtain ⟨x, tr, m, hrun, hchunks, hcall⟩ : ∃ x tr m,
      ConnectedRun plainSettings successSchedule x tr ∧ x.chunks.length = 3 ∧
      tr.getLast? = some (.callback m .success) := ⟨_, _, _, rfl, rfl, rfl⟩
  have hmem := List.mem_of_getLast? hcall
  obtain ⟨-, hcalled, -, -⟩ := reports_of_connectedRun hrun
  exact ⟨x, tr, m, hrun, hmem, hchunks, (hcalled m .success hmem).2⟩

end BoostAsio.HttpRequest

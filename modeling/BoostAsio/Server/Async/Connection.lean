import BoostAsio.Server.Async.Writing

/-!
# What a connection is sent

A socket is created for one accept and handed to one service. Nothing is sent through it
before that service starts its write, the response does not change any more then, and the
write sends it from its beginning.
-/

namespace BoostAsio.AsyncTcpServer

open BoostAsio.System

/-- A socket of an accept that is outstanding or handled. -/
def Offered (σ : State) (sock : SocketId) : Prop :=
  sock ∈ σ.accepts ∨ ∃ t ec, σ.threads t = .onAccept ec sock

/-- The socket of a service. -/
def State.sock (σ : State) (s : ServiceId) : SocketId := (σ.services s).sock

/-- The sockets have one owner each. -/
structure Wired (σ : State) : Prop where
  bounded : ∀ s < σ.count, σ.sock s < σ.sockets
  distinct : ∀ r < σ.count, ∀ s < σ.count, σ.sock r = σ.sock s → r = s
  offered : ∀ sock, Offered σ sock → sock < σ.sockets ∧ ∀ s < σ.count, σ.sock s ≠ sock
  unsent : ∀ sock, (∀ s < σ.count, σ.sock s ≠ sock) → σ.sent sock = []

section

variable {size : Nat} {labels : List Label} {σ σ' : State} {l : Label} {tr es : List Event}
  {s : ServiceId} {sock : SocketId}

/-- A service keeps its socket. -/
theorem Step.keeps_sock (h : Step size σ l σ' es) (hs : s < σ.count) : σ'.sock s = σ.sock s := by
  cases h with
  | serve => simp [State.sock, hs.ne]
  | @deliver t r => by_cases hr : s = r <;> simp [State.sock, hr]
  | @transmit r => by_cases hr : s = r <;> simp [State.sock, hr]
  | @respond t ec r => by_cases hr : s = r <;> simp [State.sock, hr]
  | @startWrite t r => by_cases hr : s = r <;> simp [State.sock, hr]
  | @finish t r => by_cases hr : s = r <;> simp [State.sock, hr]
  | _ => rfl

theorem Offered.of_goto {t : ThreadId} {f : Frame} (h : Offered (σ.goto t f) sock)
    (hf : ∀ ec, f ≠ .onAccept ec sock) : Offered σ sock := by
  apply h.imp_right
  rintro ⟨u, ec, hu⟩
  refine ⟨u, ec, ?_⟩
  by_cases hut : u = t
  · exact absurd (by simpa [hut] using hu) (hf ec)
  · simpa [hut] using hu

/-- Starting an accept offers the socket that was created for it. -/
theorem Offered.of_initAccept (h : Offered σ.initAccept sock) :
    Offered σ sock ∨ sock = σ.sockets := by
  rcases h with hmem | ht
  · rcases List.mem_append.mp hmem with hmem | hmem
    · exact Or.inl (Or.inl hmem)
    · exact Or.inr (List.mem_singleton.mp hmem)
  · exact Or.inl (Or.inr ht)

/-- No other step offers a socket. -/
theorem Step.offered (h : Step size σ l σ' es) (ho : Offered σ' sock) :
    Offered σ sock ∨ sock = σ.sockets ∧ σ'.sockets = σ.sockets + 1 := by
  cases h with
  | firstAccept => exact (Offered.of_initAccept (σ := σ) ho).imp_right fun h => ⟨h, rfl⟩
  | initAccept => exact (ho.of_goto nofun).of_initAccept.imp_right fun h => ⟨h, rfl⟩
  | @accept t sock' ec ht hios hsock =>
    left
    by_cases he : sock = sock'
    · exact Or.inl (he ▸ hsock)
    · have ho' : Offered (σ.takeAccept sock') sock := ho.of_goto fun _ h => he (by cases h; rfl)
      exact ho'.imp_left List.mem_of_mem_erase
  | listen | stopAcceptor | stopService | join | transmit => exact Or.inl ho
  | @serve t ec sock' => exact Or.inl (Offered.of_goto (σ := σ.create sock') ho nofun)
  | @deliver t s op ec =>
    refine Or.inl (Offered.of_goto (σ := σ.modify s _) ho fun ec' => ?_)
    cases op <;> nofun
  | @respond t ec s | @startWrite t s | @finish t s =>
    exact Or.inl (Offered.of_goto (σ := σ.modify s _) ho nofun)
  | close => exact Or.inl (Offered.of_goto (σ := σ.close) ho nofun)
  | createThread | exit | acceptFailed | goOn | giveUp | readFailed | responseSent =>
    exact Or.inl (Offered.of_goto (σ := σ) ho nofun)

/-- Only a successful accept hands a socket over, and then none is offered. -/
theorem Step.created_sock (h : Step size σ l σ' es) (hi : Owned σ) :
    σ'.count = σ.count ∨ σ'.count = σ.count + 1 ∧ Offered σ (σ'.sock σ.count) ∧
      (∀ sock, ¬Offered σ' sock) ∧ (σ'.services σ.count).pending = [.read] := by
  cases h with
  | @serve t ec sock ht hec =>
    obtain ⟨-, haccepts, -, hunique⟩ := hi.accepting ht rfl
    refine Or.inr ⟨rfl, Or.inr ⟨t, ec, by simpa [State.sock] using ht⟩, ?_, by simp⟩
    rintro r (hmem | ⟨u, ec', hu⟩)
    · simp [haccepts] at hmem
    · by_cases hut : u = t
      · simp [hut] at hu
      · rw [State.goto_threads, if_neg hut] at hu
        exact hut (hunique u (by rw [show σ.threads u = .onAccept ec' r from hu]; rfl))
  | _ => exact Or.inl rfl

theorem Step.sockets_le (h : Step size σ l σ' es) : σ.sockets ≤ σ'.sockets := by
  cases h with
  | firstAccept | initAccept => exact Nat.le_succ _
  | _ => exact le_rfl

/-- Only a pending write sends. -/
theorem Step.unsent (h : Step size σ l σ' es) (hi : Owned σ)
    (hsock : ∀ s < σ.count, σ.sock s ≠ sock) : σ'.sent sock = σ.sent sock := by
  cases h with
  | @transmit s sent n bytes hop hbytes =>
    have hne : sock ≠ (σ.services s).sock :=
      (hsock s (hi.waiting hop).1).symm
    simp [hne]
  | _ => rfl

/-- Every step keeps the owners of the sockets. -/
theorem Step.wired (h : Step size σ l σ' es) (hi : Owned σ) (hw : Wired σ) : Wired σ' := by
  have hborn : ∀ s < σ'.count, s < σ.count ∨ s = σ.count ∧ Offered σ (σ'.sock s) ∧
      ∀ sock, ¬Offered σ' sock := by
    intro s hs
    rcases h.created_sock hi with hc | ⟨hc, hoffered, hnone, -⟩
    · exact Or.inl (hc ▸ hs)
    · rcases Nat.lt_succ_iff_lt_or_eq.mp (hc ▸ hs) with hlt | rfl
      · exact Or.inl hlt
      · exact Or.inr ⟨rfl, hoffered, hnone⟩
  refine ⟨fun s hs => ?_, fun r hr s hs he => ?_, fun sock ho => ?_, fun sock hsock => ?_⟩
  · refine lt_of_lt_of_le ?_ h.sockets_le
    rcases hborn s hs with hlt | ⟨-, hoffered, -⟩
    · rw [h.keeps_sock hlt]
      exact hw.bounded s hlt
    · exact (hw.offered _ hoffered).1
  · rcases hborn r hr with hltr | ⟨rfl, hofferedr, -⟩ <;>
      rcases hborn s hs with hlts | ⟨rfl, hoffereds, -⟩
    · rw [h.keeps_sock hltr, h.keeps_sock hlts] at he
      exact hw.distinct r hltr s hlts he
    · rw [h.keeps_sock hltr] at he
      exact absurd he ((hw.offered _ hoffereds).2 r hltr)
    · rw [h.keeps_sock hlts] at he
      exact absurd he.symm ((hw.offered _ hofferedr).2 s hlts)
    · rfl
  · rcases h.offered ho with ho' | ⟨rfl, hsockets⟩
    · refine ⟨(hw.offered sock ho').1.trans_le h.sockets_le, fun s hs => ?_⟩
      rcases hborn s hs with hlt | ⟨-, -, hnone⟩
      · rw [h.keeps_sock hlt]
        exact (hw.offered sock ho').2 s hlt
      · exact absurd ho (hnone sock)
    · refine ⟨hsockets ▸ Nat.lt_succ_self _, fun s hs => ?_⟩
      rcases hborn s hs with hlt | ⟨-, -, hnone⟩
      · rw [h.keeps_sock hlt]
        exact (hw.bounded s hlt).ne
      · exact absurd ho (hnone _)
  · have hold : ∀ s < σ.count, σ.sock s ≠ sock := fun s hs =>
      h.keeps_sock hs ▸ hsock s (hs.trans_le h.count_le)
    rw [h.unsent hi hold]
    exact hw.unsent sock hold

theorem wired_new : Wired .new where
  bounded _ h := absurd h (Nat.not_lt_zero _)
  distinct _ h := absurd h (Nat.not_lt_zero _)
  offered sock h := by
    rcases h with hmem | ⟨t, ec, ht⟩
    · cases hmem
    · cases ht
  unsent _ _ := rfl

theorem Run.wired (h : Run size labels σ tr) : Wired σ :=
  exec_induction (P := fun _ σ _ => Wired σ) wired_new
    (fun hexec hw hs => (step_cases hs).wired (Run.owned hexec) hw) h

/-- Nothing is sent before the write, which then sends the response from its beginning. -/
structure Answering (σ : State) (s : ServiceId) : Prop where
  before_write : BeforeWrite σ s → σ.sent (σ.sock s) = []
  writing : ∀ n, .write n ∈ (σ.services s).pending →
    σ.sent (σ.sock s) = (σ.services s).response.take n
  sent : σ.sent (σ.sock s) <+: (σ.services s).response

/-- What neither sends, nor answers, nor starts a write keeps it. -/
theorem Answering.keep (ha : Answering σ s)
    (hsent : σ'.sent (σ'.sock s) = σ.sent (σ.sock s))
    (hbefore : BeforeWrite σ' s → BeforeWrite σ s)
    (hresponse : (σ'.services s).response = (σ.services s).response)
    (hwrite : ∀ n, .write n ∈ (σ'.services s).pending → .write n ∈ (σ.services s).pending) :
    Answering σ' s where
  before_write h := hsent.trans (ha.before_write (hbefore h))
  writing n hn := by
    rw [hsent, hresponse]
    exact ha.writing n (hwrite n hn)
  sent := by
    rw [hsent, hresponse]
    exact ha.sent

/-- Nothing was sent of any response yet. -/
theorem Answering.of_empty (hsent : σ.sent (σ.sock s) = [])
    (hwrite : ∀ n, .write n ∈ (σ.services s).pending → n = 0) : Answering σ s where
  before_write _ := hsent
  writing n hn := by rw [hsent, hwrite n hn, List.take_zero]
  sent := by
    rw [hsent]
    exact List.nil_prefix

/-- The next bytes of a write follow those that were sent. -/
theorem take_append_take_drop (response : Bytes) (sent n : Nat) :
    response.take sent ++ (response.drop sent).take n =
      response.take (sent + ((response.drop sent).take n).length) := by
  rw [List.take_add, List.length_take, ← List.take_eq_take_min]

/-- Sending continues the response. -/
theorem Answering.transmit (ha : Answering σ s) (hi : Owned σ) {sent n : Nat} {bytes : Bytes}
    (hop : .write sent ∈ (σ.services s).pending)
    (hbytes : bytes = ((σ.services s).response.drop sent).take n)
    (hbefore : BeforeWrite σ' s → BeforeWrite σ s)
    (hsent : σ'.sent (σ'.sock s) = σ.sent (σ.sock s) ++ bytes)
    (hservice : σ'.services s = (σ.services s).advance sent bytes.length) : Answering σ' s := by
  obtain ⟨-, hpending, hthreads⟩ := hi.waiting hop
  have hresponse : (σ'.services s).response = (σ.services s).response := by rw [hservice]; rfl
  have hall : σ'.sent (σ'.sock s) = (σ'.services s).response.take (sent + bytes.length) := by
    rw [hsent, ha.writing sent hop, hresponse, hbytes, take_append_take_drop]
  refine ⟨fun h => ?_, fun m hm => ?_, hall ▸ List.take_prefix ..⟩
  · rcases hbefore h with hread | ⟨t, ht⟩
    · simp [hpending] at hread
    · exact absurd (Frame.service_of_unanswered ht) (hthreads t)
  · have hm' : m = sent + bytes.length := by simpa [hservice, hpending] using hm
    rw [hm']
    exact hall

/-- Every step keeps what the connection of a service was sent. -/
theorem Step.answering (h : Step size σ l σ' es) (hi : Owned σ) (hw : Wired σ)
    (hs : s < σ.count) (ha : Answering σ s) : Answering σ' s := by
  have hsock := h.keeps_sock hs
  have hbefore := h.before_write hi hs
  cases h with
  | @transmit r sent n bytes hop hbytes =>
    by_cases hr : s = r
    · subst hr
      refine ha.transmit hi hop hbytes hbefore ?_ (by simp)
      rw [hsock]
      simp [State.sock]
    · have hne : σ.sock s ≠ (σ.services r).sock := fun he =>
        hr (hw.distinct s hs r (hi.waiting hop).1 he)
      refine ha.keep ?_ hbefore (by simp [hr]) (by simp [hr])
      rw [hsock]
      simp [hne]
  | @respond t ec r ht hec =>
    by_cases hr : s = r
    · subst hr
      have hempty := ha.before_write (Or.inr ⟨t, by rw [ht]; rfl⟩)
      have hpending := (hi.running ht rfl).2.1
      refine .of_empty (hsock ▸ hempty) fun n hn => ?_
      simp [hpending] at hn
    · exact ha.keep (by rw [hsock]; rfl) hbefore (by simp [hr]) (by simp [hr])
  | @startWrite t r ht =>
    by_cases hr : s = r
    · subst hr
      have hempty := ha.before_write (Or.inr ⟨t, by rw [ht]; rfl⟩)
      have hpending := (hi.running ht rfl).2.1
      refine .of_empty (hsock ▸ hempty) fun n hn => ?_
      simpa [hpending] using hn
    · exact ha.keep (by rw [hsock]; rfl) hbefore (by simp [hr]) (by simp [hr])
  | @deliver t r op ec received ht hios hop =>
    refine ha.keep (by rw [hsock]; rfl) hbefore ?_ fun n hn => ?_
    · by_cases hr : s = r <;> simp [hr]
    · by_cases hr : s = r
      · subst hr
        exact List.mem_of_mem_erase (by simpa using hn)
      · simpa [hr] using hn
  | @finish t r ht =>
    refine ha.keep (by rw [hsock]; rfl) hbefore ?_ fun n hn => ?_
    · by_cases hr : s = r <;> simp [hr]
    · by_cases hr : s = r
      · simpa [hr] using hn
      · simpa [hr] using hn
  | serve => exact ha.keep (by rw [hsock]; rfl) hbefore (by simp [hs.ne]) (by simp [hs.ne])
  | _ => exact ha.keep rfl hbefore rfl fun _ => id

/-- In every run each connection is sent its own response. -/
theorem Run.answering (h : Run size labels σ tr) : ∀ s < σ.count, Answering σ s := by
  refine exec_induction (P := fun _ σ _ => ∀ s < σ.count, Answering σ s)
    (fun s hs => absurd hs (Nat.not_lt_zero s)) ?_ h
  intro as m tr₀ l σ' es hexec ih hs s hborn
  have hi := Run.owned hexec
  have hw := Run.wired hexec
  have hstep := step_cases hs
  rcases hstep.created_sock hi with hc | ⟨hc, hoffered, -, hpending⟩
  · exact hstep.answering hi hw (hc ▸ hborn) (ih s (hc ▸ hborn))
  · rcases Nat.lt_succ_iff_lt_or_eq.mp (hc ▸ hborn) with hlt | rfl
    · exact hstep.answering hi hw hlt (ih s hlt)
    · have hfresh := (hw.offered _ hoffered).2
      refine .of_empty ?_ fun n hn => by simp [hpending] at hn
      rw [hstep.unsent hi hfresh]
      exact hw.unsent _ hfresh

end

end BoostAsio.AsyncTcpServer

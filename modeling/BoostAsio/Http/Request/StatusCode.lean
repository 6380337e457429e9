import BoostAsio.Http.Request.State
import BoostAsio.Http.Request.StatusLine

/-!
# The number that is recorded as the status code

The second word of the status line is converted by `std::stoul`, which takes a sign and
ignores what follows the digits, and the result is narrowed to 32 bits. The handler
records the number that the word denotes exactly when the word is nothing but digits and
fits, unless the conversion fails.
-/

namespace BoostAsio.HttpRequest

/-- The second word of the received bytes, empty when there is none. -/
def statusToken (response : HttpMessage) : Bytes := firstWord (afterWord response.messageBuf)

/-- The digits of a word that `std::stoul` converts. -/
def leadingDigits (t : Bytes) : Bytes :=
  (if t.head? == some 45 || t.head? == some 43 then t.tail else t).takeWhile isDigit

/-- A word without digits behind its sign, or with more than 64 bits. -/
def Unconvertible (t : Bytes) : Prop :=
  leadingDigits t = [] ∨ 2 ^ 64 ≤ decimalValue (leadingDigits t)

/-- A word of digits whose value has 32 bits. -/
def FitsStatus (t : Bytes) : Prop := t.all isDigit = true ∧ decimalValue t < 2 ^ 32

/-- `OnStatusLineReceived` finishes with `invalid_response` and starts no read, or it records
the number that the second word denotes. -/
def ExactStatus (fuel : Nat) (σ : State) : Prop :=
  start fuel σ .headers = some (σ.goto (.finish .invalidResponse), [.rejected]) ∨
    ∃ m code, start fuel σ .headers =
        some ((σ.setResponse m).goto (.pending .headers false),
          [.started (.asyncReadUntil (ascii "\r\n\r\n"))]) ∧
      m.statusCode = some code ∧
      (statusToken σ.response).all isDigit = true ∧
      code.toNat = decimalValue (statusToken σ.response)

/-- The conversion of a text without blanks, by the digits that it takes. -/
theorem stoul_of_not_space {t : Bytes} (h : ∀ c ∈ t, isSpace c = false) :
    stoul t =
      if leadingDigits t = [] then .error .invalidArgument
      else if 2 ^ 64 ≤ decimalValue (leadingDigits t) then .error .outOfRange
      else if t.head? == some 45 then .ok (-(decimalValue (leadingDigits t)).toUInt64)
      else .ok (decimalValue (leadingDigits t)).toUInt64 := by
  have hdrop : t.dropWhile isSpace = t := by
    cases t with
    | nil => rfl
    | cons c t => exact List.dropWhile_cons_of_neg (by simp [h c (List.mem_cons_self ..)])
  simp only [stoul, hdrop]
  rfl

/-- The conversion fails exactly on these words. -/
theorem unconvertible_iff {t : Bytes} (h : ∀ c ∈ t, isSpace c = false) :
    Unconvertible t ↔ ∃ e, stoul t = .error e := by
  rw [stoul_of_not_space h, Unconvertible]
  split_ifs with hnil hlarge hsign
  · exact iff_of_true (Or.inl hnil) ⟨_, rfl⟩
  · exact iff_of_true (Or.inr hlarge) ⟨_, rfl⟩
  · refine iff_of_false (not_or.mpr ⟨hnil, hlarge⟩) ?_
    rintro ⟨e, he⟩
    cases he
  · refine iff_of_false (not_or.mpr ⟨hnil, hlarge⟩) ?_
    rintro ⟨e, he⟩
    cases he

/-- The first word of a text holds no blanks, also when it is empty. -/
theorem not_space_firstWord (b : Bytes) : ∀ c ∈ firstWord b, isSpace c = false := by
  intro c hc
  have := List.mem_takeWhile_imp hc
  simpa using this

section

variable {σ : State} {fuel : Nat}

/-- A word that is not converted finishes the request. -/
theorem start_headers_of_error (fuel : Nat)
    (hversion : firstWord σ.response.messageBuf = httpVersion)
    {e : LogicError} (h : stoul (statusToken σ.response) = .error e) :
    start fuel σ .headers = some (σ.goto (.finish .invalidResponse), [.rejected]) := by
  have hread : readStatusLine σ.response = .error .invalidResponse := by
    rw [readStatusLine_eq, if_pos hversion, ← statusToken, h]
  simp only [start, hread]

/-- A word that is converted is recorded with its low 32 bits, and the headers are awaited. -/
theorem start_headers_of_ok (fuel : Nat)
    (hversion : firstWord σ.response.messageBuf = httpVersion)
    {code : UInt64} (h : stoul (statusToken σ.response) = .ok code) :
    ∃ m, start fuel σ .headers =
        some ((σ.setResponse m).goto (.pending .headers false),
          [.started (.asyncReadUntil (ascii "\r\n\r\n"))]) ∧
      m.statusCode = some code.toUInt32 := by
  have hread : readStatusLine σ.response = .ok (setStatus σ.response code
      (afterWord (afterWord σ.response.messageBuf))) := by
    rw [readStatusLine_eq, if_pos hversion, ← statusToken, h]
  refine ⟨setStatus σ.response code (afterWord (afterWord σ.response.messageBuf)), ?_, rfl⟩
  simp only [start, hread]

/-- With a converted word the record is compared with what the word denotes. -/
theorem exactStatus_of_ok (hversion : firstWord σ.response.messageBuf = httpVersion)
    {code : UInt64} (h : stoul (statusToken σ.response) = .ok code) :
    ExactStatus fuel σ ↔ (statusToken σ.response).all isDigit = true ∧
      code.toUInt32.toNat = decimalValue (statusToken σ.response) := by
  obtain ⟨m, hstart, hcode⟩ := start_headers_of_ok fuel hversion h
  unfold ExactStatus
  rw [hstart]
  constructor
  · rintro (hrejected | ⟨m', code', hstart', hcode', hdigits, hvalue⟩)
    · have hevents := congrArg Prod.snd (Option.some.inj hrejected)
      cases hevents
    · have hresponse := congrArg (fun next => next.1.response) (Option.some.inj hstart')
      change m = m' at hresponse
      subst hresponse
      have hsame := Option.some.inj (hcode'.symm.trans hcode)
      exact ⟨hdigits, hsame ▸ hvalue⟩
  · rintro ⟨hdigits, hvalue⟩
    exact Or.inr ⟨m, _, rfl, hcode, hdigits, hvalue⟩

/-- Narrowing keeps the value of a digit string exactly when it has 32 bits. -/
theorem toUInt32_eq_iff {n : Nat} (h : n < 2 ^ 64) :
    n.toUInt64.toUInt32.toNat = n ↔ n < 2 ^ 32 := by
  simp only [Nat.toUInt64, UInt64.toNat_toUInt32, UInt64.toNat_ofNat']
  omega

/-- A status line starting with the version leads to an exact record or to a rejection exactly
when its second word is not converted, or is a number of 32 bits. -/
theorem exactStatus_iff (hversion : firstWord σ.response.messageBuf = httpVersion) :
    ExactStatus fuel σ ↔
      Unconvertible (statusToken σ.response) ∨ FitsStatus (statusToken σ.response) := by
  have hspace := not_space_firstWord (afterWord σ.response.messageBuf)
  have hfails := unconvertible_iff hspace
  cases hstoul : stoul (statusToken σ.response) with
  | error e =>
    have hrejected := start_headers_of_error fuel hversion hstoul
    exact iff_of_true (Or.inl hrejected) (Or.inl (hfails.mpr ⟨e, hstoul⟩))
  | ok code =>
    have hconverted : ¬Unconvertible (statusToken σ.response) := by
      intro h
      obtain ⟨e, he⟩ := hfails.mp h
      rw [← statusToken, hstoul] at he
      cases he
    rw [exactStatus_of_ok hversion hstoul, or_iff_right hconverted]
    apply and_congr_right
    intro hdigits
    have hne : statusToken σ.response ≠ [] := by
      intro hnil
      rw [hnil, stoul_nil] at hstoul
      cases hstoul
    rw [stoul_digits hne (List.all_eq_true.mp hdigits)] at hstoul
    split_ifs at hstoul with hlarge
    obtain rfl := Except.ok.inj hstoul
    exact toUInt32_eq_iff (Nat.lt_of_not_le hlarge)

end

/-- A request in front of its status-line handler, with these bytes received. -/
def receivedStatus (buf : Bytes) : State :=
  { State.new .new with response := HttpMessage.new.withBuf buf, point := .start .headers }

/-- An ordinary status line is recorded exactly. -/
theorem ordinaryStatus_exact : ExactStatus 0 (receivedStatus (ascii "HTTP/1.1 404 x\r\n")) :=
  (exactStatus_iff (show firstWord (ascii "HTTP/1.1 404 x\r\n") = httpVersion by decide)).mpr
    (Or.inr ⟨by decide, by decide⟩)

/-- A code with letters behind it is recorded as if they were not there. -/
theorem trailingLetters_recorded :
    firstWord (receivedStatus (ascii "HTTP/1.1 200abc\r\n")).response.messageBuf = httpVersion ∧
      ¬ExactStatus 0 (receivedStatus (ascii "HTTP/1.1 200abc\r\n")) := by
  have hversion : firstWord (receivedStatus (ascii "HTTP/1.1 200abc\r\n")).response.messageBuf =
      httpVersion := by
    decide
  refine ⟨hversion, fun h => ?_⟩
  have hcode : stoul (statusToken (receivedStatus (ascii "HTTP/1.1 200abc\r\n")).response) =
      .ok 200 := rfl
  have hdigits := ((exactStatus_of_ok hversion hcode).mp h).1
  revert hdigits
  decide

end BoostAsio.HttpRequest

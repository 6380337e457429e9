import BoostAsio.Client.Async.State
import BoostAsio.Client.Sync.Tcp
import BoostAsio.Client.Sync.Udp

/-!
# The request language of the clients

Each client writes its requests with a copy of the same expression. A request is a line with
the name of the operation and the duration, and the copies of `AsyncTcpClient` and the others
differ in the name.
-/

namespace BoostAsio

/-- The request text of `SyncSSLClient::EmulateLongComputationOp`. -/
def SyncSSLClient.encodeRequest (durationSec : UInt32) : Bytes :=
  ascii "EMULATE_LONG_COMP_OP " ++ decimal durationSec.toNat ++ ascii "\n"

namespace RequestLanguage

/-- The clients of the repository that ask for a computation. -/
inductive Client
  | syncTcp
  | syncUdp
  | asyncTcp
  | syncSSL
  deriving DecidableEq, Repr

/-- The request that a client writes. -/
def encodeRequest : Client → UInt32 → Bytes
  | .syncTcp => SyncTcpClient.encodeRequest
  | .syncUdp => SyncUdpClient.encodeRequest
  | .asyncTcp => AsyncTcpClient.encodeRequest
  | .syncSSL => SyncSSLClient.encodeRequest

/-- The duration that a line asks for, which none of the example servers looks at. -/
def decodeRequest (line : Bytes) : Option UInt32 :=
  match words line with
  | [_, digits] =>
    if digits.all isDigit = true ∧ decimalValue digits < 2 ^ 32 then
      some (decimalValue digits).toUInt32
    else none
  | _ => none

/-- Requests one behind the other. -/
def stream (requests : List (Client × UInt32)) : Bytes :=
  requests.flatMap fun (c, durationSec) => encodeRequest c durationSec

/-- The lines of the stream are the requests, and the decoder gives back their durations. -/
structure Decodes (decode : Bytes → Option UInt32) (requests : List (Client × UInt32)) :
    Prop where
  lines : (terminatedLines (stream requests)).length = requests.length
  /-- Nothing stands behind the last line. -/
  rest : ((stream requests).splitOn lf).getLast? = some []
  durations : (terminatedLines (stream requests)).map decode = requests.map fun r => some r.2

/-- The name of the operation in the copy of a client. -/
def operation : Client → Bytes
  | .asyncTcp => ascii "EMULATE_LONG_CALC_OP"
  | .syncTcp | .syncUdp | .syncSSL => ascii "EMULATE_LONG_COMP_OP"

/-- A request without its line feed. -/
def line (r : Client × UInt32) : Bytes := operation r.1 ++ 32 :: decimal r.2.toNat

/-- All copies write a line of two words. -/
theorem encodeRequest_eq (c : Client) (durationSec : UInt32) :
    encodeRequest c durationSec = line (c, durationSec) ++ [lf] := by
  have hcomp : ascii "EMULATE_LONG_COMP_OP " = ascii "EMULATE_LONG_COMP_OP" ++ [32] := by decide
  have hcalc : ascii "EMULATE_LONG_CALC_OP " = ascii "EMULATE_LONG_CALC_OP" ++ [32] := by decide
  have hlf : ascii "\n" = [lf] := by decide
  cases c with
  | syncTcp | syncUdp | syncSSL =>
    simp only [encodeRequest, SyncTcpClient.encodeRequest, SyncUdpClient.encodeRequest,
      SyncSSLClient.encodeRequest, line, operation, hcomp, hlf, List.append_assoc,
      List.singleton_append]
  | asyncTcp =>
    simp only [encodeRequest, AsyncTcpClient.encodeRequest, line, operation, hcalc, hlf,
      List.append_assoc, List.singleton_append]

theorem isWord_operation (c : Client) : IsWord (operation c) := by
  cases c <;> exact .of_all (by decide) (by decide)

theorem isWord_decimal (n : Nat) : IsWord (decimal n) where
  ne_nil := decimal_ne_nil n
  not_space _ hc := (isDigit_facts (isDigit_of_mem_decimal hc)).1

/-- A line feed is a blank, and so in no word. -/
theorem lf_not_mem_line (r : Client × UInt32) : lf ∉ line r := by
  intro h
  rcases List.mem_append.mp h with h | h
  · exact absurd ((isWord_operation r.1).not_space lf h) (by decide)
  · rcases List.mem_cons.mp h with h | h
    · exact absurd h (by decide)
    · exact absurd ((isWord_decimal r.2.toNat).not_space lf h) (by decide)

/-- The decoder reads the duration of every line, whoever wrote it. -/
theorem decodeRequest_line (r : Client × UInt32) : decodeRequest (line r) = some r.2 := by
  have hwords : words (line r) = [operation r.1, decimal r.2.toNat] := by
    rw [line, words_append_cons _ (by decide), (isWord_operation r.1).words_eq,
      (isWord_decimal r.2.toNat).words_eq, List.singleton_append]
  have hdigits : (decimal r.2.toNat).all isDigit = true :=
    List.all_eq_true.mpr fun _ hc => isDigit_of_mem_decimal hc
  have hlt : r.2.toNat < 2 ^ 32 := r.2.toNat_lt
  simp only [decodeRequest, hwords, decimalValue_decimal, hdigits, hlt, and_self, if_true]
  rw [Nat.toUInt32_eq, UInt32.ofNat_toNat]

theorem splitOn_stream (requests : List (Client × UInt32)) :
    (stream requests).splitOn lf = requests.map line ++ [[]] := by
  have hlines : stream requests = requests.flatMap fun r => line r ++ [lf] := by
    simp only [stream, encodeRequest_eq]
  rw [hlines]
  exact splitOn_flatMap fun r _ => lf_not_mem_line r

theorem terminatedLines_stream (requests : List (Client × UInt32)) :
    terminatedLines (stream requests) = requests.map line := by
  rw [terminatedLines, splitOn_stream, List.dropLast_concat]

/-- The requests of any mix of clients are decoded. -/
theorem decodes (requests : List (Client × UInt32)) : Decodes decodeRequest requests where
  lines := by rw [terminatedLines_stream, List.length_map]
  rest := by rw [splitOn_stream, List.getLast?_concat]
  durations := by
    rw [terminatedLines_stream, List.map_map]
    exact List.map_congr_left fun r _ => decodeRequest_line r

/-- Two clients write the same request exactly when both or neither are `AsyncTcpClient`. -/
theorem encodeRequest_eq_iff (c c' : Client) (durationSec : UInt32) :
    encodeRequest c durationSec = encodeRequest c' durationSec ↔
      (c = .asyncTcp ↔ c' = .asyncTcp) := by
  have hoperation : encodeRequest c durationSec = encodeRequest c' durationSec ↔
      operation c = operation c' := by
    rw [encodeRequest_eq, encodeRequest_eq, List.append_left_inj, line, line,
      List.append_left_inj]
  rw [hoperation]
  cases c <;> cases c' <;> decide

/-- One decoder serves all clients, and two of them speak alike unless exactly one of them is
`AsyncTcpClient`. -/
theorem oneDecoder_twoDialects (requests : List (Client × UInt32)) (c c' : Client)
    (durationSec : UInt32) :
    Decodes decodeRequest requests ∧
      (encodeRequest c durationSec = encodeRequest c' durationSec ↔
        (c = .asyncTcp ↔ c' = .asyncTcp)) :=
  ⟨decodes requests, encodeRequest_eq_iff c c' durationSec⟩

/-- The four clients do not emit the same bytes. -/
theorem calcOp_ne_compOp :
    ¬∃ decode, (∀ requests, Decodes decode requests) ∧
      ∀ c c' durationSec, encodeRequest c durationSec = encodeRequest c' durationSec := by
  rintro ⟨-, -, hsame⟩
  exact absurd (hsame .asyncTcp .syncTcp 10) (by decide)

end RequestLanguage

end BoostAsio

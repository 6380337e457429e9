import BoostAsio.Core.ErrorCode
import BoostAsio.Core.Stream.IStream
import Mathlib.Logic.Function.Basic

/-!
# HTTP messages and error codes

The received message holds the parsed parts and the stream buffer they are parsed
from. Its status code is indeterminate until it is set for the first time.
-/

namespace BoostAsio

/-- `http_errors::invalid_response`. -/
def ErrorCode.invalidResponse : ErrorCode := ⟨1, .httpErrors⟩

/-- `HttpMessage`; the stream over its buffer is only handed to the user. -/
structure HttpMessage where
  statusCode : Option UInt32
  statusMessage : Bytes
  headers : Bytes → Option Bytes
  messageBuf : Bytes

namespace HttpMessage

/-- The constructor of `HttpMessage`. -/
def new : HttpMessage := ⟨none, [], fun _ => none, []⟩

/-- `SetStatusCode`. -/
def setStatusCode (m : HttpMessage) (statusCode : UInt32) : HttpMessage :=
  { m with statusCode := some statusCode }

/-- `SetStatusMessage`. -/
def setStatusMessage (m : HttpMessage) (statusMessage : Bytes) : HttpMessage :=
  { m with statusMessage := statusMessage }

/-- `AddHeader`: a repeated name keeps its last value. -/
def addHeader (m : HttpMessage) (name value : Bytes) : HttpMessage :=
  { m with headers := Function.update m.headers name (some value) }

/-- The message after Asio or a stream has changed its buffer. -/
def withBuf (m : HttpMessage) (buf : Bytes) : HttpMessage := { m with messageBuf := buf }

@[simp] theorem messageBuf_withBuf (m : HttpMessage) (buf : Bytes) :
    (m.withBuf buf).messageBuf = buf := rfl

@[simp] theorem statusCode_withBuf (m : HttpMessage) (buf : Bytes) :
    (m.withBuf buf).statusCode = m.statusCode := rfl

@[simp] theorem statusMessage_withBuf (m : HttpMessage) (buf : Bytes) :
    (m.withBuf buf).statusMessage = m.statusMessage := rfl

@[simp] theorem headers_withBuf (m : HttpMessage) (buf : Bytes) :
    (m.withBuf buf).headers = m.headers := rfl

@[simp] theorem withBuf_withBuf (m : HttpMessage) (b c : Bytes) :
    (m.withBuf b).withBuf c = m.withBuf c := rfl

end HttpMessage

end BoostAsio

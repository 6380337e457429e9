/-!
# Error codes

A code is a value in a category. A value of zero means success whatever the
category is, while equality compares both.
-/

namespace BoostAsio

/-- The categories that Asio's completions and the examples' own code use. -/
inductive Category
  | system | netdb | addrinfo | misc | httpErrors
  | other (n : Nat)
  deriving DecidableEq, Repr

/-- `boost::system::error_code`. -/
structure ErrorCode where
  value : Int
  category : Category
  deriving DecidableEq, Repr

namespace ErrorCode

/-- The default-constructed code. -/
def success : ErrorCode := ⟨0, .system⟩

/-- `asio::error::operation_aborted`, that is `ECANCELED`. -/
def operationAborted : ErrorCode := ⟨125, .system⟩

/-- `asio::error::eof`. -/
def eof : ErrorCode := ⟨2, .misc⟩

/-- `asio::error::not_found`. -/
def notFound : ErrorCode := ⟨3, .misc⟩

/-- The test `ec.value() != 0` of every handler. -/
def failed (ec : ErrorCode) : Bool := ec.value != 0

end ErrorCode

end BoostAsio

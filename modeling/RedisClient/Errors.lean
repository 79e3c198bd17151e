import RedisClient.StandardLibrary

/-!
# Error codes

`std::error_code` is a number together with the category it belongs to.  Codes
of different categories are different even where their numbers agree, and a
code counts as an error when its number is not zero.
-/

namespace RedisClient

/-- The error categories an error code of the client can belong to. -/
inductive ErrorCategory where
  | system
  | client
  | subscriber
  | parse
  | channel
  deriving DecidableEq

/-- `std::error_code` -/
structure ErrorCode where
  category : ErrorCategory
  value : Nat
  deriving DecidableEq

/-- `client_error_code` -/
inductive ClientErrorCode where
  | noError
  | error
  | disconnected
  | writeError
  | readError
  | responseCommandMismatch
  | clientStopped
  deriving DecidableEq

/-- `parse_error_code` -/
inductive ParseErrorCode where
  | noError
  | eof
  | outOfRange
  | malformedMessage
  deriving DecidableEq

def ClientErrorCode.value : ClientErrorCode → Nat
  | .noError => 0
  | .error => 1
  | .disconnected => 2
  | .writeError => 3
  | .readError => 4
  | .responseCommandMismatch => 5
  | .clientStopped => 6

def ParseErrorCode.value : ParseErrorCode → Nat
  | .noError => 0
  | .eof => 1
  | .outOfRange => 2
  | .malformedMessage => 3

/-- `make_error_code(client_error_code)` -/
def ClientErrorCode.toErrorCode (code : ClientErrorCode) : ErrorCode :=
  ⟨.client, code.value⟩

/-- `make_error_code(parse_error_code)` -/
def ParseErrorCode.toErrorCode (code : ParseErrorCode) : ErrorCode :=
  ⟨.parse, code.value⟩

namespace ErrorCode

/-- `std::error_code{}` -/
def success : ErrorCode := ⟨.system, 0⟩

/-- `explicit operator bool` -/
def isError (code : ErrorCode) : Bool := code.value != 0

@[simp] theorem isError_success : success.isError = false := rfl

end ErrorCode

@[simp] theorem ClientErrorCode.isError_toErrorCode (code : ClientErrorCode) :
    code.toErrorCode.isError = (code != .noError) := by
  cases code <;> rfl

@[simp] theorem ParseErrorCode.isError_toErrorCode (code : ParseErrorCode) :
    code.toErrorCode.isError = (code != .noError) := by
  cases code <;> rfl

end RedisClient

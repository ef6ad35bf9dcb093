import Rwhois.RustStd.Str

/-!
# Error

The response code table (`wire/code.rs`, the entries the server itself
answers with) and the crate error type (`error.rs`).
-/

namespace Rwhois

open RustStd

/-- Numeric response code with its canonical message text. -/
structure ResponseCode where
  code : UInt16
  message : Str
  deriving Repr, DecidableEq

namespace ResponseCode

def INVALID_DIRECTIVE_SYNTAX : ResponseCode := ⟨338, "Invalid Directive Syntax".toList⟩
def INVALID_QUERY_SYNTAX : ResponseCode := ⟨350, "Invalid Query Syntax".toList⟩
def DIRECTIVE_NOT_AVAILABLE : ResponseCode := ⟨400, "Directive Not Available".toList⟩
def UNIDENTIFIED_ERROR : ResponseCode := ⟨402, "Unidentified Error".toList⟩
def REGISTRATION_NOT_AUTHORIZED : ResponseCode := ⟨420, "Registration Not Authorized".toList⟩
def SERVICE_NOT_AVAILABLE : ResponseCode := ⟨501, "Service Not Available".toList⟩
def IDLE_TIME_EXCEEDED : ResponseCode := ⟨503, "Idle Time Exceeded".toList⟩

end ResponseCode

/-- Errors of the server library. The payloads of `Io` and `Handler` are
only logged and are not kept. -/
inductive Error where
  | io
  | lineTooLong (max : Nat)
  | protocol (code : ResponseCode) (message : Str)
  | handler
  | idleTimeout
  deriving Repr, DecidableEq

end Rwhois

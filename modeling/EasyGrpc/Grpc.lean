import Mathlib.Logic.Function.Basic

/-!
# The gRPC types the library passes around

Statuses, write options and the results of polling a completion queue, with the fields that the
library reads.
-/

namespace EasyGrpc

inductive StatusCode where
  | ok
  | cancelled
  | unknown
  | invalidArgument
  | deadlineExceeded
  | notFound
  | alreadyExists
  | permissionDenied
  | resourceExhausted
  | failedPrecondition
  | aborted
  | outOfRange
  | unimplemented
  | internal
  | unavailable
  | dataLoss
  | unauthenticated
  deriving DecidableEq, Repr

/-- `grpc::Status`. A default-constructed one is `OK`. -/
structure Status where
  errorCode : StatusCode := .ok
  errorMessage : String := ""
  errorDetails : String := ""
  deriving DecidableEq, Repr

namespace Status

def OK : Status := {}

def ok (status : Status) : Bool := status.errorCode = .ok

/-- What `std::move` leaves behind: the code is copied, the two strings are taken. -/
def movedFrom (status : Status) : Status :=
  { status with errorMessage := "", errorDetails := "" }

end Status

/-- `grpc::WriteOptions`, of which the library reads one flag. -/
structure WriteOptions where
  isLastMessage : Bool := false
  deriving DecidableEq, Repr

inductive NextStatus where
  | shutdown
  | gotEvent
  | timeout
  deriving DecidableEq, Repr

end EasyGrpc

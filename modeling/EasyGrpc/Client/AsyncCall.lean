import EasyGrpc.Grpc
import EasyGrpc.Promise

/-!
# The call objects of the client

`AsyncUnaryCall` and `AsyncClientStreamCall` with the fields their completions read and write, and
what each completion does to its own call. Which thread runs these and when is the business of
`AsyncClient` and of `AsyncClientStreamWriter`.
-/

namespace EasyGrpc.Client

structure AsyncCallError where
  what : String
  status : Status
  deriving DecidableEq, Repr

/-- The base class copies the message before the member takes the status. -/
def AsyncCallError.new (status : Status) : AsyncCallError :=
  { what := status.errorMessage, status := status }

/-- `weakThis` is the base class `enable_shared_from_this`: it is set once `make_shared` has
installed the first owner. -/
structure AsyncUnaryCall (Response : Type) where
  status : Status := .OK
  response : Response
  responsePromise : Promise Response AsyncCallError := .pending
  hasResponseCallback : Bool
  weakThis : Bool := false

/-- The pointer `_streamWriter`, which has no initial value. -/
inductive StreamWriterPtr where
  | uninitialised
  | created
  deriving DecidableEq, Repr

structure AsyncClientStreamCall (Response : Type) where
  status : Status := .OK
  streamWriter : StreamWriterPtr := .uninitialised
  streamWriterPromise : Promise StreamWriterPtr AsyncCallError := .pending
  response : Response
  responsePromise : Promise Response AsyncCallError := .pending
  weakThis : Bool := false

variable {Response : Type}

namespace AsyncUnaryCall

/-- The `try` block of `finalizeFinished` with its handler. The exception is built from the moved
status. On a promise that is already satisfied both arms end in a `future_error`, here `none`. -/
def setResponse (call : AsyncUnaryCall Response) : Option (AsyncUnaryCall Response) :=
  if call.status.ok then
    (call.responsePromise.setValue call.response).map fun p => { call with responsePromise := p }
  else
    (call.responsePromise.setException (.new call.status)).map fun p =>
      { call with status := call.status.movedFrom, responsePromise := p }

def takeResponseCallback (call : AsyncUnaryCall Response) : AsyncUnaryCall Response :=
  { call with hasResponseCallback := false }

end AsyncUnaryCall

namespace AsyncClientStreamCall

def markStreamWriterReady (call : AsyncClientStreamCall Response) :
    Option (AsyncClientStreamCall Response) :=
  (call.streamWriterPromise.setValue call.streamWriter).map fun p =>
    { call with streamWriterPromise := p }

def onStreamWriterFinish (call : AsyncClientStreamCall Response) :
    Option (AsyncClientStreamCall Response) :=
  (call.responsePromise.setValue call.response).map fun p => { call with responsePromise := p }

theorem onStreamWriterFinish_eq_none {call : AsyncClientStreamCall Response}
    (h : call.responsePromise ≠ .pending) : call.onStreamWriterFinish = none := by
  rw [onStreamWriterFinish, Option.map_eq_none_iff]
  cases hp : call.responsePromise.setValue call.response with
  | none => rfl
  | some p => exact absurd (Promise.setValue_eq_some_iff.mp hp).1 h

end AsyncClientStreamCall

end EasyGrpc.Client

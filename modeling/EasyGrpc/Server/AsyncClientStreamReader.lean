import EasyGrpc.Promise

/-!
# The server's stream reader

`moveNext` starts a Read; its result is the future that `moveNext` returned, and the message is found in
`current`. A reader that comes to the end of its stream runs `_onFinished`, a callback that has captured
the action which created the reader.
-/

namespace EasyGrpc.Server

structure AsyncClientStreamReader (Request : Type) where
  /-- The address of the action that `_onFinished` has captured. -/
  onFinished : Nat
  current : Request
  /-- The future of the last `moveNext`. -/
  moved : Option (Promise Bool Empty) := none

namespace AsyncClientStreamReader

variable {Request : Type}

/-- The user awaits each `moveNext`, and stops at the first one that yields false. -/
def awaited (reader : AsyncClientStreamReader Request) : Bool :=
  match reader.moved with
  | none => true
  | some (.value ok) => ok
  | some _ => false

/-- The construction of the `ReadAction` and the call of `result` on it, in one step. The source calls
`result` after the Read was started, and the polling thread may have deleted the action by then. -/
def moveNext (reader : AsyncClientStreamReader Request) : AsyncClientStreamReader Request :=
  { reader with moved := some .pending }

/-- `ReadAction::finalizeResult`, up to `_onFinished`; with `ok` gRPC has stored the message. -/
def finalizeRead (ok : Bool) (message : Request) (reader : AsyncClientStreamReader Request) :
    AsyncClientStreamReader Request :=
  { reader with
    current := if ok then message else reader.current
    moved := some (.value ok) }

end AsyncClientStreamReader

end EasyGrpc.Server

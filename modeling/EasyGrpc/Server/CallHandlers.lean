import EasyGrpc.Server.AsyncUnaryCallHandler
import EasyGrpc.Server.AsyncClientStreamCallHandler
import Mathlib.Data.Finset.Insert

/-!
# The call handlers of a server

Handlers are registered with a queue each and live in its `_callHandlers`; their actions point back to
them. `stop` shuts the gRPC server down and then, queue by queue, deletes the handlers and shuts the
completion queue down, while the polling threads go on finalising. The virtual `shutdown` of a handler is
empty and nothing overrides it, so `shutdownCallHandlers` is no step here.

Registration and `stop` come from one user thread. A deleted handler stays in the model as what is found
at its address.
-/

namespace EasyGrpc.Server

inductive CallHandler (Context Request Response ε : Type) where
  | unary (handler : AsyncUnaryCallHandler Context Request Response ε)
  | clientStream (handler : AsyncClientStreamCallHandler Request)

namespace CallHandler

variable {Context Request Response ε : Type}

/-- gRPC holds the tag of an action that points to the handler. A Read points to its reader only. -/
def isAwaited : CallHandler Context Request Response ε → Bool
  | .unary handler => handler.actions.any (·.isTag)
  | .clientStream handler => handler.actions.any (·.streamReader.isSome)

end CallHandler

/-- How far `stop` has come: before `_server->Shutdown()`, inside it, at the queue `i`. -/
inductive StopStage where
  | running
  | serverShutdown
  | queue (i : Nat) (handlersDeleted : Bool)
  deriving DecidableEq, Repr

inductive RegistrationError where
  | outOfRange
  | invalidArgument (what : String)
  deriving DecidableEq, Repr

structure CallHandlers (Context Request Response ε : Type) where
  numQueues : Nat
  started : Bool := false
  stage : StopStage := .running
  /-- The heap of handlers, and the queue that each was registered with. -/
  handlers : Nat → Option (CallHandler Context Request Response ε) := fun _ => none
  queueOf : Nat → Nat := fun _ => 0
  nextHandler : Nat := 0
  /-- `_callHandlers` of each queue. -/
  callHandlers : Nat → Finset Nat := fun _ => ∅
  /-- The handler that `newCallHandler` has constructed and not yet inserted. -/
  inserting : Option Nat := none

namespace CallHandlers

variable {Context Request Response ε : Type}

def Live (s : CallHandlers Context Request Response ε) (handler : Nat) : Prop :=
  handler ∈ s.callHandlers (s.queueOf handler) ∨ s.inserting = some handler

def isShutdown (s : CallHandlers Context Request Response ε) (queue : Nat) : Bool :=
  match s.stage with
  | .queue i _ => queue < i
  | _ => false

def newCallHandler (queue : Nat) (handler : CallHandler Context Request Response ε)
    (s : CallHandlers Context Request Response ε) : CallHandlers Context Request Response ε :=
  { s with
    handlers := Function.update s.handlers s.nextHandler (some handler)
    queueOf := Function.update s.queueOf s.nextHandler queue
    nextHandler := s.nextHandler + 1
    inserting := some s.nextHandler }

/-- Up to the construction of the handler. -/
def registerCallHandler (queue : Nat) (hasHandleFunc : Bool)
    (handler : CallHandler Context Request Response ε)
    (s : CallHandlers Context Request Response ε) :
    Except RegistrationError (CallHandlers Context Request Response ε) :=
  if queue < s.numQueues then
    if hasHandleFunc then .ok (s.newCallHandler queue handler)
    else .error (.invalidArgument "Null handleFunc.")
  else .error .outOfRange

def insertCallHandler (handler : Nat) (s : CallHandlers Context Request Response ε) :
    CallHandlers Context Request Response ε :=
  { s with
    callHandlers := Function.update s.callHandlers (s.queueOf handler)
      (insert handler (s.callHandlers (s.queueOf handler)))
    inserting := none }

def deleteAllCallHandlers (queue : Nat) (s : CallHandlers Context Request Response ε) :
    CallHandlers Context Request Response ε :=
  { s with
    callHandlers := Function.update s.callHandlers queue ∅
    stage := .queue queue true }

def setHandler (k : Nat) (handler : CallHandler Context Request Response ε)
    (s : CallHandlers Context Request Response ε) : CallHandlers Context Request Response ε :=
  { s with handlers := Function.update s.handlers k (some handler) }

inductive Event (Context Request Response ε : Type) where
  | start
  | registerUnary (queue : Nat) (hasHandleFunc : Bool)
  | registerClientStream (queue : Nat) (hasHandleFunc : Bool)
  | insertCallHandler
  | unary (handler : Nat) (e : AsyncUnaryCallHandler.Event Context Request Response ε)
  | clientStream (handler : Nat) (e : AsyncClientStreamCallHandler.Event Request)
  | shutdownServer
  | serverShutdown
  | deleteAllCallHandlers
  | shutdownQueue

def isCompletion : Event Context Request Response ε → Bool
  | .unary _ (.asyncNext ..) => true
  | .clientStream _ (.asyncNext ..) => true
  | _ => false

variable [Inhabited Context] [Inhabited Request] [Inhabited Response]

def registered (s : CallHandlers Context Request Response ε) (queue : Nat) (hasHandleFunc : Bool)
    (handler : CallHandler Context Request Response ε) :
    Option (CallHandlers Context Request Response ε) :=
  if s.stage = .running ∧ s.inserting = none then
    match s.registerCallHandler queue hasHandleFunc handler with
    | .ok s' => some s'
    | .error _ => some s
  else none

def step (s : CallHandlers Context Request Response ε)
    (e : Event Context Request Response ε) : Option (CallHandlers Context Request Response ε) :=
  if isCompletion e ∧ s.started = false then none
  else
    match e with
    | .start => if s.stage = .running then some { s with started := true } else none
    | .registerUnary queue hasHandleFunc =>
        s.registered queue hasHandleFunc (.unary (.initial Context Request Response ε))
    | .registerClientStream queue hasHandleFunc =>
        s.registered queue hasHandleFunc (.clientStream (.initial Request))
    | .insertCallHandler => s.inserting.map fun k => s.insertCallHandler k
    | .unary k e =>
        match s.handlers k with
        | some (.unary handler) => (handler.step e).map fun h => s.setHandler k (.unary h)
        | _ => none
    | .clientStream k e =>
        match s.handlers k with
        | some (.clientStream handler) =>
            (handler.step e).map fun h => s.setHandler k (.clientStream h)
        | _ => none
    | .shutdownServer =>
        if s.stage = .running ∧ s.started ∧ s.inserting = none then
          some { s with stage := .serverShutdown }
        else none
    | .serverShutdown =>
        if s.stage = .serverShutdown then some { s with stage := .queue 0 false } else none
    | .deleteAllCallHandlers =>
        match s.stage with
        | .queue i false => if i < s.numQueues then some (s.deleteAllCallHandlers i) else none
        | _ => none
    | .shutdownQueue =>
        match s.stage with
        | .queue i true => some { s with stage := .queue (i + 1) false }
        | _ => none

def system (Context Request Response ε : Type)
    [Inhabited Context] [Inhabited Request] [Inhabited Response] :
    TransitionSystem (CallHandlers Context Request Response ε) (Event Context Request Response ε) where
  init s := ∃ n, s = { numQueues := n }
  step := step

end CallHandlers

end EasyGrpc.Server

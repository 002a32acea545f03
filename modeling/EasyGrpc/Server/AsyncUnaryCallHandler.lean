import EasyGrpc.Grpc
import EasyGrpc.TransitionSystem

/-!
# The server's unary call handler

A `Call` is allocated for each open request. It is passed by raw pointer from the request action to
the handling action and on to the finish action, and whoever is last deletes it. A step is one
completion, from the return of `AsyncNext` to `delete action`, or the `perform` of a handling action
on a thread of its executor. An executor may also run `perform` inline, within the completion.

What the user's function does is part of the event: each invocation returns a response or throws.
-/

namespace EasyGrpc.Server

namespace AsyncUnaryCallHandler

/-- The stream of a call is used through its actions only. -/
structure Call (Context Request Response : Type) where
  context : Context
  request : Request
  response : Response
  deriving Inhabited

/-- How far the function that a `CallHandlingAction` dispatches has come. After an exception no
alarm is set. -/
inductive HandlingStage where
  | dispatched
  | alarmSet
  | threw
  deriving DecidableEq, Repr

inductive CallHandlerActionKind where
  | serviceRequest
  | callHandling (stage : HandlingStage)
  | callFinish
  deriving DecidableEq, Repr

/-- `id` and `call` stand for the addresses of the action and of its `Call`. -/
structure CallHandlerAction where
  id : Nat
  call : Nat
  kind : CallHandlerActionKind
  deriving DecidableEq, Repr

namespace CallHandlerAction

def isServiceRequest (a : CallHandlerAction) : Bool := a.kind = .serviceRequest

def isTag (a : CallHandlerAction) : Bool :=
  match a.kind with
  | .serviceRequest => true
  | .callHandling stage => stage = .alarmSet
  | .callFinish => true

def isDispatched (a : CallHandlerAction) : Bool := a.kind = .callHandling .dispatched

/-- gRPC or an executor still has to do with the action. One whose `perform` threw is forgotten. -/
def isOutstanding (a : CallHandlerAction) : Bool := a.isTag || a.isDispatched

end CallHandlerAction

structure Accepted (Context Request : Type) where
  call : Nat
  context : Context
  request : Request

structure Invocation (Context Request Response ε : Type) where
  call : Nat
  context : Context
  request : Request
  outcome : Except ε Response

structure Finish (Response : Type) where
  call : Nat
  response : Response
  status : Status

structure Escaped where
  call : Nat
  onPollingThread : Bool

end AsyncUnaryCallHandler

open AsyncUnaryCallHandler

structure AsyncUnaryCallHandler (Context Request Response ε : Type) where
  calls : Nat → Call Context Request Response
  nextCall : Nat := 0
  nextAction : Nat := 0
  actions : List CallHandlerAction := []
  deleted : List Nat := []
  /-- A request tag has come back with `ok` false. -/
  requestsClosed : Bool := false
  accepted : List (Accepted Context Request) := []
  invocations : List (Invocation Context Request Response ε) := []
  finishes : List (Finish Response) := []
  escaped : List Escaped := []

namespace AsyncUnaryCallHandler

variable {Context Request Response ε : Type}

def outstanding (h : AsyncUnaryCallHandler Context Request Response ε) : List CallHandlerAction :=
  h.actions.filter (·.isOutstanding)

/-- An exception has left the polling thread, which calls `std::terminate`. -/
def terminated (h : AsyncUnaryCallHandler Context Request Response ε) : Bool :=
  h.escaped.any (·.onPollingThread)

def deleteCall (call : Nat) (h : AsyncUnaryCallHandler Context Request Response ε) :
    AsyncUnaryCallHandler Context Request Response ε :=
  { h with deleted := h.deleted ++ [call] }

def newAction (call : Nat) (kind : CallHandlerActionKind)
    (h : AsyncUnaryCallHandler Context Request Response ε) :
    AsyncUnaryCallHandler Context Request Response ε :=
  { h with nextAction := h.nextAction + 1, actions := h.actions ++ [⟨h.nextAction, call, kind⟩] }

section Request

variable [Inhabited Context] [Inhabited Request] [Inhabited Response]

def newCallRequest (h : AsyncUnaryCallHandler Context Request Response ε) :
    AsyncUnaryCallHandler Context Request Response ε :=
  newAction h.nextCall .serviceRequest
    { h with calls := Function.update h.calls h.nextCall default, nextCall := h.nextCall + 1 }

def initial (Context Request Response ε : Type)
    [Inhabited Context] [Inhabited Request] [Inhabited Response] :
    AsyncUnaryCallHandler Context Request Response ε :=
  newCallRequest { calls := fun _ => default }

end Request

def accept (call : Nat) (context : Context) (request : Request)
    (h : AsyncUnaryCallHandler Context Request Response ε) :
    AsyncUnaryCallHandler Context Request Response ε :=
  { h with
    calls := Function.update h.calls call { h.calls call with context, request }
    accepted := h.accepted ++ [⟨call, context, request⟩] }

/-- `CallHandlingAction::perform`. An exception leaves it before the alarm is set. -/
def perform (a : CallHandlerAction) (onPollingThread : Bool) (outcome : Except ε Response)
    (h : AsyncUnaryCallHandler Context Request Response ε) :
    AsyncUnaryCallHandler Context Request Response ε :=
  let call := h.calls a.call
  let invocations := h.invocations ++ [⟨a.call, call.context, call.request, outcome⟩]
  match outcome with
  | .ok response =>
      { h with
        invocations
        calls := Function.update h.calls a.call { call with response }
        actions := h.actions ++ [{ a with kind := .callHandling .alarmSet }] }
  | .error _ =>
      { h with
        invocations
        escaped := h.escaped ++ [⟨a.call, onPollingThread⟩]
        actions := h.actions ++ [{ a with kind := .callHandling .threw }] }

/-- The constructor of `CallHandlingAction`. With `inline` the executor runs `perform` at once. -/
def newCallHandling (call : Nat) (inline : Option (Except ε Response))
    (h : AsyncUnaryCallHandler Context Request Response ε) :
    AsyncUnaryCallHandler Context Request Response ε :=
  match inline with
  | none => h.newAction call (.callHandling .dispatched)
  | some outcome =>
      perform ⟨h.nextAction, call, .callHandling .dispatched⟩ true outcome
        { h with nextAction := h.nextAction + 1 }

def newCallFinish (call : Nat) (status : Status)
    (h : AsyncUnaryCallHandler Context Request Response ε) :
    AsyncUnaryCallHandler Context Request Response ε :=
  newAction call .callFinish
    { h with finishes := h.finishes ++ [⟨call, (h.calls call).response, status⟩] }

section Step

variable [Inhabited Context] [Inhabited Request] [Inhabited Response]

def finalizeCallRequest (call : Nat) (ok : Bool) (inline : Option (Except ε Response))
    (h : AsyncUnaryCallHandler Context Request Response ε) :
    AsyncUnaryCallHandler Context Request Response ε :=
  if ok then h.newCallRequest.newCallHandling call inline
  else { h.deleteCall call with requestsClosed := true }

def finalizeCallHandling (call : Nat) (ok : Bool)
    (h : AsyncUnaryCallHandler Context Request Response ε) :
    AsyncUnaryCallHandler Context Request Response ε :=
  if ok then h.newCallFinish call .OK else h.deleteCall call

def finalizeCallFinish (call : Nat) (_ok : Bool)
    (h : AsyncUnaryCallHandler Context Request Response ε) :
    AsyncUnaryCallHandler Context Request Response ε :=
  h.deleteCall call

inductive Event (Context Request Response ε : Type) where
  /-- `AsyncNext` returns a tag and it is finalised. With a request tag and `ok` gRPC has stored the
  context and the request, and the executor of the new handling action may run it inline. -/
  | asyncNext (id : Nat) (ok : Bool) (context : Context) (request : Request)
      (inline : Option (Except ε Response))
  | perform (id : Nat) (outcome : Except ε Response)

/-- `finalizeResult` of the three actions, on an action taken out of the live ones. -/
def finalizeResult (a : CallHandlerAction) (ok : Bool) (context : Context) (request : Request)
    (inline : Option (Except ε Response))
    (h : AsyncUnaryCallHandler Context Request Response ε) :
    AsyncUnaryCallHandler Context Request Response ε :=
  match a.kind with
  | .serviceRequest =>
      finalizeCallRequest a.call ok inline (if ok then h.accept a.call context request else h)
  | .callHandling _ => h.finalizeCallHandling a.call ok
  | .callFinish => h.finalizeCallFinish a.call ok

def step (h : AsyncUnaryCallHandler Context Request Response ε) :
    Event Context Request Response ε → Option (AsyncUnaryCallHandler Context Request Response ε)
  | .asyncNext id ok context request inline =>
      if h.terminated then none
      else (h.actions.find? fun a => a.id = id ∧ a.isTag).map fun a =>
        finalizeResult a ok context request inline
          { h with actions := h.actions.eraseP fun a => a.id = id ∧ a.isTag }
  | .perform id outcome =>
      if h.terminated then none
      else (h.actions.find? fun a => a.id = id ∧ a.isDispatched).map fun a =>
        perform a false outcome
          { h with actions := h.actions.eraseP fun a => a.id = id ∧ a.isDispatched }

def system (Context Request Response ε : Type)
    [Inhabited Context] [Inhabited Request] [Inhabited Response] :
    TransitionSystem (AsyncUnaryCallHandler Context Request Response ε)
      (Event Context Request Response ε) where
  init h := h = initial Context Request Response ε
  step := step

end Step

end AsyncUnaryCallHandler

end EasyGrpc.Server

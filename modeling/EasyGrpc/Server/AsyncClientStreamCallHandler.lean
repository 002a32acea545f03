import EasyGrpc.Server.AsyncClientStreamReader
import EasyGrpc.TransitionSystem

/-!
# The server's client-stream call handler

A request action allocates the reader of the stream that it asks gRPC for. When gRPC has accepted the
stream, the reader goes to `_streamReaders`, and the queue deletes the action as soon as its finaliser
has returned. The user's function is stored and not called; the calls of `moveNext` are its environment's.

A step is a call of `moveNext`, or one completion, from the return of `AsyncNext` to `delete action`. A
callback that reads a deleted action is undefined, and the run ends there.
-/

namespace EasyGrpc.Server

namespace AsyncClientStreamCallHandler

/-- `RequestStreamAction` and the `ReadAction` of a reader; the readers are given by their addresses. -/
inductive ActionKind where
  | requestStream (streamReader : Nat)
  | read (owner : Nat)
  deriving DecidableEq, Repr

structure Action where
  id : Nat
  kind : ActionKind
  deriving DecidableEq, Repr

def Action.streamReader (a : Action) : Option Nat :=
  match a.kind with
  | .requestStream streamReader => some streamReader
  | .read _ => none

end AsyncClientStreamCallHandler

open AsyncClientStreamCallHandler

structure AsyncClientStreamCallHandler (Request : Type) where
  /-- The heap of readers. -/
  readers : Nat → AsyncClientStreamReader Request
  nextReader : Nat := 0
  nextAction : Nat := 0
  /-- The actions whose tags gRPC holds. -/
  actions : List Action := []
  streamReaders : List Nat := []
  deletedReaders : List Nat := []
  deletedActions : List Nat := []
  /-- The reader whose callback has read a deleted action. -/
  fault : Option Nat := none

namespace AsyncClientStreamCallHandler

variable {Request : Type}

def deleteReader (reader : Nat) (h : AsyncClientStreamCallHandler Request) :
    AsyncClientStreamCallHandler Request :=
  { h with deletedReaders := h.deletedReaders ++ [reader] }

def newAction (kind : ActionKind) (h : AsyncClientStreamCallHandler Request) :
    AsyncClientStreamCallHandler Request :=
  { h with nextAction := h.nextAction + 1, actions := h.actions ++ [⟨h.nextAction, kind⟩] }

def setReader (reader : Nat) (r : AsyncClientStreamReader Request)
    (h : AsyncClientStreamCallHandler Request) : AsyncClientStreamCallHandler Request :=
  { h with readers := Function.update h.readers reader r }

def onStreamReaderFinished (reader : Nat) (h : AsyncClientStreamCallHandler Request) :
    AsyncClientStreamCallHandler Request :=
  { h.deleteReader reader with streamReaders := h.streamReaders.erase reader }

/-- `_onFinished(this)`: the lambda reads the handler from the action it has captured. -/
def onFinished (reader : Nat) (h : AsyncClientStreamCallHandler Request) :
    AsyncClientStreamCallHandler Request :=
  if (h.readers reader).onFinished ∈ h.deletedActions then { h with fault := some reader }
  else h.onStreamReaderFinished reader

section Request

variable [Inhabited Request]

def newRequestStream (h : AsyncClientStreamCallHandler Request) :
    AsyncClientStreamCallHandler Request :=
  newAction (.requestStream h.nextReader)
    { h.setReader h.nextReader { onFinished := h.nextAction, current := default } with
      nextReader := h.nextReader + 1 }

def initial (Request : Type) [Inhabited Request] : AsyncClientStreamCallHandler Request :=
  newRequestStream { readers := fun _ => { onFinished := 0, current := default } }

def onNewStreamReaderReady (reader : Nat) (h : AsyncClientStreamCallHandler Request) :
    AsyncClientStreamCallHandler Request :=
  { h.newRequestStream with streamReaders := h.streamReaders ++ [reader] }

/-- `finalizeResult` of the two actions, on an action taken out of the outstanding ones. -/
def finalizeResult (a : Action) (ok : Bool) (message : Request)
    (h : AsyncClientStreamCallHandler Request) : AsyncClientStreamCallHandler Request :=
  match a.kind with
  | .requestStream reader => if ok then h.onNewStreamReaderReady reader else h.deleteReader reader
  | .read reader =>
      let h := h.setReader reader ((h.readers reader).finalizeRead ok message)
      if ok then h else h.onFinished reader

inductive Event (Request : Type) where
  | moveNext (reader : Nat)
  | asyncNext (id : Nat) (ok : Bool) (message : Request)

def accepted (reader : Nat) (h : AsyncClientStreamCallHandler Request) : Bool :=
  reader < h.nextReader ∧ reader ∉ h.actions.filterMap (·.streamReader) ∧
    reader ∉ h.deletedReaders

def step (h : AsyncClientStreamCallHandler Request) :
    Event Request → Option (AsyncClientStreamCallHandler Request)
  | .moveNext reader =>
      if h.fault = none ∧ h.accepted reader ∧ (h.readers reader).awaited then
        some (newAction (.read reader) (h.setReader reader (h.readers reader).moveNext))
      else none
  | .asyncNext id ok message =>
      if h.fault = none then
        (h.actions.find? (·.id = id)).map fun a =>
          let h := finalizeResult a ok message { h with actions := h.actions.eraseP (·.id = id) }
          { h with deletedActions := h.deletedActions ++ [a.id] }
      else none

def system (Request : Type) [Inhabited Request] :
    TransitionSystem (AsyncClientStreamCallHandler Request) (Event Request) where
  init h := h = initial Request
  step := step

end Request

end AsyncClientStreamCallHandler

end EasyGrpc.Server

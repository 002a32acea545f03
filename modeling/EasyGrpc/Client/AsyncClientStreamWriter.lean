import EasyGrpc.Client.AsyncCall
import EasyGrpc.TransitionSystem

/-!
# The client's stream writer

User threads submit writes and finishes; the thread that polls the completion queue finalises the
operations handed to gRPC. A step is a critical section of `_actionsMutex`, a part of
`finalizeResult` that other threads can tell apart, or the return of `AsyncNext`. `perform` runs
inside a section of `_actionsMutex`, and so does the whole drain loop of `finalizeWrite`.

Assertions are recorded and not enforced, as in a build with `NDEBUG`. A build with assertions stops
at the first failed one, so its runs are beginnings of these.
-/

namespace EasyGrpc.Client

inductive AsyncClientStreamWriterState where
  | ready
  | processing
  | finished
  deriving DecidableEq, Repr

structure InvalidStreamingAction where
  message : String
  deriving DecidableEq, Repr

inductive StreamActionKind (Request : Type) where
  | write (message : Request) (options : WriteOptions)
  | finish
  deriving DecidableEq, Repr

/-- A `StreamAction` object; `id` stands for its address. -/
structure StreamAction (Request : Type) where
  id : Nat
  kind : StreamActionKind Request
  deriving DecidableEq, Repr

namespace StreamAction

variable {Request : Type}

def isWrite (a : StreamAction Request) : Bool :=
  match a.kind with
  | .write _ _ => true
  | .finish => false

def isFinish (a : StreamAction Request) : Bool := !a.isWrite

def isLastMessage (a : StreamAction Request) : Bool :=
  match a.kind with
  | .write _ options => options.isLastMessage
  | .finish => false

end StreamAction

/-- Where the polling thread stands in `AsyncActionQueue::asyncNext`: at the tag it got; inside
`finalizeResult` with `_stateMutex` held and the promise fulfilled; past it with `_state` at `Ready`;
in `finalizeWrite` with `ok` false after `finish` has pushed its action; before `delete action`. -/
inductive CompletionPc (Request : Type) where
  | idle
  | gotEvent (action : StreamAction Request) (ok : Bool)
  | resultSet (action : StreamAction Request) (ok : Bool)
  | stateReady (action : StreamAction Request) (ok : Bool)
  | finishPushed (action : StreamAction Request)
  | finalized (action : StreamAction Request)
  deriving DecidableEq, Repr

structure AsyncClientStreamWriter (Tid Request Response : Type) where
  state : AsyncClientStreamWriterState := .ready
  actions : List (StreamAction Request) := []
  owner : AsyncClientStreamCall Response
  promises : Nat → Promise Bool InvalidStreamingAction := fun _ => .pending
  nextId : Nat := 0
  /-- User threads between the push of their action and the end of their `tryPerformAction`. -/
  callers : List Tid := []
  completion : CompletionPc Request := .idle
  outstanding : List (StreamAction Request) := []
  pushed : List (StreamAction Request) := []
  popped : List (StreamAction Request) := []
  handed : List (StreamAction Request) := []
  deleted : List (StreamAction Request) := []
  /-- The value of every asserted condition, in order. -/
  asserts : List Bool := []
  onFinishedRuns : Nat := 0
  /-- How often an action's promise was found satisfied by `setResult` or `setException`. -/
  futureErrors : Nat := 0
  terminated : Bool := false

namespace AsyncClientStreamWriter

variable {Tid Request Response : Type}

def initial (Tid Request : Type) (response : Response) :
    AsyncClientStreamWriter Tid Request Response where
  owner := { streamWriter := .created, response := response }

def newAction (kind : StreamActionKind Request) (w : AsyncClientStreamWriter Tid Request Response) :
    AsyncClientStreamWriter Tid Request Response :=
  { w with
    nextId := w.nextId + 1
    actions := w.actions ++ [⟨w.nextId, kind⟩]
    pushed := w.pushed ++ [⟨w.nextId, kind⟩] }

def popAction (a : StreamAction Request) (rest : List (StreamAction Request))
    (w : AsyncClientStreamWriter Tid Request Response) :
    AsyncClientStreamWriter Tid Request Response :=
  { w with actions := rest, popped := w.popped ++ [a] }

def assertThat (condition : Bool) (w : AsyncClientStreamWriter Tid Request Response) :
    AsyncClientStreamWriter Tid Request Response :=
  { w with asserts := w.asserts ++ [condition] }

/-- `setResult`. A promise that is already satisfied stays as it is, and the error is counted. -/
def setResult (a : StreamAction Request) (ok : Bool)
    (w : AsyncClientStreamWriter Tid Request Response) :
    AsyncClientStreamWriter Tid Request Response :=
  let p := (w.promises a.id).setValue ok
  { w with
    promises := Function.update w.promises a.id (p.getD (w.promises a.id))
    futureErrors := w.futureErrors + if p.isNone then 1 else 0 }

def setException (a : StreamAction Request) (message : String)
    (w : AsyncClientStreamWriter Tid Request Response) :
    AsyncClientStreamWriter Tid Request Response :=
  let p := (w.promises a.id).setException ⟨message⟩
  { w with
    promises := Function.update w.promises a.id (p.getD (w.promises a.id))
    futureErrors := w.futureErrors + if p.isNone then 1 else 0 }

def perform (a : StreamAction Request) (w : AsyncClientStreamWriter Tid Request Response) :
    AsyncClientStreamWriter Tid Request Response :=
  { w.assertThat (w.state = .ready) with
    state := .processing
    outstanding := w.outstanding ++ [a]
    handed := w.handed ++ [a] }

def tryPerformPopped (a : StreamAction Request)
    (w : AsyncClientStreamWriter Tid Request Response) :
    AsyncClientStreamWriter Tid Request Response :=
  match w.state with
  | .ready => w.perform a
  | .finished => w.setException a "The stream is finished, no more action is allowed."
  -- "Process in finalizeXxx function.": the action is neither performed nor put back
  | .processing => w

def tryPerformAction (w : AsyncClientStreamWriter Tid Request Response) :
    AsyncClientStreamWriter Tid Request Response :=
  match w.actions with
  | [] => w
  | a :: rest => (w.popAction a rest).tryPerformPopped a

def drain (lastMessageWritten : Bool) (finishPerformed : Bool) :
    List (StreamAction Request) → AsyncClientStreamWriter Tid Request Response →
      AsyncClientStreamWriter Tid Request Response
  | [], w => w
  | next :: rest, w =>
      let w := w.popAction next rest
      match next.kind with
      | .write _ _ =>
          if lastMessageWritten then
            drain lastMessageWritten finishPerformed rest
              (w.setException next "Last already written, no more message is allowed.")
          else if finishPerformed then
            drain lastMessageWritten finishPerformed rest
              (w.setException next "Attempt to write after finish.")
          else
            drain lastMessageWritten finishPerformed rest (w.perform next)
      | .finish =>
          if finishPerformed then
            drain lastMessageWritten finishPerformed rest
              (w.setException next "Duplicate finish call.")
          else
            drain lastMessageWritten true rest (w.perform next)

/-- `finalizeWrite`; with `ok` false it stops after the push of `finish`. -/
def finalizeWrite (a : StreamAction Request) (ok : Bool)
    (w : AsyncClientStreamWriter Tid Request Response) :
    AsyncClientStreamWriter Tid Request Response :=
  if ok then
    { drain a.isLastMessage false w.actions w with completion := .finalized a }
  else
    { w.newAction .finish with completion := .finishPushed a }

/-- `finalizeFinish`. A `future_error` of the response promise leaves the polling thread in the
middle of this function. -/
def finalizeFinish (a : StreamAction Request) (ok : Bool)
    (w : AsyncClientStreamWriter Tid Request Response) :
    AsyncClientStreamWriter Tid Request Response :=
  let owner := w.owner.onStreamWriterFinish
  { w.assertThat ok with
    onFinishedRuns := w.onFinishedRuns + 1
    owner := owner.getD w.owner
    completion := if owner.isSome then .finalized a else w.completion
    terminated := owner.isNone }

def finalizeSetResult (a : StreamAction Request) (ok : Bool)
    (w : AsyncClientStreamWriter Tid Request Response) :
    AsyncClientStreamWriter Tid Request Response :=
  { (w.assertThat (w.state = .processing)).setResult a ok with completion := .resultSet a ok }

def completionStep (w : AsyncClientStreamWriter Tid Request Response) :
    Option (AsyncClientStreamWriter Tid Request Response) :=
  match w.completion with
  | .idle => none
  | .gotEvent a ok => some (w.finalizeSetResult a ok)
  | .resultSet a ok => some { w with state := .ready, completion := .stateReady a ok }
  | .stateReady a ok =>
      match a.kind with
      | .write _ _ => some (w.finalizeWrite a ok)
      | .finish => some (w.finalizeFinish a ok)
  | .finishPushed a => some { w.tryPerformAction with completion := .finalized a }
  | .finalized a => some { w with deleted := w.deleted ++ [a], completion := .idle }

/-- The polling thread holds `_stateMutex`, which `perform` waits for. -/
def stateMutexHeld (w : AsyncClientStreamWriter Tid Request Response) : Bool :=
  match w.completion with
  | .resultSet _ _ => true
  | _ => false

inductive Event (Tid Request Response : Type) where
  /-- `write` and `finish` of a user thread, up to the push. -/
  | write (t : Tid) (message : Request) (options : WriteOptions)
  | finish (t : Tid)
  | tryPerformAction (t : Tid)
  /-- `AsyncNext` returns a tag. With the tag of a Finish gRPC has stored the status of the call and,
  when there is one, the response message. -/
  | asyncNext (id : Nat) (ok : Bool) (status : Status) (response : Option Response)
  | completion

def storeFinal (a : StreamAction Request) (status : Status) (response : Option Response)
    (owner : AsyncClientStreamCall Response) : AsyncClientStreamCall Response :=
  match a.kind with
  | .write _ _ => owner
  | .finish => { owner with status := status, response := response.getD owner.response }

variable [DecidableEq Tid]

def step (w : AsyncClientStreamWriter Tid Request Response) :
    Event Tid Request Response → Option (AsyncClientStreamWriter Tid Request Response)
  | .write t message options =>
      if w.terminated ∨ t ∈ w.callers then none
      else some { w.newAction (.write message options) with callers := t :: w.callers }
  | .finish t =>
      if w.terminated ∨ t ∈ w.callers then none
      else some { w.newAction .finish with callers := t :: w.callers }
  | .tryPerformAction t =>
      if w.terminated ∨ t ∉ w.callers ∨
          (w.state = .ready ∧ w.stateMutexHeld ∧ w.actions.isEmpty = false) then none
      else some { w.tryPerformAction with callers := w.callers.erase t }
  | .asyncNext id ok status response =>
      match w.terminated, w.completion with
      | false, .idle =>
          (w.outstanding.find? (·.id = id)).map fun a =>
            { w with
              outstanding := w.outstanding.eraseP (·.id = id)
              owner := storeFinal a status response w.owner
              completion := .gotEvent a ok }
      | _, _ => none
  | .completion => if w.terminated then none else w.completionStep

def system (Tid Request : Type) [DecidableEq Tid] (response : Response) :
    TransitionSystem (AsyncClientStreamWriter Tid Request Response) (Event Tid Request Response) where
  init w := w = initial Tid Request response
  step := step

end AsyncClientStreamWriter

end EasyGrpc.Client

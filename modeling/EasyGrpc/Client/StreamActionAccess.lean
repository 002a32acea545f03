import EasyGrpc.Client.AsyncClientStreamWriter

/-!
# Who touches a stream action

`perform` gives its action to gRPC before it returns, so the tag may come back while the user thread is
still inside it. The writer is taken together with that thread here: it keeps `_actionsMutex` and
`_stateMutex` from the hand-over to its return, which is a step of its own. The polling thread is never
inside `perform` when it gets a tag.

A step touches the actions whose members it reads or writes, or whose destructor it runs.
-/

namespace EasyGrpc.Client

structure StreamActionAccess (Tid Request Response : Type) where
  writer : AsyncClientStreamWriter Tid Request Response
  /-- The user thread that has not returned from `perform`. -/
  performing : Option (Tid × StreamAction Request) := none

namespace StreamActionAccess

variable {Tid Request Response : Type}

inductive Event (Tid Request Response : Type) where
  | writer (e : AsyncClientStreamWriter.Event Tid Request Response)
  | performReturns

/-- What goes on while a user thread holds both mutexes: gRPC returns a tag, `_onFinished` runs, an
action is deleted. -/
def needsNoMutex (w : AsyncClientStreamWriter Tid Request Response) :
    AsyncClientStreamWriter.Event Tid Request Response → Bool
  | .write _ _ _ => false
  | .finish _ => false
  | .tryPerformAction _ => false
  | .asyncNext _ _ _ _ => true
  | .completion =>
      match w.completion with
      | .stateReady a _ => a.isFinish
      | .finalized _ => true
      | _ => false

def performingAfter (s : StreamActionAccess Tid Request Response) :
    AsyncClientStreamWriter.Event Tid Request Response → Option (Tid × StreamAction Request)
  | .tryPerformAction t =>
      if s.writer.state = .ready then s.writer.actions.head?.map fun a => (t, a) else none
  | _ => s.performing

def step [DecidableEq Tid] (s : StreamActionAccess Tid Request Response) :
    Event Tid Request Response → Option (StreamActionAccess Tid Request Response)
  | .writer e =>
      if s.performing.isSome ∧ needsNoMutex s.writer e = false then none
      else (s.writer.step e).map fun w => { writer := w, performing := s.performingAfter e }
  | .performReturns => s.performing.map fun _ => { s with performing := none }

def system (Tid Request : Type) [DecidableEq Tid] (response : Response) :
    TransitionSystem (StreamActionAccess Tid Request Response) (Event Tid Request Response) where
  init s := s = { writer := .initial Tid Request response }
  step := step

def completionAccesses (w : AsyncClientStreamWriter Tid Request Response) :
    List (StreamAction Request) :=
  match w.completion with
  | .idle => []
  | .gotEvent a _ => [a]
  | .resultSet a _ => [a]
  | .stateReady a ok =>
      match a.kind with
      | .write _ _ => if ok then a :: w.actions else [a, ⟨w.nextId, .finish⟩]
      | .finish => [a]
  | .finishPushed a => a :: w.actions.head?.toList
  | .finalized a => [a]

def accesses (s : StreamActionAccess Tid Request Response) :
    Event Tid Request Response → List (StreamAction Request)
  | .writer (.write _ message options) => [⟨s.writer.nextId, .write message options⟩]
  | .writer (.finish _) => [⟨s.writer.nextId, .finish⟩]
  | .writer (.tryPerformAction _) => s.writer.actions.head?.toList
  | .writer (.asyncNext id _ _ _) => (s.writer.outstanding.find? (·.id = id)).toList
  | .writer .completion => completionAccesses s.writer
  | .performReturns => (s.performing.map (·.2)).toList

end StreamActionAccess

end EasyGrpc.Client

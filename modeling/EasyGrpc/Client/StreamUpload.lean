import EasyGrpc.Client.AwaitingCaller

/-!
# The client's half of a client stream

A user writes a list of messages and then calls `finish`, waiting for each future. At the other end is any
server that gives the status of the call once the client has half-closed the stream.

What is added to the steps of the caller is what gRPC promises. As long as the call is not dead, a Write
succeeds, and the Finish is completed only after the status. A status before the half-close cuts the Writes
off, so it is one of the ways in which a call dies. Nothing calls `WritesDone`, so the client half-closes
the stream with a Write flagged as the last message or not at all.
-/

namespace EasyGrpc.Client

structure StreamUpload (Request Response : Type) where
  caller : AwaitingCaller Request Response
  /-- The messages that the client's user has yet to write. -/
  todo : List (Request × WriteOptions)
  answered : Bool := false
  /-- Cancelled, past its deadline, or cut off from the other side. -/
  dead : Bool := false

namespace StreamUpload

variable {Request Response : Type}

inductive Event (Response : Type) where
  | write
  | finish
  | tryPerformAction
  | asyncNext (id : Nat) (ok : Bool) (status : Status) (response : Option Response)
  | completion
  | answer
  | die

def written (s : StreamUpload Request Response) : List Request :=
  s.caller.writer.handed.filterMap fun a =>
    match a.kind with
    | .write message _ => some message
    | .finish => none

def halfClosed (s : StreamUpload Request Response) : Bool :=
  s.caller.writer.handed.any (·.isLastMessage)

def callerStep (e : AsyncClientStreamWriter.Event Unit Request Response)
    (s : StreamUpload Request Response) : Option (StreamUpload Request Response) :=
  (s.caller.step e).map fun caller => { s with caller := caller }

/-- What gRPC may answer to an operation of the client. -/
def mayReturn (a : StreamAction Request) (ok : Bool) (s : StreamUpload Request Response) : Bool :=
  match a.kind with
  | .write _ _ => ok || s.dead
  | .finish => ok && (s.answered || s.dead)

def step (s : StreamUpload Request Response) :
    Event Response → Option (StreamUpload Request Response)
  | .write =>
      match s.todo with
      | [] => none
      | (message, options) :: rest =>
          (s.callerStep (.write () message options)).map fun t => { t with todo := rest }
  | .finish =>
      if s.todo.isEmpty ∧ ∀ a ∈ s.caller.submitted, a.isWrite then s.callerStep (.finish ())
      else none
  | .tryPerformAction => s.callerStep (.tryPerformAction ())
  | .asyncNext id ok status response =>
      if ∃ a ∈ s.caller.writer.outstanding, a.id = id ∧ s.mayReturn a ok then
        s.callerStep (.asyncNext id ok status response)
      else none
  | .completion => s.callerStep .completion
  | .answer =>
      if (s.halfClosed ∨ s.dead) ∧ ¬ s.answered then some { s with answered := true } else none
  | .die => if s.dead then none else some { s with dead := true }

def initial (response : Response) (messages : List (Request × WriteOptions)) :
    StreamUpload Request Response where
  caller := { writer := .initial Unit Request response }
  todo := messages

def system (response : Response) (messages : List (Request × WriteOptions)) :
    TransitionSystem (StreamUpload Request Response) (Event Response) where
  init s := s = initial response messages
  step := step

end StreamUpload

end EasyGrpc.Client

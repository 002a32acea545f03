import EasyGrpc.Client.AsyncClientStreamWriter

/-!
# A caller that waits for its futures

One user thread uses the writer, and it submits an action only when the futures of all its earlier ones
are ready. The Finish that `finalizeWrite` submits after a failed write is not one of its actions.
-/

namespace EasyGrpc.Client

structure AwaitingCaller (Request Response : Type) where
  writer : AsyncClientStreamWriter Unit Request Response
  submitted : List (StreamAction Request) := []

namespace AwaitingCaller

variable {Request Response : Type}

def submits (s : AwaitingCaller Request Response) :
    AsyncClientStreamWriter.Event Unit Request Response → Option (StreamAction Request)
  | .write _ message options => some ⟨s.writer.nextId, .write message options⟩
  | .finish _ => some ⟨s.writer.nextId, .finish⟩
  | _ => none

def step (s : AwaitingCaller Request Response)
    (e : AsyncClientStreamWriter.Event Unit Request Response) :
    Option (AwaitingCaller Request Response) :=
  if (s.submits e).isSome ∧ ∃ a ∈ s.submitted, ¬ (s.writer.promises a.id).Fulfilled then none
  else (s.writer.step e).map fun w =>
    { writer := w, submitted := s.submitted ++ (s.submits e).toList }

def system (Request : Type) (response : Response) :
    TransitionSystem (AwaitingCaller Request Response)
      (AsyncClientStreamWriter.Event Unit Request Response) where
  init s := s = { writer := .initial Unit Request response }
  step := step

end AwaitingCaller

end EasyGrpc.Client

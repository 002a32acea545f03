import EasyGrpc.Client.StreamUpload
import EasyGrpc.Server.AsyncClientStreamReader

/-!
# A client stream end to end

One writer and one reader, joined by gRPC. The client's user uploads a list of messages; the server's user
awaits `moveNext` until it yields false, and only then answers. Both sides take the steps of their own
models, and gRPC keeps the promises of an upload. It also delivers the messages in order, and as long as the
call is not dead a Read comes to the end of the stream only after the client has half-closed it.

Two things of the server are left out. The reader runs `_onFinished` at the end of the stream, which uses an
action that was deleted; and no function of the handler starts the server's Finish, so the answer is that of
a server whose user gets to give one.
-/

namespace EasyGrpc

open Client Server

structure StreamExchange (Request Response : Type) extends StreamUpload Request Response where
  reader : AsyncClientStreamReader Request
  received : Nat := 0

namespace StreamExchange

variable {Request Response : Type}

inductive Event (Response : Type) where
  | write
  | finish
  | tryPerformAction
  | asyncNext (id : Nat) (ok : Bool) (status : Status) (response : Option Response)
  | completion
  | moveNext
  | read (ok : Bool)
  | answer
  | die

def uploadStep (e : StreamUpload.Event Response) (s : StreamExchange Request Response) :
    Option (StreamExchange Request Response) :=
  (s.toStreamUpload.step e).map fun upload => { s with toStreamUpload := upload }

def step (s : StreamExchange Request Response) :
    Event Response → Option (StreamExchange Request Response)
  | .write => s.uploadStep .write
  | .finish => s.uploadStep .finish
  | .tryPerformAction => s.uploadStep .tryPerformAction
  | .asyncNext id ok status response => s.uploadStep (.asyncNext id ok status response)
  | .completion => s.uploadStep .completion
  | .moveNext => if s.reader.awaited then some { s with reader := s.reader.moveNext } else none
  | .read true =>
      if s.reader.moved = some .pending then
        s.written[s.received]?.map fun message =>
          { s with
            reader := s.reader.finalizeRead true message
            received := s.received + 1 }
      else none
  | .read false =>
      if s.reader.moved = some .pending ∧ (s.halfClosed ∨ s.dead) then
        some { s with reader := s.reader.finalizeRead false s.reader.current }
      else none
  | .answer =>
      if s.reader.moved = some (.value false) ∧ ¬ s.answered then some { s with answered := true }
      else none
  | .die => s.uploadStep .die

def initial (request : Request) (response : Response) (messages : List (Request × WriteOptions)) :
    StreamExchange Request Response where
  toStreamUpload := .initial response messages
  reader := { onFinished := 0, current := request }

def system (request : Request) (response : Response) (messages : List (Request × WriteOptions)) :
    TransitionSystem (StreamExchange Request Response) (Event Response) where
  init s := s = initial request response messages
  step := step

end StreamExchange

end EasyGrpc

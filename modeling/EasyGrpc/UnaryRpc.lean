import EasyGrpc.Client.AsyncClient
import EasyGrpc.Server.AsyncUnaryCallHandler

/-!
# Unary calls end to end

Any number of clients and any number of handlers of one method, joined by gRPC. Both sides take the
steps of their own models. What is added is what gRPC promises: it matches an RPC to at most one
request tag, fills the call of that tag with the request of that RPC, and reports `OK` to the client
only with the response of an `OK` Finish of the matched call.
-/

namespace EasyGrpc

open Client Server

namespace UnaryRpc

structure Rpc (ι : Type) where
  client : ι
  call : Nat
  deriving DecidableEq, Repr

/-- An RPC, the handler that accepted it, and what gRPC stored in the handler's call. -/
structure Match (ι κ Context Request : Type) where
  rpc : Rpc ι
  handler : κ
  call : Nat
  context : Context
  request : Request

def Match.accepted {ι κ Context Request : Type} (m : Match ι κ Context Request) :
    AsyncUnaryCallHandler.Accepted Context Request :=
  ⟨m.call, m.context, m.request⟩

end UnaryRpc

open UnaryRpc

structure UnaryRpc (ι κ Tid Context Request Response ε : Type) where
  clients : ι → AsyncClient Tid Request Response
  handlers : κ → AsyncUnaryCallHandler Context Request Response ε
  matched : List (Match ι κ Context Request) := []

namespace UnaryRpc

variable {ι κ Tid Context Request Response ε : Type}

inductive Event (ι κ Tid Context Request Response ε : Type) where
  /-- Whatever a client does other than getting an `OK` answer. -/
  | client (i : ι) (e : AsyncClient.Event Tid Request Response)
  /-- gRPC returns the Finish of a call to its client, with the answer of the handler. -/
  | answer (rpc : Rpc ι) (ok : Bool)
  /-- Whatever a handler does other than accepting an RPC. -/
  | handler (k : κ) (e : AsyncUnaryCallHandler.Event Context Request Response ε)
  /-- gRPC matches an RPC to a request tag of a handler. -/
  | accept (rpc : Rpc ι) (k : κ) (id : Nat) (context : Context)
      (inline : Option (Except ε Response))

def isOkAnswer : AsyncClient.Event Tid Request Response → Bool
  | .asyncNext (.unaryFinish _) _ status _ => status.ok
  | _ => false

def requestTag (h : AsyncUnaryCallHandler Context Request Response ε) (id : Nat) :
    Option AsyncUnaryCallHandler.CallHandlerAction :=
  (h.actions.find? fun a => a.id = id ∧ a.isTag).filter (·.isServiceRequest)

def isAccept (h : AsyncUnaryCallHandler Context Request Response ε) :
    AsyncUnaryCallHandler.Event Context Request Response ε → Bool
  | .asyncNext id true _ _ _ => (requestTag h id).isSome
  | _ => false

section Step

variable [DecidableEq ι] [DecidableEq κ] [DecidableEq Tid]
  [Inhabited Context] [Inhabited Request] [Inhabited Response]

def clientStep (i : ι) (e : AsyncClient.Event Tid Request Response)
    (s : UnaryRpc ι κ Tid Context Request Response ε) :
    Option (UnaryRpc ι κ Tid Context Request Response ε) :=
  ((s.clients i).step e).map fun c => { s with clients := Function.update s.clients i c }

def handlerStep (k : κ) (e : AsyncUnaryCallHandler.Event Context Request Response ε)
    (s : UnaryRpc ι κ Tid Context Request Response ε) :
    Option (UnaryRpc ι κ Tid Context Request Response ε) :=
  ((s.handlers k).step e).map fun h => { s with handlers := Function.update s.handlers k h }

def step (s : UnaryRpc ι κ Tid Context Request Response ε) :
    Event ι κ Tid Context Request Response ε →
      Option (UnaryRpc ι κ Tid Context Request Response ε)
  | .client i e => if isOkAnswer e then none else s.clientStep i e
  | .answer rpc ok =>
      (s.matched.find? (·.rpc = rpc)).bind fun m =>
        ((s.handlers m.handler).finishes.find? fun f => f.call = m.call ∧ f.status.ok).bind fun f =>
          s.clientStep rpc.client
            (.asyncNext (.unaryFinish rpc.call) ok f.status (some f.response))
  | .handler k e => if isAccept (s.handlers k) e then none else s.handlerStep k e
  | .accept rpc k id context inline =>
      if rpc ∈ s.matched.map (·.rpc) then none
      else
        ((s.clients rpc.client).requests.find? (·.1 = rpc.call)).bind fun p =>
          (requestTag (s.handlers k) id).bind fun a =>
            (s.handlerStep k (.asyncNext id true context p.2 inline)).map fun t =>
              { t with matched := s.matched ++ [⟨rpc, k, a.call, context, p.2⟩] }

def initial (ι κ Tid Context Request Response ε : Type)
    [Inhabited Context] [Inhabited Request] [Inhabited Response] :
    UnaryRpc ι κ Tid Context Request Response ε where
  clients _ := {}
  handlers _ := AsyncUnaryCallHandler.initial Context Request Response ε

def system (ι κ Tid Context Request Response ε : Type) [DecidableEq ι] [DecidableEq κ]
    [DecidableEq Tid] [Inhabited Context] [Inhabited Request] [Inhabited Response] :
    TransitionSystem (UnaryRpc ι κ Tid Context Request Response ε)
      (Event ι κ Tid Context Request Response ε) where
  init s := s = initial ι κ Tid Context Request Response ε
  step := step

end Step

end UnaryRpc

end EasyGrpc

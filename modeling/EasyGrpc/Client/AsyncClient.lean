import EasyGrpc.Client.AsyncClientStreamWriter
import Mathlib.Data.Finset.Basic

/-!
# The client

User threads run `call`: the constructor of the call object starts its operation, `make_shared`
installs the first owner, `addStreamingCall` inserts it, and the owner is returned. Meanwhile the
polling thread of the client may already get the tag of that operation.

Every call has one frame of `call`, so frames are kept by call. A stream call comes with its writer,
whose steps are those of its own model; the polling thread is in at most one completion at a time.
-/

namespace EasyGrpc.Client

namespace AsyncClient

/-- How far the frame of `call` has come. Only stream calls create a writer. -/
inductive FrameStage where
  | started
  | writerCreated
  | shared
  | added
  deriving DecidableEq, Repr

/-- Where the polling thread stands in `AsyncUnaryCall::finalizeFinished`: before the `try` block,
before `responseCallback`, before `shared_from_this`, before the dead callback with the owner it was
given, and before letting go of that owner. -/
inductive FinalizeStage where
  | responding
  | callingBack
  | sharing
  | burying
  | releasing
  deriving DecidableEq, Repr

inductive Poller where
  | idle
  | unary (c : Nat) (stage : FinalizeStage)
  | callStart (c : Nat)
  | writer (c : Nat)
  deriving DecidableEq, Repr

inductive Tag where
  | unaryFinish (c : Nat)
  | callStart (c : Nat)
  | streamAction (c id : Nat)
  deriving DecidableEq, Repr

inductive CallbackRun where
  | dispatched
  | returned
  | threw
  deriving DecidableEq, Repr

structure Delivered (Response : Type) where
  call : Nat
  status : Status
  response : Option Response
  deriving DecidableEq, Repr

end AsyncClient

open AsyncClient

structure AsyncClient (Tid Request Response : Type) where
  unaryCalls : Nat → Option (AsyncUnaryCall Response) := fun _ => none
  /-- A stream call is the owner of its writer, which takes part once it is created. -/
  streamCalls : Nat → Option (AsyncClientStreamWriter Tid Request Response) := fun _ => none
  nextCall : Nat := 0
  frames : Nat → Option FrameStage := fun _ => none
  streamingCalls : Finset Nat := ∅
  /-- Calls whose returned pointer the user still holds. -/
  userRefs : List Nat := []
  /-- The tags gRPC holds, those of the writers apart. -/
  tags : List Tag := []
  poller : Poller := .idle
  callbackTasks : List Nat := []
  requests : List (Nat × Request) := []
  delivered : List (Delivered Response) := []
  callbackRuns : List Nat := []
  dead : List Nat := []
  terminated : Bool := false

namespace AsyncClient

variable {Tid Request Response : Type}

section Calls

variable [Inhabited Response]

def newUnaryCall (request : Request) (hasCallback : Bool) (s : AsyncClient Tid Request Response) :
    AsyncClient Tid Request Response :=
  { s with
    unaryCalls := Function.update s.unaryCalls s.nextCall
      (some { response := default, hasResponseCallback := hasCallback })
    nextCall := s.nextCall + 1
    frames := Function.update s.frames s.nextCall (some .started)
    tags := s.tags ++ [.unaryFinish s.nextCall]
    requests := s.requests ++ [(s.nextCall, request)] }

/-- The constructor of `AsyncClientStreamCall` up to the end of `perform`. -/
def newStreamCall (s : AsyncClient Tid Request Response) : AsyncClient Tid Request Response :=
  { s with
    streamCalls := Function.update s.streamCalls s.nextCall (some { owner := { response := default } })
    nextCall := s.nextCall + 1
    frames := Function.update s.frames s.nextCall (some .started)
    tags := s.tags ++ [.callStart s.nextCall] }

end Calls

def addStreamingCall (c : Nat) (s : AsyncClient Tid Request Response) :
    AsyncClient Tid Request Response :=
  { s with streamingCalls := insert c s.streamingCalls }

def removeStreamingCall (c : Nat) (s : AsyncClient Tid Request Response) :
    AsyncClient Tid Request Response :=
  { s with streamingCalls := s.streamingCalls.erase c }

def createWriter (c : Nat) (s : AsyncClient Tid Request Response) :
    AsyncClient Tid Request Response :=
  { s with
    streamCalls := Function.update s.streamCalls c ((s.streamCalls c).map fun w =>
      { w with owner := { w.owner with streamWriter := .created } })
    frames := Function.update s.frames c (some .writerCreated) }

/-- `make_shared` installs the owner, and with it `weak_this`. -/
def installOwner (c : Nat) (s : AsyncClient Tid Request Response) :
    AsyncClient Tid Request Response :=
  { s with
    unaryCalls := Function.update s.unaryCalls c ((s.unaryCalls c).map fun call =>
      { call with weakThis := true })
    streamCalls := Function.update s.streamCalls c ((s.streamCalls c).map fun w =>
      { w with owner := { w.owner with weakThis := true } })
    frames := Function.update s.frames c (some .shared) }

def frameStep (c : Nat) (s : AsyncClient Tid Request Response) :
    Option (AsyncClient Tid Request Response) :=
  match s.frames c with
  | none => none
  | some .started =>
      if (s.unaryCalls c).isSome then some (s.installOwner c) else some (s.createWriter c)
  | some .writerCreated => some (s.installOwner c)
  | some .shared =>
      some { s.addStreamingCall c with frames := Function.update s.frames c (some .added) }
  | some .added =>
      some { s with
        frames := Function.update s.frames c none
        userRefs := s.userRefs ++ [c] }

def Owned (s : AsyncClient Tid Request Response) (c : Nat) : Prop :=
  c ∈ s.streamingCalls ∨ s.frames c = some .shared ∨ s.frames c = some .added ∨ c ∈ s.userRefs ∨
    s.poller = .unary c .burying ∨ s.poller = .unary c .releasing

instance (s : AsyncClient Tid Request Response) (c : Nat) : Decidable (s.Owned c) :=
  inferInstanceAs (Decidable (_ ∨ _))

def onCallDead (c : Nat) (s : AsyncClient Tid Request Response) :
    AsyncClient Tid Request Response :=
  { s.removeStreamingCall c with dead := s.dead ++ [c] }

def responseCallback (c : Nat) (call : AsyncUnaryCall Response) (run : CallbackRun)
    (s : AsyncClient Tid Request Response) : AsyncClient Tid Request Response :=
  if call.hasResponseCallback then
    { s with
      unaryCalls := Function.update s.unaryCalls c (some call.takeResponseCallback)
      callbackTasks := if run = .dispatched then s.callbackTasks ++ [c] else s.callbackTasks
      callbackRuns := if run = .dispatched then s.callbackRuns else s.callbackRuns ++ [c]
      terminated := run = .threw }
  else s

def finalizeFinished (c : Nat) (call : AsyncUnaryCall Response) (run : CallbackRun)
    (s : AsyncClient Tid Request Response) : FinalizeStage → AsyncClient Tid Request Response
  | .responding =>
      match call.setResponse with
      | some call' =>
          { s with
            unaryCalls := Function.update s.unaryCalls c (some call')
            poller := .unary c .callingBack }
      | none => { s with terminated := true }
  | .callingBack => { s.responseCallback c call run with poller := .unary c .sharing }
  | .sharing =>
      if call.weakThis ∧ s.Owned c then { s with poller := .unary c .burying }
      else { s with terminated := true }  -- bad_weak_ptr
  | .burying => { s.onCallDead c with poller := .unary c .releasing }
  | .releasing => { s with poller := .idle }

def finalizeCallStart (c : Nat) (w : AsyncClientStreamWriter Tid Request Response)
    (s : AsyncClient Tid Request Response) : AsyncClient Tid Request Response :=
  match w.owner.markStreamWriterReady with
  | some owner =>
      { s with
        streamCalls := Function.update s.streamCalls c (some { w with owner := owner })
        poller := .idle }
  | none => { s with terminated := true }

inductive Event (Tid Request Response : Type) where
  | callUnary (request : Request) (hasCallback : Bool)
  | callClientStream
  | frame (c : Nat)
  | dropRef (c : Nat)
  /-- `AsyncNext` returns a tag. With a Finish gRPC has stored the status and, when there is one, the
  response. -/
  | asyncNext (tag : Tag) (ok : Bool) (status : Status) (response : Option Response)
  /-- The polling thread goes on; an executor may run the response callback inline. -/
  | poll (run : CallbackRun)
  | runCallback (c : Nat)
  | writer (c : Nat) (e : AsyncClientStreamWriter.Event Tid Request Response)

/-- What user threads do with a writer, which they know from the future of its call. -/
def mayUse (w : AsyncClientStreamWriter Tid Request Response) :
    AsyncClientStreamWriter.Event Tid Request Response → Bool
  | .write _ _ _ => w.owner.streamWriterPromise = .value .created
  | .finish _ => w.owner.streamWriterPromise = .value .created
  | .tryPerformAction _ => true
  | .asyncNext _ _ _ _ => false
  | .completion => false

def asyncNext [DecidableEq Tid] (tag : Tag) (ok : Bool) (status : Status)
    (response : Option Response) (s : AsyncClient Tid Request Response) :
    Option (AsyncClient Tid Request Response) :=
  match tag with
  | .unaryFinish c =>
      if .unaryFinish c ∈ s.tags then
        (s.unaryCalls c).map fun call =>
          { s with
            tags := s.tags.erase (.unaryFinish c)
            unaryCalls := Function.update s.unaryCalls c
              (some { call with status := status, response := response.getD call.response })
            delivered := s.delivered ++ [⟨c, status, response⟩]
            poller := .unary c .responding }
      else none
  | .callStart c =>
      if .callStart c ∈ s.tags then
        some { s with tags := s.tags.erase (.callStart c), poller := .callStart c }
      else none
  | .streamAction c id =>
      (s.streamCalls c).bind fun w =>
        (w.step (.asyncNext id ok status response)).map fun w' =>
          { s with
            streamCalls := Function.update s.streamCalls c (some w')
            poller := .writer c }

def pollerStep [DecidableEq Tid] (run : CallbackRun) (s : AsyncClient Tid Request Response) :
    Option (AsyncClient Tid Request Response) :=
  match s.poller with
  | .idle => none
  | .unary c stage => (s.unaryCalls c).map fun call => s.finalizeFinished c call run stage
  | .callStart c => (s.streamCalls c).map fun w => s.finalizeCallStart c w
  | .writer c =>
      (s.streamCalls c).bind fun w =>
        (w.step .completion).map fun w' =>
          { s with
            streamCalls := Function.update s.streamCalls c (some w')
            poller := match w'.completion with
              | .idle => .idle
              | _ => .writer c
            terminated := w'.terminated }

def step [DecidableEq Tid] [Inhabited Response] (s : AsyncClient Tid Request Response)
    (e : Event Tid Request Response) : Option (AsyncClient Tid Request Response) :=
  if s.terminated then none
  else
    match e with
    | .callUnary request hasCallback => some (s.newUnaryCall request hasCallback)
    | .callClientStream => some s.newStreamCall
    | .frame c => s.frameStep c
    | .dropRef c => if c ∈ s.userRefs then some { s with userRefs := s.userRefs.erase c } else none
    | .asyncNext tag ok status response =>
        if s.poller = .idle then s.asyncNext tag ok status response else none
    | .poll run => s.pollerStep run
    | .runCallback c =>
        if c ∈ s.callbackTasks then
          some { s with
            callbackTasks := s.callbackTasks.erase c
            callbackRuns := s.callbackRuns ++ [c] }
        else none
    | .writer c e =>
        (s.streamCalls c).bind fun w =>
          if mayUse w e then
            (w.step e).map fun w' =>
              { s with streamCalls := Function.update s.streamCalls c (some w') }
          else none

def system (Tid Request Response : Type) [DecidableEq Tid] [Inhabited Response] :
    TransitionSystem (AsyncClient Tid Request Response) (Event Tid Request Response) where
  init s := s = {}
  step := step

end AsyncClient

end EasyGrpc.Client

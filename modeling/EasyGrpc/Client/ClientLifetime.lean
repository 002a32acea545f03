import EasyGrpc.Client.AsyncClient
import Mathlib.Data.Finset.Range

/-!
# The client and its destructor

A call object is destroyed with the last `shared_ptr` to it, or it is still under construction in its
frame of `call`. The destructor of the client shuts the completion queue down, joins the polling
thread, which first gets every tag gRPC holds, and destroys the members.

The destructor starts after the last use: no user thread is inside `call` or inside a writer then, and
none enters one any more. Users still let go of calls, and executors still run callbacks. gRPC aborts the
process when an operation is started on a queue that was shut down, and the run ends there.
-/

namespace EasyGrpc.Client

namespace AsyncClient

variable {Tid Request Response : Type}

def Held (s : AsyncClient Tid Request Response) (c : Nat) : Prop :=
  s.Owned c ∨ s.frames c = some .started ∨ s.frames c = some .writerCreated

instance (s : AsyncClient Tid Request Response) (c : Nat) : Decidable (s.Held c) :=
  inferInstanceAs (Decidable (_ ∨ _))

def lastReleases (s s' : AsyncClient Tid Request Response) : Finset Nat :=
  (Finset.range s'.nextCall).filter fun c => s.Held c ∧ ¬ s'.Held c

def unused (s : AsyncClient Tid Request Response) : Bool :=
  decide (∀ c < s.nextCall, s.frames c = none ∧
    (s.streamCalls c).all (fun w => w.callers.isEmpty) = true)

def drained (s : AsyncClient Tid Request Response) : Bool :=
  decide (s.poller = .idle ∧ s.tags = [] ∧
    ∀ c < s.nextCall, (s.streamCalls c).all (fun w => w.outstanding.isEmpty) = true)

/-- From `s` to `s'` gRPC is given an operation: a call starts, or a writer hands an action over. -/
def startsOperation (s s' : AsyncClient Tid Request Response) : Bool :=
  s'.tags.any (fun tag => !s.tags.contains tag) ||
    (List.range s'.nextCall).any fun c =>
      (s.streamCalls c).map (·.handed.length) != (s'.streamCalls c).map (·.handed.length)

end AsyncClient

namespace ClientLifetime

inductive Stage where
  | alive
  | shutdown
  | joined
  | membersDestroyed
  deriving DecidableEq, Repr

end ClientLifetime

open ClientLifetime

structure ClientLifetime (Tid Request Response : Type) where
  client : AsyncClient Tid Request Response := {}
  stage : Stage := .alive
  /-- The calls that were destroyed, with their writers. -/
  destroyed : Finset Nat := ∅
  aborted : Bool := false

namespace ClientLifetime

variable {Tid Request Response : Type}

/-- Every owner that lets go of its call last destroys it. -/
def setClient (client : AsyncClient Tid Request Response)
    (s : ClientLifetime Tid Request Response) : ClientLifetime Tid Request Response :=
  { s with
    client := client
    destroyed := s.destroyed ∪ s.client.lastReleases client }

def advance (client : AsyncClient Tid Request Response)
    (s : ClientLifetime Tid Request Response) : ClientLifetime Tid Request Response :=
  { s.setClient client with
    aborted := s.stage ≠ .alive ∧ s.client.startsOperation client }

def mayGoOn (s : ClientLifetime Tid Request Response) :
    AsyncClient.Event Tid Request Response → Bool
  | .asyncNext _ _ _ _ => s.stage = .alive ∨ s.stage = .shutdown
  | .poll _ => s.stage = .alive ∨ s.stage = .shutdown
  | .dropRef _ => true
  | .runCallback _ => true
  | _ => s.stage = .alive

inductive Event (Tid Request Response : Type) where
  | client (e : AsyncClient.Event Tid Request Response)
  | shutdown
  | join
  | destroyMembers

variable [DecidableEq Tid] [Inhabited Response]

def step (s : ClientLifetime Tid Request Response) (e : Event Tid Request Response) :
    Option (ClientLifetime Tid Request Response) :=
  if s.aborted then none
  else
    match e with
    | .client e =>
        if s.mayGoOn e then (s.client.step e).map fun client => s.advance client else none
    | .shutdown =>
        if s.stage = .alive ∧ s.client.unused ∧ s.client.terminated = false then
          some { s with stage := .shutdown }
        else none
    | .join =>
        if s.stage = .shutdown ∧ s.client.drained ∧ s.client.terminated = false then
          some { s with stage := .joined }
        else none
    | .destroyMembers =>
        if s.stage = .joined then
          some { s.setClient { s.client with streamingCalls := ∅ } with stage := .membersDestroyed }
        else none

def system (Tid Request Response : Type) [DecidableEq Tid] [Inhabited Response] :
    TransitionSystem (ClientLifetime Tid Request Response) (Event Tid Request Response) where
  init s := s = {}
  step := step

end ClientLifetime

end EasyGrpc.Client

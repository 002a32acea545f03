import EasyGrpc.Grpc
import EasyGrpc.TransitionSystem

/-!
# The action queue

A `grpc::CompletionQueue` whose tags are actions. `asyncNext` polls it once, finalises and deletes
the action it gets and stores the status. The destructor spins on the stored status, which nobody
initialises: with no other thread polling it reads the same value for ever.

gRPC takes no operation after `Shutdown`, and answers `SHUTDOWN` when the queue is shut down and
every event was delivered.
-/

namespace EasyGrpc

structure CompletionQueue where
  shutdownCalled : Bool := false
  pending : List Nat := []
  deriving DecidableEq, Repr

namespace CompletionQueue

def Drained (cq : CompletionQueue) : Prop := cq.shutdownCalled = true ∧ cq.pending = []

instance : DecidablePred Drained := fun _ => instDecidableAnd

def noEvent (cq : CompletionQueue) : NextStatus :=
  if cq.Drained then .shutdown else .timeout

end CompletionQueue

/-- `nextStatus` is `none` as long as nothing was stored. -/
structure AsyncActionQueue where
  completionQueue : CompletionQueue := {}
  nextStatus : Option NextStatus := none
  nextAction : Nat := 0
  finalized : List (Nat × Bool) := []
  deleted : List Nat := []
  /-- Actions whose finaliser threw: the exception leaves `asyncNext` before `delete`. -/
  thrown : List Nat := []
  deriving DecidableEq, Repr

namespace AsyncActionQueue

/-- An event of the queue, with what the finaliser of its action does: it may start operations on
the same queue, and it may throw. -/
structure Completion where
  tag : Nat
  ok : Bool
  starts : Nat := 0
  throws : Bool := false
  deriving DecidableEq, Repr

inductive Event where
  | start
  | asyncNext (event : Option Completion)
  | shutdown
  deriving DecidableEq, Repr

def startActions : Nat → AsyncActionQueue → AsyncActionQueue
  | 0, q => q
  | n + 1, q =>
      startActions n
        { q with
          nextAction := q.nextAction + 1
          completionQueue :=
            { q.completionQueue with pending := q.completionQueue.pending ++ [q.nextAction] } }

/-- `finalizeResult` of the queue, the action's own one included, and the store of the status. -/
def finalizeResult (c : Completion) (q : AsyncActionQueue) : AsyncActionQueue :=
  let q := startActions c.starts { q with finalized := q.finalized ++ [(c.tag, c.ok)] }
  if c.throws then { q with thrown := q.thrown ++ [c.tag] }
  else { q with deleted := q.deleted ++ [c.tag], nextStatus := some .gotEvent }

def asyncNext (event : Option Completion) (q : AsyncActionQueue) : Option AsyncActionQueue :=
  match event with
  | none => some { q with nextStatus := some q.completionQueue.noEvent }
  | some c =>
      if c.tag ∉ q.completionQueue.pending ∨ (q.completionQueue.shutdownCalled ∧ c.starts ≠ 0) then
        none
      else
        let cq := { q.completionQueue with pending := q.completionQueue.pending.erase c.tag }
        some (finalizeResult c { q with completionQueue := cq })

def step (q : AsyncActionQueue) : Event → Option AsyncActionQueue
  | .start => if q.completionQueue.shutdownCalled then none else some (startActions 1 q)
  | .asyncNext event => q.asyncNext event
  | .shutdown =>
      some { q with completionQueue := { q.completionQueue with shutdownCalled := true } }

def system : TransitionSystem AsyncActionQueue Event where
  init q := q = {}
  step := step

/-- The load of `_nextStatus`; `garbage` is what the memory holds when nothing was stored. -/
def loadNextStatus (garbage : NextStatus) (q : AsyncActionQueue) : NextStatus :=
  q.nextStatus.getD garbage

/-- The loop of the destructor, cut off after `fuel` rounds. -/
def waitForShutdown (garbage : NextStatus) (q : AsyncActionQueue) : Nat → Option Unit
  | 0 => none
  | fuel + 1 =>
      if q.loadNextStatus garbage = .shutdown then some () else waitForShutdown garbage q fuel

end AsyncActionQueue

end EasyGrpc

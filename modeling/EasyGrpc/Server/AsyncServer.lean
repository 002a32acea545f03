import EasyGrpc.AsyncActionQueue

/-!
# The server's lifecycle

The constructor builds the gRPC server and its queues, `start` makes one polling thread for each
queue, `stop` shuts everything down, joins the threads and lets go of server and queues. The
destructor calls `stop` and then destroys the members.

`start` and `stop` come from one user thread. In between, handlers start operations on the queues and
the polling threads finalise them; an exception of a finaliser would end the process.
-/

namespace EasyGrpc.Server

open AsyncActionQueue (Completion)

inductive StdException where
  | invalidArgument (what : String)
  | logicError (what : String)
  | systemError
  deriving DecidableEq, Repr

inductive Fault where
  | nullDereference
  | joinableThreadDestroyed
  deriving DecidableEq, Repr

/-- A `start` that returned, or a `stop` that found the server started. -/
inductive Transition where
  | start
  | stop
  deriving DecidableEq, Repr

/-- `hasServer` says that `_server` is not null. A thread is given by the queue it polls. -/
structure AsyncServer where
  started : Bool := false
  hasServer : Bool := true
  asyncActionQueues : List AsyncActionQueue
  asyncActionThreads : List Nat := []
  unjoined : Nat := 0
  /-- The queues destroyed so far, as their destructors found them. -/
  released : List AsyncActionQueue := []
  lastEffective : Option Transition := none
  fault : Option Fault := none
  destroyed : Bool := false
  deriving DecidableEq, Repr

namespace AsyncServer

/-- The constructor; `built` is the outcome of `BuildAndStart`. -/
def new (listeningUris : List String) (numCompletionQueues hardwareConcurrency : Nat)
    (built : Bool) : Except StdException AsyncServer :=
  if listeningUris = [] then
    .error (.invalidArgument "At least one listening uri is required.")
  else
    let n := if numCompletionQueues = 0 then hardwareConcurrency else numCompletionQueues
    if built then .ok { asyncActionQueues := List.replicate n {} }
    else .error (.logicError "Build rpc server failed.")

/-- The system lets `start` make at most `available` threads; the next one throws. -/
def start (available : Nat) (s : AsyncServer) : AsyncServer × Option StdException :=
  if s.started then (s, some (.logicError "The server already started."))
  else
    let created := min available s.asyncActionQueues.length
    let s' := { s with
      asyncActionThreads := s.asyncActionThreads ++ List.range created
      unjoined := s.unjoined + created }
    if created < s.asyncActionQueues.length then (s', some .systemError)
    else ({ s' with started := true, lastEffective := some .start }, none)

/-- The queue is shut down and its polling thread goes on up to `SHUTDOWN`. -/
def pollToShutdown (completions : List Completion) (q : AsyncActionQueue) :
    Option AsyncActionQueue :=
  if completions.any (·.throws) then none
  else
    (AsyncActionQueue.system.run q
        (.shutdown :: (completions.map fun c => .asyncNext (some c)) ++ [.asyncNext none])).filter
      fun q => q.nextStatus = some .shutdown

def joinAll : List (List Completion) → List AsyncActionQueue → Option (List AsyncActionQueue)
  | _, [] => some []
  | completions, q :: queues =>
      (pollToShutdown (completions.headD []) q).bind fun q' =>
        (joinAll completions.tail queues).map fun queues' => q' :: queues'

def stop (completions : List (List Completion)) (s : AsyncServer) : Option AsyncServer :=
  if s.started = false then some s
  else if s.hasServer = false then some { s with fault := some .nullDereference }
  else
    (joinAll completions s.asyncActionQueues).map fun queues =>
      { s with
        asyncActionThreads := []
        unjoined := s.unjoined - s.asyncActionThreads.length
        hasServer := false
        asyncActionQueues := []
        released := s.released ++ queues
        lastEffective := some .stop }

/-- The destruction of the members. A thread that was not joined ends the process. -/
def destroyMembers (s : AsyncServer) : AsyncServer :=
  if s.fault.isSome then s
  else if s.asyncActionThreads ≠ [] then { s with fault := some .joinableThreadDestroyed }
  else
    { s with
      hasServer := false
      asyncActionQueues := []
      released := s.released ++ s.asyncActionQueues
      destroyed := true }

inductive Event where
  | start (available : Nat)
  | stop (completions : List (List Completion))
  | destroy (completions : List (List Completion))
  /-- A handler starts an operation on a queue, or its thread polls it. -/
  | queue (i : Nat) (e : AsyncActionQueue.Event)
  deriving DecidableEq, Repr

/-- Only `stop` shuts a queue down, and only its thread polls it. -/
def mayDo (s : AsyncServer) (i : Nat) : AsyncActionQueue.Event → Bool
  | .start => true
  | .asyncNext none => i ∈ s.asyncActionThreads
  | .asyncNext (some c) => i ∈ s.asyncActionThreads ∧ c.throws = false
  | .shutdown => false

def step (s : AsyncServer) (e : Event) : Option AsyncServer :=
  if s.fault.isSome ∨ s.destroyed then none
  else
    match e with
    | .start available => some (s.start available).1
    | .stop completions => s.stop completions
    | .destroy completions => (s.stop completions).map destroyMembers
    | .queue i e =>
        if s.mayDo i e then
          s.asyncActionQueues[i]?.bind fun q =>
            (q.step e).map fun q' => { s with asyncActionQueues := s.asyncActionQueues.set i q' }
        else none

def system : TransitionSystem AsyncServer Event where
  init s := ∃ uris n concurrency built, new uris n concurrency built = .ok s
  step := step

end AsyncServer

end EasyGrpc.Server

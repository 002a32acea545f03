import EasyGrpc.Client.AsyncClientStreamWriter

/-!
# The sections of `_actionsMutex`

The writer's own system takes a critical section of `_actionsMutex` as one step. Here the mutex is a lock,
and a section is a sequence of steps of its holder: the test for an empty queue, `popAction`, the `switch`
on `_state` and `perform` are apart, and so are the rounds of the drain loop of `finalizeWrite`. Between
them the other threads do what needs no `_actionsMutex`. The last access of a section releases the lock.
-/

namespace EasyGrpc.Client

inductive MutexHolder (Tid : Type) where
  | user (t : Tid)
  | polling
  deriving DecidableEq, Repr

/-- Where the holder stands: in `newAction`; before the test for an empty queue in `tryPerformAction`;
after its `popAction`; past its `switch`, with `_state` read as `Ready`; at the head of the loop of
`finalizeWrite`; in its body after `popAction`. -/
inductive SectionPc (Request : Type) where
  | pushing (kind : StreamActionKind Request)
  | trying
  | popped (action : StreamAction Request)
  | performing (action : StreamAction Request)
  | draining (lastMessageWritten finishPerformed : Bool)
  | drainPopped (nextAction : StreamAction Request) (lastMessageWritten finishPerformed : Bool)
  deriving DecidableEq, Repr

structure ActionsMutex (Tid Request Response : Type) where
  writer : AsyncClientStreamWriter Tid Request Response
  holder : Option (MutexHolder Tid × SectionPc Request) := none

namespace ActionsMutex

variable {Tid Request Response : Type}

open AsyncClientStreamWriter (setException perform)

inductive Event (Tid Request Response : Type) where
  /-- A thread that holds no lock asks for one, or moves outside the sections. -/
  | outside (e : AsyncClientStreamWriter.Event Tid Request Response)
  | holder

def entersSection (w : AsyncClientStreamWriter Tid Request Response) :
    AsyncClientStreamWriter.Event Tid Request Response →
      Option (MutexHolder Tid × SectionPc Request)
  | .write t message options => some (.user t, .pushing (.write message options))
  | .finish t => some (.user t, .pushing .finish)
  | .tryPerformAction t => some (.user t, .trying)
  | .asyncNext _ _ _ _ => none
  | .completion =>
      match w.completion with
      | .stateReady a ok =>
          match a.kind with
          | .write _ _ =>
              some (.polling, if ok then .draining a.isLastMessage false else .pushing .finish)
          | .finish => none
      | .finishPushed _ => some (.polling, .trying)
      | _ => none

section Step

variable [DecidableEq Tid]

def mayEnter (w : AsyncClientStreamWriter Tid Request Response) :
    AsyncClientStreamWriter.Event Tid Request Response → Bool
  | .write t _ _ => t ∉ w.callers
  | .finish t => t ∉ w.callers
  | .tryPerformAction t => t ∈ w.callers
  | .asyncNext _ _ _ _ => true
  | .completion => true

def afterPush (who : MutexHolder Tid) (w : AsyncClientStreamWriter Tid Request Response) :
    AsyncClientStreamWriter Tid Request Response :=
  match who with
  | .user t => { w with callers := t :: w.callers }
  | .polling =>
      match w.completion with
      | .stateReady a _ => { w with completion := .finishPushed a }
      | _ => w

def afterSection (who : MutexHolder Tid) (w : AsyncClientStreamWriter Tid Request Response) :
    AsyncClientStreamWriter Tid Request Response :=
  match who with
  | .user t => { w with callers := w.callers.erase t }
  | .polling =>
      match w.completion with
      | .stateReady a _ => { w with completion := .finalized a }
      | .finishPushed a => { w with completion := .finalized a }
      | _ => w

def holderStep (who : MutexHolder Tid) (w : AsyncClientStreamWriter Tid Request Response) :
    SectionPc Request → Option (ActionsMutex Tid Request Response)
  | .pushing kind => some { writer := afterPush who (w.newAction kind) }
  | .trying =>
      match w.actions with
      | [] => some { writer := afterSection who w }
      | a :: rest => some { writer := w.popAction a rest, holder := some (who, .popped a) }
  | .popped a =>
      match w.state with
      | .ready => some { writer := w, holder := some (who, .performing a) }
      | .finished =>
          let w := w.setException a "The stream is finished, no more action is allowed."
          some { writer := afterSection who w }
      | .processing => some { writer := afterSection who w }
  | .performing a =>
      if w.stateMutexHeld then none else some { writer := afterSection who (w.perform a) }
  | .draining last fin =>
      match w.actions with
      | [] => some { writer := afterSection who w }
      | a :: rest =>
          some { writer := w.popAction a rest, holder := some (who, .drainPopped a last fin) }
  -- the polling thread is in `finalizeWrite`, so nobody has `_stateMutex`
  | .drainPopped a last fin =>
      match a.kind with
      | .write _ _ =>
          if last then
            let w := w.setException a "Last already written, no more message is allowed."
            some { writer := w, holder := some (who, .draining last fin) }
          else if fin then
            let w := w.setException a "Attempt to write after finish."
            some { writer := w, holder := some (who, .draining last fin) }
          else some { writer := w.perform a, holder := some (who, .draining last fin) }
      | .finish =>
          if fin then
            let w := w.setException a "Duplicate finish call."
            some { writer := w, holder := some (who, .draining last fin) }
          else some { writer := w.perform a, holder := some (who, .draining last true) }

def step (s : ActionsMutex Tid Request Response) :
    Event Tid Request Response → Option (ActionsMutex Tid Request Response)
  | .outside e =>
      if s.writer.terminated then none
      else
        match entersSection s.writer e with
        | some entry =>
            if s.holder.isNone ∧ mayEnter s.writer e then some { s with holder := some entry }
            else none
        | none => (s.writer.step e).map fun w => { s with writer := w }
  | .holder =>
      if s.writer.terminated then none
      else s.holder.bind fun (who, pc) => holderStep who s.writer pc

def system (Tid Request : Type) [DecidableEq Tid] (response : Response) :
    TransitionSystem (ActionsMutex Tid Request Response) (Event Tid Request Response) where
  init s := s = { writer := .initial Tid Request response }
  step := step

end Step

end ActionsMutex

end EasyGrpc.Client

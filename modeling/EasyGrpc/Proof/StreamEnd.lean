import EasyGrpc.Proof.StreamProgress
import EasyGrpc.Proof.SubmissionTiming

/-!
# The end of a client stream

The Finish of a client that has not half-closed its stream waits for the answer of a server that waits for
the end of the stream. Messages none of which is flagged as the last one can all be written and read, so
they lead there.
-/

namespace EasyGrpc.StreamExchange

open Client Server AsyncClientStreamWriter AwaitingCaller

variable {Request Response : Type} {s t : StreamExchange Request Response}
  {messages : List (Request × WriteOptions)}

structure Quiet (s : StreamExchange Request Response) : Prop where
  idle : s.caller.writer.Idle
  fulfilled : ∀ a ∈ s.caller.submitted, (s.caller.writer.promises a.id).Fulfilled
  writes : ∀ a ∈ s.caller.submitted, a.isWrite = true
  awaited : s.reader.awaited = true
  received : s.received = s.written.length
  unclosed : s.halfClosed = false
  unanswered : s.answered = false
  live : s.dead = false

theorem Quiet.awaits (h : s.Quiet) :
    ¬ ∃ a ∈ s.caller.submitted, ¬ (s.caller.writer.promises a.id).Fulfilled := by
  rintro ⟨a, ha, hnot⟩
  exact hnot (h.fulfilled a ha)

/-- The client waits for the status of the call, and the server for the end of the stream. -/
structure Waiting (s : StreamExchange Request Response) : Prop where
  todo : s.todo = []
  finished : ∃ a ∈ s.caller.submitted, a.isWrite = false
  callers : s.caller.writer.callers = []
  completion : s.caller.writer.completion = .idle
  outstanding : ∃ a, s.caller.writer.outstanding = [a] ∧ a.isFinish = true
  moved : s.reader.moved = some .pending
  received : s.received = s.written.length
  unclosed : s.halfClosed = false
  unanswered : s.answered = false
  live : s.dead = false

theorem Waiting.stuck (h : s.Waiting) : s.Stuck := by
  refine ⟨h.live, fun e t hstep => ?_⟩
  cases move_of_step hstep with
  | upload _ hupload =>
      cases StreamUpload.move_of_step hupload with
      | die _ => rfl
      | write htodo _ =>
          rw [h.todo] at htodo
          cases htodo
      | finish _ hwrites _ =>
          obtain ⟨b, hb, hnot⟩ := h.finished
          have hwrite := hwrites b hb
          rw [hnot] at hwrite
          cases hwrite
      | asyncNext hmay _ =>
          obtain ⟨a, ha, hfinish⟩ := h.outstanding
          obtain ⟨b, hb, -, hmay⟩ := hmay
          rw [ha, List.mem_singleton] at hb
          rw [hb, StreamUpload.mayReturn_of_isFinish hfinish, h.unanswered, h.live] at hmay
          simp at hmay
      | tryPerformAction hcaller =>
          simp [AwaitingCaller.step, AsyncClientStreamWriter.step, h.callers] at hcaller
      | completion hcaller =>
          simp [AwaitingCaller.step, AsyncClientStreamWriter.step, h.completion, completionStep] at hcaller
      | answer hend _ => simp [h.unclosed, h.live] at hend
  | moveNext hawaited => simp [AsyncClientStreamReader.awaited, h.moved] at hawaited
  | readMessage _ hmessage => simp [h.received] at hmessage
  | readEnd _ hend => simp [h.unclosed, h.live] at hend
  | answer hmoved _ =>
      rw [h.moved] at hmoved
      cases hmoved

def wrote (a : StreamAction Request) (w : AsyncClientStreamWriter Unit Request Response) :
    AsyncClientStreamWriter Unit Request Response :=
  let p := (w.promises a.id).setValue true
  { w with
    nextId := w.nextId + 1
    promises := Function.update w.promises a.id (p.getD (w.promises a.id))
    pushed := w.pushed ++ [a]
    popped := w.popped ++ [a]
    handed := w.handed ++ [a]
    deleted := w.deleted ++ [a]
    asserts := w.asserts ++ [true, true]
    futureErrors := w.futureErrors + if p.isNone then 1 else 0 }

theorem wrote_promises (a : StreamAction Request) (w : AsyncClientStreamWriter Unit Request Response)
    {id : Nat} (hid : id = a.id ∨ (w.promises id).Fulfilled) :
    ((wrote a w).promises id).Fulfilled := by
  have hpromises : (wrote a w).promises =
      Function.update w.promises a.id (((w.promises a.id).setValue true).getD (w.promises a.id)) := rfl
  rw [hpromises]
  by_cases heq : id = a.id
  · rw [heq, Function.update_self]
    exact Promise.fulfilled_getD_setValue _ _
  · rw [Function.update_of_ne heq]
    exact hid.resolve_left heq

def exchanged (message : Request) (options : WriteOptions) (rest : List (Request × WriteOptions))
    (s : StreamExchange Request Response) : StreamExchange Request Response :=
  let a : StreamAction Request := ⟨s.caller.writer.nextId, .write message options⟩
  { s with
    caller := { writer := wrote a s.caller.writer, submitted := s.caller.submitted ++ [a] }
    todo := rest
    reader := s.reader.moveNext.finalizeRead true message
    received := s.received + 1 }

/-- The client's user writes one message, its future becomes ready, and the server reads it. -/
theorem Quiet.run_exchange {request : Request} {response : Response} {message : Request}
    {options : WriteOptions} {rest : List (Request × WriteOptions)} (h : s.Quiet)
    (htodo : s.todo = (message, options) :: rest) :
    (system request response messages).run s
        [.write, .tryPerformAction, .asyncNext s.caller.writer.nextId true .OK none, .completion,
          .completion, .completion, .completion, .moveNext, .read true] =
      some (s.exchanged message options rest) := by
  have hreceived := h.received
  rw [StreamUpload.written] at hreceived
  simp [TransitionSystem.run, system, StreamExchange.step, uploadStep, StreamUpload.step,
    StreamUpload.callerStep, AwaitingCaller.step, submits, AsyncClientStreamWriter.step,
    AsyncClientStreamWriter.tryPerformAction, tryPerformPopped, perform, assertThat, popAction, newAction,
    stateMutexHeld, StreamUpload.mayReturn, storeFinal, completionStep, finalizeSetResult, setResult,
    finalizeWrite, drain, AsyncClientStreamReader.moveNext, StreamUpload.written, exchanged, wrote, htodo, h.awaits, hreceived, h.idle.state, h.idle.actions, h.idle.callers,
    h.idle.completion, h.idle.outstanding, h.idle.running, h.awaited]

theorem Quiet.exchanged {message : Request} {options : WriteOptions}
    {rest : List (Request × WriteOptions)} (h : s.Quiet) (hlast : options.isLastMessage = false) :
    (s.exchanged message options rest).Quiet where
  idle := { h.idle with }
  fulfilled := by
    intro a ha
    refine wrote_promises _ _ ?_
    obtain hold | hnew := List.mem_append.mp ha
    · exact .inr (h.fulfilled a hold)
    · exact .inl (congrArg StreamAction.id (List.mem_singleton.mp hnew))
  writes := by
    intro a ha
    obtain hold | hnew := List.mem_append.mp ha
    · exact h.writes a hold
    · rw [List.mem_singleton.mp hnew]
      rfl
  awaited := rfl
  received := by
    have hreceived := h.received
    rw [StreamUpload.written] at hreceived
    simp [StreamExchange.exchanged, StreamUpload.written, wrote, hreceived]
  unclosed := by
    have hunclosed := h.unclosed
    rw [StreamUpload.halfClosed] at hunclosed ⊢
    simp only [StreamExchange.exchanged, wrote, List.any_append, hunclosed]
    simp [StreamAction.isLastMessage, hlast]
  unanswered := h.unanswered
  live := h.live

theorem quiet_initial (request : Request) (response : Response)
    (messages : List (Request × WriteOptions)) : (initial request response messages).Quiet where
  idle := idle_initial response
  fulfilled := List.forall_mem_nil _
  writes := List.forall_mem_nil _
  awaited := rfl
  received := rfl
  unclosed := rfl
  unanswered := rfl
  live := rfl

def finishing (s : StreamExchange Request Response) : StreamExchange Request Response :=
  let a : StreamAction Request := ⟨s.caller.writer.nextId, .finish⟩
  { s with
    caller :=
      { writer :=
          { s.caller.writer with
            state := .processing
            nextId := s.caller.writer.nextId + 1
            pushed := s.caller.writer.pushed ++ [a]
            popped := s.caller.writer.popped ++ [a]
            handed := s.caller.writer.handed ++ [a]
            outstanding := [a]
            asserts := s.caller.writer.asserts ++ [true] }
        submitted := s.caller.submitted ++ [a] }
    reader := s.reader.moveNext }

theorem Quiet.run_finishing {request : Request} {response : Response} (h : s.Quiet)
    (htodo : s.todo = []) :
    (system request response messages).run s [.finish, .tryPerformAction, .moveNext] =
      some s.finishing := by
  have hwrites := eq_true h.writes
  simp [TransitionSystem.run, system, StreamExchange.step, uploadStep, StreamUpload.step,
    StreamUpload.callerStep, AwaitingCaller.step, submits, AsyncClientStreamWriter.step,
    AsyncClientStreamWriter.tryPerformAction, tryPerformPopped, perform, assertThat, popAction, newAction,
    stateMutexHeld, AsyncClientStreamReader.moveNext, finishing, htodo, h.awaits, hwrites, h.idle.state, h.idle.actions, h.idle.callers, h.idle.completion,
    h.idle.outstanding, h.idle.running, h.awaited]

theorem Quiet.finishing (h : s.Quiet) (htodo : s.todo = []) : s.finishing.Waiting where
  todo := htodo
  finished := ⟨_, List.mem_append_right _ List.mem_cons_self, rfl⟩
  callers := h.idle.callers
  completion := h.idle.completion
  outstanding := ⟨_, rfl, rfl⟩
  moved := rfl
  received := by
    have hreceived := h.received
    rw [StreamUpload.written] at hreceived
    simp [StreamExchange.finishing, StreamUpload.written, hreceived]
  unclosed := by
    have hunclosed := h.unclosed
    rw [StreamUpload.halfClosed] at hunclosed ⊢
    simp only [StreamExchange.finishing, List.any_append, hunclosed]
    rfl
  unanswered := h.unanswered
  live := h.live

/-- Messages none of which is flagged as the last one can all be written and read, and then both sides
wait. -/
theorem Quiet.reaches_waiting {request : Request} {response : Response} (h : s.Quiet)
    (hs : (system request response messages).Reachable s)
    (hlast : ∀ m ∈ s.todo, m.2.isLastMessage = false) :
    ∃ t, (system request response messages).Reachable t ∧ t.Waiting := by
  generalize htodo : s.todo = todo at hlast
  induction todo generalizing s with
  | nil =>
      exact ⟨s.finishing, TransitionSystem.reachable_of_run _ hs (h.run_finishing htodo),
        h.finishing htodo⟩
  | cons m rest ih =>
      obtain ⟨message, options⟩ := m
      rw [List.forall_mem_cons] at hlast
      exact ih (h.exchanged hlast.1)
        (TransitionSystem.reachable_of_run _ hs (h.run_exchange htodo)) rfl hlast.2

theorem reaches_waiting (request : Request) (response : Response)
    (hlast : ∀ m ∈ messages, m.2.isLastMessage = false) :
    ∃ t, (system request response messages).Reachable t ∧ t.Waiting :=
  (quiet_initial request response messages).reaches_waiting (.init rfl) hlast

theorem Waiting.finishOutstanding (h : s.Waiting) : s.FinishOutstanding := by
  obtain ⟨a, ha, hfinish⟩ := h.outstanding
  exact ⟨a, ha ▸ List.mem_cons_self, hfinish⟩

theorem Waiting.not_endSignalled (h : s.Waiting) : ¬ s.EndSignalled := by
  intro hend
  have hclosed := (hend h.live h.finishOutstanding (Nat.le_of_eq h.received.symm)).1
  rw [h.unclosed] at hclosed
  cases hclosed

/-- **The end of the stream.** Whatever the messages: in every state of a live call whose Finish is
outstanding and whose messages are all read the client has half-closed the stream, and no state with the
Finish outstanding is stuck, exactly when one of the messages is flagged as the last one. A `finish` that is
dropped while a result is being published leaves no Finish outstanding, and nothing is said about it. -/
theorem endSignalled_iff_lastMessage (request : Request) (response : Response)
    (messages : List (Request × WriteOptions)) :
    ((∀ s, (system request response messages).Reachable s → s.EndSignalled) ↔
      ∃ m ∈ messages, m.2.isLastMessage = true) ∧
    ((∀ s, (system request response messages).Reachable s → s.FinishOutstanding → ¬ s.Stuck) ↔
      ∃ m ∈ messages, m.2.isLastMessage = true) := by
  have hwaiting : ¬ (∃ m ∈ messages, m.2.isLastMessage = true) →
      ∃ t, (system request response messages).Reachable t ∧ t.Waiting := by
    intro hnone
    push Not at hnone
    exact reaches_waiting request response fun m hm => by simpa using hnone m hm
  refine ⟨⟨fun hall => ?_, ?_⟩, fun hall => ?_, ?_⟩
  · by_contra hnone
    obtain ⟨t, ht, hwait⟩ := hwaiting hnone
    exact hwait.not_endSignalled (hall t ht)
  · rintro ⟨m, hm, hlast⟩ s hs halive hfinish -
    have hlive := StreamUpload.live_of_reachable (upload_of_reachable hs) halive
    have hclosed := hlive.halfClosed hm hlast hfinish
    exact ⟨hclosed, fun hpending => ⟨_, step_read_false hpending hclosed⟩⟩
  · by_contra hnone
    obtain ⟨t, ht, hwait⟩ := hwaiting hnone
    exact hall t ht hwait.finishOutstanding hwait.stuck
  · rintro ⟨m, hm, hlast⟩ s hs hfinish hstuck
    have hlive := StreamUpload.live_of_reachable (upload_of_reachable hs) hstuck.1
    exact not_stuck hlive hstuck.1 (hlive.halfClosed hm hlast hfinish) hfinish hstuck

/-- One message with the default options, then `finish`, against a reader that loops on `moveNext`. -/
def unflagged : List (Event String) :=
  [.write, .tryPerformAction, .asyncNext 0 true .OK none, .completion, .completion, .completion,
    .completion, .moveNext, .read true, .finish, .tryPerformAction, .moveNext]

theorem unflagged_deadlocks :
    ∃ s, (system "" "" [("message", {})]).run (initial "" "" [("message", {})]) unflagged = some s ∧
      s.written = ["message"] ∧ s.received = 1 ∧ s.halfClosed = false ∧ ¬ s.EndSignalled ∧ s.Stuck := by
  have hwaiting : ∃ s, (system "" "" [("message", {})]).run (initial "" "" [("message", {})]) unflagged =
      some s ∧ s.written = ["message"] ∧ s.Waiting :=
    ⟨_, rfl, rfl, rfl, ⟨⟨1, .finish⟩, by decide, rfl⟩, rfl, rfl, ⟨_, rfl, rfl⟩, rfl, rfl, rfl, rfl, rfl⟩
  obtain ⟨s, hrun, hwritten, hwait⟩ := hwaiting
  refine ⟨s, hrun, hwritten, ?_, hwait.unclosed, hwait.not_endSignalled, hwait.stuck⟩
  rw [hwait.received, hwritten]
  rfl

end EasyGrpc.StreamExchange

import EasyGrpc.Client.AsyncClient
import EasyGrpc.Proof.WriterSteps

/-!
# What a step of the client can do

One inversion lemma for the step function, and for the writers of stream calls what their steps leave
of the call that owns them.
-/

namespace EasyGrpc.Client

variable {Tid Request Response : Type} [DecidableEq Tid]

section Writer

variable {w w' : AsyncClientStreamWriter Tid Request Response}
  {e : AsyncClientStreamWriter.Event Tid Request Response}

def AsyncClientStreamWriter.FinishArrived (w : AsyncClientStreamWriter Tid Request Response) : Prop :=
  ∃ a ok, w.completion = .stateReady a ok ∧ a.isFinish = true

theorem AsyncClientStreamWriter.step_streamWriter (hstep : w.step e = some w') :
    w'.owner.streamWriter = w.owner.streamWriter ∧
      w'.owner.streamWriterPromise = w.owner.streamWriterPromise := by
  cases (step_cases hstep).2 with
  | write _ | finish _ | setResult _ | stateReady _ | finalizeWriteFailed _ _ | delete _ =>
      exact ⟨rfl, rfl⟩
  | tryPerformAction _ _ | finishPushed _ =>
      obtain ⟨l, hover, -⟩ := w.tryPerformAction_handedOver
      exact ⟨congrArg _ hover.owner, congrArg _ hover.owner⟩
  | @asyncNext id ok status response a _ _ =>
      simp only [storeFinal]
      cases a.kind <;> exact ⟨rfl, rfl⟩
  | @finalizeWriteOk a _ _ =>
      have hover := drain_handedOver a.isLastMessage w.actions w
      exact ⟨congrArg _ hover.owner, congrArg _ hover.owner⟩
  | finalizeFinish _ _ =>
      simp only [finalizeFinish, assertThat, AsyncClientStreamCall.onStreamWriterFinish]
      cases w.owner.responsePromise <;> exact ⟨rfl, rfl⟩

/-- `_onFinished` runs once more exactly when the completion of a Finish goes on. -/
theorem AsyncClientStreamWriter.step_onFinishedRuns (hstep : w.step e = some w') :
    (w'.onFinishedRuns = w.onFinishedRuns ∧ ¬ (e = .completion ∧ w.FinishArrived)) ∨
      (w'.onFinishedRuns = w.onFinishedRuns + 1 ∧ e = .completion ∧ w.FinishArrived) := by
  cases (step_cases hstep).2 with
  | write _ | finish _ | asyncNext _ _ => exact .inl ⟨rfl, nofun⟩
  | tryPerformAction _ _ =>
      obtain ⟨l, hover, -⟩ := w.tryPerformAction_handedOver
      exact .inl ⟨hover.onFinishedRuns, nofun⟩
  | setResult hpc | stateReady hpc | delete hpc =>
      exact .inl ⟨rfl, by simp [FinishArrived, hpc]⟩
  | finishPushed hpc =>
      obtain ⟨l, hover, -⟩ := w.tryPerformAction_handedOver
      exact .inl ⟨hover.onFinishedRuns, by simp [FinishArrived, hpc]⟩
  | @finalizeWriteOk a hpc ha =>
      have hover := drain_handedOver a.isLastMessage w.actions w
      exact .inl ⟨hover.onFinishedRuns, by simp [FinishArrived, hpc, StreamAction.isFinish, ha]⟩
  | finalizeWriteFailed hpc ha =>
      exact .inl ⟨rfl, by simp [FinishArrived, hpc, StreamAction.isFinish, ha]⟩
  | finalizeFinish hpc ha => exact .inr ⟨rfl, rfl, _, _, hpc, ha⟩

end Writer

namespace AsyncClient

variable [Inhabited Response]

inductive Move (s : AsyncClient Tid Request Response) :
    Event Tid Request Response → AsyncClient Tid Request Response → Prop where
  | callUnary {request : Request} {hasCallback : Bool} :
      Move s (.callUnary request hasCallback) (s.newUnaryCall request hasCallback)
  | callClientStream : Move s .callClientStream s.newStreamCall
  | createWriter {c : Nat} (hframe : s.frames c = some .started)
      (hcall : s.unaryCalls c = none) : Move s (.frame c) (s.createWriter c)
  | installOwner {c : Nat} (hframe : (s.frames c = some .started ∧ (s.unaryCalls c).isSome) ∨
      s.frames c = some .writerCreated) : Move s (.frame c) (s.installOwner c)
  | addStreamingCall {c : Nat} (hframe : s.frames c = some .shared) :
      Move s (.frame c)
        { s.addStreamingCall c with frames := Function.update s.frames c (some .added) }
  | returned {c : Nat} (hframe : s.frames c = some .added) :
      Move s (.frame c)
        { s with frames := Function.update s.frames c none, userRefs := s.userRefs ++ [c] }
  | dropRef {c : Nat} : Move s (.dropRef c) { s with userRefs := s.userRefs.erase c }
  | gotUnaryFinish {c : Nat} {ok : Bool} {status : Status} {response : Option Response}
      {call : AsyncUnaryCall Response} (hpoller : s.poller = .idle)
      (htag : .unaryFinish c ∈ s.tags) (hcall : s.unaryCalls c = some call) :
      Move s (.asyncNext (.unaryFinish c) ok status response)
        { s with
          tags := s.tags.erase (.unaryFinish c)
          unaryCalls := Function.update s.unaryCalls c
            (some { call with status := status, response := response.getD call.response })
          delivered := s.delivered ++ [⟨c, status, response⟩]
          poller := .unary c .responding }
  | gotCallStart {c : Nat} {ok : Bool} {status : Status} {response : Option Response}
      (hpoller : s.poller = .idle) (htag : .callStart c ∈ s.tags) :
      Move s (.asyncNext (.callStart c) ok status response)
        { s with tags := s.tags.erase (.callStart c), poller := .callStart c }
  | gotStreamAction {c id : Nat} {ok : Bool} {status : Status} {response : Option Response}
      {w w' : AsyncClientStreamWriter Tid Request Response} (hpoller : s.poller = .idle)
      (hcall : s.streamCalls c = some w)
      (hstep : w.step (.asyncNext id ok status response) = some w') :
      Move s (.asyncNext (.streamAction c id) ok status response)
        { s with
          streamCalls := Function.update s.streamCalls c (some w')
          poller := .writer c }
  | responded {c : Nat} {run : CallbackRun} {call call' : AsyncUnaryCall Response}
      (hpoller : s.poller = .unary c .responding) (hcall : s.unaryCalls c = some call)
      (hset : call.setResponse = some call') :
      Move s (.poll run)
        { s with
          unaryCalls := Function.update s.unaryCalls c (some call')
          poller := .unary c .callingBack }
  | futureError {c : Nat} {run : CallbackRun} {call : AsyncUnaryCall Response}
      (hpoller : s.poller = .unary c .responding) (hcall : s.unaryCalls c = some call)
      (hset : call.setResponse = none) : Move s (.poll run) { s with terminated := true }
  | calledBack {c : Nat} {run : CallbackRun} {call : AsyncUnaryCall Response}
      (hpoller : s.poller = .unary c .callingBack) (hcall : s.unaryCalls c = some call) :
      Move s (.poll run) { s.responseCallback c call run with poller := .unary c .sharing }
  | sharedFromThis {c : Nat} {run : CallbackRun} {call : AsyncUnaryCall Response}
      (hpoller : s.poller = .unary c .sharing) (hcall : s.unaryCalls c = some call)
      (howned : call.weakThis = true ∧ s.Owned c) :
      Move s (.poll run) { s with poller := .unary c .burying }
  | badWeakPtr {c : Nat} {run : CallbackRun} {call : AsyncUnaryCall Response}
      (hpoller : s.poller = .unary c .sharing) (hcall : s.unaryCalls c = some call)
      (howned : ¬ (call.weakThis = true ∧ s.Owned c)) :
      Move s (.poll run) { s with terminated := true }
  | onCallDead {c : Nat} {run : CallbackRun} (hpoller : s.poller = .unary c .burying) :
      Move s (.poll run) { s.onCallDead c with poller := .unary c .releasing }
  | released {c : Nat} {run : CallbackRun} (hpoller : s.poller = .unary c .releasing) :
      Move s (.poll run) { s with poller := .idle }
  | streamWriterReady {c : Nat} {run : CallbackRun}
      {w : AsyncClientStreamWriter Tid Request Response} {owner : AsyncClientStreamCall Response}
      (hpoller : s.poller = .callStart c) (hcall : s.streamCalls c = some w)
      (hset : w.owner.markStreamWriterReady = some owner) :
      Move s (.poll run)
        { s with
          streamCalls := Function.update s.streamCalls c (some { w with owner := owner })
          poller := .idle }
  | streamWriterReadyTwice {c : Nat} {run : CallbackRun}
      {w : AsyncClientStreamWriter Tid Request Response}
      (hpoller : s.poller = .callStart c) (hcall : s.streamCalls c = some w)
      (hset : w.owner.markStreamWriterReady = none) : Move s (.poll run) { s with terminated := true }
  | writerCompletion {c : Nat} {run : CallbackRun} {poller : Poller}
      {w w' : AsyncClientStreamWriter Tid Request Response} (hpoller : s.poller = .writer c)
      (hcall : s.streamCalls c = some w) (hstep : w.step .completion = some w')
      (hnext : poller = .idle ∨ poller = .writer c) :
      Move s (.poll run)
        { s with
          streamCalls := Function.update s.streamCalls c (some w')
          poller := poller
          terminated := w'.terminated }
  | runCallback {c : Nat} (htask : c ∈ s.callbackTasks) :
      Move s (.runCallback c)
        { s with
          callbackTasks := s.callbackTasks.erase c
          callbackRuns := s.callbackRuns ++ [c] }
  | writer {c : Nat} {e : AsyncClientStreamWriter.Event Tid Request Response}
      {w w' : AsyncClientStreamWriter Tid Request Response} (hcall : s.streamCalls c = some w)
      (hmay : mayUse w e = true) (hstep : w.step e = some w') :
      Move s (.writer c e) { s with streamCalls := Function.update s.streamCalls c (some w') }

variable {s s' : AsyncClient Tid Request Response}

theorem move_of_frameStep {c : Nat} (h : s.frameStep c = some s') : Move s (.frame c) s' := by
  unfold frameStep at h
  split at h
  case h_1 => cases h
  case h_2 hframe =>
    split at h
    · rename_i hcall
      exact Option.some.inj h ▸ .installOwner (.inl ⟨hframe, hcall⟩)
    · rename_i hcall
      exact Option.some.inj h ▸ .createWriter hframe (by simpa using hcall)
  case h_3 hframe => exact Option.some.inj h ▸ .installOwner (.inr hframe)
  case h_4 hframe => exact Option.some.inj h ▸ .addStreamingCall hframe
  case h_5 hframe => exact Option.some.inj h ▸ .returned hframe

theorem move_finalizeFinished {c : Nat} {call : AsyncUnaryCall Response} {stage : FinalizeStage}
    (run : CallbackRun) (hpoller : s.poller = .unary c stage)
    (hcall : s.unaryCalls c = some call) :
    Move s (.poll run) (s.finalizeFinished c call run stage) := by
  cases stage with
  | responding =>
      simp only [finalizeFinished]
      split
      · rename_i call' hset
        exact .responded hpoller hcall hset
      · rename_i hset
        exact .futureError hpoller hcall hset
  | callingBack => exact .calledBack hpoller hcall
  | sharing =>
      simp only [finalizeFinished]
      split
      · rename_i howned
        exact .sharedFromThis hpoller hcall howned
      · rename_i howned
        exact .badWeakPtr hpoller hcall howned
  | burying => exact .onCallDead hpoller
  | releasing => exact .released hpoller

theorem move_of_pollerStep {run : CallbackRun} (h : s.pollerStep run = some s') :
    Move s (.poll run) s' := by
  unfold pollerStep at h
  split at h
  case h_1 => cases h
  case h_2 c stage hpoller =>
    obtain ⟨call, hcall, rfl⟩ := Option.map_eq_some_iff.mp h
    exact move_finalizeFinished run hpoller hcall
  case h_3 c hpoller =>
    obtain ⟨w, hcall, rfl⟩ := Option.map_eq_some_iff.mp h
    unfold finalizeCallStart
    split
    · rename_i owner hset
      exact .streamWriterReady hpoller hcall hset
    · rename_i hset
      exact .streamWriterReadyTwice hpoller hcall hset
  case h_4 c hpoller =>
    obtain ⟨w, hcall, hmap⟩ := Option.bind_eq_some_iff.mp h
    obtain ⟨w', hstep, rfl⟩ := Option.map_eq_some_iff.mp hmap
    refine .writerCompletion hpoller hcall hstep ?_
    cases w'.completion <;> simp

theorem move_of_asyncNext {tag : Tag} {ok : Bool} {status : Status} {response : Option Response}
    (hpoller : s.poller = .idle) (h : s.asyncNext tag ok status response = some s') :
    Move s (.asyncNext tag ok status response) s' := by
  cases tag with
  | unaryFinish c =>
      simp only [asyncNext] at h
      split at h
      · rename_i htag
        obtain ⟨call, hcall, rfl⟩ := Option.map_eq_some_iff.mp h
        exact .gotUnaryFinish hpoller htag hcall
      · cases h
  | callStart c =>
      simp only [asyncNext] at h
      split at h
      · rename_i htag
        exact Option.some.inj h ▸ .gotCallStart hpoller htag
      · cases h
  | streamAction c id =>
      obtain ⟨w, hcall, hmap⟩ := Option.bind_eq_some_iff.mp h
      obtain ⟨w', hstep, rfl⟩ := Option.map_eq_some_iff.mp hmap
      exact .gotStreamAction hpoller hcall hstep

theorem step_cases {e : Event Tid Request Response} (h : s.step e = some s') :
    s.terminated = false ∧ Move s e s' := by
  unfold step at h
  split at h
  · cases h
  · rename_i hterm
    refine ⟨by simpa using hterm, ?_⟩
    cases e with
    | callUnary request hasCallback => exact Option.some.inj h ▸ .callUnary
    | callClientStream => exact Option.some.inj h ▸ .callClientStream
    | frame c => exact move_of_frameStep h
    | dropRef c =>
        simp only at h
        split at h
        · exact Option.some.inj h ▸ .dropRef
        · cases h
    | asyncNext tag ok status response =>
        simp only at h
        split at h
        · rename_i hpoller
          exact move_of_asyncNext hpoller h
        · cases h
    | poll run => exact move_of_pollerStep h
    | runCallback c =>
        simp only at h
        split at h
        · rename_i htask
          exact Option.some.inj h ▸ .runCallback htask
        · cases h
    | writer c e =>
        obtain ⟨w, hcall, hstep⟩ := Option.bind_eq_some_iff.mp h
        split at hstep
        · rename_i hmay
          obtain ⟨w', hw', rfl⟩ := Option.map_eq_some_iff.mp hstep
          exact .writer hcall hmay hw'
        · cases hstep

/-- **Writers.** What every step of a writer keeps, whatever happens to the call that owns it, the steps
of the client keep for all writers. -/
theorem writers_move {P : AsyncClientStreamWriter Tid Request Response → Prop}
    (hinit : P { owner := { response := default } })
    (howner : ∀ w owner, P w → P { w with owner := owner })
    (hstep : ∀ w e w', P w → AsyncClientStreamWriter.step w e = some w' → P w')
    {e : Event Tid Request Response} (hmove : Move s e s')
    (h : ∀ c w, s.streamCalls c = some w → P w) : ∀ c w, s'.streamCalls c = some w → P w := by
  have hset : ∀ {b : Nat} {v : AsyncClientStreamWriter Tid Request Response}, P v →
      ∀ c w, Function.update s.streamCalls b (some v) c = some w → P w := by
    intro b v hv c w hw
    by_cases hc : c = b
    · subst hc
      rw [Function.update_self] at hw
      exact Option.some.inj hw ▸ hv
    · rw [Function.update_of_ne hc] at hw
      exact h c w hw
  have hmap : ∀ (b : Nat) (f : AsyncClientStreamCall Response → AsyncClientStreamCall Response),
      ∀ c w, Function.update s.streamCalls b ((s.streamCalls b).map fun v =>
        { v with owner := f v.owner }) c = some w → P w := by
    intro b f c w hw
    by_cases hc : c = b
    · subst hc
      rw [Function.update_self] at hw
      obtain ⟨v, hv, rfl⟩ := Option.map_eq_some_iff.mp hw
      exact howner v _ (h c v hv)
    · rw [Function.update_of_ne hc] at hw
      exact h c w hw
  cases hmove with
  | callClientStream => exact hset hinit
  | createWriter _ _ => exact hmap _ fun owner => { owner with streamWriter := .created }
  | installOwner _ => exact hmap _ fun owner => { owner with weakThis := true }
  | streamWriterReady _ hcall _ => exact hset (howner _ _ (h _ _ hcall))
  | gotStreamAction _ hcall hw | writerCompletion _ hcall hw _ | writer hcall _ hw =>
      exact hset (hstep _ _ _ (h _ _ hcall) hw)
  | @calledBack c run call _ _ =>
      unfold responseCallback
      split <;> exact h
  | callUnary | addStreamingCall _ | returned _ | dropRef | gotUnaryFinish _ _ _ | gotCallStart _ _
  | responded _ _ _ | futureError _ _ _ | sharedFromThis _ _ _ | badWeakPtr _ _ _ | onCallDead _
  | released _ | streamWriterReadyTwice _ _ _ | runCallback _ => exact h

end AsyncClient

end EasyGrpc.Client

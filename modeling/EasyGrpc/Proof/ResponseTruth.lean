import EasyGrpc.Proof.ClientResponses

/-!
# What a response future tells

gRPC stores the status of a call and its response message, if there is one, when it returns the tag of a
Finish. The polling thread then fulfils the response promise, by `finalizeFinished` for a unary call and
by `onStreamWriterFinish` for a stream call. Beside the client we keep a log of what gRPC stored, and
compare the promises with it.
-/

namespace EasyGrpc.Client

variable {Tid Request Response : Type}

structure Answer (Response : Type) where
  promise : Promise Response AsyncCallError
  status : Status
  response : Response

def AsyncUnaryCall.answer (call : AsyncUnaryCall Response) : Answer Response :=
  ⟨call.responsePromise, call.status, call.response⟩

def AsyncClientStreamCall.answer (call : AsyncClientStreamCall Response) : Answer Response :=
  ⟨call.responsePromise, call.status, call.response⟩

section Writer

variable {w w' : AsyncClientStreamWriter Tid Request Response}

def AsyncClientStreamWriter.finishInHand (w : AsyncClientStreamWriter Tid Request Response) : Bool :=
  match w.completion with
  | .gotEvent a _ => a.isFinish
  | .resultSet a _ => a.isFinish
  | .stateReady a _ => a.isFinish
  | _ => false

def AsyncClientStreamWriter.returnsFinish (w : AsyncClientStreamWriter Tid Request Response)
    (id : Nat) : Bool :=
  (w.outstanding.find? (·.id = id)).any (·.isFinish)

theorem AsyncClientStreamWriter.finishInHand_of_arrived (h : w.FinishArrived) :
    w.finishInHand = true := by
  obtain ⟨a, ok, hpc, ha⟩ := h
  simp only [finishInHand, hpc, ha]

inductive AsyncClientStreamWriter.AnswerMove (w : AsyncClientStreamWriter Tid Request Response) :
    Event Tid Request Response → AsyncClientStreamWriter Tid Request Response → Prop where
  | kept {e : Event Tid Request Response} {w' : AsyncClientStreamWriter Tid Request Response}
      (hanswer : w'.owner.answer = w.owner.answer) (hhand : w'.finishInHand = w.finishInHand)
      (hnone : ∀ id ok status response, e = .asyncNext id ok status response →
        w.returnsFinish id = false)
      (hidle : e = .completion → w.FinishArrived → w.owner.responsePromise ≠ .pending) :
      AnswerMove w e w'
  | stored {id : Nat} {ok : Bool} {status : Status} {response : Option Response}
      {w' : AsyncClientStreamWriter Tid Request Response} (hfinish : w.returnsFinish id = true)
      (hbefore : w.finishInHand = false) (hafter : w'.finishInHand = true)
      (hanswer : w'.owner.answer = { w.owner.answer with
        status := status, response := response.getD w.owner.answer.response }) :
      AnswerMove w (.asyncNext id ok status response) w'
  | fulfilled {w' : AsyncClientStreamWriter Tid Request Response} (harrived : w.FinishArrived)
      (hpending : w.owner.responsePromise = .pending) (hafter : w'.finishInHand = false)
      (hanswer : w'.owner.answer =
        { w.owner.answer with promise := .value w.owner.answer.response }) :
      AnswerMove w .completion w'

theorem AsyncClientStreamWriter.answer_move [DecidableEq Tid] {e : Event Tid Request Response}
    (hmove : Move w e w') : AnswerMove w e w' := by
  have hsame : ∀ {e : Event Tid Request Response} {v : AsyncClientStreamWriter Tid Request Response},
      v.owner = w.owner → v.completion = w.completion → e ≠ .completion →
      (∀ id ok status response, e ≠ .asyncNext id ok status response) → AnswerMove w e v := by
    intro e v howner hpc hcompletion hnext
    refine .kept (congrArg _ howner) ?_ (fun id ok status response he => ?_) fun he => ?_
    · simp only [finishInHand, hpc]
    · exact absurd he (hnext id ok status response)
    · exact absurd he hcompletion
  have hnone : ∀ id ok status response,
      (.completion : Event Tid Request Response) = .asyncNext id ok status response →
        w.returnsFinish id = false := by
    intro id ok status response he
    cases he
  cases hmove with
  | write _ | finish _ => exact hsame rfl rfl (fun he => by cases he) fun _ _ _ _ he => by cases he
  | tryPerformAction _ _ =>
      obtain ⟨l, hover, -⟩ := w.tryPerformAction_handedOver
      exact hsame hover.owner hover.completion (fun he => by cases he)
        fun _ _ _ _ he => by cases he
  | @asyncNext id ok status response a hpc ha =>
      have hbefore : w.finishInHand = false := by simp [finishInHand, hpc]
      cases hkind : a.kind with
      | write message options =>
          have hwrite : a.isFinish = false := by
            simp [StreamAction.isFinish, StreamAction.isWrite, hkind]
          refine .kept ?_ (Eq.trans ?_ hbefore.symm) (fun id' ok' st re he => ?_) fun he => by cases he
          · simp [storeFinal, hkind]
          · simp [finishInHand, hwrite]
          · obtain ⟨rfl, -⟩ := Event.asyncNext.inj he
            simp [returnsFinish, ha, hwrite]
      | finish =>
          have hfinish : a.isFinish = true := by
            simp [StreamAction.isFinish, StreamAction.isWrite, hkind]
          refine .stored (by simp [returnsFinish, ha, hfinish]) hbefore hfinish ?_
          simp [storeFinal, hkind, AsyncClientStreamCall.answer]
  | setResult hpc | stateReady hpc | delete hpc =>
      refine .kept rfl ?_ hnone fun _ harrived => ?_
      · simp [finishInHand, hpc, finalizeSetResult]
      · simp [FinishArrived, hpc] at harrived
  | @finalizeWriteOk a hpc ha =>
      have hover := drain_handedOver a.isLastMessage w.actions w
      have hwrite : a.isFinish = false := by simp [StreamAction.isFinish, ha]
      refine .kept (congrArg _ hover.owner) ?_ hnone fun _ harrived => ?_
      · simp [finishInHand, hpc, hwrite]
      · simp [FinishArrived, hpc, hwrite] at harrived
  | @finalizeWriteFailed a hpc ha =>
      have hwrite : a.isFinish = false := by simp [StreamAction.isFinish, ha]
      refine .kept rfl ?_ hnone fun _ harrived => ?_
      · simp [finishInHand, hpc, hwrite]
      · simp [FinishArrived, hpc, hwrite] at harrived
  | @finalizeFinish a ok hpc ha =>
      by_cases hpromise : w.owner.responsePromise = .pending
      · refine .fulfilled ⟨a, ok, hpc, ha⟩ hpromise ?_ ?_
        · simp [finalizeFinish, assertThat, finishInHand,
            AsyncClientStreamCall.onStreamWriterFinish, hpromise, Promise.setValue_pending]
        · simp [finalizeFinish, assertThat, AsyncClientStreamCall.onStreamWriterFinish, hpromise,
            Promise.setValue_pending, AsyncClientStreamCall.answer]
      · have herror := AsyncClientStreamCall.onStreamWriterFinish_eq_none hpromise
        refine .kept ?_ ?_ hnone fun _ _ => hpromise
        · simp [finalizeFinish, assertThat, herror]
        · simp [finishInHand, finalizeFinish, assertThat, herror]
  | @finishPushed a hpc =>
      obtain ⟨l, hover, -⟩ := w.tryPerformAction_handedOver
      refine .kept (congrArg _ hover.owner) ?_ hnone fun _ harrived => ?_
      · simp [finishInHand, hpc]
      · simp [FinishArrived, hpc] at harrived

end Writer

namespace AsyncClient

variable {s s' : AsyncClient Tid Request Response} {c : Nat}

def unaryAnswer (s : AsyncClient Tid Request Response) (c : Nat) : Option (Answer Response) :=
  (s.unaryCalls c).map (·.answer)

def streamAnswer (s : AsyncClient Tid Request Response) (c : Nat) : Option (Answer Response) :=
  (s.streamCalls c).map (·.owner.answer)

def answer (s : AsyncClient Tid Request Response) (c : Nat) : Option (Answer Response) :=
  (s.unaryAnswer c).or (s.streamAnswer c)

def finishInHand (s : AsyncClient Tid Request Response) (c : Nat) : Option Bool :=
  (s.streamCalls c).map (·.finishInHand)

def Arrived (s : AsyncClient Tid Request Response) (c : Nat) : Prop :=
  s.poller = .unary c .responding ∨ s.finishInHand c = some true

def delivery (s : AsyncClient Tid Request Response) :
    Event Tid Request Response → List (Delivered Response)
  | .asyncNext (.unaryFinish c) _ status response => [⟨c, status, response⟩]
  | .asyncNext (.streamAction c id) _ status response =>
      if (s.streamCalls c).any (·.returnsFinish id) then [⟨c, status, response⟩] else []
  | _ => []

def Fulfils (s : AsyncClient Tid Request Response) (c : Nat) (e : Event Tid Request Response) : Prop :=
  (∃ run, e = .poll run) ∧ (∃ a, s.answer c = some a ∧ a.promise = .pending) ∧
    (s.poller = .unary c .responding ∨
      s.poller = .writer c ∧ ∃ w, s.streamCalls c = some w ∧ w.FinishArrived)

/-- With what a promise is fulfilled. A stream call does not look at its status. -/
def fulfilment (s : AsyncClient Tid Request Response) (c : Nat) (a : Answer Response) :
    Promise Response AsyncCallError :=
  if s.poller = .writer c ∨ a.status.ok = true then .value a.response
  else .exception (.new a.status)

inductive AnswerMove [Inhabited Response] (s : AsyncClient Tid Request Response)
    (e : Event Tid Request Response) (s' : AsyncClient Tid Request Response) (c : Nat) : Prop where
  | kept (hanswer : s'.answer c = s.answer c) (harrived : s'.Arrived c ↔ s.Arrived c)
      (hnone : ∀ d ∈ s.delivery e, d.call ≠ c) (hidle : ¬ s.Fulfils c e)
  | started (hnew : c = s.nextCall) (hanswer : s'.answer c = some ⟨.pending, .OK, default⟩)
      (harrived : ¬ s'.Arrived c) (hnone : s.delivery e = []) (hidle : ¬ s.Fulfils c e)
  | stored (a : Answer Response) (d : Delivered Response) (hbefore : s.answer c = some a)
      (hcall : d.call = c) (hdelivery : s.delivery e = [d]) (hpoller : ¬ s.Arrived c)
      (harrived : s'.Arrived c) (hidle : ¬ s.Fulfils c e)
      (hanswer : s'.answer c =
        some { a with status := d.status, response := d.response.getD a.response })
  | fulfilled (a a' : Answer Response) (hfulfils : s.Fulfils c e) (hbefore : s.answer c = some a)
      (hpending : a.promise = .pending) (harrived : s.Arrived c) (hafter : s'.answer c = some a')
      (hpromise : a'.promise = s.fulfilment c a) (hnone : s.delivery e = [])

variable {e : Event Tid Request Response}

theorem not_fulfils (he : ∀ run, e ≠ .poll run) : ¬ s.Fulfils c e := by
  rintro ⟨⟨run, rfl⟩, -⟩
  exact he run rfl

theorem arrived_congr (hhand : s'.finishInHand c = s.finishInHand c)
    (hpoller : s'.poller = .unary c .responding ↔ s.poller = .unary c .responding) :
    s'.Arrived c ↔ s.Arrived c := by
  rw [Arrived, Arrived, hhand, hpoller]

theorem AnswerMove.of_views [Inhabited Response] (hunary : s'.unaryAnswer c = s.unaryAnswer c)
    (hstream : s'.streamAnswer c = s.streamAnswer c) (hhand : s'.finishInHand c = s.finishInHand c)
    (hpoller : s'.poller = .unary c .responding ↔ s.poller = .unary c .responding)
    (hnone : ∀ d ∈ s.delivery e, d.call ≠ c) (hidle : ¬ s.Fulfils c e) : AnswerMove s e s' c := by
  refine .kept ?_ (arrived_congr hhand hpoller) hnone hidle
  rw [answer, answer, hunary, hstream]

theorem AnswerMove.congr [Inhabited Response] (hidle : ¬ s.Fulfils c e)
    (hpoller : s'.poller = .unary c .responding ↔ s.poller = .unary c .responding)
    (hunary : s'.unaryAnswer = s.unaryAnswer := by rfl)
    (hstream : s'.streamAnswer = s.streamAnswer := by rfl)
    (hhand : s'.finishInHand = s.finishInHand := by rfl)
    (hnone : ∀ d ∈ s.delivery e, d.call ≠ c := by exact List.forall_mem_nil _) : AnswerMove s e s' c :=
  .of_views (congrFun hunary c) (congrFun hstream c) (congrFun hhand c) hpoller hnone hidle

theorem answer_unary {call : AsyncUnaryCall Response} (hcall : s.unaryCalls c = some call) :
    s.answer c = some call.answer := by
  simp [answer, unaryAnswer, hcall]

theorem answer_stream (hunary : s.unaryCalls c = none)
    {w : AsyncClientStreamWriter Tid Request Response} (hcall : s.streamCalls c = some w) :
    s.answer c = some w.owner.answer := by
  simp [answer, unaryAnswer, streamAnswer, hunary, hcall]

/-- A call is a unary call or a stream call. -/
theorem Inv.unary_or_stream (h : s.Inv) (c : Nat) : s.unaryCalls c = none ∨ s.streamCalls c = none := by
  by_cases hc : (s.unaryCalls c).isSome
  · exact .inr (Option.map_eq_none_iff.mp (h.calls.unary hc).2.2.1)
  · exact .inl (by simpa using hc)

theorem AnswerMove.started_of [Inhabited Response] (h : s.Inv) (hnew : c = s.nextCall)
    (hanswer : s'.answer c = some ⟨.pending, .OK, default⟩) (hpoller : s'.poller = s.poller)
    (hhand : s'.finishInHand c ≠ some true) (hnone : s.delivery e = [])
    (hidle : ¬ s.Fulfils c e) : AnswerMove s e s' c := by
  refine .started hnew hanswer ?_ hnone hidle
  rintro (hat | hin)
  · rw [hpoller] at hat
    obtain ⟨hsome, -⟩ := h.completing.finalizing (c := c) (by rw [hat]; rfl)
    have hlt := (h.calls.unary hsome).1
    omega
  · exact hhand hin

theorem AnswerMove.newUnaryCall [Inhabited Response] (h : s.Inv) (request : Request)
    (hasCallback : Bool) (c : Nat) :
    AnswerMove s (.callUnary request hasCallback) (s.newUnaryCall request hasCallback) c := by
  have hidle : ¬ s.Fulfils c (.callUnary request hasCallback) := not_fulfils fun _ he => by cases he
  by_cases hc : c = s.nextCall
  · subst hc
    have hfresh : s.streamCalls s.nextCall = none := Option.map_eq_none_iff.mp h.calls.fresh.2.1
    refine .started_of h rfl ?_ rfl ?_ rfl hidle
    · simp [answer, unaryAnswer, AsyncClient.newUnaryCall, AsyncUnaryCall.answer]
    · simp [finishInHand, AsyncClient.newUnaryCall, hfresh]
  · refine .of_views ?_ rfl rfl Iff.rfl (List.forall_mem_nil _) hidle
    simp [unaryAnswer, AsyncClient.newUnaryCall, hc]

theorem AnswerMove.newStreamCall [Inhabited Response] (h : s.Inv) (c : Nat) :
    AnswerMove s .callClientStream s.newStreamCall c := by
  have hidle : ¬ s.Fulfils c .callClientStream := not_fulfils fun _ he => by cases he
  by_cases hc : c = s.nextCall
  · subst hc
    have hfresh : s.unaryCalls s.nextCall = none := Option.map_eq_none_iff.mp h.calls.fresh.1
    refine .started_of h rfl ?_ rfl ?_ rfl hidle
    · simp [answer, unaryAnswer, streamAnswer, AsyncClient.newStreamCall, hfresh,
        AsyncClientStreamCall.answer]
    · simp [finishInHand, AsyncClient.newStreamCall, AsyncClientStreamWriter.finishInHand]
  · refine .of_views rfl ?_ ?_ Iff.rfl (List.forall_mem_nil _) hidle
    · simp [streamAnswer, AsyncClient.newStreamCall, hc]
    · simp [finishInHand, AsyncClient.newStreamCall, hc]

/-- A step of a writer that leaves the answer of its call, seen from any call. -/
theorem AnswerMove.of_writer [Inhabited Response] {b : Nat} {poller : Poller} {terminated : Bool}
    {w w' : AsyncClientStreamWriter Tid Request Response} (hcall : s.streamCalls b = some w)
    (hanswer : w'.owner.answer = w.owner.answer) (hhand : w'.finishInHand = w.finishInHand)
    (hpoller : poller = .unary c .responding ↔ s.poller = .unary c .responding)
    (hnone : ∀ d ∈ s.delivery e, d.call ≠ c) (hidle : ¬ s.Fulfils c e) :
    AnswerMove s e { s with
      streamCalls := Function.update s.streamCalls b (some w')
      poller := poller, terminated := terminated } c :=
  .congr hidle hpoller rfl (map_update_of_eq hcall hanswer) (map_update_of_eq hcall hhand) hnone

/-- Any step of a writer, seen from another call. -/
theorem AnswerMove.of_other_writer [Inhabited Response] {b : Nat} {poller : Poller}
    {terminated : Bool} {w' : AsyncClientStreamWriter Tid Request Response} (hc : c ≠ b)
    (hpoller : poller = .unary c .responding ↔ s.poller = .unary c .responding)
    (hnone : ∀ d ∈ s.delivery e, d.call ≠ c) (hidle : ¬ s.Fulfils c e) :
    AnswerMove s e { s with
      streamCalls := Function.update s.streamCalls b (some w')
      poller := poller, terminated := terminated } c := by
  refine .of_views rfl ?_ ?_ hpoller hnone hidle
  · simp [streamAnswer, hc]
  · simp [finishInHand, hc]

theorem AnswerMove.gotStreamAction [DecidableEq Tid] [Inhabited Response] (h : s.Inv) {b id : Nat}
    {ok : Bool} {status : Status} {response : Option Response}
    {w w' : AsyncClientStreamWriter Tid Request Response} (hpoller : s.poller = .idle)
    (hcall : s.streamCalls b = some w) (hstep : w.step (.asyncNext id ok status response) = some w')
    (c : Nat) :
    AnswerMove s (.asyncNext (.streamAction b id) ok status response) { s with
      streamCalls := Function.update s.streamCalls b (some w')
      poller := .writer b } c := by
  have hidle : ¬ s.Fulfils c (.asyncNext (.streamAction b id) ok status response) :=
    not_fulfils fun _ he => by cases he
  have hresponding : Poller.writer b = .unary c .responding ↔ s.poller = .unary c .responding := by
    simp [hpoller]
  have hdelivery : s.delivery (.asyncNext (.streamAction b id) ok status response) =
      if w.returnsFinish id then [⟨b, status, response⟩] else [] := by
    simp [delivery, hcall]
  cases AsyncClientStreamWriter.answer_move (AsyncClientStreamWriter.step_cases hstep).2 with
  | kept hanswer hhand hnone _ =>
      rw [hnone _ _ _ _ rfl] at hdelivery
      exact .of_writer hcall hanswer hhand hresponding (by simp [hdelivery]) hidle
  | stored hfinish hbefore hafter hanswer =>
      rw [hfinish] at hdelivery
      by_cases hc : c = b
      · subst hc
        have hunary : s.unaryCalls c = none :=
          (h.unary_or_stream c).resolve_right (by simp [hcall])
        refine .stored w.owner.answer ⟨c, status, response⟩ (answer_stream hunary hcall) rfl hdelivery
          ?_ (.inr ?_) hidle ?_
        · simp [Arrived, hpoller, finishInHand, hcall, hbefore]
        · simp [finishInHand, hafter]
        · simpa [answer, unaryAnswer, streamAnswer, hunary] using hanswer
      · refine .of_other_writer hc hresponding (fun d hd => ?_) hidle
        rw [hdelivery] at hd
        obtain rfl := List.mem_singleton.mp hd
        exact Ne.symm hc

theorem AnswerMove.writerCompletion [DecidableEq Tid] [Inhabited Response] (h : s.Inv) {b : Nat}
    {run : CallbackRun} {poller : Poller} {w w' : AsyncClientStreamWriter Tid Request Response}
    (hpoller : s.poller = .writer b) (hcall : s.streamCalls b = some w)
    (hstep : w.step .completion = some w') (hnext : poller = .idle ∨ poller = .writer b) (c : Nat) :
    AnswerMove s (.poll run) { s with
      streamCalls := Function.update s.streamCalls b (some w')
      poller := poller, terminated := w'.terminated } c := by
  have hresponding : poller = .unary c .responding ↔ s.poller = .unary c .responding := by
    rcases hnext with rfl | rfl <;> simp [hpoller]
  have hunary : s.unaryCalls b = none := (h.unary_or_stream b).resolve_right (by simp [hcall])
  have hfulfils : s.Fulfils c (.poll run) → c = b ∧ w.FinishArrived ∧
      w.owner.responsePromise = .pending := by
    rintro ⟨-, ⟨a, ha, hpending⟩, hat | ⟨hat, v, hv, harrived⟩⟩
    · simp [hpoller] at hat
    · obtain rfl : b = c := by simpa [hpoller] using hat
      obtain rfl := Option.some.inj (hcall.symm.trans hv)
      obtain rfl := Option.some.inj ((answer_stream hunary hcall).symm.trans ha)
      exact ⟨rfl, harrived, hpending⟩
  cases AsyncClientStreamWriter.answer_move (AsyncClientStreamWriter.step_cases hstep).2 with
  | kept hanswer hhand _ hidle =>
      refine .of_writer hcall hanswer hhand hresponding (List.forall_mem_nil _) fun hf => ?_
      obtain ⟨-, harrived, hpending⟩ := hfulfils hf
      exact hidle rfl harrived hpending
  | fulfilled harrived hpending hafter hanswer =>
      by_cases hc : c = b
      · subst hc
        refine .fulfilled w.owner.answer w'.owner.answer ?_ (answer_stream hunary hcall) hpending ?_ ?_
          ?_ rfl
        · exact ⟨⟨run, rfl⟩, ⟨_, answer_stream hunary hcall, hpending⟩,
            .inr ⟨hpoller, w, hcall, harrived⟩⟩
        · exact .inr (by simp [finishInHand, hcall, AsyncClientStreamWriter.finishInHand_of_arrived harrived])
        · simp [answer, unaryAnswer, streamAnswer, hunary]
        · rw [hanswer, fulfilment, if_pos (.inl hpoller)]
      · exact .of_other_writer hc hresponding (List.forall_mem_nil _) fun hf => hc (hfulfils hf).1

theorem setResponse_answer {call call' : AsyncUnaryCall Response}
    (hset : call.setResponse = some call') :
    call.responsePromise = .pending ∧ call'.responsePromise =
      if call.status.ok = true then .value call.response else .exception (.new call.status) := by
  unfold AsyncUnaryCall.setResponse at hset
  split at hset
  · rename_i hok
    obtain ⟨p, hp, rfl⟩ := Option.map_eq_some_iff.mp hset
    rw [if_pos hok]
    exact Promise.setValue_eq_some_iff.mp hp
  · rename_i hnotOk
    obtain ⟨p, hp, rfl⟩ := Option.map_eq_some_iff.mp hset
    rw [if_neg hnotOk]
    exact Promise.setException_eq_some_iff.mp hp

theorem setResponse_isSome {call : AsyncUnaryCall Response} (h : call.responsePromise = .pending) :
    call.setResponse ≠ none := by
  unfold AsyncUnaryCall.setResponse
  split <;> simp [h, Promise.setValue_pending, Promise.setException_pending]

theorem answer_move [DecidableEq Tid] [Inhabited Response] (h : s.Inv) (hmove : Move s e s')
    (c : Nat) : AnswerMove s e s' c := by
  cases hmove with
  | callUnary => exact .newUnaryCall h _ _ c
  | callClientStream => exact .newStreamCall h c
  | createWriter _ _ =>
      exact .congr (not_fulfils fun _ he => by cases he) Iff.rfl rfl (map_map_update_of_eq _ fun _ => rfl)
        (map_map_update_of_eq _ fun _ => rfl)
  | installOwner _ =>
      exact .congr (not_fulfils fun _ he => by cases he) Iff.rfl (map_map_update_of_eq _ fun _ => rfl)
        (map_map_update_of_eq _ fun _ => rfl) (map_map_update_of_eq _ fun _ => rfl)
  | addStreamingCall _ | returned _ | dropRef | runCallback _ =>
      exact .congr (not_fulfils fun _ he => by cases he) Iff.rfl
  | @gotUnaryFinish b ok status response call hpoller htag hcall =>
      have hidle : ¬ s.Fulfils c (.asyncNext (.unaryFinish b) ok status response) :=
        not_fulfils fun _ he => by cases he
      by_cases hc : c = b
      · subst hc
        have hstream : s.streamCalls c = none :=
          (h.unary_or_stream c).resolve_left (by simp [hcall])
        refine .stored call.answer ⟨c, status, response⟩ (answer_unary hcall) rfl rfl ?_ (.inl rfl)
          hidle ?_
        · simp [Arrived, hpoller, finishInHand, hstream]
        · simp [answer, unaryAnswer, AsyncUnaryCall.answer]
      · refine .of_views ?_ rfl rfl ?_ (fun d hd => ?_) hidle
        · simp [unaryAnswer, hc]
        · simp [hpoller, Ne.symm hc]
        · obtain rfl := List.mem_singleton.mp hd
          exact Ne.symm hc
  | gotCallStart hpoller _ =>
      exact .congr (not_fulfils fun _ he => by cases he) (by simp [hpoller])
  | gotStreamAction hpoller hcall hstep => exact .gotStreamAction h hpoller hcall hstep c
  | @responded b run call call' hpoller hcall hset =>
      obtain ⟨hpending, hpromise⟩ := setResponse_answer hset
      by_cases hc : c = b
      · subst hc
        refine .fulfilled call.answer call'.answer ?_ (answer_unary hcall) hpending (.inl hpoller) ?_ ?_
          rfl
        · exact ⟨⟨run, rfl⟩, ⟨_, answer_unary hcall, hpending⟩, .inl hpoller⟩
        · simp [answer, unaryAnswer]
        · have hfulfilment : s.fulfilment c call.answer = if call.status.ok = true then
              .value call.response else .exception (.new call.status) := by
            simp [fulfilment, hpoller, AsyncUnaryCall.answer]
          exact hpromise.trans hfulfilment.symm
      · refine .of_views ?_ rfl rfl ?_ (List.forall_mem_nil _) ?_
        · simp [unaryAnswer, hc]
        · simp [hpoller, Ne.symm hc]
        · rintro ⟨-, -, hat | ⟨hat, -⟩⟩
          · exact hc (by simpa [hpoller, eq_comm] using hat)
          · simp [hpoller] at hat
  | @futureError b run call hpoller hcall hset =>
      refine .congr ?_ Iff.rfl
      rintro ⟨-, ⟨a, ha, hpending⟩, hat | ⟨hat, -⟩⟩
      · obtain rfl : b = c := by simpa [hpoller] using hat
        obtain rfl := Option.some.inj ((answer_unary hcall).symm.trans ha)
        exact setResponse_isSome hpending hset
      · simp [hpoller] at hat
  | @calledBack b run call hpoller hcall =>
      obtain ⟨hstream, -⟩ := responseCallback_others b call run s
      refine .congr ?_ (by simp [hpoller]) ?_ ?_ ?_
      · rintro ⟨-, -, hat | ⟨hat, -⟩⟩ <;> simp [hpoller] at hat
      · simp only [responseCallback]
        split
        · exact map_update_of_eq hcall rfl
        · rfl
      · funext b
        simp only [streamAnswer, hstream]
      · funext b
        simp only [finishInHand, hstream]
  | sharedFromThis hpoller _ _ | badWeakPtr hpoller _ _ | onCallDead hpoller | released hpoller
  | streamWriterReadyTwice hpoller _ _ =>
      refine .congr ?_ (by simp [hpoller])
      rintro ⟨-, -, hat | ⟨hat, -⟩⟩ <;> simp [hpoller] at hat
  | streamWriterReady hpoller hcall hset =>
      obtain ⟨p, -, rfl⟩ := Option.map_eq_some_iff.mp hset
      refine .of_writer hcall rfl rfl (by simp [hpoller]) (List.forall_mem_nil _) ?_
      rintro ⟨-, -, hat | ⟨hat, -⟩⟩ <;> simp [hpoller] at hat
  | writerCompletion hpoller hcall hstep hnext => exact .writerCompletion h hpoller hcall hstep hnext c
  | @writer b f w w' hcall hmay hstep =>
      have hidle : ¬ s.Fulfils c (.writer b f) := not_fulfils fun _ he => by cases he
      cases AsyncClientStreamWriter.answer_move (AsyncClientStreamWriter.step_cases hstep).2 with
      | kept hanswer hhand _ _ =>
          exact .of_writer hcall hanswer hhand Iff.rfl (List.forall_mem_nil _) hidle
      | stored _ _ _ _ | fulfilled _ _ _ _ => cases hmay

section Log

variable {log log' : List (Delivered Response)}

/-- A promise agrees with the log: it holds the message of an OK call or the error of a failed one, or
nothing was stored that the polling thread is past. -/
def TellsTruth (s : AsyncClient Tid Request Response) (log : List (Delivered Response)) (c : Nat) :
    Promise Response AsyncCallError → Prop
  | .pending => s.Arrived c ∨ ∀ d ∈ log, d.call ≠ c
  | .value r => ∃ d ∈ log, d.call = c ∧ d.status.ok = true ∧ d.response = some r
  | .exception e => ∃ d ∈ log, d.call = c ∧ d.status.ok = false ∧ e = .new d.status

def ResponsesTell (s : AsyncClient Tid Request Response × List (Delivered Response)) : Prop :=
  ∀ c a, s.1.answer c = some a → s.1.TellsTruth s.2 c a.promise

/-- A stream call whose promise is fulfilled has ended with OK, and a call that ended with OK has got
its message. -/
def FulfilsTruthfully (s : AsyncClient Tid Request Response × List (Delivered Response))
    (e : Event Tid Request Response) : Prop :=
  ∀ d ∈ s.2, s.1.Fulfils d.call e →
    (s.1.poller = .writer d.call → d.status.ok = true) ∧ (d.status.ok = true → d.response.isSome)

structure LogOk [Inhabited Response]
    (s : AsyncClient Tid Request Response × List (Delivered Response)) : Prop where
  inv : s.1.Inv
  allocated : ∀ d ∈ s.2, d.call < s.1.nextCall
  pending : ∀ c a, s.1.answer c = some a → a.promise = .pending →
    (¬ s.1.Arrived c ∧ a.response = default ∧ ∀ d ∈ s.2, d.call ≠ c) ∨
    (s.1.Arrived c ∧ ∃ d ∈ s.2, d.call = c ∧ a.status = d.status ∧
      a.response = d.response.getD default ∧ ∀ d' ∈ s.2, d'.call = c → d' = d)

theorem Inv.lt_of_answer (h : s.Inv) {a : Answer Response} (ha : s.answer c = some a) :
    c < s.nextCall := by
  cases hunary : s.unaryCalls c with
  | some call => exact (h.calls.unary (by rw [hunary]; rfl)).1
  | none =>
      cases hstream : s.streamCalls c with
      | some w => exact (h.calls.stream (by rw [hstream]; rfl)).1
      | none => simp [answer, unaryAnswer, streamAnswer, hunary, hstream] at ha

theorem fulfilment_ne_pending (s : AsyncClient Tid Request Response) (c : Nat)
    (a : Answer Response) : s.fulfilment c a ≠ .pending := by
  unfold fulfilment
  split <;> nofun

theorem forall_mem_append_ne (hold : ∀ d ∈ log, d.call ≠ c) (hnew : ∀ d ∈ log', d.call ≠ c) :
    ∀ d ∈ log ++ log', d.call ≠ c := fun d hd =>
  (List.mem_append.mp hd).elim (hold d) (hnew d)

variable [DecidableEq Tid] [Inhabited Response]

theorem LogOk.allocated_move (h : LogOk (s, log)) (hmove : Move s e s') :
    ∀ d ∈ log ++ s.delivery e, d.call < s'.nextCall := by
  intro d hd
  refine Nat.lt_of_lt_of_le ?_ (nextCall_move hmove)
  cases List.mem_append.mp hd with
  | inl hold => exact h.allocated d hold
  | inr hnew =>
      cases answer_move h.inv hmove d.call with
      | kept _ _ hnone _ => exact absurd rfl (hnone d hnew)
      | started _ _ _ hnone _ | fulfilled _ _ _ _ _ _ _ _ hnone =>
          rw [hnone] at hnew
          cases hnew
      | stored a _ hbefore _ _ _ _ _ _ => exact h.inv.lt_of_answer hbefore

theorem LogOk.pending_move (h : LogOk (s, log)) (hmove : Move s e s') {a : Answer Response}
    (ha : s'.answer c = some a) (hpending : a.promise = .pending) :
    (¬ s'.Arrived c ∧ a.response = default ∧ ∀ d ∈ log ++ s.delivery e, d.call ≠ c) ∨
    (s'.Arrived c ∧ ∃ d ∈ log ++ s.delivery e, d.call = c ∧ a.status = d.status ∧
      a.response = d.response.getD default ∧ ∀ d' ∈ log ++ s.delivery e, d'.call = c → d' = d) := by
  cases answer_move h.inv hmove c with
  | kept hanswer harrived hnone _ =>
      rw [harrived]
      rw [hanswer] at ha
      rcases h.pending c a ha hpending with ⟨hnot, hdefault, hlog⟩ | ⟨hat, d, hd, hcall, hrest⟩
      · exact .inl ⟨hnot, hdefault, forall_mem_append_ne hlog hnone⟩
      · refine .inr ⟨hat, d, List.mem_append_left _ hd, hcall, hrest.1, hrest.2.1, fun d' hd' hc => ?_⟩
        refine hrest.2.2 d' ((List.mem_append.mp hd').resolve_right fun hnew => ?_) hc
        exact hnone d' hnew hc
  | started hnew hanswer harrived hnone _ =>
      obtain rfl := Option.some.inj (hanswer.symm.trans ha)
      refine .inl ⟨harrived, rfl, ?_⟩
      rw [hnone, List.append_nil]
      exact fun d hd => Nat.ne_of_lt (hnew ▸ h.allocated d hd)
  | stored b d hbefore hcall hdelivery hnot harrived _ hanswer =>
      obtain rfl := Option.some.inj (hanswer.symm.trans ha)
      rcases h.pending c b hbefore hpending with ⟨-, hdefault, hlog⟩ | ⟨hat, -⟩
      · rw [hdelivery]
        refine .inr ⟨harrived, d, List.mem_append_right _ List.mem_cons_self, hcall, rfl, ?_,
          fun d' hd' hc => ?_⟩
        · exact congrArg d.response.getD hdefault
        · cases List.mem_append.mp hd' with
          | inl hold => exact absurd hc (hlog d' hold)
          | inr hnew => exact List.mem_singleton.mp hnew
      · exact absurd hat hnot
  | fulfilled b b' _ _ _ _ hafter hpromise _ =>
      obtain rfl := Option.some.inj (hafter.symm.trans ha)
      exact absurd (hpromise.symm.trans hpending) (s.fulfilment_ne_pending c b)

omit [DecidableEq Tid] [Inhabited Response] in
theorem TellsTruth.mono {p : Promise Response AsyncCallError} (h : s.TellsTruth log c p)
    (hsub : log ⊆ log') (hpending : p = .pending → s'.TellsTruth log' c p) :
    s'.TellsTruth log' c p := by
  cases p with
  | pending => exact hpending rfl
  | value r =>
      obtain ⟨d, hd, hrest⟩ := h
      exact ⟨d, hsub hd, hrest⟩
  | exception e =>
      obtain ⟨d, hd, hrest⟩ := h
      exact ⟨d, hsub hd, hrest⟩

omit [DecidableEq Tid] in
/-- The promise of `c` is fulfilled with what gRPC stored in its one delivery. -/
theorem LogOk.tellsTruth_fulfilment_iff (h : LogOk (s, log)) {a : Answer Response}
    (ha : s.answer c = some a) (hpending : a.promise = .pending) (harrived : s.Arrived c) :
    s'.TellsTruth log c (s.fulfilment c a) ↔ ∀ d ∈ log, d.call = c →
      (s.poller = .writer c → d.status.ok = true) ∧ (d.status.ok = true → d.response.isSome) := by
  rcases h.pending c a ha hpending with ⟨hnot, -⟩ | ⟨-, d, hd, hcall, hstatus, hresponse, hone⟩
  · exact absurd harrived hnot
  have hall : ∀ {P : Delivered Response → Prop}, (∀ d' ∈ log, d'.call = c → P d') ↔ P d := by
    intro P
    exact ⟨fun hP => hP d hd hcall, fun hP d' hd' hc => hone d' hd' hc ▸ hP⟩
  rw [hall]
  unfold fulfilment
  split
  · rename_i hvalue
    constructor
    · rintro ⟨d', hd', hc, hok, hsome⟩
      obtain rfl := hone d' hd' hc
      exact ⟨fun _ => hok, fun _ => by rw [hsome]; rfl⟩
    · rintro ⟨hok, hsome⟩
      have hok' : d.status.ok = true := hvalue.elim hok fun hok => hstatus ▸ hok
      obtain ⟨r, hr⟩ := Option.isSome_iff_exists.mp (hsome hok')
      refine ⟨d, hd, hcall, hok', ?_⟩
      rw [hresponse, hr]
      rfl
  · rename_i hexception
    push Not at hexception
    have hfailed : d.status.ok = false := by
      rw [← hstatus]
      exact eq_false_of_ne_true hexception.2
    refine iff_of_true ⟨d, hd, hcall, hfailed, congrArg _ hstatus⟩ ⟨fun hat => ?_, fun hok => ?_⟩
    · exact absurd hat hexception.1
    · rw [hfailed] at hok
      cases hok

theorem responsesTell_move_iff (h : LogOk (s, log)) (htell : ResponsesTell (s, log))
    (hmove : Move s e s') :
    ResponsesTell (s', log ++ s.delivery e) ↔ FulfilsTruthfully (s, log) e := by
  constructor
  · intro htell' d hd hfulfils
    cases answer_move h.inv hmove d.call with
    | kept _ _ _ hidle | started _ _ _ _ hidle | stored _ _ _ _ _ _ _ hidle _ =>
        exact absurd hfulfils hidle
    | fulfilled a a' _ hbefore hpending harrived hafter hpromise hnone =>
        have htrue := htell' d.call a' hafter
        rw [hpromise, hnone, List.append_nil] at htrue
        exact (h.tellsTruth_fulfilment_iff hbefore hpending harrived).mp htrue d hd rfl
  · intro hfulfils c a ha
    have hsub : log ⊆ log ++ s.delivery e := List.subset_append_left _ _
    cases answer_move h.inv hmove c with
    | kept hanswer harrived hnone _ =>
        rw [hanswer] at ha
        refine (htell c a ha).mono hsub fun hpending => ?_
        have htrue := htell c a ha
        rw [hpending] at htrue ⊢
        exact htrue.imp harrived.mpr fun hold => forall_mem_append_ne hold hnone
    | started hnew hanswer _ hnone _ =>
        obtain rfl := Option.some.inj (hanswer.symm.trans ha)
        refine .inr ?_
        rw [hnone, List.append_nil]
        exact fun d hd => Nat.ne_of_lt (hnew ▸ h.allocated d hd)
    | stored b d hbefore hcall hdelivery hnot harrived _ hanswer =>
        obtain rfl := Option.some.inj (hanswer.symm.trans ha)
        exact (htell c b hbefore).mono hsub fun hpending => hpending ▸ .inl harrived
    | fulfilled b a' hcfulfils hbefore hpending harrived hafter hpromise hnone =>
        obtain rfl := Option.some.inj (hafter.symm.trans ha)
        rw [hpromise, hnone, List.append_nil, h.tellsTruth_fulfilment_iff hbefore hpending harrived]
        rintro d hd rfl
        exact hfulfils d hd hcfulfils

end Log

section Runs

variable [DecidableEq Tid] [Inhabited Response]

variable (Tid Request Response) in
def deliverySystem : TransitionSystem (AsyncClient Tid Request Response × List (Delivered Response))
    (Event Tid Request Response) :=
  (system Tid Request Response).logged delivery

/-- **Responses.** Along every run all response futures tell the truth exactly when every stream call
whose future is fulfilled has ended with OK, and every call that ended with OK has got its message. -/
theorem responsesTell_iff_fulfilsTruthfully (es : List (Event Tid Request Response)) :
    (deliverySystem Tid Request Response).AllSteps (fun _ _ s' => ResponsesTell s') ({}, []) es ↔
      (deliverySystem Tid Request Response).AllSteps (fun s e _ => FulfilsTruthfully s e)
        ({}, []) es := by
  refine TransitionSystem.allSteps_congr (I := fun s => LogOk s ∧ ResponsesTell s) ?_ ?_ ?_ es
  · rintro ⟨s, log⟩ e ⟨s', log'⟩ ⟨h, htell⟩ hstep
    obtain ⟨hstep, rfl⟩ := TransitionSystem.logged_step_eq_some_iff.mp hstep
    exact responsesTell_move_iff h htell (step_cases hstep).2
  · rintro ⟨s, log⟩ e ⟨s', log'⟩ ⟨h, -⟩ hstep htell'
    obtain ⟨hstep, rfl⟩ := TransitionSystem.logged_step_eq_some_iff.mp hstep
    have hmove := (step_cases hstep).2
    exact ⟨⟨h.inv.move hmove, h.allocated_move hmove, fun c a => h.pending_move hmove⟩, htell'⟩
  · have hnone : ∀ c, answer ({} : AsyncClient Tid Request Response) c = none := fun _ => rfl
    refine ⟨⟨initial_inv .., fun d hd => absurd hd List.not_mem_nil, fun c a ha => ?_⟩, fun c a ha => ?_⟩
    · exact absurd ((hnone c).symm.trans ha) (Option.some_ne_none a).symm
    · exact absurd ((hnone c).symm.trans ha) (Option.some_ne_none a).symm

end Runs

/-- A stream call that could not be started is finished by its user, and the Finish returns with the
status of the call. -/
def failedStream : List (Event Nat String String) :=
  [.callClientStream, .frame 0, .frame 0, .frame 0, .frame 0,
    .asyncNext (.callStart 0) false .OK none, .poll .returned,
    .writer 0 (.finish 1), .writer 0 (.tryPerformAction 1),
    .asyncNext (.streamAction 0 0) true { errorCode := .unavailable, errorMessage := "refused" } none,
    .poll .returned, .poll .returned]

theorem failedStream_yields_default :
    ∃ s, (deliverySystem Nat String String).run ({}, [])
        (failedStream ++ [.poll .returned]) = some s ∧
      s.2 = [⟨0, { errorCode := .unavailable, errorMessage := "refused" }, none⟩] ∧
      (s.1.answer 0).map (·.promise) = some (.value default) ∧
      ¬ (deliverySystem Nat String String).AllSteps (fun _ _ s' => ResponsesTell s') ({}, [])
        (failedStream ++ [.poll .returned]) := by
  have hrun : ∃ s s', (deliverySystem Nat String String).run ({}, []) failedStream = some s ∧
      (deliverySystem Nat String String).step s (.poll .returned) = some s' ∧
      s'.2 = [⟨0, { errorCode := .unavailable, errorMessage := "refused" }, none⟩] ∧
      ∃ a, s'.1.answer 0 = some a ∧ a.promise = .value default :=
    ⟨_, _, rfl, rfl, rfl, _, rfl, rfl⟩
  obtain ⟨s, s', hrun, hstep, hlog, a, ha, hpromise⟩ := hrun
  refine ⟨s', ?_, hlog, by rw [ha, Option.map_some, hpromise], fun hall => ?_⟩
  · rw [TransitionSystem.run_append, hrun, Option.bind_some]
    simpa [TransitionSystem.run] using hstep
  · have htrue := hall.last hrun hstep 0 a ha
    rw [hpromise, hlog] at htrue
    obtain ⟨d, hd, -, hok, -⟩ := htrue
    obtain rfl := List.mem_singleton.mp hd
    cases hok

end AsyncClient

end EasyGrpc.Client

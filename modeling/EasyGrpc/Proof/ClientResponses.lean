import EasyGrpc.Proof.ClientInvariant

/-!
# The responses of unary calls

The response future of a call is pending until the polling thread fulfils it, once, with what gRPC
stored for that call. The response callback is taken out of the call when it is dispatched, which is
after that.
-/

namespace EasyGrpc.Client.AsyncClient

variable {Tid Request Response : Type}

def unaryView (s : AsyncClient Tid Request Response) (c : Nat) : Option (AsyncUnaryCall Response) :=
  (s.unaryCalls c).map fun call => { call with weakThis := false }

/-- The promise holds what gRPC delivered for the call: the response if the status was OK, and else
the error with that status. -/
def Truthful (s : AsyncClient Tid Request Response) (c : Nat) :
    Promise Response AsyncCallError → Prop
  | .pending => True
  | .value r => ∃ d ∈ s.delivered, d.call = c ∧ d.status.ok = true ∧ ∃ x, r = d.response.getD x
  | .exception e => ∃ d ∈ s.delivered, d.call = c ∧ d.status.ok = false ∧ e = .new d.status

def callbackCount (s : AsyncClient Tid Request Response) (c : Nat) : Nat :=
  (s.callbackTasks ++ s.callbackRuns).count c

def FinalizeStage.Later (stage : FinalizeStage) : Prop :=
  stage ≠ .responding ∧ stage ≠ .callingBack

structure AnswerOk (s : AsyncClient Tid Request Response) (c : Nat)
    (call : AsyncUnaryCall Response) : Prop where
  pending : (.unaryFinish c ∈ s.tags ∨ s.poller = .unary c .responding) →
    call.responsePromise = .pending
  stored : s.poller = .unary c .responding → ∃ d ∈ s.delivered, d.call = c ∧
    call.status = d.status ∧ ∃ x, call.response = d.response.getD x
  truthful : s.Truthful c call.responsePromise
  fulfilled : (s.poller = .unary c .callingBack ∨ 0 < s.callbackCount c) →
    call.responsePromise.Fulfilled
  callbackOnce : s.callbackCount c ≤ 1
  callbackUnused : call.hasResponseCallback = true → s.callbackCount c = 0

structure ResponseOk (s : AsyncClient Tid Request Response) (c : Nat) : Prop where
  answer : ∀ call, s.unaryView c = some call → s.AnswerOk c call
  fresh : s.unaryView c = none → s.poller ≠ .unary c .callingBack ∧ s.callbackCount c = 0

structure Responses (s : AsyncClient Tid Request Response) : Prop where
  requestsNodup : (s.requests.map Prod.fst).Nodup
  requestsAllocated : ∀ p ∈ s.requests, p.1 < s.nextCall
  calls : ∀ c, s.ResponseOk c

section Steps

variable {s s' : AsyncClient Tid Request Response} {c : Nat}

theorem Truthful.mono {p : Promise Response AsyncCallError} (h : s.Truthful c p)
    (hdelivered : ∀ d ∈ s.delivered, d ∈ s'.delivered) : s'.Truthful c p := by
  cases p with
  | pending => trivial
  | value r =>
      obtain ⟨d, hd, hrest⟩ := h
      exact ⟨d, hdelivered d hd, hrest⟩
  | exception e =>
      obtain ⟨d, hd, hrest⟩ := h
      exact ⟨d, hdelivered d hd, hrest⟩

theorem ResponseOk.answerOk (h : s.ResponseOk c) {call : AsyncUnaryCall Response}
    (hcall : s.unaryCalls c = some call) : s.AnswerOk c call := by
  have hview : s.unaryView c = some { call with weakThis := false } := by
    rw [unaryView, hcall]
    rfl
  exact { h.answer _ hview with }

theorem AnswerOk.responseOk (call : AsyncUnaryCall Response) (h : s.AnswerOk c call)
    (hcall : s.unaryCalls c = some call) : s.ResponseOk c := by
  have hview : s.unaryView c = some { call with weakThis := false } := by
    rw [unaryView, hcall]
    rfl
  refine ⟨fun v hv => ?_, fun hnone => ?_⟩
  · obtain rfl := Option.some.inj (hview.symm.trans hv)
    exact { h with }
  · rw [hview] at hnone
    cases hnone

/-- A step that is not about the call `c`. -/
theorem ResponseOk.congr (h : s.ResponseOk c) (hview : s'.unaryView c = s.unaryView c)
    (htags : .unaryFinish c ∈ s'.tags → .unaryFinish c ∈ s.tags)
    (hpoller : s'.poller = s.poller ∨ ∀ stage, s'.poller = .unary c stage → stage.Later)
    (hdelivered : ∀ d ∈ s.delivered, d ∈ s'.delivered)
    (hcount : s'.callbackCount c = s.callbackCount c) : s'.ResponseOk c := by
  have hresponding : s'.poller = .unary c .responding → s.poller = .unary c .responding := by
    intro hat
    exact (hpoller.resolve_right fun hlater => (hlater _ hat).1 rfl) ▸ hat
  have hcallingBack : s'.poller = .unary c .callingBack → s.poller = .unary c .callingBack := by
    intro hat
    exact (hpoller.resolve_right fun hlater => (hlater _ hat).2 rfl) ▸ hat
  refine ⟨fun call hcall => ?_, fun hnone => ?_⟩
  · obtain ⟨hpending, hstored, htruthful, hfulfilled, honce, hunused⟩ := h.answer call (hview ▸ hcall)
    rw [← hcount] at hfulfilled honce hunused
    refine ⟨fun hor => hpending (hor.imp htags hresponding), fun hat => ?_,
      htruthful.mono hdelivered, fun hor => hfulfilled (hor.imp_left hcallingBack), honce, hunused⟩
    obtain ⟨d, hd, hrest⟩ := hstored (hresponding hat)
    exact ⟨d, hdelivered d hd, hrest⟩
  · rw [hview] at hnone
    rw [hcount]
    exact ⟨fun hat => (h.fresh hnone).1 (hcallingBack hat), (h.fresh hnone).2⟩

theorem Responses.congr (h : s.Responses)
    (hpoller : s'.poller = s.poller ∨ ∀ c stage, s'.poller = .unary c stage → stage.Later)
    (htags : ∀ c, .unaryFinish c ∈ s'.tags → .unaryFinish c ∈ s.tags := by exact fun _ ht => ht)
    (hview : s'.unaryView = s.unaryView := by rfl)
    (hcount : s'.callbackCount = s.callbackCount := by rfl)
    (hrequests : s'.requests = s.requests := by rfl)
    (hnext : s.nextCall ≤ s'.nextCall := by exact Nat.le_refl _)
    (hdelivered : s'.delivered = s.delivered := by rfl) : s'.Responses where
  requestsNodup := hrequests ▸ h.requestsNodup
  requestsAllocated p hp := Nat.lt_of_lt_of_le (h.requestsAllocated p (hrequests ▸ hp)) hnext
  calls c := (h.calls c).congr (congrFun hview c) (htags c) (hpoller.imp_right fun hor => hor c)
    (fun _ hd => hdelivered ▸ hd) (congrFun hcount c)

theorem Responses.update (h : s.Responses) (c₀ : Nat)
    (hothers : ∀ c, c ≠ c₀ → s'.unaryView c = s.unaryView c ∧
      s'.callbackCount c = s.callbackCount c)
    (htags : ∀ t ∈ s'.tags, t ∈ s.tags)
    (hpoller : ∀ c, c ≠ c₀ → ∀ stage, s'.poller ≠ .unary c stage)
    (hdelivered : ∀ d ∈ s.delivered, d ∈ s'.delivered) (hself : s'.ResponseOk c₀)
    (hrequests : s'.requests = s.requests := by rfl)
    (hnext : s'.nextCall = s.nextCall := by rfl) : s'.Responses := by
  refine ⟨hrequests ▸ h.requestsNodup, fun p hp => ?_, fun c => ?_⟩
  · rw [hnext]
    exact h.requestsAllocated p (hrequests ▸ hp)
  · by_cases hc : c = c₀
    · exact hc ▸ hself
    · obtain ⟨hview, hcount⟩ := hothers c hc
      exact (h.calls c).congr hview (htags _)
        (.inr fun stage hat => absurd hat (hpoller c hc stage)) hdelivered hcount

theorem unaryView_update_of_ne {b : Nat} (call : AsyncUnaryCall Response) (hb : b ≠ c) :
    (Function.update s.unaryCalls c (some call) b).map
      (fun call => { call with weakThis := false }) = s.unaryView b := by
  rw [Function.update_of_ne hb]
  rfl

theorem Responses.newUnaryCall [Inhabited Response] (h : s.Responses) (hinv : s.Inv)
    (request : Request) (hasCallback : Bool) : (s.newUnaryCall request hasCallback).Responses := by
  refine ⟨?_, ?_, fun c => ?_⟩
  · have hfresh : s.nextCall ∉ s.requests.map Prod.fst := by
      intro hmem
      obtain ⟨p, hp, hcall⟩ := List.mem_map.mp hmem
      exact Nat.lt_irrefl _ (hcall ▸ h.requestsAllocated p hp)
    simp only [AsyncClient.newUnaryCall, List.map_append, List.map_cons, List.map_nil]
    exact (List.nodup_cons.mpr ⟨hfresh, h.requestsNodup⟩).perm (List.perm_append_singleton _ _).symm
  · intro p hp
    have hor : p ∈ s.requests ∨ p = (s.nextCall, request) := by
      simpa [AsyncClient.newUnaryCall] using hp
    cases hor with
    | inl hold => exact Nat.lt_succ_of_lt (h.requestsAllocated p hold)
    | inr hnew => exact hnew ▸ Nat.lt_succ_self _
  · by_cases hc : c = s.nextCall
    · subst hc
      have hnone : s.unaryView s.nextCall = none := by
        have hfresh := hinv.calls.fresh.1
        rw [weakThis, Option.map_eq_none_iff] at hfresh
        rw [unaryView, hfresh]
        rfl
      obtain ⟨hpoller, hzero⟩ := (h.calls s.nextCall).fresh hnone
      have hidle : s.poller ≠ .unary s.nextCall .responding := by
        intro hat
        obtain ⟨hsome, -⟩ := hinv.completing.finalizing (c := s.nextCall) (by rw [hat]; rfl)
        exact Nat.lt_irrefl _ (hinv.calls.unary hsome).1
      refine AnswerOk.responseOk { response := default, hasResponseCallback := hasCallback }
        ⟨fun _ => rfl, fun hat => absurd hat hidle, trivial, fun hor => ?_, ?_, fun _ => hzero⟩
        (Function.update_self ..)
      · cases hor with
        | inl hat => exact absurd hat hpoller
        | inr hcount => exact absurd hzero (Nat.ne_of_gt hcount)
      · exact hzero ▸ Nat.zero_le 1
    · refine (h.calls c).congr (unaryView_update_of_ne _ hc) (fun hmem => ?_) (.inl rfl)
        (fun _ hd => hd) rfl
      simpa [AsyncClient.newUnaryCall, hc] using hmem

theorem Responses.gotUnaryFinish (h : s.Responses) {status : Status} {response : Option Response}
    {call : AsyncUnaryCall Response} (htag : .unaryFinish c ∈ s.tags)
    (hcall : s.unaryCalls c = some call) :
    Responses { s with
      tags := s.tags.erase (.unaryFinish c)
      unaryCalls := Function.update s.unaryCalls c
        (some { call with status := status, response := response.getD call.response })
      delivered := s.delivered ++ [⟨c, status, response⟩]
      poller := .unary c .responding } := by
  have hold := (h.calls c).answerOk hcall
  have hpending := hold.pending (.inl htag)
  refine h.update c (fun b hb => ⟨unaryView_update_of_ne _ hb, rfl⟩)
    (fun t ht => List.mem_of_mem_erase ht) (fun b hb stage => by simp [hb.symm])
    (fun d hd => List.mem_append_left _ hd) ?_
  refine AnswerOk.responseOk
    { call with status := status, response := response.getD call.response }
    ⟨fun _ => hpending, fun _ => ?_, ?_, fun hor => ?_, hold.callbackOnce, hold.callbackUnused⟩
    (Function.update_self ..)
  · exact ⟨_, List.mem_append_right _ List.mem_cons_self, rfl, rfl, call.response, rfl⟩
  · exact hold.truthful.mono fun d hd => List.mem_append_left _ hd
  · exact hold.fulfilled (.inr (hor.resolve_left fun hat => by cases hat))

/-- The promise was pending and holds what gRPC stored; the callback is still there. -/
theorem AnswerOk.setResponse {call call' : AsyncUnaryCall Response} (h : s.AnswerOk c call)
    (hpoller : s.poller = .unary c .responding) (hset : call.setResponse = some call') :
    call'.hasResponseCallback = call.hasResponseCallback ∧ call'.responsePromise.Fulfilled ∧
      s.Truthful c call'.responsePromise := by
  obtain ⟨d, hd, hdcall, hstatus, x, hresponse⟩ := h.stored hpoller
  unfold AsyncUnaryCall.setResponse at hset
  split at hset
  · rename_i hok
    obtain ⟨p, hp, rfl⟩ := Option.map_eq_some_iff.mp hset
    obtain ⟨-, rfl⟩ := Promise.setValue_eq_some_iff.mp hp
    exact ⟨rfl, Promise.fulfilled_value _, d, hd, hdcall, hstatus ▸ hok, x, hresponse⟩
  · rename_i hnotOk
    obtain ⟨p, hp, rfl⟩ := Option.map_eq_some_iff.mp hset
    obtain ⟨-, rfl⟩ := Promise.setException_eq_some_iff.mp hp
    refine ⟨rfl, Promise.fulfilled_exception _, d, hd, hdcall, ?_, congrArg _ hstatus⟩
    rw [← hstatus]
    exact eq_false_of_ne_true hnotOk

theorem Responses.responded (h : s.Responses) (hinv : s.Inv) {call call' : AsyncUnaryCall Response}
    (hpoller : s.poller = .unary c .responding) (hcall : s.unaryCalls c = some call)
    (hset : call.setResponse = some call') :
    Responses { s with
      unaryCalls := Function.update s.unaryCalls c (some call')
      poller := .unary c .callingBack } := by
  have hold := (h.calls c).answerOk hcall
  obtain ⟨hcallback, hfulfilled, htruthful⟩ := hold.setResponse hpoller hset
  obtain ⟨-, hgone, -⟩ := hinv.completing.finalizing (c := c) (by rw [hpoller]; rfl)
  refine h.update c (fun b hb => ⟨unaryView_update_of_ne _ hb, rfl⟩) (fun _ ht => ht)
    (fun b hb stage => by simp [hb.symm]) (fun _ hd => hd) ?_
  refine AnswerOk.responseOk call' ⟨fun hor => ?_, fun hat => (by cases hat), htruthful,
    fun _ => hfulfilled, hold.callbackOnce, fun hhas => ?_⟩ (Function.update_self ..)
  · exact absurd (hor.resolve_right fun hat => by cases hat) hgone
  · exact hold.callbackUnused (hcallback ▸ hhas)

theorem responseCallback_requests (c : Nat) (call : AsyncUnaryCall Response) (run : CallbackRun)
    (s : AsyncClient Tid Request Response) :
    (s.responseCallback c call run).requests = s.requests ∧
      (s.responseCallback c call run).delivered = s.delivered := by
  unfold responseCallback
  split <;> exact ⟨rfl, rfl⟩

theorem callbackCount_responseCallback (call : AsyncUnaryCall Response) (run : CallbackRun)
    (hcall : call.hasResponseCallback = true) (b : Nat) :
    (s.responseCallback c call run).callbackCount b =
      s.callbackCount b + if c = b then 1 else 0 := by
  simp only [callbackCount, responseCallback, hcall, if_true]
  split <;> simp only [List.count_append, List.count_singleton, beq_iff_eq] <;> omega

theorem Responses.calledBack (h : s.Responses) {call : AsyncUnaryCall Response} {run : CallbackRun}
    (hpoller : s.poller = .unary c .callingBack) (hcall : s.unaryCalls c = some call) :
    Responses { s.responseCallback c call run with poller := .unary c .sharing } := by
  by_cases hhas : call.hasResponseCallback = true
  · have hold := (h.calls c).answerOk hcall
    have hcount := callbackCount_responseCallback (s := s) (c := c) call run hhas
    have hcalls : (s.responseCallback c call run).unaryCalls =
        Function.update s.unaryCalls c (some call.takeResponseCallback) := by
      rw [responseCallback, if_pos hhas]
    obtain ⟨-, -, hnext, -, htags, -⟩ := responseCallback_others c call run s
    obtain ⟨hrequests, hdelivered⟩ := responseCallback_requests c call run s
    refine h.update c (fun b hb => ⟨?_, ?_⟩) (fun _ ht => htags ▸ ht)
      (fun b hb stage => by simp [hb.symm]) (fun _ hd => hdelivered ▸ hd) ?_ hrequests hnext
    · rw [unaryView, hcalls]
      exact unaryView_update_of_ne _ hb
    · have hsame := hcount b
      rwa [if_neg hb.symm] at hsame
    · refine AnswerOk.responseOk call.takeResponseCallback ⟨fun hor => ?_,
        fun hat => (by cases hat), hold.truthful.mono fun _ hd => hdelivered ▸ hd,
        fun _ => hold.fulfilled (.inl hpoller), ?_, fun hkept => (by cases hkept)⟩ ?_
      · exact hold.pending (.inl (htags ▸ hor.resolve_right fun hat => by cases hat))
      · have hone := hcount c
        rw [hold.callbackUnused hhas, if_pos rfl] at hone
        exact Nat.le_of_eq hone
      · rw [hcalls, Function.update_self]
  · rw [responseCallback, if_neg hhas]
    refine h.congr (.inr fun b stage hat => ?_)
    cases hat
    exact ⟨by decide, by decide⟩

theorem Responses.runCallback (h : s.Responses) (htask : c ∈ s.callbackTasks) :
    Responses { s with
      callbackTasks := s.callbackTasks.erase c
      callbackRuns := s.callbackRuns ++ [c] } := by
  have hperm : (s.callbackTasks.erase c ++ (s.callbackRuns ++ [c])).Perm
      (s.callbackTasks ++ s.callbackRuns) := by
    calc
      (s.callbackTasks.erase c ++ (s.callbackRuns ++ [c])).Perm
          (s.callbackTasks.erase c ++ (c :: s.callbackRuns)) :=
        (List.perm_append_singleton c _).append_left _
      List.Perm _ (c :: (s.callbackTasks.erase c ++ s.callbackRuns)) := List.perm_middle
      List.Perm _ (s.callbackTasks ++ s.callbackRuns) :=
        (List.perm_cons_erase htask).symm.append_right _
  refine h.congr (.inl rfl) (fun _ ht => ht) rfl ?_
  funext b
  exact hperm.count_eq b

theorem Responses.move [DecidableEq Tid] [Inhabited Response] {e : Event Tid Request Response}
    (h : s.Responses) (hinv : s.Inv) (hmove : Move s e s') : s'.Responses := by
  cases hmove with
  | callUnary => exact h.newUnaryCall hinv _ _
  | callClientStream =>
      refine h.congr (.inl rfl) (fun c hc => ?_) rfl rfl rfl (Nat.le_succ _)
      simpa [newStreamCall] using hc
  | installOwner _ =>
      exact h.congr (.inl rfl) (fun _ ht => ht) (map_map_update_of_eq _ fun _ => rfl)
  | createWriter _ _ | addStreamingCall _ | returned _ | dropRef | futureError _ _ _
  | badWeakPtr _ _ _ | streamWriterReadyTwice _ _ _ | writer _ _ _ => exact h.congr (.inl rfl)
  | gotUnaryFinish _ htag hcall => exact h.gotUnaryFinish htag hcall
  | gotCallStart _ _ =>
      refine h.congr (.inr fun b stage hat => ?_) fun _ ht => List.mem_of_mem_erase ht
      cases hat
  | responded hpoller hcall hset => exact h.responded hinv hpoller hcall hset
  | calledBack hpoller hcall => exact h.calledBack hpoller hcall
  | gotStreamAction _ _ _ | released _ | streamWriterReady _ _ _ =>
      refine h.congr (.inr fun b stage hat => ?_)
      cases hat
  | sharedFromThis _ _ _ | onCallDead _ =>
      refine h.congr (.inr fun b stage hat => ?_)
      cases hat
      exact ⟨by decide, by decide⟩
  | writerCompletion _ _ _ hnext =>
      refine h.congr (.inr fun b stage hat => ?_)
      cases hnext with
      | inl heq => subst heq; cases hat
      | inr heq => subst heq; cases hat
  | runCallback htask => exact h.runCallback htask

end Steps

section Runs

variable [DecidableEq Tid] [Inhabited Response] {s s' : AsyncClient Tid Request Response}

omit [DecidableEq Tid] [Inhabited Response] in
variable (Tid Request Response) in
theorem initial_responses : Responses ({} : AsyncClient Tid Request Response) := by
  refine ⟨List.nodup_nil, nofun, fun c => ⟨fun call hcall => ?_, fun _ => ⟨nofun, rfl⟩⟩⟩
  cases hcall

theorem responses_of_reachable (hs : (system Tid Request Response).Reachable s) :
    s.Inv ∧ s.Responses := by
  refine hs.invariant (I := fun s => s.Inv ∧ s.Responses) ?_ ?_
  · rintro _ rfl
    exact ⟨initial_inv .., initial_responses ..⟩
  · rintro s e s' ⟨hinv, h⟩ - hstep
    exact ⟨hinv.step hstep, h.move hinv (step_cases hstep).2⟩

theorem requests_delivered_step {e : Event Tid Request Response} (hstep : s.step e = some s') :
    (∀ p ∈ s.requests, p ∈ s'.requests) ∧
      (s'.delivered = s.delivered ∨ ∃ c ok status response,
        e = .asyncNext (.unaryFinish c) ok status response ∧
          s'.delivered = s.delivered ++ [⟨c, status, response⟩]) := by
  cases (step_cases hstep).2 with
  | callUnary => exact ⟨fun p hp => List.mem_append_left _ hp, .inl rfl⟩
  | gotUnaryFinish _ _ _ => exact ⟨fun p hp => hp, .inr ⟨_, _, _, _, rfl, rfl⟩⟩
  | @calledBack c run call _ _ =>
      obtain ⟨hrequests, hdelivered⟩ := responseCallback_requests c call run s
      exact ⟨fun p hp => hrequests ▸ hp, .inl hdelivered⟩
  | callClientStream | createWriter _ _ | installOwner _ | addStreamingCall _ | returned _ | dropRef
  | futureError _ _ _ | badWeakPtr _ _ _ | streamWriterReadyTwice _ _ _ | writer _ _ _
  | gotCallStart _ _ | gotStreamAction _ _ _ | responded _ _ _ | sharedFromThis _ _ _
  | onCallDead _ | released _ | streamWriterReady _ _ _ | writerCompletion _ _ _ _
  | runCallback _ => exact ⟨fun p hp => hp, .inl rfl⟩

/-- A response future that is fulfilled stays as it is. -/
theorem responsePromise_step {e : Event Tid Request Response} (hinv : s.Inv)
    (hstep : s.step e = some s') {c : Nat} {p : Promise Response AsyncCallError}
    (hp : (s.unaryCalls c).map (·.responsePromise) = some p) (hfulfilled : p.Fulfilled) :
    (s'.unaryCalls c).map (·.responsePromise) = some p := by
  have hkeep : (fun n => (s'.unaryCalls n).map (·.responsePromise)) =
      (fun n => (s.unaryCalls n).map (·.responsePromise)) →
      (s'.unaryCalls c).map (·.responsePromise) = some p := fun heq => (congrFun heq c).trans hp
  cases (step_cases hstep).2 with
  | @callUnary request hasCallback =>
      have hc : c ≠ s.nextCall := by
        rintro rfl
        have hnone : s.unaryCalls s.nextCall = none := Option.map_eq_none_iff.mp hinv.calls.fresh.1
        rw [hnone] at hp
        cases hp
      have hsame : (s.newUnaryCall request hasCallback).unaryCalls c = s.unaryCalls c :=
        Function.update_of_ne hc _ _
      rwa [hsame]
  | callClientStream | createWriter _ _ | addStreamingCall _ | returned _ | dropRef
  | futureError _ _ _ | badWeakPtr _ _ _ | streamWriterReadyTwice _ _ _ | writer _ _ _
  | gotCallStart _ _ | gotStreamAction _ _ _ | sharedFromThis _ _ _ | onCallDead _ | released _
  | streamWriterReady _ _ _ | writerCompletion _ _ _ _ | runCallback _ => exact hkeep rfl
  | installOwner _ => exact hkeep (map_map_update_of_eq _ fun _ => rfl)
  | gotUnaryFinish _ _ hcall => exact hkeep (map_update_of_eq hcall rfl)
  | @responded b run call call' _ hcall hset =>
      have hpending : call.responsePromise = .pending := by
        unfold AsyncUnaryCall.setResponse at hset
        split at hset
        · obtain ⟨q, hq, -⟩ := Option.map_eq_some_iff.mp hset
          exact (Promise.setValue_eq_some_iff.mp hq).1
        · obtain ⟨q, hq, -⟩ := Option.map_eq_some_iff.mp hset
          exact (Promise.setException_eq_some_iff.mp hq).1
      have hc : c ≠ b := by
        rintro rfl
        rw [hcall, Option.map_some, hpending] at hp
        exact hfulfilled (Option.some.inj hp).symm
      change (Function.update s.unaryCalls b (some call') c).map _ = _
      rwa [Function.update_of_ne hc]
  | @calledBack b run call _ hcall =>
      apply hkeep
      simp only [responseCallback]
      split
      · exact map_update_of_eq hcall rfl
      · rfl

end Runs

end EasyGrpc.Client.AsyncClient

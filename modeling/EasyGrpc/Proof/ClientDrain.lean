import EasyGrpc.Proof.QueueDrain
import Mathlib.Algebra.BigOperators.Ring.Finset
import Mathlib.Algebra.Order.BigOperators.Group.Finset

/-!
# The destructor of the client comes to its end

`~AsyncClient` shuts the completion queue down and joins the polling thread, which leaves its loop only
when gRPC holds no tag. With nobody inside the client what is left to do is bounded: a tag costs the
steps of its completion, a failed Write the Finish that follows it, and nothing else is started. Until
the members are destroyed the polling thread or the destructor can go on, unless an exception or the
Finish of a failed Write, which gRPC is given after the shutdown, ends the process.
-/

namespace EasyGrpc.Client

variable {Tid Request Response : Type}

section Writer

namespace AsyncClientStreamWriter

/-- The completion of an action takes five steps. That of a Write takes one more, and the Finish that it
may push another five. -/
def actionWork (a : StreamAction Request) : Nat := if a.isWrite then 11 else 5

def completionWork : CompletionPc Request → Nat
  | .idle => 0
  | .gotEvent a _ => actionWork a - 1
  | .resultSet a _ => actionWork a - 2
  | .stateReady a _ => actionWork a - 3
  | .finishPushed _ => 2
  | .finalized _ => 1

def load (l : List (StreamAction Request)) : Nat := (l.map actionWork).sum

def remaining (w : AsyncClientStreamWriter Tid Request Response) : Nat :=
  load w.outstanding + load w.actions + completionWork w.completion

theorem load_append (l m : List (StreamAction Request)) : load (l ++ m) = load l + load m := by
  rw [load, List.map_append, List.sum_append, ← load, ← load]

theorem load_cons (a : StreamAction Request) (l : List (StreamAction Request)) :
    load (a :: l) = actionWork a + load l := by
  rw [load, List.map_cons, List.sum_cons, ← load]

variable {w w' : AsyncClientStreamWriter Tid Request Response}

/-- What is popped is handed over or dropped. -/
theorem load_tryPerformAction (w : AsyncClientStreamWriter Tid Request Response) :
    load w.tryPerformAction.outstanding + load w.tryPerformAction.actions ≤
      load w.outstanding + load w.actions := by
  rcases w.tryPerformAction_cases with ⟨-, heq⟩ | ⟨a, rest, hq, ⟨-, heq⟩ | ⟨-, heq⟩ | ⟨-, heq⟩⟩
  · rw [heq]
  all_goals
    rw [heq, hq]
    simp only [perform, setException, assertThat, popAction, load_append, load_cons]
    simp only [load, List.map_nil, List.sum_nil]
    omega

theorem load_drain (last : Bool) (w : AsyncClientStreamWriter Tid Request Response) :
    load (drain last false w.actions w).outstanding + load (drain last false w.actions w).actions ≤
      load w.outstanding + load w.actions := by
  refine drain_induction
    (P := fun v => load v.outstanding + load v.actions ≤ load w.outstanding + load w.actions)
    ?_ ?_ last false rfl (Nat.le_refl _)
  · intro v a rest hq hv
    rw [hq, load_cons] at hv
    simp only [perform, assertThat, popAction, load_append, load_cons]
    simp only [load, List.map_nil, List.sum_nil] at hv ⊢
    omega
  · intro v a rest message hq hv
    rw [hq, load_cons] at hv
    simp only [setException, popAction]
    omega

/-- A step of the polling thread brings the writer on, or an exception ends the process. -/
theorem remaining_move [DecidableEq Tid] {e : Event Tid Request Response}
    (hterm : w.terminated = false) (hmove : Move w e w')
    (he : (∃ id ok status response, e = .asyncNext id ok status response) ∨ e = .completion) :
    w'.remaining + (!w'.terminated).toNat < w.remaining + 1 := by
  have hwork : ∀ a : StreamAction Request, 5 ≤ actionWork a := by
    intro a
    unfold actionWork
    split <;> omega
  cases hmove with
  | write _ | finish _ | tryPerformAction _ _ => simp at he
  | @asyncNext id ok status response a hpc ha =>
      have hperm := perm_cons_eraseP_of_find? ha
      have hload : load w.outstanding = actionWork a + load (w.outstanding.eraseP (·.id = id)) := by
        rw [← load_cons, load, (hperm.map actionWork).sum_eq, ← load]
      have hle := hwork a
      simp only [remaining, hload, hpc, completionWork, hterm, Bool.not_false, Bool.toNat_true]
      omega
  | @setResult a ok hpc =>
      have hle := hwork a
      simp only [remaining, finalizeSetResult, setResult, assertThat, hpc, completionWork, hterm,
        Bool.not_false, Bool.toNat_true]
      omega
  | @stateReady a ok hpc =>
      have hle := hwork a
      simp only [remaining, hpc, completionWork, hterm, Bool.not_false, Bool.toNat_true]
      omega
  | @finalizeWriteOk a hpc ha =>
      have hdrain := load_drain a.isLastMessage w
      have hterm' := (drain_handedOver a.isLastMessage w.actions w).terminated.trans hterm
      have hwrite : actionWork a = 11 := by rw [actionWork, if_pos ha]
      simp only [remaining, hpc, completionWork, hwrite, hterm', Bool.not_false, Bool.toNat_true]
      omega
  | @finalizeWriteFailed a hpc ha =>
      have hwrite : actionWork a = 11 := by rw [actionWork, if_pos ha]
      have hfinish : load [(⟨w.nextId, .finish⟩ : StreamAction Request)] = 5 := rfl
      simp only [remaining, newAction, load_append, hfinish, hpc, completionWork, hwrite, hterm,
        Bool.not_false, Bool.toNat_true]
      omega
  | @finalizeFinish a ok hpc ha =>
      have hle := hwork a
      cases howner : w.owner.onStreamWriterFinish with
      | none => simp [remaining, AsyncClientStreamWriter.finalizeFinish, assertThat, howner]
      | some owner =>
          simp only [remaining, AsyncClientStreamWriter.finalizeFinish, assertThat, howner, hpc,
            completionWork, Option.isSome_some, if_true, Option.isNone_some, Bool.not_false,
            Bool.toNat_true]
          omega
  | finishPushed hpc =>
      have htry := w.load_tryPerformAction
      obtain ⟨l, hover, -⟩ := w.tryPerformAction_handedOver
      simp only [remaining, hpc, completionWork, hover.terminated.trans hterm, Bool.not_false,
        Bool.toNat_true]
      omega
  | delete hpc =>
      simp only [remaining, hpc, completionWork, hterm, Bool.not_false, Bool.toNat_true]
      omega

end AsyncClientStreamWriter

end Writer

namespace AsyncClient

theorem eq_some_update {α : Type} {f : Nat → Option α} {b c : Nat} {a x : α}
    (h : Function.update f c (some a) b = some x) : (b = c ∧ x = a) ∨ (b ≠ c ∧ f b = some x) := by
  by_cases hb : b = c
  · subst hb
    rw [Function.update_self] at h
    exact .inl ⟨rfl, (Option.some.inj h).symm⟩
  · rw [Function.update_of_ne hb] at h
    exact .inr ⟨hb, h⟩

def tagWork : Tag → Nat
  | .unaryFinish _ => 7
  | .callStart _ => 2
  | .streamAction _ _ => 0

def pollerWork : Poller → Nat
  | .idle => 0
  | .unary _ .responding => 6
  | .unary _ .callingBack => 5
  | .unary _ .sharing => 3
  | .unary _ .burying => 2
  | .unary _ .releasing => 1
  | .callStart _ => 1
  | .writer _ => 0

def writersWork (s : AsyncClient Tid Request Response) : Nat :=
  ∑ c ∈ Finset.range s.nextCall, (s.streamCalls c).elim 0 (·.remaining)

def remaining (s : AsyncClient Tid Request Response) : Nat :=
  s.writersWork + (s.tags.map tagWork).sum + pollerWork s.poller + s.userRefs.length +
    s.callbackTasks.length + (!s.terminated).toNat

structure Polls (s : AsyncClient Tid Request Response) : Prop where
  unary : ∀ c stage, s.poller = .unary c stage → (s.unaryCalls c).isSome
  writer : ∀ c w, s.streamCalls c = some w → (w.completion ≠ .idle ↔ s.poller = .writer c)
  running : s.terminated = false → ∀ c w, s.streamCalls c = some w → w.terminated = false
  tags : ∀ c id, .streamAction c id ∉ s.tags

section Polls

variable {s s' : AsyncClient Tid Request Response}

def polled (s : AsyncClient Tid Request Response) (c : Nat) : Option (CompletionPc Request × Bool) :=
  (s.streamCalls c).map fun w => (w.completion, w.terminated)

theorem Polls.congr (h : s.Polls) (hpolled : s'.polled = s.polled)
    (hpoller : ∀ c, s'.poller = .writer c ↔ s.poller = .writer c)
    (hunary : ∀ c stage, s'.poller = .unary c stage → (s'.unaryCalls c).isSome)
    (hterm : s'.terminated = false → s.terminated = false)
    (htags : ∀ c id, .streamAction c id ∉ s'.tags) : s'.Polls := by
  have hfrom : ∀ c w, s'.streamCalls c = some w →
      ∃ v, s.streamCalls c = some v ∧ v.completion = w.completion ∧ v.terminated = w.terminated := by
    intro c w hw
    have hc := congrFun hpolled c
    rw [polled, polled, hw, Option.map_some] at hc
    obtain ⟨v, hv, heq⟩ := Option.map_eq_some_iff.mp hc.symm
    exact ⟨v, hv, (Prod.mk.inj heq).1, (Prod.mk.inj heq).2⟩
  refine ⟨hunary, ?_, ?_, htags⟩
  · intro c w hw
    obtain ⟨v, hv, hcompletion, -⟩ := hfrom c w hw
    rw [← hcompletion, hpoller]
    exact h.writer c v hv
  · intro hrun c w hw
    obtain ⟨v, hv, -, hterminated⟩ := hfrom c w hw
    exact hterminated ▸ h.running (hterm hrun) c v hv

/-- Another part of the client moves. -/
theorem Polls.aside (h : s.Polls) (hpolled : s'.polled = s.polled) (hpoller : s'.poller = s.poller)
    (hunary : ∀ c, (s.unaryCalls c).isSome → (s'.unaryCalls c).isSome)
    (hterm : s'.terminated = false → s.terminated = false)
    (htags : ∀ c id, .streamAction c id ∉ s'.tags) : s'.Polls :=
  h.congr hpolled (fun _ => by rw [hpoller])
    (fun c stage hc => hunary c (h.unary c stage (hpoller ▸ hc))) hterm htags

/-- The step of a writer, taken by the polling thread. -/
theorem Polls.setWriter (h : s.Polls) {c : Nat} {w : AsyncClientStreamWriter Tid Request Response}
    {poller : Poller} {terminated : Bool} (hold : ∀ b, s.poller = .writer b → b = c)
    (hnew : ∀ b, poller = .writer b ↔ b = c ∧ w.completion ≠ .idle)
    (hunary : ∀ b stage, poller ≠ .unary b stage) (hrun : s.terminated = false)
    (hterm : terminated = false → w.terminated = false) :
    Polls { s with
      streamCalls := Function.update s.streamCalls c (some w)
      poller := poller
      terminated := terminated } := by
  refine ⟨fun b stage hb => absurd hb (hunary b stage), ?_, ?_, h.tags⟩
  · intro b v hv
    rcases eq_some_update (f := s.streamCalls) hv with ⟨rfl, rfl⟩ | ⟨hb, hv⟩
    · simp [hnew]
    · rw [h.writer b v hv, hnew]
      exact iff_of_false (fun hpoller => hb (hold b hpoller)) fun hnew => hb hnew.1
  · intro hrun' b v hv
    rcases eq_some_update (f := s.streamCalls) hv with ⟨rfl, rfl⟩ | ⟨-, hv⟩
    · exact hterm hrun'
    · exact h.running hrun b v hv

variable [DecidableEq Tid]

theorem pollerStep_writer {c : Nat} {run : CallbackRun} (hpoller : s.poller = .writer c)
    (hstep : s.pollerStep run = some s') :
    ∃ w w', s.streamCalls c = some w ∧ w.step .completion = some w' ∧
      ∃ poller, (∀ b, poller = .writer b ↔ b = c ∧ w'.completion ≠ .idle) ∧
        (∀ b stage, poller ≠ .unary b stage) ∧
        s' = { s with
          streamCalls := Function.update s.streamCalls c (some w')
          poller := poller
          terminated := w'.terminated } := by
  simp only [pollerStep, hpoller] at hstep
  obtain ⟨w, hw, hmap⟩ := Option.bind_eq_some_iff.mp hstep
  obtain ⟨w', hw', rfl⟩ := Option.map_eq_some_iff.mp hmap
  refine ⟨w, w', hw, hw', _, ?_, ?_, rfl⟩
  · intro b
    cases w'.completion <;> simp [eq_comm]
  · intro b stage
    cases w'.completion <;> simp

variable [Inhabited Response]

theorem Polls.poll (h : s.Polls) {run : CallbackRun} (hrun : s.terminated = false)
    (hstep : s.pollerStep run = some s') : s'.Polls := by
  have hone : ∀ {b c : Nat} {stage stage' : FinalizeStage} {t : AsyncClient Tid Request Response},
      (t.unaryCalls b).isSome → Poller.unary b stage = .unary c stage' → (t.unaryCalls c).isSome := by
    intro b c stage stage' t ht hb
    exact (Poller.unary.inj hb).1 ▸ ht
  have hmove := move_of_pollerStep hstep
  cases hmove with
  | writerCompletion hpoller _ _ _ =>
      obtain ⟨w, w', hw, hw', poller, hnew, hunary, heq⟩ := pollerStep_writer hpoller hstep
      rw [heq]
      exact h.setWriter (fun b hb => (Poller.writer.inj (hpoller.symm.trans hb)).symm) hnew hunary hrun id
  | @responded c run call call' hpoller hcall _ =>
      refine h.congr rfl (by simp [hpoller]) (fun b stage hb => hone ?_ hb) id h.tags
      simp
  | @calledBack c run call hpoller hcall =>
      obtain ⟨hstream, -, -, -, htags, -⟩ := responseCallback_others c call run s
      have hsome : ((s.responseCallback c call run).unaryCalls c).isSome := by
        unfold responseCallback
        split <;> simp [hcall]
      refine h.congr ?_ (by simp [hpoller]) (fun b stage hb => hone hsome hb) (fun _ => hrun) ?_
      · funext b
        simp only [polled, hstream]
      · exact fun b id hb => h.tags b id (htags ▸ hb)
  | @sharedFromThis c run call hpoller hcall _ =>
      exact h.congr rfl (by simp [hpoller]) (fun b stage hb => hone (by simp [hcall]) hb) id h.tags
  | @onCallDead c run hpoller =>
      exact h.congr rfl (by simp [hpoller]) (fun b stage hb => hone (h.unary c _ hpoller) hb) id h.tags
  | released hpoller => exact h.congr rfl (by simp [hpoller]) nofun id h.tags
  | @streamWriterReady c run w owner hpoller hcall _ =>
      refine h.congr ?_ (by simp [hpoller]) nofun id h.tags
      exact map_update_of_eq hcall rfl
  | futureError _ _ _ | badWeakPtr _ _ _ | streamWriterReadyTwice _ _ _ =>
      exact h.aside rfl rfl (fun _ hc => hc) nofun h.tags

omit [Inhabited Response] in
/-- What the user threads do in a writer does not move its completion. -/
theorem writer_completion {w w' : AsyncClientStreamWriter Tid Request Response}
    {e : AsyncClientStreamWriter.Event Tid Request Response} (hmay : mayUse w e = true)
    (hstep : w.step e = some w') : w'.completion = w.completion ∧ w'.terminated = w.terminated := by
  cases (AsyncClientStreamWriter.step_cases hstep).2 with
  | write _ | finish _ => exact ⟨rfl, rfl⟩
  | tryPerformAction _ _ =>
      obtain ⟨l, hover, -⟩ := w.tryPerformAction_handedOver
      exact ⟨hover.completion, hover.terminated⟩
  | asyncNext _ _ | setResult _ | stateReady _ | finalizeWriteOk _ _ | finalizeWriteFailed _ _
  | finalizeFinish _ _ | finishPushed _ | delete _ => cases hmay

theorem Polls.step (h : s.Polls) (hcalls : s.CallsOk) (hpolled : s.WriterPolled)
    {e : Event Tid Request Response} (hstep : s.step e = some s') : s'.Polls := by
  obtain ⟨hrun, hmove⟩ := step_cases hstep
  have hpolledMap : ∀ (c : Nat) (f : AsyncClientStreamCall Response → AsyncClientStreamCall Response),
      (fun b => (Function.update s.streamCalls c ((s.streamCalls c).map fun w =>
        { w with owner := f w.owner }) b).map fun w => (w.completion, w.terminated)) = s.polled :=
    fun c f => map_map_update_of_eq c fun _ => rfl
  cases e with
  | poll run =>
      rw [AsyncClient.step, if_neg (by simp [hrun])] at hstep
      exact h.poll hrun hstep
  | callUnary _ _ =>
      cases hmove
      refine h.aside rfl rfl (fun c hc => isSome_update _ c hc) id fun c id hmem => ?_
      rcases List.mem_append.mp hmem with hmem | hmem
      · exact h.tags c id hmem
      · simp at hmem
  | callClientStream =>
      cases hmove
      have hidle : s.poller ≠ .writer s.nextCall := fun hpoller =>
        Nat.lt_irrefl _ (hcalls.stream (hpolled s.nextCall hpoller)).1
      refine ⟨h.unary, ?_, ?_, ?_⟩
      · intro c w hw
        rcases eq_some_update (f := s.streamCalls) hw with ⟨rfl, rfl⟩ | ⟨-, hw⟩
        · exact iff_of_false (fun hbusy => hbusy rfl) hidle
        · exact h.writer c w hw
      · intro hrun c w hw
        rcases eq_some_update (f := s.streamCalls) hw with ⟨-, rfl⟩ | ⟨-, hw⟩
        · rfl
        · exact h.running hrun c w hw
      · intro c id hmem
        rcases List.mem_append.mp hmem with hmem | hmem
        · exact h.tags c id hmem
        · simp at hmem
  | frame c =>
      cases hmove with
      | createWriter _ _ =>
          exact h.aside (hpolledMap c fun owner => { owner with streamWriter := .created }) rfl
            (fun _ hc => hc) id h.tags
      | installOwner _ =>
          refine h.aside (hpolledMap c fun owner => { owner with weakThis := true }) rfl
            (fun b hb => ?_) id h.tags
          exact isSome_map_update _ b hb
      | addStreamingCall _ | returned _ => exact h.aside rfl rfl (fun _ hc => hc) id h.tags
  | dropRef c =>
      cases hmove
      exact h.aside rfl rfl (fun _ hc => hc) id h.tags
  | runCallback c =>
      cases hmove
      exact h.aside rfl rfl (fun _ hc => hc) id h.tags
  | asyncNext tag ok status response =>
      cases hmove with
      | @gotUnaryFinish c ok status response call hpoller _ _ =>
          refine h.congr rfl (by simp [hpoller]) ?_ id fun b id hb => h.tags b id
            (List.mem_of_mem_erase hb)
          intro b stage hb
          obtain ⟨rfl, -⟩ := Poller.unary.inj hb
          simp
      | gotCallStart hpoller _ =>
          exact h.congr rfl (by simp [hpoller]) nofun id fun b id hb => h.tags b id
            (List.mem_of_mem_erase hb)
      | @gotStreamAction c id ok status response w w' hpoller hcall hw =>
          have hgot : w'.completion ≠ .idle ∧ w'.terminated = w.terminated := by
            cases (AsyncClientStreamWriter.step_cases hw).2
            exact ⟨nofun, rfl⟩
          refine h.setWriter (by simp [hpoller]) ?_ nofun hrun fun _ => ?_
          · intro b
            simp [hgot.1, eq_comm]
          · exact hgot.2.trans (h.running hrun c w hcall)
  | writer c e =>
      cases hmove with
      | writer hcall hmay hw =>
          obtain ⟨hcompletion, hterm⟩ := writer_completion hmay hw
          refine h.aside ?_ rfl (fun _ hc => hc) id h.tags
          exact map_update_of_eq hcall (by rw [hcompletion, hterm])

variable (Tid Request Response) in
omit [DecidableEq Tid] [Inhabited Response] in
theorem initial_polls : Polls ({} : AsyncClient Tid Request Response) where
  unary c stage hc := by cases hc
  writer c w hw := by cases hw
  running _ c w hw := by cases hw
  tags c id hmem := by cases hmem

end Polls

def Poller.Answering : Poller → Prop
  | .unary _ .responding => True
  | .unary _ .callingBack => True
  | .callStart _ => True
  | _ => False

structure Answers (s : AsyncClient Tid Request Response) : Prop where
  response : ∀ c call, s.unaryCalls c = some call → call.responsePromise.Fulfilled ∨
    .unaryFinish c ∈ s.tags ∨ s.poller = .unary c .responding
  callback : ∀ c call, s.unaryCalls c = some call → call.hasResponseCallback = false ∨
    .unaryFinish c ∈ s.tags ∨ s.poller = .unary c .responding ∨ s.poller = .unary c .callingBack
  streamWriter : ∀ c w, s.streamCalls c = some w → w.owner.streamWriterPromise.Fulfilled ∨
    .callStart c ∈ s.tags ∨ s.poller = .callStart c

section Answers

variable {s s' : AsyncClient Tid Request Response}

def answerView (s : AsyncClient Tid Request Response) (c : Nat) :
    Option (Promise Response AsyncCallError × Bool) :=
  (s.unaryCalls c).map fun call => (call.responsePromise, call.hasResponseCallback)

theorem Answers.congr (h : s.Answers) (hanswer : s'.answerView = s.answerView)
    (hwriter : s'.streamWriterPromise = s.streamWriterPromise) (htags : s'.tags = s.tags)
    (hpoller : s.poller.Answering → s'.poller = s.poller) : s'.Answers := by
  have hkeeps : ∀ p : Poller, p.Answering → s.poller = p → s'.poller = p := by
    rintro p hp rfl
    exact hpoller hp
  have hunary : ∀ c call, s'.unaryCalls c = some call → ∃ old, s.unaryCalls c = some old ∧
      old.responsePromise = call.responsePromise ∧
      old.hasResponseCallback = call.hasResponseCallback := by
    intro c call hcall
    have hc := congrFun hanswer c
    rw [answerView, answerView, hcall, Option.map_some] at hc
    obtain ⟨old, hold, heq⟩ := Option.map_eq_some_iff.mp hc.symm
    exact ⟨old, hold, (Prod.mk.inj heq).1, (Prod.mk.inj heq).2⟩
  constructor
  · intro c call hcall
    obtain ⟨old, hold, hpromise, -⟩ := hunary c call hcall
    rw [← hpromise, htags]
    exact (h.response c old hold).imp_right (Or.imp_right (hkeeps _ trivial))
  · intro c call hcall
    obtain ⟨old, hold, -, hcallback⟩ := hunary c call hcall
    rw [← hcallback, htags]
    exact (h.callback c old hold).imp_right
      (Or.imp_right (Or.imp (hkeeps _ trivial) (hkeeps _ trivial)))
  · intro c w hw
    have hc := congrFun hwriter c
    rw [streamWriterPromise, streamWriterPromise, hw, Option.map_some] at hc
    obtain ⟨v, hv, hpromise⟩ := Option.map_eq_some_iff.mp hc.symm
    rw [← hpromise, htags]
    exact (h.streamWriter c v hv).imp_right (Or.imp_right (hkeeps _ trivial))

theorem setResponse_fulfilled {call call' : AsyncUnaryCall Response}
    (h : call.setResponse = some call') :
    call'.responsePromise.Fulfilled ∧ call'.hasResponseCallback = call.hasResponseCallback := by
  unfold AsyncUnaryCall.setResponse at h
  split at h
  all_goals
    obtain ⟨p, hp, rfl⟩ := Option.map_eq_some_iff.mp h
    refine ⟨?_, rfl⟩
  · obtain ⟨-, rfl⟩ := Promise.setValue_eq_some_iff.mp hp
    exact Promise.fulfilled_value _
  · obtain ⟨-, rfl⟩ := Promise.setException_eq_some_iff.mp hp
    exact Promise.fulfilled_exception _

theorem markStreamWriterReady_fulfilled {call call' : AsyncClientStreamCall Response}
    (h : call.markStreamWriterReady = some call') : call'.streamWriterPromise.Fulfilled := by
  obtain ⟨p, hp, rfl⟩ := Option.map_eq_some_iff.mp h
  obtain ⟨-, rfl⟩ := Promise.setValue_eq_some_iff.mp hp
  exact Promise.fulfilled_value _

/-- The callback of the call that is called back has been passed on. -/
theorem responseCallback_answer {c b : Nat} {run : CallbackRun} {call old : AsyncUnaryCall Response}
    (hcall : s.unaryCalls c = some call) (hold : (s.responseCallback c call run).unaryCalls b = some old) :
    ∃ prev, s.unaryCalls b = some prev ∧ old.responsePromise = prev.responsePromise ∧
      (old.hasResponseCallback = false ∨
        (b ≠ c ∧ old.hasResponseCallback = prev.hasResponseCallback)) := by
  unfold responseCallback at hold
  split at hold
  · rcases eq_some_update (f := s.unaryCalls) hold with ⟨rfl, rfl⟩ | ⟨hb, hold⟩
    · exact ⟨call, hcall, rfl, .inl rfl⟩
    · exact ⟨old, hold, rfl, .inr ⟨hb, rfl⟩⟩
  · rename_i hnone
    refine ⟨old, hold, rfl, ?_⟩
    by_cases hb : b = c
    · subst hb
      obtain rfl := Option.some.inj (hcall.symm.trans hold)
      exact .inl (by simpa using hnone)
    · exact .inr ⟨hb, rfl⟩

/-- A tag that another call is waiting for stays. -/
theorem Answers.newCall (h : s.Answers) {tag : Tag} (htags : s'.tags = s.tags ++ [tag])
    (hpoller : s'.poller = s.poller)
    (hunary : ∀ c call, s'.unaryCalls c = some call → tag = .unaryFinish c ∨ s.unaryCalls c = some call)
    (hstream : ∀ c w, s'.streamCalls c = some w → tag = .callStart c ∨ s.streamCalls c = some w) :
    s'.Answers := by
  have hold : ∀ t, t ∈ s.tags → t ∈ s'.tags := fun t ht => htags ▸ List.mem_append_left _ ht
  have hnew : ∀ t, tag = t → t ∈ s'.tags := by
    rintro t rfl
    rw [htags]
    exact List.mem_append_right _ List.mem_cons_self
  constructor
  · intro c call hcall
    rw [hpoller]
    rcases hunary c call hcall with htag | hcall
    · exact .inr (.inl (hnew _ htag))
    · exact (h.response c call hcall).imp_right (Or.imp_left (hold _))
  · intro c call hcall
    rw [hpoller]
    rcases hunary c call hcall with htag | hcall
    · exact .inr (.inl (hnew _ htag))
    · exact (h.callback c call hcall).imp_right (Or.imp_left (hold _))
  · intro c w hw
    rw [hpoller]
    rcases hstream c w hw with htag | hw
    · exact .inr (.inl (hnew _ htag))
    · exact (h.streamWriter c w hw).imp_right (Or.imp_left (hold _))

variable [DecidableEq Tid] [Inhabited Response]

theorem Answers.move (h : s.Answers) {e : Event Tid Request Response} (hmove : Move s e s') :
    s'.Answers := by
  have hwriters : ∀ (c : Nat) (f : AsyncClientStreamCall Response → AsyncClientStreamCall Response),
      (∀ owner, (f owner).streamWriterPromise = owner.streamWriterPromise) →
      (fun b => (Function.update s.streamCalls c ((s.streamCalls c).map fun w =>
        { w with owner := f w.owner }) b).map (·.owner.streamWriterPromise)) = s.streamWriterPromise :=
    fun c f hf => map_map_update_of_eq c fun w => hf w.owner
  cases hmove with
  | callUnary =>
      refine h.newCall rfl rfl ?_ fun c w hw => .inr hw
      intro c call hcall
      rcases eq_some_update (f := s.unaryCalls) hcall with ⟨rfl, -⟩ | ⟨-, hcall⟩
      · exact .inl rfl
      · exact .inr hcall
  | callClientStream =>
      refine h.newCall rfl rfl (fun c call hcall => .inr hcall) ?_
      intro c w hw
      rcases eq_some_update (f := s.streamCalls) hw with ⟨rfl, -⟩ | ⟨-, hw⟩
      · exact .inl rfl
      · exact .inr hw
  | @createWriter c _ _ =>
      exact h.congr rfl (hwriters c (fun owner => { owner with streamWriter := .created }) fun _ => rfl) rfl
        fun _ => rfl
  | @installOwner c _ =>
      refine h.congr ?_ (hwriters c (fun owner => { owner with weakThis := true }) fun _ => rfl) rfl
        fun _ => rfl
      exact map_map_update_of_eq c fun _ => rfl
  | addStreamingCall _ | returned _ | dropRef | runCallback _ => exact h.congr rfl rfl rfl fun _ => rfl
  | futureError _ _ _ | badWeakPtr _ _ _ | streamWriterReadyTwice _ _ _ =>
      exact h.congr rfl rfl rfl fun _ => rfl
  | @gotUnaryFinish c ok status response call hpoller htag hcall =>
      have hkeep : ∀ t : Tag, t ≠ .unaryFinish c → t ∈ s.tags → t ∈ s.tags.erase (.unaryFinish c) :=
        fun t ht hmem => (List.mem_erase_of_ne ht).mpr hmem
      constructor
      · intro b old hold
        rcases eq_some_update (f := s.unaryCalls) hold with ⟨rfl, -⟩ | ⟨hb, hold⟩
        · exact .inr (.inr rfl)
        · have hb' := h.response b old hold
          simp only [hpoller, reduceCtorEq, or_false] at hb'
          exact hb'.imp_right fun hmem => .inl (hkeep _ (by simpa using hb) hmem)
      · intro b old hold
        rcases eq_some_update (f := s.unaryCalls) hold with ⟨rfl, -⟩ | ⟨hb, hold⟩
        · exact .inr (.inr (.inl rfl))
        · have hb' := h.callback b old hold
          simp only [hpoller, reduceCtorEq, or_false] at hb'
          exact hb'.imp_right fun hmem => .inl (hkeep _ (by simpa using hb) hmem)
      · intro b w hw
        have hb' := h.streamWriter b w hw
        simp only [hpoller, reduceCtorEq, or_false] at hb'
        exact hb'.imp_right fun hmem => .inl (hkeep _ nofun hmem)
  | @gotCallStart c ok status response hpoller htag =>
      have hkeep : ∀ t : Tag, t ≠ .callStart c → t ∈ s.tags → t ∈ s.tags.erase (.callStart c) :=
        fun t ht hmem => (List.mem_erase_of_ne ht).mpr hmem
      constructor
      · intro b call hcall
        have hb' := h.response b call hcall
        simp only [hpoller, reduceCtorEq, or_false] at hb'
        exact hb'.imp_right fun hmem => .inl (hkeep _ nofun hmem)
      · intro b call hcall
        have hb' := h.callback b call hcall
        simp only [hpoller, reduceCtorEq, or_false] at hb'
        exact hb'.imp_right fun hmem => .inl (hkeep _ nofun hmem)
      · intro b w hw
        have hb' := h.streamWriter b w hw
        simp only [hpoller, reduceCtorEq, or_false] at hb'
        refine hb'.imp_right fun hmem => ?_
        by_cases hb : b = c
        · exact .inr (by rw [hb])
        · exact .inl (hkeep _ (by simpa using hb) hmem)
  | gotStreamAction hpoller hcall hstep =>
      refine h.congr rfl ?_ rfl (by simp [hpoller, Poller.Answering])
      exact map_update_of_eq hcall (AsyncClientStreamWriter.step_streamWriter hstep).2
  | @responded c run call call' hpoller hcall hset =>
      obtain ⟨hfulfilled, hcallback⟩ := setResponse_fulfilled hset
      have hother : ∀ b, b ≠ c → ∀ stage, s.poller ≠ .unary b stage := by
        intro b hb stage hstage
        exact hb (Poller.unary.inj (hpoller.symm.trans hstage)).1.symm
      constructor
      · intro b old hold
        rcases eq_some_update (f := s.unaryCalls) hold with ⟨rfl, rfl⟩ | ⟨hb, hold⟩
        · exact .inl hfulfilled
        · exact (h.response b old hold).imp_right fun hmem =>
            .inl (hmem.resolve_right (hother b hb _))
      · intro b old hold
        rcases eq_some_update (f := s.unaryCalls) hold with ⟨rfl, rfl⟩ | ⟨hb, hold⟩
        · exact .inr (.inr (.inr rfl))
        · exact (h.callback b old hold).imp_right fun hmem =>
            .inl (hmem.resolve_right (not_or.mpr ⟨hother b hb _, hother b hb _⟩))
      · intro b w hw
        have hb' := h.streamWriter b w hw
        simp only [hpoller, reduceCtorEq, or_false] at hb'
        exact hb'.imp_right .inl
  | @calledBack c run call hpoller hcall =>
      obtain ⟨hstream, -, -, -, htags, -⟩ := responseCallback_others c call run s
      have hother : ∀ b, b ≠ c → ∀ stage, s.poller ≠ .unary b stage := by
        intro b hb stage hstage
        exact hb (Poller.unary.inj (hpoller.symm.trans hstage)).1.symm
      constructor
      · intro b old hold
        obtain ⟨prev, hprev, hpromise, -⟩ := responseCallback_answer hcall hold
        have hb' := h.response b prev hprev
        simp only [hpoller, Poller.unary.injEq, reduceCtorEq, and_false, or_false] at hb'
        change _ ∨ _ ∈ (s.responseCallback c call run).tags ∨ _
        rw [hpromise, htags]
        exact hb'.imp_right .inl
      · intro b old hold
        obtain ⟨prev, hprev, -, hcallback⟩ := responseCallback_answer hcall hold
        change _ ∨ _ ∈ (s.responseCallback c call run).tags ∨ _
        rw [htags]
        rcases hcallback with hcallback | ⟨hb, hcallback⟩
        · exact .inl hcallback
        · rw [hcallback]
          exact (h.callback b prev hprev).imp_right fun hmem =>
            .inl (hmem.resolve_right (not_or.mpr ⟨hother b hb _, hother b hb _⟩))
      · intro b w hw
        change (s.responseCallback c call run).streamCalls b = some w at hw
        change _ ∨ _ ∈ (s.responseCallback c call run).tags ∨ _
        rw [hstream] at hw
        rw [htags]
        have hb' := h.streamWriter b w hw
        simp only [hpoller, reduceCtorEq, or_false] at hb'
        exact hb'.imp_right .inl
  | sharedFromThis hpoller _ _ | onCallDead hpoller | released hpoller =>
      exact h.congr rfl rfl rfl (by simp [hpoller, Poller.Answering])
  | @streamWriterReady c run w owner hpoller hcall hset =>
      have hfulfilled := markStreamWriterReady_fulfilled hset
      constructor
      · intro b call hcall
        have hb' := h.response b call hcall
        simp only [hpoller, reduceCtorEq, or_false] at hb'
        exact hb'.imp_right .inl
      · intro b call hcall
        have hb' := h.callback b call hcall
        simp only [hpoller, reduceCtorEq, or_false] at hb'
        exact hb'.imp_right .inl
      · intro b v hv
        rcases eq_some_update (f := s.streamCalls) hv with ⟨rfl, rfl⟩ | ⟨hb, hv⟩
        · exact .inl hfulfilled
        · refine (h.streamWriter b v hv).imp_right fun hmem => .inl (hmem.resolve_right ?_)
          intro hb'
          exact hb (Poller.callStart.inj (hpoller.symm.trans hb')).symm
  | writerCompletion hpoller hcall hstep hnext =>
      refine h.congr rfl ?_ rfl (by simp [hpoller, Poller.Answering])
      exact map_update_of_eq hcall (AsyncClientStreamWriter.step_streamWriter hstep).2
  | writer hcall hmay hstep =>
      refine h.congr rfl ?_ rfl fun _ => rfl
      exact map_update_of_eq hcall (AsyncClientStreamWriter.step_streamWriter hstep).2

variable (Tid Request Response) in
omit [DecidableEq Tid] [Inhabited Response] in
theorem initial_answers : Answers ({} : AsyncClient Tid Request Response) where
  response c call hcall := by cases hcall
  callback c call hcall := by cases hcall
  streamWriter c w hw := by cases hw

end Answers

section Remaining

variable {s s' : AsyncClient Tid Request Response}

theorem sum_tagWork_erase {tag : Tag} {tags : List Tag} (h : tag ∈ tags) :
    (tags.map tagWork).sum = tagWork tag + ((tags.erase tag).map tagWork).sum := by
  rw [((List.perm_cons_erase h).map tagWork).sum_eq, List.map_cons, List.sum_cons]

theorem sum_elim_update {α : Type} {f : Nat → Option α} {n c : Nat} (work : α → Nat) (hlt : c < n)
    (b : Option α) :
    ∑ i ∈ Finset.range n, (Function.update f c b i).elim 0 work + (f c).elim 0 work =
      ∑ i ∈ Finset.range n, (f i).elim 0 work + b.elim 0 work := by
  have hmem : c ∈ Finset.range n := Finset.mem_range.mpr hlt
  have hothers : ∑ i ∈ (Finset.range n).erase c, (Function.update f c b i).elim 0 work =
      ∑ i ∈ (Finset.range n).erase c, (f i).elim 0 work := by
    apply Finset.sum_congr rfl
    intro i hi
    rw [Function.update_of_ne (Finset.ne_of_mem_erase hi)]
  rw [← Finset.add_sum_erase _ _ hmem, ← Finset.add_sum_erase _ _ hmem, hothers, Function.update_self]
  omega

theorem writersWork_update {t : AsyncClient Tid Request Response} {c : Nat}
    {w : AsyncClientStreamWriter Tid Request Response}
    (w' : AsyncClientStreamWriter Tid Request Response) (hlt : c < s.nextCall)
    (hcall : s.streamCalls c = some w)
    (hcalls : t.streamCalls = Function.update s.streamCalls c (some w'))
    (hnext : t.nextCall = s.nextCall) :
    t.writersWork + w.remaining = s.writersWork + w'.remaining := by
  have hsum := sum_elim_update (f := s.streamCalls) (·.remaining) hlt (some w')
  rw [hcall] at hsum
  rw [writersWork, hcalls, hnext]
  exact hsum

variable [DecidableEq Tid] [Inhabited Response]

def GoesOn : Event Tid Request Response → Prop
  | .asyncNext _ _ _ _ => True
  | .poll _ => True
  | .dropRef _ => True
  | .runCallback _ => True
  | _ => False

theorem remaining_lt {e : Event Tid Request Response} (hcalls : s.CallsOk) (hpolls : s.Polls)
    (he : GoesOn e) (hstep : s.step e = some s') : s'.remaining < s.remaining := by
  obtain ⟨hrun, hmove⟩ := step_cases hstep
  have hlt : ∀ {c w}, s.streamCalls c = some w → c < s.nextCall := by
    intro c w hw
    exact (hcalls.stream (by rw [hw]; rfl)).1
  cases e with
  | callUnary _ _ | callClientStream | frame _ | writer _ _ => exact he.elim
  | dropRef c =>
      simp only [AsyncClient.step, hrun, Bool.false_eq_true, if_false] at hstep
      split at hstep
      · rename_i hmem
        obtain rfl := Option.some.inj hstep
        have hpos := List.length_pos_of_mem hmem
        simp only [remaining, writersWork, List.length_erase_of_mem hmem, hrun]
        omega
      · cases hstep
  | runCallback c =>
      cases hmove with
      | runCallback hmem =>
          have hpos := List.length_pos_of_mem hmem
          simp only [remaining, writersWork, List.length_erase_of_mem hmem]
          omega
  | asyncNext tag ok status response =>
      cases hmove with
      | gotUnaryFinish hpoller hmem _ | gotCallStart hpoller hmem =>
          simp only [remaining, writersWork, sum_tagWork_erase hmem, hpoller, pollerWork, tagWork]
          omega
      | @gotStreamAction c id ok status response w w' hpoller hcall hw =>
          have hterm := hpolls.running hrun c w hcall
          have hmoved := (AsyncClientStreamWriter.step_cases hw).2
          have hpaid := AsyncClientStreamWriter.remaining_move hterm hmoved (.inl ⟨_, _, _, _, rfl⟩)
          have hterm' : w'.terminated = false := by
            cases hmoved
            exact hterm
          have hsum := writersWork_update (t := { s with
            streamCalls := Function.update s.streamCalls c (some w'), poller :=
            .writer c }) w' (hlt hcall)
            hcall rfl rfl
          simp only [hterm', Bool.not_false, Bool.toNat_true] at hpaid
          simp only [remaining, hpoller, pollerWork]
          omega
  | poll run =>
      have hrun' : (!s.terminated).toNat = 1 := by rw [hrun]; rfl
      cases hmove with
      | futureError _ _ _ | badWeakPtr _ _ _ | streamWriterReadyTwice _ _ _ =>
          simp only [remaining, writersWork, hrun', Bool.not_true, Bool.toNat_false]
          omega
      | responded hpoller _ _ | sharedFromThis hpoller _ _ | onCallDead hpoller | released hpoller =>
          simp only [remaining, writersWork, hpoller, pollerWork, onCallDead, removeStreamingCall]
          omega
      | @calledBack c run call hpoller hcall =>
          unfold responseCallback
          split
          · have hone : (!decide (run = .threw)).toNat ≤ 1 := by cases run <;> decide
            simp only [remaining, writersWork, hpoller, pollerWork, hrun']
            split
            · rw [List.length_append, List.length_singleton]
              omega
            · omega
          · simp only [remaining, writersWork, hpoller, pollerWork]
            omega
      | @streamWriterReady c run w owner hpoller hcall _ =>
          have hsum := writersWork_update (t := { s with
            streamCalls := Function.update s.streamCalls c (some { w with owner := owner }), poller :=
            .idle })
            { w with owner := owner } (hlt hcall) hcall rfl rfl
          have hsame : AsyncClientStreamWriter.remaining { w with owner := owner } = w.remaining := rfl
          simp only [remaining, hpoller, pollerWork]
          omega
      | @writerCompletion c run poller w w' hpoller hcall hw hnext =>
          have hterm := hpolls.running hrun c w hcall
          have hpaid := AsyncClientStreamWriter.remaining_move hterm
            (AsyncClientStreamWriter.step_cases hw).2 (.inr rfl)
          have hsum := writersWork_update (t := { s with
            streamCalls := Function.update s.streamCalls c (some w'), poller := poller,
            terminated := w'.terminated }) w' (hlt hcall) hcall rfl rfl
          have hidle : pollerWork poller = 0 ∧ pollerWork (.writer c) = 0 := by
            rcases hnext with rfl | rfl <;> exact ⟨rfl, rfl⟩
          simp only [remaining, hidle, hrun', hpoller]
          omega

def IsPolling : Event Tid Request Response → Prop
  | .asyncNext _ _ _ _ => True
  | .poll _ => True
  | _ => False

omit [Inhabited Response] in
theorem pollerStep_isSome (hinv : s.Inv) (hpolled : s.WriterPolled) (hpolls : s.Polls)
    (hrun : s.terminated = false) (hbusy : s.poller ≠ .idle) (run : CallbackRun) :
    (s.pollerStep run).isSome = true := by
  cases hpoller : s.poller with
  | idle => exact absurd hpoller hbusy
  | unary c stage =>
      simp only [pollerStep, hpoller, Option.isSome_map]
      exact hpolls.unary c stage hpoller
  | callStart c =>
      have hstart : c ∈ s.startIds := by
        rw [startIds, hpoller]
        exact List.mem_append_right _ List.mem_cons_self
      obtain ⟨w, hw, -⟩ := Option.map_eq_some_iff.mp (hinv.completing.startPending c hstart)
      simp [pollerStep, hpoller, hw]
  | writer c =>
      obtain ⟨w, hw⟩ := Option.isSome_iff_exists.mp (hpolled c hpoller)
      have hstep : (w.step .completion).isSome = true := by
        rw [AsyncClientStreamWriter.step, if_neg (by simp [hpolls.running hrun c w hw])]
        exact AsyncClientStreamWriter.completionStep_isSome ((hpolls.writer c w hw).mpr hpoller)
      simpa [pollerStep, hpoller, hw] using hstep

/-- Until the queue is drained there is a tag to come or a completion to go on with. -/
theorem polling_possible (hinv : s.Inv) (hpolled : s.WriterPolled) (hpolls : s.Polls)
    (hrun : s.terminated = false) (hdrained : s.drained = false) :
    ∃ e : Event Tid Request Response, IsPolling e ∧ (s.step e).isSome = true := by
  by_cases hpoller : s.poller = .idle
  · have hnext : ∀ tag, (s.asyncNext tag true .OK none).isSome = true →
        ∃ e : Event Tid Request Response, IsPolling e ∧ (s.step e).isSome = true := by
      intro tag hsome
      refine ⟨.asyncNext tag true .OK none, trivial, ?_⟩
      simpa [AsyncClient.step, hrun, hpoller] using hsome
    cases htags : s.tags with
    | cons tag tags =>
        have hmem : tag ∈ s.tags := htags ▸ List.mem_cons_self
        apply hnext tag
        cases tag with
        | unaryFinish c =>
            have hid : c ∈ s.unaryIds := by
              refine List.mem_append_left _ (List.mem_append_left _ ?_)
              exact List.mem_filterMap.mpr ⟨_, hmem, rfl⟩
            simpa [asyncNext, hmem] using hinv.completing.unaryCall c hid
        | callStart c => simp [asyncNext, hmem]
        | streamAction c id => exact absurd hmem (hpolls.tags c id)
    | nil =>
        have hbusy : ¬ ∀ c < s.nextCall, (s.streamCalls c).all
          (fun w => w.outstanding.isEmpty) = true := by
          intro hall
          exact (of_decide_eq_false hdrained) ⟨hpoller, htags, hall⟩
        push Not at hbusy
        obtain ⟨c, -, hc⟩ := hbusy
        cases hw : s.streamCalls c with
        | none => simp [hw] at hc
        | some w =>
            have hidle : w.completion = .idle := by
              by_contra hbusy
              have hwriter := (hpolls.writer c w hw).mp hbusy
              rw [hpoller] at hwriter
              cases hwriter
            cases hout : w.outstanding with
            | nil => simp [hw, hout] at hc
            | cons a rest =>
                apply hnext (.streamAction c a.id)
                simp [asyncNext, hw, AsyncClientStreamWriter.step, hidle,
                  hpolls.running hrun c w hw, hout]
  · refine ⟨.poll .returned, trivial, ?_⟩
    rw [AsyncClient.step, if_neg (by simp [hrun])]
    exact pollerStep_isSome hinv hpolled hpolls hrun hpoller .returned

end Remaining

/-- Every promise that the client owes is fulfilled: the response of a unary call, whose callback was
passed on, the writer of a stream call, and the result of each action that gRPC was given. -/
structure Settled (s : AsyncClient Tid Request Response) : Prop where
  responses : ∀ c call, s.unaryCalls c = some call →
    call.responsePromise.Fulfilled ∧ call.hasResponseCallback = false
  streamWriters : ∀ c w, s.streamCalls c = some w → w.owner.streamWriterPromise.Fulfilled
  actions : ∀ c w, s.streamCalls c = some w → ∀ a ∈ w.handed, (w.promises a.id).Fulfilled

end AsyncClient

namespace ClientLifetime

variable [DecidableEq Tid] [Inhabited Response] {s s' : ClientLifetime Tid Request Response}

structure Draining (s : ClientLifetime Tid Request Response) : Prop where
  inv : s.Inv
  calls : s.client.CallsOk
  polled : s.client.WriterPolled
  polls : s.client.Polls
  answers : s.client.Answers
  writers : ∀ c w, s.client.streamCalls c = some w → w.Inv

theorem Draining.step {e : Event Tid Request Response} (h : s.Draining) (hstep : s.step e = some s') :
    s'.Draining := by
  have hinv := h.inv.step hstep
  cases (step_cases hstep).2 with
  | @client e client hmay hclient =>
      have hmove := (AsyncClient.step_cases hclient).2
      refine ⟨hinv, h.calls.move hmove, h.polled.move hmove, h.polls.step h.calls h.polled hclient,
        h.answers.move hmove, ?_⟩
      have hinit : (AsyncClientStreamWriter.initial Tid Request (default : Response)).Inv :=
        AsyncClientStreamWriter.initial_inv default
      refine AsyncClient.writers_move (P := fun w => w.Inv) { hinit with }
        (fun w owner hw => { hw with }) ?_ hmove h.writers
      exact fun w e w' hw hstep => hw.move (AsyncClientStreamWriter.step_cases hstep).2
  | shutdown _ _ | join _ _ => exact ⟨hinv, h.calls, h.polled, h.polls, h.answers, h.writers⟩
  | destroyMembers _ =>
      exact ⟨hinv, h.calls, h.polled, { h.polls with }, { h.answers with }, h.writers⟩

theorem draining_of_reachable (hs : (system Tid Request Response).Reachable s) : s.Draining := by
  refine hs.invariant (I := Draining) ?_ fun s e s' h _ hstep => h.step hstep
  rintro s rfl
  refine ⟨inv_of_reachable (.init rfl), (AsyncClient.initial_inv Tid Request Response).calls, ?_,
    AsyncClient.initial_polls Tid Request Response, AsyncClient.initial_answers Tid Request Response, ?_⟩
  · intro c hc
    cases hc
  · intro c w hw
    cases hw

/-- **Nothing is left behind.** When the polling thread has been joined no caller waits in vain. -/
theorem settled_of_joined (s : ClientLifetime Tid Request Response)
    (hs : (system Tid Request Response).Reachable s)
    (hstage : s.stage = .joined ∨ s.stage = .membersDestroyed) : s.client.Settled := by
  have h := draining_of_reachable hs
  have hnone := h.inv.drained hstage
  constructor
  · intro c call hcall
    have huse := hnone c
    simp only [AsyncClient.InUse, not_or, not_exists] at huse
    obtain ⟨htag, -, -, hpoller, -⟩ := huse
    refine ⟨(h.answers.response c call hcall).resolve_right ?_,
      (h.answers.callback c call hcall).resolve_right ?_⟩
    · exact not_or.mpr ⟨htag, hpoller _⟩
    · exact not_or.mpr ⟨htag, not_or.mpr ⟨hpoller _, hpoller _⟩⟩
  · intro c w hw
    have huse := hnone c
    simp only [AsyncClient.InUse, not_or] at huse
    exact (h.answers.streamWriter c w hw).resolve_right (not_or.mpr ⟨huse.2.1, huse.2.2.2.2.1⟩)
  · intro c w hw a ha
    have huse := hnone c
    simp only [AsyncClient.InUse, not_or, not_exists] at huse
    obtain ⟨-, -, hwriter, -, -, hpoller⟩ := huse
    have hout : w.outstanding = [] := by
      by_contra hout
      exact hwriter w ⟨hw, hout⟩
    have hidle : w.completion = .idle := by
      by_contra hbusy
      exact hpoller ((h.polls.writer c w hw).mp hbusy)
    refine ((h.writers c w hw).fulfilled a ha).resolve_left ?_
    simp [AsyncClientStreamWriter.awaiting, hout, hidle, CompletionPc.awaiting]

def stageWork : Stage → Nat
  | .alive => 3
  | .shutdown => 2
  | .joined => 1
  | .membersDestroyed => 0

def remaining (s : ClientLifetime Tid Request Response) : Nat := s.client.remaining + stageWork s.stage

def Event.Proceeds : Event Tid Request Response → Prop
  | .client e => AsyncClient.IsPolling e
  | .shutdown => False
  | .join => True
  | .destroyMembers => True

omit [DecidableEq Tid] [Inhabited Response] in
theorem goesOn_of_mayGoOn {e : AsyncClient.Event Tid Request Response} (hstage : s.stage ≠ .alive)
    (hmay : s.mayGoOn e = true) : AsyncClient.GoesOn e := by
  cases e with
  | asyncNext _ _ _ _ | poll _ | dropRef _ | runCallback _ => trivial
  | callUnary _ _ | callClientStream | frame _ | writer _ _ => simp [mayGoOn, hstage] at hmay

theorem remaining_lt {e : Event Tid Request Response} (h : s.Draining) (hstage : s.stage ≠ .alive)
    (hstep : s.step e = some s') : s'.stage ≠ .alive ∧ s'.remaining < s.remaining := by
  cases (step_cases hstep).2 with
  | @client e client hmay hclient =>
      have hlt := AsyncClient.remaining_lt h.calls h.polls (goesOn_of_mayGoOn hstage hmay) hclient
      exact ⟨hstage, Nat.add_lt_add_right hlt _⟩
  | shutdown halive _ => exact absurd halive hstage
  | join hshut _ =>
      refine ⟨nofun, ?_⟩
      simp only [remaining, hshut, stageWork]
      omega
  | destroyMembers hjoined =>
      refine ⟨nofun, ?_⟩
      have hsame : AsyncClient.remaining { s.client with streamingCalls := ∅ } = s.client.remaining :=
        rfl
      simp only [remaining, setClient, hsame, hjoined, stageWork]
      omega

theorem destroyed_of_blocked (h : s.Draining) (hstage : s.stage ≠ .alive) (habort : s.aborted = false)
    (hrun : s.client.terminated = false)
    (hblocked : ∀ e : Event Tid Request Response, e.Proceeds → s.step e = none) :
    s.stage = .membersDestroyed := by
  cases hs : s.stage with
  | alive => exact absurd hs hstage
  | membersDestroyed => rfl
  | joined =>
      have hnone := hblocked .destroyMembers trivial
      simp [ClientLifetime.step, habort, hs] at hnone
  | shutdown =>
      exfalso
      cases hdrained : s.client.drained with
      | true =>
          have hnone := hblocked .join trivial
          simp [ClientLifetime.step, habort, hs, hdrained, hrun] at hnone
      | false =>
          obtain ⟨hclient, -⟩ := h.inv.client (by simp [hs])
          obtain ⟨e, he, hsome⟩ := AsyncClient.polling_possible hclient h.polled h.polls hrun hdrained
          have hnone := hblocked (.client e) he
          have hmay : s.mayGoOn e = true := by
            cases e with
            | asyncNext _ _ _ _ | poll _ => simp [mayGoOn, hs]
            | callUnary _ _ | callClientStream | frame _ | dropRef _ | runCallback _ | writer _ _ =>
                exact he.elim
          simp only [ClientLifetime.step, habort, hmay, Bool.false_eq_true, if_false, if_true,
            Option.map_eq_none_iff] at hnone
          rw [hnone] at hsome
          cases hsome

omit [DecidableEq Tid] [Inhabited Response] in
theorem startsOperation_eq_false {client client' : AsyncClient Tid Request Response}
    (h : client.StartsNothing client') : client.startsOperation client' = false := by
  have hhanded : ∀ c, (client.streamCalls c).map (·.handed.length) =
      (client'.streamCalls c).map (·.handed.length) := by
    intro c
    have hc := congrArg (Option.map List.length) (congrFun h.2 c)
    simpa only [AsyncClient.handed, Option.map_map, Function.comp_def] using hc.symm
  have htags : ∀ tag ∈ client'.tags, tag ∈ client.tags := h.1
  simpa [AsyncClient.startsOperation, hhanded] using htags

theorem aborted_step_of_startsNothing {e : Event Tid Request Response} (hstep : s.step e = some s')
    (hstage : s.stage ≠ .alive) (h : s.StartsNothing e s') : s'.aborted = false := by
  obtain ⟨habort, hmove⟩ := step_cases hstep
  cases hmove with
  | @client e client _ _ =>
      have hnone : s.client.startsOperation client = false := startsOperation_eq_false (h hstage)
      simp [advance, hnone]
  | shutdown _ _ | join _ _ | destroyMembers _ => exact habort

/-- **The destructor returns.** Once `~AsyncClient` has shut the queue down, whatever gRPC answers and in
whatever order, at most `remaining` steps are taken. They stop only where the members are destroyed, at an
exception that ends the process, or where gRPC aborts it because the Finish of a failed Write was started on
the queue; and without such a Finish they do not stop for the last reason. -/
theorem destructor_returns (s : ClientLifetime Tid Request Response)
    (hs : (system Tid Request Response).Reachable s) (hstage : s.stage ≠ .alive) :
    (system Tid Request Response).Quiesces (fun _ _ => True) (fun _ e => e.Proceeds) s.remaining
      (fun t => t.aborted = true ∨ t.client.terminated = true ∨ t.stage = .membersDestroyed) s ∧
    (s.aborted = false →
      (system Tid Request Response).Quiesces (fun t e => t.NoAutomaticFinish e) (fun _ e => e.Proceeds)
        s.remaining (fun t => t.client.terminated = true ∨ t.stage = .membersDestroyed) s) := by
  have hrest : ∀ t : ClientLifetime Tid Request Response, t.Draining → t.stage ≠ .alive →
      t.aborted = false → (∀ e : Event Tid Request Response, e.Proceeds → t.step e = none) →
      t.client.terminated = true ∨ t.stage = .membersDestroyed := by
    intro t h halive habort hblocked
    cases hrun : t.client.terminated with
    | true => exact .inl rfl
    | false => exact .inr (destroyed_of_blocked h halive habort hrun hblocked)
  constructor
  · refine TransitionSystem.quiesces_of_descent (I := fun s => s.Draining ∧ s.stage ≠ .alive) remaining
      ?_ ?_ ⟨draining_of_reachable hs, hstage⟩
    · rintro s e t ⟨h, halive⟩ - hstep
      obtain ⟨halive', hlt⟩ := remaining_lt h halive hstep
      exact ⟨⟨h.step hstep, halive'⟩, hlt⟩
    · rintro t ⟨h, halive⟩ hblocked
      cases habort : t.aborted with
      | true => exact .inl rfl
      | false => exact .inr (hrest t h halive habort hblocked)
  · intro hrun
    refine TransitionSystem.quiesces_of_descent
      (I := fun s => s.Draining ∧ s.DrainInv ∧ s.stage ≠ .alive ∧ s.aborted = false) remaining
      ?_ ?_ ⟨draining_of_reachable hs, drainInv_of_reachable hs, hstage, hrun⟩
    · rintro s e t ⟨h, hdrain, halive, -⟩ hallowed hstep
      obtain ⟨halive', hlt⟩ := remaining_lt h halive hstep
      have hnothing := (startsNothing_move_iff hdrain (step_cases hstep).2).mpr hallowed
      have habort := aborted_step_of_startsNothing hstep halive hnothing
      exact ⟨⟨h.step hstep, hdrain.step hstep, halive', habort⟩, hlt⟩
    · rintro t ⟨h, -, halive, habort⟩ hblocked
      exact hrest t h halive habort hblocked

def destroyedWriting : List (Event Nat String String) :=
  [.client .callClientStream, .client (.frame 0), .client (.frame 0), .client (.frame 0),
    .client (.frame 0), .client (.asyncNext (.callStart 0) true .OK none), .client (.poll .returned),
    .client (.writer 0 (.write 0 "a" {})), .client (.writer 0 (.tryPerformAction 0)),
    .client (.callUnary "b" true), .client (.frame 1), .client (.frame 1), .client (.frame 1), .shutdown]

theorem destroyedWriting_returns : ∃ s, (system Nat String String).run {} destroyedWriting = some s ∧
    s.aborted = false ∧
    (system Nat String String).Quiesces (fun _ _ => True) (fun _ e => e.Proceeds) s.remaining
      (fun t => t.aborted = true ∨ t.client.terminated = true ∨ t.stage = .membersDestroyed) s ∧
    (system Nat String String).Quiesces (fun t e => t.NoAutomaticFinish e) (fun _ e => e.Proceeds)
      s.remaining (fun t => t.client.terminated = true ∨ t.stage = .membersDestroyed) s := by
  have hrun : ∃ s, (system Nat String String).run {} destroyedWriting = some s ∧ s.aborted = false ∧
      s.stage ≠ .alive := ⟨_, rfl, rfl, nofun⟩
  obtain ⟨s, hrun, habort, hstage⟩ := hrun
  have hreturns := destructor_returns s (TransitionSystem.reachable_of_run _ (.init rfl) hrun) hstage
  exact ⟨s, hrun, habort, hreturns.1, hreturns.2 habort⟩

def drainedWriting : List (Event Nat String String) :=
  [.client (.asyncNext (.streamAction 0 0) true .OK none), .client (.poll .returned),
    .client (.poll .returned), .client (.poll .returned), .client (.poll .returned),
    .client (.asyncNext (.unaryFinish 1) true .OK (some "c")), .client (.poll .returned),
    .client (.poll .dispatched), .client (.poll .returned), .client (.poll .returned),
    .client (.poll .returned), .join]

theorem drainedWriting_settled : ∃ s,
    (system Nat String String).run {} (destroyedWriting ++ drainedWriting) = some s ∧
    s.stage = .joined ∧ s.client.Settled := by
  refine ⟨_, rfl, rfl, settled_of_joined _ ?_ (.inl rfl)⟩
  exact TransitionSystem.reachable_of_run (destroyedWriting ++ drainedWriting) (.init rfl) rfl

end ClientLifetime

end EasyGrpc.Client

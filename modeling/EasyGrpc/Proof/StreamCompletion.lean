import EasyGrpc.Proof.ClientDrain
import EasyGrpc.Proof.StreamDelivery

/-!
# An upload comes to its end

With the last message flagged, and only that one, the client's half of a live client stream completes: the
work that is left is bounded, and it stops only when gRPC has taken every message, the server has given its
status and every future of the client is ready. The schedule is free, except that the caller does not look
at the state between the two steps that publish a result.
-/

namespace EasyGrpc

open Client Server

namespace Client.AsyncClientStreamWriter

variable {Request Response : Type} {w w' : AsyncClientStreamWriter Unit Request Response}
  {e : Event Unit Request Response} {a : StreamAction Request}

def Responded (w : AsyncClientStreamWriter Unit Request Response) : Prop :=
  w.onFinishedRuns ≠ 0 → w.owner.responsePromise.Fulfilled

theorem Responded.move (h : w.Responded) (hmove : Move w e w') (hterm : w'.terminated = false) :
    w'.Responded := by
  have hover : ∀ l v, HandedOver w l v → v.Responded := by
    intro l v hover hruns
    rw [hover.owner]
    exact h (hover.onFinishedRuns ▸ hruns)
  cases hmove with
  | tryPerformAction _ _ | finishPushed _ =>
      obtain ⟨l, hl, -⟩ := w.tryPerformAction_handedOver
      exact hover l w.tryPerformAction hl
  | @finalizeWriteOk b _ _ =>
      exact hover _ (drain b.isLastMessage false w.actions w) (drain_handedOver _ _ _)
  | @asyncNext id ok status response b _ _ =>
      intro hruns
      change (storeFinal b status response w.owner).responsePromise.Fulfilled
      rw [storeFinal_responsePromise]
      exact h hruns
  | @finalizeFinish b ok _ _ =>
      intro _
      cases howner : w.owner.onStreamWriterFinish with
      | none => simp [AsyncClientStreamWriter.finalizeFinish, howner] at hterm
      | some owner =>
          obtain ⟨p, hp, rfl⟩ := Option.map_eq_some_iff.mp howner
          have hpromise := (Promise.setValue_eq_some_iff.mp hp).2
          simp [AsyncClientStreamWriter.finalizeFinish, howner, hpromise]
  | write _ | finish _ | setResult _ | stateReady _ | finalizeWriteFailed _ _ | delete _ => exact h

/-- What is handed over is outstanding until its tag comes back. -/
theorem handed_move_cases (hmove : Move w e w') (ha : a ∈ w'.handed) :
    a ∈ w'.outstanding ∨ (a ∈ w.handed ∧ (a ∈ w.outstanding →
      a ∈ w'.outstanding ∨ ∃ ok status response, e = .asyncNext a.id ok status response)) := by
  have hover : ∀ l v, HandedOver w l v → a ∈ v.handed →
      a ∈ v.outstanding ∨ (a ∈ w.handed ∧ (a ∈ w.outstanding → a ∈ v.outstanding ∨
        ∃ ok status response, e = .asyncNext a.id ok status response)) := by
    intro l v hover ha
    rw [hover.handed, List.mem_append] at ha
    rw [hover.outstanding]
    exact (ha.imp (fun hold => ⟨hold, fun hout => .inl (List.mem_append_left l hout)⟩)
      (fun hnew => List.mem_append_right _ hnew)).symm
  cases hmove with
  | tryPerformAction _ _ | finishPushed _ =>
      obtain ⟨l, hl, -⟩ := w.tryPerformAction_handedOver
      exact hover l w.tryPerformAction hl ha
  | @finalizeWriteOk b _ _ =>
      exact hover _ (drain b.isLastMessage false w.actions w) (drain_handedOver _ _ _) ha
  | @asyncNext id ok status response b _ _ =>
      refine .inr ⟨ha, fun hout => ?_⟩
      by_cases hid : a.id = id
      · exact .inr ⟨ok, status, response, by rw [hid]⟩
      · exact .inl ((List.mem_eraseP_of_neg (by simpa using hid)).mpr hout)
  | write _ | finish _ | setResult _ | stateReady _ | finalizeWriteFailed _ _ | finalizeFinish _ _
  | delete _ => exact .inr ⟨ha, .inl⟩

end Client.AsyncClientStreamWriter

namespace Client.AwaitingCaller

open AsyncClientStreamWriter

variable {Request Response : Type} {s s' : AwaitingCaller Request Response}
  {e : AsyncClientStreamWriter.Event Unit Request Response} {a : StreamAction Request}

def ResultsOk (s : AwaitingCaller Request Response) : Prop :=
  ∀ a ∈ s.submitted, s.writer.promises a.id = .pending ∨ s.writer.promises a.id = .value true

/-- Outside of the window in which a result is published, the caller finds its action performed, or the
state `Ready`. -/
theorem Succeeding.unprocessed (h : s.Succeeding) (hfree : s.writer.stateMutexHeld = false) :
    s.writer.actions = [] ∨ s.writer.state ≠ .processing := by
  by_cases hqueued : s.writer.actions = []
  · exact .inl hqueued
  · refine .inr fun hprocessing => ?_
    have hgrpc := h.one.processing_iff.mp hprocessing
    obtain ⟨houtstanding, hpc⟩ := List.append_eq_nil_iff.mp (h.queued hqueued)
    rw [inGrpc, houtstanding, List.nil_append] at hgrpc
    unfold stateMutexHeld at hfree
    cases hcompletion : s.writer.completion with
    | gotEvent b ok =>
        rw [hcompletion] at hpc
        cases hpc
    | resultSet b ok =>
        rw [hcompletion] at hfree
        cases hfree
    | idle | stateReady _ _ | finishPushed _ | finalized _ =>
        rw [hcompletion] at hgrpc
        exact hgrpc rfl

theorem Succeeding.resultsOk_step (h : s.Succeeding) (hresults : s.ResultsOk)
    (htakes : s.writer.TakesAlike e) (hstep : s.step e = some s') : s'.ResultsOk := by
  obtain ⟨hmove, hsubmitted, -⟩ := step_cases hstep
  have hinv := h.inv.writer.inv
  intro a ha
  rw [hsubmitted, List.mem_append, Option.mem_toList] at ha
  obtain hold | hnew := ha
  · have hpushed := h.inv.pushed a hold
    obtain hpending | hvalue := hresults a hold
    · by_cases hsame : s'.writer.promises a.id = s.writer.promises a.id
      · exact .inl (hsame.trans hpending)
      · generalize s'.writer = w at hmove hsame ⊢
        cases hmove with
        | write _ | finish _ | asyncNext _ _ | stateReady _ | finalizeWriteFailed _ _
        | finalizeFinish _ _ | delete _ => exact absurd rfl hsame
        | tryPerformAction _ _ | finishPushed _ =>
            have hkept := tryPerformAction_promises_of_unfinished h.inv.writer.unfinished
            exact absurd (congrFun hkept a.id) hsame
        | @setResult b ok hpc =>
            have hok := h.ok
            rw [hpc] at hok
            rw [hinv.setResult_promise hpc] at hsame ⊢
            by_cases hid : a.id = b.id
            · rw [hid, Function.update_self]
              exact .inr (congrArg Promise.value hok)
            · exact absurd (Function.update_of_ne hid _ _) hsame
        | @finalizeWriteOk b hpc hb =>
            obtain ⟨hlast, c, hc, hwrite, -⟩ := h.inv.writer.drain_promises hpc hpending
              fun heq => hsame (heq.trans hpending.symm)
            have hfinish := htakes.drained rfl b hpc hb hlast c hc
            rw [StreamAction.isFinish, hwrite] at hfinish
            cases hfinish
    · right
      rw [hinv.promises_move hmove (by rw [hvalue]; exact Promise.fulfilled_value true)]
      exact hvalue
  · exact .inl ((hinv.move hmove).pending_queued a (submits_move hmove hnew).2.1)

end Client.AwaitingCaller

namespace Client.StreamUpload

open AsyncClientStreamWriter AwaitingCaller

variable {Request Response : Type} {s t : StreamUpload Request Response} {e : Event Response}
  {messages : List (Request × WriteOptions)}

/-- The caller's `tryPerformAction` does not run between the two steps that publish a result. -/
def Orderly (s : StreamUpload Request Response) : Event Response → Prop
  | .tryPerformAction => s.caller.writer.stateMutexHeld = false
  | _ => True

/-- Every message was taken, the status was given, and every future is ready. -/
structure Done (messages : List (Request × WriteOptions)) (s : StreamUpload Request Response) : Prop where
  written : s.written = messages.map Prod.fst
  answered : s.answered = true
  submitted : s.caller.submitted.filterMap StreamAction.payload = messages
  finished : ∃ a ∈ s.caller.submitted, a.isFinish = true
  results : ∀ a ∈ s.caller.submitted, s.caller.writer.promises a.id = .value true
  response : s.caller.writer.owner.responsePromise.Fulfilled
  deleted : s.caller.writer.pushed.Perm s.caller.writer.deleted

structure Completing (messages : List (Request × WriteOptions)) (s : StreamUpload Request Response) :
    Prop where
  live : s.Live messages
  kept : s.caller.writer.handed = s.caller.writer.popped
  results : s.caller.ResultsOk
  responded : s.caller.writer.Responded
  finishes : ∀ a ∈ s.caller.writer.handed, a.isFinish = true →
    a ∈ s.caller.writer.outstanding ∨ s.answered = true

theorem Completing.takesAlike (h : s.Completing messages) (hwrites : s.Writes messages)
    (honly : ∀ m ∈ messages.dropLast, m.2.isLastMessage = false)
    {e : AsyncClientStreamWriter.Event Unit Request Response}
    (hfree : e = .tryPerformAction () → s.caller.writer.stateMutexHeld = false) :
    s.caller.writer.TakesAlike e := by
  have hsucceeding := h.live.succeeding
  have hinv := hsucceeding.inv.writer.inv
  constructor
  · intro hruns
    cases e with
    | tryPerformAction _ => exact hsucceeding.unprocessed (hfree rfl)
    | completion =>
        obtain ⟨a, hpc⟩ := hruns
        have hok := hsucceeding.ok
        rw [hpc] at hok
        cases hok
    | write _ _ _ | finish _ | asyncNext _ _ _ _ => exact hruns.elim
  · rintro - a hpc hwrite hlast b hb
    by_contra hbwrite
    have hbwrite : b.isWrite = true := by simpa [StreamAction.isFinish] using hbwrite
    have ha : a ∈ s.caller.writer.handed := by
      apply hsucceeding.inv.writer.fate.mem_handed_of_completion
      rw [hpc]
      exact List.mem_cons_self
    have hincreasing := hinv.pushed_increasing
    have hbpushed : b ∈ s.caller.writer.pushed := by
      rw [hinv.order]
      exact List.mem_append_right _ hb
    -- a last message that is not the last of the messages
    obtain ⟨m, hm, hmlast⟩ := StreamAction.payload_of_isWrite hwrite
    obtain ⟨n, hn, -⟩ := StreamAction.payload_of_isWrite hbwrite
    have hearly := mem_dropLast_filterMap s.todo (fun _ _ => Nat.lt_asymm) hincreasing
      (hinv.mem_pushed_of_handed ha) hbpushed (hinv.id_lt_of_queued ha hb) hm hn
    rw [hsucceeding.pushed, hwrites.messages] at hearly
    rw [honly m hearly, hlast] at hmlast
    cases hmlast

/-- What an orderly step of the caller keeps. -/
theorem Completing.caller_step (h : s.Completing messages) (hwrites : s.Writes messages)
    (honly : ∀ m ∈ messages.dropLast, m.2.isLastMessage = false) (hlive : t.Live messages)
    {e' : AsyncClientStreamWriter.Event Unit Request Response}
    (hfree : e' = .tryPerformAction () → s.caller.writer.stateMutexHeld = false)
    (hcaller : s.caller.step e' = some t.caller) :
    t.caller.writer.handed = t.caller.writer.popped ∧ t.caller.ResultsOk ∧
    t.caller.writer.Responded := by
  have hmove := (AwaitingCaller.step_cases hcaller).1
  have htakes := h.takesAlike hwrites honly hfree
  have hsingle := h.live.succeeding.inv.writer
  refine ⟨(handedAll_move_iff hsingle hmove).mpr ⟨h.kept, htakes⟩, ?_, ?_⟩
  · exact h.live.succeeding.resultsOk_step h.results htakes hcaller
  · exact h.responded.move hmove hlive.running

theorem Completing.finishes_step (h : s.Completing messages)
    {e' : AsyncClientStreamWriter.Event Unit Request Response}
    {w : AsyncClientStreamWriter Unit Request Response}
    (hmove : AsyncClientStreamWriter.Move s.caller.writer e' w)
    (hreturns : ∀ a ∈ s.caller.writer.outstanding, a.isFinish = true → ∀ ok status response,
      e' = .asyncNext a.id ok status response → s.answered = true) :
    ∀ a ∈ w.handed, a.isFinish = true → a ∈ w.outstanding ∨ s.answered = true := by
  intro a ha hfinish
  obtain hout | ⟨hold, hkeeps⟩ := handed_move_cases hmove ha
  · exact .inl hout
  · obtain hout | hanswered := h.finishes a hold hfinish
    · refine (hkeeps hout).imp_right ?_
      rintro ⟨ok, status, response, he⟩
      exact hreturns a hout hfinish ok status response he
    · exact .inr hanswered

theorem Completing.finishes_move (h : s.Completing messages) (hlive : s.dead = false)
    (hmove : Move s e t) :
    ∀ a ∈ t.caller.writer.handed, a.isFinish = true →
      a ∈ t.caller.writer.outstanding ∨ t.answered = true := by
  cases hmove with
  | write _ hcaller | finish _ _ hcaller | tryPerformAction hcaller | completion hcaller =>
      exact h.finishes_step (AwaitingCaller.step_cases hcaller).1 fun _ _ _ _ _ _ he => by cases he
  | @asyncNext id ok status response caller hmay hcaller =>
      refine h.finishes_step (AwaitingCaller.step_cases hcaller).1 ?_
      intro a ha hfinish ok' status' response' he
      obtain ⟨b, hb, hid, hmay⟩ := hmay
      cases he
      have hinv := h.live.succeeding.inv.writer.inv
      have hpushed : ∀ c ∈ s.caller.writer.outstanding, c ∈ s.caller.writer.pushed := fun c hc =>
        hinv.mem_pushed_of_handed (hinv.inGrpc_handed c (List.mem_append_left _ hc))
      have hab : b = a := hinv.eq_of_id_eq (hpushed b hb) (hpushed a ha) hid
      rw [hab, mayReturn_of_isFinish hfinish, hlive, Bool.or_false, Bool.and_eq_true] at hmay
      exact hmay.2
  | answer _ _ => exact fun _ _ _ => .inr rfl
  | die _ => exact h.finishes

theorem Completing.step (h : s.Completing messages) (hwrites : s.Writes messages)
    (honly : ∀ m ∈ messages.dropLast, m.2.isLastMessage = false) (hlive : s.dead = false)
    (horderly : s.Orderly e) (hstep : s.step e = some t) : t.Completing messages := by
  have hnext := h.live.step hlive hstep
  have hmove := move_of_step hstep
  have hcaller : t.caller.writer.handed = t.caller.writer.popped ∧ t.caller.ResultsOk ∧
      t.caller.writer.Responded := by
    cases hmove with
    | tryPerformAction hcaller => exact h.caller_step hwrites honly hnext (fun _ => horderly) hcaller
    | write _ hcaller | finish _ _ hcaller | asyncNext _ hcaller | completion hcaller =>
        exact h.caller_step hwrites honly hnext (fun he => by cases he) hcaller
    | answer _ _ | die _ => exact ⟨h.kept, h.results, h.responded⟩
  exact ⟨hnext, hcaller.1, hcaller.2.1, hcaller.2.2, h.finishes_move hlive hmove⟩

end Client.StreamUpload

/-! What is left to do: a write costs thirteen steps at most and a Finish seven, the completions
included. -/

namespace Client.AwaitingCaller

open AsyncClientStreamWriter

variable {Request Response : Type} {s s' : AwaitingCaller Request Response}
  {e : AsyncClientStreamWriter.Event Unit Request Response}

def work (s : AwaitingCaller Request Response) : Nat :=
  (if s.submitted.all (·.isWrite) then 7 else 0) + s.writer.callers.length + s.writer.remaining +
    (!s.writer.terminated).toNat

theorem writer_step (h : s.step e = some s') : s.writer.step e = some s'.writer := by
  simp only [step] at h
  split at h
  · cases h
  · obtain ⟨w, hw, rfl⟩ := Option.map_eq_some_iff.mp h
    exact hw

theorem work_write {message : Request} {options : WriteOptions}
    (h : s.step (.write () message options) = some s') : s'.work ≤ s.work + 12 := by
  obtain ⟨-, hsubmitted, -⟩ := step_cases h
  obtain ⟨hterm, hmove⟩ := AsyncClientStreamWriter.step_cases (writer_step h)
  obtain ⟨w, submitted⟩ := s'
  cases hmove with
  | write ht =>
      have hone : submitted = s.submitted ++ [⟨s.writer.nextId, .write message options⟩] := hsubmitted
      have hall : submitted.all (·.isWrite) = s.submitted.all (·.isWrite) := by
        simp [hone, StreamAction.isWrite]
      have hload : load [(⟨s.writer.nextId, .write message options⟩ : StreamAction Request)] = 11 := rfl
      simp only [work, hall, remaining, newAction, load_append, hload, List.length_cons]
      omega

theorem work_finish (hwrites : ∀ a ∈ s.submitted, a.isWrite = true) (h : s.step (.finish ()) = some s') :
    s'.work < s.work := by
  obtain ⟨-, hsubmitted, -⟩ := step_cases h
  obtain ⟨hterm, hmove⟩ := AsyncClientStreamWriter.step_cases (writer_step h)
  obtain ⟨w, submitted⟩ := s'
  cases hmove with
  | finish ht =>
      have hall : s.submitted.all (·.isWrite) = true := List.all_eq_true.mpr hwrites
      have hone : submitted = s.submitted ++ [⟨s.writer.nextId, .finish⟩] := hsubmitted
      have hnot : submitted.all (·.isWrite) = false := by simp [hone, StreamAction.isWrite]
      have hload : load [(⟨s.writer.nextId, .finish⟩ : StreamAction Request)] = 5 := rfl
      simp only [work, hall, hnot, remaining, newAction, load_append, hload, List.length_cons]
      simp only [if_true, Bool.false_eq_true, if_false]
      omega

theorem work_tryPerformAction (h : s.step (.tryPerformAction ()) = some s') : s'.work < s.work := by
  obtain ⟨-, hsubmitted, -⟩ := step_cases h
  obtain ⟨hterm, hmove⟩ := AsyncClientStreamWriter.step_cases (writer_step h)
  obtain ⟨w, submitted⟩ := s'
  cases hmove with
  | tryPerformAction ht _ =>
      have hload := s.writer.load_tryPerformAction
      obtain ⟨l, hover, -⟩ := s.writer.tryPerformAction_handedOver
      have hcallers := List.length_erase_of_mem ht
      have hpos := List.length_pos_of_mem ht
      have hsame : submitted = s.submitted := hsubmitted.trans (List.append_nil _)
      simp only [work, hsame, remaining, hcallers, hover.completion, hover.terminated]
      omega

/-- The polling thread brings the writer on. -/
theorem work_polling (h : s.step e = some s')
    (he : (∃ id ok status response, e = .asyncNext id ok status response) ∨ e = .completion) :
    s'.work < s.work := by
  obtain ⟨-, hsubmitted, -⟩ := step_cases h
  obtain ⟨hterm, hmove⟩ := AsyncClientStreamWriter.step_cases (writer_step h)
  have hremaining := remaining_move hterm hmove he
  have hsame : s'.submitted = s.submitted := by
    rw [hsubmitted]
    obtain ⟨id, ok, status, response, rfl⟩ | rfl := he <;> exact List.append_nil _
  have hcallers : s'.writer.callers = s.writer.callers := by
    obtain ⟨id, ok, status, response, rfl⟩ | rfl := he
    · exact (asyncNext_handed (writer_step h)).2
    · exact completion_callers (writer_step h)
  simp only [work, hsame, hcallers, hterm, Bool.not_false, Bool.toNat_true]
  omega

end Client.AwaitingCaller

namespace Client.StreamUpload

open AsyncClientStreamWriter AwaitingCaller

variable {Request Response : Type} {s t : StreamUpload Request Response} {e : Event Response}
  {messages : List (Request × WriteOptions)}

def work (s : StreamUpload Request Response) : Nat :=
  13 * s.todo.length + s.caller.work + (!s.answered).toNat + (!s.dead).toNat

theorem work_lt (hstep : s.step e = some t) : t.work < s.work := by
  cases move_of_step hstep with
  | write htodo hcaller =>
      have hwork := work_write hcaller
      simp only [work, htodo, List.length_cons]
      omega
  | finish htodo hwrites hcaller =>
      have hwork := work_finish hwrites hcaller
      simp only [work]
      omega
  | tryPerformAction hcaller =>
      have hwork := work_tryPerformAction hcaller
      simp only [work]
      omega
  | asyncNext _ hcaller =>
      have hwork := work_polling hcaller (.inl ⟨_, _, _, _, rfl⟩)
      simp only [work]
      omega
  | completion hcaller =>
      have hwork := work_polling hcaller (.inr rfl)
      simp only [work]
      omega
  | answer _ hanswered => simp [work, hanswered]
  | die hlive => simp [work, hlive]

def Blocked (s : StreamUpload Request Response) : Prop :=
  ∀ e : Event Response, s.Orderly e → e ≠ .die → s.step e = none

theorem Blocked.idle (h : s.Blocked) (hrun : s.caller.writer.terminated = false) :
    s.caller.writer.completion = .idle := by
  by_contra hpc
  obtain ⟨t, hstep, -⟩ := completion_possible hrun hpc
  have hnone := h .completion trivial (by simp)
  rw [hstep] at hnone
  cases hnone

theorem Blocked.callers (h : s.Blocked) (hrun : s.caller.writer.terminated = false) :
    s.caller.writer.callers = [] := by
  have hfree : s.caller.writer.stateMutexHeld = false := by
    rw [stateMutexHeld, h.idle hrun]
  by_contra hne
  obtain ⟨u, hu⟩ := List.exists_mem_of_ne_nil _ hne
  have hstep : ∃ w, s.caller.writer.step (.tryPerformAction ()) = some w := by
    simp [AsyncClientStreamWriter.step, hrun, hfree, hu]
  obtain ⟨w, hw⟩ := hstep
  have hnone := h .tryPerformAction hfree (by simp)
  rw [StreamUpload.step, callerStep_of_writer rfl hw] at hnone
  cases hnone

theorem Blocked.mayReturn (h : s.Blocked) (hrun : s.caller.writer.terminated = false)
    {a : StreamAction Request} (ha : a ∈ s.caller.writer.outstanding) : s.mayReturn a true = false := by
  by_contra hmay
  rw [Bool.not_eq_false] at hmay
  obtain ⟨t, hstep, -⟩ := asyncNext_possible hrun (h.idle hrun) ha hmay
  have hnone := h (.asyncNext a.id true .OK none) trivial (by simp)
  rw [hstep] at hnone
  cases hnone

/-- The client waits for a Finish, which only a stream that is not half-closed keeps waiting. -/
theorem Completing.outstanding_of_blocked (h : s.Completing messages) (hblocked : s.Blocked)
    (hlast : ∃ m ∈ messages, m.2.isLastMessage = true) : s.caller.writer.outstanding = [] := by
  have hrun := h.live.running
  rw [List.eq_nil_iff_forall_not_mem]
  intro a ha
  have hmay := hblocked.mayReturn hrun ha
  have hfinish : a.isFinish = true := by
    by_contra hwrite
    unfold StreamUpload.mayReturn at hmay
    cases hkind : a.kind <;> simp_all [StreamAction.isFinish, StreamAction.isWrite]
  obtain ⟨m, hm, hmlast⟩ := hlast
  have hclosed := h.live.halfClosed hm hmlast ⟨a, ha, hfinish⟩
  by_cases hanswered : s.answered = true
  · simp [mayReturn_of_isFinish hfinish, hanswered] at hmay
  · have hnone := hblocked .answer trivial (by simp)
    rw [StreamUpload.step, if_pos ⟨.inl hclosed, hanswered⟩] at hnone
    cases hnone

theorem Completing.done (h : s.Completing messages) (hwrites : s.Writes messages)
    (hblocked : s.Blocked) (hlast : ∃ m ∈ messages, m.2.isLastMessage = true) : s.Done messages := by
  have hrun := h.live.running
  have hsingle := h.live.succeeding.inv.writer
  have hinv := hsingle.inv
  have hidle := hblocked.idle hrun
  have hcallers := hblocked.callers hrun
  have houtstanding := h.outstanding_of_blocked hblocked hlast
  have hactions : s.caller.writer.actions = [] := by
    have hbounded := hsingle.bounded
    rw [QueueBounded, hcallers, hidle] at hbounded
    exact List.eq_nil_of_length_eq_zero (Nat.le_zero.mp hbounded)
  -- nothing is queued and nothing outstanding, so what was submitted was handed over and is finalised
  have hhanded : s.caller.writer.handed = s.caller.submitted := by
    rw [h.kept, ← h.live.succeeding.pushed, hinv.order, hactions, List.append_nil]
  have hfulfilled : ∀ a ∈ s.caller.submitted, (s.caller.writer.promises a.id).Fulfilled := by
    intro a ha
    refine (hinv.fulfilled a (hhanded ▸ ha)).resolve_left ?_
    simp [awaiting, houtstanding, hidle, CompletionPc.awaiting]
  have hwaits : ¬ ∃ a ∈ s.caller.submitted, ¬ (s.caller.writer.promises a.id).Fulfilled := by
    rintro ⟨a, ha, hnot⟩
    exact hnot (hfulfilled a ha)
  have htodo : s.todo = [] := by
    cases htodo : s.todo with
    | nil => rfl
    | cons m rest =>
        have hnone := hblocked .write trivial (by simp)
        simp [StreamUpload.step, htodo, callerStep, AwaitingCaller.step, hwaits,
          AsyncClientStreamWriter.step, hrun, hcallers] at hnone
  have hfinished : ∃ a ∈ s.caller.submitted, a.isFinish = true := by
    by_contra hnot
    have hall : ∀ a ∈ s.caller.submitted, a.isWrite = true := by
      simpa [StreamAction.isFinish] using hnot
    have hnone := hblocked .finish trivial (by simp)
    rw [StreamUpload.step, if_pos ⟨by simp [htodo], hall⟩] at hnone
    simp [callerStep, AwaitingCaller.step, hwaits, AsyncClientStreamWriter.step, hrun, hcallers] at hnone
  obtain ⟨f, hf, hfinish⟩ := hfinished
  have hanswered : s.answered = true := by
    refine (h.finishes f (hhanded ▸ hf) hfinish).resolve_left ?_
    simp [houtstanding]
  have hsubmitted : s.caller.submitted.filterMap StreamAction.payload = messages := by
    have hmessages := hwrites.messages
    rwa [htodo, List.append_nil] at hmessages
  have hwritten : s.written = messages.map Prod.fst := by rw [written_eq, hhanded, hsubmitted]
  refine ⟨hwritten, hanswered, hsubmitted, ⟨f, hf, hfinish⟩, ?_, ?_, ?_⟩
  · exact fun a ha => (h.results a ha).resolve_left (hfulfilled a ha)
  · have hcount := h.live.counted.count
    have hpos : 0 < s.caller.writer.handed.countP (·.isFinish) :=
      List.countP_pos_iff.mpr ⟨f, hhanded ▸ hf, hfinish⟩
    simp only [houtstanding, hidle, beforeImpl, List.append_nil, List.countP_nil] at hcount
    exact h.responded (by omega)
  · have hledger := hsingle.fate.ledger
    rw [settled, houtstanding, hidle, CompletionPc.action, hhanded,
      ← h.live.succeeding.pushed] at hledger
    exact hledger

theorem completing_initial (response : Response) (messages : List (Request × WriteOptions)) :
    (initial response messages).Completing messages where
  live := live_initial response messages
  kept := rfl
  results := List.forall_mem_nil _
  responded := fun h => absurd rfl h
  finishes := List.forall_mem_nil _

/-- **Completion.** A client that flags its last message and no other, against any server that gives its
status once the stream is half-closed: whatever the orderly schedule, the upload takes at most thirteen
steps for each message and ten besides, and unless the call dies it stops only when gRPC has taken all
messages in order, every future is ready with `true`, and every action is deleted. -/
theorem completes_of_lastMessage (response : Response) (messages : List (Request × WriteOptions))
    (hlast : ∃ m ∈ messages, m.2.isLastMessage = true)
    (honly : ∀ m ∈ messages.dropLast, m.2.isLastMessage = false) :
    (system response messages).Quiesces (fun s e => s.Orderly e) (fun s e => s.Orderly e ∧ e ≠ .die)
      (13 * messages.length + 10) (fun s => s.dead = true ∨ s.Done messages)
      (initial response messages) := by
  have hwork : (initial response messages).work = 13 * messages.length + 10 := by
    simp [work, AwaitingCaller.work, initial, AsyncClientStreamWriter.initial, remaining, load,
      AsyncClientStreamWriter.completionWork]
  rw [← hwork]
  refine TransitionSystem.quiesces_of_descent
    (I := fun s => s.Writes messages ∧ (s.dead = false → s.Completing messages)) work ?_ ?_ ?_
  · rintro s e t ⟨hwrites, hcompleting⟩ horderly hstep
    refine ⟨⟨hwrites.step hstep, fun hnext => ?_⟩, work_lt hstep⟩
    have hlive := live_before hstep hnext
    exact (hcompleting hlive).step hwrites honly hlive horderly hstep
  · rintro s ⟨hwrites, hcompleting⟩ hblocked
    cases hlive : s.dead with
    | true => exact .inl rfl
    | false =>
        refine .inr ((hcompleting hlive).done hwrites ?_ hlast)
        exact fun e horderly hdie => hblocked e ⟨horderly, hdie⟩
  · exact ⟨writes_initial response messages, fun _ => completing_initial response messages⟩

def uploadThree : List (Event String) :=
  [0, 1, 2].flatMap (fun id => [.write, .tryPerformAction, .asyncNext id true .OK none] ++
    List.replicate 4 .completion) ++
  [.finish, .tryPerformAction, .answer, .asyncNext 3 true .OK (some "done")] ++
  List.replicate 4 .completion

theorem completes_threeMessages : ∃ s,
    (system "" threeMessages).run (initial "" threeMessages) uploadThree = some s ∧
    s.written = ["a", "b", "c"] ∧ s.caller.writer.owner.responsePromise = .value "done" ∧
    (system "" threeMessages).Quiesces (fun s e => s.Orderly e) (fun s e => s.Orderly e ∧ e ≠ .die) 49
      (fun s => s.dead = true ∨ s.Done threeMessages) (initial "" threeMessages) :=
  ⟨_, rfl, rfl, rfl, completes_of_lastMessage "" threeMessages (by decide) (by decide)⟩

end Client.StreamUpload

end EasyGrpc

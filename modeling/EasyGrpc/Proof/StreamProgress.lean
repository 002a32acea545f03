import EasyGrpc.Proof.PublishedResult
import EasyGrpc.Proof.StreamProtocol
import EasyGrpc.StreamExchange

/-!
# Progress of a client stream

The user of a live call submits `finish` when all messages are written and their futures are ready. A write
with a ready future was handed over, or a last message was, so a client that has a message flagged as the
last one has half-closed its stream by then. The reader's side is one of the servers of such an upload, and
so it comes to the end of the stream.
-/

namespace EasyGrpc

open Client Server

/-- The writes with a ready future were handed over, unless a last message was. -/
def Client.AsyncClientStreamWriter.HandedOrLast {Tid Request Response : Type}
    (w : AsyncClientStreamWriter Tid Request Response) : Prop :=
  ∀ a ∈ w.pushed, a.isWrite = true → (w.promises a.id).Fulfilled →
    a ∈ w.handed ∨ ∃ b ∈ w.handed, b.isLastMessage = true

namespace Client.AwaitingCaller

open AsyncClientStreamWriter

variable {Request Response : Type} {s s' : AwaitingCaller Request Response}
  {e : AsyncClientStreamWriter.Event Unit Request Response} {a : StreamAction Request}

/-- The drain loop rejects nothing unless a last message was written. -/
theorem Succeeding.drain_promises (h : s.Succeeding) :
    (drain false false s.writer.actions s.writer).promises = s.writer.promises := by
  match hq : s.writer.actions, h.length_actions_le with
  | [], _ => rfl
  | [b], _ => cases hb : b.kind <;> simp [drain, hb, popAction, perform, assertThat]

theorem Succeeding.handedOrLast_of_pending (h : s.Succeeding)
    {w : AsyncClientStreamWriter Unit Request Response} (hmove : Move s.writer e w)
    (ha : a ∈ s.writer.pushed) (hpending : s.writer.promises a.id = .pending)
    (hfulfilled : (w.promises a.id).Fulfilled) :
    a ∈ w.handed ∨ ∃ b ∈ w.handed, b.isLastMessage = true := by
  have hinv := h.inv.writer.inv
  have hsub := handed_subset_move hmove
  have hchanged : w.promises a.id ≠ s.writer.promises a.id :=
    fun heq => hfulfilled (heq.trans hpending)
  cases hmove with
  | write _ | finish _ | asyncNext _ _ | stateReady _ | finalizeFinish _ _ | delete _ =>
      exact absurd rfl hchanged
  | tryPerformAction _ _ =>
      have hsame := tryPerformAction_promises_of_unfinished h.inv.writer.unfinished
      exact absurd (congrFun hsame a.id) hchanged
  | @setResult b ok hpc =>
      have hhanded : b ∈ s.writer.handed := by
        apply h.inv.writer.fate.mem_handed_of_completion
        rw [hpc]
        exact List.mem_cons_self
      by_cases hid : a.id = b.id
      · have hab : a = b := hinv.eq_of_id_eq ha (hinv.mem_pushed_of_handed hhanded) hid
        exact .inl (hab ▸ hhanded)
      · refine absurd ?_ hchanged
        rw [hinv.setResult_promise hpc, Function.update_of_ne hid]
  | @finalizeWriteOk b hpc _ =>
      by_cases hlast : b.isLastMessage = true
      · have hb : b ∈ s.writer.handed := by
          apply h.inv.writer.fate.mem_handed_of_completion
          rw [hpc]
          exact List.mem_cons_self
        exact .inr ⟨b, hsub hb, hlast⟩
      · rw [Bool.not_eq_true] at hlast
        refine absurd ?_ hchanged
        change (drain b.isLastMessage false _ _).promises a.id = _
        rw [hlast, h.drain_promises]
  | finalizeWriteFailed hpc _ | finishPushed hpc =>
      have hok := h.ok
      rw [hpc] at hok
      cases hok

theorem Succeeding.handedOrLast_step (h : s.Succeeding) (hhanded : HandedOrLast s.writer)
    (hstep : s.step e = some s') : HandedOrLast s'.writer := by
  obtain ⟨hmove, -, -⟩ := step_cases hstep
  have hinv := h.inv.writer.inv
  intro a ha hwrite hfulfilled
  rw [pushed_submits h.ok hmove, List.mem_append, Option.mem_toList] at ha
  cases ha with
  | inl hold =>
      by_cases hpending : s.writer.promises a.id = .pending
      · exact h.handedOrLast_of_pending hmove hold hpending hfulfilled
      · have hsub := handed_subset_move hmove
        obtain hhand | ⟨b, hb, hlast⟩ := hhanded a hold hwrite hpending
        · exact .inl (hsub hhand)
        · exact .inr ⟨b, hsub hb, hlast⟩
  | inr hnew =>
      -- a new action is queued, and the futures of queued actions are not ready
      have hqueued := (submits_move hmove hnew).2.1
      exact absurd ((hinv.move hmove).pending_queued a hqueued) hfulfilled

end Client.AwaitingCaller

namespace Client.StreamUpload

open AsyncClientStreamWriter AwaitingCaller

variable {Request Response : Type} {s t : StreamUpload Request Response} {e : Event Response}
  {messages : List (Request × WriteOptions)}

def FinishOutstanding (s : StreamUpload Request Response) : Prop :=
  ∃ a ∈ s.caller.writer.outstanding, a.isFinish = true

theorem callerStep_eq_some_iff {e : AsyncClientStreamWriter.Event Unit Request Response} :
    s.callerStep e = some t ↔ s.caller.step e = some t.caller ∧ t = { s with caller := t.caller } := by
  rw [callerStep, Option.map_eq_some_iff]
  constructor
  · rintro ⟨c, hc, rfl⟩
    exact ⟨hc, rfl⟩
  · rintro ⟨hc, heq⟩
    exact ⟨t.caller, hc, heq.symm⟩

inductive Move (s : StreamUpload Request Response) :
    Event Response → StreamUpload Request Response → Prop where
  | write {message : Request} {options : WriteOptions} {rest : List (Request × WriteOptions)}
      {caller : AwaitingCaller Request Response} (htodo : s.todo = (message, options) :: rest)
      (hcaller : s.caller.step (.write () message options) = some caller) :
      Move s .write { s with caller := caller, todo := rest }
  | finish {caller : AwaitingCaller Request Response} (htodo : s.todo = [])
      (hwrites : ∀ a ∈ s.caller.submitted, a.isWrite = true)
      (hcaller : s.caller.step (.finish ()) = some caller) : Move s .finish { s with caller := caller }
  | tryPerformAction {caller : AwaitingCaller Request Response}
      (hcaller : s.caller.step (.tryPerformAction ()) = some caller) :
      Move s .tryPerformAction { s with caller := caller }
  | asyncNext {id : Nat} {ok : Bool} {status : Status} {response : Option Response}
      {caller : AwaitingCaller Request Response}
      (hmay : ∃ a ∈ s.caller.writer.outstanding, a.id = id ∧ s.mayReturn a ok = true)
      (hcaller : s.caller.step (.asyncNext id ok status response) = some caller) :
      Move s (.asyncNext id ok status response) { s with caller := caller }
  | completion {caller : AwaitingCaller Request Response}
      (hcaller : s.caller.step .completion = some caller) :
      Move s .completion { s with caller := caller }
  | answer (hend : s.halfClosed = true ∨ s.dead = true) (hanswered : s.answered = false) :
      Move s .answer { s with answered := true }
  | die (hlive : s.dead = false) : Move s .die { s with dead := true }

theorem move_of_step (h : s.step e = some t) : Move s e t := by
  cases e with
  | write =>
      simp only [StreamUpload.step] at h
      split at h
      · cases h
      · rename_i message options rest htodo
        obtain ⟨u, hu, rfl⟩ := Option.map_eq_some_iff.mp h
        obtain ⟨hc, heq⟩ := callerStep_eq_some_iff.mp hu
        rw [heq]
        exact .write htodo hc
  | finish =>
      simp only [StreamUpload.step] at h
      split at h
      · rename_i hguard
        obtain ⟨hc, heq⟩ := callerStep_eq_some_iff.mp h
        rw [heq]
        exact .finish (List.isEmpty_iff.mp hguard.1) hguard.2 hc
      · cases h
  | tryPerformAction =>
      obtain ⟨hc, heq⟩ := callerStep_eq_some_iff.mp h
      rw [heq]
      exact .tryPerformAction hc
  | asyncNext id ok status response =>
      simp only [StreamUpload.step] at h
      split at h
      · rename_i hguard
        obtain ⟨hc, heq⟩ := callerStep_eq_some_iff.mp h
        rw [heq]
        exact .asyncNext hguard hc
      · cases h
  | completion =>
      obtain ⟨hc, heq⟩ := callerStep_eq_some_iff.mp h
      rw [heq]
      exact .completion hc
  | answer =>
      simp only [StreamUpload.step] at h
      split at h
      · rename_i hguard
        exact Option.some.inj h ▸ .answer hguard.1 (by simpa using hguard.2)
      · cases h
  | die =>
      simp only [StreamUpload.step] at h
      split at h
      · cases h
      · rename_i hguard
        exact Option.some.inj h ▸ .die (by simpa using hguard)

inductive CallerEvent (s : StreamUpload Request Response) :
    AsyncClientStreamWriter.Event Unit Request Response → List (Request × WriteOptions) → Prop where
  | write {message : Request} {options : WriteOptions} {rest : List (Request × WriteOptions)}
      (htodo : s.todo = (message, options) :: rest) :
      CallerEvent s (.write () message options) rest
  | finish (htodo : s.todo = []) (hwrites : ∀ a ∈ s.caller.submitted, a.isWrite = true) :
      CallerEvent s (.finish ()) s.todo
  | tryPerformAction : CallerEvent s (.tryPerformAction ()) s.todo
  | asyncNext {id : Nat} {ok : Bool} {status : Status} {response : Option Response}
      (hok : s.dead = false → ok = true) :
      CallerEvent s (.asyncNext id ok status response) s.todo
  | completion : CallerEvent s .completion s.todo

theorem ok_of_mayReturn {a : StreamAction Request} {ok : Bool} (h : s.mayReturn a ok = true)
    (hlive : s.dead = false) : ok = true := by
  unfold mayReturn at h
  split at h
  · simpa [hlive] using h
  · simp only [Bool.and_eq_true] at h
    exact h.1

theorem mayReturn_of_isFinish {a : StreamAction Request} (ha : a.isFinish = true) (ok : Bool) :
    s.mayReturn a ok = (ok && (s.answered || s.dead)) := by
  cases hkind : a.kind with
  | finish => simp [mayReturn, hkind]
  | write message options => simp [StreamAction.isFinish, StreamAction.isWrite, hkind] at ha

/-- The caller takes a step, or it stays and so do its messages. -/
theorem Move.caller (h : Move s e t) :
    (t.caller = s.caller ∧ t.todo = s.todo) ∨
      ∃ e', CallerEvent s e' t.todo ∧ s.caller.step e' = some t.caller := by
  cases h with
  | write htodo hcaller => exact .inr ⟨_, .write htodo, hcaller⟩
  | finish htodo hwrites hcaller => exact .inr ⟨_, .finish htodo hwrites, hcaller⟩
  | tryPerformAction hcaller => exact .inr ⟨_, .tryPerformAction, hcaller⟩
  | asyncNext hmay hcaller =>
      obtain ⟨a, -, -, hmay⟩ := hmay
      exact .inr ⟨_, .asyncNext (ok_of_mayReturn hmay), hcaller⟩
  | completion hcaller => exact .inr ⟨_, .completion, hcaller⟩
  | answer _ _ | die _ => exact .inl ⟨rfl, rfl⟩

theorem live_before (h : s.step e = some t) (hlive : t.dead = false) : s.dead = false := by
  cases move_of_step h with
  | die _ => cases hlive
  | write _ _ | finish _ _ _ | tryPerformAction _ | asyncNext _ _ | completion _ | answer _ _ =>
      exact hlive

theorem halfClosed_step (h : s.step e = some t) (hclosed : s.halfClosed = true) :
    t.halfClosed = true := by
  obtain ⟨a, ha, hlast⟩ := List.any_eq_true.mp hclosed
  refine List.any_eq_true.mpr ⟨a, ?_, hlast⟩
  obtain ⟨hcaller, -⟩ | ⟨e', -, hcaller⟩ := (move_of_step h).caller
  · exact hcaller ▸ ha
  · exact handed_subset_move (AwaitingCaller.step_cases hcaller).1 ha

structure FinishLast (s : StreamUpload Request Response) : Prop where
  finished : (∃ a ∈ s.caller.submitted, a.isFinish = true) →
    s.todo = [] ∧ ∀ a ∈ s.caller.submitted, a.isWrite = true → (s.caller.writer.promises a.id).Fulfilled
  once : s.caller.submitted.countP (·.isFinish) ≤ 1

structure Live (messages : List (Request × WriteOptions)) (s : StreamUpload Request Response) :
    Prop where
  succeeding : s.caller.Succeeding
  handedOrLast : HandedOrLast s.caller.writer
  covered : ∀ m ∈ messages, m ∈ s.todo ∨ ∃ a ∈ s.caller.submitted, a.kind = .write m.1 m.2
  finishLast : s.FinishLast
  counted : s.caller.writer.FinishesCounted
  running : s.caller.writer.terminated = false

theorem Live.countP_handed_le (h : s.Live messages) :
    s.caller.writer.handed.countP (·.isFinish) ≤ 1 := by
  have hinv := h.succeeding.inv.writer.inv
  calc
    s.caller.writer.handed.countP (·.isFinish) ≤ s.caller.writer.popped.countP (·.isFinish) :=
      hinv.handed_sublist.countP_le
    _ ≤ s.caller.writer.pushed.countP (·.isFinish) := by
      rw [hinv.order]
      exact (List.sublist_append_left _ _).countP_le
    _ = s.caller.submitted.countP (·.isFinish) := by rw [h.succeeding.pushed]
    _ ≤ 1 := h.finishLast.once

theorem CallerEvent.completesOk {e : AsyncClientStreamWriter.Event Unit Request Response}
    {todo : List (Request × WriteOptions)} (h : CallerEvent s e todo) (hlive : s.dead = false) :
    CompletesOk e := by
  cases h with
  | asyncNext hok => exact hok hlive
  | write _ | finish _ _ | tryPerformAction | completion => trivial

theorem Live.covered_step (h : s.Live messages) {e : AsyncClientStreamWriter.Event Unit Request Response}
    (hevent : CallerEvent s e t.todo)
    (hsubmitted : t.caller.submitted = s.caller.submitted ++ (s.caller.submits e).toList) :
    ∀ m ∈ messages, m ∈ t.todo ∨ ∃ a ∈ t.caller.submitted, a.kind = .write m.1 m.2 := by
  intro m hm
  rw [hsubmitted]
  cases h.covered m hm with
  | inl htodo =>
      generalize t.todo = todo at hevent ⊢
      cases hevent with
      | write hs =>
          rw [hs, List.mem_cons] at htodo
          cases htodo with
          | inl hfirst =>
              subst hfirst
              exact .inr ⟨_, List.mem_append_right _ List.mem_cons_self, rfl⟩
          | inr hrest => exact .inl hrest
      | finish _ _ | tryPerformAction | asyncNext _ | completion => exact .inl htodo
  | inr hold =>
      obtain ⟨a, ha, hkind⟩ := hold
      exact .inr ⟨a, List.mem_append_left _ ha, hkind⟩

theorem FinishLast.congr (h : s.FinishLast) (htodo : t.todo = s.todo)
    (hsubmitted : t.caller.submitted = s.caller.submitted)
    (hready : ∀ id, (s.caller.writer.promises id).Fulfilled → (t.caller.writer.promises id).Fulfilled) :
    t.FinishLast := by
  refine ⟨fun hfinish => ?_, hsubmitted ▸ h.once⟩
  rw [hsubmitted] at hfinish ⊢
  obtain ⟨hempty, hall⟩ := h.finished hfinish
  exact ⟨htodo.trans hempty, fun a ha hwrite => hready a.id (hall a ha hwrite)⟩

theorem FinishLast.write (h : s.FinishLast) {m : Request × WriteOptions}
    {rest : List (Request × WriteOptions)} (htodo : s.todo = m :: rest) {a : StreamAction Request}
    (ha : a.isFinish = false) (hsubmitted : t.caller.submitted = s.caller.submitted ++ [a]) :
    t.FinishLast := by
  refine ⟨fun hfinish => ?_, ?_⟩
  · obtain ⟨b, hb, hbfinish⟩ := hfinish
    rw [hsubmitted, List.mem_append, List.mem_singleton] at hb
    cases hb with
    | inl hold =>
        have hempty := (h.finished ⟨b, hold, hbfinish⟩).1
        rw [htodo] at hempty
        cases hempty
    | inr hnew =>
        rw [hnew, ha] at hbfinish
        cases hbfinish
  · rw [hsubmitted, List.countP_append, List.countP_singleton, ha]
    exact h.once

theorem FinishLast.finish (htodo : t.todo = []) (hwrites : ∀ a ∈ s.caller.submitted, a.isWrite = true)
    (hready : ∀ a ∈ s.caller.submitted, (t.caller.writer.promises a.id).Fulfilled)
    {a : StreamAction Request} (ha : a.isFinish = true)
    (hsubmitted : t.caller.submitted = s.caller.submitted ++ [a]) : t.FinishLast := by
  refine ⟨fun _ => ⟨htodo, fun b hb hwrite => ?_⟩, ?_⟩
  · rw [hsubmitted, List.mem_append, List.mem_singleton] at hb
    cases hb with
    | inl hold => exact hready b hold
    | inr hnew =>
        rw [hnew] at hwrite
        rw [StreamAction.isFinish, hwrite] at ha
        cases ha
  · have hnone : s.caller.submitted.countP (·.isFinish) = 0 := by
      rw [List.countP_eq_zero]
      intro b hb
      simp [StreamAction.isFinish, hwrites b hb]
    rw [hsubmitted, List.countP_append, hnone, List.countP_singleton, ha]
    exact Nat.le_refl 1

theorem FinishLast.step (h : s.FinishLast) (hinv : s.caller.Inv)
    {e : AsyncClientStreamWriter.Event Unit Request Response} (hevent : CallerEvent s e t.todo)
    (hstep : s.caller.step e = some t.caller) : t.FinishLast := by
  obtain ⟨hmove, hsubmitted, hawaits⟩ := AwaitingCaller.step_cases hstep
  have hready : ∀ id, (s.caller.writer.promises id).Fulfilled →
      (t.caller.writer.promises id).Fulfilled := by
    intro id hid
    rw [hinv.writer.inv.promises_move hmove hid]
    exact hid
  obtain ⟨caller, todo, answered, dead⟩ := t
  cases hevent with
  | write htodo => exact h.write htodo rfl hsubmitted
  | finish htodo hwrites =>
      exact FinishLast.finish htodo hwrites (fun a ha => hready a.id (hawaits rfl a ha)) rfl hsubmitted
  | tryPerformAction | asyncNext _ | completion =>
      exact h.congr rfl (hsubmitted.trans (List.append_nil _)) hready

theorem Live.step (h : s.Live messages) (hlive : s.dead = false) (hstep : s.step e = some t) :
    t.Live messages := by
  obtain ⟨hcaller, htodo⟩ | ⟨e', hevent, hcaller⟩ := (move_of_step hstep).caller
  · constructor
    · exact hcaller ▸ h.succeeding
    · exact hcaller ▸ h.handedOrLast
    · exact hcaller ▸ htodo ▸ h.covered
    · exact h.finishLast.congr htodo (hcaller ▸ rfl) fun id hid => hcaller ▸ hid
    · exact hcaller ▸ h.counted
    · exact hcaller ▸ h.running
  · obtain ⟨hmove, hsubmitted, -⟩ := AwaitingCaller.step_cases hcaller
    have hrunning := h.counted.running_move h.running h.countP_handed_le hmove
    constructor
    · exact h.succeeding.step (hevent.completesOk hlive) hcaller
    · exact h.succeeding.handedOrLast_step h.handedOrLast hcaller
    · exact h.covered_step hevent hsubmitted
    · exact h.finishLast.step h.succeeding.inv hevent hcaller
    · exact h.counted.move hmove hrunning
    · exact hrunning

theorem live_initial (response : Response) (messages : List (Request × WriteOptions)) :
    (initial response messages).Live messages where
  succeeding := succeeding_initial response
  handedOrLast := List.forall_mem_nil _
  covered := fun _ hm => .inl hm
  finishLast := by
    refine ⟨?_, Nat.zero_le 1⟩
    rintro ⟨a, ha, -⟩
    cases ha
  counted := ⟨rfl, fun _ => rfl⟩
  running := rfl

theorem live_of_reachable {response : Response} (hs : (system response messages).Reachable s)
    (hlive : s.dead = false) : s.Live messages := by
  refine hs.invariant (I := fun s => s.dead = false → s.Live messages) ?_ ?_ hlive
  · rintro _ rfl -
    exact live_initial response messages
  · intro s e t h _ hstep hlive
    have hbefore := live_before hstep hlive
    exact (h hbefore).step hbefore hstep

/-- The Finish of the user is submitted when the last message has been taken or rejected, and it is
rejected only after a last message. -/
theorem Live.halfClosed (h : s.Live messages) {m : Request × WriteOptions} (hm : m ∈ messages)
    (hlast : m.2.isLastMessage = true) (hfinish : s.FinishOutstanding) : s.halfClosed = true := by
  obtain ⟨a, ha, hafinish⟩ := hfinish
  have hinv := h.succeeding.inv.writer.inv
  have hsubmitted : a ∈ s.caller.submitted := by
    rw [← h.succeeding.pushed]
    exact hinv.mem_pushed_of_handed (hinv.inGrpc_handed a (List.mem_append_left _ ha))
  obtain ⟨hempty, hfulfilled⟩ := h.finishLast.finished ⟨a, hsubmitted, hafinish⟩
  rw [StreamUpload.halfClosed, List.any_eq_true]
  obtain htodo | ⟨b, hb, hkind⟩ := h.covered m hm
  · rw [hempty] at htodo
    cases htodo
  · have hwrite : b.isWrite = true := by simp [StreamAction.isWrite, hkind]
    have hblast : b.isLastMessage = true := by simp [StreamAction.isLastMessage, hkind, hlast]
    have hpushed : b ∈ s.caller.writer.pushed := h.succeeding.pushed ▸ hb
    obtain hhanded | hother := h.handedOrLast b hpushed hwrite (hfulfilled b hb hwrite)
    · exact ⟨b, hhanded, hblast⟩
    · exact hother

/-- A writer that runs and whose polling thread is at work goes on. -/
theorem completionStep_isSome {w : AsyncClientStreamWriter Unit Request Response}
    (hpc : w.completion ≠ .idle) : ∃ w', w.completionStep = some w' := by
  unfold completionStep
  split
  · exact absurd ‹_› hpc
  · exact ⟨_, rfl⟩
  · exact ⟨_, rfl⟩
  · split <;> exact ⟨_, rfl⟩
  · exact ⟨_, rfl⟩
  · exact ⟨_, rfl⟩

/-- What a writer does by itself its caller does not stand in the way of. -/
theorem callerStep_of_writer {e : AsyncClientStreamWriter.Event Unit Request Response}
    (hsubmits : s.caller.submits e = none) {w : AsyncClientStreamWriter Unit Request Response}
    (hw : s.caller.writer.step e = some w) :
    s.callerStep e = some { s with caller := { s.caller with writer := w } } := by
  simp [callerStep, AwaitingCaller.step, hsubmits, hw]

theorem asyncNext_possible {a : StreamAction Request} (hrun : s.caller.writer.terminated = false)
    (hidle : s.caller.writer.completion = .idle) (ha : a ∈ s.caller.writer.outstanding)
    (hmay : s.mayReturn a true = true) :
    ∃ t, s.step (.asyncNext a.id true .OK none : Event Response) = some t ∧ t.dead = s.dead := by
  have hguard : ∃ b ∈ s.caller.writer.outstanding, b.id = a.id ∧ s.mayReturn b true = true :=
    ⟨a, ha, rfl, hmay⟩
  have hreturn : ∃ w, s.caller.writer.step (.asyncNext a.id true .OK none) = some w := by
    obtain ⟨b, hb⟩ : ∃ b, s.caller.writer.outstanding.find? (·.id = a.id) = some b := by
      rw [← Option.isSome_iff_exists, List.find?_isSome]
      exact ⟨a, ha, by simp⟩
    simp only [AsyncClientStreamWriter.step, hrun, hidle, hb]
    exact ⟨_, rfl⟩
  obtain ⟨w, hw⟩ := hreturn
  exact ⟨_, (if_pos hguard).trans (callerStep_of_writer rfl hw), rfl⟩

theorem completion_possible (hrun : s.caller.writer.terminated = false)
    (hpc : s.caller.writer.completion ≠ .idle) :
    ∃ t, s.step (.completion : Event Response) = some t ∧ t.dead = s.dead := by
  obtain ⟨w, hcompletes⟩ := completionStep_isSome hpc
  have hw : s.caller.writer.step .completion = some w := by
    simp only [AsyncClientStreamWriter.step, hrun]
    exact hcompletes
  exact ⟨_, callerStep_of_writer rfl hw, rfl⟩

end Client.StreamUpload

namespace StreamExchange

open StreamUpload

variable {Request Response : Type} {s t : StreamExchange Request Response} {e : Event Response}
  {messages : List (Request × WriteOptions)}

/-- In a live call whose Finish is outstanding and whose messages are all read, the client has
half-closed the stream, so an outstanding Read can complete. -/
def EndSignalled (s : StreamExchange Request Response) : Prop :=
  s.dead = false → s.FinishOutstanding → s.written.length ≤ s.received →
    s.halfClosed = true ∧
      (s.reader.moved = some .pending → ∃ t, s.step (.read false : Event Response) = some t)

/-- The call is live, and nothing can happen any more unless it dies. -/
def Stuck (s : StreamExchange Request Response) : Prop :=
  s.dead = false ∧ ∀ (e : Event Response) t, s.step e = some t → t.dead = true

inductive Move (s : StreamExchange Request Response) :
    Event Response → StreamExchange Request Response → Prop where
  | upload {e : Event Response} {e' : StreamUpload.Event Response}
      {upload : StreamUpload Request Response} (hread : ∀ ok, e ≠ .read ok)
      (hupload : s.toStreamUpload.step e' = some upload) : Move s e { s with toStreamUpload := upload }
  | moveNext (hawaited : s.reader.awaited = true) :
      Move s .moveNext { s with reader := s.reader.moveNext }
  | readMessage {message : Request} (hpending : s.reader.moved = some .pending)
      (hmessage : s.written[s.received]? = some message) :
      Move s (.read true)
        { s with reader := s.reader.finalizeRead true message, received := s.received + 1 }
  | readEnd (hpending : s.reader.moved = some .pending) (hend : s.halfClosed = true ∨ s.dead = true) :
      Move s (.read false) { s with reader := s.reader.finalizeRead false s.reader.current }
  | answer (hmoved : s.reader.moved = some (.value false)) (hanswered : s.answered = false) :
      Move s .answer { s with answered := true }

theorem move_of_step (h : s.step e = some t) : Move s e t := by
  cases e with
  | write | finish | tryPerformAction | asyncNext _ _ _ _ | completion | die =>
      obtain ⟨upload, hupload, rfl⟩ := Option.map_eq_some_iff.mp h
      exact .upload nofun hupload
  | moveNext =>
      simp only [StreamExchange.step] at h
      split at h
      · exact Option.some.inj h ▸ .moveNext ‹_›
      · cases h
  | read ok =>
      cases ok with
      | true =>
          simp only [StreamExchange.step] at h
          split at h
          · obtain ⟨message, hmessage, rfl⟩ := Option.map_eq_some_iff.mp h
            exact .readMessage ‹_› hmessage
          · cases h
      | false =>
          simp only [StreamExchange.step] at h
          split at h
          · rename_i hguard
            exact Option.some.inj h ▸ .readEnd hguard.1 hguard.2
          · cases h
  | answer =>
      simp only [StreamExchange.step] at h
      split at h
      · rename_i hguard
        exact Option.some.inj h ▸ .answer hguard.1 (by simpa using hguard.2)
      · cases h

def EndIsReal (s : StreamExchange Request Response) : Prop :=
  s.reader.moved = some (.value false) → s.halfClosed = true ∨ s.dead = true

/-- **Refinement.** The reader's side is one of the servers of an upload: whatever it does, the client's
half is an upload whose status comes after the half-close. -/
theorem upload_of_reachable {request : Request} {response : Response}
    (hs : (system request response messages).Reachable s) :
    (StreamUpload.system response messages).Reachable s.toStreamUpload := by
  refine (hs.simulates (I := EndIsReal) (·.toStreamUpload) ?_ ?_).2
  · rintro _ rfl
    exact ⟨nofun, rfl⟩
  · intro s e t hreal hstep
    cases move_of_step hstep with
    | @upload _ e' upload _ hupload =>
        refine ⟨fun hmoved => (hreal hmoved).imp (halfClosed_step hupload) fun hdead => ?_, .inr ⟨e', hupload⟩⟩
        by_contra hlive
        have hbefore := live_before hupload (by simpa using hlive)
        rw [hdead] at hbefore
        cases hbefore
    | moveNext _ | readMessage _ _ => exact ⟨nofun, .inl rfl⟩
    | readEnd _ hend => exact ⟨fun _ => hend, .inl rfl⟩
    | answer hmoved hanswered =>
        exact ⟨hreal, .inr ⟨.answer, if_pos ⟨hreal hmoved, by simp [hanswered]⟩⟩⟩

theorem step_read_false (hpending : s.reader.moved = some .pending) (hclosed : s.halfClosed = true) :
    s.step (.read false : Event Response) =
      some { s with reader := s.reader.finalizeRead false s.reader.current } := by
  simp [StreamExchange.step, hpending, hclosed]

/-- After the answer the Finish of the client can be completed. -/
theorem finish_proceeds (h : s.Live messages) (hlive : s.dead = false) (hanswered : s.answered = true)
    (hfinish : s.FinishOutstanding) :
    ∃ (e : Event Response) (t : StreamExchange Request Response), s.step e = some t ∧ t.dead = false := by
  obtain ⟨a, ha, -⟩ := hfinish
  by_cases hpc : s.caller.writer.completion = .idle
  · have hmay : s.mayReturn a true = true := by
      unfold mayReturn
      split <;> simp [hanswered]
    obtain ⟨upload, hupload, hdead⟩ := asyncNext_possible h.running hpc ha hmay
    exact ⟨.asyncNext a.id true .OK none, _, Option.map_eq_some_iff.mpr ⟨upload, hupload, rfl⟩,
      hdead.trans hlive⟩
  · obtain ⟨upload, hupload, hdead⟩ := completion_possible h.running hpc
    exact ⟨.completion, _, Option.map_eq_some_iff.mpr ⟨upload, hupload, rfl⟩, hdead.trans hlive⟩

theorem not_stuck (h : s.Live messages) (hlive : s.dead = false) (hclosed : s.halfClosed = true)
    (hfinish : s.FinishOutstanding) : ¬ s.Stuck := by
  have hproceeds : ∃ (e : Event Response) (t : StreamExchange Request Response),
      s.step e = some t ∧ t.dead = false := by
    cases hmoved : s.reader.moved with
    | none => exact ⟨.moveNext, _, if_pos (by simp [AsyncClientStreamReader.awaited, hmoved]), hlive⟩
    | some p =>
        cases p with
        | value ok =>
            cases ok with
            | true => exact ⟨.moveNext, _, if_pos (by simp [AsyncClientStreamReader.awaited, hmoved]), hlive⟩
            | false =>
                by_cases hanswered : s.answered = true
                · exact finish_proceeds h hlive hanswered hfinish
                · exact ⟨.answer, _, if_pos ⟨hmoved, hanswered⟩, hlive⟩
        | pending => exact ⟨.read false, _, step_read_false hmoved hclosed, hlive⟩
        | exception ex => cases ex
  intro hstuck
  obtain ⟨e, t, hstep, hnext⟩ := hproceeds
  have hdead := hstuck.2 e t hstep
  rw [hnext] at hdead
  cases hdead

end StreamExchange

end EasyGrpc

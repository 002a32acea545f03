import EasyGrpc.Client.AsyncClientStreamWriter
import EasyGrpc.Outstanding

/-!
# What a step of the stream writer can do

One inversion lemma for the step function, one for `tryPerformAction`, and for the drain loop a rule
for what it preserves and a description of what it hands over.
-/

namespace EasyGrpc.Client.AsyncClientStreamWriter

variable {Tid Request Response : Type} [DecidableEq Tid]

inductive Move (w : AsyncClientStreamWriter Tid Request Response) :
    Event Tid Request Response → AsyncClientStreamWriter Tid Request Response → Prop where
  | write {t : Tid} {message : Request} {options : WriteOptions} (ht : t ∉ w.callers) :
      Move w (.write t message options)
        { w.newAction (.write message options) with callers := t :: w.callers }
  | finish {t : Tid} (ht : t ∉ w.callers) :
      Move w (.finish t) { w.newAction .finish with callers := t :: w.callers }
  | tryPerformAction {t : Tid} (ht : t ∈ w.callers)
      (hmutex : w.state = .ready → w.stateMutexHeld = true → w.actions.isEmpty = true) :
      Move w (.tryPerformAction t) { w.tryPerformAction with callers := w.callers.erase t }
  | asyncNext {id : Nat} {ok : Bool} {status : Status} {response : Option Response}
      {a : StreamAction Request} (hpc : w.completion = .idle)
      (ha : w.outstanding.find? (·.id = id) = some a) :
      Move w (.asyncNext id ok status response)
        { w with
          outstanding := w.outstanding.eraseP (·.id = id)
          owner := storeFinal a status response w.owner
          completion := .gotEvent a ok }
  | setResult {a : StreamAction Request} {ok : Bool} (hpc : w.completion = .gotEvent a ok) :
      Move w .completion (w.finalizeSetResult a ok)
  | stateReady {a : StreamAction Request} {ok : Bool} (hpc : w.completion = .resultSet a ok) :
      Move w .completion { w with state := .ready, completion := .stateReady a ok }
  | finalizeWriteOk {a : StreamAction Request} (hpc : w.completion = .stateReady a true)
      (ha : a.isWrite = true) :
      Move w .completion
        { drain a.isLastMessage false w.actions w with completion := .finalized a }
  | finalizeWriteFailed {a : StreamAction Request} (hpc : w.completion = .stateReady a false)
      (ha : a.isWrite = true) :
      Move w .completion { w.newAction .finish with completion := .finishPushed a }
  | finalizeFinish {a : StreamAction Request} {ok : Bool} (hpc : w.completion = .stateReady a ok)
      (ha : a.isFinish = true) :
      Move w .completion (w.finalizeFinish a ok)
  | finishPushed {a : StreamAction Request} (hpc : w.completion = .finishPushed a) :
      Move w .completion { w.tryPerformAction with completion := .finalized a }
  | delete {a : StreamAction Request} (hpc : w.completion = .finalized a) :
      Move w .completion { w with deleted := w.deleted ++ [a], completion := .idle }

theorem move_of_completionStep {w w' : AsyncClientStreamWriter Tid Request Response}
    (h : w.completionStep = some w') : Move w .completion w' := by
  unfold completionStep at h
  split at h
  case h_1 => cases h
  case h_2 a ok hpc => exact Option.some.inj h ▸ .setResult hpc
  case h_3 a ok hpc => exact Option.some.inj h ▸ .stateReady hpc
  case h_4 a ok hpc =>
    split at h
    case h_1 message options hkind =>
      have ha : a.isWrite = true := by simp [StreamAction.isWrite, hkind]
      cases ok with
      | true => exact Option.some.inj h ▸ .finalizeWriteOk hpc ha
      | false => exact Option.some.inj h ▸ .finalizeWriteFailed hpc ha
    case h_2 hkind =>
      have ha : a.isFinish = true := by simp [StreamAction.isFinish, StreamAction.isWrite, hkind]
      exact Option.some.inj h ▸ .finalizeFinish hpc ha
  case h_5 a hpc => exact Option.some.inj h ▸ .finishPushed hpc
  case h_6 a hpc => exact Option.some.inj h ▸ .delete hpc

theorem step_cases {w w' : AsyncClientStreamWriter Tid Request Response}
    {e : Event Tid Request Response} (h : w.step e = some w') :
    w.terminated = false ∧ Move w e w' := by
  cases e with
  | write t message options =>
      simp only [step] at h
      split at h
      · cases h
      · rename_i hguard
        push Not at hguard
        exact ⟨by simpa using hguard.1, Option.some.inj h ▸ .write hguard.2⟩
  | finish t =>
      simp only [step] at h
      split at h
      · cases h
      · rename_i hguard
        push Not at hguard
        exact ⟨by simpa using hguard.1, Option.some.inj h ▸ .finish hguard.2⟩
  | tryPerformAction t =>
      simp only [step] at h
      split at h
      · cases h
      · rename_i hguard
        push Not at hguard
        obtain ⟨hterm, ht, hmutex⟩ := hguard
        exact ⟨by simpa using hterm,
          Option.some.inj h ▸ .tryPerformAction ht fun hs hheld => by simpa using hmutex hs hheld⟩
  | asyncNext id ok status response =>
      simp only [step] at h
      split at h
      · rename_i hterm hpc
        obtain ⟨a, ha, rfl⟩ := Option.map_eq_some_iff.mp h
        exact ⟨hterm, .asyncNext hpc ha⟩
      · cases h
  | completion =>
      simp only [step] at h
      split at h
      · cases h
      · rename_i hterm
        exact ⟨by simpa using hterm, move_of_completionStep h⟩

omit [DecidableEq Tid] in
/-- The polling thread never waits inside a completion. -/
theorem completionStep_isSome {w : AsyncClientStreamWriter Tid Request Response}
    (h : w.completion ≠ .idle) : w.completionStep.isSome = true := by
  unfold completionStep
  split
  · rename_i hidle
    exact absurd hidle h
  all_goals try rfl
  split <;> rfl

omit [DecidableEq Tid] in
theorem tryPerformAction_cases (w : AsyncClientStreamWriter Tid Request Response) :
    (w.actions = [] ∧ w.tryPerformAction = w) ∨
    ∃ a rest, w.actions = a :: rest ∧
      ((w.state = .ready ∧ w.tryPerformAction = (w.popAction a rest).perform a) ∨
       (w.state = .finished ∧ w.tryPerformAction = (w.popAction a rest).setException a
          "The stream is finished, no more action is allowed.") ∨
       (w.state = .processing ∧ w.tryPerformAction = w.popAction a rest)) := by
  unfold tryPerformAction
  cases hq : w.actions with
  | nil => exact .inl ⟨rfl, rfl⟩
  | cons a rest =>
      refine .inr ⟨a, rest, rfl, ?_⟩
      cases hs : w.state <;> simp [tryPerformPopped, popAction, hs]

section Drain

omit [DecidableEq Tid]

/-- What popping and performing preserve, and what popping and rejecting preserve, the drain loop
preserves: each of its rounds is one of the two. -/
theorem drain_induction {P : AsyncClientStreamWriter Tid Request Response → Prop}
    (hperform : ∀ w a rest, w.actions = a :: rest → P w → P ((w.popAction a rest).perform a))
    (hreject : ∀ w a rest m, w.actions = a :: rest → P w →
      P ((w.popAction a rest).setException a m))
    (last fin : Bool) {q : List (StreamAction Request)}
    {w : AsyncClientStreamWriter Tid Request Response} (hq : w.actions = q) (hw : P w) :
    P (drain last fin q w) := by
  induction q generalizing fin w with
  | nil => exact hw
  | cons a rest ih =>
      have hperformed := hperform w a rest hq hw
      have hrejected := fun m => hreject w a rest m hq hw
      simp only [drain]
      split
      · split
        · exact ih fin rfl (hrejected _)
        · split
          · exact ih fin rfl (hrejected _)
          · exact ih fin rfl hperformed
      · split
        · exact ih fin rfl (hrejected _)
        · exact ih true rfl hperformed

theorem drain_actions (last fin : Bool) {q : List (StreamAction Request)}
    {w : AsyncClientStreamWriter Tid Request Response} (hq : w.actions = q) :
    (drain last fin q w).actions = [] := by
  induction q generalizing fin w with
  | nil => exact hq
  | cons a rest ih =>
      simp only [drain]
      split
      · split
        · exact ih fin rfl
        · split <;> exact ih fin rfl
      · split
        · exact ih fin rfl
        · exact ih true rfl

theorem drain_popped (last fin : Bool) (q : List (StreamAction Request))
    (w : AsyncClientStreamWriter Tid Request Response) :
    (drain last fin q w).popped = w.popped ++ q := by
  induction q generalizing fin w with
  | nil => exact (List.append_nil _).symm
  | cons a rest ih =>
      have happend : w.popped ++ a :: rest = (w.popped ++ [a]) ++ rest := by simp
      rw [happend]
      simp only [drain]
      split
      · split
        · exact ih fin _
        · split <;> exact ih fin _
      · split
        · exact ih fin _
        · exact ih true _

/-- The actions the loop hands over, read off the queue it finds. After a last message only a Finish
goes out; otherwise everything does, up to and including the first Finish. -/
def handsOver (last : Bool) (q : List (StreamAction Request)) : List (StreamAction Request) :=
  if last then (q.filter (·.isFinish)).take 1
  else q.takeWhile (·.isWrite) ++ (q.dropWhile (·.isWrite)).take 1

def performAsserts : AsyncClientStreamWriterState → List (StreamAction Request) → List Bool
  | _, [] => []
  | state, _ :: rest => decide (state = .ready) :: performAsserts .processing rest

/-- `w'` is `w` after handing over the actions of `l`, whatever was popped and rejected besides. The
other threads, the call and the polling thread are where they were. -/
structure HandedOver (w : AsyncClientStreamWriter Tid Request Response)
    (l : List (StreamAction Request)) (w' : AsyncClientStreamWriter Tid Request Response) : Prop where
  handed : w'.handed = w.handed ++ l
  outstanding : w'.outstanding = w.outstanding ++ l
  state : w'.state = if l = [] then w.state else .processing
  asserts : w'.asserts = w.asserts ++ performAsserts w.state l
  callers : w'.callers = w.callers
  completion : w'.completion = w.completion
  owner : w'.owner = w.owner
  onFinishedRuns : w'.onFinishedRuns = w.onFinishedRuns
  terminated : w'.terminated = w.terminated

theorem HandedOver.perform_cons {w w' : AsyncClientStreamWriter Tid Request Response}
    {a : StreamAction Request} {rest l : List (StreamAction Request)}
    (h : HandedOver ((w.popAction a rest).perform a) l w') : HandedOver w (a :: l) w' :=
  { h with
    handed := by simpa [perform, assertThat, popAction] using h.handed
    outstanding := by simpa [perform, assertThat, popAction] using h.outstanding
    state := by simpa [perform, assertThat, popAction] using h.state
    asserts := h.asserts.trans (List.append_assoc _ _ _) }

theorem HandedOver.setException {w w' : AsyncClientStreamWriter Tid Request Response}
    {a : StreamAction Request} {rest l : List (StreamAction Request)} {message : String}
    (h : HandedOver ((w.popAction a rest).setException a message) l w') : HandedOver w l w' :=
  { h with }

theorem HandedOver.refl (w : AsyncClientStreamWriter Tid Request Response) :
    HandedOver w [] w := by
  constructor <;> simp [performAsserts]

theorem drain_finishPerformed (last : Bool) (q : List (StreamAction Request))
    (w : AsyncClientStreamWriter Tid Request Response) :
    HandedOver w [] (drain last true q w) := by
  induction q generalizing w with
  | nil => exact .refl w
  | cons a rest ih =>
      cases ha : a.kind with
      | write message options =>
          cases last <;> simpa [drain, ha] using (ih _).setException
      | finish => simpa [drain, ha] using (ih _).setException

theorem drain_handedOver (last : Bool) (q : List (StreamAction Request))
    (w : AsyncClientStreamWriter Tid Request Response) :
    HandedOver w (handsOver last q) (drain last false q w) := by
  induction q generalizing w with
  | nil => cases last <;> exact .refl w
  | cons a rest ih =>
      cases ha : a.kind with
      | write message options =>
          have hwrite : a.isWrite = true := by simp [StreamAction.isWrite, ha]
          cases last with
          | true =>
              have hskip : handsOver true (a :: rest) = handsOver true rest := by
                simp [handsOver, StreamAction.isFinish, hwrite]
              rw [hskip]
              simpa [drain, ha] using (ih _).setException
          | false =>
              have hcons : handsOver false (a :: rest) = a :: handsOver false rest := by
                simp [handsOver, hwrite]
              rw [hcons]
              simpa [drain, ha] using (ih _).perform_cons
      | finish =>
          have hfinish : a.isWrite = false := by simp [StreamAction.isWrite, ha]
          have hone : handsOver last (a :: rest) = [a] := by
            cases last <;> simp [handsOver, StreamAction.isFinish, hfinish]
          rw [hone]
          simpa [drain, ha] using (drain_finishPerformed last rest _).perform_cons

/-- `tryPerformAction` hands over the front of the queue when the state is `Ready`, and else
nothing. -/
theorem tryPerformAction_handedOver (w : AsyncClientStreamWriter Tid Request Response) :
    ∃ l, HandedOver w l w.tryPerformAction ∧ l.length ≤ 1 ∧ (l ≠ [] → w.state = .ready) := by
  rcases w.tryPerformAction_cases with
    ⟨-, heq⟩ | ⟨a, rest, -, ⟨hs, heq⟩ | ⟨-, heq⟩ | ⟨-, heq⟩⟩
  · exact ⟨[], by rw [heq]; exact .refl w, by simp, nofun⟩
  · exact ⟨[a], heq ▸ (HandedOver.refl _).perform_cons, by simp, fun _ => hs⟩
  · exact ⟨[], heq ▸ (HandedOver.refl _).setException, by simp, nofun⟩
  · exact ⟨[], heq ▸ { HandedOver.refl w with }, by simp, nofun⟩

theorem tryPerformAction_completion (w : AsyncClientStreamWriter Tid Request Response) :
    w.tryPerformAction.completion = w.completion := by
  obtain ⟨l, hover, -⟩ := w.tryPerformAction_handedOver
  exact hover.completion

theorem tryPerformAction_callers (w : AsyncClientStreamWriter Tid Request Response) :
    w.tryPerformAction.callers = w.callers := by
  obtain ⟨l, hover, -⟩ := w.tryPerformAction_handedOver
  exact hover.callers

theorem tryPerformAction_actions (w : AsyncClientStreamWriter Tid Request Response) :
    w.tryPerformAction.actions = w.actions.tail := by
  rcases w.tryPerformAction_cases with ⟨hq, heq⟩ | ⟨a, rest, hq, ⟨-, heq⟩ | ⟨-, heq⟩ | ⟨-, heq⟩⟩ <;>
    rw [heq, hq] <;> rfl

theorem tryPerformAction_pushed (w : AsyncClientStreamWriter Tid Request Response) :
    w.tryPerformAction.pushed = w.pushed := by
  rcases w.tryPerformAction_cases with ⟨-, heq⟩ | ⟨a, rest, -, ⟨-, heq⟩ | ⟨-, heq⟩ | ⟨-, heq⟩⟩ <;>
    rw [heq] <;> rfl

theorem tryPerformAction_promises_of_unfinished {w : AsyncClientStreamWriter Tid Request Response}
    (h : w.state ≠ .finished) : w.tryPerformAction.promises = w.promises := by
  rcases w.tryPerformAction_cases with ⟨-, heq⟩ | ⟨a, rest, -, ⟨-, heq⟩ | ⟨hs, -⟩ | ⟨-, heq⟩⟩
  · rw [heq]
  · rw [heq]
    rfl
  · exact absurd hs h
  · rw [heq]
    rfl

theorem drain_pushed (last : Bool) (w : AsyncClientStreamWriter Tid Request Response) :
    (drain last false w.actions w).pushed = w.pushed :=
  drain_induction (P := fun w' => w'.pushed = w.pushed) (fun _ _ _ _ h => h) (fun _ _ _ _ _ h => h)
    last false rfl rfl

end Drain

section History

variable {w w' : AsyncClientStreamWriter Tid Request Response} {e : Event Tid Request Response}

theorem pushed_subset_move (hmove : Move w e w') : w.pushed ⊆ w'.pushed := by
  cases hmove with
  | write _ | finish _ | finalizeWriteFailed _ _ => exact List.subset_append_left _ _
  | tryPerformAction _ _ | finishPushed _ => exact w.tryPerformAction_pushed ▸ List.Subset.refl _
  | @finalizeWriteOk b _ _ => exact drain_pushed b.isLastMessage w ▸ List.Subset.refl _
  | asyncNext _ _ | setResult _ | stateReady _ | finalizeFinish _ _ | delete _ =>
      exact List.Subset.refl _

theorem popped_subset_move (hmove : Move w e w') : w.popped ⊆ w'.popped := by
  have htry : w.popped ⊆ w.tryPerformAction.popped := by
    rcases w.tryPerformAction_cases with ⟨-, heq⟩ | ⟨b, rest, -, ⟨-, heq⟩ | ⟨-, heq⟩ | ⟨-, heq⟩⟩
    · rw [heq]
      exact List.Subset.refl _
    all_goals
      rw [heq]
      exact List.subset_append_left _ _
  cases hmove with
  | tryPerformAction _ _ | finishPushed _ => exact htry
  | @finalizeWriteOk b _ _ =>
      change w.popped ⊆ (drain b.isLastMessage false w.actions w).popped
      rw [drain_popped]
      exact List.subset_append_left _ _
  | write _ | finish _ | asyncNext _ _ | setResult _ | stateReady _ | finalizeWriteFailed _ _
  | finalizeFinish _ _ | delete _ => exact List.Subset.refl _

theorem handed_subset_move (hmove : Move w e w') : w.handed ⊆ w'.handed := by
  cases hmove with
  | tryPerformAction _ _ | finishPushed _ =>
      obtain ⟨l, hover, -⟩ := w.tryPerformAction_handedOver
      exact fun b hb => hover.handed ▸ List.mem_append_left l hb
  | @finalizeWriteOk b _ _ =>
      have hover := drain_handedOver b.isLastMessage w.actions w
      exact fun c hc => hover.handed ▸ List.mem_append_left _ hc
  | write _ | finish _ | asyncNext _ _ | setResult _ | stateReady _ | finalizeWriteFailed _ _
  | finalizeFinish _ _ | delete _ => exact List.Subset.refl _

end History

/-- No step sets the state to `Finished`. -/
theorem unfinished_move {w w' : AsyncClientStreamWriter Tid Request Response}
    {e : Event Tid Request Response} (h : w.state ≠ .finished) (hmove : Move w e w') :
    w'.state ≠ .finished := by
  have hover : ∀ l v, HandedOver w l v → v.state ≠ .finished := by
    intro l v hover
    rw [hover.state]
    split
    · exact h
    · nofun
  cases hmove with
  | write _ | finish _ | asyncNext _ _ | setResult _ | finalizeWriteFailed _ _ | finalizeFinish _ _
  | delete _ => exact h
  | stateReady _ => nofun
  | tryPerformAction _ _ | finishPushed _ =>
      obtain ⟨l, hl, -⟩ := w.tryPerformAction_handedOver
      exact hover l w.tryPerformAction hl
  | @finalizeWriteOk a _ _ =>
      exact hover _ (drain a.isLastMessage false w.actions w)
        (drain_handedOver a.isLastMessage w.actions w)

end EasyGrpc.Client.AsyncClientStreamWriter

import EasyGrpc.Proof.StreamProtocol
import EasyGrpc.Proof.SubmissionOrder

/-!
# Which submissions do not depend on timing

What is submitted while another action is in flight is dropped, and what is submitted to an idle writer is
handed over. So a user thread that submits a write and something else can be served in two ways. A single
action is always handed over. Of several finishes only the first can be: a second one that was handed over
leaves the polling thread in the middle of `finalizeFinish`.
-/

namespace EasyGrpc.Client.AsyncClientStreamWriter

variable {Request Response : Type}

/-- Any two quiescent runs in which the user thread submits these actions and every operation completes
with `ok` true have the same outcome. -/
def TimingIndependent (response : Response) (kinds : List (StreamActionKind Request)) : Prop :=
  ∀ (es es' : List (Event Unit Request Response)) w w',
    (system Unit Request response).run (initial Unit Request response) es = some w →
    (system Unit Request response).run (initial Unit Request response) es' = some w' →
    (∀ e ∈ es, CompletesOk e) → (∀ e ∈ es', CompletesOk e) →
    submitted es = kinds → submitted es' = kinds → w.Quiescent → w'.Quiescent → SameOutcome w w'

section Batches

variable {w : AsyncClientStreamWriter Unit Request Response} {a : StreamAction Request}

structure Idle (w : AsyncClientStreamWriter Unit Request Response) : Prop where
  state : w.state = .ready
  actions : w.actions = []
  callers : w.callers = []
  completion : w.completion = .idle
  outstanding : w.outstanding = []
  running : w.terminated = false

structure InFlight (a : StreamAction Request) (w : AsyncClientStreamWriter Unit Request Response) :
    Prop where
  state : w.state = .processing
  actions : w.actions = []
  callers : w.callers = []
  completion : w.completion = .idle
  outstanding : w.outstanding = [a]
  running : w.terminated = false

def submit : StreamActionKind Request → List (Event Unit Request Response)
  | .write message options => [.write () message options, .tryPerformAction ()]
  | .finish => [.finish (), .tryPerformAction ()]

def batch (id : Nat) (kind : StreamActionKind Request) (others : List (StreamActionKind Request)) :
    List (Event Unit Request Response) :=
  submit kind ++ others.flatMap submit ++ completes id

theorem submitted_append (es es' : List (Event Unit Request Response)) :
    submitted (es ++ es') = submitted es ++ submitted es' := by
  induction es with
  | nil => rfl
  | cons e es ih =>
      rw [List.cons_append, submitted_cons, ih, submitted_cons e es, List.append_assoc]

theorem submitted_batch (id : Nat) (kind : StreamActionKind Request)
    (others : List (StreamActionKind Request)) :
    submitted (batch id kind others : List (Event Unit Request Response)) = kind :: others := by
  have hsubmit : ∀ k, submitted (submit k : List (Event Unit Request Response)) = [k] := by
    intro k
    cases k <;> rfl
  have hothers : submitted (others.flatMap submit : List (Event Unit Request Response)) = others := by
    induction others with
    | nil => rfl
    | cons k others ih => rw [List.flatMap_cons, submitted_append, hsubmit, ih, List.singleton_append]
  rw [batch, submitted_append, submitted_append, hsubmit, hothers]
  exact List.append_nil _

theorem completesOk_batch (id : Nat) (kind : StreamActionKind Request)
    (others : List (StreamActionKind Request)) :
    ∀ e ∈ (batch id kind others : List (Event Unit Request Response)), CompletesOk e := by
  have hsubmit : ∀ k, ∀ e ∈ (submit k : List (Event Unit Request Response)), CompletesOk e := by
    intro k
    cases k <;> simp [submit, CompletesOk]
  intro e he
  rw [batch, List.mem_append, List.mem_append, List.mem_flatMap] at he
  obtain (hfirst | ⟨k, -, hk⟩) | hlast := he
  · exact hsubmit kind e hfirst
  · exact hsubmit k e hk
  · revert e
    simp [completes, CompletesOk]

theorem Idle.run_submit (h : w.Idle) (response : Response) (kind : StreamActionKind Request) :
    ∃ w', (system Unit Request response).run w (submit kind) = some w' ∧
      w'.InFlight ⟨w.nextId, kind⟩ ∧ w'.handed = w.handed ++ [⟨w.nextId, kind⟩] ∧
      w'.nextId = w.nextId + 1 ∧ w'.owner = w.owner := by
  refine ⟨{ w with
      state := .processing
      nextId := w.nextId + 1
      outstanding := [⟨w.nextId, kind⟩]
      pushed := w.pushed ++ [⟨w.nextId, kind⟩]
      popped := w.popped ++ [⟨w.nextId, kind⟩]
      handed := w.handed ++ [⟨w.nextId, kind⟩]
      asserts := w.asserts ++ [true] }, ?_, ⟨rfl, h.actions, h.callers, h.completion, rfl, h.running⟩,
    rfl, rfl, rfl⟩
  cases kind <;>
    simp [submit, TransitionSystem.run, system, step, newAction, tryPerformAction, tryPerformPopped,
      perform, assertThat, popAction, stateMutexHeld, h.state, h.actions, h.callers, h.completion,
      h.outstanding, h.running]

/-- What is submitted while an action is in flight is dropped. -/
theorem InFlight.run_submit (h : w.InFlight a) (response : Response)
    (kind : StreamActionKind Request) :
    ∃ w', (system Unit Request response).run w (submit kind) = some w' ∧
      w'.InFlight a ∧ w'.handed = w.handed ∧ w'.nextId = w.nextId + 1 ∧ w'.owner = w.owner := by
  refine ⟨{ w with
      nextId := w.nextId + 1
      pushed := w.pushed ++ [⟨w.nextId, kind⟩]
      popped := w.popped ++ [⟨w.nextId, kind⟩] }, ?_,
    ⟨h.state, h.actions, h.callers, h.completion, h.outstanding, h.running⟩, rfl, rfl, rfl⟩
  cases kind <;>
    simp [submit, TransitionSystem.run, system, step, newAction, tryPerformAction, tryPerformPopped,
      popAction, h.state, h.actions, h.callers, h.running]

theorem InFlight.run_submits (h : w.InFlight a) (response : Response)
    (kinds : List (StreamActionKind Request)) :
    ∃ w', (system Unit Request response).run w (kinds.flatMap submit) = some w' ∧
      w'.InFlight a ∧ w'.handed = w.handed ∧ w'.nextId = w.nextId + kinds.length ∧
      w'.owner = w.owner := by
  induction kinds generalizing w with
  | nil => exact ⟨w, rfl, h, rfl, rfl, rfl⟩
  | cons kind kinds ih =>
      obtain ⟨v, hrun, hv, hhanded, hid, howner⟩ := h.run_submit response kind
      obtain ⟨w', hrest, hw', hhanded', hid', howner'⟩ := ih hv
      refine ⟨w', ?_, hw', hhanded'.trans hhanded, ?_, howner'.trans howner⟩
      · rw [List.flatMap_cons, TransitionSystem.run_append, hrun]
        exact hrest
      · rw [hid', hid, List.length_cons]
        omega

/-- A Finish can complete once, since it sets the response promise. -/
theorem InFlight.run_completes (h : w.InFlight a) (response : Response)
    (hunset : a.isFinish = true → w.owner.responsePromise = .pending) :
    ∃ w', (system Unit Request response).run w (completes a.id) = some w' ∧ w'.Idle ∧
      w'.handed = w.handed ∧ w'.nextId = w.nextId ∧
      (a.isWrite = true → w'.owner.responsePromise = w.owner.responsePromise) := by
  let p := (w.promises a.id).setValue true
  let finalised : AsyncClientStreamWriter Unit Request Response :=
    { w with
      state := .ready
      promises := Function.update w.promises a.id (p.getD (w.promises a.id))
      outstanding := []
      deleted := w.deleted ++ [a]
      asserts := w.asserts ++ [true]
      futureErrors := w.futureErrors + if p.isNone then 1 else 0 }
  have hidle : finalised.Idle := ⟨rfl, h.actions, h.callers, h.completion, rfl, h.running⟩
  cases hkind : a.kind with
  | write message options =>
      refine ⟨finalised, ?_, hidle, rfl, rfl, fun _ => rfl⟩
      simp [completes, TransitionSystem.run, system, step, completionStep, finalizeSetResult,
        setResult, assertThat, finalizeWrite, drain, storeFinal, hkind, h.state, h.actions, h.callers,
        h.completion, h.outstanding, h.running, finalised, p]
  | finish =>
      have hpending := hunset (by simp [StreamAction.isFinish, StreamAction.isWrite, hkind])
      refine ⟨{ finalised with
          owner := { w.owner with status := .OK, responsePromise := .value w.owner.response }
          asserts := w.asserts ++ [true, true]
          onFinishedRuns := w.onFinishedRuns + 1 }, ?_, { hidle with }, rfl, rfl, fun hwrite => ?_⟩
      · simp [completes, TransitionSystem.run, system, step, completionStep, finalizeSetResult,
          setResult, assertThat, finalizeFinish, AsyncClientStreamCall.onStreamWriterFinish, storeFinal,
          hkind, hpending, Promise.setValue_pending, h.state, h.actions, h.callers, h.completion,
          h.outstanding, h.running, finalised, p]
      · simp [StreamAction.isWrite, hkind] at hwrite

theorem Idle.run_batch (h : w.Idle) (response : Response) (kind : StreamActionKind Request)
    (others : List (StreamActionKind Request))
    (hunset : kind = .finish → w.owner.responsePromise = .pending) :
    ∃ w', (system Unit Request response).run w (batch w.nextId kind others) = some w' ∧ w'.Idle ∧
      w'.handed = w.handed ++ [⟨w.nextId, kind⟩] ∧ w'.nextId = w.nextId + 1 + others.length ∧
      (kind ≠ .finish → w'.owner.responsePromise = w.owner.responsePromise) := by
  obtain ⟨u, hfirst, hu, hhanded, hid, howner⟩ := h.run_submit response kind
  obtain ⟨v, hothers, hv, hhanded', hid', howner'⟩ := hu.run_submits response others
  have hfinish : (⟨w.nextId, kind⟩ : StreamAction Request).isFinish = true ↔ kind = .finish := by
    cases kind <;> simp [StreamAction.isFinish, StreamAction.isWrite]
  have howned : v.owner = w.owner := howner'.trans howner
  obtain ⟨w', hlast, hw', hhanded'', hid'', howner''⟩ :=
    hv.run_completes response fun h => howned ▸ hunset (hfinish.mp h)
  refine ⟨w', ?_, hw', ?_, ?_, fun hkind => ?_⟩
  · rw [batch, TransitionSystem.run_append, TransitionSystem.run_append, hfirst, Option.bind_some,
      hothers, Option.bind_some]
    exact hlast
  · rw [hhanded'', hhanded', hhanded]
  · rw [hid'', hid', hid]
  · rw [howner'' ?_, howned]
    rw [ne_eq, ← hfinish] at hkind
    simpa [StreamAction.isFinish] using hkind

end Batches

section Histories

variable {w w' : AsyncClientStreamWriter Unit Request Response} {e : Event Unit Request Response}

/-- The history of one user thread: the first action popped was handed over, no promise of a finish holds an
exception unless a write was submitted too, and unless the polling thread has got stuck the response promise
was set as often as `finalizeFinish` has run, once at most. -/
structure FirstServed (w : AsyncClientStreamWriter Unit Request Response) : Prop where
  single : w.SingleUser
  first : w.handed.head? = w.popped.head?
  ready : w.handed = [] → w.state = .ready
  unrejected : (∀ a ∈ w.pushed, a.isFinish = true) → ∀ id ex, w.promises id ≠ .exception ex
  counted : w.terminated = false → w.FinishesCounted
  once : w.terminated = false →
    w.onFinishedRuns ≤ 1 ∧ (w.onFinishedRuns ≠ 0 → w.owner.responsePromise ≠ .pending)
  halted : w.completion = .idle → w.terminated = false

theorem firstServed_initial (response : Response) : FirstServed (initial Unit Request response) where
  single := singleUser_initial response
  first := rfl
  ready := fun _ => rfl
  unrejected := by
    intro _ id ex h
    cases h
  counted := fun _ => ⟨rfl, fun _ => rfl⟩
  once := fun _ => ⟨Nat.zero_le 1, fun h => absurd rfl h⟩
  halted := fun _ => rfl

theorem FirstServed.head?_append (h : w.FirstServed) (hne : w.handed ≠ [])
    (l m : List (StreamAction Request)) : (w.handed ++ l).head? = (w.popped ++ m).head? := by
  have hpopped : w.popped ≠ [] := by
    intro hnil
    have hfirst := h.first
    rw [hnil, List.head?_nil, List.head?_eq_none_iff] at hfirst
    exact hne hfirst
  rw [List.head?_append_of_ne_nil _ hne, List.head?_append_of_ne_nil _ hpopped]
  exact h.first

theorem FirstServed.first_tryPerformAction (h : w.FirstServed) :
    w.tryPerformAction.handed.head? = w.tryPerformAction.popped.head? ∧
      (w.tryPerformAction.handed = [] → w.tryPerformAction.state = .ready) := by
  rcases w.tryPerformAction_cases with
    ⟨-, heq⟩ | ⟨a, rest, -, ⟨-, heq⟩ | ⟨hs, -⟩ | ⟨hs, heq⟩⟩
  · rw [heq]
    exact ⟨h.first, h.ready⟩
  · rw [heq]
    refine ⟨?_, fun hnil => absurd hnil (List.append_ne_nil_of_right_ne_nil _ (List.cons_ne_nil _ _))⟩
    change (w.handed ++ [a]).head? = (w.popped ++ [a]).head?
    by_cases hne : w.handed = []
    · have hfirst := h.first
      rw [hne, List.head?_nil, eq_comm, List.head?_eq_none_iff] at hfirst
      rw [hne, hfirst]
    · exact h.head?_append hne _ _
  · exact absurd hs h.single.unfinished
  · have hne : w.handed ≠ [] := by
      intro hnil
      rw [h.ready hnil] at hs
      cases hs
    rw [heq]
    refine ⟨?_, fun hnil => absurd hnil hne⟩
    have hhead := h.head?_append hne [] [a]
    rwa [List.append_nil] at hhead

theorem FirstServed.first_move (h : w.FirstServed) (hmove : Move w e w') :
    w'.handed.head? = w'.popped.head? ∧ (w'.handed = [] → w'.state = .ready) := by
  cases hmove with
  | write _ | finish _ | asyncNext _ _ | setResult _ | finalizeWriteFailed _ _ | finalizeFinish _ _
  | delete _ => exact ⟨h.first, h.ready⟩
  | stateReady _ => exact ⟨h.first, fun _ => rfl⟩
  | tryPerformAction _ _ | finishPushed _ => exact h.first_tryPerformAction
  | @finalizeWriteOk b hpc _ =>
      have hover := drain_handedOver b.isLastMessage w.actions w
      have hb : b ∈ w.handed := by
        apply h.single.fate.mem_handed_of_completion
        rw [hpc]
        exact List.mem_cons_self
      have hne := List.ne_nil_of_mem hb
      change (drain b.isLastMessage false w.actions w).handed.head? =
          (drain b.isLastMessage false w.actions w).popped.head? ∧ _
      rw [hover.handed, drain_popped]
      refine ⟨h.head?_append hne _ _, fun hnil => ?_⟩
      exact absurd (List.append_eq_nil_iff.mp hnil).1 hne

theorem FirstServed.unrejected_move (h : w.FirstServed) (hmove : Move w e w')
    (hall : ∀ a ∈ w'.pushed, a.isFinish = true) (id : Nat) (ex : InvalidStreamingAction) :
    w'.promises id ≠ .exception ex := by
  have hold := h.unrejected (fun a ha => hall a (pushed_subset_move hmove ha)) id ex
  have hpushed := pushed_subset_move hmove
  cases hmove with
  | write _ | finish _ | asyncNext _ _ | stateReady _ | finalizeWriteFailed _ _ | finalizeFinish _ _
  | delete _ => exact hold
  | tryPerformAction _ _ | finishPushed _ =>
      exact tryPerformAction_promises_of_unfinished h.single.unfinished ▸ hold
  | @setResult b ok hpc =>
      rw [h.single.inv.setResult_promise hpc]
      by_cases hid : id = b.id
      · rw [hid, Function.update_self]
        intro heq
        cases heq
      · rwa [Function.update_of_ne hid]
  | @finalizeWriteOk b hpc hwrite =>
      have hb : b ∈ w.pushed := by
        apply h.single.inv.mem_pushed_of_handed
        apply h.single.fate.mem_handed_of_completion
        rw [hpc]
        exact List.mem_cons_self
      have hfinish := hall b (hpushed hb)
      rw [StreamAction.isFinish, hwrite] at hfinish
      cases hfinish

theorem FirstServed.once_move (h : w.FirstServed) (hterm : w.terminated = false) (hmove : Move w e w') :
    (w'.terminated = false →
      w'.onFinishedRuns ≤ 1 ∧ (w'.onFinishedRuns ≠ 0 → w'.owner.responsePromise ≠ .pending)) ∧
    (w'.completion = .idle → w'.terminated = false) := by
  have hold := h.once hterm
  cases hmove with
  | write _ | finish _ | setResult _ | stateReady _ | finalizeWriteFailed _ _ | delete _ =>
      exact ⟨fun _ => hold, fun _ => hterm⟩
  | @asyncNext id ok status response a hpc ha =>
      refine ⟨fun _ => ?_, fun _ => hterm⟩
      rw [storeFinal_responsePromise]
      exact hold
  | tryPerformAction _ _ | finishPushed _ =>
      obtain ⟨l, hover, -⟩ := w.tryPerformAction_handedOver
      rw [hover.onFinishedRuns, hover.owner, hover.terminated]
      exact ⟨fun _ => hold, fun _ => hterm⟩
  | @finalizeWriteOk b _ _ =>
      have hover := drain_handedOver b.isLastMessage w.actions w
      rw [hover.onFinishedRuns, hover.owner, hover.terminated]
      exact ⟨fun _ => hold, fun _ => hterm⟩
  | @finalizeFinish b ok hpc _ =>
      by_cases hpending : w.owner.responsePromise = .pending
      · have hzero : w.onFinishedRuns = 0 := by
          by_contra hne
          exact hold.2 hne hpending
        simp [finalizeFinish, assertThat, AsyncClientStreamCall.onStreamWriterFinish, hpending, hzero,
          Promise.setValue_pending]
      · have herror := AsyncClientStreamCall.onStreamWriterFinish_eq_none hpending
        simp [finalizeFinish, assertThat, herror, hpc]

theorem FirstServed.step (h : w.FirstServed) (hstep : w.step e = some w') : w'.FirstServed := by
  obtain ⟨hterm, hmove⟩ := step_cases hstep
  obtain ⟨hfirst, hready⟩ := h.first_move hmove
  obtain ⟨honce, hhalted⟩ := h.once_move hterm hmove
  exact ⟨h.single.move hmove, hfirst, hready, h.unrejected_move hmove,
    (h.counted hterm).move hmove, honce, hhalted⟩

theorem firstServed_of_run {response : Response} {es : List (Event Unit Request Response)}
    (hrun : (system Unit Request response).run (initial Unit Request response) es = some w) :
    w.FirstServed :=
  TransitionSystem.run_invariant (fun _ _ _ h hstep => h.step hstep) (firstServed_initial response) hrun

/-- Where one action at most, or only finishes, were submitted, what was handed over is the first. -/
theorem FirstServed.handed_eq (h : w.FirstServed) (hquiet : w.Quiescent)
    (hpushed : w.pushed.length ≤ 1 ∨ ∀ a ∈ w.pushed, a.isFinish = true) :
    w.handed = w.pushed.take 1 := by
  have hsub := h.single.inv.handed_sublist
  have hpopped := h.single.popped_eq hquiet
  rw [hpopped] at hsub
  have hle : w.handed.length ≤ 1 := by
    cases hpushed with
    | inl hshort => exact Nat.le_trans hsub.length_le hshort
    | inr hall =>
        have hterm := h.halted hquiet.2.2
        have hcount := (h.counted hterm).count
        have honce := (h.once hterm).1
        have hlength : w.handed.countP (·.isFinish) = w.handed.length :=
          List.countP_eq_length.mpr fun a ha => hall a (hsub.subset ha)
        rw [hquiet.2.1, hquiet.2.2] at hcount
        simp only [beforeImpl, List.append_nil, List.countP_nil] at hcount
        omega
  calc
    w.handed = w.handed.take 1 := (List.take_of_length_le hle).symm
    _ = w.handed.head?.toList := List.take_one
    _ = w.pushed.head?.toList := by rw [h.first, hpopped]
    _ = w.pushed.take 1 := List.take_one.symm

theorem FirstServed.rejected_eq_nil (h : w.FirstServed) (hquiet : w.Quiescent)
    (hpushed : w.pushed.length ≤ 1 ∨ ∀ a ∈ w.pushed, a.isFinish = true) : w.rejected = [] := by
  cases hpushed with
  | inl hshort =>
      apply h.single.rejected_eq_nil hquiet
      rw [h.handed_eq hquiet (.inl hshort), List.take_of_length_le hshort, h.single.popped_eq hquiet]
  | inr hall =>
      rw [rejected, List.filter_eq_nil_iff]
      intro a _
      split
      · rename_i ex hex
        exact absurd hex (h.unrejected hall a.id ex)
      · exact Bool.false_ne_true

end Histories

theorem exists_two_of_write {kinds : List (StreamActionKind Request)} (hlength : 1 < kinds.length)
    (hwrite : ∃ kind ∈ kinds, kind ≠ .finish) :
    ∃ first others second last, kinds = first :: (others ++ second :: last) ∧
      (second = .finish → first ≠ .finish) := by
  obtain ⟨kind, hkind, hne⟩ := hwrite
  cases kinds with
  | nil => cases hkind
  | cons first rest =>
      by_cases hfirst : first = .finish
      · have hmem : kind ∈ rest := by
          cases List.mem_cons.mp hkind with
          | inl heq => exact absurd (heq.trans hfirst) hne
          | inr hrest => exact hrest
        obtain ⟨others, last, rfl⟩ := List.append_of_mem hmem
        exact ⟨first, others, kind, last, rfl, fun h => absurd h hne⟩
      · cases rest with
        | nil => exact absurd hlength (Nat.lt_irrefl 1)
        | cons second last => exact ⟨first, [], second, last, rfl, fun _ => hfirst⟩

theorem idle_initial (response : Response) : Idle (initial Unit Request response) :=
  ⟨rfl, rfl, rfl, rfl, rfl, rfl⟩

theorem Idle.quiescent {w : AsyncClientStreamWriter Unit Request Response} (h : w.Idle) :
    w.Quiescent :=
  ⟨h.callers, h.outstanding, h.completion⟩

/-- Two actions of which one is a write can both be handed over, or only the first one. -/
theorem not_timingIndependent (response : Response) (first second : StreamActionKind Request)
    (others last : List (StreamActionKind Request)) (hsecond : second = .finish → first ≠ .finish) :
    ¬ TimingIndependent response (first :: (others ++ second :: last)) := by
  have hidle := (idle_initial response : Idle (initial Unit Request response))
  obtain ⟨w, hrun, hw, hhanded, -, -⟩ :=
    hidle.run_batch response first (others ++ second :: last) fun _ => rfl
  obtain ⟨v, hrunFirst, hv, hhandedFirst, hid, howner⟩ :=
    hidle.run_batch response first others fun _ => rfl
  obtain ⟨w', hrunSecond, hw', hhanded', -, -⟩ :=
    hv.run_batch response second last fun hfinish => howner (hsecond hfinish)
  have hrun' : (system Unit Request response).run (initial Unit Request response)
      (batch 0 first others ++ batch v.nextId second last) = some w' := by
    rw [TransitionSystem.run_append]
    exact (congrArg (Option.bind · _) hrunFirst).trans hrunSecond
  intro hindependent
  have hsame := hindependent _ _ w w' hrun hrun' (completesOk_batch _ _ _) ?_ (submitted_batch _ _ _) ?_
    hw.quiescent hw'.quiescent
  · have hlength := congrArg List.length hsame.handed
    rw [hhanded, hhanded', hhandedFirst] at hlength
    simp [initial] at hlength
  · intro e he
    cases List.mem_append.mp he with
    | inl hfirst => exact completesOk_batch _ _ _ e hfirst
    | inr hrest => exact completesOk_batch _ _ _ e hrest
  · rw [submitted_append, submitted_batch, submitted_batch, List.cons_append]

/-- **Which submissions do not depend on timing.** A single one, and any number of finishes. -/
theorem timingIndependent_iff (response : Response) (kinds : List (StreamActionKind Request)) :
    TimingIndependent response kinds ↔ kinds.length ≤ 1 ∨ ∀ kind ∈ kinds, kind = .finish := by
  constructor
  · intro hindependent
    by_contra hnot
    obtain ⟨hshort, hfinishes⟩ := not_or.mp hnot
    push Not at hfinishes
    obtain ⟨first, others, second, last, rfl, hsecond⟩ :=
      exists_two_of_write (Nat.lt_of_not_le hshort) hfinishes
    exact not_timingIndependent response first second others last hsecond hindependent
  · intro hkinds es es' w w' hrun hrun' hok hok' hsubmitted hsubmitted' hquiet hquiet'
    have h := firstServed_of_run hrun
    have h' := firstServed_of_run hrun'
    have hpushed : w.pushed.map (·.kind) = kinds := hsubmitted ▸ pushed_of_run hok rfl hrun
    have hpushed' : w'.pushed.map (·.kind) = kinds := hsubmitted' ▸ pushed_of_run hok' rfl hrun'
    have hsame : w.pushed = w'.pushed :=
      eq_of_inv h.single.inv h'.single.inv (hpushed.trans hpushed'.symm)
    have hfew : w.pushed.length ≤ 1 ∨ ∀ a ∈ w.pushed, a.isFinish = true := by
      rw [← hpushed, List.length_map] at hkinds
      refine hkinds.imp_right fun hall a ha => ?_
      have hkind := hall a.kind (List.mem_map_of_mem ha)
      simp [StreamAction.isFinish, StreamAction.isWrite, hkind]
    refine ⟨?_, ?_⟩
    · rw [h.handed_eq hquiet hfew, h'.handed_eq hquiet' (hsame ▸ hfew), hsame]
    · rw [h.rejected_eq_nil hquiet hfew, h'.rejected_eq_nil hquiet' (hsame ▸ hfew)]

/-- The second write is popped while the first one is in flight. -/
def writeOverlapping : List (Event Unit String String) :=
  [.write () "a" {}, .tryPerformAction (), .write () "b" {}, .tryPerformAction ()] ++ completes 0

/-- A write after a last message is handed over by the idle path and rejected by the drain loop, and a
write that overlaps another one is dropped. -/
theorem timing_decides :
    (∀ e ∈ writeIdle { isLastMessage := true } ++ writeDrained { isLastMessage := true } ++
      writeIdle {} ++ writeOverlapping, CompletesOk e) ∧
    (∃ w w', (system Unit String "").run (initial Unit String "")
        (writeIdle { isLastMessage := true }) = some w ∧
      (system Unit String "").run (initial Unit String "")
        (writeDrained { isLastMessage := true }) = some w' ∧
      submitted (writeIdle { isLastMessage := true }) =
        submitted (writeDrained { isLastMessage := true }) ∧
      w.Quiescent ∧ w'.Quiescent ∧ ¬ SameOutcome w w') ∧
    ∃ w w', (system Unit String "").run (initial Unit String "") (writeIdle {}) = some w ∧
      (system Unit String "").run (initial Unit String "") writeOverlapping = some w' ∧
      submitted (writeIdle {}) = submitted writeOverlapping ∧
      w.Quiescent ∧ w'.Quiescent ∧ ¬ SameOutcome w w' := by
  refine ⟨?_, ⟨_, _, rfl, rfl, rfl, ⟨rfl, rfl, rfl⟩, ⟨rfl, rfl, rfl⟩, fun h => ?_⟩,
    _, _, rfl, rfl, rfl, ⟨rfl, rfl, rfl⟩, ⟨rfl, rfl, rfl⟩, fun h => ?_⟩
  · simp [writeIdle, writeDrained, writeOverlapping, completes, CompletesOk]
  · exact absurd (congrArg List.length h.handed) (by decide)
  · exact absurd (congrArg List.length h.handed) (by decide)

end EasyGrpc.Client.AsyncClientStreamWriter

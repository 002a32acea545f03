import EasyGrpc.Proof.WriterInvariant

/-!
# One operation at a time

gRPC aborts on a second outstanding write. The writer state is meant to exclude it, and along most
steps it does. The drain loop of `finalizeWrite` does not look at it: it performs every action that
the two flags let through, and it runs after other threads may have performed one of their own.
-/

namespace EasyGrpc.Client.AsyncClientStreamWriter

variable {Tid Request Response : Type}

/-- At most one operation is in the hands of gRPC, the state says whether there is one, and every
assertion so far held. -/
structure OneOutstanding (w : AsyncClientStreamWriter Tid Request Response) : Prop where
  inGrpc_le : w.inGrpc.length ≤ 1
  processing_iff : w.state = .processing ↔ w.inGrpc ≠ []
  asserts : ∀ condition ∈ w.asserts, condition = true

/-- A run of the drain loop finds at most one action that it would perform, and finds the state
`Ready` if there is one; the tag of a Finish does not come back with `ok` false. -/
def DrainsAtMostOne (w : AsyncClientStreamWriter Tid Request Response) :
    Event Tid Request Response → Prop
  | .completion => ∀ a ok, w.completion = .stateReady a ok →
      (a.isFinish = true → ok = true) ∧
      (a.isWrite = true → ok = true →
        (handsOver a.isLastMessage w.actions).length ≤ 1 ∧
        (handsOver a.isLastMessage w.actions ≠ [] → w.state = .ready))
  | _ => True

theorem performAsserts_true_iff (state : AsyncClientStreamWriterState)
    (l : List (StreamAction Request)) :
    (∀ condition ∈ performAsserts state l, condition = true) ↔
      l.length ≤ 1 ∧ (l ≠ [] → state = .ready) := by
  match l with
  | [] => simp [performAsserts]
  | [a] => simp [performAsserts]
  | a :: b :: rest => simp [performAsserts]

section Steps

variable {w w' : AsyncClientStreamWriter Tid Request Response} {a : StreamAction Request}

theorem OneOutstanding.inGrpc_eq_nil (h : w.OneOutstanding) (hs : w.state = .ready) :
    w.inGrpc = [] := by
  by_contra hne
  have hprocessing := h.processing_iff.mpr hne
  rw [hs] at hprocessing
  cases hprocessing

theorem OneOutstanding.handedOver_iff (h : w.OneOutstanding) {l : List (StreamAction Request)}
    (hover : HandedOver w l w') :
    w'.OneOutstanding ↔ l.length ≤ 1 ∧ (l ≠ [] → w.state = .ready) := by
  rw [← performAsserts_true_iff]
  constructor
  · intro h' condition hc
    exact h'.asserts condition (hover.asserts ▸ List.mem_append_right _ hc)
  · intro hasserts
    have hall : ∀ condition ∈ w'.asserts, condition = true := by
      intro condition hc
      rw [hover.asserts, List.mem_append] at hc
      exact hc.elim (h.asserts condition) (hasserts condition)
    have hgrpc : w'.inGrpc.Perm (l ++ w.inGrpc) := by
      rw [inGrpc, inGrpc, hover.outstanding, hover.completion, ← List.append_assoc]
      exact List.perm_append_comm.append_right _
    obtain ⟨hlen, hready⟩ := (performAsserts_true_iff _ _).mp hasserts
    cases l with
    | nil =>
        have hstate : w'.state = w.state := by simpa using hover.state
        rw [List.nil_append] at hgrpc
        refine ⟨hgrpc.length_eq ▸ h.inGrpc_le, ?_, hall⟩
        rw [hstate, h.processing_iff, ne_eq, ne_eq, ← List.length_eq_zero_iff,
          ← List.length_eq_zero_iff, hgrpc.length_eq]
    | cons b rest =>
        have hnil := h.inGrpc_eq_nil (hready (by simp))
        have hstate : w'.state = .processing := by simpa using hover.state
        rw [hnil, List.append_nil] at hgrpc
        refine ⟨hgrpc.length_eq ▸ hlen, ?_, hall⟩
        have hlength : w'.inGrpc.length ≠ 0 := by
          rw [hgrpc.length_eq]
          simp
        exact iff_of_true hstate fun heq => hlength (heq ▸ rfl)

theorem OneOutstanding.tryPerformAction (h : w.OneOutstanding) :
    w.tryPerformAction.OneOutstanding ∧
      w.tryPerformAction.handed.length ≤ w.handed.length + 1 := by
  obtain ⟨l, hover, hlen, hready⟩ := w.tryPerformAction_handedOver
  refine ⟨(h.handedOver_iff hover).mpr ⟨hlen, hready⟩, ?_⟩
  rw [hover.handed, List.length_append]
  omega

theorem oneOutstanding_withCompletion_iff (completion : CompletionPc Request)
    (hpc : completion.unfinalised = w.completion.unfinalised) :
    OneOutstanding { w with completion := completion } ↔ w.OneOutstanding := by
  have hgrpc : inGrpc { w with completion := completion } = w.inGrpc := by rw [inGrpc, inGrpc, hpc]
  exact ⟨fun h => ⟨hgrpc ▸ h.inGrpc_le, hgrpc ▸ h.processing_iff, h.asserts⟩,
    fun h => ⟨hgrpc ▸ h.inGrpc_le, hgrpc ▸ h.processing_iff, h.asserts⟩⟩

theorem OneOutstanding.setResult (h : w.OneOutstanding) {ok : Bool}
    (hpc : w.completion = .gotEvent a ok) : (w.finalizeSetResult a ok).OneOutstanding := by
  have hgrpc : (w.finalizeSetResult a ok).inGrpc = w.inGrpc := by
    simp [inGrpc, finalizeSetResult, AsyncClientStreamWriter.setResult, assertThat, hpc,
      CompletionPc.unfinalised]
  have hprocessing : w.state = .processing := by
    apply h.processing_iff.mpr
    simp [inGrpc, hpc, CompletionPc.unfinalised]
  refine ⟨hgrpc ▸ h.inGrpc_le, hgrpc ▸ h.processing_iff, ?_⟩
  intro condition hc
  have hc' : condition ∈ w.asserts ∨ condition = decide (w.state = .processing) := by
    simpa [finalizeSetResult, AsyncClientStreamWriter.setResult, assertThat] using hc
  rcases hc' with hc' | rfl
  · exact h.asserts condition hc'
  · simpa using hprocessing

theorem OneOutstanding.stateReady (h : w.OneOutstanding) {ok : Bool}
    (hpc : w.completion = .resultSet a ok) :
    OneOutstanding { w with state := .ready, completion := .stateReady a ok } := by
  have hle := h.inGrpc_le
  simp only [inGrpc, hpc, CompletionPc.unfinalised, List.length_append, List.length_cons,
    List.length_nil] at hle
  have hnil : w.outstanding = [] := List.eq_nil_of_length_eq_zero (by omega)
  refine ⟨?_, ?_, h.asserts⟩ <;> simp [inGrpc, hnil, CompletionPc.unfinalised]

theorem OneOutstanding.finalizeFinish_iff (h : w.OneOutstanding) {ok : Bool}
    (hpc : w.completion = .stateReady a ok) :
    (w.finalizeFinish a ok).OneOutstanding ↔ ok = true := by
  have hgrpc : (w.finalizeFinish a ok).inGrpc = w.inGrpc := by
    simp only [inGrpc, finalizeFinish, assertThat]
    split
    · simp [hpc, CompletionPc.unfinalised]
    · rfl
  constructor
  · intro h'
    exact h'.asserts ok (by simp [finalizeFinish, assertThat])
  · rintro rfl
    refine ⟨hgrpc ▸ h.inGrpc_le, hgrpc ▸ h.processing_iff, ?_⟩
    intro condition hc
    rcases List.mem_append.mp hc with hc | hc
    · exact h.asserts condition hc
    · exact List.mem_singleton.mp hc

end Steps

variable [DecidableEq Tid] {w w' : AsyncClientStreamWriter Tid Request Response}
  {e : Event Tid Request Response}

theorem oneOutstanding_move_iff (h : w.OneOutstanding) (hmove : Move w e w') :
    (w'.OneOutstanding ∧ w'.handed.length ≤ w.handed.length + 1) ↔ w.DrainsAtMostOne e := by
  cases hmove with
  | write _ | finish _ => exact iff_of_true ⟨{ h with }, Nat.le_succ _⟩ trivial
  | tryPerformAction _ _ =>
      exact iff_of_true ⟨{ h.tryPerformAction.1 with }, h.tryPerformAction.2⟩ trivial
  | asyncNext hpc ha =>
      refine iff_of_true ⟨⟨?_, ?_, h.asserts⟩, Nat.le_succ _⟩ trivial
      all_goals
        have hperm := (List.perm_append_singleton _ _).trans (perm_cons_eraseP_of_find? ha).symm
        have hold : w.inGrpc = w.outstanding := by simp [inGrpc, hpc, CompletionPc.unfinalised]
      · have hlen := hperm.length_eq
        have hle := h.inGrpc_le
        rw [hold] at hle
        exact le_of_eq_of_le hlen hle
      · rw [h.processing_iff, hold, ne_eq, ne_eq, ← List.length_eq_zero_iff, ← hperm.length_eq,
          List.length_eq_zero_iff]
        rfl
  | setResult hpc => exact iff_of_true ⟨h.setResult hpc, Nat.le_succ _⟩ (by simp [DrainsAtMostOne, hpc])
  | stateReady hpc =>
      exact iff_of_true ⟨h.stateReady hpc, Nat.le_succ _⟩ (by simp [DrainsAtMostOne, hpc])
  | finalizeWriteOk hpc ha =>
      rename_i a
      have hover := drain_handedOver a.isLastMessage w.actions w
      rw [oneOutstanding_withCompletion_iff _ (by rw [hover.completion, hpc]; rfl),
        h.handedOver_iff hover]
      simp only [hover.handed, List.length_append, Nat.add_le_add_iff_left]
      simp [DrainsAtMostOne, hpc, ha]
      tauto
  | finalizeWriteFailed hpc ha =>
      have hbase : OneOutstanding (w.newAction .finish) := { h with }
      refine iff_of_true ⟨(oneOutstanding_withCompletion_iff _ ?_).mpr hbase, Nat.le_succ _⟩ ?_
      · exact (congrArg CompletionPc.unfinalised hpc).symm
      · simp [DrainsAtMostOne, hpc, ha, StreamAction.isFinish]
  | finalizeFinish hpc ha =>
      rename_i a ok
      have hwrite : a.isWrite = false := by simpa [StreamAction.isFinish] using ha
      have hlen : (w.finalizeFinish a ok).handed.length ≤ w.handed.length + 1 := Nat.le_succ _
      rw [h.finalizeFinish_iff hpc]
      simp [DrainsAtMostOne, hpc, ha, hwrite, hlen]
  | finishPushed hpc =>
      refine iff_of_true ⟨(oneOutstanding_withCompletion_iff _ ?_).mpr h.tryPerformAction.1,
        h.tryPerformAction.2⟩ ?_
      · exact (congrArg CompletionPc.unfinalised (w.tryPerformAction_completion.trans hpc)).symm
      · simp [DrainsAtMostOne, hpc]
  | delete hpc =>
      have hbase := (oneOutstanding_withCompletion_iff .idle
        (congrArg CompletionPc.unfinalised hpc).symm).mpr h
      exact iff_of_true ⟨{ hbase with }, Nat.le_succ _⟩ (by simp [DrainsAtMostOne, hpc])

/-- **One operation at a time.** Along a run, at most one operation is ever in the hands of gRPC, the
state tells whether there is one, every assertion holds and no step hands over two actions, exactly
when no run of the drain loop finds two actions to perform, or one and the state not `Ready`. -/
theorem oneOutstanding_iff_drainsAtMostOne (response : Response)
    (es : List (Event Tid Request Response)) :
    (system Tid Request response).AllSteps
        (fun w _ w' => w'.OneOutstanding ∧ w'.handed.length ≤ w.handed.length + 1)
        (initial Tid Request response) es ↔
      (system Tid Request response).AllSteps (fun w e _ => w.DrainsAtMostOne e)
        (initial Tid Request response) es := by
  refine TransitionSystem.allSteps_congr (I := OneOutstanding) ?_ ?_ ?_ es
  · exact fun w e w' h hstep => oneOutstanding_move_iff h (step_cases hstep).2
  · exact fun w e w' _ _ h => h.1
  · refine ⟨by simp [inGrpc, initial, CompletionPc.unfinalised], ?_, nofun⟩
    simp [inGrpc, initial, CompletionPc.unfinalised]

def queuedWrites : List (Event Nat String String) :=
  [.write 0 "first" {}, .tryPerformAction 0, .write 1 "second" {}, .write 2 "third" {},
    .asyncNext 0 true .OK none, .completion, .completion, .completion]

theorem queuedWrites_both_outstanding :
    ∃ w, (system Nat String "").run (initial Nat String "") queuedWrites = some w ∧
      w.outstanding = [⟨1, .write "second" {}⟩, ⟨2, .write "third" {}⟩] ∧
      w.asserts = [true, true, true, false] ∧ ¬ w.OneOutstanding := by
  refine ⟨_, rfl, rfl, rfl, fun h => ?_⟩
  exact absurd (h.asserts false (by decide)) (by decide)

end EasyGrpc.Client.AsyncClientStreamWriter

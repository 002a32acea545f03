import EasyGrpc.Proof.ActionLoss

/-!
# The fate of an action

An action that was handed to gRPC is outstanding, with the polling thread, or deleted, and it is there
once. Its promise is never given an exception, and no promise is fulfilled twice.
-/

namespace EasyGrpc.Client

variable {Tid Request Response : Type}

def CompletionPc.action : CompletionPc Request → List (StreamAction Request)
  | .idle => []
  | .gotEvent a _ => [a]
  | .resultSet a _ => [a]
  | .stateReady a _ => [a]
  | .finishPushed a => [a]
  | .finalized a => [a]

namespace AsyncClientStreamWriter

def settled (w : AsyncClientStreamWriter Tid Request Response) : List (StreamAction Request) :=
  w.outstanding ++ w.completion.action ++ w.deleted

structure Fate (w : AsyncClientStreamWriter Tid Request Response) : Prop where
  ledger : w.handed.Perm w.settled
  unrejected : ∀ a ∈ w.handed, ∀ ex, w.promises a.id ≠ .exception ex
  noFutureError : w.futureErrors = 0

section Steps

variable {w w' : AsyncClientStreamWriter Tid Request Response} {a : StreamAction Request}
  {rest : List (StreamAction Request)} {ok : Bool}

theorem Fate.mem_handed_of_completion (h : w.Fate) (ha : a ∈ w.completion.action) : a ∈ w.handed :=
  h.ledger.mem_iff.mpr (List.mem_append_left _ (List.mem_append_right _ ha))

theorem Fate.withCompletion (h : w.Fate) (completion : CompletionPc Request)
    (haction : completion.action = w.completion.action) :
    Fate { w with completion := completion } := by
  have hsettled : settled { w with completion := completion } = w.settled := by
    rw [settled, settled, haction]
  exact { h with ledger := hsettled ▸ h.ledger }

theorem Fate.popAction_perform (h : w.Fate) (hinv : w.Inv) (hq : w.actions = a :: rest) :
    Fate ((w.popAction a rest).perform a) := by
  refine { h with ledger := ?_, unrejected := fun b hb ex => ?_ }
  · calc
      (w.handed ++ [a]).Perm (a :: w.handed) := List.perm_append_singleton a _
      List.Perm _ (a :: w.settled) := h.ledger.cons a
      List.Perm _ (w.outstanding ++ a :: (w.completion.action ++ w.deleted)) := by
        rw [settled, List.append_assoc]
        exact List.perm_middle.symm
      _ = ((w.popAction a rest).perform a).settled := by
        simp [settled, perform, assertThat, popAction]
  · have hor : b ∈ w.handed ∨ b = a := by
      simpa [perform, assertThat, popAction] using hb
    cases hor with
    | inl hold => exact h.unrejected b hold ex
    | inr heq =>
        have hpending := hinv.pending_queued a (hq ▸ List.mem_cons_self)
        rw [heq]
        change w.promises a.id ≠ _
        rw [hpending]
        intro heq
        cases heq

theorem Fate.popAction_setException (h : w.Fate) (hinv : w.Inv) (hq : w.actions = a :: rest)
    (message : String) : Fate ((w.popAction a rest).setException a message) := by
  have hpending := hinv.pending_queued a (hq ▸ List.mem_cons_self)
  refine { h with unrejected := fun b hb ex => ?_, noFutureError := ?_ }
  · rw [hinv.setException_promise hq, Function.update_of_ne (hinv.front_id_ne hq (.inl hb))]
    exact h.unrejected b hb ex
  · simp [setException, popAction, hpending, Promise.setException_pending, h.noFutureError]

theorem Fate.tryPerformAction (h : w.Fate) (hinv : w.Inv) : w.tryPerformAction.Fate := by
  rcases w.tryPerformAction_cases with ⟨-, heq⟩ | ⟨a, rest, hq, ⟨-, heq⟩ | ⟨-, heq⟩ | ⟨-, heq⟩⟩
  · rw [heq]
    exact h
  · rw [heq]
    exact h.popAction_perform hinv hq
  · rw [heq]
    exact h.popAction_setException hinv hq _
  · rw [heq]
    exact { h with }

theorem Fate.drain (h : w.Fate) (hinv : w.Inv) (last : Bool) :
    Fate (AsyncClientStreamWriter.drain last false w.actions w) := by
  have hboth := drain_induction (P := fun w => w.Inv ∧ w.Fate)
    (fun _ _ _ hq hold => ⟨hold.1.popAction_perform hq, hold.2.popAction_perform hold.1 hq⟩)
    (fun _ _ _ m hq hold =>
      ⟨hold.1.popAction_setException hq m, hold.2.popAction_setException hold.1 hq m⟩)
    last false rfl ⟨hinv, h⟩
  exact hboth.2

theorem Fate.finalizeSetResult (h : w.Fate) (hinv : w.Inv) (hpc : w.completion = .gotEvent a ok) :
    (w.finalizeSetResult a ok).Fate := by
  have hpending := hinv.pending_awaiting a (mem_awaiting_of_gotEvent hpc)
  refine ⟨?_, fun b hb ex => ?_, ?_⟩
  · have hledger := h.ledger
    rw [settled, hpc] at hledger
    exact hledger
  · rw [hinv.setResult_promise hpc]
    by_cases hid : b.id = a.id
    · rw [hid, Function.update_self]
      intro heq
      cases heq
    · rw [Function.update_of_ne hid]
      exact h.unrejected b hb ex
  · simp [AsyncClientStreamWriter.finalizeSetResult, setResult, assertThat, hpending,
      Promise.setValue_pending, h.noFutureError]

theorem Fate.move [DecidableEq Tid] {e : Event Tid Request Response} (h : w.Fate) (hinv : w.Inv)
    (hmove : Move w e w') : w'.Fate := by
  cases hmove with
  | write _ | finish _ => exact { h with }
  | tryPerformAction _ _ => exact { h.tryPerformAction hinv with }
  | @asyncNext id ok status response a hpc ha =>
      refine { h with ledger := h.ledger.trans ?_ }
      have htaken : w.outstanding.Perm (w.outstanding.eraseP (·.id = id) ++ [a]) :=
        (perm_cons_eraseP_of_find? ha).trans (List.perm_append_singleton a _).symm
      rw [settled, hpc, CompletionPc.action, List.append_nil]
      exact htaken.append_right w.deleted
  | setResult hpc => exact h.finalizeSetResult hinv hpc
  | @stateReady a ok hpc =>
      have hnext := h.withCompletion (.stateReady a ok) (by rw [hpc]; rfl)
      exact { hnext with }
  | @finalizeWriteOk a hpc _ =>
      apply (h.drain hinv a.isLastMessage).withCompletion
      rw [(drain_handedOver a.isLastMessage w.actions w).completion, hpc]
      rfl
  | @finalizeWriteFailed a hpc _ =>
      have hnext := h.withCompletion (.finishPushed a) (by rw [hpc]; rfl)
      exact { hnext with }
  | @finalizeFinish a ok hpc _ =>
      have hnext := h.withCompletion (w.finalizeFinish a ok).completion (by
        simp only [AsyncClientStreamWriter.finalizeFinish]
        split
        · rw [hpc]
          rfl
        · rfl)
      exact { hnext with }
  | @finishPushed a hpc =>
      apply (h.tryPerformAction hinv).withCompletion
      rw [w.tryPerformAction_completion, hpc]
      rfl
  | @delete a hpc =>
      refine { h with ledger := h.ledger.trans ?_ }
      have hsettled : w.settled = w.outstanding ++ (a :: w.deleted) := by
        simp [settled, hpc, CompletionPc.action]
      have hnext : settled { w with deleted := w.deleted ++ [a], completion := .idle } =
          w.outstanding ++ (w.deleted ++ [a]) := by
        simp [settled, CompletionPc.action]
      rw [hsettled, hnext]
      exact (List.perm_append_singleton a w.deleted).symm.append_left _

theorem initial_fate (response : Response) : Fate (initial Tid Request response) :=
  ⟨.refl _, nofun, rfl⟩

theorem fate_of_reachable [DecidableEq Tid] {response : Response}
    (hw : (system Tid Request response).Reachable w) : w.Inv ∧ w.Fate := by
  refine hw.invariant (I := fun w => w.Inv ∧ w.Fate) ?_ ?_
  · rintro _ rfl
    exact ⟨initial_inv response, initial_fate response⟩
  · rintro w e w' ⟨hinv, h⟩ - hstep
    have hmove := (step_cases hstep).2
    exact ⟨hinv.move hmove, h.move hinv hmove⟩

end Steps

end AsyncClientStreamWriter

end EasyGrpc.Client

import EasyGrpc.Proof.WriterSteps

/-!
# The invariant of the stream writer

The queue is first in, first out: what was pushed is what was popped followed by what is queued.
What was handed to gRPC is a subsequence of what was popped. An action that is queued, or whose tag
gRPC holds, has a promise that nobody has touched; an action handed over whose tag has come back has
a fulfilled one. None of this depends on the writer state or on the assertions.
-/

namespace EasyGrpc.Client

variable {Tid Request Response : Type}

def CompletionPc.awaiting : CompletionPc Request → List (StreamAction Request)
  | .gotEvent a _ => [a]
  | _ => []

/-- The action whose tag is back and which still keeps `_state` at `Processing`. -/
def CompletionPc.unfinalised : CompletionPc Request → List (StreamAction Request)
  | .gotEvent a _ => [a]
  | .resultSet a _ => [a]
  | _ => []

namespace AsyncClientStreamWriter

def awaiting (w : AsyncClientStreamWriter Tid Request Response) : List (StreamAction Request) :=
  w.outstanding ++ w.completion.awaiting

def inGrpc (w : AsyncClientStreamWriter Tid Request Response) : List (StreamAction Request) :=
  w.outstanding ++ w.completion.unfinalised

structure Inv (w : AsyncClientStreamWriter Tid Request Response) : Prop where
  order : w.pushed = w.popped ++ w.actions
  ids : w.pushed.map (·.id) = List.range w.nextId
  handed_sublist : w.handed.Sublist w.popped
  inGrpc_handed : ∀ a ∈ w.inGrpc, a ∈ w.handed
  inGrpc_nodup : (w.inGrpc.map (·.id)).Nodup
  pending_new : ∀ id, w.nextId ≤ id → w.promises id = .pending
  pending_queued : ∀ a ∈ w.actions, w.promises a.id = .pending
  pending_awaiting : ∀ a ∈ w.awaiting, w.promises a.id = .pending
  fulfilled : ∀ a ∈ w.handed, a ∈ w.awaiting ∨ (w.promises a.id).Fulfilled

theorem mem_inGrpc_of_mem_awaiting {w : AsyncClientStreamWriter Tid Request Response}
    {a : StreamAction Request} (ha : a ∈ w.awaiting) : a ∈ w.inGrpc := by
  simp only [awaiting, inGrpc, List.mem_append] at ha ⊢
  rcases ha with ha | ha
  · exact .inl ha
  · right
    cases hpc : w.completion <;> simp_all [CompletionPc.awaiting, CompletionPc.unfinalised]

theorem mem_awaiting_of_gotEvent {w : AsyncClientStreamWriter Tid Request Response}
    {a : StreamAction Request} {ok : Bool} (hpc : w.completion = .gotEvent a ok) : a ∈ w.awaiting := by
  rw [awaiting, hpc]
  exact List.mem_append_right _ List.mem_cons_self

theorem initial_inv (response : Response) : Inv (initial Tid Request response) where
  order := rfl
  ids := rfl
  handed_sublist := List.Sublist.refl _
  inGrpc_handed := nofun
  inGrpc_nodup := List.nodup_nil
  pending_new := fun _ _ => rfl
  pending_queued := nofun
  pending_awaiting := nofun
  fulfilled := nofun

section Queue

variable {w : AsyncClientStreamWriter Tid Request Response} {a : StreamAction Request}
  {rest : List (StreamAction Request)}

theorem Inv.pushed_nodup (h : Inv w) : (w.pushed.map (·.id)).Nodup :=
  h.ids ▸ List.nodup_range

theorem Inv.id_lt (h : Inv w) (ha : a ∈ w.pushed) : a.id < w.nextId := by
  have hmem : a.id ∈ w.pushed.map (·.id) := List.mem_map_of_mem ha
  rw [h.ids] at hmem
  exact List.mem_range.mp hmem

theorem Inv.mem_pushed_of_handed (h : Inv w) (ha : a ∈ w.handed) : a ∈ w.pushed := by
  rw [h.order]
  exact List.mem_append_left _ (h.handed_sublist.subset ha)

theorem Inv.eq_of_id_eq (h : Inv w) {b : StreamAction Request} (ha : a ∈ w.pushed)
    (hb : b ∈ w.pushed) (hid : a.id = b.id) : a = b :=
  List.inj_on_of_nodup_map h.pushed_nodup ha hb hid

theorem Inv.front_id_ne (h : Inv w) (hq : w.actions = a :: rest) {b : StreamAction Request}
    (hb : b ∈ w.handed ∨ b ∈ rest) : b.id ≠ a.id := by
  have hnodup := h.pushed_nodup
  rw [h.order, hq, List.map_append, List.map_cons, List.nodup_append] at hnodup
  obtain ⟨-, hrest, hdisjoint⟩ := hnodup
  rw [List.nodup_cons] at hrest
  rcases hb with hb | hb
  · exact hdisjoint _ (List.mem_map_of_mem (h.handed_sublist.subset hb)) _ List.mem_cons_self
  · intro heq
    exact hrest.1 (heq ▸ List.mem_map_of_mem hb)

theorem Inv.popAction (h : Inv w) (hq : w.actions = a :: rest) : Inv (w.popAction a rest) :=
  { h with
    order := by
      have horder := h.order
      rw [hq] at horder
      simpa [AsyncClientStreamWriter.popAction] using horder
    handed_sublist := h.handed_sublist.trans (List.sublist_append_left _ _)
    pending_queued := fun b hb => h.pending_queued b (hq ▸ List.mem_cons_of_mem _ hb) }

theorem Inv.popAction_perform (h : Inv w) (hq : w.actions = a :: rest) :
    Inv ((w.popAction a rest).perform a) := by
  have hfresh : ∀ b ∈ w.inGrpc, b.id ≠ a.id :=
    fun b hb => h.front_id_ne hq (.inl (h.inGrpc_handed b hb))
  have hpop := h.popAction hq
  refine
    { hpop with
      handed_sublist := h.handed_sublist.append (List.Sublist.refl _)
      inGrpc_handed := ?_
      inGrpc_nodup := ?_
      pending_awaiting := ?_
      fulfilled := ?_ }
  · intro b hb
    simp only [inGrpc, perform, assertThat, AsyncClientStreamWriter.popAction, List.mem_append,
      List.mem_singleton] at hb ⊢
    rcases hb with (hb | hb) | hb
    · exact .inl (h.inGrpc_handed b (List.mem_append_left _ hb))
    · exact .inr hb
    · exact .inl (h.inGrpc_handed b (List.mem_append_right _ hb))
  · have hperm : ((w.popAction a rest).perform a).inGrpc.Perm (a :: w.inGrpc) := by
      simp only [inGrpc, perform, assertThat, AsyncClientStreamWriter.popAction, List.append_assoc,
        List.singleton_append]
      exact List.perm_middle
    rw [(hperm.map _).nodup_iff, List.map_cons, List.nodup_cons]
    refine ⟨?_, h.inGrpc_nodup⟩
    intro hmem
    obtain ⟨b, hb, hid⟩ := List.mem_map.mp hmem
    exact hfresh b hb hid
  · intro b hb
    simp only [awaiting, perform, assertThat, AsyncClientStreamWriter.popAction, List.mem_append,
      List.mem_singleton] at hb ⊢
    rcases hb with (hb | rfl) | hb
    · exact h.pending_awaiting b (List.mem_append_left _ hb)
    · exact h.pending_queued b (hq ▸ List.mem_cons_self)
    · exact h.pending_awaiting b (List.mem_append_right _ hb)
  · intro b hb
    simp only [awaiting, perform, assertThat, AsyncClientStreamWriter.popAction, List.mem_append,
      List.mem_singleton] at hb ⊢
    rcases hb with hb | hb
    · have hold := h.fulfilled b hb
      simp only [awaiting, List.mem_append] at hold
      tauto
    · exact .inl (.inl (.inr hb))

theorem Inv.setException_promise (h : Inv w) (hq : w.actions = a :: rest) (message : String) :
    ((w.popAction a rest).setException a message).promises
      = Function.update w.promises a.id (.exception ⟨message⟩) := by
  have hpending := h.pending_queued a (hq ▸ List.mem_cons_self)
  simp [setException, AsyncClientStreamWriter.popAction, hpending, Promise.setException_pending]

theorem Inv.popAction_setException (h : Inv w) (hq : w.actions = a :: rest) (message : String) :
    Inv ((w.popAction a rest).setException a message) := by
  have hpromise := h.setException_promise hq message
  have hkeep : ∀ id, id ≠ a.id →
      ((w.popAction a rest).setException a message).promises id = w.promises id := by
    intro id hid
    rw [hpromise, Function.update_of_ne hid]
  have ha : a ∈ w.pushed := by
    rw [h.order, hq]
    exact List.mem_append_right _ List.mem_cons_self
  have hpop := h.popAction hq
  refine
    { hpop with
      pending_new := ?_
      pending_queued := ?_
      pending_awaiting := ?_
      fulfilled := ?_ }
  · intro id hid
    rw [hkeep id (Nat.ne_of_gt (Nat.lt_of_lt_of_le (h.id_lt ha) hid))]
    exact h.pending_new id hid
  · intro b hb
    rw [hkeep b.id (h.front_id_ne hq (.inr hb))]
    exact h.pending_queued b (hq ▸ List.mem_cons_of_mem _ hb)
  · intro b hb
    have hb' : b ∈ w.awaiting := hb
    rw [hkeep b.id (h.front_id_ne hq (.inl (h.inGrpc_handed b (mem_inGrpc_of_mem_awaiting hb'))))]
    exact h.pending_awaiting b hb'
  · intro b hb
    have hb' : b ∈ w.handed := hb
    rw [hkeep b.id (h.front_id_ne hq (.inl hb'))]
    exact h.fulfilled b hb'

theorem Inv.newAction (h : Inv w) (kind : StreamActionKind Request) : Inv (w.newAction kind) :=
  { h with
    order := by simp [AsyncClientStreamWriter.newAction, h.order]
    ids := by simp [AsyncClientStreamWriter.newAction, h.ids, List.range_succ]
    pending_new := fun id hid => h.pending_new id (Nat.le_of_succ_le hid)
    pending_queued := by
      intro b hb
      simp only [AsyncClientStreamWriter.newAction, List.mem_append, List.mem_singleton] at hb
      rcases hb with hb | rfl
      · exact h.pending_queued b hb
      · exact h.pending_new _ (Nat.le_refl _) }

theorem Inv.tryPerformAction (h : Inv w) : Inv w.tryPerformAction := by
  rcases w.tryPerformAction_cases with ⟨-, heq⟩ | ⟨a, rest, hq, ⟨-, heq⟩ | ⟨-, heq⟩ | ⟨-, heq⟩⟩
  · rw [heq]
    exact h
  · rw [heq]
    exact h.popAction_perform hq
  · rw [heq]
    exact h.popAction_setException hq _
  · rw [heq]
    exact h.popAction hq

theorem Inv.drain (h : Inv w) (last : Bool) :
    Inv (AsyncClientStreamWriter.drain last false w.actions w) :=
  drain_induction (fun _ _ _ hq h => h.popAction_perform hq)
    (fun _ _ _ _ hq h => h.popAction_setException hq _) last false rfl h

/-- The drain loop hands over or answers all it finds. -/
theorem drain_settles (hinv : w.Inv) (last : Bool) :
    ∀ b ∈ w.actions, b ∈ (AsyncClientStreamWriter.drain last false w.actions w).handed ∨
      ∃ message, (AsyncClientStreamWriter.drain last false w.actions w).promises b.id = .exception ⟨message⟩ := by
  have hloop := drain_induction (P := fun w' => w'.Inv ∧ ∀ b ∈ w.actions,
      b ∈ w'.actions ∨ b ∈ w'.handed ∨ ∃ message, w'.promises b.id = .exception ⟨message⟩)
    (w := w) ?_ ?_ last false rfl ⟨hinv, fun b hb => .inl hb⟩
  · intro b hb
    have hsettled := hloop.2 b hb
    simpa [drain_actions last false rfl] using hsettled
  · rintro w' a rest hq ⟨hinv', hall⟩
    refine ⟨hinv'.popAction_perform hq, fun b hb => ?_⟩
    rcases hall b hb with hqueued | hhanded | hanswered
    · rw [hq, List.mem_cons] at hqueued
      rcases hqueued with rfl | hqueued
      · exact .inr (.inl (List.mem_append_right _ List.mem_cons_self))
      · exact .inl hqueued
    · exact .inr (.inl (List.mem_append_left _ hhanded))
    · exact .inr (.inr hanswered)
  · rintro w' a rest message hq ⟨hinv', hall⟩
    refine ⟨hinv'.popAction_setException hq message, fun b hb => ?_⟩
    rw [hinv'.setException_promise hq message]
    rcases hall b hb with hqueued | hhanded | ⟨earlier, hanswered⟩
    · rw [hq, List.mem_cons] at hqueued
      rcases hqueued with rfl | hqueued
      · exact .inr (.inr ⟨message, Function.update_self _ _ _⟩)
      · exact .inl hqueued
    · exact .inr (.inl hhanded)
    · refine .inr (.inr ⟨earlier, ?_⟩)
      have hpending := hinv'.pending_queued a (hq ▸ List.mem_cons_self)
      have hne : b.id ≠ a.id := by
        intro heq
        rw [heq, hpending] at hanswered
        cases hanswered
      rw [Function.update_of_ne hne]
      exact hanswered

end Queue

section Completion

variable {w : AsyncClientStreamWriter Tid Request Response} {a : StreamAction Request} {ok : Bool}

/-- The tags gRPC holds matter up to order only, so a tag that comes back to the polling thread
keeps the invariant. -/
theorem Inv.of_perm (h : Inv w) {outstanding : List (StreamAction Request)}
    {owner : AsyncClientStreamCall Response} {completion : CompletionPc Request}
    (hinGrpc : (outstanding ++ completion.unfinalised).Perm w.inGrpc)
    (hawaiting : (outstanding ++ completion.awaiting).Perm w.awaiting) :
    Inv { w with outstanding := outstanding, owner := owner, completion := completion } :=
  { h with
    inGrpc_handed := fun b hb => h.inGrpc_handed b (hinGrpc.mem_iff.mp hb)
    inGrpc_nodup := (hinGrpc.map _).nodup_iff.mpr h.inGrpc_nodup
    pending_awaiting := fun b hb => h.pending_awaiting b (hawaiting.mem_iff.mp hb)
    fulfilled := fun b hb => (h.fulfilled b hb).imp_left hawaiting.mem_iff.mpr }

theorem Inv.setResult_promise (h : Inv w) (hpc : w.completion = .gotEvent a ok) :
    (w.finalizeSetResult a ok).promises = Function.update w.promises a.id (.value ok) := by
  have hpending := h.pending_awaiting a (mem_awaiting_of_gotEvent hpc)
  simp [finalizeSetResult, setResult, assertThat, hpending, Promise.setValue_pending]

theorem Inv.finalizeSetResult (h : Inv w) (hpc : w.completion = .gotEvent a ok) :
    Inv (w.finalizeSetResult a ok) := by
  have hpromise := h.setResult_promise hpc
  have ha : a ∈ w.awaiting := mem_awaiting_of_gotEvent hpc
  have hpushed : a ∈ w.pushed :=
    h.mem_pushed_of_handed (h.inGrpc_handed a (mem_inGrpc_of_mem_awaiting ha))
  have hkeep : ∀ id, id ≠ a.id → (w.finalizeSetResult a ok).promises id = w.promises id := by
    intro id hid
    rw [hpromise, Function.update_of_ne hid]
  have hinGrpc : (w.finalizeSetResult a ok).inGrpc = w.inGrpc := by
    simp [inGrpc, AsyncClientStreamWriter.finalizeSetResult, setResult, assertThat, hpc,
      CompletionPc.unfinalised]
  have hqueued : ∀ b ∈ w.actions, b.id ≠ a.id := by
    intro b hb heq
    have hpushedb : b ∈ w.pushed := h.order ▸ List.mem_append_right _ hb
    have hab := h.eq_of_id_eq hpushedb hpushed heq
    subst hab
    have hnodup := h.pushed_nodup
    rw [h.order, List.map_append, List.nodup_append] at hnodup
    have hpopped := h.handed_sublist.subset (h.inGrpc_handed b (mem_inGrpc_of_mem_awaiting ha))
    exact hnodup.2.2 _ (List.mem_map_of_mem hpopped) _ (List.mem_map_of_mem hb) rfl
  have hothers : ∀ b ∈ w.outstanding, b.id ≠ a.id := by
    have hnodup := h.inGrpc_nodup
    simp only [inGrpc, hpc, CompletionPc.unfinalised, List.map_append, List.map_cons, List.map_nil,
      List.nodup_append] at hnodup
    exact fun b hb => hnodup.2.2 _ (List.mem_map_of_mem hb) _ List.mem_cons_self
  refine
    { h with
      inGrpc_handed := fun b hb => h.inGrpc_handed b (hinGrpc ▸ hb)
      inGrpc_nodup := hinGrpc ▸ h.inGrpc_nodup
      pending_new := ?_
      pending_queued := ?_
      pending_awaiting := ?_
      fulfilled := ?_ }
  · intro id hid
    rw [hkeep id (Nat.ne_of_gt (Nat.lt_of_lt_of_le (h.id_lt hpushed) hid))]
    exact h.pending_new id hid
  · intro b hb
    rw [hkeep b.id (hqueued b hb)]
    exact h.pending_queued b hb
  · intro b hb
    have hb' : b ∈ w.outstanding := by
      simpa [awaiting, AsyncClientStreamWriter.finalizeSetResult, setResult, assertThat,
        CompletionPc.awaiting] using hb
    rw [hkeep b.id (hothers b hb')]
    exact h.pending_awaiting b (List.mem_append_left _ hb')
  · intro b hb
    by_cases hid : b.id = a.id
    · right
      rw [hpromise, hid, Function.update_self]
      exact Promise.fulfilled_value _
    · rw [hkeep b.id hid]
      have hold := h.fulfilled b hb
      have hne : b ≠ a := fun heq => hid (heq ▸ rfl)
      simpa [awaiting, AsyncClientStreamWriter.finalizeSetResult, setResult, assertThat, hpc,
        CompletionPc.awaiting, hne] using hold

theorem Inv.stateReady (h : Inv w) (hpc : w.completion = .resultSet a ok) :
    Inv { w with state := .ready, completion := .stateReady a ok } := by
  have hsub : w.outstanding.Sublist w.inGrpc := List.sublist_append_left _ _
  refine
    { h with
      inGrpc_handed := ?_
      inGrpc_nodup := ?_
      pending_awaiting := ?_
      fulfilled := ?_ }
  · intro b hb
    simp only [inGrpc, CompletionPc.unfinalised, List.append_nil] at hb
    exact h.inGrpc_handed b (hsub.subset hb)
  · simp only [inGrpc, CompletionPc.unfinalised, List.append_nil]
    exact h.inGrpc_nodup.sublist (hsub.map _)
  · simpa [awaiting, hpc, CompletionPc.awaiting] using h.pending_awaiting
  · simpa [awaiting, hpc, CompletionPc.awaiting] using h.fulfilled

theorem Inv.withCompletion (h : Inv w) (completion : CompletionPc Request)
    (hold : w.completion.unfinalised = []) (hnew : completion.unfinalised = []) :
    Inv { w with completion := completion } := by
  have hawaiting : ∀ c : CompletionPc Request, c.unfinalised = [] → c.awaiting = [] := by
    intro c hc
    cases c <;> simp_all [CompletionPc.awaiting, CompletionPc.unfinalised]
  refine h.of_perm ?_ ?_
  · rw [inGrpc, hold, hnew]
  · rw [awaiting, hawaiting _ hold, hawaiting _ hnew]

theorem Inv.finalizeFinish (h : Inv w) (hpc : w.completion = .stateReady a ok) :
    Inv (w.finalizeFinish a ok) := by
  have hold : w.completion.unfinalised = [] := congrArg CompletionPc.unfinalised hpc
  have hbase := h.withCompletion (w.finalizeFinish a ok).completion hold (by
    simp only [AsyncClientStreamWriter.finalizeFinish]
    split
    · rfl
    · exact hold)
  exact { hbase with }

end Completion

theorem Inv.move [DecidableEq Tid] {w w' : AsyncClientStreamWriter Tid Request Response}
    {e : Event Tid Request Response} (h : Inv w) (hmove : Move w e w') : Inv w' := by
  cases hmove with
  | write _ => exact { h.newAction _ with }
  | finish _ => exact { h.newAction _ with }
  | tryPerformAction _ _ => exact { h.tryPerformAction with }
  | asyncNext hpc ha =>
      have hperm := (List.perm_append_singleton _ _).trans (perm_cons_eraseP_of_find? ha).symm
      refine h.of_perm ?_ ?_
      · simpa [inGrpc, hpc, CompletionPc.unfinalised] using hperm
      · simpa [awaiting, hpc, CompletionPc.awaiting] using hperm
  | setResult hpc => exact h.finalizeSetResult hpc
  | stateReady hpc => exact h.stateReady hpc
  | @finalizeWriteOk a hpc _ =>
      have hpc' := (drain_handedOver a.isLastMessage w.actions w).completion.trans hpc
      exact (h.drain _).withCompletion _ (congrArg CompletionPc.unfinalised hpc') rfl
  | finalizeWriteFailed hpc _ =>
      exact (h.newAction _).withCompletion _ (congrArg CompletionPc.unfinalised hpc) rfl
  | finalizeFinish hpc _ => exact h.finalizeFinish hpc
  | finishPushed hpc =>
      have hpc' := w.tryPerformAction_completion.trans hpc
      exact h.tryPerformAction.withCompletion _ (congrArg CompletionPc.unfinalised hpc') rfl
  | delete hpc =>
      have hbase : Inv { w with completion := .idle } :=
        h.withCompletion _ (congrArg CompletionPc.unfinalised hpc) rfl
      exact { hbase with }

section Promises

variable {w w' : AsyncClientStreamWriter Tid Request Response} {a : StreamAction Request}
  {rest : List (StreamAction Request)}

theorem Inv.popAction_setException_promises (h : w.Inv) (hq : w.actions = a :: rest)
    (message : String) {id : Nat} (hid : (w.promises id).Fulfilled) :
    ((w.popAction a rest).setException a message).promises id = w.promises id := by
  have hne : id ≠ a.id := by
    rintro rfl
    exact hid (h.pending_queued a (hq ▸ List.mem_cons_self))
  rw [h.setException_promise hq, Function.update_of_ne hne]

theorem Inv.tryPerformAction_promises (h : w.Inv) {id : Nat} (hid : (w.promises id).Fulfilled) :
    w.tryPerformAction.promises id = w.promises id := by
  rcases w.tryPerformAction_cases with ⟨-, heq⟩ | ⟨a, rest, hq, ⟨-, heq⟩ | ⟨-, heq⟩ | ⟨-, heq⟩⟩
  · rw [heq]
  · rw [heq]
    rfl
  · rw [heq]
    exact h.popAction_setException_promises hq _ hid
  · rw [heq]
    rfl

theorem Inv.drain_promises (h : w.Inv) (last : Bool) {id : Nat} (hid : (w.promises id).Fulfilled) :
    (AsyncClientStreamWriter.drain last false w.actions w).promises id = w.promises id := by
  have hloop := drain_induction (P := fun v => v.Inv ∧ v.promises id = w.promises id)
    (fun _ _ _ hq hold => ⟨hold.1.popAction_perform hq, hold.2⟩)
    (fun v b rest m hq hold => ⟨hold.1.popAction_setException hq m, ?_⟩) last false rfl ⟨h, rfl⟩
  · exact hloop.2
  · rw [hold.1.popAction_setException_promises hq m (hold.2 ▸ hid)]
    exact hold.2

/-- A promise that is fulfilled stays as it is. -/
theorem Inv.promises_move [DecidableEq Tid] {e : Event Tid Request Response} (h : w.Inv)
    (hmove : Move w e w') {id : Nat} (hid : (w.promises id).Fulfilled) :
    w'.promises id = w.promises id := by
  cases hmove with
  | write _ | finish _ | asyncNext _ _ | stateReady _ | finalizeWriteFailed _ _ | finalizeFinish _ _
  | delete _ => rfl
  | tryPerformAction _ _ | finishPushed _ => exact h.tryPerformAction_promises hid
  | @setResult a ok hpc =>
      have hne : id ≠ a.id := by
        rintro rfl
        exact hid (h.pending_awaiting a (mem_awaiting_of_gotEvent hpc))
      rw [h.setResult_promise hpc, Function.update_of_ne hne]
  | @finalizeWriteOk a _ _ => exact h.drain_promises a.isLastMessage hid

end Promises

end AsyncClientStreamWriter

end EasyGrpc.Client

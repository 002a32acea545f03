import EasyGrpc.Client.StreamActionAccess
import EasyGrpc.Proof.ActionFate

/-!
# No action is touched after its deletion

A deleted action was handed over, so it is not queued, and it is neither outstanding nor with the polling
thread. The thread inside `perform` is safe because the polling thread needs the mutex it holds before it
comes to the deletion.
-/

namespace EasyGrpc.Client

variable {Tid Request Response : Type}

namespace AsyncClientStreamWriter

variable {w w' : AsyncClientStreamWriter Tid Request Response} {a : StreamAction Request}

/-- Each action is popped, handed over, answered and deleted at most once, and deleted only after it
was handed over. -/
structure ConsumedOnce (w : AsyncClientStreamWriter Tid Request Response) : Prop where
  popped : (w.popped.map (·.id)).Nodup
  handed : (w.handed.map (·.id)).Nodup
  rejected : ∀ a ∈ w.handed, ∀ ex, w.promises a.id ≠ .exception ex
  answered : w.futureErrors = 0
  deleted : (w.deleted.map (·.id)).Nodup
  deletedHanded : ∀ a ∈ w.deleted, a ∈ w.handed
  unqueued : ∀ a ∈ w.deleted, ∀ b ∈ w.actions, b.id ≠ a.id

theorem Inv.popped_nodup (h : w.Inv) : (w.popped.map (·.id)).Nodup := by
  have hnodup := h.pushed_nodup
  rw [h.order, List.map_append] at hnodup
  exact hnodup.of_append_left

theorem Inv.handed_nodup (h : w.Inv) : (w.handed.map (·.id)).Nodup :=
  h.popped_nodup.sublist (h.handed_sublist.map _)

theorem Inv.queued_id_ne (h : w.Inv) (ha : a ∈ w.handed) : ∀ b ∈ w.actions, b.id ≠ a.id := by
  have hnodup := h.pushed_nodup
  rw [h.order, List.map_append, List.nodup_append] at hnodup
  intro b hb heq
  have hpopped := h.handed_sublist.subset ha
  exact hnodup.2.2 _ (List.mem_map_of_mem hpopped) _ (List.mem_map_of_mem hb) heq.symm

theorem Fate.mem_handed_of_deleted (h : w.Fate) (ha : a ∈ w.deleted) : a ∈ w.handed :=
  h.ledger.mem_iff.mpr (List.mem_append_right _ ha)

/-- What is outstanding or with the polling thread is not deleted. -/
theorem Fate.live_id_ne (h : w.Fate) (hinv : w.Inv) (ha : a ∈ w.outstanding ++ w.completion.action) :
    ∀ b ∈ w.deleted, b.id ≠ a.id := by
  have hnodup := (h.ledger.map (·.id)).nodup_iff.mp hinv.handed_nodup
  rw [settled, List.map_append, List.nodup_append] at hnodup
  intro b hb heq
  exact hnodup.2.2 _ (List.mem_map_of_mem ha) _ (List.mem_map_of_mem hb) heq.symm

theorem Fate.consumedOnce (h : w.Fate) (hinv : w.Inv) : w.ConsumedOnce where
  popped := hinv.popped_nodup
  handed := hinv.handed_nodup
  rejected := h.unrejected
  answered := h.noFutureError
  deleted := by
    have hnodup := (h.ledger.map (·.id)).nodup_iff.mp hinv.handed_nodup
    rw [settled, List.map_append] at hnodup
    exact hnodup.of_append_right
  deletedHanded _ ha := h.mem_handed_of_deleted ha
  unqueued _ ha := hinv.queued_id_ne (h.mem_handed_of_deleted ha)

end AsyncClientStreamWriter

namespace StreamActionAccess

open AsyncClientStreamWriter

variable {s s' : StreamActionAccess Tid Request Response}

structure Inv (s : StreamActionAccess Tid Request Response) : Prop where
  writer : s.writer.Inv
  fate : s.writer.Fate
  performing : ∀ t a, s.performing = some (t, a) →
    a ∈ s.writer.outstanding ∨ ∃ ok, s.writer.completion = .gotEvent a ok

theorem performing_tryPerformAction {t u : Tid} {a : StreamAction Request}
    (hp : s.performingAfter (.tryPerformAction t) = some (u, a)) :
    a ∈ s.writer.tryPerformAction.outstanding := by
  simp only [performingAfter] at hp
  split at hp
  · rename_i hready
    obtain ⟨b, hb, hpair⟩ := Option.map_eq_some_iff.mp hp
    obtain ⟨-, rfl⟩ := Prod.mk.inj hpair
    rcases s.writer.tryPerformAction_cases with
      ⟨hq, -⟩ | ⟨c, rest, hq, ⟨-, heq⟩ | ⟨hs, -⟩ | ⟨hs, -⟩⟩
    · rw [hq] at hb
      cases hb
    · rw [hq] at hb
      obtain rfl := Option.some.inj hb
      rw [heq]
      exact List.mem_append_right _ List.mem_cons_self
    · rw [hready] at hs
      cases hs
    · rw [hready] at hs
      cases hs
  · cases hp

theorem mem_completionAccesses {w : AsyncClientStreamWriter Tid Request Response}
    {a : StreamAction Request} (ha : a ∈ completionAccesses w) :
    a ∈ w.completion.action ∨ a ∈ w.actions ∨ a = ⟨w.nextId, .finish⟩ := by
  unfold completionAccesses at ha
  split at ha
  case h_1 => cases ha
  case h_2 hpc | h_3 hpc | h_6 hpc =>
    rw [hpc]
    exact .inl ha
  case h_4 b ok hpc =>
    rw [hpc, CompletionPc.action]
    split at ha
    · split at ha
      · exact (List.mem_cons.mp ha).imp List.mem_singleton.mpr .inl
      · have hor : a = b ∨ a = ⟨w.nextId, .finish⟩ := by simpa using ha
        exact hor.imp List.mem_singleton.mpr .inr
    · exact .inl ha
  case h_5 b hpc =>
    rw [hpc, CompletionPc.action]
    refine (List.mem_cons.mp ha).imp List.mem_singleton.mpr fun hmem => .inl ?_
    exact List.mem_of_mem_head? (Option.mem_toList.mp hmem)

variable [DecidableEq Tid]

/-- While a thread is inside `perform` of an action, the polling thread gets no further than its tag. -/
theorem performing_move {e : AsyncClientStreamWriter.Event Tid Request Response}
    {w : AsyncClientStreamWriter Tid Request Response}
    (h : ∀ t a, s.performing = some (t, a) →
      a ∈ s.writer.outstanding ∨ ∃ ok, s.writer.completion = .gotEvent a ok)
    (hguard : ¬ (s.performing.isSome ∧ needsNoMutex s.writer e = false)) (hmove : Move s.writer e w)
    {t : Tid} {a : StreamAction Request} (hp : s.performingAfter e = some (t, a)) :
    a ∈ w.outstanding ∨ ∃ ok, w.completion = .gotEvent a ok := by
  cases hmove with
  | tryPerformAction _ _ => exact .inl (performing_tryPerformAction hp)
  | write _ | finish _ =>
      have hold : s.performing = some (t, a) := hp
      simp [hold, needsNoMutex] at hguard
  | setResult hpc | stateReady hpc | finishPushed hpc =>
      have hold : s.performing = some (t, a) := hp
      simp [hold, needsNoMutex, hpc] at hguard
  | finalizeWriteOk hpc ha | finalizeWriteFailed hpc ha =>
      have hold : s.performing = some (t, a) := hp
      simp [hold, needsNoMutex, hpc, StreamAction.isFinish, ha] at hguard
  | @asyncNext id ok status response b hpc hb =>
      have hout : a ∈ s.writer.outstanding := by
        refine (h t a hp).resolve_right ?_
        rintro ⟨ok, hgot⟩
        rw [hpc] at hgot
        cases hgot
      have hor := (perm_cons_eraseP_of_find? hb).mem_iff.mp hout
      cases List.mem_cons.mp hor with
      | inl heq => exact .inr ⟨ok, heq ▸ rfl⟩
      | inr hmem => exact .inl hmem
  | finalizeFinish hpc _ | delete hpc =>
      refine .inl ((h t a hp).resolve_right ?_)
      rintro ⟨ok, hgot⟩
      rw [hpc] at hgot
      cases hgot

/-- Seen without the thread inside `perform`, a run is one of the writer. -/
theorem writer_reachable {response : Response} (hs : (system Tid Request response).Reachable s) :
    (AsyncClientStreamWriter.system Tid Request response).Reachable s.writer := by
  refine hs.project writer ?_ fun s e s' hstep => ?_
  · rintro _ rfl
    rfl
  · cases e with
    | performReturns =>
        obtain ⟨p, -, rfl⟩ := Option.map_eq_some_iff.mp hstep
        exact .inl rfl
    | writer e =>
        simp only [system, StreamActionAccess.step] at hstep
        split at hstep
        · cases hstep
        · obtain ⟨w, hw, rfl⟩ := Option.map_eq_some_iff.mp hstep
          exact .inr ⟨e, hw⟩

theorem performing_of_reachable {response : Response}
    (hs : (system Tid Request response).Reachable s) {t : Tid} {a : StreamAction Request}
    (hp : s.performing = some (t, a)) :
    a ∈ s.writer.outstanding ∨ ∃ ok, s.writer.completion = .gotEvent a ok := by
  have hall := hs.invariant (I := fun s => ∀ t a, s.performing = some (t, a) →
    a ∈ s.writer.outstanding ∨ ∃ ok, s.writer.completion = .gotEvent a ok) ?_ ?_
  · exact hall t a hp
  · rintro _ rfl
    exact nofun
  · intro s e s' h _ hstep
    cases e with
    | performReturns =>
        obtain ⟨p, -, rfl⟩ := Option.map_eq_some_iff.mp hstep
        exact nofun
    | writer e =>
        simp only [system, StreamActionAccess.step] at hstep
        split at hstep
        · cases hstep
        · rename_i hguard
          obtain ⟨w, hw, rfl⟩ := Option.map_eq_some_iff.mp hstep
          exact fun t a hp => performing_move h hguard (step_cases hw).2 hp

theorem inv_of_reachable {response : Response} (hs : (system Tid Request response).Reachable s) :
    s.Inv := by
  obtain ⟨hinv, hfate⟩ := fate_of_reachable (writer_reachable hs)
  exact ⟨hinv, hfate, fun t a => performing_of_reachable hs⟩

omit [DecidableEq Tid] in
/-- Nothing that a step touches is deleted before the step. -/
theorem Inv.accesses_id_ne {e : Event Tid Request Response} (h : s.Inv) {a : StreamAction Request}
    (ha : a ∈ s.accesses e) : ∀ b ∈ s.writer.deleted, b.id ≠ a.id := by
  have hlive : ∀ c ∈ s.writer.outstanding ++ s.writer.completion.action,
      ∀ b ∈ s.writer.deleted, b.id ≠ c.id := fun c hc => h.fate.live_id_ne h.writer hc
  have hqueued : ∀ c ∈ s.writer.actions, ∀ b ∈ s.writer.deleted, b.id ≠ c.id := fun c hc b hb =>
    (h.writer.queued_id_ne (h.fate.mem_handed_of_deleted hb) c hc).symm
  have hnew : ∀ b ∈ s.writer.deleted, b.id ≠ s.writer.nextId := fun b hb =>
    Nat.ne_of_lt (h.writer.id_lt (h.writer.mem_pushed_of_handed (h.fate.mem_handed_of_deleted hb)))
  cases e with
  | performReturns =>
      obtain ⟨⟨t, c⟩, hp, rfl⟩ := Option.map_eq_some_iff.mp (Option.mem_toList.mp ha)
      apply hlive c
      rw [List.mem_append]
      refine (h.performing t c hp).imp_right ?_
      rintro ⟨ok, hpc⟩
      rw [hpc]
      exact List.mem_cons_self
  | writer e =>
      cases e with
      | write t message options =>
          obtain rfl := List.mem_singleton.mp ha
          exact hnew
      | finish t =>
          obtain rfl := List.mem_singleton.mp ha
          exact hnew
      | tryPerformAction t =>
          exact hqueued a (List.mem_of_mem_head? (Option.mem_toList.mp ha))
      | asyncNext id ok status response =>
          have hfound := List.mem_of_find?_eq_some (Option.mem_toList.mp ha)
          exact hlive a (List.mem_append_left _ hfound)
      | completion =>
          obtain hmem | hmem | rfl := mem_completionAccesses ha
          · exact hlive a (List.mem_append_right _ hmem)
          · exact hqueued a hmem
          · exact hnew

theorem Inv.promises_step {e : Event Tid Request Response} (h : s.Inv) (hstep : s.step e = some s')
    {id : Nat} (hid : (s.writer.promises id).Fulfilled) :
    s'.writer.promises id = s.writer.promises id := by
  cases e with
  | performReturns =>
      obtain ⟨p, -, rfl⟩ := Option.map_eq_some_iff.mp hstep
      rfl
  | writer e =>
      simp only [StreamActionAccess.step] at hstep
      split at hstep
      · cases hstep
      · obtain ⟨w, hw, rfl⟩ := Option.map_eq_some_iff.mp hstep
        exact h.writer.promises_move (step_cases hw).2 hid

/-- **Actions.** In every reachable state each action has been consumed at most once, and no step touches
one that was deleted or fulfils a promise again. -/
theorem consumedOnce_of_reachable (response : Response)
    (hs : (system Tid Request response).Reachable s) :
    s.writer.ConsumedOnce ∧ ∀ e s', s.step e = some s' →
      (∀ a ∈ s.accesses e, ∀ b ∈ s.writer.deleted, b.id ≠ a.id) ∧
      ∀ id, (s.writer.promises id).Fulfilled → s'.writer.promises id = s.writer.promises id := by
  have h := inv_of_reachable hs
  refine ⟨h.fate.consumedOnce h.writer, fun e s' hstep => ⟨fun a ha => ?_, fun id hid => ?_⟩⟩
  · exact h.accesses_id_ne ha
  · exact h.promises_step hstep hid

/-- The tag is back before the thread returns from `perform`; the action is deleted afterwards. -/
theorem consumedOnce_tagDuringPerform : ∃ s, (system Nat String "").run
    { writer := .initial Nat String "" }
    [.writer (.write 0 "message" {}), .writer (.tryPerformAction 0), .writer (.asyncNext 0 true .OK none),
      .performReturns, .writer .completion, .writer .completion, .writer .completion,
      .writer .completion] = some s ∧
    s.writer.deleted = [⟨0, .write "message" {}⟩] ∧ s.writer.ConsumedOnce := by
  refine ⟨_, rfl, rfl, (consumedOnce_of_reachable "" ?_).1⟩
  exact TransitionSystem.reachable_of_run [.writer (.write 0 "message" {}),
    .writer (.tryPerformAction 0), .writer (.asyncNext 0 true .OK none), .performReturns,
    .writer .completion, .writer .completion, .writer .completion, .writer .completion] (.init rfl) rfl

end StreamActionAccess

end EasyGrpc.Client

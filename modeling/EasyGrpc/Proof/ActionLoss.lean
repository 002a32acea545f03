import EasyGrpc.Proof.WriterInvariant

/-!
# No submitted action is lost

Every action that was pushed is queued, is in the hands of gRPC, or has a fulfilled promise. One
branch of the code breaks this: `tryPerformAction` pops the front of the queue and drops it when the
writer state is `Processing`. Along a run that never takes this branch no action is lost, and along
a run that takes it one is.
-/

namespace EasyGrpc.Client.AsyncClientStreamWriter

variable {Tid Request Response : Type}

/-- No user call is between its push and the end of its `tryPerformAction`, gRPC holds no tag and no
finaliser runs. -/
def Quiescent (w : AsyncClientStreamWriter Tid Request Response) : Prop :=
  w.callers = [] ∧ w.outstanding = [] ∧ w.completion = .idle

def NoActionLost (w : AsyncClientStreamWriter Tid Request Response) : Prop :=
  (∀ a ∈ w.pushed, a ∈ w.actions ∨ a ∈ w.inGrpc ∨ (w.promises a.id).Fulfilled) ∧
  (w.Quiescent → w.actions = [] ∧ ∀ a ∈ w.pushed, (w.promises a.id).Fulfilled)

def RunsTryPerform (w : AsyncClientStreamWriter Tid Request Response) :
    Event Tid Request Response → Prop
  | .tryPerformAction _ => True
  | .completion => ∃ a, w.completion = .finishPushed a
  | _ => False

/-- A step that runs `tryPerformAction` finds the queue empty or the state other than `Processing`. -/
def PopsWhenIdle (w : AsyncClientStreamWriter Tid Request Response)
    (e : Event Tid Request Response) : Prop :=
  w.RunsTryPerform e → w.actions = [] ∨ w.state ≠ .processing

structure PopsNothing (w w' : AsyncClientStreamWriter Tid Request Response) : Prop where
  popped : w'.popped = w.popped
  handed : w'.handed = w.handed
  appended : ∃ l, w'.actions = w.actions ++ l ∧ w'.pushed = w.pushed ++ l

/-- **Popping.** A step pops by `tryPerformAction`, by the drain loop or not at all. So a property of the
queue and its history that the other steps keep is judged on these two. -/
theorem pops_move_iff [DecidableEq Tid] {w w' : AsyncClientStreamWriter Tid Request Response}
    {e : Event Tid Request Response} {P : AsyncClientStreamWriter Tid Request Response → Prop}
    {front : Prop} {drained : StreamAction Request → Prop}
    (hignores : ∀ v callers completion,
      P { v with callers := callers, completion := completion } ↔ P v)
    (hmove : Move w e w') (hkeep : PopsNothing w w' → P w') (htry : P w.tryPerformAction ↔ front)
    (hdrain : ∀ a, w.completion = .stateReady a true → a.isWrite = true →
      (P (drain a.isLastMessage false w.actions w) ↔ drained a)) :
    P w' ↔ (w.RunsTryPerform e → front) ∧
      (e = .completion → ∀ a, w.completion = .stateReady a true → a.isWrite = true → drained a) := by
  have hnothing : PopsNothing w w' → ¬ w.RunsTryPerform e →
      (∀ a, w.completion = .stateReady a true → a.isWrite = true → e ≠ .completion) →
      (P w' ↔ (w.RunsTryPerform e → front) ∧
        (e = .completion → ∀ a, w.completion = .stateReady a true → a.isWrite = true →
          drained a)) := by
    intro hpops hruns hpc
    refine iff_of_true (hkeep hpops) ⟨fun h => absurd h hruns, fun he a ha hwrite => ?_⟩
    exact absurd he (hpc a ha hwrite)
  cases hmove with
  | write _ | finish _ =>
      exact hnothing ⟨rfl, rfl, _, rfl, rfl⟩ id fun _ _ _ h => by cases h
  | asyncNext _ _ =>
      exact hnothing ⟨rfl, rfl, [], (List.append_nil _).symm, (List.append_nil _).symm⟩ id
        fun _ _ _ h => by cases h
  | tryPerformAction _ _ =>
      rw [hignores w.tryPerformAction _ w.tryPerformAction.completion, htry]
      exact ⟨fun h => ⟨fun _ => h, nofun⟩, fun h => h.1 trivial⟩
  | setResult hpc | stateReady hpc | delete hpc =>
      refine hnothing ⟨rfl, rfl, [], (List.append_nil _).symm, (List.append_nil _).symm⟩ ?_ ?_
      · simp [RunsTryPerform, hpc]
      · simp [hpc]
  | @finalizeWriteOk a hpc ha =>
      rw [hignores (drain a.isLastMessage false w.actions w)
        (drain a.isLastMessage false w.actions w).callers, hdrain a hpc ha]
      refine ⟨fun h => ⟨by simp [RunsTryPerform, hpc], fun _ b hb _ => ?_⟩, fun h => h.2 rfl a hpc ha⟩
      have hab : a = b := by simpa [hpc] using hb
      exact hab ▸ h
  | finalizeWriteFailed hpc _ =>
      refine hnothing ⟨rfl, rfl, _, rfl, rfl⟩ ?_ ?_
      · simp [RunsTryPerform, hpc]
      · simp [hpc]
  | @finalizeFinish a ok hpc ha =>
      refine hnothing ⟨rfl, rfl, [], (List.append_nil _).symm, (List.append_nil _).symm⟩ ?_ ?_
      · simp [RunsTryPerform, hpc]
      · intro b hb hwrite
        obtain ⟨rfl, rfl⟩ : a = b ∧ ok = true := by simpa [hpc] using hb
        rw [StreamAction.isFinish, hwrite] at ha
        cases ha
  | @finishPushed a hpc =>
      rw [hignores w.tryPerformAction w.tryPerformAction.callers, htry]
      exact ⟨fun h => ⟨fun _ => h, by simp [hpc]⟩, fun h => h.1 ⟨a, hpc⟩⟩

def pushedFinishes : CompletionPc Request → Nat
  | .finishPushed _ => 1
  | _ => 0

/-- Whoever pushed an action pops one afterwards, so the queue is no longer than the number of
threads still to do so. -/
def QueueBounded (w : AsyncClientStreamWriter Tid Request Response) : Prop :=
  w.actions.length ≤ w.callers.length + pushedFinishes w.completion

def Accounted (w : AsyncClientStreamWriter Tid Request Response) : Prop :=
  ∀ a ∈ w.popped, a ∈ w.handed ∨ (w.promises a.id).Fulfilled

variable [DecidableEq Tid] {w w' : AsyncClientStreamWriter Tid Request Response}
  {e : Event Tid Request Response}

theorem QueueBounded.move (h : w.QueueBounded) (hmove : Move w e w') : w'.QueueBounded := by
  unfold QueueBounded at h ⊢
  cases hmove with
  | write _ | finish _ =>
      simp only [newAction, List.length_append, List.length_cons, List.length_nil]
      omega
  | tryPerformAction ht _ =>
      have hpos := List.length_pos_of_mem ht
      simp only [tryPerformAction_actions, tryPerformAction_completion, List.length_tail,
        List.length_erase_of_mem ht]
      omega
  | asyncNext hpc _ | setResult hpc | stateReady hpc | delete hpc =>
      simpa [hpc, pushedFinishes, finalizeSetResult, setResult, assertThat] using h
  | finalizeWriteOk hpc _ =>
      simp [drain_actions _ _ rfl]
  | finalizeWriteFailed hpc _ =>
      simp only [hpc, pushedFinishes] at h
      simp only [newAction, pushedFinishes, List.length_append, List.length_cons,
        List.length_nil]
      omega
  | finalizeFinish hpc _ =>
      simp only [hpc, pushedFinishes] at h
      simp only [finalizeFinish, assertThat]
      split <;> simpa [hpc, pushedFinishes] using h
  | finishPushed hpc =>
      simp only [hpc, pushedFinishes] at h
      simp only [tryPerformAction_actions, tryPerformAction_callers, pushedFinishes,
        List.length_tail]
      omega

section Accounts

omit [DecidableEq Tid]

variable {a : StreamAction Request} {rest : List (StreamAction Request)}

theorem setException_fulfilled (a : StreamAction Request) (message : String) {id : Nat}
    (h : (w.promises id).Fulfilled ∨ id = a.id) :
    ((w.setException a message).promises id).Fulfilled := by
  simp only [setException]
  by_cases hid : id = a.id
  · subst hid
    rw [Function.update_self]
    cases w.promises a.id <;> simp [Promise.setException]
  · rw [Function.update_of_ne hid]
    exact h.resolve_right hid

theorem Accounted.popAction_perform (h : w.Accounted) :
    ((w.popAction a rest).perform a).Accounted := by
  intro b hb
  simp only [perform, assertThat, popAction, List.mem_append, List.mem_singleton] at hb ⊢
  rcases hb with hb | hb
  · exact (h b hb).imp_left .inl
  · exact .inl (.inr hb)

theorem Accounted.popAction_setException (h : w.Accounted) (message : String) :
    ((w.popAction a rest).setException a message).Accounted := by
  intro b hb
  have hb' : b ∈ w.popped ∨ b = a := by
    simpa [setException, popAction] using hb
  rcases hb' with hb' | rfl
  · exact (h b hb').imp_right fun hf => setException_fulfilled a message (.inl hf)
  · exact .inr (setException_fulfilled b message (.inr rfl))

theorem not_accounted_popAction (hinv : w.Inv) (hq : w.actions = a :: rest) :
    ¬ (w.popAction a rest).Accounted := by
  intro h
  have hpending := hinv.pending_queued a (hq ▸ List.mem_cons_self)
  rcases h a (List.mem_append_right _ List.mem_cons_self) with hhanded | hfulfilled
  · exact hinv.front_id_ne hq (.inl hhanded) rfl
  · exact hfulfilled hpending

theorem accounted_tryPerformAction_iff (hinv : w.Inv) (h : w.Accounted) :
    w.tryPerformAction.Accounted ↔ w.actions = [] ∨ w.state ≠ .processing := by
  rcases w.tryPerformAction_cases with
    ⟨hq, heq⟩ | ⟨a, rest, hq, ⟨hs, heq⟩ | ⟨hs, heq⟩ | ⟨hs, heq⟩⟩
  · simpa [heq, hq] using h
  · simpa [heq, hs] using h.popAction_perform
  · simpa [heq, hs] using h.popAction_setException _
  · simpa [heq, hq, hs] using not_accounted_popAction hinv hq

theorem accounted_iff (hinv : w.Inv) :
    w.Accounted ↔ ∀ a ∈ w.pushed, a ∈ w.actions ∨ a ∈ w.inGrpc ∨ (w.promises a.id).Fulfilled := by
  constructor
  · intro h a ha
    rw [hinv.order, List.mem_append] at ha
    rcases ha with ha | ha
    · right
      rcases h a ha with hhanded | hfulfilled
      · exact (hinv.fulfilled a hhanded).imp_left mem_inGrpc_of_mem_awaiting
      · exact .inr hfulfilled
    · exact .inl ha
  · intro h a ha
    rcases h a (hinv.order ▸ List.mem_append_left _ ha) with hqueued | hgrpc | hfulfilled
    · have hnodup := hinv.pushed_nodup
      rw [hinv.order, List.map_append, List.nodup_append] at hnodup
      exact absurd rfl (hnodup.2.2 _ (List.mem_map_of_mem ha) _ (List.mem_map_of_mem hqueued))
    · exact .inl (hinv.inGrpc_handed a hgrpc)
    · exact .inr hfulfilled

theorem QueueBounded.emptied (h : w.QueueBounded) (hquiet : w.Quiescent) : w.actions = [] := by
  obtain ⟨hcallers, -, hpc⟩ := hquiet
  rw [QueueBounded, hcallers, hpc] at h
  exact List.eq_nil_of_length_eq_zero (Nat.le_zero.mp h)

theorem noActionLost_iff (hinv : w.Inv) (hbound : w.QueueBounded) :
    w.NoActionLost ↔ w.Accounted := by
  refine ⟨fun h => (accounted_iff hinv).mpr h.1, fun h => ⟨(accounted_iff hinv).mp h, ?_⟩⟩
  intro hquiet
  have hempty := hbound.emptied hquiet
  refine ⟨hempty, fun a ha => ?_⟩
  have hgrpc : w.inGrpc = [] := by
    rw [inGrpc, hquiet.2.1, hquiet.2.2]
    rfl
  simpa [hempty, hgrpc] using (accounted_iff hinv).mp h a ha

end Accounts

theorem accounted_move_iff (hinv : w.Inv) (h : w.Accounted) (hmove : Move w e w') :
    w'.Accounted ↔ w.PopsWhenIdle e := by
  rw [pops_move_iff (P := Accounted) (fun _ _ _ => Iff.rfl) hmove (fun hnothing b hb => ?_)
    (accounted_tryPerformAction_iff hinv h) fun a _ _ => iff_true_intro ?_]
  · exact ⟨fun hall => hall.1, fun hidle => ⟨hidle, fun _ _ _ _ => trivial⟩⟩
  · rw [hnothing.popped] at hb
    rw [hnothing.handed]
    refine (h b hb).imp_right fun hfulfilled => ?_
    rw [hinv.promises_move hmove hfulfilled]
    exact hfulfilled
  · exact drain_induction (P := Accounted) (fun _ _ _ _ h => h.popAction_perform)
      (fun _ _ _ _ _ h => h.popAction_setException _) a.isLastMessage false rfl h

/-- **No action is lost** after any step of a run, and everything is answered in its quiescent
states, exactly when no step of the run pops an action while the state is `Processing`. -/
theorem noActionLost_iff_popsWhenIdle (response : Response) (es : List (Event Tid Request Response)) :
    (system Tid Request response).AllSteps (fun _ _ w' => w'.NoActionLost)
        (initial Tid Request response) es ↔
      (system Tid Request response).AllSteps (fun w e _ => w.PopsWhenIdle e)
        (initial Tid Request response) es := by
  refine TransitionSystem.allSteps_congr (I := fun w => w.Inv ∧ w.QueueBounded ∧ w.Accounted)
    ?_ ?_ ?_ es
  · rintro w e w' ⟨hinv, hbound, h⟩ hstep
    have hmove := (step_cases hstep).2
    rw [noActionLost_iff (hinv.move hmove) (hbound.move hmove)]
    exact accounted_move_iff hinv h hmove
  · rintro w e w' ⟨hinv, hbound, -⟩ hstep hlost
    have hmove := (step_cases hstep).2
    exact ⟨hinv.move hmove, hbound.move hmove,
      (noActionLost_iff (hinv.move hmove) (hbound.move hmove)).mp hlost⟩
  · exact ⟨initial_inv response, Nat.le_refl _, nofun⟩

/-- Two threads write; the second one's action is popped while the first one is in flight. -/
def overlappingWrites : List (Event Nat String String) :=
  [.write 0 "first" {}, .tryPerformAction 0, .write 1 "second" {}, .tryPerformAction 1,
    .asyncNext 0 true .OK none, .completion, .completion, .completion, .completion]

theorem overlappingWrites_lose_second :
    ∃ w, (system Nat String "").run (initial Nat String "") overlappingWrites = some w ∧
      w.Quiescent ∧ w.promises 1 = .pending ∧ ¬ w.NoActionLost := by
  refine ⟨_, rfl, ⟨rfl, rfl, rfl⟩, rfl, fun h => ?_⟩
  have hanswered := (h.2 ⟨rfl, rfl, rfl⟩).2 ⟨1, .write "second" {}⟩ (by decide)
  exact hanswered rfl

end EasyGrpc.Client.AsyncClientStreamWriter

import EasyGrpc.Proof.ActionLoss

/-!
# The protocol of the client stream

Nothing may follow a Finish on the stream, and no Write may follow a Write of the last message. The
writer knows the second only inside one run of the drain loop, and it never learns the first: no
code sets the state `Finished`. So the protocol holds along a run exactly when what is taken from
the queue happens to be allowed.
-/

namespace EasyGrpc.Client

variable {Tid Request Response : Type}

/-- `b` may be handed to the stream after `a`. -/
def StreamAction.MayFollow (a b : StreamAction Request) : Prop :=
  a.isFinish = false ∧ (a.isLastMessage = true → b.isWrite = false)

namespace AsyncClientStreamWriter

/-- What a step from `w` to `w'` has to respect. A second Finish would run `_onFinished` twice, and
its `set_value` would throw on the polling thread. An action taken from the queue that may not be
handed over is answered instead. -/
structure ProtocolKept (w w' : AsyncClientStreamWriter Tid Request Response) : Prop where
  obeys : w'.handed.Pairwise StreamAction.MayFollow
  finishes : w'.handed.countP (·.isFinish) ≤ 1
  onFinishedRuns : w'.onFinishedRuns ≤ 1
  terminated : w'.terminated = false
  rejected : ∀ a ∈ w.actions, a ∉ w'.actions → a ∉ w'.handed →
    (∃ b ∈ w'.handed, ¬ b.MayFollow a) → ∃ message, w'.promises a.id = .exception ⟨message⟩

/-- What a step takes from the queue may follow what was handed over before: the front of the queue
where `tryPerformAction` finds the state other than `Finished`, and in the drain loop every action
that the loop lets through. -/
structure TakesAllowed (w : AsyncClientStreamWriter Tid Request Response)
    (e : Event Tid Request Response) : Prop where
  front : w.RunsTryPerform e → w.state ≠ .finished → ∀ a ∈ w.actions.head?,
    ∀ b ∈ w.handed, b.MayFollow a
  drained : e matches .completion → ∀ a, w.completion = .stateReady a true → a.isWrite = true →
    (∀ b ∈ w.handed, ∀ c ∈ handsOver a.isLastMessage w.actions, b.MayFollow c) ∧
    (handsOver a.isLastMessage w.actions).Pairwise StreamAction.MayFollow

theorem countP_isFinish_le_one {l : List (StreamAction Request)}
    (h : l.Pairwise StreamAction.MayFollow) : l.countP (·.isFinish) ≤ 1 := by
  induction l with
  | nil => simp
  | cons a rest ih =>
      rw [List.pairwise_cons] at h
      cases ha : a.isFinish with
      | false => simpa [ha] using ih h.2
      | true =>
          have hrest : rest = [] := by
            apply List.eq_nil_iff_forall_not_mem.mpr
            intro b hb
            have hnot := (h.1 b hb).1
            rw [ha] at hnot
            cases hnot
          simp [hrest, ha]

def beforeImpl : CompletionPc Request → List (StreamAction Request)
  | .gotEvent a _ => [a]
  | .resultSet a _ => [a]
  | .stateReady a _ => [a]
  | _ => []

structure FinishesCounted (w : AsyncClientStreamWriter Tid Request Response) : Prop where
  count : w.onFinishedRuns + (w.outstanding ++ beforeImpl w.completion).countP (·.isFinish)
    = w.handed.countP (·.isFinish)
  unset : w.onFinishedRuns = 0 → w.owner.responsePromise = .pending

section Steps

variable {w w' : AsyncClientStreamWriter Tid Request Response} {a : StreamAction Request} {ok : Bool}

theorem FinishesCounted.handedOver (h : w.FinishesCounted) {l : List (StreamAction Request)}
    (hover : HandedOver w l w') : w'.FinishesCounted := by
  have hcount := h.count
  refine ⟨?_, ?_⟩
  · simp only [hover.onFinishedRuns, hover.outstanding, hover.completion, hover.handed,
      List.countP_append] at hcount ⊢
    omega
  · rw [hover.onFinishedRuns, hover.owner]
    exact h.unset

theorem FinishesCounted.withCompletion (h : w.FinishesCounted) (completion : CompletionPc Request)
    (hpc : (beforeImpl completion).countP (·.isFinish)
      = (beforeImpl w.completion).countP (·.isFinish)) :
    FinishesCounted { w with completion := completion } := by
  refine ⟨?_, h.unset⟩
  have hcount := h.count
  simp only [List.countP_append] at hcount ⊢
  rw [hpc]
  exact hcount

theorem storeFinal_responsePromise (a : StreamAction Request) (status : Status)
    (response : Option Response) (owner : AsyncClientStreamCall Response) :
    (storeFinal a status response owner).responsePromise = owner.responsePromise := by
  unfold storeFinal
  split <;> rfl

theorem FinishesCounted.finalizeFinish (h : w.FinishesCounted) (hpc : w.completion = .stateReady a ok)
    (ha : a.isFinish = true) (hterm : (w.finalizeFinish a ok).terminated = false) :
    (w.finalizeFinish a ok).FinishesCounted := by
  have hcount := h.count
  simp only [hpc, beforeImpl, List.countP_append, List.countP_singleton, ha, if_true] at hcount
  have hset : w.owner.onStreamWriterFinish.isSome = true := by
    simpa [AsyncClientStreamWriter.finalizeFinish] using hterm
  refine ⟨?_, ?_⟩
  · simp only [AsyncClientStreamWriter.finalizeFinish, assertThat, hset, if_true, beforeImpl,
      List.append_nil]
    omega
  · intro hzero
    simp [AsyncClientStreamWriter.finalizeFinish] at hzero

/-- The response promise is still unset when the only Finish comes back. -/
theorem FinishesCounted.finalizeFinish_running (h : w.FinishesCounted)
    (hle : w.handed.countP (·.isFinish) ≤ 1) (hpc : w.completion = .stateReady a ok)
    (ha : a.isFinish = true) : (w.finalizeFinish a ok).terminated = false := by
  have hcount := h.count
  simp only [hpc, beforeImpl, List.countP_append, List.countP_singleton, ha, if_true] at hcount
  have hpending := h.unset (by omega)
  simp [AsyncClientStreamWriter.finalizeFinish, AsyncClientStreamCall.onStreamWriterFinish, hpending,
    Promise.setValue_pending]

def TakenKept (w w' : AsyncClientStreamWriter Tid Request Response) : Prop :=
  w'.handed.Pairwise StreamAction.MayFollow ∧
    ∀ a ∈ w.actions, a ∉ w'.actions → a ∉ w'.handed → (∃ b ∈ w'.handed, ¬ b.MayFollow a) →
      ∃ message, w'.promises a.id = .exception ⟨message⟩

theorem FinishesCounted.protocolKept_iff (hcount : w'.FinishesCounted)
    (hterm : w'.terminated = false) : ProtocolKept w w' ↔ TakenKept w w' := by
  refine ⟨fun h => ⟨h.obeys, h.rejected⟩, fun h => ?_⟩
  have hle := countP_isFinish_le_one h.1
  have hsum := hcount.count
  exact ⟨h.1, hle, by omega, hterm, h.2⟩

theorem takenKept_of_subset (hobeys : w.handed.Pairwise StreamAction.MayFollow)
    (hhanded : w'.handed = w.handed) (hsub : w.actions ⊆ w'.actions) : TakenKept w w' :=
  ⟨hhanded ▸ hobeys, fun _ ha hnot => absurd (hsub ha) hnot⟩

theorem pairwise_append_singleton_iff {l : List (StreamAction Request)}
    (hobeys : l.Pairwise StreamAction.MayFollow) :
    (l ++ [a]).Pairwise StreamAction.MayFollow ↔ ∀ b ∈ l, b.MayFollow a := by
  simp [List.pairwise_append, hobeys]

theorem takenKept_tryPerformAction_iff (hinv : w.Inv)
    (hobeys : w.handed.Pairwise StreamAction.MayFollow) :
    TakenKept w w.tryPerformAction ↔
      (w.state ≠ .finished → ∀ a ∈ w.actions.head?, ∀ b ∈ w.handed, b.MayFollow a) := by
  rcases w.tryPerformAction_cases with
    ⟨hq, heq⟩ | ⟨a, rest, hq, ⟨hs, heq⟩ | ⟨hs, heq⟩ | ⟨hs, heq⟩⟩
  · rw [heq, hq]
    exact iff_of_true (takenKept_of_subset hobeys rfl (List.Subset.refl _)) nofun
  · have hhanded : w.tryPerformAction.handed = w.handed ++ [a] := by rw [heq]; rfl
    have hactions : w.tryPerformAction.actions = rest := by rw [heq]; rfl
    simp only [TakenKept, hhanded, hactions, pairwise_append_singleton_iff hobeys, hs, hq,
      List.head?_cons, Option.mem_some, forall_eq']
    refine ⟨fun h _ => h.1, fun h => ⟨h (by simp), ?_⟩⟩
    intro b hb hrest hnot
    rcases List.mem_cons.mp hb with rfl | hb
    · exact absurd (List.mem_append_right _ List.mem_cons_self) hnot
    · exact absurd hb hrest
  · refine iff_of_true ?_ (fun hne => absurd hs hne)
    have hhanded : w.tryPerformAction.handed = w.handed := by rw [heq]; rfl
    have hactions : w.tryPerformAction.actions = rest := by rw [heq]; rfl
    refine ⟨hhanded ▸ hobeys, ?_⟩
    intro b hb hrest _ _
    rw [hq] at hb
    rw [hactions] at hrest
    rcases List.mem_cons.mp hb with rfl | hb
    · exact ⟨_, by rw [heq, hinv.setException_promise hq, Function.update_self]⟩
    · exact absurd hb hrest
  · -- dropped: neither handed over nor answered, whether it was allowed or not
    have hhanded : w.tryPerformAction.handed = w.handed := by rw [heq]; rfl
    have hactions : w.tryPerformAction.actions = rest := by rw [heq]; rfl
    have hpromises : w.tryPerformAction.promises = w.promises := by rw [heq]; rfl
    have hpending := hinv.pending_queued a (hq ▸ List.mem_cons_self)
    simp only [TakenKept, hhanded, hactions, hpromises, hs, hq, List.head?_cons, Option.mem_some,
      forall_eq']
    constructor
    · rintro ⟨-, hrejected⟩ - b hb
      by_contra hnot
      obtain ⟨message, hanswered⟩ := hrejected a List.mem_cons_self
        (fun hmem => hinv.front_id_ne hq (.inr hmem) rfl)
        (fun hmem => hinv.front_id_ne hq (.inl hmem) rfl) ⟨b, hb, hnot⟩
      rw [hpending] at hanswered
      cases hanswered
    · intro hallowed
      refine ⟨hobeys, fun c hc hrest _ ⟨b, hb, hnot⟩ => ?_⟩
      rcases List.mem_cons.mp hc with rfl | hc
      · exact absurd (hallowed (by simp) b hb) hnot
      · exact absurd hc hrest

theorem takenKept_drain_iff (hinv : w.Inv) (hobeys : w.handed.Pairwise StreamAction.MayFollow)
    (last : Bool) :
    TakenKept w (drain last false w.actions w) ↔
      (∀ b ∈ w.handed, ∀ c ∈ handsOver last w.actions, b.MayFollow c) ∧
      (handsOver last w.actions).Pairwise StreamAction.MayFollow := by
  have hover := drain_handedOver last w.actions w
  rw [TakenKept, hover.handed, List.pairwise_append]
  constructor
  · rintro ⟨⟨-, hpairwise, hfollow⟩, -⟩
    exact ⟨hfollow, hpairwise⟩
  · rintro ⟨hfollow, hpairwise⟩
    refine ⟨⟨hobeys, hpairwise, hfollow⟩, fun c hc _ hnot _ => ?_⟩
    rw [← hover.handed] at hnot
    exact (drain_settles hinv last c hc).resolve_left hnot

end Steps

section Runs

variable [DecidableEq Tid] {w w' : AsyncClientStreamWriter Tid Request Response}
  {e : Event Tid Request Response}

theorem FinishesCounted.move (h : w.FinishesCounted) (hmove : Move w e w')
    (hterm : w'.terminated = false) : w'.FinishesCounted := by
  cases hmove with
  | write _ | finish _ => exact { h with }
  | tryPerformAction _ _ =>
      obtain ⟨l, hover, -⟩ := w.tryPerformAction_handedOver
      exact { h.handedOver hover with }
  | @asyncNext id ok status response a hpc ha =>
      have hperm := (List.perm_append_singleton _ _).trans (perm_cons_eraseP_of_find? ha).symm
      have hcount := h.count
      simp only [hpc, beforeImpl, List.append_nil] at hcount
      refine ⟨?_, ?_⟩
      · exact hperm.countP_eq _ ▸ hcount
      · exact fun hzero => (storeFinal_responsePromise a status response w.owner).trans (h.unset hzero)
  | @setResult a ok hpc =>
      have hbase := h.withCompletion (.resultSet a ok) (by rw [hpc]; rfl)
      exact { hbase with }
  | @stateReady a ok hpc =>
      have hbase := h.withCompletion (.stateReady a ok) (by rw [hpc]; rfl)
      exact { hbase with }
  | @finalizeWriteOk a hpc ha =>
      have hover := drain_handedOver a.isLastMessage w.actions w
      refine (h.handedOver hover).withCompletion _ ?_
      simp [hover.completion, hpc, beforeImpl, StreamAction.isFinish, ha]
  | @finalizeWriteFailed a hpc ha =>
      have hbase := h.withCompletion (.finishPushed a)
        (by simp [hpc, beforeImpl, StreamAction.isFinish, ha])
      exact { hbase with }
  | finalizeFinish hpc ha => exact h.finalizeFinish hpc ha hterm
  | @finishPushed a hpc =>
      obtain ⟨l, hover, -⟩ := w.tryPerformAction_handedOver
      refine (h.handedOver hover).withCompletion _ ?_
      rw [hover.completion, hpc]
      rfl
  | @delete a hpc =>
      have hbase := h.withCompletion .idle (by rw [hpc]; rfl)
      exact { hbase with }

theorem FinishesCounted.running_move (h : w.FinishesCounted) (hterm : w.terminated = false)
    (hle : w.handed.countP (·.isFinish) ≤ 1) (hmove : Move w e w') : w'.terminated = false := by
  cases hmove with
  | tryPerformAction _ _ | finishPushed _ =>
      obtain ⟨l, hover, -⟩ := w.tryPerformAction_handedOver
      exact hover.terminated.trans hterm
  | @finalizeWriteOk a _ _ => exact (drain_handedOver a.isLastMessage w.actions w).terminated.trans hterm
  | finalizeFinish hpc ha => exact h.finalizeFinish_running hle hpc ha
  | write _ | finish _ | asyncNext _ _ | setResult _ | stateReady _ | finalizeWriteFailed _ _
  | delete _ => exact hterm

theorem takenKept_move_iff (hinv : w.Inv) (hobeys : w.handed.Pairwise StreamAction.MayFollow)
    (hmove : Move w e w') : TakenKept w w' ↔ w.TakesAllowed e := by
  rw [pops_move_iff (P := TakenKept w) (fun _ _ _ => Iff.rfl) hmove (fun hnothing => ?_)
    (takenKept_tryPerformAction_iff hinv hobeys)
    fun a _ _ => takenKept_drain_iff hinv hobeys a.isLastMessage]
  · refine ⟨fun hall => ⟨hall.1, fun he => hall.2 ?_⟩, fun htakes => ⟨htakes.front, ?_⟩⟩
    · cases e <;> first | rfl | cases he
    · rintro rfl
      exact htakes.drained rfl
  · obtain ⟨l, hactions, -⟩ := hnothing.appended
    exact takenKept_of_subset hobeys hnothing.handed (hactions ▸ List.subset_append_left _ _)

/-- **The protocol of the stream** is kept by every step of a run exactly when every step takes from
the queue only what may follow the operations handed over before it. -/
theorem protocolKept_iff_takesAllowed (response : Response)
    (es : List (Event Tid Request Response)) :
    (system Tid Request response).AllSteps (fun w _ w' => ProtocolKept w w')
        (initial Tid Request response) es ↔
      (system Tid Request response).AllSteps (fun w e _ => w.TakesAllowed e)
        (initial Tid Request response) es := by
  refine TransitionSystem.allSteps_congr (I := fun w => w.Inv ∧ w.FinishesCounted ∧
    w.terminated = false ∧ w.handed.Pairwise StreamAction.MayFollow) ?_ ?_ ?_ es
  · rintro w e w' ⟨hinv, hcount, hterm, hobeys⟩ hstep
    have hmove := (step_cases hstep).2
    have hterm' := hcount.running_move hterm (countP_isFinish_le_one hobeys) hmove
    have hcount' := hcount.move hmove hterm'
    rw [hcount'.protocolKept_iff hterm']
    exact takenKept_move_iff hinv hobeys hmove
  · rintro w e w' ⟨hinv, hcount, hterm, hobeys⟩ hstep hkept
    have hmove := (step_cases hstep).2
    have hterm' := hcount.running_move hterm (countP_isFinish_le_one hobeys) hmove
    have hcount' := hcount.move hmove hterm'
    exact ⟨hinv.move hmove, hcount', hterm', hkept.obeys⟩
  · exact ⟨initial_inv response, ⟨rfl, fun _ => rfl⟩, rfl, List.Pairwise.nil⟩

def writeAfterFinish : List (Event Nat String String) :=
  [.finish 0, .tryPerformAction 0, .asyncNext 0 true .OK (some "reply"), .completion, .completion,
    .completion, .completion, .write 0 "late" {}, .tryPerformAction 0]

theorem writeAfterFinish_handed :
    ∃ w, (system Nat String "").run (initial Nat String "") writeAfterFinish = some w ∧
      w.handed = [⟨0, .finish⟩, ⟨1, .write "late" {}⟩] ∧
      ¬ w.handed.Pairwise StreamAction.MayFollow := by
  refine ⟨_, rfl, rfl, fun h => ?_⟩
  have hfirst := (List.pairwise_cons.mp h).1 ⟨1, .write "late" {}⟩ (by decide)
  exact absurd hfirst.1 (by decide)

end Runs

end AsyncClientStreamWriter

end EasyGrpc.Client

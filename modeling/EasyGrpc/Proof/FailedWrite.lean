import EasyGrpc.Proof.ActionAccess

/-!
# After a failed write

When a write fails, `finalizeWrite` calls `finish`, which pushes its action at the back of the queue and
pops the front. The stream is closed cleanly as long as everything popped from then on is that one
Finish. Whatever else is popped is handed over although it must not be, or dropped.
-/

namespace EasyGrpc.Client.AsyncClientStreamWriter

variable {Tid Request Response : Type}

def Failing (a : StreamAction Request) : CompletionPc Request → Prop
  | .gotEvent b ok => b = a ∧ ok = false
  | .resultSet b ok => b = a ∧ ok = false
  | .stateReady b ok => b = a ∧ ok = false
  | .finishPushed b => b = a
  | _ => False

def OneFinish (handed l : List (StreamAction Request)) : Prop :=
  l = [] ∨ ∃ f, l = [f] ∧ f.isFinish = true ∧ ∀ b ∈ handed, b.isWrite = true

/-- How the stream stands in `w'`, when `w` is the state in which the tag of the failed write `a` came
back: what was queued then or was submitted since is still queued, is the Finish, or is rejected. -/
structure ClosesCleanly (a : StreamAction Request) (w w' : AsyncClientStreamWriter Tid Request Response) :
    Prop where
  handed : ∃ l, w'.handed = w.handed ++ l ∧ OneFinish w.handed l
  finished : Failing a w'.completion ∨ ∃ f ∈ w'.handed, f.isFinish = true
  answered : ∀ b ∈ w'.pushed, b ∈ w.actions ∨ b ∉ w.pushed →
    b ∈ w'.actions ∨ b ∈ w'.handed ∨ ∃ m, w'.promises b.id = .exception ⟨m⟩
  emptied : w'.Quiescent → w'.actions = []

/-- Whatever the step pops is a Finish, the first one, and it finds the state `Ready`; what the drain loop
performs is nothing else either. -/
structure TakesOneFinish (w : AsyncClientStreamWriter Tid Request Response)
    (e : Event Tid Request Response) : Prop where
  front : w.RunsTryPerform e → ∀ b ∈ w.actions.head?, w.state = .ready ∧ OneFinish w.handed [b]
  drained : e = .completion → ∀ a, w.completion = .stateReady a true → a.isWrite = true →
    OneFinish w.handed (handsOver a.isLastMessage w.actions)

structure Since (w w' : AsyncClientStreamWriter Tid Request Response) : Prop where
  inv : w'.Inv
  bounded : w'.QueueBounded
  unfinished : w'.state ≠ .finished
  popped : w.popped ⊆ w'.popped
  /-- The automatic Finish, between the push and the pop. -/
  finish : ∀ b, w'.completion = .finishPushed b →
    ∃ f, f.isFinish = true ∧ (f ∈ w'.actions ∨ f ∈ w'.handed)

section Steps

variable {w v v' : AsyncClientStreamWriter Tid Request Response} {a b : StreamAction Request}
  {rest l m : List (StreamAction Request)}

theorem oneFinish_append_iff (hl : OneFinish l m) {n : List (StreamAction Request)} :
    OneFinish l (m ++ n) ↔ OneFinish (l ++ m) n := by
  constructor
  · rintro (hnil | ⟨f, hone, hfinish, hwrites⟩)
    · exact .inl (List.append_eq_nil_iff.mp hnil).2
    · obtain ⟨rfl, rfl⟩ | ⟨-, rfl⟩ := List.append_eq_singleton_iff.mp hone
      · exact .inr ⟨f, rfl, hfinish, by simpa using hwrites⟩
      · exact .inl rfl
  · rintro (rfl | ⟨f, rfl, hfinish, hwrites⟩)
    · rwa [List.append_nil]
    · obtain rfl | ⟨g, rfl, hg, -⟩ := hl
      · exact .inr ⟨f, rfl, hfinish, by simpa using hwrites⟩
      · have hwrite := hwrites g (List.mem_append_right _ List.mem_cons_self)
        simp [StreamAction.isFinish, hwrite] at hg

theorem handsOneFinish_iff (hv : ∃ l, v.handed = w.handed ++ l ∧ OneFinish w.handed l)
    (hhanded : v'.handed = v.handed ++ m) :
    (∃ l, v'.handed = w.handed ++ l ∧ OneFinish w.handed l) ↔ OneFinish v.handed m := by
  obtain ⟨l, hl, hone⟩ := hv
  rw [hl, ← oneFinish_append_iff hone, hhanded, hl, List.append_assoc]
  constructor
  · rintro ⟨l', heq, hone'⟩
    rwa [List.append_cancel_left heq]
  · exact fun hone' => ⟨l ++ m, rfl, hone'⟩

/-- What is queued was queued when the tag came back, or was submitted since. -/
theorem Since.queued (h : Since w v) (hw : w.Inv) (hb : b ∈ v.actions) :
    b ∈ w.actions ∨ b ∉ w.pushed := by
  by_cases hpushed : b ∈ w.pushed
  · rw [hw.order, List.mem_append] at hpushed
    refine .inl (hpushed.resolve_left fun hpopped => ?_)
    have hnodup := h.inv.pushed_nodup
    rw [h.inv.order, List.map_append, List.nodup_append] at hnodup
    exact hnodup.2.2 _ (List.mem_map_of_mem (h.popped hpopped)) _ (List.mem_map_of_mem hb) rfl
  · exact .inr hpushed

def AnsweredSince (w v : AsyncClientStreamWriter Tid Request Response) : Prop :=
  ∀ b ∈ v.pushed, b ∈ w.actions ∨ b ∉ w.pushed →
    b ∈ v.actions ∨ b ∈ v.handed ∨ ∃ m, v.promises b.id = .exception ⟨m⟩

theorem AnsweredSince.mono (h : AnsweredSince w v)
    (hpushed : ∀ b ∈ v'.pushed, b ∈ v.pushed ∨ b ∈ v'.actions)
    (hactions : ∀ b ∈ v.actions, b ∈ v'.actions ∨ b ∈ v'.handed ∨
      ∃ m, v'.promises b.id = .exception ⟨m⟩)
    (hhanded : ∀ b ∈ v.handed, b ∈ v'.handed)
    (hpromises : ∀ id, (v.promises id).Fulfilled → v'.promises id = v.promises id) :
    AnsweredSince w v' := by
  intro b hb hsince
  obtain hold | hqueued := hpushed b hb
  · obtain hqueued | hhand | ⟨m, hm⟩ := h b hold hsince
    · exact hactions b hqueued
    · exact .inr (.inl (hhanded b hhand))
    · have hfulfilled : (v.promises b.id).Fulfilled := by
        rw [hm]
        exact Promise.fulfilled_exception _
      exact .inr (.inr ⟨m, (hpromises b.id hfulfilled).trans hm⟩)
  · exact .inl hqueued

/-- `tryPerformAction` answers what it pops unless the state is `Processing`. -/
theorem answeredSince_tryPerformAction_iff (hsince : Since w v) (hw : w.Inv)
    (h : AnsweredSince w v) :
    AnsweredSince w v.tryPerformAction ↔ v.actions = [] ∨ v.state = .ready := by
  rcases v.tryPerformAction_cases with
    ⟨hq, heq⟩ | ⟨b, rest, hq, ⟨hs, heq⟩ | ⟨hs, -⟩ | ⟨hs, heq⟩⟩
  · rw [heq]
    exact iff_of_true h (.inl hq)
  · refine iff_of_true ?_ (.inr hs)
    rw [heq]
    refine h.mono (fun c hc => .inl hc) (fun c hc => ?_)
      (fun c hc => List.mem_append_left _ hc) fun _ _ => rfl
    rw [hq] at hc
    cases List.mem_cons.mp hc with
    | inl hfront => exact .inr (.inl (hfront ▸ List.mem_append_right _ List.mem_cons_self))
    | inr hrest => exact .inl hrest
  · exact absurd hs hsince.unfinished
  · refine iff_of_false (fun hanswered => ?_) ?_
    · have hb : b ∈ v.actions := hq ▸ List.mem_cons_self
      have hpushed : b ∈ v.pushed := hsince.inv.order ▸ List.mem_append_right _ hb
      rw [heq] at hanswered
      obtain hqueued | hhanded | ⟨m, hm⟩ := hanswered b hpushed (hsince.queued hw hb)
      · exact hsince.inv.front_id_ne hq (.inr hqueued) rfl
      · exact hsince.inv.front_id_ne hq (.inl hhanded) rfl
      · have hpending := hsince.inv.pending_queued b hb
        have hm' : v.promises b.id = .exception ⟨m⟩ := hm
        rw [hpending] at hm'
        cases hm'
    · rw [hq, hs]
      rintro (hnil | hready)
      · cases hnil
      · cases hready

/-- The drain loop answers everything it pops. -/
theorem AnsweredSince.drain (h : AnsweredSince w v) (hsince : Since w v) (last : Bool) :
    AnsweredSince w (AsyncClientStreamWriter.drain last false v.actions v) := by
  have hover := drain_handedOver last v.actions v
  refine h.mono (fun c hc => ?_) (fun c hc => .inr (drain_settles hsince.inv last c hc))
    (fun c hc => hover.handed ▸ List.mem_append_left _ hc) fun id hid =>
      hsince.inv.drain_promises last hid
  exact .inl (drain_pushed last v ▸ hc)

def TakenCleanly (w v : AsyncClientStreamWriter Tid Request Response) : Prop :=
  (∃ l, v.handed = w.handed ++ l ∧ OneFinish w.handed l) ∧ AnsweredSince w v

theorem TakenCleanly.keep (h : TakenCleanly w v) (hhanded : v'.handed = v.handed)
    (hpushed : ∀ b ∈ v'.pushed, b ∈ v.pushed ∨ b ∈ v'.actions) (hactions : v.actions ⊆ v'.actions)
    (hpromises : ∀ id, (v.promises id).Fulfilled → v'.promises id = v.promises id) :
    TakenCleanly w v' := by
  refine ⟨hhanded ▸ h.1, h.2.mono hpushed (fun b hb => .inl (hactions hb)) ?_ hpromises⟩
  exact fun b hb => hhanded ▸ hb

theorem takenCleanly_tryPerformAction_iff (hsince : Since w v) (hw : w.Inv) (h : TakenCleanly w v) :
    TakenCleanly w v.tryPerformAction ↔
      ∀ b ∈ v.actions.head?, v.state = .ready ∧ OneFinish v.handed [b] := by
  rw [TakenCleanly, answeredSince_tryPerformAction_iff hsince hw h.2]
  rcases v.tryPerformAction_cases with
    ⟨hq, heq⟩ | ⟨b, rest, hq, ⟨hs, heq⟩ | ⟨hs, -⟩ | ⟨hs, heq⟩⟩
  · rw [heq, hq]
    exact iff_of_true ⟨h.1, .inl rfl⟩ nofun
  · have hhanded : v.tryPerformAction.handed = v.handed ++ [b] := by
      rw [heq]
      rfl
    simp only [handsOneFinish_iff h.1 hhanded, hs, hq, or_true, and_true, true_and, List.head?_cons,
      Option.mem_some, forall_eq']
  · exact absurd hs hsince.unfinished
  · simp [hs, hq]

theorem takenCleanly_drain_iff (hsince : Since w v) (h : TakenCleanly w v) (last : Bool) :
    TakenCleanly w (AsyncClientStreamWriter.drain last false v.actions v) ↔
      OneFinish v.handed (handsOver last v.actions) := by
  rw [TakenCleanly, handsOneFinish_iff h.1 (drain_handedOver last v.actions v).handed]
  exact and_iff_left (h.2.drain hsince last)

end Steps

section Runs

variable [DecidableEq Tid] {w v v' : AsyncClientStreamWriter Tid Request Response}
  {a : StreamAction Request} {e : Event Tid Request Response}

theorem takenCleanly_move_iff (hsince : Since w v) (hw : w.Inv) (h : TakenCleanly w v)
    (hmove : Move v e v') : TakenCleanly w v' ↔ v.TakesOneFinish e := by
  rw [pops_move_iff (fun _ _ _ => Iff.rfl) hmove (fun hnothing => ?_)
    (takenCleanly_tryPerformAction_iff hsince hw h)
    fun b _ _ => takenCleanly_drain_iff hsince h b.isLastMessage]
  · exact ⟨fun hall => ⟨hall.1, hall.2⟩, fun htake => ⟨htake.front, htake.drained⟩⟩
  · obtain ⟨l, hactions, hpushed⟩ := hnothing.appended
    refine h.keep hnothing.handed (fun b hb => ?_) ?_ fun id => hsince.inv.promises_move hmove
    · rw [hpushed] at hb
      exact (List.mem_append.mp hb).imp_right fun hnew => hactions ▸ List.mem_append_right _ hnew
    · exact hactions ▸ List.subset_append_left _ _

omit [DecidableEq Tid] in
/-- A Finish that is queued or handed over stays so when the queue is popped for the Finish only. -/
theorem TakesOneFinish.tryPerformAction {f : StreamAction Request}
    (hfront : ∀ b ∈ v.actions.head?, v.state = .ready ∧ OneFinish v.handed [b])
    (hf : f ∈ v.actions ∨ f ∈ v.handed) :
    f ∈ v.tryPerformAction.actions ∨ f ∈ v.tryPerformAction.handed := by
  rcases v.tryPerformAction_cases with
    ⟨-, heq⟩ | ⟨b, rest, hq, ⟨-, heq⟩ | ⟨hs, -⟩ | ⟨hs, -⟩⟩
  · rwa [heq]
  · rw [heq]
    cases hf with
    | inl hqueued =>
        rw [hq] at hqueued
        cases List.mem_cons.mp hqueued with
        | inl hb => exact .inr (hb ▸ List.mem_append_right _ List.mem_cons_self)
        | inr hrest => exact .inl hrest
    | inr hhanded => exact .inr (List.mem_append_left _ hhanded)
  all_goals
    have hready := (hfront b (by rw [hq]; rfl)).1
    rw [hs] at hready
    cases hready

theorem Since.move (h : Since w v) (htake : v.TakesOneFinish e) (hmove : Move v e v') :
    Since w v' := by
  refine ⟨h.inv.move hmove, h.bounded.move hmove, unfinished_move h.unfinished hmove,
    fun b hb => popped_subset_move hmove (h.popped hb), ?_⟩
  cases hmove with
  | write _ | finish _ =>
      intro b hpc
      obtain ⟨f, hfinish, hf⟩ := h.finish b hpc
      exact ⟨f, hfinish, hf.imp_left (List.mem_append_left _)⟩
  | tryPerformAction _ _ =>
      intro b hpc
      obtain ⟨f, hfinish, hf⟩ := h.finish b (v.tryPerformAction_completion ▸ hpc)
      exact ⟨f, hfinish, TakesOneFinish.tryPerformAction (htake.front trivial) hf⟩
  | finalizeWriteFailed _ _ =>
      exact fun _ _ => ⟨⟨v.nextId, .finish⟩, rfl, .inl (List.mem_append_right _ List.mem_cons_self)⟩
  | @finalizeFinish a ok hpc _ =>
      intro b hpc'
      simp only [AsyncClientStreamWriter.finalizeFinish, hpc] at hpc'
      split at hpc' <;> cases hpc'
  | asyncNext _ _ | setResult _ | stateReady _ | finalizeWriteOk _ _ | finishPushed _ | delete _ =>
      intro b hpc
      cases hpc

def ComesToFinish (a : StreamAction Request) (v : AsyncClientStreamWriter Tid Request Response) :
    Prop :=
  Failing a v.completion ∨ ∃ f ∈ v.handed, f.isFinish = true

theorem ComesToFinish.move (h : ComesToFinish a v) (ha : a.isWrite = true) (hsince : Since w v)
    (htake : v.TakesOneFinish e) (hmove : Move v e v') : ComesToFinish a v' := by
  obtain hfailing | ⟨f, hf, hfinish⟩ := h
  · cases hmove with
    | write _ | finish _ => exact .inl hfailing
    | tryPerformAction _ _ => exact .inl (v.tryPerformAction_completion ▸ hfailing)
    | asyncNext hpc _ | delete hpc =>
        rw [hpc] at hfailing
        exact hfailing.elim
    | setResult hpc | stateReady hpc =>
        rw [hpc] at hfailing
        exact .inl hfailing
    | finalizeWriteOk hpc _ =>
        rw [hpc] at hfailing
        cases hfailing.2
    | finalizeWriteFailed hpc _ =>
        rw [hpc] at hfailing
        exact .inl hfailing.1
    | finalizeFinish hpc hb =>
        rw [hpc] at hfailing
        rw [StreamAction.isFinish, hfailing.1, ha] at hb
        cases hb
    | @finishPushed b hpc =>
        -- what was pushed is at the front, or another thread handed it over
        obtain ⟨f, hfinish, hf⟩ := hsince.finish b hpc
        have hfront := htake.front ⟨b, hpc⟩
        cases hq : v.actions with
        | nil =>
            rw [hq] at hf
            have hhanded := hf.resolve_left List.not_mem_nil
            obtain ⟨l, hover, -⟩ := v.tryPerformAction_handedOver
            exact .inr ⟨f, hover.handed ▸ List.mem_append_left l hhanded, hfinish⟩
        | cons c rest =>
            obtain ⟨hready, hone⟩ := hfront c (by rw [hq]; rfl)
            have hc : c.isFinish = true := by
              obtain hnil | ⟨g, hg, hgfinish, -⟩ := hone
              · cases hnil
              · obtain rfl := List.singleton_inj.mp hg
                exact hgfinish
            have hhanded : v.tryPerformAction.handed = v.handed ++ [c] := by
              simp [AsyncClientStreamWriter.tryPerformAction, hq, tryPerformPopped, hready, popAction,
                perform, assertThat]
            exact .inr ⟨c, hhanded ▸ List.mem_append_right _ List.mem_cons_self, hc⟩
  · exact .inr ⟨f, handed_subset_move hmove hf, hfinish⟩

theorem closesCleanly_move_iff (hsince : Since w v) (hw : w.Inv) (ha : a.isWrite = true)
    (h : ClosesCleanly a w v) (hmove : Move v e v') :
    ClosesCleanly a w v' ↔ v.TakesOneFinish e := by
  have htaken := takenCleanly_move_iff hsince hw ⟨h.handed, h.answered⟩ hmove
  constructor
  · exact fun h' => htaken.mp ⟨h'.handed, h'.answered⟩
  · intro htake
    obtain ⟨hhanded, hanswered⟩ := htaken.mpr htake
    exact ⟨hhanded, ComesToFinish.move h.finished ha hsince htake hmove, hanswered,
      (hsince.bounded.move hmove).emptied⟩

/-- **A failed write** closes the stream cleanly along a run exactly when, from then on, nothing is
popped but one Finish. -/
theorem closesCleanly_iff_takesOneFinish (response : Response)
    (es es' : List (Event Tid Request Response)) (id : Nat) (status : Status)
    (stored : Option Response) {w₀ w : AsyncClientStreamWriter Tid Request Response}
    (hrun : (system Tid Request response).run (initial Tid Request response) es = some w₀)
    (ha : w₀.outstanding.find? (·.id = id) = some a) (hwrite : a.isWrite = true)
    (hfailed : (system Tid Request response).step w₀ (.asyncNext id false status stored) = some w) :
    (system Tid Request response).AllSteps (fun _ _ w' => ClosesCleanly a w w') w es' ↔
      (system Tid Request response).AllSteps (fun v e _ => v.TakesOneFinish e) w es' := by
  have hbase : ∀ v, (system Tid Request response).Reachable v →
      v.Inv ∧ v.QueueBounded ∧ v.state ≠ .finished := by
    intro v hv
    refine hv.invariant (I := fun v => v.Inv ∧ v.QueueBounded ∧ v.state ≠ .finished) ?_ ?_
    · rintro _ rfl
      exact ⟨initial_inv response, Nat.le_refl _, nofun⟩
    · rintro v e v' ⟨hinv, hbound, hunfinished⟩ - hstep
      have hmove := (step_cases hstep).2
      exact ⟨hinv.move hmove, hbound.move hmove, unfinished_move hunfinished hmove⟩
  have hreach := TransitionSystem.reachable_of_run es (.init rfl) hrun
  obtain ⟨hinv, hbound, hunfinished⟩ := hbase w (.step hreach trivial hfailed)
  have hpc : w.completion = .gotEvent a false := by
    have hstep : w₀.step (.asyncNext id false status stored) = some w := hfailed
    cases (step_cases hstep).2 with
    | asyncNext _ hb =>
        obtain rfl := Option.some.inj (hb.symm.trans ha)
        rfl
  refine TransitionSystem.allSteps_congr (I := fun v => Since w v ∧ ClosesCleanly a w v) ?_ ?_ ?_ es'
  · rintro v e v' ⟨hsince, hclean⟩ hstep
    exact closesCleanly_move_iff hsince hinv hwrite hclean (step_cases hstep).2
  · rintro v e v' ⟨hsince, hclean⟩ hstep hclean'
    have hmove := (step_cases hstep).2
    exact ⟨hsince.move ((closesCleanly_move_iff hsince hinv hwrite hclean hmove).mp hclean') hmove,
      hclean'⟩
  · refine ⟨⟨hinv, hbound, hunfinished, List.Subset.refl _, ?_⟩, ?_⟩
    · intro b hb
      rw [hpc] at hb
      cases hb
    · refine ⟨⟨[], (List.append_nil _).symm, .inl rfl⟩, .inl ?_, fun b hb hsince => ?_, hbound.emptied⟩
      · rw [hpc]
        exact ⟨rfl, rfl⟩
      · exact .inl (hsince.resolve_right fun hnot => hnot hb)

def firstWrite : List (Event Nat String String) :=
  [.write 0 "first" {}, .tryPerformAction 0]

theorem failedWrite_closes : ∃ w₀ w, (system Nat String "").run (initial Nat String "") firstWrite =
      some w₀ ∧ w₀.step (.asyncNext 0 false .OK none) = some w ∧
    (system Nat String "").AllSteps (fun _ _ w' => ClosesCleanly ⟨0, .write "first" {}⟩ w w') w
      [.completion, .completion, .completion, .completion] := by
  refine ⟨_, _, rfl, rfl, ?_⟩
  apply (closesCleanly_iff_takesOneFinish "" firstWrite _ 0 .OK none rfl rfl rfl rfl).mpr
  rintro _ ⟨⟩
  refine ⟨⟨fun ⟨_, h⟩ => (by cases h), fun _ _ h => by cases h⟩, ?_⟩
  rintro _ ⟨⟩
  refine ⟨⟨fun ⟨_, h⟩ => (by cases h), fun _ _ h => by cases h⟩, ?_⟩
  rintro _ ⟨⟩
  refine ⟨⟨fun ⟨_, h⟩ => (by cases h), fun _ _ h => by cases h⟩, ?_⟩
  rintro _ ⟨⟩
  refine ⟨⟨?_, fun _ _ h => by cases h⟩, trivial⟩
  rintro - _ ⟨⟩
  exact ⟨rfl, .inr ⟨_, rfl, rfl, by decide⟩⟩

/-- A second thread has pushed a write when the first one fails. -/
def secondQueued : List (Event Nat String String) :=
  [.write 0 "first" {}, .tryPerformAction 0, .write 1 "second" {}]

/-- The Finish is displaced: the second write goes out, and the Finish is dropped. -/
theorem secondQueued_handed : ∃ w₀ w w',
    (system Nat String "").run (initial Nat String "") secondQueued = some w₀ ∧
    w₀.step (.asyncNext 0 false .OK none) = some w ∧
    (system Nat String "").run w [.completion, .completion, .completion, .completion,
      .tryPerformAction 1, .completion] = some w' ∧
    w'.handed = [⟨0, .write "first" {}⟩, ⟨1, .write "second" {}⟩] ∧ w'.actions = [] ∧
    w'.promises 2 = .pending ∧ ¬ ClosesCleanly ⟨0, .write "first" {}⟩ w w' := by
  refine ⟨_, _, _, rfl, rfl, rfl, rfl, rfl, rfl, fun h => ?_⟩
  obtain ⟨f, hf, hfinish⟩ := h.finished.resolve_left id
  exact absurd hfinish (by revert f; decide)

end Runs

end EasyGrpc.Client.AsyncClientStreamWriter

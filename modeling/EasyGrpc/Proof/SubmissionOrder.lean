import EasyGrpc.Proof.ActionFate

/-!
# Submission order and timing

One user thread submits writes and finishes, and every operation completes with `ok` true. A run that
drops nothing and whose drain loop rejects nothing hands over what was submitted, as it was submitted.
Which path an action takes is a matter of timing, and the two paths do not agree on every action, so
other runs with the same submissions hand over less.
-/

namespace EasyGrpc.Client.AsyncClientStreamWriter

variable {Request Response : Type}

def submitted : List (Event Unit Request Response) → List (StreamActionKind Request)
  | [] => []
  | .write _ message options :: es => .write message options :: submitted es
  | .finish _ :: es => .finish :: submitted es
  | _ :: es => submitted es

def CompletesOk : Event Unit Request Response → Prop
  | .asyncNext _ ok _ _ => ok = true
  | _ => True

def rejected (w : AsyncClientStreamWriter Unit Request Response) : List (StreamAction Request) :=
  w.pushed.filter fun a =>
    match w.promises a.id with
    | .exception _ => true
    | _ => false

structure SameOutcome (w w' : AsyncClientStreamWriter Unit Request Response) : Prop where
  handed : w.handed = w'.handed
  rejected : w.rejected = w'.rejected

/-- A step that runs `tryPerformAction` finds the queue empty or the state other than `Processing`, and
one that runs the drain loop after a last message finds no write queued. -/
structure TakesAlike (w : AsyncClientStreamWriter Unit Request Response)
    (e : Event Unit Request Response) : Prop where
  idle : w.PopsWhenIdle e
  drained : e = .completion → ∀ a, w.completion = .stateReady a true → a.isWrite = true →
    a.isLastMessage = true → ∀ b ∈ w.actions, b.isFinish = true

section Steps

variable {w w' : AsyncClientStreamWriter Unit Request Response} {e : Event Unit Request Response}
  {a : StreamAction Request}

structure SingleUser (w : AsyncClientStreamWriter Unit Request Response) : Prop where
  inv : w.Inv
  fate : w.Fate
  bounded : w.QueueBounded
  oneCaller : w.callers.length ≤ 1
  unfinished : w.state ≠ .finished

theorem SingleUser.move (h : w.SingleUser) (hmove : Move w e w') : w'.SingleUser := by
  refine ⟨h.inv.move hmove, h.fate.move h.inv hmove, h.bounded.move hmove, ?_, ?_⟩
  · cases hmove with
    | write ht | finish ht =>
        have hempty : w.callers = [] := List.eq_nil_iff_forall_not_mem.mpr fun t => ht
        simp [hempty]
    | tryPerformAction _ _ =>
        exact Nat.le_trans List.length_erase_le h.oneCaller
    | asyncNext _ _ | setResult _ | stateReady _ | finalizeWriteFailed _ _ | finalizeFinish _ _
    | delete _ => exact h.oneCaller
    | @finalizeWriteOk a _ _ =>
        exact (drain_handedOver a.isLastMessage w.actions w).callers ▸ h.oneCaller
    | finishPushed _ => exact w.tryPerformAction_callers ▸ h.oneCaller
  · exact unfinished_move h.unfinished hmove

/-- The drain loop finds at most the action whose thread has not yet looked at the state. -/
theorem SingleUser.length_actions_le (h : w.SingleUser) (hpc : w.completion = .stateReady a true) :
    w.actions.length ≤ 1 := by
  have hbounded := h.bounded
  have hone := h.oneCaller
  simp only [QueueBounded, hpc, pushedFinishes] at hbounded
  omega

theorem SingleUser.handsOver_eq_iff (h : w.SingleUser) (hpc : w.completion = .stateReady a true) :
    handsOver a.isLastMessage w.actions = w.actions ↔
      (a.isLastMessage = true → ∀ b ∈ w.actions, b.isFinish = true) := by
  match hq : w.actions, h.length_actions_le hpc with
  | [], _ => simp [handsOver]
  | [b], _ =>
      cases hlast : a.isLastMessage <;> cases hb : b.isWrite <;>
        simp [handsOver, StreamAction.isFinish, hb]

theorem append_eq_append_iff_of_sublist {α : Type} {l₁ l₂ m₁ m₂ : List α} (hl : l₁.Sublist l₂)
    (hm : m₁.Sublist m₂) : l₁ ++ m₁ = l₂ ++ m₂ ↔ l₁ = l₂ ∧ m₁ = m₂ := by
  refine ⟨fun h => ?_, fun h => h.1 ▸ h.2 ▸ rfl⟩
  have hlength := congrArg List.length h
  simp only [List.length_append] at hlength
  have hl' := hl.length_le
  have hm' := hm.length_le
  exact ⟨hl.eq_of_length (by omega), hm.eq_of_length (by omega)⟩

theorem handsOver_sublist (last : Bool) (q : List (StreamAction Request)) :
    (handsOver last q).Sublist q := by
  unfold handsOver
  split
  · exact (List.take_sublist _ _).trans List.filter_sublist
  · calc
      (q.takeWhile (·.isWrite) ++ (q.dropWhile (·.isWrite)).take 1).Sublist
          (q.takeWhile (·.isWrite) ++ q.dropWhile (·.isWrite)) :=
        (List.Sublist.refl _).append (List.take_sublist _ _)
      _ = q := List.takeWhile_append_dropWhile

theorem handedAll_tryPerformAction_iff (h : w.SingleUser) :
    w.tryPerformAction.handed = w.tryPerformAction.popped ↔
      w.handed = w.popped ∧ (w.actions = [] ∨ w.state ≠ .processing) := by
  have hsub := h.inv.handed_sublist
  rcases w.tryPerformAction_cases with
    ⟨hq, heq⟩ | ⟨a, rest, hq, ⟨hs, heq⟩ | ⟨hs, heq⟩ | ⟨hs, heq⟩⟩
  · rw [heq, hq]
    simp
  · rw [heq, hs]
    simp [perform, assertThat, popAction]
  · exact absurd hs h.unfinished
  · have hshort : w.handed ≠ w.popped ++ [a] := by
      intro hall
      have hlength := congrArg List.length hall
      have hle := hsub.length_le
      rw [List.length_append, List.length_singleton] at hlength
      omega
    rw [heq, hq, hs]
    simpa [popAction] using hshort

theorem handedAll_drain_iff (h : w.SingleUser) (hpc : w.completion = .stateReady a true) :
    (drain a.isLastMessage false w.actions w).handed = (drain a.isLastMessage false w.actions w).popped ↔
      w.handed = w.popped ∧ (a.isLastMessage = true → ∀ b ∈ w.actions, b.isFinish = true) := by
  rw [(drain_handedOver a.isLastMessage w.actions w).handed, drain_popped,
    append_eq_append_iff_of_sublist h.inv.handed_sublist (handsOver_sublist _ _),
    h.handsOver_eq_iff hpc]

/-- Everything popped so far was handed over. -/
theorem handedAll_move_iff (h : w.SingleUser) (hmove : Move w e w') :
    w'.handed = w'.popped ↔ w.handed = w.popped ∧ w.TakesAlike e := by
  by_cases hall : w.handed = w.popped
  · rw [pops_move_iff (P := fun v => v.handed = v.popped) (fun _ _ _ => Iff.rfl) hmove
      (fun hnothing => by rw [hnothing.handed, hnothing.popped, hall])
      (handedAll_tryPerformAction_iff h) fun b hpc _ => handedAll_drain_iff h hpc]
    simp only [hall, true_and]
    exact ⟨fun htakes => ⟨htakes.1, htakes.2⟩, fun htakes => ⟨htakes.idle, htakes.drained⟩⟩
  · refine iff_of_false ?_ fun h => hall h.1
    have hnever := pops_move_iff (P := fun v => v.handed ≠ v.popped) (fun _ _ _ => Iff.rfl) hmove
      (fun hnothing => by rw [hnothing.handed, hnothing.popped]; exact hall)
      (iff_true_intro fun heq => hall ((handedAll_tryPerformAction_iff h).mp heq).1)
      fun b hpc _ => iff_true_intro fun heq => hall ((handedAll_drain_iff h hpc).mp heq).1
    exact hnever.mpr ⟨fun _ => trivial, fun _ _ _ _ => trivial⟩

end Steps

section Runs

variable {w w' : AsyncClientStreamWriter Unit Request Response} {e : Event Unit Request Response}
  {es es' : List (Event Unit Request Response)}

def completingOk : CompletionPc Request → Bool
  | .gotEvent _ ok => ok
  | .resultSet _ ok => ok
  | .stateReady _ ok => ok
  | .finishPushed _ => false
  | _ => true

theorem submitted_cons (e : Event Unit Request Response) (es : List (Event Unit Request Response)) :
    submitted (e :: es) = submitted [e] ++ submitted es := by
  cases e <;> rfl

theorem pushed_move (hpc : completingOk w.completion = true) (hok : CompletesOk e)
    (hmove : Move w e w') : completingOk w'.completion = true ∧
      w'.pushed.map (·.kind) = w.pushed.map (·.kind) ++ submitted [e] := by
  cases hmove with
  | write _ | finish _ => exact ⟨hpc, List.map_append⟩
  | tryPerformAction _ _ =>
      rw [tryPerformAction_completion, tryPerformAction_pushed]
      exact ⟨hpc, (List.append_nil _).symm⟩
  | asyncNext _ _ => exact ⟨hok, (List.append_nil _).symm⟩
  | setResult h | stateReady h =>
      rw [h] at hpc
      exact ⟨hpc, (List.append_nil _).symm⟩
  | delete _ => exact ⟨rfl, (List.append_nil _).symm⟩
  | finalizeWriteOk _ _ =>
      refine ⟨rfl, ?_⟩
      rw [drain_pushed]
      exact (List.append_nil _).symm
  | finalizeFinish h _ =>
      refine ⟨?_, (List.append_nil _).symm⟩
      simp only [finalizeFinish]
      split
      · rfl
      · exact hpc
  | finalizeWriteFailed h _ | finishPushed h =>
      rw [h] at hpc
      cases hpc

theorem pushed_of_run {response : Response} (hok : ∀ e ∈ es, CompletesOk e)
    (hpc : completingOk w.completion = true) (hrun : (system Unit Request response).run w es = some w') :
    w'.pushed.map (·.kind) = w.pushed.map (·.kind) ++ submitted es := by
  induction es generalizing w with
  | nil =>
      obtain rfl := Option.some.inj hrun
      exact (List.append_nil _).symm
  | cons e es ih =>
      obtain ⟨v, hstep, hrest⟩ := TransitionSystem.run_cons_eq_some.mp hrun
      rw [List.forall_mem_cons] at hok
      obtain ⟨hpc', hpushed⟩ := pushed_move hpc hok.1 (step_cases hstep).2
      rw [ih hok.2 hpc' hrest, hpushed, submitted_cons e es, List.append_assoc]

theorem eq_of_map_id_kind {l m : List (StreamAction Request)} (hid : l.map (·.id) = m.map (·.id))
    (hkind : l.map (·.kind) = m.map (·.kind)) : l = m := by
  induction l generalizing m with
  | nil => exact (List.map_eq_nil_iff.mp hid.symm).symm
  | cons a l ih =>
      cases m with
      | nil => cases hid
      | cons b m =>
          obtain ⟨hid', hids⟩ := List.cons.inj hid
          obtain ⟨hkind', hkinds⟩ := List.cons.inj hkind
          have hab : a = b := by
            cases a
            cases b
            exact congrArg₂ StreamAction.mk hid' hkind'
          rw [hab, ih hids hkinds]

theorem eq_of_inv (h : w.Inv) (h' : w'.Inv)
    (hkind : w.pushed.map (·.kind) = w'.pushed.map (·.kind)) : w.pushed = w'.pushed := by
  refine eq_of_map_id_kind ?_ hkind
  have hlength := congrArg List.length hkind
  have hids := congrArg List.length h.ids
  have hids' := congrArg List.length h'.ids
  simp only [List.length_map, List.length_range] at hlength hids hids'
  rw [h.ids, h'.ids]
  exact congrArg List.range (by omega)

theorem singleUser_initial (response : Response) :
    SingleUser (initial Unit Request response) :=
  ⟨initial_inv response, initial_fate response, Nat.le_refl _, Nat.zero_le _, nofun⟩

theorem singleUser_of_run {response : Response}
    (hrun : (system Unit Request response).run (initial Unit Request response) es = some w) :
    w.SingleUser := by
  refine TransitionSystem.run_invariant (I := SingleUser) ?_ ?_ hrun
  · exact fun v e v' h hstep => h.move (step_cases hstep).2
  · exact singleUser_initial response

theorem SingleUser.popped_eq (h : w.SingleUser) (hquiet : w.Quiescent) : w.popped = w.pushed := by
  rw [h.inv.order, h.bounded.emptied hquiet, List.append_nil]

theorem handedAll_iff {response : Response}
    (hrun : (system Unit Request response).run (initial Unit Request response) es = some w) :
    w.handed = w.popped ↔ (system Unit Request response).AllSteps (fun w e _ => w.TakesAlike e)
      (initial Unit Request response) es := by
  have hiff := TransitionSystem.run_iff_allSteps (I := SingleUser) (P := fun w => w.handed = w.popped)
    (C := fun w e _ => w.TakesAlike e) (fun _ _ _ h hstep => h.move (step_cases hstep).2)
    (fun _ _ _ h hstep => handedAll_move_iff h (step_cases hstep).2)
    (singleUser_initial response) hrun
  rw [hiff]
  exact and_iff_right rfl

theorem SingleUser.rejected_eq_nil (h : w.SingleUser) (hquiet : w.Quiescent)
    (hall : w.handed = w.popped) : w.rejected = [] := by
  rw [rejected, List.filter_eq_nil_iff]
  intro a ha
  rw [← h.popped_eq hquiet, ← hall] at ha
  split
  · rename_i ex hex
    exact absurd hex (h.fate.unrejected a ha ex)
  · nofun

/-- **Timing.** Of two runs with the same submissions that end quiescent, let one drop nothing and reject
nothing. Then the other one has the same outcome exactly when it drops and rejects nothing either. -/
theorem sameOutcome_iff_takesAlike {response : Response} (es es' : List (Event Unit Request Response))
    (hrun : (system Unit Request response).run (initial Unit Request response) es = some w)
    (hrun' : (system Unit Request response).run (initial Unit Request response) es' = some w')
    (hok : ∀ e ∈ es, CompletesOk e) (hok' : ∀ e ∈ es', CompletesOk e)
    (hsame : submitted es = submitted es') (hquiet : w.Quiescent) (hquiet' : w'.Quiescent)
    (htakes : (system Unit Request response).AllSteps (fun w e _ => w.TakesAlike e)
      (initial Unit Request response) es) :
    SameOutcome w w' ↔ (system Unit Request response).AllSteps (fun w e _ => w.TakesAlike e)
      (initial Unit Request response) es' := by
  have h := singleUser_of_run hrun
  have h' := singleUser_of_run hrun'
  have hpushed : w.pushed = w'.pushed := by
    apply eq_of_inv h.inv h'.inv
    rw [pushed_of_run hok rfl hrun, pushed_of_run hok' rfl hrun', hsame]
  have hall := (handedAll_iff hrun).mpr htakes
  rw [← handedAll_iff hrun']
  constructor
  · intro hsameOutcome
    rw [← hsameOutcome.handed, hall, h.popped_eq hquiet, h'.popped_eq hquiet', hpushed]
  · intro hall'
    refine ⟨?_, ?_⟩
    · rw [hall, hall', h.popped_eq hquiet, h'.popped_eq hquiet', hpushed]
    · rw [h.rejected_eq_nil hquiet hall, h'.rejected_eq_nil hquiet' hall']

end Runs

def completes (id : Nat) : List (Event Unit Request Response) :=
  [.asyncNext id true .OK none, .completion, .completion, .completion, .completion]

def writeIdle (options : WriteOptions) : List (Event Unit String String) :=
  [.write () "a" options, .tryPerformAction ()] ++ completes 0 ++
    [.write () "b" {}, .tryPerformAction ()] ++ completes 1

def writeDrained (options : WriteOptions) : List (Event Unit String String) :=
  [.write () "a" options, .tryPerformAction (), .asyncNext 0 true .OK none, .completion, .completion,
    .write () "b" {}, .completion, .completion, .tryPerformAction ()]

example : ∃ w w',
    (system Unit String "").run (initial Unit String "") (writeIdle {}) = some w ∧
    (system Unit String "").run (initial Unit String "") (writeDrained {} ++ completes 1) = some w' ∧
    w.Quiescent ∧ w'.Quiescent ∧ SameOutcome w w' := by
  refine ⟨_, _, rfl, rfl, ⟨rfl, rfl, rfl⟩, ⟨rfl, rfl, rfl⟩, ?_⟩
  refine (sameOutcome_iff_takesAlike (writeIdle {}) (writeDrained {} ++ completes 1) rfl rfl ?_ ?_ rfl
    ⟨rfl, rfl, rfl⟩ ⟨rfl, rfl, rfl⟩ ((handedAll_iff rfl).mp rfl)).mpr ((handedAll_iff rfl).mp rfl)
  · simp [writeIdle, completes, CompletesOk]
  · simp [writeDrained, completes, CompletesOk]

end EasyGrpc.Client.AsyncClientStreamWriter

import EasyGrpc.Client.ActionsMutex
import EasyGrpc.Proof.WriterInvariant

/-!
# The order of the hand-over

A section of `_actionsMutex` is atomic: with the action in hand put back, and with the rounds of the drain
loop still to come carried out, the state is one that the writer's own system reaches. What was handed over
is therefore a subsequence of what was pushed at every point of every section.
-/

namespace EasyGrpc.Client

namespace AsyncClientStreamWriter

variable {Tid Request Response : Type} {w w' : AsyncClientStreamWriter Tid Request Response}
  {a : StreamAction Request} {rest : List (StreamAction Request)}

def putBack (a : StreamAction Request) (w : AsyncClientStreamWriter Tid Request Response) :
    AsyncClientStreamWriter Tid Request Response :=
  { w with actions := a :: w.actions, popped := w.popped.dropLast }

theorem putBack_popAction (hq : w.actions = a :: rest) : (w.popAction a rest).putBack a = w := by
  calc
    (w.popAction a rest).putBack a
        = { w with actions := a :: rest, popped := (w.popped ++ [a]).dropLast } := rfl
    _ = w := by rw [List.dropLast_concat, ← hq]

theorem popAction_putBack (ha : w.popped.getLast? = some a) :
    (w.putBack a).popAction a w.actions = w := by
  calc
    (w.putBack a).popAction a w.actions = { w with popped := w.popped.dropLast ++ [a] } := rfl
    _ = w := by rw [List.dropLast_append_getLast? a ha]

theorem tryPerformAction_putBack (ha : w.popped.getLast? = some a) :
    (w.putBack a).tryPerformAction = w.tryPerformPopped a := by
  change ((w.putBack a).popAction a w.actions).tryPerformPopped a = _
  rw [popAction_putBack ha]

/-- What moves without `_actionsMutex` does not look at the queue. -/
theorem completionStep_putBack (hw : w.completionStep = some w')
    (hfree : ∀ b ok, w.completion = .stateReady b ok → b.isFinish = true)
    (hpushed : ∀ b, w.completion ≠ .finishPushed b) :
    (w.putBack a).completionStep = some (w'.putBack a) := by
  have hpc' : (w.putBack a).completion = w.completion := rfl
  cases hpc : w.completion with
  | idle => simp [completionStep, hpc] at hw
  | gotEvent b ok | resultSet b ok | finalized b =>
      simp only [completionStep, hpc, hpc', Option.some.injEq] at hw ⊢
      rw [← hw]
      rfl
  | finishPushed b => exact absurd hpc (hpushed b)
  | stateReady b ok =>
      have hfinish := hfree b ok hpc
      cases hkind : b.kind with
      | write message options => simp [StreamAction.isFinish, StreamAction.isWrite, hkind] at hfinish
      | finish =>
          simp only [completionStep, hpc, hpc', hkind, Option.some.injEq] at hw ⊢
          rw [← hw]
          rfl

end AsyncClientStreamWriter

namespace ActionsMutex

variable {Tid Request Response : Type} [DecidableEq Tid]

open AsyncClientStreamWriter

structure Placed (who : MutexHolder Tid) (pc : SectionPc Request)
    (w : AsyncClientStreamWriter Tid Request Response) : Prop where
  user : ∀ t, who = .user t →
    match pc with
    | .pushing _ => t ∉ w.callers
    | .trying | .popped _ | .performing _ => t ∈ w.callers
    | .draining _ _ | .drainPopped _ _ _ => False
  polling : who = .polling →
    match pc with
    | .pushing kind => kind = .finish ∧ ∃ a, w.completion = .stateReady a false ∧ a.isWrite = true
    | .trying | .popped _ | .performing _ => ∃ a, w.completion = .finishPushed a
    | .draining _ _ | .drainPopped _ _ _ => ∃ a, w.completion = .stateReady a true ∧ a.isWrite = true
  inHand :
    match pc with
    | .popped a => w.popped.getLast? = some a
    | .performing a => w.popped.getLast? = some a ∧ w.state = .ready
    | .drainPopped a _ _ => w.popped.getLast? = some a
    | .pushing _ | .trying | .draining _ _ => True

/-- What the section looks like to those outside: not begun as long as its holder has not acted, and over
once the drain loop has begun. -/
def atomicAt (w : AsyncClientStreamWriter Tid Request Response) :
    Option (MutexHolder Tid × SectionPc Request) → AsyncClientStreamWriter Tid Request Response
  | none => w
  | some (_, .pushing _) => w
  | some (_, .trying) => w
  | some (_, .popped a) => w.putBack a
  | some (_, .performing a) => w.putBack a
  | some (who, .draining last fin) => afterSection who (drain last fin w.actions w)
  | some (who, .drainPopped a last fin) =>
      afterSection who (drain last fin (a :: w.actions) (w.putBack a))

def atomic (s : ActionsMutex Tid Request Response) : AsyncClientStreamWriter Tid Request Response :=
  atomicAt s.writer s.holder

def Inv (s : ActionsMutex Tid Request Response) : Prop :=
  ∀ who pc, s.holder = some (who, pc) → Placed who pc s.writer

/-- The section of a step, seen from outside: nothing happened, or the whole section did. -/
def Atomically (w w' : AsyncClientStreamWriter Tid Request Response) : Prop :=
  w' = w ∨ ∃ e, w.step e = some w'

variable {w w' : AsyncClientStreamWriter Tid Request Response} {a : StreamAction Request} {ok : Bool}
  {who : MutexHolder Tid} {pc : SectionPc Request}

omit [DecidableEq Tid] in
theorem afterPush_stateReady (hpc : w.completion = .stateReady a ok) :
    afterPush .polling w = { w with completion := .finishPushed a } := by
  simp only [afterPush, hpc]

theorem afterSection_stateReady (hpc : w.completion = .stateReady a ok) :
    afterSection .polling w = { w with completion := .finalized a } := by
  simp only [afterSection, hpc]

theorem afterSection_finishPushed (hpc : w.completion = .finishPushed a) :
    afterSection .polling w = { w with completion := .finalized a } := by
  simp only [afterSection, hpc]

section Enter

variable {e : AsyncClientStreamWriter.Event Tid Request Response}

omit [DecidableEq Tid] in
/-- Of the moves of the polling thread, the drain loop and `finish` need the mutex. -/
theorem entersSection_completion (h : entersSection w .completion = some (who, pc)) :
    who = .polling ∧
      ((∃ a, w.completion = .stateReady a true ∧ a.isWrite = true ∧ pc = .draining a.isLastMessage false) ∨
       (∃ a, w.completion = .stateReady a false ∧ a.isWrite = true ∧ pc = .pushing .finish) ∨
       (∃ a, w.completion = .finishPushed a ∧ pc = .trying)) := by
  simp only [entersSection] at h
  split at h
  case h_1 a ok hpc =>
    split at h
    case h_1 message options hkind =>
      have ha : a.isWrite = true := by simp [StreamAction.isWrite, hkind]
      obtain ⟨rfl, rfl⟩ := Prod.mk.inj (Option.some.inj h)
      cases ok with
      | true => exact ⟨rfl, .inl ⟨a, hpc, ha, rfl⟩⟩
      | false => exact ⟨rfl, .inr (.inl ⟨a, hpc, ha, rfl⟩)⟩
    case h_2 => cases h
  case h_2 a hpc =>
    obtain ⟨rfl, rfl⟩ := Prod.mk.inj (Option.some.inj h)
    exact ⟨rfl, .inr (.inr ⟨a, hpc, rfl⟩)⟩
  case h_3 => cases h

theorem placed_of_entersSection (h : entersSection w e = some (who, pc)) (hmay : mayEnter w e = true) :
    Placed who pc w := by
  cases e with
  | write t _ _ | finish t | tryPerformAction t =>
      obtain ⟨rfl, rfl⟩ := Prod.mk.inj (Option.some.inj h)
      refine ⟨?_, (fun hwho => by cases hwho), trivial⟩
      intro t' ht'
      obtain rfl := MutexHolder.user.inj ht'
      simpa [mayEnter] using hmay
  | asyncNext _ _ _ _ => cases h
  | completion =>
      obtain ⟨rfl, hwhere⟩ := entersSection_completion h
      refine ⟨fun t ht => (by cases ht), fun _ => ?_, ?_⟩
      · obtain ⟨a, hpc, ha, rfl⟩ | ⟨a, hpc, ha, rfl⟩ | ⟨a, hpc, rfl⟩ := hwhere
        · exact ⟨a, hpc, ha⟩
        · exact ⟨rfl, a, hpc, ha⟩
        · exact ⟨a, hpc⟩
      · obtain ⟨a, -, -, rfl⟩ | ⟨a, -, -, rfl⟩ | ⟨a, -, rfl⟩ := hwhere <;> trivial

omit [DecidableEq Tid] in
theorem completionStep_of_isWrite (hpc : w.completion = .stateReady a ok) (ha : a.isWrite = true) :
    w.completionStep = some (w.finalizeWrite a ok) := by
  cases hkind : a.kind with
  | write message options => simp only [completionStep, hpc, hkind]
  | finish => simp [StreamAction.isWrite, hkind] at ha

theorem step_completion (hterm : w.terminated = false) : w.step .completion = w.completionStep := by
  simp only [AsyncClientStreamWriter.step, hterm]
  rfl

/-- The drain loop is over, for those outside, when it begins. -/
theorem atomically_enter (hterm : w.terminated = false) (h : entersSection w e = some (who, pc)) :
    Atomically w (atomicAt w (some (who, pc))) := by
  cases e with
  | write t _ _ | finish t | tryPerformAction t =>
      obtain ⟨rfl, rfl⟩ := Prod.mk.inj (Option.some.inj h)
      exact .inl rfl
  | asyncNext _ _ _ _ => cases h
  | completion =>
      obtain ⟨rfl, ⟨a, hpc, ha, rfl⟩ | ⟨a, hpc, ha, rfl⟩ | ⟨a, hpc, rfl⟩⟩ := entersSection_completion h
      · have hdrained := (drain_handedOver a.isLastMessage w.actions w).completion.trans hpc
        refine .inr ⟨.completion, ?_⟩
        rw [step_completion hterm, completionStep_of_isWrite hpc ha]
        simp only [atomicAt, finalizeWrite, if_true, afterSection_stateReady hdrained]
      · exact .inl rfl
      · exact .inl rfl

end Enter

section Outside

variable {e : AsyncClientStreamWriter.Event Tid Request Response}

structure Aside (w w' : AsyncClientStreamWriter Tid Request Response) : Prop where
  callers : w'.callers = w.callers
  popped : w'.popped = w.popped
  ready : w.state = .ready → w'.state = .ready

theorem aside_of_move (hfree : entersSection w e = none) (hmove : Move w e w') : Aside w w' := by
  cases hmove with
  | write _ | finish _ | tryPerformAction _ _ => cases hfree
  | asyncNext _ _ | setResult _ | finalizeFinish _ _ | delete _ => exact ⟨rfl, rfl, id⟩
  | stateReady _ => exact ⟨rfl, rfl, fun _ => rfl⟩
  | finalizeWriteOk hpc ha | finalizeWriteFailed hpc ha =>
      exfalso
      simp only [entersSection, hpc] at hfree
      split at hfree
      · cases hfree
      · rename_i hkind
        simp [StreamAction.isWrite, hkind] at ha
  | finishPushed hpc => simp [entersSection, hpc] at hfree

theorem step_putBack (hfree : entersSection w e = none) (hstep : w.step e = some w') :
    (w.putBack a).step e = some (w'.putBack a) := by
  cases e with
  | write _ _ _ | finish _ | tryPerformAction _ => cases hfree
  | asyncNext id ok status response =>
      simp only [AsyncClientStreamWriter.step] at hstep
      split at hstep
      · rename_i hterm hpc
        obtain ⟨b, hb, rfl⟩ := Option.map_eq_some_iff.mp hstep
        have hb' : (w.putBack a).outstanding.find? (·.id = id) = some b := hb
        simp only [AsyncClientStreamWriter.step]
        split
        · rw [hb']
          rfl
        · rename_i hbusy
          exact (hbusy hterm hpc).elim
      · cases hstep
  | completion =>
      have hterm := (step_cases hstep).1
      have hterm' : (w.putBack a).terminated = false := hterm
      rw [step_completion hterm] at hstep
      rw [step_completion hterm']
      refine completionStep_putBack hstep ?_ ?_
      · intro b ok hpc
        simp only [entersSection, hpc] at hfree
        split at hfree
        · cases hfree
        · rename_i hkind
          simp [StreamAction.isFinish, StreamAction.isWrite, hkind]
      · intro b hpc
        simp [entersSection, hpc] at hfree

/-- The polling thread is busy with its own section, so another holder is a user thread. -/
theorem Placed.eq_user (h : Placed who pc w) (hfree : entersSection w e = none)
    (hmove : Move w e w') : ∃ t, who = .user t := by
  cases who with
  | user t => exact ⟨t, rfl⟩
  | polling =>
      exfalso
      have hbusy : w.completion ≠ .idle ∧ (entersSection w .completion).isSome = true := by
        have hpolling := h.polling rfl
        have hwrite : ∀ a ok, w.completion = .stateReady a ok → a.isWrite = true →
            w.completion ≠ .idle ∧ (entersSection w .completion).isSome = true := by
          intro a ok hpc ha
          refine ⟨by simp [hpc], ?_⟩
          simp only [entersSection, hpc]
          split
          · rfl
          · rename_i hkind
            simp [StreamAction.isWrite, hkind] at ha
        cases pc with
        | pushing kind =>
            obtain ⟨-, a, hpc, ha⟩ := hpolling
            exact hwrite a false hpc ha
        | trying | popped _ | performing _ =>
            obtain ⟨a, hpc⟩ := hpolling
            exact ⟨by simp [hpc], by simp [entersSection, hpc]⟩
        | draining _ _ | drainPopped _ _ _ =>
            obtain ⟨a, hpc, ha⟩ := hpolling
            exact hwrite a true hpc ha
      cases e with
      | write _ _ _ | finish _ | tryPerformAction _ => cases hfree
      | asyncNext _ _ _ _ =>
          cases hmove with
          | asyncNext hpc _ => exact hbusy.1 hpc
      | completion =>
          rw [hfree] at hbusy
          exact Bool.noConfusion hbusy.2

omit [DecidableEq Tid] in
theorem Placed.aside (h : Placed who pc w) (haside : Aside w w') (hwho : ∃ t, who = .user t) :
    Placed who pc w' := by
  obtain ⟨t, rfl⟩ := hwho
  refine ⟨?_, (fun hwho => by cases hwho), ?_⟩
  · rw [haside.callers]
    exact h.user
  · have hhand := h.inHand
    rw [haside.popped]
    cases pc with
    | performing a => exact ⟨hhand.1, haside.ready hhand.2⟩
    | _ => exact hhand

theorem Placed.atomically_outside (h : Placed who pc w) (hfree : entersSection w e = none)
    (hstep : w.step e = some w') :
    Placed who pc w' ∧ Atomically (atomicAt w (some (who, pc))) (atomicAt w' (some (who, pc))) := by
  have hmove := (step_cases hstep).2
  have hwho := h.eq_user hfree hmove
  refine ⟨h.aside (aside_of_move hfree hmove) hwho, ?_⟩
  obtain ⟨t, rfl⟩ := hwho
  have huser := h.user t rfl
  cases pc with
  | pushing _ | trying => exact .inr ⟨e, hstep⟩
  | popped a | performing a => exact .inr ⟨e, step_putBack hfree hstep⟩
  | draining _ _ | drainPopped _ _ _ => exact huser.elim

end Outside

section Holder

theorem atomically_push {kind : StreamActionKind Request} (hterm : w.terminated = false)
    (h : Placed who (.pushing kind) w) : Atomically w (afterPush who (w.newAction kind)) := by
  right
  cases who with
  | user t =>
      have ht : t ∉ w.callers := h.user t rfl
      cases kind with
      | write message options =>
          refine ⟨.write t message options, ?_⟩
          simp only [AsyncClientStreamWriter.step, hterm, ht, or_self, if_false, Bool.false_eq_true]
          rfl
      | finish =>
          refine ⟨.finish t, ?_⟩
          simp only [AsyncClientStreamWriter.step, hterm, ht, or_self, if_false, Bool.false_eq_true]
          rfl
  | polling =>
      obtain ⟨rfl, a, hpc, ha⟩ := h.polling rfl
      have hpc' : (w.newAction .finish).completion = .stateReady a false := hpc
      refine ⟨.completion, ?_⟩
      rw [step_completion hterm, completionStep_of_isWrite hpc ha, afterPush_stateReady hpc']
      rfl

/-- A `tryPerformAction` that has come to its end was one step. -/
theorem atomically_try (hterm : w.terminated = false) (huser : ∀ t, who = .user t → t ∈ w.callers)
    (hpolling : who = .polling → ∃ b, w.completion = .finishPushed b)
    (hmutex : w.state = .ready → w.stateMutexHeld = true → w.actions.isEmpty = true) :
    Atomically w (afterSection who w.tryPerformAction) := by
  right
  cases who with
  | user t =>
      refine ⟨.tryPerformAction t, ?_⟩
      have hguard : ¬ (w.terminated = true ∨ t ∉ w.callers ∨
          (w.state = .ready ∧ w.stateMutexHeld = true ∧ w.actions.isEmpty = false)) := by
        rintro (hdead | hout | ⟨hready, hheld, hqueued⟩)
        · rw [hterm] at hdead
          cases hdead
        · exact hout (huser t rfl)
        · rw [hmutex hready hheld] at hqueued
          cases hqueued
      simp only [AsyncClientStreamWriter.step, if_neg hguard, afterSection, tryPerformAction_callers]
  | polling =>
      obtain ⟨b, hpc⟩ := hpolling rfl
      have hpc' := w.tryPerformAction_completion.trans hpc
      refine ⟨.completion, ?_⟩
      rw [step_completion hterm, afterSection_finishPushed hpc']
      simp only [completionStep, hpc]

/-- The queue without its front, which the holder has in hand. -/
theorem Placed.atomically_popped (hterm : w.terminated = false) (ha : w.popped.getLast? = some a)
    (huser : ∀ t, who = .user t → t ∈ w.callers)
    (hpolling : who = .polling → ∃ b, w.completion = .finishPushed b)
    (hmutex : w.state = .ready → w.stateMutexHeld = false) :
    Atomically (w.putBack a) (afterSection who (w.tryPerformPopped a)) := by
  rw [← tryPerformAction_putBack ha]
  refine atomically_try (w := w.putBack a) hterm huser hpolling ?_
  intro hready hheld
  have hfree : (w.putBack a).stateMutexHeld = false := hmutex hready
  rw [hfree] at hheld
  cases hheld

omit [DecidableEq Tid] in
theorem Placed.popAction {rest : List (StreamAction Request)}
    (h : Placed who .trying w) : Placed who (.popped a) (w.popAction a rest) :=
  ⟨h.user, h.polling, List.getLast?_concat⟩

omit [DecidableEq Tid] in
theorem Placed.drainPop {last fin : Bool} {rest : List (StreamAction Request)}
    (h : Placed who (.draining last fin) w) :
    Placed who (.drainPopped a last fin) (w.popAction a rest) :=
  ⟨h.user, h.polling, List.getLast?_concat⟩

omit [DecidableEq Tid] in
theorem Placed.drainNext {last fin fin' : Bool} (h : Placed who (.drainPopped a last fin) w)
    (hpc : w'.completion = w.completion) : Placed who (.draining last fin') w' :=
  ⟨h.user, (fun hwho => hpc ▸ h.polling hwho), trivial⟩

omit [DecidableEq Tid] in
theorem inv_of_placed (h : Placed who pc w) : Inv { writer := w, holder := some (who, pc) } := by
  intro who' pc' heq
  obtain ⟨rfl, rfl⟩ := Prod.mk.inj (Option.some.inj heq)
  exact h

omit [DecidableEq Tid] in
theorem inv_of_free (w : AsyncClientStreamWriter Tid Request Response) : Inv { writer := w } := by
  intro who pc heq
  cases heq

structure DrainRound (last fin fin' : Bool) (a : StreamAction Request)
    (w v : AsyncClientStreamWriter Tid Request Response) : Prop where
  completion : v.completion = w.completion
  actions : v.actions = w.actions
  drain : drain last fin (a :: w.actions) (w.putBack a) = drain last fin' w.actions v

theorem drain_round {s : ActionsMutex Tid Request Response} {last fin : Bool}
    (ha : w.popped.getLast? = some a) (hstep : holderStep who w (.drainPopped a last fin) = some s) :
    ∃ v fin', s = { writer := v, holder := some (who, .draining last fin') } ∧
      DrainRound last fin fin' a w v := by
  have hback := popAction_putBack ha
  cases hkind : a.kind with
  | write message options =>
      simp only [holderStep, hkind] at hstep
      split at hstep
      · rename_i hlast
        refine ⟨_, _, (Option.some.inj hstep).symm, rfl, rfl, ?_⟩
        simp only [drain, hback, hkind, if_pos hlast]
      · rename_i hlast
        split at hstep
        · rename_i hfin
          refine ⟨_, _, (Option.some.inj hstep).symm, rfl, rfl, ?_⟩
          simp only [drain, hback, hkind, if_neg hlast, if_pos hfin]
        · rename_i hfin
          refine ⟨_, _, (Option.some.inj hstep).symm, rfl, rfl, ?_⟩
          simp only [drain, hback, hkind, if_neg hlast, if_neg hfin]
  | finish =>
      simp only [holderStep, hkind] at hstep
      split at hstep
      · rename_i hfin
        refine ⟨_, _, (Option.some.inj hstep).symm, rfl, rfl, ?_⟩
        simp only [drain, hback, hkind, if_pos hfin]
      · rename_i hfin
        refine ⟨_, _, (Option.some.inj hstep).symm, rfl, rfl, ?_⟩
        simp only [drain, hback, hkind, if_neg hfin]

theorem Placed.atomically_holder {s : ActionsMutex Tid Request Response} (h : Placed who pc w)
    (hterm : w.terminated = false) (hstep : holderStep who w pc = some s) :
    Inv s ∧ Atomically (atomicAt w (some (who, pc))) s.atomic := by
  cases pc with
  | pushing kind =>
      obtain rfl := Option.some.inj hstep
      exact ⟨inv_of_free _, atomically_push hterm h⟩
  | trying =>
      simp only [holderStep] at hstep
      split at hstep
      · rename_i hq
        obtain rfl := Option.some.inj hstep
        have hsame : w.tryPerformAction = w := by simp only [tryPerformAction, hq]
        have hdone := atomically_try hterm h.user h.polling fun _ _ => by simp [hq]
        rw [hsame] at hdone
        exact ⟨inv_of_free _, hdone⟩
      · rename_i a rest hq
        obtain rfl := Option.some.inj hstep
        exact ⟨inv_of_placed h.popAction, .inl (putBack_popAction hq)⟩
  | popped a =>
      have hdone := Placed.atomically_popped hterm h.inHand h.user h.polling
      simp only [holderStep] at hstep
      split at hstep
      · rename_i hready
        obtain rfl := Option.some.inj hstep
        exact ⟨inv_of_placed ⟨h.user, h.polling, h.inHand, hready⟩, .inl rfl⟩
      · rename_i hfinished
        obtain rfl := Option.some.inj hstep
        refine ⟨inv_of_free _, ?_⟩
        simpa [tryPerformPopped, hfinished, atomic, atomicAt] using hdone
      · rename_i hprocessing
        obtain rfl := Option.some.inj hstep
        refine ⟨inv_of_free _, ?_⟩
        simpa [tryPerformPopped, hprocessing, atomic, atomicAt] using hdone
  | performing a =>
      simp only [holderStep] at hstep
      split at hstep
      · cases hstep
      · rename_i hmutex
        obtain rfl := Option.some.inj hstep
        have hdone := Placed.atomically_popped hterm h.inHand.1 h.user h.polling fun _ => by
          simpa using hmutex
        refine ⟨inv_of_free _, ?_⟩
        simpa [tryPerformPopped, h.inHand.2, atomic, atomicAt] using hdone
  | draining last fin =>
      simp only [holderStep] at hstep
      split at hstep
      · rename_i hq
        obtain rfl := Option.some.inj hstep
        refine ⟨inv_of_free _, .inl ?_⟩
        simp only [atomic, atomicAt, hq, drain]
      · rename_i a rest hq
        obtain rfl := Option.some.inj hstep
        refine ⟨inv_of_placed h.drainPop, .inl ?_⟩
        simp only [atomic, atomicAt, putBack_popAction hq]
        rw [hq]
        rfl
  | drainPopped a last fin =>
      obtain ⟨v, fin', rfl, hround⟩ := drain_round h.inHand hstep
      refine ⟨inv_of_placed (h.drainNext hround.completion), .inl ?_⟩
      simp only [atomic, atomicAt, hround.drain, hround.actions]

end Holder

section Refinement

variable {s s' : ActionsMutex Tid Request Response}

/-- A step of the lock's holder or of another thread is, from outside, a step of the writer or none. -/
theorem Inv.step {l : Event Tid Request Response} (h : Inv s) (hstep : s.step l = some s') :
    Inv s' ∧ Atomically s.atomic s'.atomic := by
  cases l with
  | outside e =>
      simp only [ActionsMutex.step] at hstep
      split at hstep
      · cases hstep
      · rename_i hterm
        have hterm' : s.writer.terminated = false := by simpa using hterm
        split at hstep
        · rename_i entry henter
          obtain ⟨who, pc⟩ := entry
          split at hstep
          · rename_i hguard
            obtain rfl := Option.some.inj hstep
            have hfree : s.holder = none := by simpa using hguard.1
            refine ⟨inv_of_placed (placed_of_entersSection henter hguard.2), ?_⟩
            rw [atomic, hfree]
            exact atomically_enter hterm' henter
          · cases hstep
        · rename_i hfree
          obtain ⟨w, hw, rfl⟩ := Option.map_eq_some_iff.mp hstep
          cases hholder : s.holder with
          | none =>
              refine ⟨?_, .inr ⟨e, ?_⟩⟩
              · simpa [hholder] using inv_of_free w
              · simp only [atomic, hholder]
                exact hw
          | some entry =>
              obtain ⟨who, pc⟩ := entry
              obtain ⟨hplaced, hdone⟩ := (h who pc hholder).atomically_outside hfree hw
              refine ⟨?_, ?_⟩
              · simpa [hholder] using inv_of_placed hplaced
              · simpa [atomic, hholder] using hdone
  | holder =>
      simp only [ActionsMutex.step] at hstep
      split at hstep
      · cases hstep
      · rename_i hterm
        have hterm' : s.writer.terminated = false := by simpa using hterm
        obtain ⟨⟨who, pc⟩, hholder, hmove⟩ := Option.bind_eq_some_iff.mp hstep
        have hdone := (h who pc hholder).atomically_holder hterm' hmove
        simpa [atomic, hholder] using hdone

/-- **Atomicity.** The writer's own system, in which a section is one step, has every state that sections
of many steps lead to. -/
theorem atomic_reachable {response : Response} (hs : (system Tid Request response).Reachable s) :
    Inv s ∧ (AsyncClientStreamWriter.system Tid Request response).Reachable s.atomic := by
  refine hs.simulates atomic ?_ fun s l s' h hstep => ?_
  · rintro s rfl
    exact ⟨inv_of_free _, rfl⟩
  · exact h.step hstep

end Refinement

section Order

omit [DecidableEq Tid]

theorem drain_handed_prefix (last fin : Bool) {q : List (StreamAction Request)} (hq : w.actions = q) :
    w.handed <+: (drain last fin q w).handed ∧ (drain last fin q w).pushed = w.pushed := by
  apply drain_induction (P := fun v => w.handed <+: v.handed ∧ v.pushed = w.pushed) ?_ ?_ last fin hq
  · exact ⟨List.prefix_rfl, rfl⟩
  · rintro v a rest - ⟨hhanded, hpushed⟩
    exact ⟨hhanded.trans (List.prefix_append _ _), hpushed⟩
  · rintro v a rest message - ⟨hhanded, hpushed⟩
    exact ⟨hhanded, hpushed⟩

variable [DecidableEq Tid]

theorem afterSection_history (who : MutexHolder Tid) (w : AsyncClientStreamWriter Tid Request Response) :
    (afterSection who w).handed = w.handed ∧ (afterSection who w).pushed = w.pushed := by
  unfold afterSection
  split
  · exact ⟨rfl, rfl⟩
  · split <;> exact ⟨rfl, rfl⟩

/-- A section under way has handed over a beginning of what it will hand over. -/
theorem handed_prefix_atomic (s : ActionsMutex Tid Request Response) :
    s.writer.handed <+: s.atomic.handed ∧ s.atomic.pushed = s.writer.pushed := by
  cases hholder : s.holder with
  | none => simp [atomic, atomicAt, hholder]
  | some entry =>
      obtain ⟨who, pc⟩ := entry
      cases pc with
      | pushing _ | trying | popped _ | performing _ => simp [atomic, atomicAt, hholder, putBack]
      | draining last fin =>
          have hdrained := drain_handed_prefix (w := s.writer) last fin rfl
          simpa only [atomic, atomicAt, hholder, afterSection_history] using hdrained
      | drainPopped a last fin =>
          have hdrained : s.writer.handed <+: _ ∧ _ = s.writer.pushed :=
            drain_handed_prefix (w := s.writer.putBack a) last fin (q := a :: s.writer.actions) rfl
          simpa only [atomic, atomicAt, hholder, afterSection_history] using hdrained

end Order

end ActionsMutex

namespace AsyncClientStreamWriter

variable {Tid Request Response : Type} {w : AsyncClientStreamWriter Tid Request Response}

/-- What gRPC was given is a subsequence of what was pushed, and no action overtook another. -/
structure HandedInOrder (w : AsyncClientStreamWriter Tid Request Response) : Prop where
  subsequence : w.handed.Sublist w.pushed
  noOvertaking : ∀ a b, [a, b].Sublist w.handed → ¬ [b, a].Sublist w.pushed

theorem Inv.id_lt_of_pushed (h : Inv w) {a b : StreamAction Request} (hab : [a, b].Sublist w.pushed) :
    a.id < b.id := by
  have hincreasing : (w.pushed.map (·.id)).Pairwise (· < ·) := by
    rw [h.ids]
    exact List.pairwise_lt_range
  have hpair := (List.pairwise_map.mp hincreasing).sublist hab
  exact List.rel_of_pairwise_cons hpair List.mem_cons_self

theorem Inv.handedInOrder {v : AsyncClientStreamWriter Tid Request Response} (h : Inv w)
    (hhanded : v.handed <+: w.handed) (hpushed : w.pushed = v.pushed) : HandedInOrder v := by
  have hsub : v.handed.Sublist w.pushed := by
    rw [h.order]
    exact (hhanded.sublist.trans h.handed_sublist).trans (List.sublist_append_left _ _)
  refine ⟨hpushed ▸ hsub, ?_⟩
  intro a b hab hba
  have hlt := h.id_lt_of_pushed (hab.trans hsub)
  have hgt := h.id_lt_of_pushed (hpushed ▸ hba)
  omega

end AsyncClientStreamWriter

namespace ActionsMutex

variable {Tid Request Response : Type} [DecidableEq Tid]

/-- **Submission order.** Whatever the threads, the interleaving of their sections and the results of the
operations, what gRPC was given so far is a subsequence of what was pushed, at every point of a section. -/
theorem handedInOrder_of_reachable (response : Response) (s : ActionsMutex Tid Request Response)
    (hs : (system Tid Request response).Reachable s) : s.writer.HandedInOrder := by
  obtain ⟨-, hatomic⟩ := atomic_reachable hs
  obtain ⟨hhanded, hpushed⟩ := s.handed_prefix_atomic
  have hinv : s.atomic.Inv := by
    refine hatomic.invariant ?_ ?_
    · rintro w rfl
      exact AsyncClientStreamWriter.initial_inv response
    · exact fun w e w' h _ hstep => h.move (AsyncClientStreamWriter.step_cases hstep).2
  exact hinv.handedInOrder hhanded hpushed

def crossedPops : List (Event Bool String String) :=
  [.outside (.write false "a" {}), .holder,
    .outside (.tryPerformAction false), .holder, .holder, .holder,
    .outside (.write true "b" {}), .holder,
    .outside (.asyncNext 0 false .OK none), .outside .completion, .outside .completion,
    .outside .completion, .holder, .outside .completion, .holder, .holder, .holder,
    .outside .completion, .outside (.asyncNext 1 true .OK none), .outside .completion,
    .outside .completion, .outside (.tryPerformAction true), .holder, .holder, .holder]

theorem handedInOrder_crossedPops : ∃ s, (system Bool String "").run
    { writer := .initial Bool String "" } crossedPops = some s ∧
    s.writer.handed.map (·.id) = [0, 1, 2] ∧ s.writer.HandedInOrder := by
  refine ⟨_, rfl, rfl, handedInOrder_of_reachable "" _ ?_⟩
  exact TransitionSystem.reachable_of_run crossedPops (.init rfl) rfl

end ActionsMutex

end EasyGrpc.Client
